import Quicp.Library.Reachable

/-!
# Timers of the host runtime

A poll and a reset of a timer hold the clock while they look at its deadline, and a drive advances the clock before it
looks at the timers one by one.
-/

namespace Quicp

namespace HostTimers

structure TimerData where
  deadline : ℕ
  waker : Option ℕ
  deriving DecidableEq

/-- Where a drive is with the timers: it has advanced the clock, or still has to wake some that are due. -/
inductive Sweep
  | idle
  | advanced
  | sweeping (timers : List ℕ)
  deriving DecidableEq

structure State where
  epoch : ℕ
  elapsed : ℕ
  now : ℕ
  lastInstant : ℕ
  stopped : Bool
  timers : List ℕ
  data : ℕ → TimerData
  live : ℕ → Bool
  created : ℕ → Bool
  sweep : Sweep

/-- What can happen next; `wakeDueTimers` is the next step of the drive. -/
inductive Action
  | newTimer (timer deadline : ℕ)
  | poll (timer waker : ℕ)
  | reset (timer deadline : ℕ)
  | drop (timer : ℕ)
  | drive (elapsed : ℕ)
  | wakeDueTimers
  | shutdown

open Function (update)

/-- A timer with a deadline, and the waker that is woken because it is due. -/
def expire (s : State) (timer deadline : ℕ) : TimerData × Option ℕ :=
  if deadline ≤ s.now then (⟨deadline, none⟩, (s.data timer).waker) else (⟨deadline, (s.data timer).waker⟩, none)

/-- `new_timer`, `poll`, `reset`, `advance`, `wake_due_timers` and `shutdown`. -/
def apply (s : State) : Action → State
  | .newTimer timer deadline =>
    { s with
      timers := s.timers ++ [timer]
      data := update s.data timer ⟨deadline, none⟩
      live := update s.live timer true
      created := update s.created timer true }
  | .poll timer waker =>
    if (s.data timer).deadline ≤ s.now then s
    else { s with data := update s.data timer ⟨(s.data timer).deadline, some waker⟩ }
  | .reset timer deadline => { s with data := update s.data timer (expire s timer deadline).1 }
  | .drop timer => { s with live := update s.live timer false }
  | .drive elapsed =>
    if s.stopped ∨ elapsed < s.elapsed ∨ s.lastInstant < s.epoch + elapsed then s
    else { s with elapsed := elapsed, now := s.epoch + elapsed, sweep := .advanced }
  | .wakeDueTimers =>
    match s.sweep with
    | .idle => s
    | .advanced =>
      let alive := s.timers.filter s.live
      { s with timers := alive, sweep := .sweeping alive }
    | .sweeping [] => { s with sweep := .idle }
    | .sweeping (timer :: rest) =>
      { s with data := update s.data timer (expire s timer (s.data timer).deadline).1, sweep := .sweeping rest }
  | .shutdown => { s with stopped := true, timers := [] }

def wakes (s : State) : Action → Option ℕ
  | .reset timer deadline => (expire s timer deadline).2
  | .wakeDueTimers =>
    match s.sweep with
    | .sweeping (timer :: _) => (expire s timer (s.data timer).deadline).2
    | _ => none
  | _ => none

def Allows (s : State) : Action → Prop
  | .newTimer timer _ => s.created timer = false
  | .poll timer _ | .reset timer _ | .drop timer => s.live timer = true
  | .drive _ | .shutdown => s.sweep = .idle
  | .wakeDueTimers => True

instance (s : State) (action : Action) : Decidable (Allows s action) := by
  cases action <;> unfold Allows <;> infer_instance

def Step (s : State) (action : Action) (t : State) : Prop := Allows s action ∧ t = apply s action

structure Initial (s : State) : Prop where
  elapsed : s.elapsed = 0
  now : s.now = s.epoch
  live : ∀ timer, s.live timer = false
  sweep : s.sweep = .idle

/-- The deadlines of the timers that wait, from the creation of the runtime on. -/
def waiting (s : State) : List ℕ :=
  (s.timers.filter fun timer => s.live timer && (s.data timer).waker.isSome).map fun timer =>
    (s.data timer).deadline - s.epoch

def nextTimer (s : State) : Option ℕ := if s.stopped then none else (waiting s).min?

def Sweep.covers (timers : List ℕ) (timer : ℕ) : Sweep → Prop
  | .idle => False
  | .advanced => timer ∈ timers
  | .sweeping left => timer ∈ left

structure Inv (s : State) : Prop where
  due : ∀ timer, s.live timer = true → (s.data timer).waker.isSome = true →
    s.now < (s.data timer).deadline ∨ s.sweep.covers s.timers timer
  known : s.stopped = false → ∀ timer, s.live timer = true → timer ∈ s.timers
  clock : s.now = s.epoch + s.elapsed
  stopped : s.stopped = true → s.sweep = .idle
  created : ∀ timer, s.live timer = true → s.created timer = true

variable {s t : State} {action : Action}

theorem Initial.inv (h : Initial s) : Inv s := by
  obtain ⟨elapsed, now, live, sweep⟩ := h
  constructor <;> grind -linarith

theorem Sweep.covers_append {timers : List ℕ} {timer : ℕ} {sweep : Sweep} (h : sweep.covers timers timer) (other : ℕ) :
    sweep.covers (timers ++ [other]) timer := by
  cases sweep with
  | idle => exact h
  | advanced => exact List.mem_append_left _ h
  | sweeping left => exact h

theorem Inv.step (h : Inv s) (hstep : Step s action t) : Inv t := by
  obtain ⟨hallows, rfl⟩ := hstep
  obtain ⟨due, known, clock, stopped, created⟩ := h
  unfold Allows at hallows
  unfold apply
  cases action with
  | newTimer timer deadline =>
    have hcovers := fun other (h : s.sweep.covers s.timers other) => Sweep.covers_append h timer
    constructor <;> grind -linarith [Function.update_apply]
  | poll timer waker =>
    dsimp only
    split_ifs <;> constructor <;> grind -linarith [Function.update_apply]
  | reset timer deadline =>
    constructor <;> grind -linarith [Function.update_apply, expire]
  | drop timer => constructor <;> grind -linarith [Function.update_apply]
  | drive elapsed =>
    -- The clock passes deadlines of timers that the sweep looks at.
    dsimp only
    split_ifs <;> constructor <;> grind -linarith [Sweep.covers]
  | wakeDueTimers =>
    dsimp only
    cases hsweep : s.sweep with
    | idle => constructor <;> grind -linarith
    | advanced => constructor <;> grind -linarith [Sweep.covers]
    | sweeping left =>
      cases left with
      | nil => constructor <;> grind -linarith [Sweep.covers]
      | cons timer rest => constructor <;> grind -linarith [Function.update_apply, Sweep.covers, expire]
  | shutdown => constructor <;> grind -linarith [Sweep.covers]

theorem inv_of_reachable (h : Reachable Initial Step s) : Inv s :=
  Reachable.invariant (fun _ hs => hs.inv) (fun _ _ _ hs hstep => hs.step hstep) h

theorem mem_waiting (h : Inv s) (hstopped : s.stopped = false) {next : ℕ} : next ∈ waiting s ↔
    ∃ timer, s.live timer = true ∧ (s.data timer).waker.isSome = true ∧ (s.data timer).deadline - s.epoch = next := by
  unfold waiting
  have hknown := h.known hstopped
  grind -linarith

theorem waker_of_step (hstep : Step s action t) {timer waker : ℕ} (hlive : s.live timer = true)
    (hinv : Inv s) (hwaker : (s.data timer).waker = some waker) : (t.data timer).waker = some waker ∨
      (∃ other, action = .poll timer other) ∨ (wakes s action = some waker ∧ (t.data timer).deadline ≤ t.now) := by
  obtain ⟨hallows, rfl⟩ := hstep
  have hcreated := hinv.created timer hlive
  unfold Allows at hallows
  unfold apply wakes
  cases action with
  | wakeDueTimers =>
    dsimp only
    cases hsweep : s.sweep with
    | sweeping left => cases left <;> grind -linarith [Function.update_apply, expire]
    | _ => exact .inl hwaker
  | poll other waker' =>
    by_cases hsame : other = timer
    · exact .inr (.inl ⟨waker', by rw [hsame]⟩)
    · refine .inl ?_
      dsimp only
      split_ifs
      · exact hwaker
      · dsimp only
        rwa [Function.update_of_ne (Ne.symm hsame)]
  | _ => grind -linarith [Function.update_apply, expire]

theorem due_of_wakes {waker : ℕ} (h : wakes s action = some waker) : ∃ timer, (s.data timer).waker = some waker ∧
    ((apply s action).data timer).deadline ≤ (apply s action).now := by
  unfold wakes at h
  unfold apply
  cases action with
  | reset timer deadline =>
    refine ⟨timer, ?_⟩
    grind -linarith [Function.update_apply, expire]
  | wakeDueTimers =>
    dsimp only at h ⊢
    split at h
    · next timer rest hsweep =>
      refine ⟨timer, ?_⟩
      rw [hsweep]
      grind -linarith [Function.update_apply, expire]
    · cases h
  | _ => cases h

/-- In every interleaving, outside of the part of a drive that wakes timers, a timer that holds a waker has a deadline
after the clock. The next timer is the first of these deadlines, after the last elapsed time. A waker stays until a poll
replaces it or until the reset or the drive that makes its deadline due wakes it, and none is woken before. -/
theorem timers_fire_on_time (h : Reachable Initial Step s) :
    (s.sweep = .idle → ∀ timer, s.live timer = true → (s.data timer).waker.isSome = true →
      s.now < (s.data timer).deadline) ∧
    (s.sweep = .idle → s.stopped = false → match nextTimer s with
      | none => ∀ timer, s.live timer = true → (s.data timer).waker = none
      | some next => s.elapsed < next ∧
        (∃ timer, s.live timer = true ∧ (s.data timer).waker.isSome = true ∧ (s.data timer).deadline - s.epoch = next) ∧
          ∀ timer, s.live timer = true → (s.data timer).waker.isSome = true →
            next ≤ (s.data timer).deadline - s.epoch) ∧
    (∀ action t timer waker, Step s action t → s.live timer = true → (s.data timer).waker = some waker →
      (t.data timer).waker = some waker ∨ (∃ other, action = .poll timer other) ∨
        (wakes s action = some waker ∧ (t.data timer).deadline ≤ t.now)) ∧
    ∀ action t waker, Step s action t → wakes s action = some waker → ∃ timer, (s.data timer).waker = some waker ∧
      (t.data timer).deadline ≤ t.now := by
  have hinv := inv_of_reachable h
  have hafter : s.sweep = .idle → ∀ timer, s.live timer = true → (s.data timer).waker.isSome = true →
      s.now < (s.data timer).deadline := by
    intro hidle timer hlive hwaker
    have hdue := hinv.due timer hlive hwaker
    rw [hidle] at hdue
    exact hdue.resolve_right id
  refine ⟨hafter, fun hidle hstopped => ?_, fun action t timer waker hstep hlive => ?_, ?_⟩
  · have hmem : ∀ {next}, next ∈ waiting s ↔ _ := mem_waiting hinv hstopped
    rw [nextTimer, hstopped, if_neg Bool.false_ne_true]
    cases hnext : (waiting s).min? with
    | none =>
      intro timer hlive
      by_contra hwaker
      have hnone := List.min?_eq_none_iff.mp hnext
      have hsome := hmem.mpr ⟨timer, hlive, Option.isSome_iff_ne_none.mpr hwaker, rfl⟩
      rw [hnone] at hsome
      exact List.not_mem_nil hsome
    | some next =>
      obtain ⟨hfirst, hleast⟩ := List.min?_eq_some_iff.mp hnext
      obtain ⟨timer, hlive, hwaker, heq⟩ := hmem.mp hfirst
      refine ⟨?_, hmem.mp hfirst, fun other hother hwoken => hleast _ (hmem.mpr ⟨other, hother, hwoken, rfl⟩)⟩
      have hdeadline := hafter hidle timer hlive hwaker
      have hclock := hinv.clock
      omega
  · exact waker_of_step hstep hlive hinv
  · rintro action _ waker ⟨_, rfl⟩ hwakes
    exact due_of_wakes hwakes

def sample : State :=
  ⟨5, 0, 5, 2000000005, false, [], fun _ => ⟨0, none⟩, fun _ => false, fun _ => false, .idle⟩

def sampleActions : List Action :=
  [.newTimer 0 15, .poll 0 7, .newTimer 1 25, .poll 1 8, .drive 10, .wakeDueTimers, .wakeDueTimers, .wakeDueTimers,
    .wakeDueTimers]

theorem timers_fire_on_time_second : nextTimer (sampleActions.foldl apply sample) = some 20 ∧
    (sampleActions.foldl apply sample).elapsed < 20 := by
  have hstart : Reachable Initial Step sample := .start ⟨rfl, rfl, fun _ => rfl, rfl⟩
  have hpermits : Reachable.Permits Allows apply sample sampleActions := by decide
  have hrun := hstart.run (fun _ _ hallows => ⟨hallows, rfl⟩) hpermits
  have hnext : nextTimer (sampleActions.foldl apply sample) = some 20 := by decide
  have htimers := (timers_fire_on_time hrun).2.1 (by decide) (by decide)
  rw [hnext] at htimers
  exact ⟨hnext, htimers.1⟩

end HostTimers

end Quicp
