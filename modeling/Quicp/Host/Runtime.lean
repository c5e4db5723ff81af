import Quicp.Library.Reachable

/-!
# The host runtime

Tasks are scheduled by wakes from any thread and polled by the one drive call that holds the guard.
-/

namespace Quicp

namespace HostRuntime

/-- Where the drive or shutdown call is that holds the guard. -/
inductive Driver
  | idle
  | advancing (maxTasks : ℕ)
  | polling (left : ℕ)
  | popped (task left : ℕ)
  | running (task left : ℕ)
  | finishing (task left : ℕ) (panicked : Bool)
  | notifying
  | clearing
  | taking
  | dropping (tasks : List ℕ)
  | cancelling (task : ℕ) (tasks : List ℕ)

inductive PollOutcome
  | pending
  | ready
  | panicked

structure State where
  ready : List ℕ
  tasks : List ℕ
  queued : ℕ → Bool
  future : ℕ → Bool
  stopped : Bool
  driver : Driver
  entered : ℕ → ℕ
  swapped : ℕ → ℕ
  refused : ℕ → ℕ
  notifying : ℕ
  spawned : ℕ → Bool
  woken : ℕ → Bool
  notified : Bool

/-- What can happen next: `spawn` and `wake` begin a schedule call, the next four are the steps of one, `drive` and
`shutdown` take the guard, and `step` goes on with the call that has it. -/
inductive Action
  | spawn (task : ℕ)
  | wake (task : ℕ)
  | swap (task : ℕ)
  | enqueue (task : ℕ)
  | unqueue (task : ℕ)
  | notify
  | drive (maxTasks : ℕ)
  | shutdown
  | step (outcome : PollOutcome) (fails : Bool)

open Function (update)

/-- The next step of `drive`, `Task::poll` or `shutdown`. The clock may refuse the elapsed time, and the drop of a future
may panic. -/
def driverStep (s : State) (outcome : PollOutcome) (fails : Bool) : State :=
  match s.driver with
  | .idle => s
  | .advancing maxTasks =>
    if fails then { s with driver := .idle } else { s with driver := .polling maxTasks, notified := false }
  | .polling 0 => { s with driver := if s.ready = [] then .idle else .notifying }
  | .polling (left + 1) =>
    match s.ready with
    | [] => { s with driver := .idle }
    | task :: rest => { s with ready := rest, queued := update s.queued task false, driver := .popped task left }
  | .popped task left =>
    if s.future task then { s with driver := .running task left, woken := update s.woken task false }
    else { s with driver := .polling left }
  | .running task left =>
    match outcome with
    | .pending => { s with driver := .polling left }
    | .ready => { s with future := update s.future task false, driver := .finishing task left false }
    | .panicked => { s with future := update s.future task false, driver := .finishing task left true }
  | .finishing task left panicked =>
    { s with tasks := s.tasks.erase task, driver := if panicked || fails then .idle else .polling left }
  | .notifying => { s with driver := .idle, notified := true }
  | .clearing => { s with driver := .taking, ready := [] }
  | .taking => { s with driver := .dropping s.tasks, tasks := [] }
  | .dropping [] => { s with driver := .idle }
  | .dropping (task :: rest) => { s with driver := .cancelling task rest, queued := update s.queued task false }
  | .cancelling task rest => { s with driver := .dropping rest, future := update s.future task false }

def Driver.isIdle : Driver → Bool
  | .idle => true
  | _ => false

def Allows (s : State) : Action → Prop
  | .spawn task => s.spawned task = false
  | .wake task => s.spawned task = true
  | .swap task => 0 < s.entered task
  | .enqueue task => 0 < s.swapped task
  | .unqueue task => 0 < s.refused task
  | .notify => 0 < s.notifying
  | .drive maxTasks => s.driver.isIdle = true ∧ 0 < maxTasks
  | .shutdown => s.driver.isIdle = true
  | .step _ _ => True

instance (s : State) (action : Action) : Decidable (Allows s action) := by
  cases action <;> unfold Allows <;> infer_instance

/-- `spawn_boxed`, `schedule`, and the beginnings of `drive` and `shutdown`. -/
def apply (s : State) : Action → State
  | .spawn task =>
    if s.stopped then { s with spawned := update s.spawned task true }
    else { s with
      tasks := s.tasks ++ [task]
      future := update s.future task true
      entered := update s.entered task (s.entered task + 1)
      spawned := update s.spawned task true
      woken := update s.woken task true }
  | .wake task => { s with entered := update s.entered task (s.entered task + 1) }
  | .swap task =>
    { s with
      entered := update s.entered task (s.entered task - 1)
      queued := update s.queued task true
      swapped := if s.queued task then s.swapped else update s.swapped task (s.swapped task + 1)
      woken := update s.woken task true }
  | .enqueue task =>
    if s.stopped then { s with
      swapped := update s.swapped task (s.swapped task - 1)
      refused := update s.refused task (s.refused task + 1) }
    else { s with
      ready := s.ready ++ [task]
      swapped := update s.swapped task (s.swapped task - 1)
      notifying := if s.ready = [] then s.notifying + 1 else s.notifying
      notified := if s.ready = [] then false else s.notified }
  | .unqueue task =>
    { s with refused := update s.refused task (s.refused task - 1), queued := update s.queued task false }
  | .notify => { s with notifying := s.notifying - 1, notified := true }
  | .drive maxTasks => if s.stopped then s else { s with driver := .advancing maxTasks }
  | .shutdown => if s.stopped then s else { s with stopped := true, driver := .clearing }
  | .step outcome fails => driverStep s outcome fails

def Step (s : State) (action : Action) (t : State) : Prop := Allows s action ∧ t = apply s action

/-- `HostRuntime::new`. -/
def start : State :=
  ⟨[], [], fun _ => false, fun _ => false, false, .idle, fun _ => 0, fun _ => 0, fun _ => 0, 0, fun _ => false,
    fun _ => false, false⟩

def Driver.stops : Driver → Bool
  | .clearing | .taking | .dropping _ | .cancelling _ _ => true
  | _ => false

structure Inv (s : State) : Prop where
  once : ∀ task, s.ready.count task ≤ 1
  flag : s.stopped = false → ∀ task, s.ready.count task + s.swapped task = (s.queued task).toNat
  awake : s.stopped = false → ∀ task, s.woken task = true → s.future task = true →
    task ∈ s.ready ∨ (∃ left, s.driver = .popped task left) ∨ 0 < s.entered task + s.swapped task
  polled : ∀ task left, s.driver = .running task left → s.future task = true
  stops : s.driver.stops = true → s.stopped = true
  refuses : ∀ task, 0 < s.refused task → s.stopped = true
  known : ∀ task, s.future task = true → s.spawned task = true

variable {s t : State}

theorem inv_start : Inv start := by
  constructor <;> simp [start, Driver.stops]

theorem Inv.driverStep (h : Inv s) (outcome : PollOutcome) (fails : Bool) : Inv (driverStep s outcome fails) := by
  obtain ⟨once, flag, awake, polled, stops, refuses, known⟩ := h
  unfold HostRuntime.driverStep
  cases hdriver : s.driver with
  | idle => constructor <;> grind -linarith
  | advancing maxTasks =>
    dsimp only
    split_ifs <;> constructor <;> grind -linarith [Driver.stops]
  | polling left =>
    cases left with
    | zero => constructor <;> grind -linarith [Driver.stops]
    | succ left =>
      dsimp only
      cases hready : s.ready with
      | nil => constructor <;> grind -linarith [Driver.stops]
      | cons task rest =>
        -- The flag is cleared with the pop, so a wake from here on queues the task again.
        simp only [hready, List.count_cons, List.mem_cons] at once flag awake
        refine ⟨by grind -linarith, by grind -linarith [Function.update_apply, Bool.toNat], ?_, by grind -linarith,
          by grind -linarith [Driver.stops], refuses, known⟩
        intro hstopped other hwoken hfuture
        rcases awake hstopped other hwoken hfuture with (rfl | hmem) | ⟨_, hpopped⟩ | hcalls
        · exact .inr (.inl ⟨left, rfl⟩)
        · exact .inl hmem
        · cases hdriver.symm.trans hpopped
        · exact .inr (.inr hcalls)
  | popped task left =>
    dsimp only
    split_ifs <;> constructor <;> grind -linarith [Function.update_apply, Driver.stops]
  | running task left =>
    cases outcome <;> constructor <;> grind -linarith [Function.update_apply, Driver.stops]
  | finishing task left panicked => constructor <;> grind -linarith [Driver.stops]
  | notifying => constructor <;> grind -linarith [Driver.stops]
  | clearing => constructor <;> grind -linarith [Driver.stops]
  | taking => constructor <;> grind -linarith [Driver.stops]
  | dropping tasks => cases tasks <;> constructor <;> grind -linarith [Function.update_apply, Driver.stops]
  | cancelling task tasks => constructor <;> grind -linarith [Function.update_apply, Driver.stops]

theorem Inv.step {action : Action} (h : Inv s) (hstep : Step s action t) : Inv t := by
  obtain ⟨hallows, rfl⟩ := hstep
  have hdriver := h.driverStep
  obtain ⟨once, flag, awake, polled, stops, refuses, known⟩ := h
  unfold apply
  cases action with
  | step outcome fails => exact hdriver outcome fails
  | spawn task =>
    unfold Allows at hallows
    dsimp only
    split_ifs <;> constructor <;> grind -linarith [Function.update_apply]
  | wake task =>
    constructor <;> grind -linarith [Function.update_apply]
  | swap task =>
    unfold Allows at hallows
    -- A flag that is set stands for an entry of the queue or for a call that makes one.
    have hplace : s.stopped = false → s.queued task = true → task ∈ s.ready ∨ 0 < s.swapped task := by
      intro hstopped hqueued
      have hflag := flag hstopped task
      rw [hqueued, Bool.toNat_true] at hflag
      rcases Nat.eq_zero_or_pos (s.swapped task) with hnone | hsome
      · exact .inl (List.count_pos_iff.mp (by omega))
      · exact .inr hsome
    cases hqueued : s.queued task <;> constructor <;> grind -linarith [Function.update_apply, Bool.toNat]
  | enqueue task =>
    unfold Allows at hallows
    have hout : s.stopped = false → s.ready.count task = 0 := by
      intro hstopped
      have hflag := flag hstopped task
      have hone := Bool.toNat_le (s.queued task)
      omega
    dsimp only
    split_ifs <;> constructor <;> grind -linarith [Function.update_apply]
  | unqueue task =>
    have hstopped := refuses task hallows
    constructor <;> grind -linarith [Function.update_apply]
  | notify => exact ⟨once, flag, awake, polled, stops, refuses, known⟩
  | drive maxTasks =>
    unfold Allows at hallows
    dsimp only
    split_ifs <;> constructor <;> grind -linarith [Driver.stops, Driver.isIdle]
  | shutdown =>
    dsimp only
    split_ifs <;> constructor <;> grind -linarith [Driver.stops]

theorem inv_of_reachable (h : Reachable (· = start) Step s) : Inv s :=
  Reachable.invariant (fun _ hs => hs ▸ inv_start) (fun _ _ _ hs hstep => hs.step hstep) h

theorem future_of_step {action : Action} {task : ℕ} (hstep : Step s action t)
    (h : s.spawned task = true ∧ s.future task = false) : t.spawned task = true ∧ t.future task = false := by
  obtain ⟨hallows, rfl⟩ := hstep
  unfold Allows at hallows
  cases action with
  | step outcome fails =>
    change (driverStep s outcome fails).spawned task = true ∧ (driverStep s outcome fails).future task = false
    fun_cases driverStep s outcome fails <;> grind -linarith [Function.update_apply]
  | spawn other =>
    unfold apply
    dsimp only
    split_ifs <;> grind -linarith [Function.update_apply]
  | _ => grind -linarith [apply]

/-- In every interleaving a task is queued at most once. While the runtime runs and no schedule call of a task is under
way, its flag says whether it is queued, and a task that was woken since its latest poll began, or never polled, and
has its future is queued or popped for the next poll. A task whose future is gone is never polled again. -/
theorem no_wake_lost (h : Reachable (· = start) Step s) : (∀ task, s.ready.count task ≤ 1) ∧
    (s.stopped = false → ∀ task, s.entered task + s.swapped task + s.refused task = 0 →
      (s.queued task = true ↔ task ∈ s.ready) ∧ (s.woken task = true → s.future task = true →
        task ∈ s.ready ∨ ∃ left, s.driver = .popped task left)) ∧
    ∀ task left, s.spawned task = true → s.future task = false → ∀ t, Reachable (· = s) Step t →
      t.driver ≠ .running task left := by
  have hinv := inv_of_reachable h
  refine ⟨hinv.once, fun hstopped task hcalls => ⟨?_, fun hwoken hfuture => ?_⟩, fun task left hspawned hgone t ht => ?_⟩
  · have hflag := hinv.flag hstopped task
    rw [← List.count_pos_iff]
    cases hqueued : s.queued task with
    | false =>
      rw [hqueued, Bool.toNat_false] at hflag
      exact ⟨nofun, fun hpos => by omega⟩
    | true =>
      rw [hqueued, Bool.toNat_true] at hflag
      exact ⟨fun _ => by omega, fun _ => rfl⟩
  · rcases hinv.awake hstopped task hwoken hfuture with hready | hpopped | hcall
    · exact .inl hready
    · exact .inr hpopped
    · omega
  · have hlater : Inv t ∧ t.spawned task = true ∧ t.future task = false := by
      refine Reachable.invariant (P := fun u => Inv u ∧ u.spawned task = true ∧ u.future task = false) (fun u hu => ?_)
        (fun _ _ _ hu hstep => ?_) ht
      · exact hu ▸ ⟨hinv, hspawned, hgone⟩
      · exact ⟨hu.1.step hstep, future_of_step hstep hu.2⟩
    intro hrunning
    exact Bool.false_ne_true (hlater.2.2.symm.trans (hlater.1.polled task left hrunning))

/-- A task is spawned and polled, and woken during the poll. -/
def wokenDuringPoll : List Action :=
  [.spawn 0, .swap 0, .enqueue 0, .notify, .drive 1, .step .pending false, .step .pending false, .step .pending false,
    .wake 0, .swap 0, .enqueue 0, .notify, .step .pending false]

theorem no_wake_lost_polled : (wokenDuringPoll.foldl apply start).woken 0 = true ∧
    (0 ∈ (wokenDuringPoll.foldl apply start).ready ∨
      ∃ left, (wokenDuringPoll.foldl apply start).driver = .popped 0 left) := by
  have hpermits : Reachable.Permits Allows apply start wokenDuringPoll := by decide
  have hstart : Reachable (· = start) Step start := .start rfl
  have hrun := hstart.run (fun _ _ hallows => ⟨hallows, rfl⟩) hpermits
  exact ⟨by decide, ((no_wake_lost hrun).2.1 (by decide) 0 (by decide)).2 (by decide) (by decide)⟩

/-- Whether a drive call polls tasks or is about to tell the host. -/
def Driver.polls : Driver → Bool
  | .polling _ | .popped _ _ | .running _ _ | .finishing _ _ _ | .notifying => true
  | _ => false

/-- A drive that a panic ends leaves nothing in the queue. -/
def Calm (s : State) : Action → Prop
  | .step _ fails =>
    match s.driver with
    | .finishing _ _ panicked => (panicked || fails) = true → s.ready = []
    | _ => True
  | _ => True

instance (s : State) (action : Action) : Decidable (Calm s action) := by
  unfold Calm
  split
  · split <;> infer_instance
  · infer_instance

/-- With tasks in the queue the host was told, a drive call polls, or a schedule call is about to tell it. -/
def Told (s : State) : Prop :=
  s.stopped = false → s.ready ≠ [] → s.notified = true ∨ s.driver.polls = true ∨ 0 < s.notifying

theorem Told.step {action : Action} (h : Told s) (hstep : Step s action t) (hcalm : Calm s action) : Told t := by
  obtain ⟨hallows, rfl⟩ := hstep
  unfold Told at h ⊢
  cases action with
  | step outcome fails =>
    unfold Calm at hcalm
    change (driverStep s outcome fails).stopped = false → (driverStep s outcome fails).ready ≠ [] → _
    cases hdriver : s.driver <;> grind -linarith [apply, driverStep, Driver.polls]
  | drive maxTasks =>
    unfold Allows at hallows
    grind -linarith [apply, Driver.polls, Driver.isIdle]
  | shutdown => grind -linarith [apply]
  | _ => grind -linarith [apply]

/-- As long as no drive that a panicking task ends leaves tasks in the queue: with no call under way, a runtime that runs
and has tasks in its queue has told the host since the latest drive began to poll and the queue became non-empty. -/
theorem host_told (h : Reachable (· = start) (fun s action t => Step s action t ∧ Calm s action) s)
    (hdrive : s.driver.isIdle = true) (hschedule : s.notifying = 0) (hstopped : s.stopped = false)
    (hready : s.ready ≠ []) : s.notified = true := by
  have htold : Told s := by
    refine Reachable.invariant (fun u hu => ?_) (fun _ _ _ hu hstep => hu.step hstep.1 hstep.2) h
    rw [hu]
    exact fun _ hne => absurd rfl hne
  rcases htold hstopped hready with hnotified | hpolls | hcalls
  · exact hnotified
  · revert hpolls hdrive
    cases s.driver <;> simp [Driver.polls, Driver.isIdle]
  · omega

/-- Two tasks are spawned and queued, and a drive begins. -/
def twoQueued (maxTasks : ℕ) : List Action :=
  [.spawn 0, .spawn 1, .swap 0, .enqueue 0, .notify, .swap 1, .enqueue 1, .drive maxTasks, .step .pending false,
    .step .pending false, .step .pending false]

theorem host_told_bounded : let actions := twoQueued 1 ++ [.step .pending false, .step .pending false, .step .pending false]
    (actions.foldl apply start).ready = [1] ∧ (actions.foldl apply start).notified = true := by
  intro actions
  have hstep : ∀ s action, Allows s action ∧ Calm s action → Step s action (apply s action) ∧ Calm s action :=
    fun _ _ hallows => ⟨⟨hallows.1, rfl⟩, hallows.2⟩
  have hpermits : Reachable.Permits (fun s action => Allows s action ∧ Calm s action) apply start actions := by decide
  have hstart : Reachable (· = start) (fun s action t => Step s action t ∧ Calm s action) start := .start rfl
  have hrun := hstart.run hstep hpermits
  exact ⟨by decide, host_told hrun (by decide) (by decide) (by decide) (by decide)⟩

/-- The first of two tasks panics: the drive returns, the other one stays in the queue and nobody told the host. -/
theorem host_not_told : let actions := twoQueued 2 ++ [.step .panicked false, .step .pending false]
    Reachable.Permits Allows apply start actions ∧ (actions.foldl apply start).driver.isIdle = true ∧
      (actions.foldl apply start).notifying = 0 ∧ (actions.foldl apply start).stopped = false ∧
      (actions.foldl apply start).ready = [1] ∧ (actions.foldl apply start).notified = false := by
  decide

/-- The tasks that `shutdown` took out and has yet to cancel. -/
def Driver.holds : Driver → List ℕ
  | .dropping tasks => tasks
  | .cancelling task tasks => task :: tasks
  | _ => []

structure Draining (s : State) : Prop where
  held : ∀ task, s.future task = true → task ∈ s.tasks ∨ task ∈ s.driver.holds
  finished : ∀ task left panicked, s.driver = .finishing task left panicked →
    s.spawned task = true ∧ s.future task = false
  drained : s.stopped = true → s.driver = .clearing ∨ s.ready = [] ∧
    (s.driver = .taking ∨ s.tasks = [] ∧ (s.driver.isIdle = true ∨ s.driver.stops = true))

theorem Draining.step {action : Action} (h : Draining s) (hinv : Inv s) (hstep : Step s action t) : Draining t := by
  have hpolled := hinv.polled
  have hknown := hinv.known
  obtain ⟨held, finished, drained⟩ := h
  obtain ⟨hallows, rfl⟩ := hstep
  cases action with
  | step outcome fails =>
    rw [apply]
    fun_cases driverStep s outcome fails <;> constructor <;>
      grind -linarith [Driver.holds, Driver.stops, Driver.isIdle, Function.update_apply]
  | spawn task =>
    rw [apply]
    split_ifs <;> constructor <;> grind -linarith [Allows, Function.update_apply]
  | _ => constructor <;> grind -linarith [apply, Allows, Driver.holds, Driver.stops, Driver.isIdle]

/-- When a shutdown has returned, the queue and the task list are empty and the future of every task is dropped,
whatever other threads spawn and wake. -/
theorem shutdown_drops_futures (h : Reachable (· = start) Step s) (hstopped : s.stopped = true)
    (hdriver : s.driver.isIdle = true) : s.ready = [] ∧ s.tasks = [] ∧ ∀ task, s.future task = false := by
  have hdrained : Inv s ∧ Draining s := by
    refine h.invariant (P := fun u => Inv u ∧ Draining u) (fun u hu => ?_)
      (fun _ _ _ hu hstep => ⟨hu.1.step hstep, hu.2.step hu.1 hstep⟩)
    rw [hu]
    exact ⟨inv_start, by constructor <;> simp [start]⟩
  obtain ⟨-, held, -, drained⟩ := hdrained
  grind -linarith [Driver.holds, Driver.isIdle, Driver.stops]

theorem shutdown_drops_futures_queued :
    let actions : List Action := [.spawn 0, .swap 0, .shutdown, .enqueue 0] ++ List.replicate 5 (.step .pending false)
    (actions.foldl apply start).spawned 0 = true ∧ (actions.foldl apply start).future 0 = false := by
  intro actions
  have hpermits : Reachable.Permits Allows apply start actions := by decide
  have hstart : Reachable (· = start) Step start := .start rfl
  have hrun := hstart.run (fun _ _ hallows => ⟨hallows, rfl⟩) hpermits
  exact ⟨by decide, (shutdown_drops_futures hrun (by decide) (by decide)).2.2 0⟩

end HostRuntime

end Quicp
