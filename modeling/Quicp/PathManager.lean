import Mathlib

/-!
# The path manager

A connection has a primary and, in failover mode, a backup path. The manager follows the events of the transport.
-/

namespace Quicp

inductive MultipathMode
  | off
  | failover

def MultipathMode.pathLimit : MultipathMode → ℕ
  | .off => 1
  | .failover => 2

inductive PathRole
  | primary
  | backup
  deriving DecidableEq

/-- `PathStatus` of the transport. -/
inductive PathStatus
  | available
  | backup
  deriving DecidableEq

def PathRole.expectedStatus : PathStatus := .available

inductive PathHealth
  | notReady
  | ready
  | degraded
  | failed
  deriving DecidableEq

inductive PathState
  | validating
  | established
  | lost
  deriving DecidableEq

structure Path where
  id : UInt32
  state : PathState
  remoteStatus : Option PathStatus

def Path.usable (path : Path) : Bool :=
  path.state == .established && path.remoteStatus == some PathRole.expectedStatus

inductive PathError
  | roleDisabled
  | roleBusy
  | validationInFlight
  | reusedPathId
  | unknownPath
  | invalidTransition
  | statusMismatch
  | unreliable
  | unknownTransportEvent

/-- `PathEvent` of the transport, as far as the manager reads it. -/
inductive PathEvent
  | established (id : UInt32)
  | abandoned (id : UInt32)
  | discarded (id : UInt32)
  | remoteStatus (id : UInt32) (status : PathStatus)
  | observedAddr
  | other

/-- `PathManager`. The slots are the two places of the array, by the role whose index they have. -/
structure PathManager where
  mode : MultipathMode
  paths : PathRole → Option Path
  activated : Bool
  reliable : Bool

namespace PathManager

def new (mode : MultipathMode) : PathManager := ⟨mode, fun _ => none, false, true⟩

def slots (m : PathManager) : List Path := (m.paths .primary).toList ++ (m.paths .backup).toList

/-- `path_position`, with the path that is there. -/
def pathPosition (m : PathManager) (id : UInt32) : Option (PathRole × Path) :=
  [PathRole.primary, .backup].findSome? fun role => ((m.paths role).filter (·.id = id)).map (role, ·)

def setPath (m : PathManager) (role : PathRole) (path : Option Path) : PathManager :=
  { m with paths := Function.update m.paths role path }

def usableCount (m : PathManager) : ℕ := m.slots.countP Path.usable

def refreshActivation (m : PathManager) : PathManager :=
  { m with activated := m.activated || m.usableCount == m.mode.pathLimit }

def eventLagged (m : PathManager) : PathManager := { m with reliable := false }

def beginPath (m : PathManager) (role : PathRole) (id : UInt32) : Except PathError Unit × PathManager :=
  if m.reliable = false then (.error .unreliable, m)
  else if m.mode matches .off ∧ role = .backup then (.error .roleDisabled, m)
  else if (m.paths role).isSome then (.error .roleBusy, m)
  else if m.slots.any (·.state = .validating) then (.error .validationInFlight, m)
  else if m.slots.any (·.id = id) then (.error .reusedPathId, m)
  else (.ok (), m.setPath role (some ⟨id, .validating, none⟩))

/-- An event of a path: it is refused in an unreliable view, and if there is no such path or the path does not allow
it the view becomes unreliable. -/
def withPath (m : PathManager) (id : UInt32) (change : PathRole → Path → Except PathError PathManager) :
    Except PathError Unit × PathManager :=
  if m.reliable = false then (.error .unreliable, m)
  else
    match m.pathPosition id with
    | none => (.error .unknownPath, m.eventLagged)
    | some (role, path) =>
      match change role path with
      | .error error => (.error error, m.eventLagged)
      | .ok m => (.ok (), m)

def established (m : PathManager) (id : UInt32) : Except PathError Unit × PathManager :=
  m.withPath id fun role path =>
    match path.state with
    | .established => .ok m
    | .validating => .ok (m.setPath role (some { path with state := .established })).refreshActivation
    | .lost => .error .invalidTransition

def remoteStatus (m : PathManager) (id : UInt32) (status : PathStatus) : Except PathError Unit × PathManager :=
  m.withPath id fun role path =>
    if status ≠ PathRole.expectedStatus then .error .statusMismatch
    else if path.state = .lost then .error .invalidTransition
    else if path.remoteStatus = some status then .ok m
    else .ok (m.setPath role (some { path with remoteStatus := some status })).refreshActivation

def lost (m : PathManager) (id : UInt32) : Except PathError Unit × PathManager :=
  m.withPath id fun role path =>
    match path.state with
    | .validating | .established => .ok (m.setPath role (some { path with state := .lost }))
    | .lost => .error .invalidTransition

def discardedEvent (m : PathManager) (id : UInt32) : Except PathError Unit × PathManager :=
  m.withPath id fun role path =>
    if path.state ≠ .lost then .error .invalidTransition else .ok (m.setPath role none)

def applyNoqEvent (m : PathManager) (event : PathEvent) : Except PathError Unit × PathManager :=
  let result := match event with
    | .established id => m.established id
    | .abandoned id => m.lost id
    | .discarded id => m.discardedEvent id
    | .remoteStatus id status => m.remoteStatus id status
    | .observedAddr => (.ok (), m)
    | .other => (.error .unknownTransportEvent, m.eventLagged)
  match result with
  | (.error error, m) => (.error error, m.eventLagged)
  | (.ok (), m) => (.ok (), m)

def health (m : PathManager) : PathHealth :=
  if m.reliable = false then .failed
  else if m.activated = false then .notReady
  else if m.usableCount = m.mode.pathLimit then .ready
  else if m.usableCount = 0 then .failed
  else .degraded

inductive Call
  | beginPath (role : PathRole) (id : UInt32)
  | established (id : UInt32)
  | remoteStatus (id : UInt32) (status : PathStatus)
  | lost (id : UInt32)
  | eventLagged
  | event (event : PathEvent)

def apply (m : PathManager) : Call → Except PathError Unit × PathManager
  | .beginPath role id => m.beginPath role id
  | .established id => m.established id
  | .remoteStatus id status => m.remoteStatus id status
  | .lost id => m.lost id
  | .eventLagged => (.ok (), m.eventLagged)
  | .event event => m.applyNoqEvent event

def run (m : PathManager) (calls : List Call) : PathManager := calls.foldl (fun m call => (m.apply call).2) m

inductive Moves (m : PathManager) : PathManager → Prop
  | stays {reliable : Bool} : Moves m { m with reliable := reliable }
  | revised {role : PathRole} {path path' : Path} (occupied : m.paths role = some path) (same : path'.id = path.id)
      (state : path'.state = .validating → path.state = .validating) :
      Moves m (m.setPath role (some path')).refreshActivation
  | closed {role : PathRole} {path : Path} {slot : Option Path} (occupied : m.paths role = some path)
      (same : ∀ path' ∈ slot, path'.id = path.id ∧ path'.state = .lost) : Moves m (m.setPath role slot)
  | begun {role : PathRole} {id : UInt32} (single : m.mode = .off → role = .primary)
      (fresh : ∀ role' other, m.paths role' = some other → other.state ≠ .validating ∧ other.id ≠ id) :
      Moves m (m.setPath role (some ⟨id, .validating, none⟩))

variable {m next : PathManager} {role : PathRole} {path : Path}

theorem moves_refused : m.Moves m := .stays

theorem mem_slots : path ∈ m.slots ↔ ∃ role, m.paths role = some path := by
  rw [slots, List.mem_append, Option.mem_toList, Option.mem_toList]
  constructor
  · rintro (h | h)
    · exact ⟨_, h⟩
    · exact ⟨_, h⟩
  · rintro ⟨role, h⟩
    cases role with
    | primary => exact .inl h
    | backup => exact .inr h

theorem paths_of_pathPosition {id : UInt32} (h : m.pathPosition id = some (role, path)) :
    m.paths role = some path := by
  obtain ⟨role', _, hfound⟩ := List.exists_of_findSome?_eq_some h
  obtain ⟨path', hpath, heq⟩ := Option.map_eq_some_iff.mp hfound
  obtain ⟨rfl, rfl⟩ := Prod.mk.inj heq
  exact (Option.filter_eq_some_iff.mp hpath).1

theorem withPath_moves {id : UInt32} {change : PathRole → Path → Except PathError PathManager}
    (h : ∀ role path next, m.paths role = some path → change role path = .ok next → m.Moves next) :
    m.Moves (m.withPath id change).2 := by
  unfold withPath
  split_ifs
  · exact .stays
  cases hposition : m.pathPosition id with
  | none => exact .stays
  | some found =>
    dsimp only
    cases hchange : change found.1 found.2 with
    | error error => exact .stays
    | ok next => exact h _ _ _ (paths_of_pathPosition hposition) hchange

theorem established_moves (id : UInt32) : m.Moves (m.established id).2 := by
  refine withPath_moves fun role path next hpath hnext => ?_
  split at hnext <;> cases hnext
  · exact moves_refused
  · exact .revised hpath rfl nofun

theorem remoteStatus_moves (id : UInt32) (status : PathStatus) : m.Moves (m.remoteStatus id status).2 := by
  refine withPath_moves fun role path next hpath hnext => ?_
  split_ifs at hnext <;> cases hnext
  · exact moves_refused
  · exact .revised hpath rfl fun hstate => hstate

theorem lost_moves (id : UInt32) : m.Moves (m.lost id).2 := by
  refine withPath_moves fun role path next hpath hnext => ?_
  split at hnext <;> cases hnext
  all_goals exact .closed hpath (by rintro _ ⟨⟩; exact ⟨rfl, rfl⟩)

theorem discardedEvent_moves (id : UInt32) : m.Moves (m.discardedEvent id).2 := by
  refine withPath_moves fun role path next hpath hnext => ?_
  split_ifs at hnext <;> cases hnext
  exact .closed hpath nofun

theorem beginPath_moves (role : PathRole) (id : UInt32) : m.Moves (m.beginPath role id).2 := by
  unfold beginPath
  split_ifs with _ hdisabled _ hvalidating hreused
  iterate 5 exact moves_refused
  refine .begun (fun hoff => ?_) fun role' other hother => ⟨fun hstate => ?_, fun hid => ?_⟩
  · cases role with
    | primary => rfl
    | backup => exact absurd ⟨by rw [hoff], rfl⟩ hdisabled
  · exact hvalidating (List.any_eq_true.mpr ⟨other, mem_slots.mpr ⟨_, hother⟩, decide_eq_true hstate⟩)
  · exact hreused (List.any_eq_true.mpr ⟨other, mem_slots.mpr ⟨_, hother⟩, decide_eq_true hid⟩)

structure Inv (m : PathManager) : Prop where
  apart : ∀ role role' path other, role ≠ role' → m.paths role = some path → m.paths role' = some other →
    path.id ≠ other.id ∧ (path.state = .validating → other.state ≠ .validating)
  single : m.mode = .off → m.paths .backup = none
  latched : m.usableCount = m.mode.pathLimit → m.activated = true

theorem Inv.role_of_single (h : m.Inv) (hpath : m.paths role = some path) : m.mode = .off → role = .primary := by
  intro hoff
  cases role with
  | primary => rfl
  | backup => cases (h.single hoff).symm.trans hpath

theorem Inv.usableCount_lt (h : m.Inv) {slot : Option Path} (hsingle : m.mode = .off → role = .primary)
    (hslot : ∀ path ∈ slot, path.state ≠ .established) : (m.setPath role slot).usableCount < m.mode.pathLimit := by
  have hzero : slot.toList.countP Path.usable = 0 := by
    refine List.countP_eq_zero.mpr fun path hpath => ?_
    simp [Path.usable, hslot path (Option.mem_toList.mp hpath)]
  have hone : ∀ slot : Option Path, slot.toList.countP Path.usable ≤ 1 := by
    intro slot
    cases slot with
    | none => exact Nat.zero_le _
    | some path => exact List.countP_le_length
  unfold usableCount slots setPath
  rw [List.countP_append]
  cases role with
  | primary =>
    simp only [Function.update_self, ne_eq, reduceCtorEq, not_false_eq_true, Function.update_of_ne, hzero, Nat.zero_add]
    cases hmode : m.mode with
    | off => simp [h.single hmode, MultipathMode.pathLimit]
    | failover => exact Nat.lt_succ_of_le (hone _)
  | backup =>
    simp only [Function.update_self, ne_eq, reduceCtorEq, not_false_eq_true, Function.update_of_ne, hzero, Nat.add_zero]
    cases hmode : m.mode with
    | off => cases hsingle hmode
    | failover => exact Nat.lt_succ_of_le (hone _)

theorem Inv.setPath (h : m.Inv) {slot : Option Path} (hsingle : m.mode = .off → role = .primary)
    (hslot : ∀ path ∈ slot, ∀ role' other, role' ≠ role → m.paths role' = some other →
      path.id ≠ other.id ∧ (path.state = .validating → other.state ≠ .validating)) {activated : Bool}
    (hlatched : (m.setPath role slot).usableCount = m.mode.pathLimit → activated = true) :
    { m.setPath role slot with activated := activated }.Inv where
  apart := by
    intro role₁ role₂ path other hne hpath hother
    have hapart := h.apart role₁ role₂ path other hne
    unfold PathManager.setPath at hpath hother
    grind -linarith [Function.update_apply]
  single := by
    intro hoff
    have hnone := h.single hoff
    cases hsingle hoff
    exact hnone
  latched := hlatched

/-- A call keeps the invariant and the mode, and paths that count as ready. -/
structure Keeps (m next : PathManager) : Prop where
  inv : next.Inv
  mode : next.mode = m.mode
  activated : m.activated = true → next.activated = true

theorem Moves.keeps (h : m.Moves next) (hinv : m.Inv) : m.Keeps next := by
  cases h with
  | stays => exact ⟨⟨hinv.apart, hinv.single, hinv.latched⟩, rfl, id⟩
  | @revised role path path' occupied same state =>
    refine ⟨hinv.setPath (hinv.role_of_single occupied) ?_ fun hcount => ?_, rfl, fun h => ?_⟩
    · rintro _ ⟨⟩ role' other hne hother
      have hapart := hinv.apart role role' path other hne.symm occupied hother
      exact ⟨same ▸ hapart.1, fun hstate => hapart.2 (state hstate)⟩
    · exact Bool.or_eq_true_iff.mpr (.inr (beq_iff_eq.mpr hcount))
    · exact Bool.or_eq_true_iff.mpr (.inl h)
  | @closed role path slot occupied same =>
    have hrole := hinv.role_of_single occupied
    refine ⟨hinv.setPath hrole ?_ fun hcount => ?_, rfl, id⟩
    · intro path' hpath' role' other hne hother
      obtain ⟨hid, hlost⟩ := same path' hpath'
      exact ⟨hid ▸ (hinv.apart role role' path other hne.symm occupied hother).1, by rw [hlost]; nofun⟩
    · exact absurd hcount (Nat.ne_of_lt (hinv.usableCount_lt hrole fun path' hpath' => by
        rw [(same path' hpath').2]
        nofun))
  | @begun role id single fresh =>
    refine ⟨hinv.setPath single ?_ fun hcount => ?_, rfl, fun h => h⟩
    · rintro _ ⟨⟩ role' other _ hother
      exact ⟨(fresh role' other hother).2.symm, fun _ => (fresh role' other hother).1⟩
    · exact absurd hcount (Nat.ne_of_lt (hinv.usableCount_lt single fun path hpath => by
        cases hpath
        nofun))

theorem apply_keeps (h : m.Inv) (call : Call) : m.Keeps (m.apply call).2 := by
  have hevent : ∀ result : Except PathError Unit × PathManager, m.Moves result.2 →
      m.Keeps (match result with
        | (.error error, next) => (Except.error error, next.eventLagged)
        | (.ok (), next) => (.ok (), next)).2 := by
    rintro ⟨_ | _, next⟩ hmoves
    · have hkeeps := hmoves.keeps h
      exact ⟨⟨hkeeps.inv.apart, hkeeps.inv.single, hkeeps.inv.latched⟩, hkeeps.mode, hkeeps.activated⟩
    · exact hmoves.keeps h
  cases call with
  | beginPath role id => exact (beginPath_moves role id).keeps h
  | established id => exact (established_moves id).keeps h
  | remoteStatus id status => exact (remoteStatus_moves id status).keeps h
  | lost id => exact (lost_moves id).keeps h
  | eventLagged => exact Moves.keeps .stays h
  | event event =>
    cases event with
    | established id => exact hevent _ (established_moves id)
    | abandoned id => exact hevent _ (lost_moves id)
    | discarded id => exact hevent _ (discardedEvent_moves id)
    | remoteStatus id status => exact hevent _ (remoteStatus_moves id status)
    | observedAddr => exact hevent (.ok (), m) moves_refused
    | other => exact hevent (.error .unknownTransportEvent, m.eventLagged) .stays

theorem run_keeps (h : m.Inv) (calls : List Call) : m.Keeps (m.run calls) := by
  induction calls generalizing m with
  | nil => exact ⟨h, rfl, id⟩
  | cons call calls ih =>
    have hfirst := apply_keeps h call
    have hrest := ih hfirst.inv
    exact ⟨hrest.inv, hrest.mode.trans hfirst.mode, hrest.activated ∘ hfirst.activated⟩

def Call.onPath : Call → Bool
  | .eventLagged | .event .observedAddr => false
  | _ => true

theorem apply_unreliable (h : m.reliable = false) (call : Call) : (m.apply call).2.paths = m.paths ∧
    (m.apply call).2.reliable = false ∧ (call.onPath = true → ∃ error, (m.apply call).1 = .error error) := by
  have hwith : ∀ id change, m.withPath id change = (.error .unreliable, m) := fun _ _ => if_pos h
  cases call with
  | beginPath role id => simp [apply, beginPath, h]
  | event event => cases event <;> simp [apply, applyNoqEvent, established, lost, discardedEvent, remoteStatus, hwith,
      eventLagged, h, Call.onPath]
  | _ => simp [apply, established, lost, remoteStatus, hwith, eventLagged, h, Call.onPath]

theorem run_unreliable (h : m.reliable = false) (calls : List Call) :
    (m.run calls).paths = m.paths ∧ (m.run calls).reliable = false := by
  induction calls generalizing m with
  | nil => exact ⟨rfl, h⟩
  | cons call calls ih =>
    obtain ⟨hpaths, hreliable, _⟩ := apply_unreliable h call
    exact ⟨(ih hreliable).1.trans hpaths, (ih hreliable).2⟩

theorem health_eq_ready (h : m.Inv) :
    m.health = .ready ↔ m.reliable = true ∧ m.usableCount = m.mode.pathLimit := by
  have hlatched := h.latched
  unfold health
  grind -linarith

/-- After any calls with any identifiers the paths are different, one of them may be validated, and single-path mode has
no backup. In an unreliable view no call about a path succeeds or changes a slot, and the health is `Failed` for good.
The health is `Ready` exactly when the view is reliable and all paths are usable, and never `NotReady` after that. -/
theorem path_events_safe (mode : MultipathMode) (calls : List Call) : let m := (new mode).run calls
    (∀ primary backup, m.paths .primary = some primary → m.paths .backup = some backup →
      primary.id ≠ backup.id ∧ ¬(primary.state = .validating ∧ backup.state = .validating)) ∧
    (mode = .off → m.paths .backup = none) ∧
    (m.reliable = false → ∀ later, (m.run later).paths = m.paths ∧ (m.run later).health = .failed ∧
      ∀ call, call.onPath = true → (∃ error, ((m.run later).apply call).1 = .error error) ∧
        ((m.run later).apply call).2.paths = m.paths) ∧
    (m.health = .ready ↔ m.reliable = true ∧ m.slots.countP (fun path =>
      path.state = .established ∧ path.remoteStatus = some .available) = mode.pathLimit) ∧
    (m.health = .ready → ∀ later, (m.run later).health ≠ .notReady) := by
  intro m
  have hnew : (new mode).Inv := ⟨nofun, fun _ => rfl, fun h => by cases mode <;> cases h⟩
  obtain ⟨hinv, hmode, _⟩ := run_keeps hnew calls
  have hready := health_eq_ready hinv
  have hcount : m.usableCount = m.slots.countP fun path =>
      path.state = .established ∧ path.remoteStatus = some .available :=
    List.countP_congr fun path _ => by simp [Path.usable, PathRole.expectedStatus]
  refine ⟨?_, fun hoff => hinv.single (hmode.trans hoff), ?_, ?_, ?_⟩
  · intro primary backup hprimary hbackup
    obtain ⟨hid, hstate⟩ := hinv.apart .primary .backup primary backup nofun hprimary hbackup
    exact ⟨hid, fun ⟨h, h'⟩ => hstate h h'⟩
  · intro hreliable later
    obtain ⟨hpaths, hstill⟩ := run_unreliable hreliable later
    refine ⟨hpaths, if_pos hstill, fun call honPath => ?_⟩
    obtain ⟨hsame, _, herror⟩ := apply_unreliable hstill call
    exact ⟨herror honPath, hsame.trans hpaths⟩
  · rw [← hcount]
    rwa [hmode] at hready
  · intro h later
    have hactive : (m.run later).activated = true := (run_keeps hinv later).activated (hinv.latched (hready.mp h).2)
    unfold health
    simp only [hactive, Bool.true_eq_false, if_false]
    split_ifs <;> simp

end PathManager

end Quicp
