import Quicp.Library.Reachable
import Quicp.Recovery.Connection

/-!
# Flow tasks that wait for the datagram queue

A flow task that finds the datagram queue full leaves its waker and sleeps. The driver wakes one waiting task for each
datagram that it takes, once the queue is half empty: on the way from full to empty that is one more than half the
capacity.
-/

namespace Quicp

/-- The datagram queue of a connection with the tasks that wait for it, in the order in which they left their wakers.
`waking` is the task whose waker the driver took out and has not called yet. `asleep` are the tasks whose latest call
found the queue full and that were not woken since. -/
structure Producers where
  connection : Connection
  producerWaiters : List ℕ
  waking : Option ℕ
  asleep : List ℕ
  deriving DecidableEq, Repr

namespace Producers

def registerProducer (q : Producers) (task : ℕ) : Producers :=
  if q.producerWaiters.contains task || q.producerWaiters.length == q.connection.capacity then q
  else { q with producerWaiters := q.producerWaiters ++ [task] }

/-- The locked section of `send_source`. -/
def sendSource (q : Producers) (task : ℕ) (record : SourceRecord) : Outcome SendDatagramError Bool × Producers :=
  match q.connection.sendSource record with
  | (.ok false, connection) => (.ok false, { q with connection := connection }.registerProducer task)
  | (answer, connection) => (answer, { q with connection := connection })

/-- The first locked section of `send_tail_repairs`: how many repairs the queue has room for. The subtraction panics on
a queue beyond its capacity. -/
def tailAvailable (q : Producers) (task : ℕ) : Outcome SendDatagramError ℕ × Producers :=
  if !q.connection.datagramEnabled then (.err .disabled, q)
  else if q.connection.capacity < q.connection.pending.length then (.panicked, q)
  else
    let available := q.connection.capacity - q.connection.pending.length
    (.ok available, if available = 0 then q.registerProducer task else q)

/-- The locked section in the loop of `send_tail_repairs`: whether the repair was queued. -/
def pushRepair (q : Producers) (task : ℕ) (encoded : List UInt8) : Outcome SendDatagramError Bool × Producers :=
  if !q.connection.datagramEnabled then (.err .disabled, q)
  else if q.connection.pending.length = q.connection.capacity then (.ok false, q.registerProducer task)
  else (.ok true, { q with connection := { q.connection with pending := q.connection.pending ++ [.repair encoded] } })

/-- The locked section of `take_datagram`: the oldest datagram leaves, and with at most half of them left the task that
waits longest is taken out to be woken. -/
def takeDatagram (q : Producers) : Producers :=
  match q.connection.pending with
  | [] => q
  | _ :: rest =>
    let q := { q with connection := q.connection.takeDatagram }
    if rest.length ≤ q.connection.capacity / 2 then
      { q with producerWaiters := q.producerWaiters.tail, waking := q.producerWaiters.head? }
    else q

def note (task : ℕ) (full : Bool) (q : Producers) : Producers :=
  { q with asleep := if full then task :: q.asleep else q.asleep.filter (· ≠ task) }

inductive Action
  | sendSource (task : ℕ) (record : SourceRecord)
  | tailAvailable (task : ℕ)
  | pushRepair (task : ℕ) (encoded : List UInt8)
  | take
  | wakeProducer
  | disable
  deriving DecidableEq, Repr

def apply (q : Producers) : Action → Producers
  | .sendSource task record =>
    let (answer, q) := q.sendSource task record
    q.note task (decide (answer = .ok false))
  | .tailAvailable task =>
    let (answer, q) := q.tailAvailable task
    q.note task (decide (answer = .ok 0))
  | .pushRepair task encoded =>
    let (answer, q) := q.pushRepair task encoded
    q.note task (decide (answer = .ok false))
  | .take => q.takeDatagram
  | .wakeProducer =>
    match q.waking with
    | none => q
    | some task => { q with waking := none, asleep := q.asleep.filter (· ≠ task) }
  | .disable => { q with connection := q.connection.disableDatagrams }

def Allows (q : Producers) : Action → Prop
  | .take => q.waking = none
  | _ => True

def Full (q : Producers) : Prop := q.connection.datagramEnabled = true ∧ q.connection.pending.length = q.connection.capacity

def Action.caller : Action → Option ℕ
  | .sendSource task _ | .tailAvailable task | .pushRepair task _ => some task
  | _ => none

/-- A connection that was left with no fewer datagrams, within its capacity. -/
structure Grown (connection next : Connection) : Prop where
  enabled : next.datagramEnabled = connection.datagramEnabled
  capacity : next.capacity = connection.capacity
  longer : connection.pending.length ≤ next.pending.length
  bounded : next.pending.length ≤ next.capacity

variable {action : Action} {q : Producers} {task : ℕ}

theorem apply_call (hcaller : action.caller = some task)
    (hbounded : q.connection.pending.length ≤ q.connection.capacity) :
    q.Full ∧ q.apply action = (q.registerProducer task).note task true ∨
      ¬q.Full ∧ ∃ connection, Grown q.connection connection ∧
        q.apply action = note task false { q with connection := connection } := by
  cases action with
  | take | wakeProducer | disable => cases hcaller
  | tailAvailable caller =>
    obtain rfl := Option.some.inj hcaller
    unfold apply tailAvailable Full
    by_cases henabled : q.connection.datagramEnabled = true
    · by_cases hfull : q.connection.pending.length = q.connection.capacity
      · exact Or.inl ⟨⟨henabled, hfull⟩, by simp [henabled, hfull]⟩
      · refine Or.inr ⟨fun h => hfull h.2, q.connection, ⟨rfl, rfl, le_rfl, hbounded⟩, ?_⟩
        have hroom : q.connection.capacity - q.connection.pending.length ≠ 0 := by omega
        simp [henabled, not_lt.mpr hbounded, hroom]
    · refine Or.inr ⟨fun h => henabled h.1, q.connection, ⟨rfl, rfl, le_rfl, hbounded⟩, ?_⟩
      simp [henabled]
  | pushRepair caller encoded =>
    obtain rfl := Option.some.inj hcaller
    unfold apply pushRepair Full
    by_cases henabled : q.connection.datagramEnabled = true
    · by_cases hfull : q.connection.pending.length = q.connection.capacity
      · exact Or.inl ⟨⟨henabled, hfull⟩, by simp [henabled, hfull]⟩
      · refine Or.inr ⟨fun h => hfull h.2, { q.connection with pending := q.connection.pending ++ [.repair encoded] },
          ⟨rfl, rfl, by simp, ?_⟩, ?_⟩
        · simp only [List.length_append, List.length_singleton]
          omega
        · simp [henabled, hfull]
    · refine Or.inr ⟨fun h => henabled h.1, q.connection, ⟨rfl, rfl, le_rfl, hbounded⟩, ?_⟩
      simp [henabled]
  | sendSource caller record =>
    obtain rfl := Option.some.inj hcaller
    unfold apply sendSource Connection.sendSource Full
    by_cases henabled : q.connection.datagramEnabled = true
    · by_cases hfull : q.connection.pending.length = q.connection.capacity
      · exact Or.inl ⟨⟨henabled, hfull⟩, by simp [henabled, hfull]⟩
      · cases hencode : encodeSource q.connection.nextSymbol [record] with
        | error error =>
          refine Or.inr ⟨fun h => hfull h.2, { q.connection with nextSymbol := q.connection.nextSymbol + 1 },
            ⟨rfl, rfl, le_rfl, hbounded⟩, ?_⟩
          simp [henabled, hfull, hencode]
        | ok bytes =>
          refine Or.inr ⟨fun h => hfull h.2, { q.connection with
            nextSymbol := q.connection.nextSymbol + 1
            pending := q.connection.pending ++ [.source q.connection.nextSymbol bytes] }, ⟨rfl, rfl, by simp, ?_⟩, ?_⟩
          · simp only [List.length_append, List.length_singleton]
            omega
          · simp [henabled, hfull, hencode]
    · refine Or.inr ⟨fun h => henabled h.1, q.connection, ⟨rfl, rfl, le_rfl, hbounded⟩, ?_⟩
      simp [henabled]

/-- The wake-ups that the queue still gives until it is empty. -/
def wakeUps (q : Producers) : ℕ := min q.connection.pending.length (q.connection.capacity / 2 + 1)

/-- A task that finds the queue full waits already, or a wake-up of the full queue is left for it. -/
def Meets (q : Producers) (action : Action) : Prop :=
  ∀ task ∈ action.caller, q.Full → task ∈ q.producerWaiters ∨ q.producerWaiters.length < q.wakeUps

instance (q : Producers) : Decidable q.Full := inferInstanceAs (Decidable (_ ∧ _))

instance (q : Producers) (action : Action) : Decidable (q.Meets action) :=
  inferInstanceAs (Decidable (∀ task ∈ action.caller, _ → _))

instance (q : Producers) (action : Action) : Decidable (q.Allows action) :=
  match action with
  | .take => inferInstanceAs (Decidable (_ = _))
  | .sendSource _ _ | .tailAvailable _ | .pushRepair _ _ | .wakeProducer | .disable => isTrue trivial

theorem exists_of_not_meets (h : ¬q.Meets action) :
    ∃ task, action.caller = some task ∧ q.Full ∧ task ∉ q.producerWaiters ∧ q.wakeUps ≤ q.producerWaiters.length := by
  simp only [Meets, not_forall, not_or, not_lt] at h
  obtain ⟨task, hcaller, hfull, hnew, hspent⟩ := h
  exact ⟨task, hcaller, hfull, hnew, hspent⟩

structure Inv (q : Producers) : Prop where
  bounded : q.connection.pending.length ≤ q.connection.capacity
  waits : q.connection.datagramEnabled = true → ∀ task ∈ q.asleep, task ∈ q.producerWaiters ∨ q.waking = some task
  enough : q.connection.datagramEnabled = true → q.producerWaiters.length ≤ q.wakeUps

structure Initial (q : Producers) : Prop where
  pending : q.connection.pending = []
  producerWaiters : q.producerWaiters = []
  waking : q.waking = none
  asleep : q.asleep = []

def Step (q : Producers) (action : Action) (next : Producers) : Prop := q.Allows action ∧ next = q.apply action

def MeetsStep (q : Producers) (action : Action) (next : Producers) : Prop := q.Meets action ∧ Step q action next

theorem registerProducer_of_room
    (h : task ∈ q.producerWaiters ∨ q.producerWaiters.length < q.connection.capacity) :
    task ∈ (q.registerProducer task).producerWaiters ∧ q.producerWaiters ⊆ (q.registerProducer task).producerWaiters ∧
      ((q.registerProducer task).producerWaiters = q.producerWaiters ∨
        task ∉ q.producerWaiters ∧ (q.registerProducer task).producerWaiters = q.producerWaiters ++ [task]) := by
  unfold registerProducer
  by_cases hmem : task ∈ q.producerWaiters
  · simp [hmem]
  · have hroom := (h.resolve_left hmem).ne
    simp [hmem, hroom]

theorem registerProducer_fields (q : Producers) (task : ℕ) :
    (q.registerProducer task).connection = q.connection ∧ (q.registerProducer task).waking = q.waking ∧
      (q.registerProducer task).asleep = q.asleep := by
  unfold registerProducer
  split <;> exact ⟨rfl, rfl, rfl⟩

theorem Inv.call (h : q.Inv) (hcaller : action.caller = some task)
    (hmeets : q.Meets action) : (q.apply action).Inv := by
  rcases apply_call hcaller h.bounded with ⟨hfull, happly⟩ | ⟨-, connection, hgrown, happly⟩
  · rw [happly]
    obtain ⟨hconnection, hwaking, hasleep⟩ := q.registerProducer_fields task
    have hroom := hmeets task hcaller hfull
    have hcapacity : q.wakeUps ≤ q.connection.capacity := (min_le_left _ _).trans h.bounded
    obtain ⟨hregistered, hkept, hlist⟩ := registerProducer_of_room (hroom.imp id (fun hlt => hlt.trans_le hcapacity))
    refine ⟨?_, fun henabled other hother => ?_, fun henabled => ?_⟩
    · change (q.registerProducer task).connection.pending.length ≤ (q.registerProducer task).connection.capacity
      rw [hconnection]
      exact h.bounded
    · change other ∈ (q.registerProducer task).producerWaiters ∨ (q.registerProducer task).waking = some other
      rcases List.mem_cons.mp hother with rfl | hother
      · exact Or.inl hregistered
      · rw [hasleep] at hother
        rw [hwaking]
        exact (h.waits hfull.1 other hother).imp (fun hmem => hkept hmem) id
    · change (q.registerProducer task).producerWaiters.length ≤ min (q.registerProducer task).connection.pending.length
        ((q.registerProducer task).connection.capacity / 2 + 1)
      rw [hconnection]
      rcases hlist with hsame | ⟨hnew, hlonger⟩
      · rw [hsame]
        exact h.enough hfull.1
      · rw [hlonger, List.length_append, List.length_singleton]
        exact hroom.resolve_left hnew
  · rw [happly]
    have hbefore := h.enough
    have hlonger := hgrown.longer
    refine ⟨hgrown.bounded, fun henabled other hother => ?_, fun henabled => ?_⟩
    · exact h.waits (hgrown.enabled ▸ henabled) other (List.mem_filter.mp hother).1
    · have := hbefore (hgrown.enabled ▸ henabled)
      change q.producerWaiters.length ≤ min connection.pending.length (connection.capacity / 2 + 1)
      rw [hgrown.capacity]
      unfold wakeUps at this
      omega

theorem Inv.take (h : q.Inv) (hidle : q.waking = none) : q.takeDatagram.Inv := by
  unfold takeDatagram
  cases hpending : q.connection.pending with
  | nil => exact h
  | cons datagram rest =>
    have hbounded := h.bounded
    have henough := h.enough
    rw [wakeUps, hpending, List.length_cons] at henough
    rw [hpending, List.length_cons] at hbounded
    have htail : q.connection.takeDatagram.pending = rest := by rw [Connection.takeDatagram, hpending, List.tail_cons]
    have hcapacity : q.connection.takeDatagram.capacity = q.connection.capacity := rfl
    dsimp only
    split_ifs with hhalf
    · refine ⟨?_, fun henabled task htask => ?_, fun henabled => ?_⟩
      · change q.connection.takeDatagram.pending.length ≤ q.connection.capacity
        rw [htail]
        omega
      · rcases h.waits henabled task htask with hwaits | hwaking
        · cases hwaiters : q.producerWaiters with
          | nil => simp [hwaiters] at hwaits
          | cons first later =>
            rw [hwaiters] at hwaits
            rcases List.mem_cons.mp hwaits with rfl | hlater
            · exact Or.inr rfl
            · exact Or.inl hlater
        · rw [hidle] at hwaking
          cases hwaking
      · have hle := henough henabled
        change q.producerWaiters.tail.length ≤ min q.connection.takeDatagram.pending.length (q.connection.capacity / 2 + 1)
        rw [htail, List.length_tail]
        rw [hcapacity] at hhalf
        omega
    · refine ⟨?_, h.waits, fun henabled => ?_⟩
      · change q.connection.takeDatagram.pending.length ≤ q.connection.capacity
        rw [htail]
        omega
      · have hle := henough henabled
        change q.producerWaiters.length ≤ min q.connection.takeDatagram.pending.length (q.connection.capacity / 2 + 1)
        rw [htail]
        rw [hcapacity] at hhalf
        omega

theorem Inv.step {next : Producers} (h : q.Inv) (hstep : MeetsStep q action next) : next.Inv := by
  obtain ⟨hmeets, hallows, rfl⟩ := hstep
  cases action with
  | sendSource task record => exact h.call rfl hmeets
  | tailAvailable task => exact h.call rfl hmeets
  | pushRepair task encoded => exact h.call rfl hmeets
  | take => exact h.take hallows
  | disable => exact ⟨Nat.zero_le _, nofun, nofun⟩
  | wakeProducer =>
    unfold apply
    cases hwaking : q.waking with
    | none => simpa [hwaking] using h
    | some task =>
      refine ⟨h.bounded, fun henabled other hother => ?_, h.enough⟩
      obtain ⟨hmem, hne⟩ := List.mem_filter.mp hother
      rcases h.waits henabled other hmem with hwaits | hwoken
      · exact Or.inl hwaits
      · rw [hwaking] at hwoken
        obtain rfl := Option.some.inj hwoken
        simp at hne

/-- The driver takes so many datagrams and calls each waker that it takes out, while no task runs. -/
def drain : ℕ → Producers → Producers
  | 0, q => q
  | count + 1, q => drain count ((q.apply .take).apply .wakeProducer)

theorem take_wake {datagram : OutboundDatagram} {rest : List OutboundDatagram}
    (hpending : q.connection.pending = datagram :: rest) (hidle : q.waking = none) :
    (q.apply .take).apply .wakeProducer =
      if rest.length ≤ q.connection.capacity / 2 then
        { q with
          connection := q.connection.takeDatagram
          producerWaiters := q.producerWaiters.tail
          asleep := q.asleep.filter (fun task => decide (q.producerWaiters.head? ≠ some task)) }
      else { q with connection := q.connection.takeDatagram } := by
  have hcapacity : q.connection.takeDatagram.capacity = q.connection.capacity := rfl
  simp only [apply, takeDatagram, hpending, hcapacity]
  split_ifs with hhalf
  · cases hwaiters : q.producerWaiters with
    | nil => simp [hidle]
    | cons first later => simp [hidle, eq_comm]
  · simp [hidle]

theorem drain_asleep (hidle : q.waking = none) (hasleep : task ∈ q.asleep)
    (hlate : task ∉ q.producerWaiters.take q.wakeUps) :
    (drain q.connection.pending.length q).connection.pending = [] ∧
      (drain q.connection.pending.length q).connection.datagramEnabled = q.connection.datagramEnabled ∧
      (drain q.connection.pending.length q).waking = none ∧ task ∈ (drain q.connection.pending.length q).asleep := by
  induction hcount : q.connection.pending.length generalizing q with
  | zero => exact ⟨List.length_eq_zero_iff.mp hcount, rfl, hidle, hasleep⟩
  | succ count ih =>
    obtain ⟨datagram, rest, hpending⟩ := List.exists_cons_of_length_eq_add_one hcount
    have hrest : rest.length = count := by rw [hpending, List.length_cons] at hcount; omega
    have htail : q.connection.takeDatagram.pending = rest := by rw [Connection.takeDatagram, hpending, List.tail_cons]
    rw [drain, take_wake hpending hidle]
    rw [wakeUps, hcount] at hlate
    split_ifs with hhalf
    · have hfirst : q.producerWaiters.head? ≠ some task := by
        intro hhead
        obtain ⟨later, hwaiters⟩ := List.head?_eq_some_iff.mp hhead
        rw [hwaiters, show min (count + 1) (q.connection.capacity / 2 + 1) = min count (q.connection.capacity / 2) + 1 by
          omega] at hlate
        exact hlate List.mem_cons_self
      refine ih hidle (List.mem_filter.mpr ⟨hasleep, by simpa using hfirst⟩) ?_ ?_
      · intro hmem
        refine hlate ?_
        change task ∈ q.producerWaiters.tail.take (min q.connection.takeDatagram.pending.length
          (q.connection.capacity / 2 + 1)) at hmem
        rw [htail, hrest] at hmem
        cases hwaiters : q.producerWaiters with
        | nil => simp [hwaiters] at hmem
        | cons first later =>
          rw [hwaiters, List.tail_cons] at hmem
          rw [show min (count + 1) (q.connection.capacity / 2 + 1) = min count (q.connection.capacity / 2 + 1) + 1 by omega,
            List.take_succ_cons]
          exact List.mem_cons_of_mem _ hmem
      · exact (congrArg List.length htail).trans hrest
    · refine ih hidle hasleep ?_ ((congrArg List.length htail).trans hrest)
      change task ∉ q.producerWaiters.take (min q.connection.takeDatagram.pending.length (q.connection.capacity / 2 + 1))
      rw [htail, hrest]
      rwa [show min count (q.connection.capacity / 2 + 1) = min (count + 1) (q.connection.capacity / 2 + 1) by omega]

theorem waking_wakeProducer (q : Producers) : (q.apply .wakeProducer).waking = none := by
  cases hwaking : q.waking <;> simp [apply, hwaking]

theorem drain_reachable (h : Reachable Initial Step q) (hidle : q.waking = none) (count : ℕ) :
    Reachable Initial Step (drain count q) := by
  induction count generalizing q with
  | zero => exact h
  | succ count ih =>
    have htake : Step q .take (q.apply .take) := ⟨hidle, rfl⟩
    have hwake : Step (q.apply .take) .wakeProducer ((q.apply .take).apply .wakeProducer) := ⟨trivial, rfl⟩
    exact ih ((h.next htake).next hwake) (waking_wakeProducer _)

theorem asleep_of_not_meets (hidle : q.waking = none) (hnot : ¬q.Meets action) :
    (drain q.connection.capacity (q.apply action)).connection.pending = [] ∧
      (drain q.connection.capacity (q.apply action)).connection.datagramEnabled = true ∧
      (drain q.connection.capacity (q.apply action)).waking = none ∧
      (drain q.connection.capacity (q.apply action)).asleep ≠ [] := by
  obtain ⟨task, hcaller, hfull, hnew, hspent⟩ := exists_of_not_meets hnot
  rcases apply_call hcaller hfull.2.le with ⟨-, happly⟩ | ⟨hroom, -⟩
  · obtain ⟨hconnection, hwaking, hasleep⟩ := q.registerProducer_fields task
    have hlength : ((q.registerProducer task).note task true).connection.pending.length = q.connection.capacity := by
      change (q.registerProducer task).connection.pending.length = _
      rw [hconnection, hfull.2]
    have hlate : task ∉ ((q.registerProducer task).note task true).producerWaiters.take
        ((q.registerProducer task).note task true).wakeUps := by
      change task ∉ (q.registerProducer task).producerWaiters.take (min (q.registerProducer task).connection.pending.length
        ((q.registerProducer task).connection.capacity / 2 + 1))
      rw [hconnection]
      unfold registerProducer
      split
      · exact fun hmem => hnew (List.mem_of_mem_take hmem)
      · change task ∉ (q.producerWaiters ++ [task]).take q.wakeUps
        rw [List.take_append_of_le_length hspent]
        exact fun hmem => hnew (List.mem_of_mem_take hmem)
    have hdrained := drain_asleep (q := (q.registerProducer task).note task true) (hwaking.trans hidle)
      List.mem_cons_self hlate
    rw [hlength] at hdrained
    rw [happly]
    refine ⟨hdrained.1, hdrained.2.1.trans ?_, hdrained.2.2.1, List.ne_nil_of_mem hdrained.2.2.2⟩
    change (q.registerProducer task).connection.datagramEnabled = true
    rw [hconnection, hfull.1]
  · exact absurd hfull hroom

/-- In every run in which each task that finds the queue full waits already or has a wake-up left for it, no task sleeps
beside an empty queue once the driver called the waker that it took out. In every run the first task without one leads to
an empty queue beside which a task sleeps, if only the driver goes on. -/
theorem no_producer_left_asleep (q : Producers) :
    (Reachable Initial MeetsStep q → q.connection.datagramEnabled = true → q.connection.pending = [] →
      q.waking = none → q.asleep = []) ∧
    ∀ action, Reachable Initial Step q → q.waking = none → ¬q.Meets action → ∃ later, Reachable Initial Step later ∧
      later.connection.datagramEnabled = true ∧ later.connection.pending = [] ∧ later.waking = none ∧
      later.asleep ≠ [] := by
  constructor
  · intro hreached henabled hempty hidle
    have hinv : q.Inv := by
      refine hreached.invariant (P := Inv) (fun start hstart => ?_) fun _ _ _ hinv hstep => hinv.step hstep
      refine ⟨by simp [hstart.pending], fun _ task htask => ?_, fun _ => by simp [hstart.producerWaiters]⟩
      simp [hstart.asleep] at htask
    have hnone : q.producerWaiters = [] := by
      have henough := hinv.enough henabled
      rw [wakeUps, hempty, List.length_nil, Nat.zero_min] at henough
      exact List.length_eq_zero_iff.mp (Nat.le_zero.mp henough)
    refine List.eq_nil_iff_forall_not_mem.mpr fun task htask => ?_
    rcases hinv.waits henabled task htask with hwaits | hwaking
    · simp [hnone] at hwaits
    · rw [hidle] at hwaking
      cases hwaking
  · intro action hreached hidle hnot
    obtain ⟨task, hcaller, hfull, -⟩ := exists_of_not_meets hnot
    have hallows : q.Allows action := by
      cases action <;> first | exact trivial | cases hcaller
    have hstep : Step q action (q.apply action) := ⟨hallows, rfl⟩
    have hwaking : (q.apply action).waking = none := by
      rcases apply_call hcaller hfull.2.le with ⟨-, happly⟩ | ⟨hroom, -⟩
      · rw [happly]
        exact (q.registerProducer_fields task).2.1.trans hidle
      · exact absurd hfull hroom
    obtain ⟨hempty, henabled, hdone, hasleep⟩ := asleep_of_not_meets hidle hnot
    exact ⟨_, drain_reachable (hreached.next hstep) hwaking _, henabled, hempty, hdone, hasleep⟩

def sample (capacity : ℕ) : Producers := ⟨⟨true, [], capacity, 0, false, false, 64, 64, 2⟩, [], none, []⟩

def takes (count : ℕ) : List Action := (List.replicate count [.take, .wakeProducer]).flatten

def sampleRecord : SourceRecord := ⟨4, 0, false, [7]⟩

def twoWait : List Action :=
  [.sendSource 0 sampleRecord, .sendSource 0 sampleRecord, .sendSource 1 sampleRecord, .tailAvailable 2] ++ takes 2

theorem no_producer_left_asleep_two :
    (twoWait.foldl apply (sample 2)).connection.pending = [] ∧ (twoWait.foldl apply (sample 2)).asleep = [] := by
  have hstart : Reachable Initial MeetsStep (sample 2) := .start ⟨rfl, rfl, rfl, rfl⟩
  have hruns : Reachable.Permits (fun q action => q.Meets action ∧ q.Allows action) apply (sample 2) twoWait := by
    decide +kernel
  have hreached := hstart.run (fun q action h => ⟨h.1, h.2, rfl⟩) hruns
  have hempty : (twoWait.foldl apply (sample 2)).connection.pending = [] := by decide +kernel
  exact ⟨hempty, (no_producer_left_asleep _).1 hreached (by decide +kernel) hempty (by decide +kernel)⟩

def fourWait : List Action :=
  List.replicate 4 (.sendSource 0 sampleRecord) ++ [.sendSource 1 sampleRecord, .sendSource 2 sampleRecord,
    .sendSource 3 sampleRecord, .tailAvailable 4]

/-- All four left their wakers. The driver empties the queue and wakes three of them. -/
theorem producer_left_asleep :
    (fourWait.foldl apply (sample 4)).producerWaiters = [1, 2, 3, 4] ∧
    ((fourWait ++ takes 4).foldl apply (sample 4)).connection.pending = [] ∧
    ((fourWait ++ takes 4).foldl apply (sample 4)).connection.datagramEnabled = true ∧
    ((fourWait ++ takes 4).foldl apply (sample 4)).waking = none ∧
    ((fourWait ++ takes 4).foldl apply (sample 4)).asleep = [4] := by
  decide +kernel

end Producers

end Quicp
