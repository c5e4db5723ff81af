import Quicp.FakeTcp.Acceptance
import Quicp.FakeTcp.Calls
import Quicp.Library.Reachable

/-!
# What a carrier acknowledges

The two halves of a path share what they acknowledge: the end of an accepted packet is stored when it is ahead, in the
order of sequence numbers, of what stands there.
-/

namespace Quicp

/-- `pair_with_mtu`: two carriers of one path that share what they acknowledge. -/
structure CarrierPair where
  inbound : FakeTcpCarrier
  outbound : FakeTcpCarrier
  shared : outbound.acknowledgment = inbound.acknowledgment
  deriving DecidableEq

inductive Half
  | inbound
  | outbound
  deriving DecidableEq, Repr

namespace CarrierPair

/-- `pair_with_mtu`; each half draws a sequence number of its own. -/
def pairWithMtu (crc32c : List UInt8 → UInt32) (random random' : Option UInt32) (tuple : FourTuple)
    (direction : CarrierDirection) (synData : SynDataMode) (synMss outerMtu : UInt16) :
    Outcome CarrierError CarrierPair :=
  match FakeTcpCarrier.newWithMtu crc32c random tuple direction synData synMss outerMtu with
  | .err error => .err error
  | .panicked => .panicked
  | .ok inbound =>
    match FakeTcpCarrier.newWithMtu crc32c random' tuple direction synData synMss outerMtu with
    | .err error => .err error
    | .panicked => .panicked
    | .ok outbound => .ok ⟨inbound, { outbound with acknowledgment := inbound.acknowledgment }, rfl⟩

def acknowledgment (pair : CarrierPair) : UInt32 := pair.inbound.acknowledgment

def carrier (pair : CarrierPair) : Half → FakeTcpCarrier
  | .inbound => pair.inbound
  | .outbound => pair.outbound

/-- The pair after one half went on to a carrier; the other half sees what that one acknowledges. -/
def store (pair : CarrierPair) (half : Half) (next : FakeTcpCarrier) : CarrierPair :=
  match half with
  | .inbound => ⟨next, { pair.outbound with acknowledgment := next.acknowledgment }, rfl⟩
  | .outbound => ⟨{ pair.inbound with acknowledgment := next.acknowledgment }, next, rfl⟩

/-- `decode_datagram` of a half. -/
def decode (pair : CarrierPair) (half : Half) (packet : List UInt8) : Outcome CarrierError DecodedDatagram × CarrierPair :=
  let (outcome, next) := (pair.carrier half).decodeDatagram packet
  (outcome, pair.store half next)

def send (pair : CarrierPair) (half : Half) (call : Call) : Outcome CarrierError (List UInt8) × CarrierPair :=
  let (outcome, next) := call.run (pair.carrier half)
  (outcome, pair.store half next)

theorem acknowledgment_carrier (pair : CarrierPair) (half : Half) :
    (pair.carrier half).acknowledgment = pair.acknowledgment := by
  cases half with
  | inbound => rfl
  | outbound => exact pair.shared

@[simp] theorem acknowledgment_store (pair : CarrierPair) (half : Half) (next : FakeTcpCarrier) :
    (pair.store half next).acknowledgment = next.acknowledgment := by
  cases half <;> rfl

def advanced (previous acknowledgment : UInt32) : UInt32 :=
  if previous = 0 ∨ acknowledgment - previous < 0x80000000 then acknowledgment else previous

theorem decode_cases (pair : CarrierPair) (half : Half) (packet : List UInt8) :
    (∃ view pair', (pair.carrier half).Accepts packet view ∧ pair.decode half packet = (.ok view.decoded, pair') ∧
      pair'.acknowledgment = advanced pair.acknowledgment view.sequenceEnd) ∨
      (∀ view, ¬(pair.carrier half).Accepts packet view) ∧
        ∃ error pair', pair.decode half packet = (.err error, pair') ∧ pair'.acknowledgment = pair.acknowledgment := by
  have hsame := pair.acknowledgment_carrier half
  unfold decode FakeTcpCarrier.decodeDatagram
  obtain ⟨view, haccepts, hdecoded⟩ | ⟨hrefused, error, herror⟩ :=
    (pair.carrier half).decodeDatagramBorrowed_cases packet
  · refine .inl ⟨view, _, haccepts, by rw [hdecoded], ?_⟩
    rw [acknowledgment_store, FakeTcpCarrier.acknowledge, hsame, advanced]
    split_ifs
    · rfl
    · exact hsame
  · refine .inr ⟨hrefused, error, _, by rw [herror], ?_⟩
    rw [acknowledgment_store, hsame]

theorem acknowledgment_send (pair : CarrierPair) (half : Half) (call : Call) :
    (pair.send half call).2.acknowledgment = pair.acknowledgment := by
  have hsame := pair.acknowledgment_carrier half
  unfold send
  obtain ⟨_, hsent⟩ | ⟨_, error, herror⟩ := call.run_settles (pair.carrier half)
  · rw [hsent, acknowledgment_store]
    exact hsame
  · rw [herror, acknowledgment_store, hsame]

end CarrierPair

namespace AcknowledgmentRun

open CarrierPair (advanced)

structure State where
  pair : CarrierPair
  received : Bool

inductive Action
  | decode (half : Half) (packet : List UInt8)
  | send (half : Half) (call : Call)

def apply (s : State) : Action → State
  | .decode half packet =>
    match s.pair.decode half packet with
    | (.ok _, pair) => ⟨pair, true⟩
    | (_, pair) => ⟨pair, s.received⟩
  | .send half call => ⟨(s.pair.send half call).2, s.received⟩

/-- `from_parts` starts with nothing received. -/
def Initial (s : State) : Prop := s.pair.acknowledgment = 0 ∧ s.received = false

def EndsElsewhere (s : State) : Action → Prop
  | .decode half packet => ∀ view, (s.pair.carrier half).Accepts packet view → view.sequenceEnd ≠ 0
  | .send _ _ => True

def Step (s : State) (action : Action) (t : State) : Prop := t = apply s action ∧ EndsElsewhere s action

/-- Unchanged, or ahead by less than half of the sequence space. -/
def Advances (before after : UInt32) : Prop := after - before < 0x80000000

instance (before after : UInt32) : Decidable (Advances before after) := inferInstanceAs (Decidable (_ < _))

theorem advances_advanced_iff (previous acknowledgment : UInt32) :
    Advances previous (advanced previous acknowledgment) ↔ ¬(previous = 0 ∧ 0x80000000 ≤ acknowledgment) := by
  unfold Advances advanced
  by_cases hzero : previous = 0
  · subst hzero
    simp
  · by_cases hahead : acknowledgment - previous < 0x80000000
    · simp [hzero, hahead]
    · simp [hzero, hahead]

theorem acknowledgment_ne_zero {s : State} (h : Reachable Initial Step s) :
    s.received → s.pair.acknowledgment ≠ 0 := by
  refine Reachable.invariant (P := fun s => s.received → s.pair.acknowledgment ≠ 0) (fun s hs hreceived => ?_)
    (fun s action t hinvariant hstep hreceived => ?_) h
  · rw [hs.2] at hreceived
    cases hreceived
  · obtain ⟨rfl, hends⟩ := hstep
    cases action with
    | send half call =>
      have hsent := s.pair.acknowledgment_send half call
      exact hsent ▸ hinvariant hreceived
    | decode half packet =>
      obtain ⟨view, pair', haccepts, hdecoded, hadvanced⟩ | ⟨_, error, pair', herror, hsame⟩ :=
        s.pair.decode_cases half packet
      · simp only [apply, hdecoded, hadvanced, advanced]
        split_ifs with hstored
        · exact hends view haccepts
        · push Not at hstored
          exact hstored.1
      · simp only [apply, herror, hsame] at hreceived ⊢
        exact hinvariant hreceived

/-- In every run in which no accepted packet ends at zero, once a packet has been received every further one leaves
what is acknowledged or moves it ahead. A packet moves it back exactly when zero is acknowledged and the packet ends
in the upper half of the sequence space. -/
theorem acknowledgment_never_rewinds (half : Half) (packet : List UInt8) :
    (∀ s, Reachable Initial Step s → s.received → ∀ decoded pair',
      s.pair.decode half packet = (.ok decoded, pair') → Advances s.pair.acknowledgment pair'.acknowledgment) ∧
    ∀ (pair : CarrierPair) (view : PacketView), (pair.carrier half).Accepts packet view →
      (¬Advances pair.acknowledgment (pair.decode half packet).2.acknowledgment ↔
        pair.acknowledgment = 0 ∧ 0x80000000 ≤ view.sequenceEnd) := by
  constructor
  · intro s hreachable hreceived decoded pair' hdecode
    obtain ⟨view, next, _, hdecoded, hadvanced⟩ | ⟨_, error, next, herror, _⟩ := s.pair.decode_cases half packet
    · obtain rfl : next = pair' := (Prod.mk.inj (hdecoded.symm.trans hdecode)).2
      rw [hadvanced, advances_advanced_iff]
      exact fun hzero => acknowledgment_ne_zero hreachable hreceived hzero.1
    · cases herror.symm.trans hdecode
  · intro pair view haccepts
    obtain ⟨view', next, haccepts', hdecoded, hadvanced⟩ | ⟨hrefused, _⟩ := pair.decode_cases half packet
    · obtain rfl : view = view' := Outcome.ok.inj (haccepts.checked.symm.trans haccepts'.checked)
      rw [hdecoded, hadvanced, advances_advanced_iff, not_not]
    · exact absurd haccepts (hrefused view)

private def answeredPath : FourTuple := .sample

private def freshHalf (sequence : UInt32) : FakeTcpCarrier :=
  .fromParts answeredPath 5129 .disabled sequence 1400 1500 (by decide +kernel)

private def pairAt (acknowledgment : UInt32) : CarrierPair :=
  ⟨{ freshHalf 7 with acknowledgment }, { freshHalf 9 with acknowledgment }, rfl⟩

private def oneByte (sequence : UInt32) : PacketFields :=
  ⟨answeredPath.destination, answeredPath.source, sequence, 0, TcpFlags.ack.bitor .psh, 65535, .default, [1]⟩

private theorem reachable_oneByte : Reachable Initial Step ⟨pairAt 101, true⟩ := by
  have hdecode : apply ⟨pairAt 0, false⟩ (.decode .inbound (oneByte 100).packet) = ⟨pairAt 101, true⟩ := by
    have hpair : (pairAt 0).decode .inbound (oneByte 100).packet = (.ok ⟨100, false, [1]⟩, pairAt 101) := by
      decide +kernel
    rw [apply, hpair]
  have hstart : Reachable Initial Step ⟨pairAt 0, false⟩ := .start ⟨rfl, rfl⟩
  refine hstart.next ⟨hdecode.symm, fun view haccepts => ?_⟩
  have hchecked : checkedView answeredPath (some 5129) (oneByte 100).packet = .ok (oneByte 100).view := by
    decide +kernel
  obtain rfl : (oneByte 100).view = view := Outcome.ok.inj (hchecked.symm.trans haccepts.checked)
  decide

theorem acknowledgment_never_rewinds_older :
    (pairAt 101).decode .inbound (oneByte 99).packet = (.ok ⟨99, false, [1]⟩, pairAt 101) ∧
      Advances (pairAt 101).acknowledgment (pairAt 101).acknowledgment := by
  have hdecode : (pairAt 101).decode .inbound (oneByte 99).packet = (.ok ⟨99, false, [1]⟩, pairAt 101) := by
    decide +kernel
  exact ⟨hdecode, (acknowledgment_never_rewinds _ _).1 _ reachable_oneByte rfl _ _ hdecode⟩

/-- A packet with its end at zero is acknowledged by zero, and the next one, sixteen bytes behind it, moves the
acknowledgment back to its own end. -/
theorem acknowledgment_rewinds :
    CarrierPair.pairWithMtu (fun _ => 0) (some 7) (some 9) answeredPath .serverToClient .disabled 1400 1500 =
        .ok (pairAt 0) ∧
      (pairAt 0).decode .inbound (oneByte 0xffffffff).packet = (.ok ⟨0xffffffff, false, [1]⟩, pairAt 0) ∧
      (pairAt 0).decode .inbound (oneByte 0xffffffef).packet = (.ok ⟨0xffffffef, false, [1]⟩, pairAt 0xfffffff0) ∧
      ¬Advances (pairAt 0).acknowledgment (pairAt 0xfffffff0).acknowledgment := by
  decide +kernel

end AcknowledgmentRun

end Quicp
