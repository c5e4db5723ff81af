import Quicp.FakeTcp.Acceptance
import Quicp.FakeTcp.Calls
import Quicp.Library.Reachable

/-!
# The sequence space of a carrier

Every packet takes as many sequence numbers as it has bytes, and a SYN one more. Only a call that
returns a packet moves the carrier on, so whatever is called in between, each packet starts where
the one before it ended, and there is one SYN at most.
-/

namespace Quicp

theorem toNat_consumed {length : ℕ} (h : length ≤ maxDatagramBytes) (flags : TcpFlags) :
    (consumed length flags).toNat = length + if flags.isSyn then 1 else 0 := by
  have hlimit : length ≤ 65475 := h
  have hmax : u32Max = 4294967295 := rfl
  have hsize : UInt32.size = 4294967296 := rfl
  have hsyn : (if flags.isSyn then 1 else 0) ≤ 1 := by split_ifs <;> decide
  rw [consumed, if_pos (by omega), min_eq_left (by omega)]
  exact UInt32.toNat_ofNat_of_lt' (by omega)

def PacketView.Follows (view next : PacketView) : Prop :=
  next.sequence.toNat = (view.sequence.toNat + view.payload.length + if view.flags.isSyn then 1 else 0) % 2 ^ 32

namespace SequenceRun

structure State where
  carrier : FakeTcpCarrier
  log : List (List UInt8)

inductive Action
  | call (call : Call)
  | decode (packet : List UInt8)
  | acknowledge (acknowledgment : UInt32)

def apply (s : State) : Action → State
  | .call call =>
    match call.run s.carrier with
    | (.ok packet, carrier) => ⟨carrier, s.log ++ [packet]⟩
    | (_, carrier) => ⟨carrier, s.log⟩
  | .decode packet => ⟨(s.carrier.decodeDatagram packet).2, s.log⟩
  | .acknowledge acknowledgment => ⟨{ s.carrier with acknowledgment := acknowledgment }, s.log⟩

def Step (s : State) (action : Action) (t : State) : Prop := t = apply s action

def Initial (s : State) : Prop := s.log = []

/-- The packets so far follow each other, the next one follows the last, and a SYN is remembered. -/
structure Sent (carrier : FakeTcpCarrier) (log : List (List UInt8)) (views : List PacketView) : Prop where
  decoded : log.map (decodePacketView · none) = views.map .ok
  chain : views.IsChain PacketView.Follows
  last : ∀ view ∈ views.getLast?, carrier.sendSequence.toNat =
    (view.sequence.toNat + view.payload.length + if view.flags.isSyn then 1 else 0) % 2 ^ 32
  syns : views.countP (·.flags.isSyn) ≤ if carrier.sentSyn then 1 else 0

theorem Sent.congr {carrier other : FakeTcpCarrier} {log : List (List UInt8)} {views : List PacketView}
    (h : Sent carrier log views) (hsequence : other.sendSequence = carrier.sendSequence)
    (hsyn : other.sentSyn = carrier.sentSyn) : Sent other log views where
  decoded := h.decoded
  chain := h.chain
  last := by rw [hsequence]; exact h.last
  syns := by rw [hsyn]; exact h.syns

theorem Sent.append {call : Call} {carrier : FakeTcpCarrier} {log : List (List UInt8)} {views : List PacketView}
    (h : Sent carrier log views) (hready : call.Ready carrier) :
    Sent (call.sent carrier) (log ++ [(call.fields carrier).packet]) (views ++ [(call.fields carrier).view]) where
  decoded := by
    have hview : decodePacketView (call.fields carrier).packet none = .ok (call.fields carrier).view :=
      PacketFields.decodePacketView_packet hready.fits.sendable (by simp)
    rw [List.map_append, List.map_append, h.decoded, List.map_singleton, List.map_singleton, hview]
  chain := by
    refine List.isChain_append.mpr ⟨h.chain, List.isChain_singleton _, fun view hview next hnext => ?_⟩
    obtain rfl : (call.fields carrier).view = next := Option.some.inj hnext
    exact h.last view hview
  last := by
    intro view hview
    rw [List.getLast?_concat] at hview
    obtain rfl := Option.some.inj hview
    have hconsumed := toNat_consumed hready.fits.datagramFits call.kind.flags
    change (carrier.sendSequence + consumed call.datagram.length call.kind.flags).toNat = _
    rw [UInt32.toNat_add, hconsumed, Nat.add_assoc]
    rfl
  syns := by
    have hflags : (call.fields carrier).view.flags.isSyn = call.kind.first := call.kind.isSyn_flags
    have hsyns := h.syns
    have hsent : (call.sent carrier).sentSyn = (carrier.sentSyn || call.kind.first) := rfl
    rw [List.countP_append, List.countP_singleton, hflags, hsent]
    by_cases hfirst : call.kind.first
    · rw [(hready.due hfirst).1] at hsyns ⊢
      rw [hfirst]
      simpa using hsyns
    · simpa [hfirst] using hsyns

theorem decodeDatagram_keeps (carrier : FakeTcpCarrier) (packet : List UInt8) :
    (carrier.decodeDatagram packet).2.sendSequence = carrier.sendSequence ∧
      (carrier.decodeDatagram packet).2.sentSyn = carrier.sentSyn := by
  have hacknowledge : ∀ value, (carrier.acknowledge value).sendSequence = carrier.sendSequence ∧
      (carrier.acknowledge value).sentSyn = carrier.sentSyn := by
    intro value
    unfold FakeTcpCarrier.acknowledge
    split_ifs <;> exact ⟨rfl, rfl⟩
  obtain ⟨view, _, hdecoded⟩ | ⟨_, error, hrefused⟩ := carrier.decodeDatagramBorrowed_cases packet
  · rw [FakeTcpCarrier.decodeDatagram, hdecoded]
    exact hacknowledge _
  · rw [FakeTcpCarrier.decodeDatagram, hrefused]
    exact ⟨rfl, rfl⟩

def InOrder (s : State) : Prop := ∃ views, Sent s.carrier s.log views

theorem inOrder_apply {s : State} (h : InOrder s) (action : Action) : InOrder (apply s action) := by
  obtain ⟨views, h⟩ := h
  cases action with
  | call call =>
    obtain ⟨hready, hrun⟩ | ⟨_, error, hrun⟩ := call.run_settles s.carrier
    · rw [InOrder, apply, hrun]
      exact ⟨_, h.append hready⟩
    · rw [InOrder, apply, hrun]
      exact ⟨views, h⟩
  | decode packet =>
    obtain ⟨hsequence, hsyn⟩ := decodeDatagram_keeps s.carrier packet
    exact ⟨views, h.congr hsequence hsyn⟩
  | acknowledge acknowledgment => exact ⟨views, h.congr rfl rfl⟩

theorem inOrder_reachable {s : State} (h : Reachable Initial Step s) : InOrder s := by
  refine h.invariant (fun s hs => ?_) fun s action t hs ht => ?_
  · have hlog : s.log = [] := hs
    exact ⟨[], by rw [hlog]; rfl, List.isChain_nil, by simp, Nat.zero_le _⟩
  · obtain rfl := ht
    exact inOrder_apply hs action

/-- The two calls have the same outcome: one packet and one carrier behind it, or an error and the carrier as it was. -/
def Agree (carrier : FakeTcpCarrier) (left right : Outcome CarrierError (List UInt8) × FakeTcpCarrier) : Prop :=
  (∃ packet next, left = (.ok packet, next) ∧ right = (.ok packet, next)) ∨
    ∃ error error', left = (.err error, carrier) ∧ right = (.err error', carrier)

theorem agree_run (carrier : FakeTcpCarrier) (kind : PacketKind) (datagram : List UInt8) {output : List UInt8}
    (hroom : (Call.fields ⟨kind, datagram, none⟩ carrier).packetLength ≤ output.length) :
    Agree carrier (Call.run carrier ⟨kind, datagram, none⟩) (Call.run carrier ⟨kind, datagram, some output⟩) := by
  have hready : Call.Ready ⟨kind, datagram, none⟩ carrier ↔ Call.Ready ⟨kind, datagram, some output⟩ carrier := by
    constructor
    · intro h
      refine ⟨h.due, h.fits, fun buffer hbuffer => ?_⟩
      obtain rfl := Option.some.inj hbuffer
      exact hroom
    · intro h
      exact ⟨h.due, h.fits, by simp⟩
  obtain ⟨hleft, hrun⟩ | ⟨hleft, error, hrun⟩ := Call.run_settles ⟨kind, datagram, none⟩ carrier
  · obtain ⟨_, hrun'⟩ | ⟨hright, _⟩ := Call.run_settles ⟨kind, datagram, some output⟩ carrier
    · exact Or.inl ⟨_, _, hrun, hrun'⟩
    · exact absurd (hready.mp hleft) hright
  · obtain ⟨hright, _⟩ | ⟨_, error', hrun'⟩ := Call.run_settles ⟨kind, datagram, some output⟩ carrier
    · exact absurd (hready.mpr hright) hleft
    · exact Or.inr ⟨error, error', hrun, hrun'⟩

/-- In every run the packets follow each other without a gap and with one SYN at most; an error leaves the sequence
number and the SYN flag as they were, and a buffer with room makes no difference. -/
theorem sequence_gap_free {s : State} (h : Reachable Initial Step s) :
    (∃ views : List PacketView, s.log.map (decodePacketView · none) = views.map Outcome.ok ∧ views.IsChain PacketView.Follows ∧
      views.countP (·.flags.isSyn) ≤ 1) ∧
      (∀ call error next, Call.run s.carrier call = (.err error, next) →
        next.sendSequence = s.carrier.sendSequence ∧ next.sentSyn = s.carrier.sentSyn) ∧
      ∀ kind datagram output, (Call.fields ⟨kind, datagram, none⟩ s.carrier).packetLength ≤ output.length →
        Agree s.carrier (Call.run s.carrier ⟨kind, datagram, none⟩)
          (Call.run s.carrier ⟨kind, datagram, some output⟩) := by
  refine ⟨?_, fun call error next hrun => ?_, fun kind datagram output => agree_run s.carrier kind datagram⟩
  · obtain ⟨views, hsent⟩ := inOrder_reachable h
    have hone : (if s.carrier.sentSyn then 1 else 0) ≤ 1 := by split_ifs <;> decide
    exact ⟨views, hsent.decoded, hsent.chain, hsent.syns.trans hone⟩
  · obtain ⟨_, hsent⟩ | ⟨_, error', herror⟩ := call.run_settles s.carrier
    · cases hsent.symm.trans hrun
    · obtain rfl : s.carrier = next := (Prod.mk.inj (herror.symm.trans hrun)).2
      exact ⟨rfl, rfl⟩

private def wrappingCarrier : FakeTcpCarrier :=
  .fromParts .sample 5129 (.cookie (List.Vector.replicate 16 5)) 0xffffffff 1400 1500 FourTuple.sample_prefix

private def wrappingCalls : List Action :=
  [.call ⟨.syn, [1, 2, 3], some [0]⟩, .call ⟨.syn, [1, 2, 3], none⟩, .call ⟨.synAck, [4], none⟩,
    .call ⟨.datagram, [4, 5], some (List.replicate 60 0)⟩]

private def wrapped : State := wrappingCalls.foldl apply ⟨wrappingCarrier, []⟩

theorem sequence_gap_free_wrapping :
    wrapped.log.length = 2 ∧ wrapped.carrier.sendSequence = 5 ∧
      (∃ views : List PacketView, wrapped.log.map (decodePacketView · none) = views.map Outcome.ok ∧
        views.IsChain PacketView.Follows ∧ views.countP (·.flags.isSyn) ≤ 1) ∧
      (Call.run wrapped.carrier ⟨.syn, [1], none⟩).2.sendSequence = wrapped.carrier.sendSequence ∧
      Agree wrapped.carrier (Call.run wrapped.carrier ⟨.datagram, [1], none⟩)
        (Call.run wrapped.carrier ⟨.datagram, [1], some (List.replicate 41 0)⟩) := by
  have hstart : Reachable Initial Step ⟨wrappingCarrier, []⟩ := .start rfl
  have hstep : ∀ s action, True → Step s action (apply s action) := fun _ _ _ => rfl
  have hpermits : Reachable.Permits (fun _ _ => True) apply ⟨wrappingCarrier, []⟩ wrappingCalls :=
    ⟨trivial, trivial, trivial, trivial, trivial⟩
  have hreachable : Reachable Initial Step wrapped := hstart.run hstep hpermits
  obtain ⟨hviews, herror, hagree⟩ := sequence_gap_free hreachable
  exact ⟨by decide +kernel, by decide +kernel, hviews,
    (herror ⟨.syn, [1], none⟩ .invalidState _ (by decide +kernel)).1, hagree .datagram [1] _ (by decide +kernel)⟩

end SequenceRun

end Quicp
