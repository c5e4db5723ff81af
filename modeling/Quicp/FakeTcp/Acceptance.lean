import Quicp.FakeTcp.CachedPrefix
import Quicp.FakeTcp.Carrier

/-!
# Which packets a carrier accepts

A packet is accepted when it is within the MTU of the path, decodes to a packet of the other end, is no reset, carries
bytes and, with the SYN flag, has the cookie of the path.
-/

namespace Quicp

theorem decodeTcpView_ne_panicked (source destination : SocketAddr) {pseudo : ℕ} (hpseudo : pseudo ≤ 16 * 65535 + 6)
    {tcp : List UInt8} (h : tcp.length ≤ maxPacketBytes) :
    decodeTcpView source destination tcp (some pseudo) ≠ .panicked := by
  unfold decodeTcpView
  rw [Option.elim_some, tcpChecksumWithPrefix_eq source hpseudo h]
  dsimp only
  split_ifs
  · simp
  · simp
  · cases fastOpenCookie ((tcp.take ((tcp.getD 12 0 >>> 4).toNat * 4)).drop tcpHeaderBytes) <;> simp

theorem decodePacketView_ne_panicked {pseudo : ℕ} (hpseudo : pseudo ≤ 16 * 65535 + 6) (input : List UInt8) :
    decodePacketView input (some pseudo) ≠ .panicked := by
  obtain ⟨error, herror⟩ | ⟨source, destination, tcp, _, hlength, htcp⟩ := leavesToSegment_decodePacketView input
  · rw [herror]
    simp
  · rw [htcp]
    exact decodeTcpView_ne_panicked source destination hpseudo hlength

namespace PacketView

def sequenceEnd (view : PacketView) : UInt32 := view.sequence + consumed view.payload.length view.flags

def decoded (view : PacketView) : DecodedDatagram := ⟨view.sequence, view.flags.isSyn, view.payload⟩

end PacketView

namespace FakeTcpCarrier

/-- The packet is one that the carrier accepts, with what it decodes to. -/
structure Accepts (carrier : FakeTcpCarrier) (packet : List UInt8) (view : PacketView) : Prop where
  size : packet.length ≤ carrier.outerMtu.toNat
  checked : checkedView carrier.tuple (some carrier.pseudoHeaderPrefix) packet = .ok view
  kept : view.flags.isRst = false
  payload : view.payload ≠ []
  syn : carrier.checkSyn view = .ok ()

theorem decodeDatagramBorrowed_cases (carrier : FakeTcpCarrier) (packet : List UInt8) :
    (∃ view, carrier.Accepts packet view ∧
      carrier.decodeDatagramBorrowed packet = (.ok view.decoded, carrier.acknowledge view.sequenceEnd)) ∨
      (∀ view, ¬carrier.Accepts packet view) ∧
        ∃ error, carrier.decodeDatagramBorrowed packet = (.err error, carrier) := by
  have hpseudo : carrier.pseudoHeaderPrefix ≤ 16 * 65535 + 6 := by
    rw [carrier.pseudoHeaderPrefix_eq]
    exact pathSum_le _ _
  unfold decodeDatagramBorrowed
  by_cases hsize : packet.length > carrier.outerMtu.toNat
  · exact .inr ⟨fun view h => absurd h.size (not_le.mpr hsize), .packetTooLarge, if_pos hsize⟩
  rw [if_neg hsize]
  cases hview : decodePacketView packet (some carrier.pseudoHeaderPrefix) with
  | panicked => exact absurd hview (decodePacketView_ne_panicked hpseudo packet)
  | err error =>
    refine .inr ⟨fun view h => ?_, error, rfl⟩
    cases hview.symm.trans (checkedView_eq_ok.mp h.checked).1
  | ok view =>
    have hsame : ∀ view', carrier.Accepts packet view' → view' = view ∧ view.source = carrier.tuple.destination ∧
        view.destination = carrier.tuple.source := by
      intro view' h
      obtain ⟨hview', hsource, hdestination⟩ := checkedView_eq_ok.mp h.checked
      obtain rfl : view = view' := Outcome.ok.inj (hview.symm.trans hview')
      exact ⟨rfl, hsource, hdestination⟩
    dsimp only
    split_ifs with hends hrst hpayload
    · refine .inr ⟨fun view' h => ?_, .wrongTuple, rfl⟩
      obtain ⟨_, hsource, hdestination⟩ := hsame view' h
      exact absurd hends (by simp [FourTuple.reverse, hsource, hdestination])
    · refine .inr ⟨fun view' h => ?_, .invalidTcpHeader, rfl⟩
      obtain ⟨rfl, _⟩ := hsame view' h
      exact absurd hrst (by simp [h.kept])
    · refine .inr ⟨fun view' h => ?_, .emptyPayload, rfl⟩
      obtain ⟨rfl, _⟩ := hsame view' h
      exact h.payload (List.isEmpty_iff.mp hpayload)
    · cases hsyn : carrier.checkSyn view with
      | error error =>
        refine .inr ⟨fun view' h => ?_, error, rfl⟩
        obtain ⟨rfl, _⟩ := hsame view' h
        cases hsyn.symm.trans h.syn
      | ok _ =>
        push Not at hends
        refine .inl ⟨view, ⟨not_lt.mp hsize, checkedView_eq_ok.mpr ⟨hview, hends⟩, ?_, ?_, hsyn⟩, rfl⟩
        · simpa using hrst
        · simpa using hpayload

end FakeTcpCarrier

end Quicp
