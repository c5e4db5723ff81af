import Quicp.FakeTcp.Acceptance
import Quicp.Library.Cut

/-!
# Raw sockets of the carrier

What both ways to receive share: the packets that a carrier accepts, the slots of a poll with their buffers and what
is said about them, and groups of payloads of one length that stand one behind the other in a buffer.
-/

namespace Quicp

open Buffer (writeAt)

def rawPacketBufferBytes : ℕ := maxPacketBytes

def maxDecodeRejectsPerPoll : ℕ := 64

def recvBatchSize : ℕ := 8

def groSegments : ℕ := 4

inductive SocketErrorKind
  | invalidInput
  | invalidData
  | writeZero
  | other
  deriving DecidableEq, Repr

/-- `io::Error` of a raw socket: one of the adapter, of the carrier or of the system. -/
inductive SocketError
  | custom (kind : SocketErrorKind) (message : String)
  | carrier (error : CarrierError)
  | os (code : ℕ)
  deriving DecidableEq, Repr

/-- `RecvMeta`, without the field that no receiver sets. -/
structure RecvMeta where
  addr : SocketAddr
  len : ℕ
  stride : ℕ
  dstIp : Option IpAddr
  deriving DecidableEq

structure ReceiveSlot where
  buffer : List UInt8
  info : RecvMeta
  deriving DecidableEq

def ReceiveSlot.pieces (slot : ReceiveSlot) : List (List UInt8) :=
  Cut.pieces slot.info.stride (slot.buffer.take slot.info.len)

/-- Payloads of one length stand one behind the other at the front of a buffer. -/
structure Grouped (buffer : List UInt8) (stride : ℕ) (payloads : List (List UInt8)) : Prop where
  lengths : ∀ payload ∈ payloads, payload.length = stride
  room : payloads.length * stride ≤ buffer.length
  front : buffer.take (payloads.length * stride) = payloads.flatten

namespace Grouped

variable {buffer payload : List UInt8} {stride : ℕ} {payloads : List (List UInt8)}

theorem nil (buffer : List UInt8) (stride : ℕ) : Grouped buffer stride [] where
  lengths := by simp
  room := by simp
  front := by simp

theorem append (h : Grouped buffer stride payloads) (hpayload : payload.length = stride)
    (hroom : (payloads.length + 1) * stride ≤ buffer.length) :
    Grouped (writeAt buffer (payloads.length * stride) payload) stride (payloads ++ [payload]) where
  lengths := by
    intro other hother
    rcases List.mem_append.mp hother with hother | hother
    · exact h.lengths other hother
    · rw [List.mem_singleton.mp hother, hpayload]
  room := by
    rw [Nat.succ_mul, ← hpayload] at hroom
    rw [List.length_append, List.length_singleton, Nat.succ_mul, ← hpayload, Buffer.length_writeAt hroom]
    exact hroom
  front := by
    have htake : (writeAt buffer (payloads.length * stride) payload).take (payloads.length * stride + payload.length) =
        buffer.take (payloads.length * stride) ++ payload := Buffer.take_writeAt h.room
    rw [List.length_append, List.length_singleton, Nat.succ_mul, ← hpayload]
    rw [hpayload] at htake ⊢
    rw [htake, h.front, List.flatten_append, List.flatten_singleton]

theorem pieces_eq (h : Grouped buffer stride payloads) (hstride : 0 < stride) {info : RecvMeta}
    (hlen : info.len = payloads.length * stride) (hinfo : info.stride = stride) :
    ReceiveSlot.pieces ⟨buffer, info⟩ = payloads := by
  rw [ReceiveSlot.pieces, hlen, hinfo, h.front, Cut.pieces_flatten hstride h.lengths]

end Grouped

def HandsOutEnd (input : List UInt8) (result : Outcome CarrierError PacketView) : Prop :=
  ∀ view, result = .ok view → view.payload <:+ input

namespace HandsOutEnd

variable {input : List UInt8}

theorem err (error : CarrierError) : HandsOutEnd input (.err error) := fun _ h => nomatch h

theorem ite {p : Prop} [Decidable p] {first second : Outcome CarrierError PacketView} (hfirst : HandsOutEnd input first)
    (hsecond : HandsOutEnd input second) : HandsOutEnd input (if p then first else second) := by
  by_cases h : p
  · rwa [if_pos h]
  · rwa [if_neg h]

end HandsOutEnd

theorem handsOutEnd_decodeTcpView (source destination : SocketAddr) {tcp input : List UInt8} (h : tcp <:+ input)
    (known : Option ℕ) : HandsOutEnd input (decodeTcpView source destination tcp known) := by
  unfold decodeTcpView
  cases known.elim (tcpChecksum source destination tcp) (tcpChecksumWithPrefix source · tcp) with
  | none => exact fun _ hview => nomatch hview
  | some checksum =>
    refine .ite (.err _) (.ite (.err _) ?_)
    cases fastOpenCookie ((tcp.take ((tcp.getD 12 0 >>> 4).toNat * 4)).drop tcpHeaderBytes) with
    | error error => exact .err error
    | ok cookie =>
      intro view hview
      cases hview
      exact (List.drop_suffix _ _).trans h

theorem handsOutEnd_decodePacketView (input : List UInt8) (known : Option ℕ) :
    HandsOutEnd input (decodePacketView input known) := by
  refine .ite (.err _) (.ite (.err _) (.ite ?_ (.ite ?_ (.err _))))
  · refine .ite (.err _) (.ite (.err _) (.ite (.err _) ?_))
    cases internetChecksum (input.take ((input.getD 0 0 &&& 0x0f).toNat * 4)) with
    | none => exact fun _ hview => nomatch hview
    | some checksum => exact .ite (.err _) (handsOutEnd_decodeTcpView _ _ (List.drop_suffix _ _) known)
  · unfold decodeIpv6View
    refine .ite (.err _) (.ite (.err _) ?_)
    split_ifs
    · exact handsOutEnd_decodeTcpView _ _ (List.drop_suffix _ _) known
    · exact .err _
    · exact .err _

namespace FakeTcpCarrier

/-- The payload of a packet that `decode_datagram_borrowed` accepts. -/
def acceptedPayload (carrier : FakeTcpCarrier) (packet : List UInt8) : Option (List UInt8) :=
  match (carrier.decodeDatagramBorrowed packet).1 with
  | .ok decoded => some decoded.payload
  | .err _ => none
  | .panicked => none

variable (carrier : FakeTcpCarrier)

variable {packet payload : List UInt8}

theorem acceptedPayload_eq_some :
    carrier.acceptedPayload packet = some payload ↔ ∃ view, carrier.Accepts packet view ∧ view.payload = payload := by
  obtain ⟨view, haccepts, hdecode⟩ | ⟨hrefused, error, hdecode⟩ := carrier.decodeDatagramBorrowed_cases packet
  · rw [acceptedPayload, hdecode]
    constructor
    · intro h
      exact ⟨view, haccepts, Option.some.inj h⟩
    · rintro ⟨view', haccepts', rfl⟩
      have hview := haccepts.checked.symm.trans haccepts'.checked
      cases hview
      rfl
  · rw [acceptedPayload, hdecode]
    exact iff_of_false (fun h => nomatch h) (fun ⟨view, haccepts, _⟩ => hrefused view haccepts)

theorem acceptedPayload_acknowledge (acknowledgment : UInt32) :
    (carrier.acknowledge acknowledgment).acceptedPayload = carrier.acceptedPayload := by
  have haccepts : ∀ packet view, (carrier.acknowledge acknowledgment).Accepts packet view ↔
      carrier.Accepts packet view := by
    intro packet view
    unfold acknowledge
    split_ifs
    · exact ⟨fun h => ⟨h.size, h.checked, h.kept, h.payload, h.syn⟩, fun h => ⟨h.size, h.checked, h.kept, h.payload, h.syn⟩⟩
    · rfl
  funext packet
  refine Option.ext fun payload => ?_
  rw [acceptedPayload_eq_some, acceptedPayload_eq_some]
  simp only [haccepts]

theorem acceptedPayload_suffix (h : carrier.acceptedPayload packet = some payload) :
    payload ≠ [] ∧ payload <:+ packet := by
  obtain ⟨view, haccepts, rfl⟩ := (carrier.acceptedPayload_eq_some).mp h
  exact ⟨haccepts.payload, handsOutEnd_decodePacketView _ _ view (checkedView_eq_ok.mp haccepts.checked).1⟩

theorem length_of_acceptedPayload (h : carrier.acceptedPayload packet = some payload) :
    packet.length ≤ rawPacketBufferBytes := by
  obtain ⟨view, haccepts, rfl⟩ := (carrier.acceptedPayload_eq_some).mp h
  exact haccepts.size.trans (Nat.le_of_lt_succ carrier.outerMtu.toNat_lt)

theorem decodeDatagramBorrowed_accepted (packet : List UInt8) :
    (∃ decoded carrier', carrier.decodeDatagramBorrowed packet = (.ok decoded, carrier') ∧
      carrier.acceptedPayload packet = some decoded.payload ∧ carrier'.acceptedPayload = carrier.acceptedPayload) ∨
      ∃ error, carrier.decodeDatagramBorrowed packet = (.err error, carrier) ∧ carrier.acceptedPayload packet = none := by
  obtain ⟨view, haccepts, hdecode⟩ | ⟨_, error, hdecode⟩ := carrier.decodeDatagramBorrowed_cases packet
  · refine .inl ⟨view.decoded, _, hdecode, ?_, carrier.acceptedPayload_acknowledge _⟩
    rw [acceptedPayload, hdecode]
  · refine .inr ⟨error, hdecode, ?_⟩
    rw [acceptedPayload, hdecode]

def acceptedPayloads (carrier : FakeTcpCarrier) (packets : List (List UInt8)) : List (List UInt8) :=
  packets.filterMap carrier.acceptedPayload

end FakeTcpCarrier

end Quicp
