import Quicp.FakeTcp.Carrier

/-!
# The calls that send

A carrier sends in six ways: a datagram, a SYN or a SYN-ACK, each into a buffer of its own or of the caller. All of
them come to one outcome.
-/

namespace Quicp

inductive PacketKind
  | datagram
  | syn
  | synAck
  deriving DecidableEq, Repr

namespace PacketKind

def flags : PacketKind → TcpFlags
  | datagram => TcpFlags.ack.bitor .psh
  | syn => .syn
  | synAck => TcpFlags.syn.bitor .ack

def first : PacketKind → Bool
  | datagram => false
  | syn => true
  | synAck => true

def cookie (kind : PacketKind) (synData : SynDataMode) : Option (List UInt8) :=
  match synData with
  | .disabled => none
  | .cookie cookie => if kind.first then some cookie.toList else none

@[simp] theorem isSyn_flags (kind : PacketKind) : kind.flags.isSyn = kind.first := by cases kind <;> decide

@[simp] theorem isRst_flags (kind : PacketKind) : kind.flags.isRst = false := by cases kind <;> decide

end PacketKind

structure Call where
  kind : PacketKind
  datagram : List UInt8
  output : Option (List UInt8)

/-- The packet in the output of a call with a buffer of the caller. -/
def packetIn : Outcome CarrierError ℕ × List UInt8 × FakeTcpCarrier →
    Outcome CarrierError (List UInt8) × FakeTcpCarrier
  | (.ok length, output, carrier) => (.ok (output.take length), carrier)
  | (.err error, _, carrier) => (.err error, carrier)
  | (.panicked, _, carrier) => (.panicked, carrier)

namespace Call

def run (carrier : FakeTcpCarrier) : Call → Outcome CarrierError (List UInt8) × FakeTcpCarrier
  | ⟨.datagram, datagram, none⟩ => carrier.encodeDatagram datagram
  | ⟨.datagram, datagram, some output⟩ => packetIn (carrier.encodeDatagramInto datagram output)
  | ⟨.syn, datagram, none⟩ => carrier.encodeSyn datagram
  | ⟨.syn, datagram, some output⟩ => packetIn (carrier.encodeSynInto datagram output)
  | ⟨.synAck, datagram, none⟩ => carrier.encodeSynAck datagram
  | ⟨.synAck, datagram, some output⟩ => packetIn (carrier.encodeSynAckInto datagram output)

def fields (call : Call) (carrier : FakeTcpCarrier) : PacketFields :=
  carrier.packetFields call.datagram call.kind.flags (call.kind.cookie carrier.synData)

def sent (call : Call) (carrier : FakeTcpCarrier) : FakeTcpCarrier :=
  { carrier.sent call.datagram call.kind.flags with sentSyn := carrier.sentSyn || call.kind.first }

/-- The call may send: its kind is due, its datagram fits and the output has room. -/
structure Ready (call : Call) (carrier : FakeTcpCarrier) : Prop where
  due : call.kind.first → carrier.sentSyn = false ∧ ∃ cookie, carrier.synData = .cookie cookie
  fits : carrier.Fits call.datagram call.kind.flags (call.kind.cookie carrier.synData)
  room : ∀ output ∈ call.output, (call.fields carrier).packetLength ≤ output.length

end Call

/-- A call of a carrier has come to its packet and the carrier behind it if it was ready, and to an error if not. -/
def Settles (carrier : FakeTcpCarrier) (ready : Prop) (packet : List UInt8) (next : FakeTcpCarrier)
    (result : Outcome CarrierError (List UInt8) × FakeTcpCarrier) : Prop :=
  (ready ∧ result = (.ok packet, next)) ∨ ¬ready ∧ ∃ error, result = (.err error, carrier)

theorem Settles.congr {carrier next : FakeTcpCarrier} {ready ready' : Prop} {packet : List UInt8}
    {result : Outcome CarrierError (List UInt8) × FakeTcpCarrier} (h : Settles carrier ready packet next result)
    (hready : ready ↔ ready') : Settles carrier ready' packet next result := by
  rwa [Settles, ← hready]

namespace FakeTcpCarrier

/-- `encode`, or `encode_into` for the packet in its output. -/
def pass (carrier : FakeTcpCarrier) (datagram : List UInt8) (flags : TcpFlags) (cookie : Option (List UInt8)) :
    Option (List UInt8) → Outcome CarrierError (List UInt8) × FakeTcpCarrier
  | none => carrier.encode datagram flags cookie
  | some output => packetIn (carrier.encodeInto datagram flags cookie output)

/-- The guard of a first packet around an attempt to send it. -/
def guardFirst (carrier : FakeTcpCarrier) (attempt : Octets 16 → Outcome CarrierError (List UInt8) × FakeTcpCarrier) :
    Outcome CarrierError (List UInt8) × FakeTcpCarrier :=
  if carrier.sentSyn then (.err .invalidState, carrier)
  else
    match carrier.synData with
    | .disabled => (.err .synDataDisabled, carrier)
    | .cookie cookie =>
      match attempt cookie with
      | (.err error, carrier) => (.err error, carrier)
      | (.panicked, carrier) => (.panicked, carrier)
      | (.ok packet, carrier) => (.ok packet, { carrier with sentSyn := true })

variable (carrier : FakeTcpCarrier) (datagram : List UInt8) (flags : TcpFlags)

theorem pass_settles (cookie : Option (List UInt8)) (output : Option (List UInt8)) :
    Settles carrier (carrier.Fits datagram flags cookie ∧
        ∀ buffer ∈ output, (carrier.packetFields datagram flags cookie).packetLength ≤ buffer.length)
      (carrier.packetFields datagram flags cookie).packet (carrier.sent datagram flags)
      (carrier.pass datagram flags cookie output) := by
  cases output with
  | none =>
    obtain ⟨hfits, hencoded⟩ | ⟨hrefused, herror⟩ := carrier.encode_cases datagram flags cookie
    · exact Or.inl ⟨⟨hfits, by simp⟩, hencoded⟩
    · exact Or.inr ⟨fun h => hrefused h.1, herror⟩
  | some output =>
    rw [pass]
    obtain ⟨hfits, hroom, hencoded⟩ | ⟨hrefused, error, output', hencoded⟩ :=
      carrier.encodeInto_cases datagram flags cookie output
    · rw [hencoded, packetIn, List.take_left' (PacketFields.length_packet hfits.sendable.addressed)]
      exact Or.inl ⟨⟨hfits, by simpa using hroom⟩, rfl⟩
    · rw [hencoded, packetIn]
      exact Or.inr ⟨fun h => hrefused ⟨h.1, h.2 output rfl⟩, error, rfl⟩

theorem guardFirst_settles {attempt : Octets 16 → Outcome CarrierError (List UInt8) × FakeTcpCarrier} {ready : Prop}
    {packet : List UInt8} {next : FakeTcpCarrier}
    (h : ∀ cookie, carrier.synData = .cookie cookie → Settles carrier ready packet next (attempt cookie)) :
    Settles carrier ((carrier.sentSyn = false ∧ ∃ cookie, carrier.synData = .cookie cookie) ∧ ready) packet
      { next with sentSyn := true } (carrier.guardFirst attempt) := by
  unfold guardFirst
  by_cases hsent : carrier.sentSyn
  · exact Or.inr ⟨fun hready => by simp [hsent] at hready, .invalidState, if_pos hsent⟩
  rw [if_neg hsent]
  cases hmode : carrier.synData with
  | disabled => exact Or.inr ⟨fun hready => by simp at hready, .synDataDisabled, rfl⟩
  | cookie cookie =>
    obtain ⟨hready, hattempt⟩ | ⟨hrefused, error, hattempt⟩ := h cookie hmode
    · exact Or.inl ⟨⟨⟨Bool.eq_false_of_not_eq_true hsent, cookie, rfl⟩, hready⟩, by simp only [hattempt]⟩
    · exact Or.inr ⟨fun hready => hrefused hready.2, error, by simp only [hattempt]⟩

theorem packetIn_encodeFirstInto (output : List UInt8) :
    packetIn (carrier.encodeFirstInto flags datagram output) =
      carrier.guardFirst fun cookie => carrier.pass datagram flags (some cookie.toList) (some output) := by
  unfold encodeFirstInto guardFirst pass
  by_cases hsent : carrier.sentSyn
  · rw [if_pos hsent, if_pos hsent, packetIn]
  rw [if_neg hsent, if_neg hsent]
  cases carrier.synData with
  | disabled => rfl
  | cookie cookie =>
    dsimp only
    obtain ⟨result, output', next⟩ := carrier.encodeInto datagram flags (some cookie.toList) output
    cases result <;> rfl

end FakeTcpCarrier

namespace Call

variable (call : Call) (carrier : FakeTcpCarrier)

theorem run_eq : call.run carrier =
    if call.kind.first then
      carrier.guardFirst fun cookie => carrier.pass call.datagram call.kind.flags (some cookie.toList) call.output
    else carrier.pass call.datagram call.kind.flags none call.output := by
  obtain ⟨kind, datagram, output⟩ := call
  cases kind <;> cases output
  · exact (if_neg Bool.false_ne_true).symm
  · rfl
  · rfl
  · exact carrier.packetIn_encodeFirstInto datagram _ _
  · rfl
  · exact carrier.packetIn_encodeFirstInto datagram _ _

theorem run_settles : Settles carrier (call.Ready carrier) (call.fields carrier).packet (call.sent carrier)
    (call.run carrier) := by
  rw [run_eq]
  by_cases hfirst : call.kind.first
  · have hpass : ∀ cookie, carrier.synData = .cookie cookie →
        Settles carrier (carrier.Fits call.datagram call.kind.flags (call.kind.cookie carrier.synData) ∧
            ∀ buffer ∈ call.output, (call.fields carrier).packetLength ≤ buffer.length)
          (call.fields carrier).packet (carrier.sent call.datagram call.kind.flags)
          (carrier.pass call.datagram call.kind.flags (some cookie.toList) call.output) := by
      intro cookie hmode
      have hcookie : call.kind.cookie carrier.synData = some cookie.toList := by
        rw [hmode]
        exact if_pos hfirst
      rw [fields, hcookie]
      exact carrier.pass_settles call.datagram call.kind.flags _ call.output
    have hnext : call.sent carrier = { carrier.sent call.datagram call.kind.flags with sentSyn := true } := by
      rw [sent, hfirst, Bool.or_true]
    rw [if_pos hfirst, hnext]
    exact (carrier.guardFirst_settles hpass).congr
      ⟨fun h => ⟨fun _ => h.1, h.2.1, h.2.2⟩, fun h => ⟨h.due hfirst, h.fits, h.room⟩⟩
  · have hcookie : call.kind.cookie carrier.synData = none := by
      cases hmode : carrier.synData with
      | disabled => rfl
      | cookie cookie => exact if_neg hfirst
    have hnext : call.sent carrier = carrier.sent call.datagram call.kind.flags := by
      rw [sent, Bool.eq_false_of_not_eq_true hfirst, Bool.or_false]
      rfl
    have hpass := carrier.pass_settles call.datagram call.kind.flags none call.output
    rw [if_neg hfirst, hnext]
    rw [← hcookie] at hpass ⊢
    exact hpass.congr ⟨fun h => ⟨fun h' => absurd h' hfirst, h.1, h.2⟩, fun h => ⟨h.fits, h.room⟩⟩

end Call

namespace FakeTcpCarrier

def nextKind (carrier : FakeTcpCarrier) (direction : CarrierDirection) : PacketKind :=
  if carrier.sentSyn then .datagram
  else
    match direction with
    | .clientToServer => .syn
    | .serverToClient => .synAck

theorem encodeNextDatagramInto_eq (carrier : FakeTcpCarrier) (direction : CarrierDirection)
    (datagram output : List UInt8) : carrier.encodeNextDatagramInto direction datagram output =
      let kind := carrier.nextKind direction
      if kind.first then carrier.encodeFirstInto kind.flags datagram output
      else carrier.encodeInto datagram kind.flags none output := by
  unfold encodeNextDatagramInto nextKind
  by_cases hsent : carrier.sentSyn
  · rw [if_pos hsent, if_pos hsent]
    rfl
  · rw [if_neg hsent, if_neg hsent]
    cases direction <;> rfl

theorem encodeNextDatagramInto_cases (carrier : FakeTcpCarrier) (direction : CarrierDirection)
    (datagram output : List UInt8) :
    let call : Call := ⟨carrier.nextKind direction, datagram, some output⟩
    (call.Ready carrier ∧ carrier.encodeNextDatagramInto direction datagram output =
      (.ok (call.fields carrier).packetLength,
        (call.fields carrier).packet ++ output.drop (call.fields carrier).packetLength, call.sent carrier)) ∨
      ¬call.Ready carrier ∧ ∃ error output',
        carrier.encodeNextDatagramInto direction datagram output = (.err error, output', carrier) := by
  intro call
  have hcases : (carrier.Fits datagram call.kind.flags (call.kind.cookie carrier.synData) ∧
      (call.fields carrier).packetLength ≤ output.length ∧
      carrier.encodeInto datagram call.kind.flags (call.kind.cookie carrier.synData) output =
        (.ok (call.fields carrier).packetLength, (call.fields carrier).packet ++
          output.drop (call.fields carrier).packetLength, carrier.sent datagram call.kind.flags)) ∨
      ¬(carrier.Fits datagram call.kind.flags (call.kind.cookie carrier.synData) ∧
        (call.fields carrier).packetLength ≤ output.length) ∧ ∃ error output',
          carrier.encodeInto datagram call.kind.flags (call.kind.cookie carrier.synData) output =
            (.err error, output', carrier) :=
    carrier.encodeInto_cases datagram call.kind.flags (call.kind.cookie carrier.synData) output
  have hroom : (call.fields carrier).packetLength ≤ output.length →
      ∀ buffer ∈ call.output, (call.fields carrier).packetLength ≤ buffer.length := by
    rintro h buffer ⟨⟩
    exact h
  have hencode : carrier.encodeNextDatagramInto direction datagram output =
      if call.kind.first then carrier.encodeFirstInto call.kind.flags datagram output
      else carrier.encodeInto datagram call.kind.flags none output :=
    carrier.encodeNextDatagramInto_eq direction datagram output
  by_cases hfirst : call.kind.first
  · have hnext : call.sent carrier = { carrier.sent datagram call.kind.flags with sentSyn := true } := by
      rw [Call.sent, hfirst, Bool.or_true]
    rw [hencode, if_pos hfirst, encodeFirstInto]
    by_cases hsent : carrier.sentSyn
    · refine .inr ⟨fun h => ?_, .invalidState, output, if_pos hsent⟩
      exact absurd hsent (by simp [(h.due hfirst).1])
    rw [if_neg hsent]
    cases hmode : carrier.synData with
    | disabled =>
      refine .inr ⟨fun h => ?_, .synDataDisabled, output, rfl⟩
      obtain ⟨cookie, hcookie⟩ := (h.due hfirst).2
      cases hmode.symm.trans hcookie
    | cookie cookie =>
      have hcookie : call.kind.cookie carrier.synData = some cookie.toList := by
        rw [hmode]
        exact if_pos hfirst
      dsimp only
      rw [← hcookie, hnext]
      obtain ⟨hfits, hlength, hencoded⟩ | ⟨hrefused, error, output', hencoded⟩ := hcases
      · rw [hencoded]
        exact .inl ⟨⟨fun _ => ⟨Bool.eq_false_of_not_eq_true hsent, cookie, hmode⟩, hfits, hroom hlength⟩, rfl⟩
      · rw [hencoded]
        exact .inr ⟨fun h => hrefused ⟨h.fits, h.room output rfl⟩, error, output', rfl⟩
  · have hcookie : call.kind.cookie carrier.synData = none := by
      cases hmode : carrier.synData with
      | disabled => rfl
      | cookie cookie => exact if_neg hfirst
    have hnext : call.sent carrier = carrier.sent datagram call.kind.flags := by
      rw [Call.sent, Bool.eq_false_of_not_eq_true hfirst, Bool.or_false]
      rfl
    rw [hencode, if_neg hfirst, hnext, ← hcookie]
    obtain ⟨hfits, hlength, hencoded⟩ | ⟨hrefused, hencoded⟩ := hcases
    · exact .inl ⟨⟨fun h => absurd h hfirst, hfits, hroom hlength⟩, hencoded⟩
    · exact .inr ⟨fun h => hrefused ⟨h.fits, h.room output rfl⟩, hencoded⟩

end FakeTcpCarrier

end Quicp
