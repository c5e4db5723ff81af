import Quicp.FakeTcp.Layout
import Quicp.FakeTcp.Tuple

/-!
# The carrier of one path

A carrier keeps the sequence number of the next packet, whether it has sent its SYN and what it acknowledges.
-/

namespace Quicp

def maxDatagramBytes : ℕ := maxPacketBytes - ipv6HeaderBytes - tcpHeaderBytes

def defaultSynMss : UInt16 := 1460

inductive SynDataMode
  | disabled
  | cookie (cookie : Octets 16)
  deriving DecidableEq

/-- `FakeTcpCarrier`; its tuple was validated when its prefix was taken. -/
structure FakeTcpCarrier where
  tuple : FourTuple
  pseudoHeaderPrefix : ℕ
  synData : SynDataMode
  sendSequence : UInt32
  acknowledgment : UInt32
  sentSyn : Bool
  synMss : UInt16
  outerMtu : UInt16
  validated : validatedPseudoHeaderPrefix tuple = .ok pseudoHeaderPrefix
  deriving DecidableEq

/-- `DecodedDatagram`, and `BorrowedDecodedDatagram` whose payload is not copied. -/
structure DecodedDatagram where
  sequence : UInt32
  wasSyn : Bool
  payload : List UInt8
  deriving DecidableEq

def consumed (length : ℕ) (flags : TcpFlags) : UInt32 :=
  UInt32.ofNat (min ((if length ≤ u32Max then length else u32Max) + if flags.isSyn then 1 else 0) u32Max)

theorem FourTuple.sample_prefix : validatedPseudoHeaderPrefix .sample = .ok 5129 := by decide +kernel

namespace FakeTcpCarrier

def fromParts (tuple : FourTuple) (pseudoHeaderPrefix : ℕ) (synData : SynDataMode) (sendSequence : UInt32)
    (synMss outerMtu : UInt16) (validated : validatedPseudoHeaderPrefix tuple = .ok pseudoHeaderPrefix) :
    FakeTcpCarrier where
  tuple := tuple
  pseudoHeaderPrefix := pseudoHeaderPrefix
  synData := synData
  sendSequence := sendSequence
  acknowledgment := 0
  sentSyn := false
  synMss := synMss
  outerMtu := outerMtu
  validated := validated

def newWithMtu (crc32c : List UInt8 → UInt32) (random : Option UInt32) (tuple : FourTuple)
    (direction : CarrierDirection) (synData : SynDataMode) (synMss outerMtu : UInt16) :
    Outcome CarrierError FakeTcpCarrier :=
  match hvalidated : validatedPseudoHeaderPrefix tuple with
  | .err error => .err error
  | .panicked => .panicked
  | .ok pseudoHeaderPrefix =>
    let headerBytes := UInt16.ofNat ((if tuple.source.isIpv4 then ipv4HeaderBytes else ipv6HeaderBytes) + tcpHeaderBytes)
    if outerMtu < headerBytes then .err (.invalidOuterMtu outerMtu)
    else
      let maximumMss := outerMtu - headerBytes
      if synMss = 0 ∨ synMss > maximumMss then .err (.invalidMss synMss maximumMss)
      else
        match initialSequence crc32c random tuple direction with
        | .error error => .err error
        | .ok sendSequence => .ok (fromParts tuple pseudoHeaderPrefix synData sendSequence synMss outerMtu hvalidated)

def new (crc32c : List UInt8 → UInt32) (random : Option UInt32) (tuple : FourTuple) (direction : CarrierDirection)
    (synData : SynDataMode) : Outcome CarrierError FakeTcpCarrier :=
  newWithMtu crc32c random tuple direction synData defaultSynMss 65535

def newWithInitialSequence (tuple : FourTuple) (synData : SynDataMode) (initialSequence : UInt32) :
    Outcome CarrierError FakeTcpCarrier :=
  match hvalidated : validatedPseudoHeaderPrefix tuple with
  | .err error => .err error
  | .panicked => .panicked
  | .ok pseudoHeaderPrefix =>
    .ok (fromParts tuple pseudoHeaderPrefix synData initialSequence defaultSynMss 65535 hvalidated)

def options (carrier : FakeTcpCarrier) (flags : TcpFlags) (cookie : Option (List UInt8)) : TcpOptions :=
  if flags.isSyn then .forSynWithMss carrier.synMss cookie else .default

def packetFields (carrier : FakeTcpCarrier) (datagram : List UInt8) (flags : TcpFlags) (cookie : Option (List UInt8)) :
    PacketFields where
  source := carrier.tuple.source
  destination := carrier.tuple.destination
  sequence := carrier.sendSequence
  acknowledgment := carrier.acknowledgment
  flags := flags
  window := 65535
  options := carrier.options flags cookie
  payload := datagram

/-- `encode_into`: the length of the packet, the output with it and the carrier behind it. -/
def encodeInto (carrier : FakeTcpCarrier) (datagram : List UInt8) (flags : TcpFlags) (cookie : Option (List UInt8))
    (output : List UInt8) : Outcome CarrierError ℕ × List UInt8 × FakeTcpCarrier :=
  if datagram.length > maxDatagramBytes then (.err .datagramTooLarge, output, carrier)
  else
    match (carrier.packetFields datagram flags cookie).encodePacketInto output carrier.pseudoHeaderPrefix with
    | (.err error, output) => (.err error, output, carrier)
    | (.panicked, output) => (.panicked, output, carrier)
    | (.ok packetLength, output) =>
      -- The packet already stands in the output when it turns out to be too large for the path.
      if packetLength > carrier.outerMtu.toNat then (.err .packetTooLarge, output, carrier)
      else
        (.ok packetLength, output,
          { carrier with sendSequence := carrier.sendSequence + consumed datagram.length flags })

/-- The size of the buffer that `encode` makes. -/
def capacity (carrier : FakeTcpCarrier) (optionLength datagramLength : ℕ) : Option ℕ := do
  let ipHeaderLength := if carrier.tuple.source.isIpv4 then ipv4HeaderBytes else ipv6HeaderBytes
  let length ← checkedAdd ipHeaderLength tcpHeaderBytes
  let length ← checkedAdd length optionLength
  checkedAdd length datagramLength

def encode (carrier : FakeTcpCarrier) (datagram : List UInt8) (flags : TcpFlags) (cookie : Option (List UInt8)) :
    Outcome CarrierError (List UInt8) × FakeTcpCarrier :=
  let options := carrier.options flags cookie
  let optionBytes := List.replicate maxTcpOptionsBytes 0
  match if options.isEmpty then .ok (optionBytes, 0) else options.encodeInto optionBytes with
  | .error error => (.err error, carrier)
  | .ok (_, optionLength) =>
    match carrier.capacity optionLength datagram.length with
    | none => (.err .packetTooLarge, carrier)
    | some capacity =>
      if capacity > maxPacketBytes then (.err .packetTooLarge, carrier)
      else
        match carrier.encodeInto datagram flags cookie (List.replicate capacity 0) with
        | (.err error, _, carrier) => (.err error, carrier)
        | (.panicked, _, carrier) => (.panicked, carrier)
        | (.ok length, packet, carrier) => (.ok (packet.take length), carrier)

def encodeDatagram (carrier : FakeTcpCarrier) (datagram : List UInt8) :
    Outcome CarrierError (List UInt8) × FakeTcpCarrier :=
  carrier.encode datagram (TcpFlags.ack.bitor .psh) none

def encodeDatagramInto (carrier : FakeTcpCarrier) (datagram output : List UInt8) :
    Outcome CarrierError ℕ × List UInt8 × FakeTcpCarrier :=
  carrier.encodeInto datagram (TcpFlags.ack.bitor .psh) none output

/-- The first packet of a carrier, with the flags of its side. -/
def encodeFirst (carrier : FakeTcpCarrier) (flags : TcpFlags) (datagram : List UInt8) :
    Outcome CarrierError (List UInt8) × FakeTcpCarrier :=
  if carrier.sentSyn then (.err .invalidState, carrier)
  else
    match carrier.synData with
    | .disabled => (.err .synDataDisabled, carrier)
    | .cookie cookie =>
      match carrier.encode datagram flags (some cookie.toList) with
      | (.err error, carrier) => (.err error, carrier)
      | (.panicked, carrier) => (.panicked, carrier)
      | (.ok packet, carrier) => (.ok packet, { carrier with sentSyn := true })

/-- The first packet of a carrier in a buffer of the caller, with the flags of its side. -/
def encodeFirstInto (carrier : FakeTcpCarrier) (flags : TcpFlags) (datagram output : List UInt8) :
    Outcome CarrierError ℕ × List UInt8 × FakeTcpCarrier :=
  if carrier.sentSyn then (.err .invalidState, output, carrier)
  else
    match carrier.synData with
    | .disabled => (.err .synDataDisabled, output, carrier)
    | .cookie cookie =>
      match carrier.encodeInto datagram flags (some cookie.toList) output with
      | (.err error, output, carrier) => (.err error, output, carrier)
      | (.panicked, output, carrier) => (.panicked, output, carrier)
      | (.ok length, output, carrier) => (.ok length, output, { carrier with sentSyn := true })

def encodeSyn (carrier : FakeTcpCarrier) : List UInt8 → Outcome CarrierError (List UInt8) × FakeTcpCarrier :=
  carrier.encodeFirst .syn

def encodeSynInto (carrier : FakeTcpCarrier) :
    List UInt8 → List UInt8 → Outcome CarrierError ℕ × List UInt8 × FakeTcpCarrier :=
  carrier.encodeFirstInto .syn

def encodeSynAck (carrier : FakeTcpCarrier) : List UInt8 → Outcome CarrierError (List UInt8) × FakeTcpCarrier :=
  carrier.encodeFirst (TcpFlags.syn.bitor .ack)

def encodeSynAckInto (carrier : FakeTcpCarrier) :
    List UInt8 → List UInt8 → Outcome CarrierError ℕ × List UInt8 × FakeTcpCarrier :=
  carrier.encodeFirstInto (TcpFlags.syn.bitor .ack)

/-- `encode_next_datagram_into`: the first packet of a carrier is a SYN of its side. -/
def encodeNextDatagramInto (carrier : FakeTcpCarrier) (direction : CarrierDirection) (datagram output : List UInt8) :
    Outcome CarrierError ℕ × List UInt8 × FakeTcpCarrier :=
  if carrier.sentSyn then carrier.encodeDatagramInto datagram output
  else
    match direction with
    | .clientToServer => carrier.encodeSynInto datagram output
    | .serverToClient => carrier.encodeSynAckInto datagram output

/-- The check of the cookie of a packet with the SYN flag. -/
def checkSyn (carrier : FakeTcpCarrier) (packet : PacketView) : Except CarrierError Unit :=
  if packet.flags.isSyn then
    match carrier.synData with
    | .disabled => .error .synDataDisabled
    | .cookie expected =>
      if packet.fastOpenCookie ≠ some expected.toList then .error .synCookieRejected else .ok ()
  else .ok ()

/-- The acknowledgment moves forward only, in the order of sequence numbers; zero stands for none. -/
def acknowledge (carrier : FakeTcpCarrier) (acknowledgment : UInt32) : FakeTcpCarrier :=
  if carrier.acknowledgment = 0 ∨ acknowledgment - carrier.acknowledgment < 0x80000000 then
    { carrier with acknowledgment := acknowledgment }
  else carrier

def decodeDatagramBorrowed (carrier : FakeTcpCarrier) (packet : List UInt8) :
    Outcome CarrierError DecodedDatagram × FakeTcpCarrier :=
  if packet.length > carrier.outerMtu.toNat then (.err .packetTooLarge, carrier)
  else
    match decodePacketView packet (some carrier.pseudoHeaderPrefix) with
    | .err error => (.err error, carrier)
    | .panicked => (.panicked, carrier)
    | .ok packet =>
      let expected := carrier.tuple.reverse
      if packet.source ≠ expected.source ∨ packet.destination ≠ expected.destination then (.err .wrongTuple, carrier)
      else if packet.flags.isRst then (.err .invalidTcpHeader, carrier)
      else if packet.payload.isEmpty then (.err .emptyPayload, carrier)
      else
        match carrier.checkSyn packet with
        | .error error => (.err error, carrier)
        | .ok () =>
          (.ok ⟨packet.sequence, packet.flags.isSyn, packet.payload⟩,
            carrier.acknowledge (packet.sequence + consumed packet.payload.length packet.flags))

/-- `decode_datagram`, which copies the payload. -/
def decodeDatagram (carrier : FakeTcpCarrier) (packet : List UInt8) :
    Outcome CarrierError DecodedDatagram × FakeTcpCarrier :=
  carrier.decodeDatagramBorrowed packet

theorem pseudoHeaderPrefix_eq (carrier : FakeTcpCarrier) :
    carrier.pseudoHeaderPrefix = pathSum carrier.tuple.source carrier.tuple.destination :=
  validatedPseudoHeaderPrefix_eq carrier.validated

theorem addressed (carrier : FakeTcpCarrier) (datagram : List UInt8) (flags : TcpFlags)
    (cookie : Option (List UInt8)) : (carrier.packetFields datagram flags cookie).Addressed := by
  have hvalidated := carrier.validated
  unfold validatedPseudoHeaderPrefix FourTuple.validate at hvalidated
  split_ifs at hvalidated with hinvalid
  push Not at hinvalid
  exact ⟨hinvalid.1, hinvalid.2.2.2⟩

structure Fits (carrier : FakeTcpCarrier) (datagram : List UInt8) (flags : TcpFlags) (cookie : Option (List UInt8)) :
    Prop where
  datagramFits : datagram.length ≤ maxDatagramBytes
  cookieFits : (carrier.options flags cookie).CookieFits
  packetFits : (carrier.packetFields datagram flags cookie).packetLength ≤ carrier.outerMtu.toNat

def sent (carrier : FakeTcpCarrier) (datagram : List UInt8) (flags : TcpFlags) : FakeTcpCarrier :=
  { carrier with sendSequence := carrier.sendSequence + consumed datagram.length flags }

variable {carrier : FakeTcpCarrier} {datagram : List UInt8} {flags : TcpFlags} {cookie : Option (List UInt8)}

theorem Fits.sendable (h : carrier.Fits datagram flags cookie) : (carrier.packetFields datagram flags cookie).Sendable where
  addressed := carrier.addressed datagram flags cookie
  cookie := h.cookieFits
  length := h.packetFits.trans (Nat.le_of_lt_succ carrier.outerMtu.toNat_lt)

theorem encodeInto_cases (carrier : FakeTcpCarrier) (datagram : List UInt8) (flags : TcpFlags)
    (cookie : Option (List UInt8)) (output : List UInt8) :
    let fields := carrier.packetFields datagram flags cookie
    (carrier.Fits datagram flags cookie ∧ fields.packetLength ≤ output.length ∧
      carrier.encodeInto datagram flags cookie output =
        (.ok fields.packetLength, fields.packet ++ output.drop fields.packetLength, carrier.sent datagram flags)) ∨
      ¬(carrier.Fits datagram flags cookie ∧ fields.packetLength ≤ output.length) ∧
        ∃ error output', carrier.encodeInto datagram flags cookie output = (.err error, output', carrier) := by
  intro fields
  unfold encodeInto
  by_cases hlarge : datagram.length > maxDatagramBytes
  · exact Or.inr ⟨fun h => absurd h.1.datagramFits (not_le.mpr hlarge), .datagramTooLarge, output, if_pos hlarge⟩
  have hcases := fields.encodePacketInto_cases output
  rw [show pathSum fields.source fields.destination = carrier.pseudoHeaderPrefix from
    carrier.pseudoHeaderPrefix_eq.symm] at hcases
  rw [if_neg hlarge]
  obtain ⟨hsendable, hroom, hencoded⟩ | ⟨hrefused, error, hencoded⟩ := hcases
  · rw [hencoded]
    by_cases hmtu : fields.packetLength > carrier.outerMtu.toNat
    · exact Or.inr ⟨fun h => absurd h.1.packetFits (not_le.mpr hmtu), .packetTooLarge, _, if_pos hmtu⟩
    · exact Or.inl ⟨⟨not_lt.mp hlarge, hsendable.cookie, not_lt.mp hmtu⟩, hroom, if_neg hmtu⟩
  · rw [hencoded]
    exact Or.inr ⟨fun h => hrefused ⟨h.1.sendable, h.2⟩, error, output, rfl⟩

theorem capacity_cases (carrier : FakeTcpCarrier) (datagram : List UInt8) (flags : TcpFlags)
    (cookie : Option (List UInt8)) :
    let fields := carrier.packetFields datagram flags cookie
    let result := carrier.capacity (carrier.options flags cookie).encoded.length datagram.length
    result = some fields.packetLength ∨ ¬fields.packetLength ≤ maxPacketBytes ∧ result = none := by
  intro fields result
  have hlength : fields.packetLength = fields.ipHeaderLength + tcpHeaderBytes +
      (carrier.options flags cookie).encoded.length + datagram.length := by
    rw [PacketFields.packetLength, PacketFields.tcpLength, PacketFields.headerLength, ← Nat.add_assoc, ← Nat.add_assoc]
    rfl
  rw [hlength]
  have hresult : result = (checkedAdd fields.ipHeaderLength tcpHeaderBytes).bind fun length =>
      (checkedAdd length (carrier.options flags cookie).encoded.length).bind fun length =>
        checkedAdd length datagram.length := rfl
  by_cases hfits : fields.ipHeaderLength + tcpHeaderBytes + (carrier.options flags cookie).encoded.length +
      datagram.length ≤ maxPacketBytes
  · have hoptions := (Nat.le_add_right _ _).trans hfits
    left
    rw [hresult, PacketFields.checkedAdd_of_packet ((Nat.le_add_right _ _).trans hoptions), Option.bind_some,
      PacketFields.checkedAdd_of_packet hoptions, Option.bind_some, PacketFields.checkedAdd_of_packet hfits]
  · cases hcapacity : result with
    | none => exact Or.inr ⟨hfits, rfl⟩
    | some capacity =>
      obtain ⟨header, hheader, hrest⟩ := Option.bind_eq_some_iff.mp (hresult.symm.trans hcapacity)
      obtain ⟨length, hlength, hdatagram⟩ := Option.bind_eq_some_iff.mp hrest
      left
      rw [checkedAdd_eq_some hdatagram, checkedAdd_eq_some hlength, checkedAdd_eq_some hheader]

theorem encode_cases (carrier : FakeTcpCarrier) (datagram : List UInt8) (flags : TcpFlags)
    (cookie : Option (List UInt8)) :
    (carrier.Fits datagram flags cookie ∧ carrier.encode datagram flags cookie =
      (.ok (carrier.packetFields datagram flags cookie).packet, carrier.sent datagram flags)) ∨
      ¬carrier.Fits datagram flags cookie ∧
        ∃ error, carrier.encode datagram flags cookie = (.err error, carrier) := by
  unfold encode
  obtain ⟨hcookie, hoptions⟩ | ⟨_, ⟨optionBytes, optionLength⟩, hoptions, hwritten⟩ :=
    PacketFields.options_cases (carrier.options flags cookie)
  · refine Or.inr ⟨fun h => hcookie h.cookieFits, .invalidTcpOption, ?_⟩
    simp only [hoptions]
  obtain rfl : optionLength = (carrier.options flags cookie).encoded.length := hwritten.length
  simp only [hoptions]
  obtain hcapacity | ⟨hlarge, hcapacity⟩ := carrier.capacity_cases datagram flags cookie
  · rw [hcapacity]
    dsimp only
    by_cases hlarge : (carrier.packetFields datagram flags cookie).packetLength > maxPacketBytes
    · exact Or.inr ⟨fun h => absurd h.sendable.length (not_le.mpr hlarge), .packetTooLarge, if_pos hlarge⟩
    rw [if_neg hlarge]
    obtain ⟨hfits, _, hencoded⟩ | ⟨hrefused, error, output, hencoded⟩ := carrier.encodeInto_cases datagram flags cookie
      (List.replicate (carrier.packetFields datagram flags cookie).packetLength 0)
    · rw [hencoded]
      dsimp only
      rw [List.take_left' (PacketFields.length_packet hfits.sendable.addressed)]
      exact Or.inl ⟨hfits, rfl⟩
    · rw [hencoded]
      exact Or.inr ⟨fun h => hrefused ⟨h, List.length_replicate.ge⟩, error, rfl⟩
  · rw [hcapacity]
    exact Or.inr ⟨fun h => hlarge h.sendable.length, .packetTooLarge, rfl⟩

end FakeTcpCarrier

end Quicp
