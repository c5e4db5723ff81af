import Quicp.FakeTcp.Options

/-!
# Packets of the carrier

A packet is written into a buffer of the caller, field by field: first the segment, whose checksum is taken while its
place is zero, then the IP header in front of it.
-/

namespace Quicp

open Buffer (writeAt writeAll)

def ipv4HeaderBytes : ℕ := 20

def ipv6HeaderBytes : ℕ := 40

def tcpHeaderBytes : ℕ := 20

structure TcpFlags where
  bits : UInt8
  deriving DecidableEq, Repr

namespace TcpFlags

def syn : TcpFlags := ⟨0x02⟩

def rst : TcpFlags := ⟨0x04⟩

def psh : TcpFlags := ⟨0x08⟩

def ack : TcpFlags := ⟨0x10⟩

def bitor (flags other : TcpFlags) : TcpFlags := ⟨flags.bits ||| other.bits⟩

def contains (flags other : TcpFlags) : Bool := flags.bits &&& other.bits == other.bits

def isSyn (flags : TcpFlags) : Bool := flags.contains syn

def isRst (flags : TcpFlags) : Bool := flags.contains rst

end TcpFlags

structure PacketView where
  source : SocketAddr
  destination : SocketAddr
  sequence : UInt32
  flags : TcpFlags
  fastOpenCookie : Option (List UInt8)
  payload : List UInt8
  deriving DecidableEq

/-- `u32::from_be_bytes` of four bytes. -/
def readU32 (bytes : List UInt8) (offset : ℕ) : ℕ := BigEndian.decodeFrom 0 ((bytes.drop offset).take 4)

/-- `decode_tcp_view`; an overflow of the checksum code would panic. -/
def decodeTcpView (source destination : SocketAddr) (input : List UInt8) (pseudo : Option ℕ) :
    Outcome CarrierError PacketView :=
  match pseudo.elim (tcpChecksum source destination input) (tcpChecksumWithPrefix source · input) with
  | none => .panicked
  | some checksum =>
    if input.length < tcpHeaderBytes ∨ checksum ≠ 0 then .err .invalidTcpHeader
    else
      let headerLength := (input.getD 12 0 >>> 4).toNat * 4
      if headerLength < tcpHeaderBytes ∨ headerLength > input.length then .err .invalidTcpHeader
      else
        match fastOpenCookie ((input.take headerLength).drop tcpHeaderBytes) with
        | .error error => .err error
        | .ok cookie => .ok {
            source := .new source.ip (UInt16.ofNat (readU16 input 0))
            destination := .new destination.ip (UInt16.ofNat (readU16 input 2))
            sequence := UInt32.ofNat (readU32 input 4)
            flags := ⟨input.getD 13 0⟩
            fastOpenCookie := cookie
            payload := input.drop headerLength }

/-- The branch of `decode_packet_view` for the fourth version; every index is below the length that was checked. -/
def decodeIpv4View (input : List UInt8) (pseudo : Option ℕ) : Outcome CarrierError PacketView :=
  let ihl := (input.getD 0 0 &&& 0x0f).toNat * 4
  if ihl < ipv4HeaderBytes ∨ input.length < ihl then .err .invalidIpHeader
  else if readU16 input 2 ≠ input.length ∨ readU16 input 2 < ihl + tcpHeaderBytes then .err .invalidIpHeader
  else if UInt16.ofNat (readU16 input 6) &&& 0x3fff ≠ 0 ∨ (input.getD 9 0).toNat ≠ tcpProtocol then
    .err .invalidIpHeader
  else
    match internetChecksum (input.take ihl) with
    | none => .panicked
    | some checksum =>
      if checksum ≠ 0 then .err .invalidIpHeader
      else
        decodeTcpView (.v4 ⟨[input.getD 12 0, input.getD 13 0, input.getD 14 0, input.getD 15 0], rfl⟩ 0)
          (.v4 ⟨[input.getD 16 0, input.getD 17 0, input.getD 18 0, input.getD 19 0], rfl⟩ 0) (input.drop ihl) pseudo

/-- The branch of `decode_packet_view` for the sixth version. -/
def decodeIpv6View (input : List UInt8) (pseudo : Option ℕ) : Outcome CarrierError PacketView :=
  if input.length < ipv6HeaderBytes then .err .invalidIpHeader
  else if readU16 input 4 + ipv6HeaderBytes ≠ input.length ∨ (input.getD 6 0).toNat ≠ tcpProtocol then
    .err .invalidIpHeader
  else if hsource : ((input.drop 8).take 16).length = 16 then
    if hdestination : ((input.drop 24).take 16).length = 16 then
      decodeTcpView (.v6 ⟨(input.drop 8).take 16, hsource⟩ 0 0 0) (.v6 ⟨(input.drop 24).take 16, hdestination⟩ 0 0 0)
        (input.drop ipv6HeaderBytes) pseudo
    else .err .invalidIpHeader
  else .err .invalidIpHeader

def decodePacketView (input : List UInt8) (pseudo : Option ℕ) : Outcome CarrierError PacketView :=
  if input.length < ipv4HeaderBytes then .err .packetTooShort
  else if input.length > maxPacketBytes then .err .packetTooLarge
  else if input.getD 0 0 >>> 4 = 4 then decodeIpv4View input pseudo
  else if input.getD 0 0 >>> 4 = 6 then decodeIpv6View input pseudo
  else .err .unsupportedIpVersion

/-- What `encode_packet_into` writes into a packet. -/
structure PacketFields where
  source : SocketAddr
  destination : SocketAddr
  sequence : UInt32
  acknowledgment : UInt32
  flags : TcpFlags
  window : UInt16
  options : TcpOptions
  payload : List UInt8
  deriving DecidableEq

namespace PacketFields

def ipHeaderLength (fields : PacketFields) : ℕ := if fields.source.isIpv4 then ipv4HeaderBytes else ipv6HeaderBytes

/-- The fields of the header of a segment, in the order in which they are written, and where. -/
def tcpWrites (fields : PacketFields) (headerLength : ℕ) : List (ℕ × List UInt8) :=
  [(0, BigEndian.encode 2 fields.source.port.toNat), (2, BigEndian.encode 2 fields.destination.port.toNat),
    (4, BigEndian.encode 4 fields.sequence.toNat), (8, BigEndian.encode 4 fields.acknowledgment.toNat),
    (12, [UInt8.ofNat (headerLength / 4) <<< 4]), (13, [fields.flags.bits]),
    (14, BigEndian.encode 2 fields.window.toNat)]

/-- The block of `encode_packet_into` that writes the segment. -/
def writeTcp (fields : PacketFields) (headerLength : ℕ) (optionBytes : List UInt8) (pseudo : ℕ) (tcp : List UInt8) :
    Outcome CarrierError Unit × List UInt8 :=
  let tcp := writeAt tcp 16 [0, 0, 0, 0]
  if headerLength / 4 > 255 then (.err .tcpOptionsTooLong, tcp)
  else
    let tcp := writeAll tcp (fields.tcpWrites headerLength)
    let tcp := if optionBytes.length ≠ 0 then writeAt tcp tcpHeaderBytes optionBytes else tcp
    let tcp := writeAt tcp headerLength fields.payload
    match tcpChecksumWithPrefix fields.source pseudo tcp with
    | none => (.panicked, tcp)
    | some checksum => (.ok (), writeAt tcp 16 (BigEndian.encode 2 checksum))

/-- The block of `encode_packet_into` that writes the header of the fourth version. -/
def writeIpv4 (source destination : Octets 4) (packetLength : ℕ) (output : List UInt8) :
    Outcome CarrierError ℕ × List UInt8 :=
  if packetLength > 65535 then (.err .packetTooLarge, output)
  else
    let header := writeAll (output.take ipv4HeaderBytes) [(0, [0x45]), (1, [0]), (2, BigEndian.encode 2 packetLength),
      (4, [0, 0]), (6, [0x40]), (7, [0]), (8, [64]), (9, [UInt8.ofNat tcpProtocol]), (10, [0, 0]),
      (12, source.toList), (16, destination.toList)]
    match ipv4HeaderChecksum source destination packetLength with
    | none => (.panicked, writeAt output 0 header)
    | some checksum => (.ok packetLength, writeAt output 0 (writeAt header 10 (BigEndian.encode 2 checksum)))

/-- The block of `encode_packet_into` that writes the header of the sixth version. -/
def writeIpv6 (source destination : Octets 16) (tcpLength packetLength : ℕ) (output : List UInt8) :
    Outcome CarrierError ℕ × List UInt8 :=
  if tcpLength > 65535 then (.err .packetTooLarge, output)
  else
    let header := writeAll (output.take ipv6HeaderBytes) [(0, [0x60]), (1, [0, 0, 0]),
      (4, BigEndian.encode 2 tcpLength), (6, [UInt8.ofNat tcpProtocol]), (7, [64]), (8, source.toList),
      (24, destination.toList)]
    (.ok packetLength, writeAt output 0 header)

/-- The end of `encode_packet_into`, when the lengths are known: what is written into the output. -/
def writePacket (fields : PacketFields) (optionBytes : List UInt8) (headerLength tcpLength packetLength pseudo : ℕ)
    (output : List UInt8) : Outcome CarrierError ℕ × List UInt8 :=
  let written := fields.writeTcp headerLength optionBytes pseudo
    ((output.take packetLength).drop fields.ipHeaderLength)
  let output := writeAt output fields.ipHeaderLength written.2
  match written.1 with
  | .err error => (.err error, output)
  | .panicked => (.panicked, output)
  | .ok () =>
    match fields.source.ip, fields.destination.ip with
    | .v4 source, .v4 destination => writeIpv4 source destination packetLength output
    | .v6 source, .v6 destination => writeIpv6 source destination tcpLength packetLength output
    | _, _ => (.err .invalidTuple, output)

/-- `encode_packet_into`: how long the packet is, and the output with it. -/
def encodePacketInto (fields : PacketFields) (output : List UInt8) (pseudo : ℕ) :
    Outcome CarrierError ℕ × List UInt8 :=
  if fields.source.isIpv4 ≠ fields.destination.isIpv4 ∨ fields.source.port = 0 ∨ fields.destination.port = 0 then
    (.err .invalidTuple, output)
  else
    let optionBuffer := List.replicate maxTcpOptionsBytes 0
    match if fields.options.isEmpty then .ok (optionBuffer, 0) else fields.options.encodeInto optionBuffer with
    | .error error => (.err error, output)
    | .ok (optionBytes, optionLength) =>
      match checkedAdd tcpHeaderBytes optionLength with
      | none => (.err .tcpOptionsTooLong, output)
      | some headerLength =>
        match checkedAdd headerLength fields.payload.length with
        | none => (.err .packetTooLarge, output)
        | some tcpLength =>
          if tcpLength > maxPacketBytes then (.err .packetTooLarge, output)
          else
            match checkedAdd fields.ipHeaderLength tcpLength with
            | none => (.err .packetTooLarge, output)
            | some packetLength =>
              if packetLength > maxPacketBytes then (.err .packetTooLarge, output)
              else if output.length < packetLength then
                (.err (.outputTooSmall packetLength output.length), output)
              else
                fields.writePacket (optionBytes.take optionLength) headerLength tcpLength packetLength pseudo output

end PacketFields

end Quicp
