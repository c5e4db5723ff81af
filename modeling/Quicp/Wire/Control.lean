import Quicp.Wire.Source

/-!
# Control frames

The frames of a flow's reliable stream: a type byte, the length of the payload and the payload.
-/

namespace Quicp

structure Capabilities where
  flags : UInt8
  maxSymbol : UInt16
  maxSpan : UInt16
  decoderWindow : UInt16
  maxAckRanges : UInt8
  deriving DecidableEq, Repr

/-- `OpenRequest`: the bytes of a canonical host name and a port. -/
structure OpenRequest where
  host : List UInt8
  port : UInt16
  deriving DecidableEq, Repr

inductive OpenStatus
  | ok
  | generalFailure
  | policyDenied
  | resolutionFailure
  | connectionRefused
  | connectionTimeout
  | capacityExhausted
  deriving DecidableEq, Repr

def OpenStatus.encode : OpenStatus → UInt8
  | .ok => 0x00
  | .generalFailure => 0x01
  | .policyDenied => 0x02
  | .resolutionFailure => 0x03
  | .connectionRefused => 0x04
  | .connectionTimeout => 0x05
  | .capacityExhausted => 0x06

def OpenRequest.encode (request : OpenRequest) : List UInt8 :=
  UInt8.ofNat request.host.length :: (request.host ++ BigEndian.encode 2 request.port.toNat)

inductive ControlFrame
  | capabilities (own : Capabilities)
  | openRequest (request : OpenRequest)
  | status (result : OpenStatus)
  | ack (contiguous : ℕ) (ranges : List Range)
  | maxOffset (maximum : ℕ)
  | fin (offset : ℕ)
  | streamData (offset : ℕ) (last : Bool) (data : List UInt8)
  | earlyOpen (token : List UInt8) (nonce : UInt64) (request : OpenRequest) (initial : List UInt8)
  deriving DecidableEq, Repr

def ControlFrame.kind : ControlFrame → UInt8
  | .capabilities _ => 0x01
  | .openRequest _ => 0x02
  | .status _ => 0x03
  | .ack _ _ => 0x04
  | .maxOffset _ => 0x05
  | .fin _ => 0x06
  | .streamData _ _ _ => 0x08
  | .earlyOpen _ _ _ _ => 0x09

/-- The payload that `encode_control` writes; range counts and token lengths fit a byte. -/
def ControlFrame.payload : ControlFrame → List UInt8
  | .capabilities own =>
    encodeVarint own.flags.toNat ++ (BigEndian.encode 2 own.maxSymbol.toNat ++
      (BigEndian.encode 2 own.maxSpan.toNat ++ (BigEndian.encode 2 own.decoderWindow.toNat ++ [own.maxAckRanges])))
  | .openRequest request => request.encode
  | .status result => [result.encode]
  | .ack contiguous ranges =>
    encodeVarint contiguous ++ (UInt8.ofNat ranges.length ::
      (ranges.map (fun range => encodeVarint range.start ++ encodeVarint range.stop)).flatten)
  | .maxOffset maximum => encodeVarint maximum
  | .fin offset => encodeVarint offset
  | .streamData offset last data => encodeVarint offset ++ (boolByte last :: data)
  | .earlyOpen token nonce request initial =>
    UInt8.ofNat token.length :: (token ++ (BigEndian.encode 8 nonce.toNat ++ (request.encode ++ initial)))

def encodeControl (frame : ControlFrame) : List UInt8 :=
  frame.kind :: (encodeVarint frame.payload.length ++ frame.payload)

end Quicp
