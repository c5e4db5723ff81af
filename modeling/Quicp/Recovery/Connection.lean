import Quicp.Wire.Control

/-!
# The sending side of a connection's recovery

All flows of a connection share one bounded datagram queue, which a driver empties. The driver, or a failed
negotiation, may switch datagrams off for the whole connection at any time.
-/

namespace Quicp

inductive SendDatagramError
  | unsupportedByPeer
  | disabled
  | tooLarge
  | connectionLost
  deriving DecidableEq, Repr

inductive OutboundDatagram
  | source (symbolId : UInt32) (bytes : List UInt8)
  | repair (bytes : List UInt8)
  deriving DecidableEq, Repr

/-- The part of `ConnectionRecovery` that a flow task uses; `maxSymbol` and `maxAckRanges` are the
negotiated capabilities. -/
structure Connection where
  datagramEnabled : Bool
  pending : List OutboundDatagram
  capacity : ℕ
  nextSymbol : UInt32
  requireAdaptive : Bool
  runtimeStopped : Bool
  maxSymbolBytes : ℕ
  maxSymbol : ℕ
  maxAckRanges : ℕ
  deriving DecidableEq, Repr

namespace Connection

/-- `max_source_payload`, for the backend's current `max_datagram_size`. -/
def maxSourcePayload (connection : Connection) (maxDatagramSize : Option ℕ) : ℕ :=
  (match maxDatagramSize with
    | none => min connection.maxSymbolBytes connection.maxSymbol
    | some maximum =>
      min (min connection.maxSymbolBytes connection.maxSymbol) (maximum - repairDatagramHeaderBytes)) -
    singleSourceMaxOverhead

def maxStreamPayload (connection : Connection) : ℕ :=
  max (min connection.maxSymbolBytes connection.maxSymbol - repairDatagramHeaderBytes -
    singleSourceMaxOverhead) 1

/-- `send_source`: whether the record was queued; encoding a record that is not valid panics. -/
def sendSource (connection : Connection) (record : SourceRecord) :
    Outcome SendDatagramError Bool × Connection :=
  if !connection.datagramEnabled then (.err .disabled, connection)
  else if connection.pending.length = connection.capacity then (.ok false, connection)
  else
    match encodeSource connection.nextSymbol [record] with
    | .error _ => (.panicked, { connection with nextSymbol := connection.nextSymbol + 1 })
    | .ok bytes => (.ok true, { connection with
        nextSymbol := connection.nextSymbol + 1
        pending := connection.pending ++ [.source connection.nextSymbol bytes] })

def disableDatagrams (connection : Connection) : Connection :=
  { connection with datagramEnabled := false, pending := [] }

/-- `take_datagram`: the driver takes the oldest datagram. -/
def takeDatagram (connection : Connection) : Connection :=
  { connection with pending := connection.pending.tail }

theorem maxStreamPayload_pos (connection : Connection) : 0 < connection.maxStreamPayload :=
  lt_max_of_lt_right one_pos

theorem sendSource_of_room {connection : Connection} {record : SourceRecord}
    (henabled : connection.datagramEnabled = true) (hroom : connection.pending.length < connection.capacity)
    (hdata : record.data ≠ []) (hrange : record.offset + record.data.length ≤ maxWireOffset) :
    (connection.sendSource record).1 = .ok true := by
  have hrecords : encodeSourceRecords [record] = .ok (([record].map SourceRecord.encoded).flatten) :=
    encodeSourceRecords_eq_ok.mpr ⟨rfl, by simpa using ⟨hdata, hrange⟩⟩
  unfold sendSource encodeSource
  simp [henabled, hroom.ne, hrecords]

end Connection

end Quicp
