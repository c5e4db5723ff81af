import Quicp.Recovery.AckRanges
import Quicp.Recovery.Config
import Quicp.Recovery.Connection
import Quicp.Recovery.Reassembler

/-!
# The state shared by a flow handle and its task

`FlowShared` is what the application handle, the connection's datagram dispatcher and the flow's control task change
under one lock. Each function here is one locked section of the source.
-/

namespace Quicp

/-- `io::ErrorKind`, as far as a flow reports it. -/
inductive IoErrorKind
  | connectionAborted
  | connectionReset
  | brokenPipe
  | invalidData
  deriving DecidableEq, Repr

inductive ApplicationError
  | flowProtocol
  | flowAbort
  | flowRejected
  | multipathRequired
  | multipathChurn
  deriving DecidableEq, Repr

def ApplicationError.code : ApplicationError → ℕ
  | .flowProtocol => 0x100
  | .flowAbort => 0x101
  | .flowRejected => 0x102
  | .multipathRequired => 0x103
  | .multipathChurn => 0x104

/-- `FlowTaskError`; what the backend reports about its streams is not inspected. -/
inductive FlowTaskError
  | codec (error : CodecError)
  | finishedEarly
  | controlLimit
  | unexpectedControl
  | peerReset (error : ApplicationError)
  | read
  | write
  | finish
  | writeZero
  | datagram (error : SendDatagramError)
  | connection
  | recovery (error : RecoveryError)
  deriving DecidableEq, Repr

/-- `is_protocol_violation`: the peer is reset for these errors. -/
def FlowTaskError.isProtocolViolation : FlowTaskError → Bool
  | .codec _ | .finishedEarly | .controlLimit | .unexpectedControl => true
  | .recovery .offsetOverflow | .recovery .invalidRange | .recovery .rangeCapacity
  | .recovery .flowControl | .recovery .contradictoryOverlap | .recovery .finalOffset => true
  | _ => false

inductive IoMessage
  | flowReset
  | flowShutDown
  | flowOffsetOverflow
  | hostRuntimeStopped
  | task (error : FlowTaskError)
  deriving DecidableEq, Repr

/-- `Outbound`: a chunk of written bytes at its logical offset. -/
structure Outbound where
  offset : ℕ
  bytes : List UInt8
  deriving DecidableEq, Repr

structure FlowShared where
  outbound : List Outbound
  retainedBytes : ℕ
  retainedChunks : ℕ
  replayLimit : ℕ
  replayChunkLimit : ℕ
  nextSendOffset : ℕ
  receive : Reassembler
  receiveFinalOffset : Option ℕ
  receiveWindow : ℕ
  maxReceiveOffset : ℕ
  creditDirty : Bool
  received : AckRanges
  ackPending : ℕ
  flushTarget : Option ℕ
  flushedOffset : ℕ
  peerMaxOffset : ℕ
  shutdownTarget : Option ℕ
  shutdownDone : Bool
  reset : Option ℕ
  locallyReset : Bool
  handleDropped : Bool
  taskStopped : Bool
  error : Option (IoErrorKind × IoMessage)

/-- The part of `RecoveryConfig` that a flow reads, with its negotiated acknowledgement ranges,
within the limits that validation and negotiation enforce. -/
structure FlowConfig where
  replayBufferBytes : ℕ
  reassemblyBufferBytes : ℕ
  maxAckRanges : ℕ
  replayValid : 1 ≤ replayBufferBytes ∧ replayBufferBytes ≤ maxFlowBufferBytes
  reassemblyValid : 1 ≤ reassemblyBufferBytes ∧ reassemblyBufferBytes ≤ maxFlowBufferBytes
  rangesValid : 1 ≤ maxAckRanges ∧ maxAckRanges ≤ 32

def FlowConfig.sample : FlowConfig := ⟨512, 512, 2, by decide, by decide, by decide⟩

def FlowShared.new (config : FlowConfig) (memoryBudget : ℕ) (initialSendOffset : ℕ) : FlowShared where
  outbound := []
  retainedBytes := 0
  retainedChunks := 0
  replayLimit := config.replayBufferBytes
  replayChunkLimit := Quicp.replayChunkLimit config.replayBufferBytes
  nextSendOffset := initialSendOffset
  receive := .withBudget config.reassemblyBufferBytes memoryBudget
  receiveFinalOffset := none
  receiveWindow := config.reassemblyBufferBytes
  maxReceiveOffset := config.reassemblyBufferBytes
  creditDirty := true
  received := .new config.maxAckRanges
  ackPending := 0
  flushTarget := none
  flushedOffset := initialSendOffset
  peerMaxOffset := 0
  shutdownTarget := none
  shutdownDone := false
  reset := none
  locallyReset := false
  handleDropped := false
  taskStopped := false
  error := none

/-- `saturating_add(1)` on the `u32` count of unacknowledged records. -/
def nextAckPending (ackPending : ℕ) : ℕ := min (ackPending + 1) u32Max

/-- What inserting bytes returns: its outcome, the shared state and the budget. -/
abbrev InsertedBytes := Outcome RecoveryError Unit × FlowShared × RecoveryMemoryBudget

/-- Hand a record to the reassembler, with its charge if it came with one. -/
def Reassembler.insertWithCharge (r : Reassembler) (budget : RecoveryMemoryBudget) (offset : ℕ)
    (bytes : List UInt8) (fin : Bool) : Option RecoveryCharge → Inserted
  | some charge => r.insertRecordPrecharged budget offset bytes fin charge
  | none => r.insertRecord budget offset bytes fin

def dropIncoming (budget : RecoveryMemoryBudget) : Option RecoveryCharge → RecoveryMemoryBudget
  | some charge => charge.drop budget
  | none => budget

/-- The last part of `insert_bytes_with_reservation`, after the reassembler took the record. -/
def FlowShared.recordReceived (s : FlowShared) (budget : RecoveryMemoryBudget) (offset stop : ℕ)
    (fin : Bool) : InsertedBytes :=
  let s := { s with receiveFinalOffset := if fin then some stop else s.receiveFinalOffset }
  match s.received.insert ⟨offset, stop⟩ with
  | .error _ => (.panicked, s, budget)
  | .ok received => (.ok (), { s with received := received, ackPending := nextAckPending s.ackPending }, budget)

def FlowShared.insertBytesWithReservation (s : FlowShared) (budget : RecoveryMemoryBudget) (offset : ℕ)
    (bytes : List UInt8) (fin : Bool) (charge : Option RecoveryCharge) : InsertedBytes :=
  match checkedAdd offset bytes.length with
  | none => (.err .offsetOverflow, s, dropIncoming budget charge)
  | some stop =>
    if stop > s.maxReceiveOffset then (.err .flowControl, s, dropIncoming budget charge)
    else
      match s.received.validateInsert ⟨offset, stop⟩ with
      | .error error => (.err error, s, dropIncoming budget charge)
      | .ok () =>
        match s.receive.insertWithCharge budget offset bytes fin charge with
        | (.error error, receive, budget) => (.err error, { s with receive := receive }, budget)
        | (.ok (), receive, budget) => { s with receive := receive }.recordReceived budget offset stop fin

def FlowShared.insertBytes (s : FlowShared) (budget : RecoveryMemoryBudget) (offset : ℕ)
    (bytes : List UInt8) (fin : Bool) : InsertedBytes :=
  s.insertBytesWithReservation budget offset bytes fin none

def FlowShared.insertBytesPrecharged (s : FlowShared) (budget : RecoveryMemoryBudget) (offset : ℕ)
    (bytes : List UInt8) (fin : Bool) (charge : RecoveryCharge) : InsertedBytes :=
  s.insertBytesWithReservation budget offset bytes fin (some charge)

def FlowShared.setFinalOffset (s : FlowShared) (offset : ℕ) : Except RecoveryError FlowShared :=
  if offset > s.maxReceiveOffset then .error .flowControl
  else
    match s.receive.setFinalOffset offset with
    | .error error => .error error
    | .ok receive => .ok { s with
        receive := receive
        receiveFinalOffset := some offset
        ackPending := nextAckPending s.ackPending }

/-- The credit that a nonempty read opens: one window past the read position. -/
def FlowShared.extendCredit (s : FlowShared) : FlowShared :=
  let maximum := min (saturatingAdd s.receive.nextOffset s.receiveWindow) maxWireOffset
  if maximum > s.maxReceiveOffset then { s with maxReceiveOffset := maximum, creditDirty := true } else s

/-- What a read returns: an error, no bytes yet, or the bytes read (none of them at the end). -/
abbrev ReadResult := Except (IoErrorKind × IoMessage) (Option (List UInt8))

/-- The part of `FlowState::read` after the error check. -/
def FlowShared.readLive (s : FlowShared) (budget : RecoveryMemoryBudget) (length : ℕ) :
    ReadResult × FlowShared × RecoveryMemoryBudget :=
  let result := s.receive.read budget length
  let next := { s with receive := result.2.1 }
  if result.1 ≠ [] then (.ok (some result.1), next.extendCredit, result.2.2)
  else (.ok (if next.receive.isFinished then some [] else none), next, result.2.2)

def FlowShared.read (s : FlowShared) (budget : RecoveryMemoryBudget) (length : ℕ) :
    ReadResult × FlowShared × RecoveryMemoryBudget :=
  match s.error with
  | some error => (.error error, s, budget)
  | none => s.readLive budget length

def FlowShared.enqueueReady (s : FlowShared) (length : ℕ) : Except (IoErrorKind × IoMessage) Bool :=
  match s.error with
  | some error => .error error
  | none =>
    if s.shutdownTarget.isSome then .error (.brokenPipe, .flowShutDown)
    else if saturatingAdd s.retainedBytes length > s.replayLimit ∨
        s.retainedChunks ≥ s.replayChunkLimit then .ok false
    else .ok true

theorem FlowShared.enqueueReady_eq_true {s : FlowShared} {length : ℕ} (h : s.enqueueReady length = .ok true) :
    s.shutdownTarget = none ∧ saturatingAdd s.retainedBytes length ≤ s.replayLimit ∧
      s.retainedChunks < s.replayChunkLimit := by
  unfold enqueueReady at h
  cases herror : s.error with
  | some error => simp [herror] at h
  | none =>
    simp only [herror] at h
    split at h
    · cases h
    · rename_i hshutdown
      split at h
      · cases h
      · rename_i hroom
        rw [not_or, not_lt, ge_iff_le, not_le] at hroom
        exact ⟨by simpa using hshutdown, hroom.1, hroom.2⟩

/-- `enqueue`: the offset after the chunk, or nothing while there is no room. -/
def FlowShared.enqueue (s : FlowShared) (bytes : List UInt8) :
    Except (IoErrorKind × IoMessage) (Option ℕ) × FlowShared :=
  match s.enqueueReady bytes.length with
  | .error error => (.error error, s)
  | .ok false => (.ok none, s)
  | .ok true =>
    match checkedAdd s.nextSendOffset bytes.length with
    | none => (.error (.invalidData, .flowOffsetOverflow), s)
    | some next => (.ok (some next), { s with
        nextSendOffset := next
        retainedBytes := s.retainedBytes + bytes.length
        retainedChunks := s.retainedChunks + 1
        outbound := s.outbound ++ [⟨s.nextSendOffset, bytes⟩] })

def FlowShared.requestFlush (s : FlowShared) : Except (IoErrorKind × IoMessage) Bool × FlowShared :=
  match s.error with
  | some error => (.error error, s)
  | none =>
    let target := s.nextSendOffset
    (.ok (decide (s.flushedOffset ≥ target)),
      { s with flushTarget := some (max (s.flushTarget.getD 0) target) })

def FlowShared.requestShutdown (s : FlowShared) : Except (IoErrorKind × IoMessage) Bool × FlowShared :=
  match s.error with
  | some error => (.error error, s)
  | none => (.ok s.shutdownDone, { s with shutdownTarget := some (s.shutdownTarget.getD s.nextSendOffset) })

/-- `request_reset`; the two subtractions are checked and panic below zero. -/
def FlowShared.requestReset (s : FlowShared) (error : ApplicationError) : Outcome Empty Bool × FlowShared :=
  if s.locallyReset then (.ok true, s)
  else if s.taskStopped || s.error.isSome then (.ok false, s)
  else
    let discardedBytes := (s.outbound.map (fun item => item.bytes.length)).sum
    let s := { s with locallyReset := true, reset := some error.code }
    if s.retainedBytes < discardedBytes then (.panicked, s)
    else if s.retainedChunks < s.outbound.length then
      (.panicked, { s with retainedBytes := s.retainedBytes - discardedBytes })
    else (.ok true, { s with
      retainedBytes := s.retainedBytes - discardedBytes
      retainedChunks := s.retainedChunks - s.outbound.length
      outbound := []
      error := some (.connectionAborted, .flowReset) })

def FlowShared.rejectProtocol (s : FlowShared) : FlowShared := (s.requestReset .flowProtocol).2

/-- `fail_with_kind`: the first failure is kept. -/
def FlowShared.failWithKind (s : FlowShared) (kind : IoErrorKind) (message : IoMessage) : FlowShared :=
  { s with error := s.error.or (some (kind, message)) }

def FlowShared.dropHandle (s : FlowShared) : FlowShared := { s with handleDropped := true }

def FlowShared.discardRetained (s : FlowShared) : FlowShared :=
  { s with outbound := [], retainedBytes := 0, retainedChunks := 0 }

def FlowShared.markTaskStopped (s : FlowShared) : FlowShared := { s with taskStopped := true }

/-- The locked section of `queue_pending_feedback`: the acknowledgement and the credit to send. -/
def FlowShared.takeFeedback (s : FlowShared) (ackDue : Bool) :
    (Option (ℕ × List Range) × Option ℕ) × FlowShared :=
  let ack := ackDue && decide (s.ackPending ≠ 0)
  ((if ack then some (s.received.contiguous, s.received.ranges) else none,
      if s.creditDirty then some s.maxReceiveOffset else none),
    { s with ackPending := if ack then 0 else s.ackPending, creditDirty := false })

end Quicp
