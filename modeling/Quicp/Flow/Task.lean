import Quicp.Flow.Receive
import Quicp.Recovery.ReplayBuffer

/-!
# The control task of a flow

A flow task owns the replay buffer, the frames waiting for the control stream and the replay timer.
-/

namespace Quicp

inductive ReplayStage
  | repair
  | sourceReplay
  | reliableFallback
  deriving DecidableEq, Repr

/-- An entry of the wire queue: a frame, the bytes of it still to be written, and the offsets that
count as flushed and as acknowledged once it is written. -/
structure WireFrame where
  frame : ControlFrame
  unsent : List UInt8
  flushedOffset : Option ℕ
  ackedOffset : Option ℕ
  deriving DecidableEq, Repr

/-- `FlowTask`; a timer is the fact that it is armed, and what the stream decoder buffers is left out. -/
structure FlowTask where
  replay : ReplayBuffer
  ackTimer : Bool
  wireQueue : List WireFrame
  wireCurrent : Option WireFrame
  pendingAck : Option (ℕ × List Range)
  pendingCredit : Option ℕ
  datagramEnabled : Bool
  replayStage : ReplayStage
  replayCursor : Option ℕ
  replayTimer : Bool
  finQueued : Bool
  sendFinished : Bool
  ackedReceiveOffset : ℕ

def FlowTask.new (config : FlowConfig) (adaptive : Bool) : FlowTask where
  replay := .new config.replayBufferBytes
  ackTimer := false
  wireQueue := []
  wireCurrent := none
  pendingAck := none
  pendingCredit := none
  datagramEnabled := adaptive
  replayStage := .repair
  replayCursor := none
  replayTimer := false
  finQueued := false
  sendFinished := false
  ackedReceiveOffset := 0

/-- Where the task is: between its functions, inside `queue_pending_feedback` or `process_outbound`
with what it holds there, or gone. -/
inductive TaskPhase
  | idle
  | feedback (ackDue : Bool)
  | taken (chunk : Outbound)
  | cut (chunk : Outbound)
  | sent (stop : ℕ)
  | stopped
  deriving DecidableEq, Repr

/-- What happened so far, kept beside the state: the bytes accepted from the application, the records
handed to the datagram queue, the chunks queued as stream data since they were retained, the frames
written to the control stream, what was received, and whether the end was reported. -/
structure FlowHistory where
  written : List UInt8
  sources : List SourceRecord
  queued : List ℕ
  frames : List ControlFrame
  received : FirstWriter UInt8
  ended : Bool

/-- A flow: its shared state, its task, and the connection and the memory it shares with others. -/
structure Flow where
  flowId : ℕ
  shared : FlowShared
  task : FlowTask
  phase : TaskPhase
  connection : Connection
  budget : RecoveryMemoryBudget
  history : FlowHistory

inductive Verdict
  | next
  | done (progress : Bool)
  | failed (error : FlowTaskError)
  | panicked
  deriving DecidableEq, Repr

namespace Flow

/-- Dropping the task: `FlowTask::drop`. -/
def stop (s : Flow) : Flow :=
  let discarded := s.shared.discardRetained
  let failed := if s.connection.runtimeStopped then
    discarded.failWithKind .connectionAborted .hostRuntimeStopped else discarded
  { s with shared := failed.markTaskStopped, phase := .stopped }

/-- `fail_task`, after which the task ends. -/
def fail (s : Flow) (error : FlowTaskError) : Flow :=
  let kind := match error with
    | .peerReset _ => IoErrorKind.connectionReset
    | _ => IoErrorKind.connectionAborted
  stop { s with shared := s.shared.failWithKind kind (.task error) }

/-- End the task if a stretch of its code failed or panicked. -/
def settle (out : Flow × Verdict) : Flow :=
  match out.2 with
  | .failed error => out.1.fail error
  | .panicked => out.1.stop
  | _ => out.1

/-- Go on with the next stretch unless the last one returned. -/
def andThen (out : Flow × Verdict) (next : Flow → Flow × Verdict) : Flow × Verdict :=
  match out.2 with
  | .next => next out.1
  | _ => out

/-- The head of `poll`: a reset or a dropped handle ends the task. -/
def pollStart (s : Flow) : Flow :=
  if s.shared.reset.isSome then stop { s with shared := { s.shared with reset := none } }
  else if s.shared.handleDropped then s.stop
  else s

def restartReplayTimer (task : FlowTask) : FlowTask :=
  { task with replayTimer := task.replayTimer || (decide (task.replay.bytes ≠ 0) && task.datagramEnabled) }

def rewind (task : FlowTask) : FlowTask := { task with replayStage := .repair, replayCursor := none }

def settleReplay (task : FlowTask) : FlowTask :=
  if task.replay.bytes = 0 then { rewind task with replayTimer := false } else task

/-- The acknowledgement arm of `apply_control`; releasing more than is retained panics. -/
def applyAck (s : Flow) (contiguous : ℕ) (ranges : List Range) : Flow × Verdict :=
  match AckRanges.fromWire contiguous ranges s.connection.maxAckRanges s.shared.nextSendOffset with
  | .error error => (s, .failed (.recovery error))
  | .ok ack =>
    let released := s.task.replay.acknowledge ack
    let s := { s with task := { s.task with replay := released.1 } }
    if released.2.1 ≠ 0 then
      if s.shared.retainedBytes < released.2.1 ∨ s.shared.retainedChunks < released.2.2 then (s, .panicked)
      else ({ s with
        shared := { s.shared with
          retainedBytes := s.shared.retainedBytes - released.2.1
          retainedChunks := s.shared.retainedChunks - released.2.2 }
        task := settleReplay (restartReplayTimer (rewind s.task)) }, .done true)
    else ({ s with task := settleReplay s.task }, .done true)

def afterInsert (s : Flow) (record : ℕ × List UInt8) (out : InsertedBytes) : Flow :=
  { s with
    shared := out.2.1
    budget := out.2.2
    history := { s.history with received := streamAfterInsert s.history.received record out.1 } }

/-- The stream data arm of `apply_control`. -/
def applyStreamData (s : Flow) (offset : ℕ) (fin : Bool) (data : List UInt8) : Flow × Verdict :=
  if data.length > s.connection.maxStreamPayload then (s, .failed (.codec .limit))
  else
    let out := s.shared.insertBytes s.budget offset data fin
    (s.afterInsert (offset, data) out,
      match out.1 with
      | .ok () => .done true
      | .err error => .failed (.recovery error)
      | .panicked => .panicked)

def applyControl (s : Flow) : ControlFrame → Flow × Verdict
  | .ack contiguous ranges => s.applyAck contiguous ranges
  | .maxOffset maximum =>
    if maximum < s.shared.peerMaxOffset then (s, .failed (.recovery .invalidRange))
    else ({ s with shared := { s.shared with peerMaxOffset := maximum } }, .done true)
  | .fin offset =>
    match s.shared.setFinalOffset offset with
    | .error error => (s, .failed (.recovery error))
    | .ok shared => ({ s with shared := shared }, .done true)
  | .streamData offset fin data => s.applyStreamData offset fin data
  | .capabilities _ | .openRequest _ | .status _ | .earlyOpen _ _ _ _ => (s, .failed .unexpectedControl)

/-- `control_input_limit`: the longest control frame that a task reads. -/
def controlInputLimit (maxStreamPayload maxAckRanges : ℕ) : ℕ :=
  max (saturatingAdd maxStreamPayload 16) (saturatingAdd (saturatingMul maxAckRanges 16) 16)

def logicalAckThreshold : ℕ := 16

/-- The first stretch of `queue_pending_feedback`: decide whether an acknowledgement is due. -/
def readFeedback (s : Flow) (timerReady : Bool) : Flow :=
  let pending := s.shared.ackPending
  let ackDue := if pending = 0 ∨ pending ≥ logicalAckThreshold then decide (pending ≠ 0) else timerReady
  { s with
    task := { s.task with ackTimer := !(decide (pending = 0) || ackDue) }
    phase := .feedback ackDue }

/-- The second stretch of `queue_pending_feedback`: take the acknowledgement and the credit. -/
def takeFeedback (s : Flow) (ackDue : Bool) : Flow :=
  let taken := s.shared.takeFeedback ackDue
  { s with
    shared := taken.2
    task := { s.task with
      pendingAck := taken.1.1.or s.task.pendingAck
      pendingCredit := taken.1.2.or s.task.pendingCredit }
    phase := .idle }

end Flow

end Quicp
