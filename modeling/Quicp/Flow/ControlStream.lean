import Quicp.Flow.Transmit

/-!
# The control stream of a flow

Frames wait in a queue and are written one after the other; an acknowledgement or credit that is due goes out once the
queue is empty.
-/

namespace Quicp

namespace Flow

def queueControl (s : Flow) (frame : ControlFrame) : Flow :=
  { s with task := { s.task with
      wireQueue := s.task.wireQueue ++ [⟨frame, encodeControl frame, none, none⟩] } }

def queueTerminalFrames (s : Flow) : Flow :=
  match s.shared.shutdownTarget with
  | none => s
  | some finalOffset =>
    if !s.task.finQueued && decide (s.shared.outbound = []) then
      if s.task.replay.bytes = 0 then
        let s := s.queueControl (.fin finalOffset)
        { s with task := { s.task with finQueued := true } }
      else if s.task.datagramEnabled then { s with task := { s.task with replayTimer := true } }
      else s
    else s

def ackFrame (ack : ℕ × List Range) : WireFrame :=
  ⟨.ack ack.1 ack.2, encodeControl (.ack ack.1 ack.2), none, some ack.1⟩

def creditFrame (maximum : ℕ) : WireFrame :=
  ⟨.maxOffset maximum, encodeControl (.maxOffset maximum), none, none⟩

/-- The head of the loop of `poll_wire`: choose the frame to write. -/
def chooseFrame (task : FlowTask) : FlowTask :=
  match task.wireCurrent with
  | some _ => task
  | none =>
    match task.wireQueue with
    | frame :: rest => { task with wireCurrent := some frame, wireQueue := rest }
    | [] =>
      match task.pendingAck with
      | some ack => { task with wireCurrent := some (ackFrame ack), pendingAck := none }
      | none =>
        match task.pendingCredit with
        | some maximum => { task with wireCurrent := some (creditFrame maximum), pendingCredit := none }
        | none => task

/-- What the backend answers to a write: nothing yet, a number of bytes, or an error. -/
inductive WriteResult
  | pending
  | written (count : ℕ)
  | failed
  deriving DecidableEq, Repr

def frameWritten (s : Flow) (frame : WireFrame) : Flow :=
  let consumed := match frame.ackedOffset with
    | none => (s.shared, s.budget)
    | some acked => s.shared.acknowledgeConsumed s.budget acked
  { s with
    shared := { consumed.1 with
      flushedOffset := match frame.flushedOffset with
        | none => consumed.1.flushedOffset
        | some flushed => max consumed.1.flushedOffset flushed }
    budget := consumed.2
    task := { s.task with
      wireCurrent := none
      ackedReceiveOffset := max s.task.ackedReceiveOffset (frame.ackedOffset.getD 0) }
    history := { s.history with frames := s.history.frames ++ [frame.frame] } }

/-- One turn of the loop of `poll_wire`. -/
def pollWire (s : Flow) (result : WriteResult) : Flow × Verdict :=
  let s := { s with task := chooseFrame s.task }
  match s.task.wireCurrent with
  | none => (s, .done true)
  | some frame =>
    match result with
    | .pending => (s, .done false)
    | .failed => (s, .failed .write)
    | .written count =>
      if count = 0 then (s, .failed .writeZero)
      else if count = frame.unsent.length then (s.frameWritten frame, .next)
      else
        let rest := { frame with unsent := frame.unsent.drop count }
        ({ s with task := { s.task with wireCurrent := some rest } }, .next)

def finalAckWritten (shared : FlowShared) (ackedReceiveOffset : ℕ) : Bool :=
  shared.receiveFinalOffset.any (fun finalOffset =>
    decide (shared.received.contiguous = finalOffset) && decide (ackedReceiveOffset ≥ finalOffset)) &&
    decide (shared.ackPending = 0)

/-- Nothing is left to write after the final offset was queued. -/
def nothingToWrite (task : FlowTask) : Bool :=
  task.finQueued && task.wireCurrent.isNone && decide (task.wireQueue = []) && task.pendingAck.isNone &&
    task.pendingCredit.isNone

/-- `finish_send_if_ready`; `finishes` is whether the backend finishes the stream. -/
def finishSendIfReady (s : Flow) (finishes : Bool) : Flow × Verdict :=
  if nothingToWrite s.task then
    let s := { s with shared := { s.shared with shutdownDone := true } }
    if !s.task.sendFinished && finalAckWritten s.shared s.task.ackedReceiveOffset then
      if finishes then ({ s with task := { s.task with sendFinished := true } }, .done true)
      else (s, .failed .finish)
    else (s, .done true)
  else (s, .done true)

end Flow

end Quicp
