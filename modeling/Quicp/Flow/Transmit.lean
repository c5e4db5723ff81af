import Quicp.Flow.Task

/-!
# What a flow task sends

`process_outbound` hands written chunks to the datagram queue or to the control stream, `poll_replay` sends
unacknowledged chunks again, and `poll_wire` writes the queued frames.
-/

namespace Quicp

namespace Flow

def giveUpDatagrams (s : Flow) : Flow := { s with task := { s.task with datagramEnabled := false } }

def noticeDatagrams (s : Flow) (enabled : Bool) : Flow :=
  if s.task.datagramEnabled && !enabled then s.giveUpDatagrams else s

/-- The head of `process_outbound`, up to `take_outbound`. -/
def takeOutbound (s : Flow) : Flow × Verdict :=
  let s := s.noticeDatagrams s.connection.datagramEnabled
  match s.shared.outbound with
  | [] => (s, .done false)
  | chunk :: rest => ({ s with shared := { s.shared with outbound := rest }, phase := .taken chunk }, .next)

def putBack (s : Flow) (chunk : Outbound) : Flow × Verdict :=
  ({ s with shared := { s.shared with outbound := chunk :: s.shared.outbound }, phase := .idle }, .done false)

def sendLength (s : Flow) (chunk : Outbound) (maxSourcePayload : ℕ) : ℕ :=
  let payloadLimit := if s.task.datagramEnabled then maxSourcePayload else s.connection.maxStreamPayload
  min (min payloadLimit (s.shared.peerMaxOffset - chunk.offset)) chunk.bytes.length

/-- Split the chunk in hand if it is too long to go out whole. -/
def splitOutbound (s : Flow) (chunk : Outbound) (length : ℕ) : Flow × Verdict :=
  if chunk.bytes.length > length then
    match checkedAdd chunk.offset length with
    | none => (s, .failed (.recovery .offsetOverflow))
    | some remainingOffset =>
      if s.shared.retainedChunks ≥ s.shared.replayChunkLimit then s.putBack chunk
      else ({ s with
        shared := { s.shared with
          retainedChunks := s.shared.retainedChunks + 1
          outbound := ⟨remainingOffset, chunk.bytes.drop length⟩ :: s.shared.outbound }
        phase := .cut ⟨chunk.offset, chunk.bytes.take length⟩ }, .next)
  else ({ s with phase := .cut chunk }, .next)

/-- The part of `process_outbound` from the credit check to the split. -/
def cutOutbound (maxDatagramSize : Option ℕ) (s : Flow) : Flow × Verdict :=
  match s.phase with
  | .taken chunk =>
    if chunk.offset ≥ s.shared.peerMaxOffset then s.putBack chunk
    else
      let maxSourcePayload := s.connection.maxSourcePayload maxDatagramSize
      if s.task.datagramEnabled && decide (maxSourcePayload = 0) then
        if s.connection.requireAdaptive then (s, .failed (.datagram .tooLarge))
        else s.giveUpDatagrams.splitOutbound chunk (s.giveUpDatagrams.sendLength chunk maxSourcePayload)
      else s.splitOutbound chunk (s.sendLength chunk maxSourcePayload)
  | _ => (s, .done false)

/-- The chunk was retained just now and not yet queued as stream data. -/
def retained (s : Flow) (replay : ReplayBuffer) (offset : ℕ) : Flow :=
  { s with
    task := { s.task with replay := replay }
    history := { s.history with queued := s.history.queued.filter (· ≠ offset) } }

def queueStreamData (s : Flow) (offset : ℕ) (data : List UInt8) (stop : ℕ) : Flow :=
  let frame := ControlFrame.streamData offset false data
  { s with
    task := { s.task with
      wireQueue := s.task.wireQueue ++ [⟨frame, encodeControl frame, some stop, none⟩] }
    history := { s.history with queued := offset :: s.history.queued } }

/-- Retain the chunk in hand and queue it as stream data. -/
def sendStreamData (s : Flow) (chunk : Outbound) (stop : ℕ) : Flow × Verdict :=
  match s.task.replay.retain chunk.offset chunk.bytes with
  | .error error => (s, .failed (.recovery error))
  | .ok replay =>
    ({ (s.retained replay chunk.offset).queueStreamData chunk.offset chunk.bytes stop with phase := .idle },
      .done true)

/-- The connection refused the datagram: fall back to stream data unless datagrams are required. -/
def datagramRefused (s : Flow) (chunk : Outbound) (stop : ℕ) (error : SendDatagramError) : Flow × Verdict :=
  if error = .connectionLost then (s, .failed .connection)
  else if s.connection.requireAdaptive then (s, .failed (.datagram error))
  else s.giveUpDatagrams.sendStreamData chunk stop

def sourceQueued (s : Flow) (connection : Connection) (record : SourceRecord) : Flow :=
  { s with
    connection := connection
    history := { s.history with sources := s.history.sources ++ [record] } }

/-- Retain the chunk that went out as a datagram and arm the replay timer. -/
def retainSent (s : Flow) (chunk : Outbound) (stop : ℕ) : Flow × Verdict :=
  match s.task.replay.retain chunk.offset chunk.bytes with
  | .error error => (s, .failed (.recovery error))
  | .ok replay =>
    let s := s.retained replay chunk.offset
    ({ s with task := { s.task with replayTimer := true }, phase := .sent stop }, .next)

/-- The part of `process_outbound` that sends the chunk in hand. -/
def sendOutbound (s : Flow) : Flow × Verdict :=
  match s.phase with
  | .cut chunk =>
    match checkedAdd chunk.offset chunk.bytes.length with
    | none => (s, .failed (.recovery .offsetOverflow))
    | some stop =>
      if s.task.datagramEnabled then
        let record : SourceRecord := ⟨s.flowId, chunk.offset, false, chunk.bytes⟩
        match s.connection.sendSource record with
        | (.ok true, connection) => (s.sourceQueued connection record).retainSent chunk stop
        | (.ok false, connection) => { s with connection := connection }.putBack chunk
        | (.err error, _) => s.datagramRefused chunk stop error
        | (.panicked, connection) => ({ s with connection := connection }, .panicked)
      else s.sendStreamData chunk stop
  | _ => (s, .done false)

/-- The end of `process_outbound` after a chunk went to the datagram queue. -/
def flushOutbound (s : Flow) : Flow × Verdict :=
  match s.phase with
  | .sent stop =>
    ({ s with
      shared := { s.shared with
        flushedOffset := if s.shared.flushTarget.any (fun target => decide (stop ≥ target)) &&
          decide (s.shared.outbound = []) then stop else s.shared.flushedOffset }
      phase := .idle }, .done true)
  | _ => (s, .done false)

/-- `process_outbound`, when nobody else acts in between. -/
def processOutbound (s : Flow) (maxDatagramSize : Option ℕ) : Flow × Verdict :=
  andThen (andThen (andThen s.takeOutbound (cutOutbound maxDatagramSize)) sendOutbound) flushOutbound

/-- The last part of `poll_replay`: queue the next chunk as stream data. -/
def replayFallback (s : Flow) : Flow × Verdict :=
  if s.task.wireCurrent.isSome || decide (s.task.wireQueue ≠ []) then (s, .done false)
  else
    match s.task.replay.nextChunkAfter s.task.replayCursor with
    | some (offset, bytes) =>
      match checkedAdd offset bytes.length with
      | none => (s, .failed (.recovery .offsetOverflow))
      | some stop =>
        let s := s.queueStreamData offset bytes stop
        ({ s with task := { s.task with replayCursor := some offset } }, .done true)
    | none =>
      ({ s with task := { rewind s.task with datagramEnabled := false, replayTimer := false } }, .done true)

/-- The middle part of `poll_replay`: send the next chunk as a datagram again. -/
def replaySource (s : Flow) : Flow × Verdict :=
  if decide (s.task.replayStage ≠ .reliableFallback) && s.task.datagramEnabled then
    match s.task.replay.nextChunkAfter s.task.replayCursor with
    | some (offset, bytes) =>
      let record : SourceRecord := ⟨s.flowId, offset, false, bytes⟩
      match s.connection.sendSource record with
      | (.ok true, connection) =>
        let s := s.sourceQueued connection record
        ({ s with task := { s.task with replayCursor := some offset } }, .done true)
      | (.ok false, connection) => ({ s with connection := connection }, .done false)
      | (.err error, _) => (s, .failed (.datagram error))
      | (.panicked, connection) => ({ s with connection := connection }, .panicked)
    | none =>
      ({ s with task := { s.task with replayStage := .reliableFallback, replayCursor := none } }, .done true)
  else s.replayFallback

/-- What `poll_replay` is told from outside: whether datagrams were seen to be on and the timer fired,
the repair budget and the outcome of sending repairs. -/
structure ReplayPoll where
  enabled : Bool
  timerReady : Bool
  repairBudget : ℕ
  repairs : Except SendDatagramError ℕ

/-- The first part of `poll_replay`: repairs for the tail, then the sources. -/
def replayRepair (s : Flow) (poll : ReplayPoll) : Flow × Verdict :=
  if decide (s.task.replayStage = .repair) && s.task.datagramEnabled then
    if poll.repairBudget = 0 then
      ({ s with task := { s.task with replayStage := .sourceReplay } }, .done true)
    else
      match poll.repairs with
      | .ok sent =>
        if sent ≠ 0 then ({ s with task := { s.task with replayStage := .sourceReplay } }, .done true)
        else s.replaySource
      | .error error =>
        if error ≠ .connectionLost && !s.connection.requireAdaptive then s.giveUpDatagrams.replaySource
        else (s, .failed (.datagram error))
  else s.replaySource

def pollReplay (s : Flow) (poll : ReplayPoll) : Flow × Verdict :=
  let s := s.noticeDatagrams poll.enabled
  if !s.task.replayTimer || !poll.timerReady then (s, .done false)
  else if s.task.replay.bytes = 0 then
    ({ s with task := { rewind s.task with replayTimer := false } }, .done true)
  else s.replayRepair poll

end Flow

end Quicp
