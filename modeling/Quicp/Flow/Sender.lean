import Quicp.Flow.Machine

/-!
# What a sender does

The abstract sender: chunks of the written bytes wait, are taken, may be split, and are handed over as datagrams or as
stream data.
-/

namespace Quicp

structure Sender where
  written : List UInt8
  outbound : List Outbound
  inHand : Option Outbound
  ready : Bool
  handed : Option ℕ
  nextSendOffset : ℕ
  retainedBytes : ℕ
  retainedChunks : ℕ
  replayLimit : ℕ
  chunkLimit : ℕ
  peerMaxOffset : ℕ
  replay : ReplayBuffer
  timer : Bool
  stage : ReplayStage
  cursor : Option ℕ
  datagrams : Bool
  credit : ℕ
  pendingCredit : Option ℕ
  waiting : List (ControlFrame × Option ℕ)
  frames : List ControlFrame
  sources : List SourceRecord
  queued : List ℕ
  flushTarget : Option ℕ
  flushedOffset : ℕ
  shutdownTarget : Option ℕ
  finQueued : Bool
  shutdownDone : Bool
  live : Bool

/-- Conditions that a run may be asked to meet where datagrams are switched off, where a hand-over is
noted as flushed, where the peer gives credit or acknowledges, where a chunk is cut, where the final offset is
queued, where the flow is reset and where the task ends. -/
structure SenderGuard where
  switchOff : Option ℕ → ReplayStage → Prop
  flush : List Outbound → Option ℕ → Prop
  peerCredit : ℕ → Prop
  release : AckRanges → Prop
  cut : ℕ → Prop
  fin : Prop
  reset : Prop
  stop : Prop

def SenderGuard.none : SenderGuard where
  switchOff := fun _ _ => True
  flush := fun _ _ => True
  peerCredit := fun _ => True
  release := fun _ => True
  cut := fun _ => True
  fin := True
  reset := True
  stop := True

namespace Sender

def pending (x : Sender) : List Outbound := x.inHand.toList ++ x.outbound

def retain (x : Sender) (replay : ReplayBuffer) (chunk : Outbound) : Sender :=
  { x with
    inHand := none
    ready := false
    handed := none
    replay := replay
    queued := x.queued.filter (· ≠ chunk.offset) }

def queueStreamData (x : Sender) (offset : ℕ) (data : List UInt8) : Sender :=
  { x with
    waiting := x.waiting ++ [(.streamData offset false data, some (offset + data.length))]
    queued := offset :: x.queued }

/-- The replay starts over, and needs no timer without chunks. -/
def settleReplay (x : Sender) : Sender :=
  if x.replay.bytes = 0 then { x with stage := .repair, cursor := none, timer := false } else x

def release (x : Sender) (ack : AckRanges) : Sender :=
  let released := x.replay.acknowledge ack
  let x := { x with replay := released.1 }
  if released.2.1 ≠ 0 then
    settleReplay { x with
      retainedBytes := x.retainedBytes - released.2.1
      retainedChunks := x.retainedChunks - released.2.2
      stage := .repair
      cursor := none
      timer := x.timer || (decide (x.replay.bytes ≠ 0) && x.datagrams) }
  else settleReplay x

/-- The flushed offset after a frame that may carry it further. -/
def flushTo (flushedOffset : ℕ) : Option ℕ → ℕ
  | none => flushedOffset
  | some offset => max flushedOffset offset

inductive Step (guard : SenderGuard) : Sender → Sender → Prop
  | write {x : Sender} (bytes : List UInt8) (hbytes : bytes ≠ []) (hshutdown : x.shutdownTarget = none)
      (hroom : saturatingAdd x.retainedBytes bytes.length ≤ x.replayLimit) (hchunks : x.retainedChunks < x.chunkLimit) :
      Step guard x { x with
        written := x.written ++ bytes
        outbound := x.outbound ++ [⟨x.nextSendOffset, bytes⟩]
        nextSendOffset := x.nextSendOffset + bytes.length
        retainedBytes := x.retainedBytes + bytes.length
        retainedChunks := x.retainedChunks + 1 }
  | requestFlush {x : Sender} :
      Step guard x { x with flushTarget := some (max (x.flushTarget.getD 0) x.nextSendOffset) }
  | requestShutdown {x : Sender} :
      Step guard x { x with shutdownTarget := some (x.shutdownTarget.getD x.nextSendOffset) }
  | reset {x : Sender} (hguard : guard.reset) : Step guard x { x with
      outbound := []
      retainedBytes := x.retainedBytes - (x.outbound.map (fun item => item.bytes.length)).sum
      retainedChunks := x.retainedChunks - x.outbound.length
      live := false }
  | overdrawn {x : Sender} (retainedBytes : ℕ) (hlive : x.live = true)
      (hover : x.retainedBytes < (x.outbound.map (fun item => item.bytes.length)).sum ∨
        x.retainedChunks < x.outbound.length) (hguard : guard.reset) :
      Step guard x { x with retainedBytes := retainedBytes }
  | fail {x : Sender} (hguard : guard.stop) : Step guard x { x with live := false }
  | abandon {x : Sender} (hguard : guard.stop) : Step guard x { x with
      outbound := []
      inHand := none
      ready := false
      handed := none
      retainedBytes := 0
      retainedChunks := 0
      live := false }
  | abandonReleased {x : Sender} (ack : AckRanges) (hack : guard.release ack) (hguard : guard.stop) : Step guard x { x with
      replay := (x.replay.acknowledge ack).1
      outbound := []
      inHand := none
      ready := false
      handed := none
      retainedBytes := 0
      retainedChunks := 0
      live := false }
  | credit {x : Sender} (maximum : ℕ) (hmaximum : x.credit ≤ maximum) (hwire : maximum ≤ max x.credit maxWireOffset) :
      Step guard x { x with credit := maximum }
  | offerCredit {x : Sender} : Step guard x { x with pendingCredit := some x.credit }
  | peerCredit {x : Sender} (maximum : ℕ) (hmaximum : x.peerMaxOffset ≤ maximum)
      (hwire : maximum ≤ maxWireOffset) (hguard : guard.peerCredit maximum) :
      Step guard x { x with peerMaxOffset := maximum }
  | release {x : Sender} (ack : AckRanges) (hguard : guard.release ack) : Step guard x (x.release ack)
  | switchOff {x : Sender} (hguard : guard.switchOff x.cursor x.stage) :
      Step guard x { x with datagrams := false }
  | take {x : Sender} (chunk : Outbound) (rest : List Outbound) (hhand : x.inHand = none)
      (hhanded : x.handed = none) (houtbound : x.outbound = chunk :: rest) :
      Step guard x { x with inHand := some chunk, ready := false, outbound := rest }
  | putBack {x : Sender} (chunk : Outbound) (hhand : x.inHand = some chunk) :
      Step guard x { x with inHand := none, ready := false, outbound := chunk :: x.outbound }
  | cut {x : Sender} (chunk : Outbound) (hhand : x.inHand = some chunk)
      (hcredit : chunk.offset + chunk.bytes.length ≤ x.peerMaxOffset) (hguard : guard.cut chunk.bytes.length) :
      Step guard x { x with ready := true }
  | split {x : Sender} (chunk : Outbound) (length : ℕ) (hhand : x.inHand = some chunk) (hpositive : 0 < length)
      (hlength : length < chunk.bytes.length) (hcredit : chunk.offset + length ≤ x.peerMaxOffset)
      (hchunks : x.retainedChunks < x.chunkLimit) (hguard : guard.cut length) :
      Step guard x { x with
        ready := true
        inHand := some ⟨chunk.offset, chunk.bytes.take length⟩
        outbound := ⟨chunk.offset + length, chunk.bytes.drop length⟩ :: x.outbound
        retainedChunks := x.retainedChunks + 1 }
  | handDatagram {x : Sender} (chunk : Outbound) (replay : ReplayBuffer) (record : SourceRecord)
      (hhand : x.inHand = some chunk) (hready : x.ready = true) (hoffset : record.offset = chunk.offset)
      (hdata : record.data = chunk.bytes) (hfin : record.fin = false)
      (hreplay : x.replay.retain chunk.offset chunk.bytes = .ok replay) (hdatagrams : x.datagrams = true) :
      Step guard x { x.retain replay chunk with
        handed := some (chunk.offset + chunk.bytes.length)
        timer := true
        sources := x.sources ++ [record] }
  | handStream {x : Sender} (chunk : Outbound) (replay : ReplayBuffer) (hhand : x.inHand = some chunk)
      (hready : x.ready = true) (hreplay : x.replay.retain chunk.offset chunk.bytes = .ok replay)
      (hdatagrams : x.datagrams = false) : Step guard x ((x.retain replay chunk).queueStreamData chunk.offset chunk.bytes)
  | lostSource {x : Sender} (chunk : Outbound) (record : SourceRecord) (hhand : x.inHand = some chunk)
      (hready : x.ready = true) (hoffset : record.offset = chunk.offset) (hdata : record.data = chunk.bytes) (hfin : record.fin = false) :
      Step guard x { x with sources := x.sources ++ [record] }
  | flush {x : Sender} (limit : ℕ) (hhanded : x.handed = some limit)
      (hguard : guard.flush x.outbound x.flushTarget) :
      Step guard x { x with
        handed := none
        flushedOffset := if x.flushTarget.any (fun target => decide (limit ≥ target)) &&
          decide (x.outbound = []) then limit else x.flushedOffset }
  | replayIdle {x : Sender} (hempty : x.replay.bytes = 0) :
      Step guard x { x with stage := .repair, cursor := none, timer := false }
  | toSource {x : Sender} (hdatagrams : x.datagrams = true) : Step guard x { x with stage := .sourceReplay }
  | resend {x : Sender} (offset : ℕ) (bytes : List UInt8) (record : SourceRecord) (htimer : x.timer = true)
      (hdatagrams : x.datagrams = true) (hstage : x.stage ≠ .reliableFallback)
      (hnext : x.replay.nextChunkAfter x.cursor = some (offset, bytes)) (hoffset : record.offset = offset)
      (hdata : record.data = bytes) (hfin : record.fin = false) :
      Step guard x { x with cursor := some offset, sources := x.sources ++ [record] }
  | toFallback {x : Sender} : Step guard x { x with stage := .reliableFallback, cursor := none }
  | requeue {x : Sender} (offset : ℕ) (bytes : List UInt8) (htimer : x.timer = true)
      (hfallback : x.stage = .reliableFallback ∨ x.datagrams = false)
      (hnext : x.replay.nextChunkAfter x.cursor = some (offset, bytes)) :
      Step guard x { x.queueStreamData offset bytes with cursor := some offset }
  | fallbackDone {x : Sender} (htimer : x.timer = true)
      (hfallback : x.stage = .reliableFallback ∨ x.datagrams = false)
      (hnext : x.replay.nextChunkAfter x.cursor = none) :
      Step guard x { x with datagrams := false, stage := .repair, cursor := none, timer := false }
  | armTimer {x : Sender} : Step guard x { x with timer := true }
  | queueFin {x : Sender} (finalOffset : ℕ) (hshutdown : x.shutdownTarget = some finalOffset)
      (hhand : x.inHand = none) (hhanded : x.handed = none) (houtbound : x.outbound = [])
      (hreplay : x.replay.bytes = 0) (hfresh : x.finQueued = false) (hguard : guard.fin) :
      Step guard x { x with waiting := x.waiting ++ [(.fin finalOffset, none)], finQueued := true }
  | acknowledge {x : Sender} (contiguous : ℕ) (ranges : List Range) :
      Step guard x { x with waiting := x.waiting ++ [(.ack contiguous ranges, none)] }
  | sendCredit {x : Sender} (maximum : ℕ) (hcredit : x.pendingCredit = some maximum) :
      Step guard x { x with waiting := x.waiting ++ [(.maxOffset maximum, none)], pendingCredit := none }
  | frameWritten {x : Sender} (frame : ControlFrame) (flushed : Option ℕ)
      (rest : List (ControlFrame × Option ℕ)) (hwaiting : x.waiting = (frame, flushed) :: rest) :
      Step guard x { x with
        waiting := rest
        frames := x.frames ++ [frame]
        flushedOffset := flushTo x.flushedOffset flushed }
  | shutDown {x : Sender} (hfin : x.finQueued = true) (hwaiting : x.waiting = []) :
      Step guard x { x with shutdownDone := true }

def Steps (guard : SenderGuard) : Sender → Sender → Prop := Relation.ReflTransGen (Step guard)

end Sender

/-- The task has cut the chunk in hand to what may go out. -/
def TaskPhase.ready : TaskPhase → Bool
  | .cut _ => true
  | _ => false

/-- What the task holds while it is inside `process_outbound`. -/
def TaskPhase.inHand : TaskPhase → Option Outbound
  | .taken chunk | .cut chunk => some chunk
  | _ => none

/-- The end of the chunk that the task handed to the datagram queue and did not note yet. -/
def TaskPhase.handed : TaskPhase → Option ℕ
  | .sent stop => some stop
  | _ => none

def Flow.sender (s : Flow) : Sender where
  written := s.history.written
  outbound := s.shared.outbound
  inHand := s.phase.inHand
  ready := s.phase.ready
  handed := s.phase.handed
  nextSendOffset := s.shared.nextSendOffset
  retainedBytes := s.shared.retainedBytes
  retainedChunks := s.shared.retainedChunks
  replayLimit := s.shared.replayLimit
  chunkLimit := s.shared.replayChunkLimit
  peerMaxOffset := s.shared.peerMaxOffset
  replay := s.task.replay
  timer := s.task.replayTimer
  stage := s.task.replayStage
  cursor := s.task.replayCursor
  datagrams := s.task.datagramEnabled
  credit := s.shared.maxReceiveOffset
  pendingCredit := s.task.pendingCredit
  waiting := (s.task.wireCurrent.toList ++ s.task.wireQueue).map (fun frame => (frame.frame, frame.flushedOffset))
  frames := s.history.frames
  sources := s.history.sources
  queued := s.history.queued
  flushTarget := s.shared.flushTarget
  flushedOffset := s.shared.flushedOffset
  shutdownTarget := s.shared.shutdownTarget
  finQueued := s.task.finQueued
  shutdownDone := s.shared.shutdownDone
  live := s.shared.error.isNone && !s.shared.taskStopped

end Quicp
