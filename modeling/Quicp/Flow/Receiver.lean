import Quicp.Flow.Effects
import Quicp.Flow.SenderRefinement

/-!
# What a receiver does

The receiving side of a flow takes records and a final offset, delivers bytes and releases chunks. Everything else
that happens to a flow leaves it alone.
-/

namespace Quicp

open Segment

/-- The receiving side of a flow: its shared state and memory, the stream so far and whether its end was
reported. -/
structure Receiver where
  shared : FlowShared
  budget : RecoveryMemoryBudget
  stream : FirstWriter UInt8
  ended : Bool

def Flow.receiver (s : Flow) : Receiver := ⟨s.shared, s.budget, s.history.received, s.history.ended⟩

namespace Receiver

def afterInsert (x : Receiver) (record : ℕ × List UInt8) (out : InsertedBytes) : Receiver :=
  { x with shared := out.2.1, budget := out.2.2, stream := streamAfterInsert x.stream record out.1 }

def afterRead (x : Receiver) (length : ℕ) : Receiver :=
  let out := x.shared.read x.budget length
  ⟨out.2.1, out.2.2, x.stream.deliver out.1.bytes, x.ended || Flow.reportsEnd out.1⟩

inductive Step (offers : ℕ × List UInt8 → Bool → Prop) (ends : ℕ → Prop) : Receiver → Receiver → Prop
  | other {x : Receiver} (shared : FlowShared) (hsame : SameReceive x.shared shared) :
      Step offers ends x { x with shared := shared }
  | useBudget {x : Receiver} (used : ℕ) (hused : x.shared.receive.charged ≤ used) :
      Step offers ends x { x with budget := { x.budget with used := used } }
  | insert {x : Receiver} (record : ℕ × List UInt8) (last : Bool) (charge : Option RecoveryCharge)
      (hoffer : offers record last)
      (hheld : ∀ held ∈ charge, x.shared.receive.charged + held.heldOf x.budget.identity ≤ x.budget.used) :
      Step offers ends x (x.afterInsert record
        (x.shared.insertBytesWithReservation x.budget record.1 record.2 last charge))
  | final {x : Receiver} (offset : ℕ) (shared : FlowShared) (hends : ends offset)
      (hset : x.shared.setFinalOffset offset = .ok shared) : Step offers ends x { x with shared := shared }
  | read {x : Receiver} (length : ℕ) : Step offers ends x (x.afterRead length)
  | release {x : Receiver} (contiguous : ℕ) : Step offers ends x { x with
      shared := (x.shared.acknowledgeConsumed x.budget contiguous).1
      budget := (x.shared.acknowledgeConsumed x.budget contiguous).2 }

def Steps (offers : ℕ × List UInt8 → Bool → Prop) (ends : ℕ → Prop) : Receiver → Receiver → Prop :=
  Relation.ReflTransGen (Step offers ends)

end Receiver

/-- The records that an action offers to the receiving side. -/
def FlowAction.offers : FlowAction → ℕ × List UInt8 → Bool → Prop
  | .source offset bytes last _, record, fin => record = (offset, bytes) ∧ fin = last
  | .control (.streamData offset last data), record, fin => record = (offset, data) ∧ fin = last
  | _, _, _ => False

/-- The final offset that an action offers to the receiving side. -/
def FlowAction.ends : FlowAction → ℕ → Prop
  | .control (.fin finalOffset), offset => offset = finalOffset
  | _, _ => False

namespace Flow

structure SameReceiver (s t : Flow) : Prop where
  shared : SameReceive s.shared t.shared
  budget : t.budget = s.budget
  received : t.history.received = s.history.received
  ended : t.history.ended = s.history.ended

namespace SameReceiver

variable {s t u : Flow}

theorem refl (s : Flow) : SameReceiver s s := ⟨⟨rfl, rfl, rfl, rfl, rfl⟩, rfl, rfl, rfl⟩

theorem trans (h : SameReceiver s t) (hnext : SameReceiver t u) : SameReceiver s u where
  shared := ⟨hnext.shared.receive.trans h.shared.receive, hnext.shared.received.trans h.shared.received,
    hnext.shared.final.trans h.shared.final, hnext.shared.window.trans h.shared.window,
    hnext.shared.credit.trans h.shared.credit⟩
  budget := hnext.budget.trans h.budget
  received := hnext.received.trans h.received
  ended := hnext.ended.trans h.ended

theorem steps (h : SameReceiver s t) {offers : ℕ × List UInt8 → Bool → Prop} {ends : ℕ → Prop} :
    Receiver.Steps offers ends s.receiver t.receiver := by
  have hreceiver : t.receiver = { s.receiver with shared := t.shared } := by
    simp only [receiver, h.budget, h.received, h.ended]
  rw [hreceiver]
  exact Relation.ReflTransGen.single (.other t.shared h.shared)

end SameReceiver

theorem SendEffect.sameReceiver {s t : Flow} (h : SendEffect s t) : SameReceiver s t := by
  obtain ⟨_, _, _, _, _, hshared⟩ := h.shared
  exact ⟨by rw [hshared]; exact ⟨rfl, rfl, rfl, rfl, rfl⟩, h.budget, h.received, h.ended⟩

variable {s : Flow}

theorem stop_sameReceiver (s : Flow) : SameReceiver s s.stop := by
  refine ⟨?_, rfl, rfl, rfl⟩
  unfold stop
  dsimp only
  split <;> exact ⟨rfl, rfl, rfl, rfl, rfl⟩

theorem fail_sameReceiver (s : Flow) (error : FlowTaskError) : SameReceiver s (s.fail error) :=
  SameReceiver.trans (t := { s with shared := s.shared.failWithKind _ _ }) ⟨⟨rfl, rfl, rfl, rfl, rfl⟩, rfl, rfl, rfl⟩
    (stop_sameReceiver _)

theorem settle_sameReceiver (out : Flow × Verdict) : SameReceiver out.1 (settle out) := by
  unfold settle
  split
  · exact fail_sameReceiver _ _
  · exact stop_sameReceiver _
  · exact SameReceiver.refl _

theorem requestReset_sameReceive (shared : FlowShared) (error : ApplicationError) :
    SameReceive shared (shared.requestReset error).2 := by
  unfold FlowShared.requestReset
  split
  · exact ⟨rfl, rfl, rfl, rfl, rfl⟩
  · split
    · exact ⟨rfl, rfl, rfl, rfl, rfl⟩
    · dsimp only
      split
      · exact ⟨rfl, rfl, rfl, rfl, rfl⟩
      · split <;> exact ⟨rfl, rfl, rfl, rfl, rfl⟩

theorem applyEnqueue_sameReceiver (bytes : List UInt8) : SameReceiver s (s.applyEnqueue bytes) := by
  unfold applyEnqueue FlowShared.enqueue
  split
  · exact SameReceiver.refl s
  · exact SameReceiver.refl s
  · dsimp only
    split <;> exact ⟨⟨rfl, rfl, rfl, rfl, rfl⟩, rfl, rfl, rfl⟩

theorem pollStart_sameReceiver : SameReceiver s s.pollStart := by
  unfold pollStart
  split
  · exact SameReceiver.trans (t := { s with shared := { s.shared with reset := none } })
      ⟨⟨rfl, rfl, rfl, rfl, rfl⟩, rfl, rfl, rfl⟩ (stop_sameReceiver _)
  · split
    · exact stop_sameReceiver s
    · exact SameReceiver.refl s

section Steps

variable {offers : ℕ × List UInt8 → Bool → Prop} {ends : ℕ → Prop}

theorem frameWritten_receiver (frame : WireFrame) :
    Receiver.Steps offers ends s.receiver (s.frameWritten frame).receiver := by
  obtain ⟨control, unsent, flushedOffset, ackedOffset⟩ := frame
  cases ackedOffset with
  | none =>
    refine SameReceiver.steps ?_
    exact ⟨⟨rfl, rfl, rfl, rfl, rfl⟩, rfl, rfl, rfl⟩
  | some acked =>
    refine Relation.ReflTransGen.head (.release acked) ?_
    exact Relation.ReflTransGen.single (.other _ ⟨rfl, rfl, rfl, rfl, rfl⟩)

theorem pollWire_receiver (result : WriteResult) :
    Receiver.Steps offers ends s.receiver (s.pollWire result).1.receiver := by
  have hchoose : SameReceiver s { s with task := chooseFrame s.task } :=
    ⟨⟨rfl, rfl, rfl, rfl, rfl⟩, rfl, rfl, rfl⟩
  unfold pollWire
  dsimp only
  split
  · exact hchoose.steps
  · split
    · exact hchoose.steps
    · exact hchoose.steps
    · split
      · exact hchoose.steps
      · split
        · exact hchoose.steps.trans (frameWritten_receiver _)
        · refine SameReceiver.steps ?_
          exact ⟨⟨rfl, rfl, rfl, rfl, rfl⟩, rfl, rfl, rfl⟩

end Steps

theorem applyControl_receiver (frame : ControlFrame) :
    Receiver.Steps (FlowAction.control frame).offers (FlowAction.control frame).ends s.receiver
      (s.applyControl frame).1.receiver := by
  cases frame with
  | ack contiguous ranges => exact (applyAck_effect contiguous ranges).sameReceiver.steps
  | maxOffset maximum =>
    refine SameReceiver.steps ?_
    unfold applyControl
    dsimp only
    split <;> exact ⟨⟨rfl, rfl, rfl, rfl, rfl⟩, rfl, rfl, rfl⟩
  | fin offset =>
    unfold applyControl
    dsimp only
    split
    · exact Relation.ReflTransGen.refl
    · rename_i shared hset
      exact Relation.ReflTransGen.single (.final offset shared rfl hset)
  | streamData offset last data =>
    change Receiver.Steps _ _ s.receiver (s.applyStreamData offset last data).1.receiver
    unfold applyStreamData
    split
    · exact Relation.ReflTransGen.refl
    · exact Relation.ReflTransGen.single (.insert (offset, data) last none ⟨rfl, rfl⟩ nofun)
  | _ => exact Relation.ReflTransGen.refl

theorem applySource_receiver {offset : ℕ} {bytes : List UInt8} {last : Bool} {charge : RecoveryCharge}
    (hallows : s.Allows (.source offset bytes last charge)) :
    Receiver.Steps (FlowAction.source offset bytes last charge).offers
      (FlowAction.source offset bytes last charge).ends s.receiver
      (s.applySource offset bytes last charge).receiver := by
  have hinsert : Receiver.Steps (FlowAction.source offset bytes last charge).offers
      (FlowAction.source offset bytes last charge).ends s.receiver
      (s.afterInsert (offset, bytes)
        (s.shared.insertBytesPrecharged s.budget offset bytes last charge)).receiver := by
    refine Relation.ReflTransGen.single (.insert (offset, bytes) last (some charge) ⟨rfl, rfl⟩ ?_)
    intro held hmem
    obtain rfl : charge = held := Option.some.inj hmem
    exact hallows
  unfold applySource
  dsimp only
  split
  · refine hinsert.trans (SameReceiver.steps ?_)
    exact ⟨requestReset_sameReceive _ _, rfl, rfl, rfl⟩
  · exact hinsert

theorem apply_receiver {action : FlowAction} (hallows : s.Allows action) :
    Receiver.Steps action.offers action.ends s.receiver (s.apply action).receiver := by
  cases action with
  | enqueue bytes => exact (applyEnqueue_sameReceiver bytes).steps
  | requestFlush =>
    refine SameReceiver.steps ?_
    refine ⟨?_, rfl, rfl, rfl⟩
    change SameReceive s.shared s.shared.requestFlush.2
    unfold FlowShared.requestFlush
    split <;> exact ⟨rfl, rfl, rfl, rfl, rfl⟩
  | requestShutdown =>
    refine SameReceiver.steps ?_
    refine ⟨?_, rfl, rfl, rfl⟩
    change SameReceive s.shared s.shared.requestShutdown.2
    unfold FlowShared.requestShutdown
    split <;> exact ⟨rfl, rfl, rfl, rfl, rfl⟩
  | requestReset error =>
    refine SameReceiver.steps ?_
    refine ⟨?_, rfl, rfl, rfl⟩
    exact requestReset_sameReceive s.shared error
  | read length => exact Relation.ReflTransGen.single (.read length)
  | source offset bytes fin charge => exact applySource_receiver hallows
  | useBudget used => exact Relation.ReflTransGen.single (.useBudget used hallows.1)
  | pollStart => exact pollStart_sameReceiver.steps
  | control frame => exact (applyControl_receiver frame).trans (settle_sameReceiver _).steps
  | receiveError error => exact (fail_sameReceiver s error).steps
  | takeFeedback =>
    obtain ⟨ackDue, hphase⟩ := exists_of_inFeedback hallows
    refine SameReceiver.steps ?_
    simp only [apply, applyTakeFeedback, hphase]
    exact ⟨⟨rfl, rfl, rfl, rfl, rfl⟩, rfl, rfl, rfl⟩
  | takeOutbound => exact (takeOutbound_effect.sameReceiver.trans (settle_sameReceiver _)).steps
  | cutOutbound maxDatagramSize =>
    exact ((cutOutbound_effect maxDatagramSize).sameReceiver.trans (settle_sameReceiver _)).steps
  | sendOutbound => exact (sendOutbound_effect.sameReceiver.trans (settle_sameReceiver _)).steps
  | flushOutbound =>
    refine SameReceiver.steps (SameReceiver.trans ?_ (settle_sameReceiver _))
    unfold flushOutbound
    split <;> exact ⟨⟨rfl, rfl, rfl, rfl, rfl⟩, rfl, rfl, rfl⟩
  | replay poll => exact ((pollReplay_effect poll).sameReceiver.trans (settle_sameReceiver _)).steps
  | terminal => exact queueTerminalFrames_effect.sameReceiver.steps
  | wire result => exact (pollWire_receiver result).trans (settle_sameReceiver _).steps
  | finish finishes => exact ((finishSendIfReady_effect finishes).sameReceiver.trans (settle_sameReceiver _)).steps
  | _ =>
    refine SameReceiver.steps ?_
    exact ⟨⟨rfl, rfl, rfl, rfl, rfl⟩, rfl, rfl, rfl⟩

end Flow

end Quicp
