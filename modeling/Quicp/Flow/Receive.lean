import Quicp.Flow.Shared
import Quicp.Recovery.Reassembly

/-!
# The receiving side of a flow

The acknowledged ranges and the chunk buffer are two views of the bytes a flow has received.
-/

namespace Quicp

open Segment

/-- The flow has the byte at an offset: it was read, or it is buffered. -/
def FlowShared.Holds (s : FlowShared) (i : ℕ) : Prop :=
  i < s.receive.nextOffset ∨ (firstElement s.receive.segments i).isSome

/-- The invariant of the receiving side, against the stream of what was accepted and delivered. -/
structure ReceiveInv (s : FlowShared) (budget : RecoveryMemoryBudget) (stream : FirstWriter UInt8) :
    Prop where
  wellFormed : s.receive.WellFormed
  identity : budget.identity = s.receive.memoryBudget
  charged : s.receive.charged ≤ budget.used
  refines : Refines s.receive stream
  honest : ∀ i, s.received.Represents i ↔ s.Holds i
  final : s.receiveFinalOffset = s.receive.finalOffset
  window : s.receive.maxBytes = s.receiveWindow
  chunkLimit : s.receive.maxChunks = replayChunkLimit s.receiveWindow
  bounded : s.receiveWindow ≤ maxFlowBufferBytes
  credit : s.maxReceiveOffset ≤ s.receive.nextOffset + s.receiveWindow
  within : ∀ i, s.Holds i → i < s.maxReceiveOffset

variable {s : FlowShared} {budget : RecoveryMemoryBudget} {stream : FirstWriter UInt8}

theorem FlowShared.new_receiveInv (config : FlowConfig) (initialSendOffset : ℕ) :
    ReceiveInv (.new config budget.identity initialSendOffset) budget .empty where
  wellFormed := Reassembler.withBudget_wellFormed _ _
  identity := rfl
  charged := Nat.zero_le _
  refines := ⟨rfl, by simp [FirstWriter.Faithful, FirstWriter.empty], fun _ _ => rfl, fun _ _ h => h⟩
  honest := by
    intro i
    simp [AckRanges.Represents, Covers, FlowShared.Holds, FlowShared.new, AckRanges.new,
      Reassembler.withBudget, Reassembler.segments, OrderedMap.empty, firstElement]
  final := rfl
  window := rfl
  chunkLimit := rfl
  bounded := config.reassemblyValid.2
  credit := by simp [FlowShared.new, Reassembler.withBudget]
  within := by
    intro i
    simp [FlowShared.Holds, FlowShared.new, Reassembler.withBudget, Reassembler.segments,
      OrderedMap.empty, firstElement]

variable {next : FlowShared}

theorem holds_of_accepted {record : ℕ × List UInt8} {fin : Bool}
    (haccepted : Accepted s.receive next.receive record fin) (i : ℕ) :
    next.Holds i ↔ s.Holds i ∨ (record.1 ≤ i ∧ i < stop record) := by
  unfold FlowShared.Holds
  rw [haccepted.nextOffset, ← elementAt_isSome_iff record i]
  by_cases hi : s.receive.nextOffset ≤ i
  · rw [haccepted.unread i hi, Option.isSome_or, Bool.or_eq_true, or_assoc]
  · have hread : i < s.receive.nextOffset := not_le.mp hi
    simp [hread]

theorem holds_of_consumed {output : List UInt8}
    (hconsumed : Consumed s.receive next.receive output) (i : ℕ) : next.Holds i ↔ s.Holds i := by
  unfold FlowShared.Holds
  have hadvanced := hconsumed.advanced
  by_cases hi : next.receive.nextOffset ≤ i
  · rw [hconsumed.unread i hi]
    refine or_congr_left ?_
    omega
  · by_cases hread : i < s.receive.nextOffset
    · simp [hread, not_le.mp hi]
    · have hk : i - s.receive.nextOffset < output.length := by omega
      have hcopied := hconsumed.copied _ hk
      have hposition : s.receive.nextOffset + (i - s.receive.nextOffset) = i := by omega
      rw [hposition, List.getElem?_eq_getElem hk] at hcopied
      simp [← hcopied, not_le.mp hi]

/-- The charge that an insertion works with: an empty one when none came with the record. -/
def incomingCharge (budget : RecoveryMemoryBudget) (charge : Option RecoveryCharge) : RecoveryCharge :=
  charge.getD ⟨budget.identity, 0⟩

/-- The outcomes of inserting bytes: an error that changes nothing, or an accepted record. -/
inductive InsertBytesEffect (s : FlowShared) (budget : RecoveryMemoryBudget)
    (charge : Option RecoveryCharge) (record : ℕ × List UInt8) (fin : Bool) : InsertedBytes → Prop
  | refused (error : RecoveryError) :
    InsertBytesEffect s budget charge record fin (.err error, s, dropIncoming budget charge)
  | accepted {receive : Reassembler} {received : AckRanges} {after : RecoveryMemoryBudget}
    (hend : stop record ≤ s.maxReceiveOffset) (haccepted : Accepted s.receive receive record fin)
    (hreceived : s.received.insert ⟨record.1, stop record⟩ = .ok received)
    (hbalanced : Balanced budget after
      (s.receive.charged + (incomingCharge budget charge).heldOf budget.identity) receive.charged) :
    InsertBytesEffect s budget charge record fin (.ok (), { s with
      receive := receive
      receiveFinalOffset := if fin then some (stop record) else s.receiveFinalOffset
      received := received
      ackPending := nextAckPending s.ackPending }, after)

variable {charge : Option RecoveryCharge}

private theorem insertWithCharge_effect {r : Reassembler} (hr : r.WellFormed)
    (hid : budget.identity = r.memoryBudget)
    (hheld : (incomingCharge budget charge).heldOf budget.identity ≤ budget.used) (offset : ℕ)
    (bytes : List UInt8) (fin : Bool) :
    InsertEffect r budget (incomingCharge budget charge) (offset, bytes) fin
      (r.insertWithCharge budget offset bytes fin charge) := by
  cases charge with
  | none => exact hr.insertRecord_effect hid offset bytes fin
  | some charge => exact hr.insertRecordWithReservation_effect hid hheld offset bytes fin true

private theorem drop_incomingCharge (charge : Option RecoveryCharge) :
    (incomingCharge budget charge).drop budget = dropIncoming budget charge := by
  cases charge with
  | none => exact RecoveryCharge.drop_empty _ _
  | some charge => rfl

theorem ReceiveInv.insertBytesWithReservation_effect (h : ReceiveInv s budget stream)
    (hheld : (incomingCharge budget charge).heldOf budget.identity ≤ budget.used) (offset : ℕ)
    (bytes : List UInt8) (fin : Bool) :
    InsertBytesEffect s budget charge (offset, bytes) fin
      (s.insertBytesWithReservation budget offset bytes fin charge) := by
  unfold FlowShared.insertBytesWithReservation
  cases hstop : checkedAdd offset bytes.length with
  | none => exact .refused _
  | some last =>
    have hlast : last = offset + bytes.length := by
      unfold checkedAdd at hstop
      split_ifs at hstop
      exact (Option.some.inj hstop).symm
    subst hlast
    simp only
    by_cases hcredit : offset + bytes.length > s.maxReceiveOffset
    · rw [if_pos hcredit]
      exact .refused _
    · rw [if_neg hcredit]
      cases hvalid : s.received.validateInsert ⟨offset, offset + bytes.length⟩ with
      | error error => exact .refused _
      | ok value =>
        have heffect := insertWithCharge_effect h.wellFormed h.identity hheld offset bytes fin
        obtain ⟨received, hreceived⟩ := AckRanges.exists_insert_of_valid hvalid
        simp only
        generalize hout : s.receive.insertWithCharge budget offset bytes fin charge = out at heffect
        cases heffect with
        | refused error =>
          rw [drop_incomingCharge]
          exact .refused error
        | accepted haccepted hbalanced =>
          simp only [FlowShared.recordReceived, hreceived]
          exact .accepted (not_lt.mp hcredit) haccepted hreceived hbalanced

/-- The stream after an insertion: an accepted record is written to it. -/
def streamAfterInsert (stream : FirstWriter UInt8) (record : ℕ × List UInt8) :
    Outcome RecoveryError Unit → FirstWriter UInt8
  | .ok () => stream.write record
  | _ => stream

theorem ReceiveInv.insert (h : ReceiveInv s budget stream)
    {record : ℕ × List UInt8} {fin : Bool} {out : InsertedBytes}
    (hheld : s.receive.charged + (incomingCharge budget charge).heldOf budget.identity ≤ budget.used)
    (heffect : InsertBytesEffect s budget charge record fin out) :
    ReceiveInv out.2.1 out.2.2 (streamAfterInsert stream record out.1) := by
  cases heffect with
  | refused error =>
    have hdrop : Balanced budget ((incomingCharge budget charge).drop budget)
        ((incomingCharge budget charge).heldOf budget.identity) 0 := RecoveryCharge.drop_balanced (by omega)
    rw [drop_incomingCharge] at hdrop
    have hused := hdrop.used
    exact { h with identity := hdrop.identity.trans h.identity, charged := by dsimp only; omega }
  | accepted hend haccepted hreceived hbalanced =>
    have hused := hbalanced.used
    obtain ⟨_, _, hrepresents⟩ := AckRanges.insert_spec hreceived
    have hholds : ∀ i, FlowShared.Holds { s with receive := _ } i ↔ _ := holds_of_accepted haccepted
    refine ⟨haccepted.wellFormed, ?_, ?_, h.refines.write haccepted, fun i => ?_, ?_,
      haccepted.maxBytes.trans h.window, haccepted.maxChunks.trans h.chunkLimit, h.bounded, ?_, fun i hi => ?_⟩
    · exact hbalanced.identity.trans (h.identity.trans haccepted.memoryBudget.symm)
    · dsimp only
      omega
    · exact (hrepresents i).trans ((or_congr_left (h.honest i)).trans (hholds i).symm)
    · change (if fin = true then some (stop record) else s.receiveFinalOffset) = _
      rw [haccepted.finalOffset, h.final]
    · have := h.credit
      have := haccepted.nextOffset
      dsimp only
      omega
    · rcases (hholds i).mp hi with hold | hnew
      · exact h.within i hold
      · exact hnew.2.trans_le hend

/-- The part of the shared state that the receiving side reads. -/
structure SameReceive (s t : FlowShared) : Prop where
  receive : t.receive = s.receive
  received : t.received = s.received
  final : t.receiveFinalOffset = s.receiveFinalOffset
  window : t.receiveWindow = s.receiveWindow
  credit : t.maxReceiveOffset = s.maxReceiveOffset

theorem ReceiveInv.congr (h : ReceiveInv s budget stream) {t : FlowShared} (hsame : SameReceive s t) :
    ReceiveInv t budget stream := by
  obtain ⟨hreceive, hreceived, hfinal, hwindow, hcredit⟩ := hsame
  have hholds : ∀ i, t.Holds i ↔ s.Holds i := fun i => by rw [FlowShared.Holds, FlowShared.Holds, hreceive]
  exact ⟨hreceive ▸ h.wellFormed, hreceive ▸ h.identity, hreceive ▸ h.charged, hreceive ▸ h.refines,
    fun i => by rw [hreceived, h.honest i, hholds i], by rw [hfinal, hreceive, h.final],
    by rw [hwindow, hreceive, h.window], by rw [hwindow, hreceive, h.chunkLimit], hwindow ▸ h.bounded,
    by rw [hwindow, hreceive, hcredit]; exact h.credit,
    fun i hi => by rw [hcredit]; exact h.within i ((hholds i).mp hi)⟩

theorem ReceiveInv.withBudget (h : ReceiveInv s budget stream) {after : RecoveryMemoryBudget}
    (hidentity : after.identity = budget.identity) (hcharged : s.receive.charged ≤ after.used) :
    ReceiveInv s after stream :=
  { h with identity := hidentity.trans h.identity, charged := hcharged }

theorem ReceiveInv.consume (h : ReceiveInv s budget stream) {receive : Reassembler}
    {output : List UInt8} {after : RecoveryMemoryBudget} (hconsumed : Consumed s.receive receive output)
    (hbalanced : Balanced budget after s.receive.charged receive.charged) :
    ReceiveInv { s with receive := receive } after (stream.deliver output) := by
  have hused := hbalanced.used
  have hcharged := h.charged
  have hholds : ∀ i, FlowShared.Holds { s with receive := receive } i ↔ s.Holds i :=
    holds_of_consumed hconsumed
  refine ⟨hconsumed.wellFormed, ?_, ?_, h.refines.deliver hconsumed, fun i => ?_, ?_,
    hconsumed.maxBytes.trans h.window, hconsumed.maxChunks.trans h.chunkLimit, h.bounded, ?_, fun i hi => ?_⟩
  · exact hbalanced.identity.trans (h.identity.trans hconsumed.memoryBudget.symm)
  · dsimp only
    omega
  · exact (h.honest i).trans (hholds i).symm
  · exact h.final.trans hconsumed.finalOffset.symm
  · have := h.credit
    have := hconsumed.advanced
    dsimp only
    omega
  · exact h.within i ((hholds i).mp hi)

theorem ReceiveInv.extendCredit (h : ReceiveInv s budget stream) :
    ReceiveInv s.extendCredit budget stream := by
  unfold FlowShared.extendCredit
  dsimp only
  split_ifs with hmore
  · refine ⟨h.wellFormed, h.identity, h.charged, h.refines, h.honest, h.final, h.window, h.chunkLimit,
      h.bounded, ?_, fun i hi => ?_⟩
    · simp only [saturatingAdd]
      omega
    · exact (h.within i hi).trans hmore
  · exact h

def ReadResult.bytes : ReadResult → List UInt8
  | .ok (some output) => output
  | _ => []

theorem ReceiveInv.read (h : ReceiveInv s budget stream) (length : ℕ) :
    ReceiveInv (s.read budget length).2.1 (s.read budget length).2.2
      (stream.deliver (s.read budget length).1.bytes) := by
  unfold FlowShared.read
  split
  · simp only [ReadResult.bytes, FirstWriter.deliver, List.append_nil]
    exact h
  · obtain ⟨hconsumed, hbalanced, _⟩ := h.wellFormed.readLoop_consumed h.identity h.charged (le_refl length)
    have hnext := h.consume hconsumed hbalanced
    unfold FlowShared.readLive
    dsimp only
    by_cases hsome : (s.receive.read budget length).1 ≠ []
    · rw [if_pos hsome]
      exact hnext.extendCredit
    · rw [if_neg hsome]
      have hempty : (s.receive.read budget length).1 = [] := not_not.mp hsome
      have hbytes : ReadResult.bytes (.ok (if (s.receive.read budget length).2.1.isFinished = true
          then some [] else none)) = (s.receive.read budget length).1 := by
        rw [hempty]
        split_ifs <;> rfl
      rw [hbytes]
      exact hnext

theorem ReceiveInv.setFinalOffset (h : ReceiveInv s budget stream) {offset : ℕ}
    (hset : s.setFinalOffset offset = .ok next) : ReceiveInv next budget stream := by
  unfold FlowShared.setFinalOffset at hset
  split_ifs at hset with hcredit
  cases hreceive : s.receive.setFinalOffset offset with
  | error error => simp [hreceive] at hset
  | ok receive =>
    simp only [hreceive, Except.ok.injEq] at hset
    obtain ⟨rfl, _, hadmits⟩ := h.wellFormed.setFinalOffset_eq_ok.mp hreceive
    subst hset
    exact ⟨h.wellFormed.withFinal hadmits, h.identity, h.charged,
      ⟨h.refines.position, h.refines.faithful, h.refines.unread, h.refines.buffered⟩, h.honest, rfl,
      h.window, h.chunkLimit, h.bounded, h.credit, h.within⟩

/-- The lock section of `poll_wire` that releases acknowledged chunks. -/
def FlowShared.acknowledgeConsumed (s : FlowShared) (budget : RecoveryMemoryBudget) (contiguous : ℕ) :
    FlowShared × RecoveryMemoryBudget :=
  let result := s.receive.acknowledgeConsumed budget contiguous
  ({ s with receive := result.1 }, result.2)

theorem ReceiveInv.acknowledgeConsumed (h : ReceiveInv s budget stream) (contiguous : ℕ) :
    ReceiveInv (s.acknowledgeConsumed budget contiguous).1 (s.acknowledgeConsumed budget contiguous).2
      stream := by
  obtain ⟨hconsumed, hbalanced⟩ :=
    h.wellFormed.acknowledgeConsumed_consumed h.identity h.charged contiguous
  have hknown : ReceiveInv { s with receive := s.receive.acknowledgedUpTo contiguous } budget stream :=
    ⟨⟨h.wellFormed.apart, h.wellFormed.nonempty, h.wellFormed.onWire, h.wellFormed.counted,
      h.wellFormed.nextOnWire, h.wellFormed.finalPast⟩, h.identity, h.charged,
      ⟨h.refines.position, h.refines.faithful, h.refines.unread, h.refines.buffered⟩, h.honest, h.final,
      h.window, h.chunkLimit, h.bounded, h.credit, h.within⟩
  have hreleased := hknown.consume hconsumed hbalanced
  rwa [FirstWriter.deliver, List.append_nil] at hreleased

end Quicp
