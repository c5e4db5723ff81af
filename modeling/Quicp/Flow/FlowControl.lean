import Quicp.Flow.Credit
import Quicp.Flow.Machine
import Quicp.Recovery.ReassemblerErrors

/-!
# When a flow answers with a flow control error

A record or a final offset is refused for flow control exactly where it ends past the credit.
No other check of a flow answers with that error.
-/

namespace Quicp

open Segment

private theorem AckRanges.validateInsert_ne_flowControl (ack : AckRanges) (range : Range) :
    ack.validateInsert range ≠ .error .flowControl := by
  intro h
  unfold validateInsert validateRange at h
  split_ifs at h <;> cases h

private theorem AckRanges.insertAll_ne_flowControl (start : AckRanges) (ranges : List Range) (sentOffset : ℕ) :
    ranges.foldlM (fun ack range => if range.stop > sentOffset then .error .invalidRange else ack.insert range) start ≠
      .error .flowControl := by
  induction ranges generalizing start with
  | nil => nofun
  | cons range rest ih =>
    rw [List.foldlM_cons]
    by_cases hbeyond : range.stop > sentOffset
    · rw [if_pos hbeyond]
      nofun
    · rw [if_neg hbeyond]
      cases hinsert : start.insert range with
      | error error =>
        rintro ⟨⟩
        exact validateInsert_ne_flowControl _ _ (insert_eq_error_iff.mp hinsert)
      | ok next => exact ih next

private theorem AckRanges.fromWire_ne_flowControl (contiguous : ℕ) (ranges : List Range) (maxRanges sentOffset : ℕ) :
    AckRanges.fromWire contiguous ranges maxRanges sentOffset ≠ .error .flowControl := by
  unfold fromWire
  split
  · nofun
  · exact insertAll_ne_flowControl _ ranges sentOffset

theorem ReceiveInv.bytes_le_window {s : FlowShared} {budget : RecoveryMemoryBudget} {stream : FirstWriter UInt8}
    (h : ReceiveInv s budget stream) : s.receive.bytes ≤ s.receiveWindow := by
  have hsum := sum_remaining_le s.receive.nextOffset h.wellFormed.apart fun _ => h.stop_le_credit
  have hcredit := h.credit
  rw [h.wellFormed.counted]
  omega

theorem FlowShared.insertBytes_ne_flowControl {s : FlowShared} {offset : ℕ} {bytes : List UInt8}
    (h : offset + bytes.length ≤ s.maxReceiveOffset) (budget : RecoveryMemoryBudget) (fin : Bool)
    (charge : Option RecoveryCharge) :
    (s.insertBytesWithReservation budget offset bytes fin charge).1 ≠ .err .flowControl := by
  unfold insertBytesWithReservation
  split
  · simp
  · next limit hlimit =>
    rw [checkedAdd_eq_some hlimit, if_neg (not_lt.mpr h)]
    split
    · next error herror =>
      rintro ⟨⟩
      exact AckRanges.validateInsert_ne_flowControl _ _ herror
    · split
      · next error receive after hinsert =>
        rintro ⟨⟩
        cases charge with
        | none => exact s.receive.insertRecord_ne_flowControl budget offset bytes fin (congrArg Prod.fst hinsert)
        | some charge =>
          exact s.receive.insertRecordPrecharged_ne_flowControl budget offset bytes fin charge (congrArg Prod.fst hinsert)
      · unfold recordReceived
        dsimp only
        split <;> simp

theorem Flow.applyControl_ne_flowControl {s : Flow} {frame : ControlFrame}
    (hdata : ∀ offset last data, frame = .streamData offset last data → offset + data.length ≤ s.shared.maxReceiveOffset)
    (hfin : ∀ finalOffset, frame = .fin finalOffset → finalOffset ≤ s.shared.maxReceiveOffset) :
    (s.applyControl frame).2 ≠ .failed (.recovery .flowControl) := by
  cases frame with
  | ack contiguous ranges =>
    show (s.applyAck contiguous ranges).2 ≠ _
    unfold applyAck
    split
    · next error herror =>
      rintro ⟨⟩
      exact AckRanges.fromWire_ne_flowControl _ _ _ _ herror
    · dsimp only
      split
      · split <;> nofun
      · nofun
  | maxOffset maximum =>
    unfold applyControl
    dsimp only
    split <;> nofun
  | fin finalOffset =>
    unfold applyControl FlowShared.setFinalOffset
    dsimp only
    rw [if_neg (not_lt.mpr (hfin finalOffset rfl))]
    cases hset : s.shared.receive.setFinalOffset finalOffset with
    | error error =>
      rintro ⟨⟩
      exact s.shared.receive.setFinalOffset_ne_flowControl finalOffset hset
    | ok receive => nofun
  | streamData offset last data =>
    have hinsert := FlowShared.insertBytes_ne_flowControl (hdata offset last data rfl) s.budget last none
    unfold applyControl applyStreamData
    dsimp only
    split
    · nofun
    · split
      · nofun
      · next error herror =>
        rintro ⟨⟩
        exact hinsert herror
      · nofun
  | _ => nofun

end Quicp
