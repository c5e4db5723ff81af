import Quicp.Recovery.AcceptRecord

/-!
# Why an honest record is refused

A record that agrees with what is buffered, has bytes on the wire and respects the final offset
can be refused for lack of room only: too many bytes, too many chunks, or no memory.
-/

namespace Quicp

open Segment

variable {r : Reassembler} {budget : RecoveryMemoryBudget} {error : RecoveryError} {fin : Bool}

private theorem reserve_error {bytes : ℕ} (h : RecoveryCharge.reserve budget bytes = .error error) :
    error = .capacity := by
  unfold RecoveryCharge.reserve at h
  split at h
  · cases h
  · exact (Except.error.inj h).symm

variable {charge : RecoveryCharge}

private theorem growUnless_error {precharged : Bool} {bytes : ℕ}
    (h : charge.growUnless precharged budget bytes = .error error) : error = .capacity := by
  unfold RecoveryCharge.growUnless RecoveryCharge.grow at h
  split at h
  · cases h
  · split at h
    · cases h
    · split at h
      · cases h
      · exact (Except.error.inj h).symm

variable {clipped : ℕ × List UInt8}

private theorem fillGaps_error (hr : r.WellFormed)
    {scan : OverlapScan} (hadded : scan.added = totalLength (openGaps r.segments clipped))
    (h : (r.fillGaps budget clipped.1 (stop clipped) clipped.2 fin charge scan).1 = .error error) :
    error = .capacity := by
  cases hreserved : (checkedMul scan.gapCount rangeSize).bind (checkedAdd scan.added) with
  | none =>
    simp only [Reassembler.fillGaps, hreserved] at h
    exact (Except.error.inj h).symm
  | some reserved =>
    cases hscratch : RecoveryCharge.reserve budget reserved with
    | error failure =>
      simp only [Reassembler.fillGaps, hreserved, hscratch] at h
      rw [← Except.error.inj h]
      exact reserve_error hscratch
    | ok granted =>
      obtain ⟨filled, hfilled, -, -⟩ := hr.fillGaps_of_reserved fin charge rfl hadded hreserved hscratch
      rw [hfilled] at h
      cases h

private theorem insertOverlappingRecord_error (hr : r.WellFormed)
    (hnonempty : clipped.1 < stop clipped) (hwire : stop clipped ≤ maxWireOffset)
    (hagrees : r.AgreesWith clipped) (hadmits : r.AdmitsEnd (stop clipped) fin)
    (h : (r.insertOverlappingRecord budget clipped.1 (stop clipped) clipped.2 fin charge).1 = .error error) :
    error = .capacity := by
  obtain ⟨scan, hscan, hcount, hadded⟩ := hr.scan_of_agrees hnonempty hwire hagrees
  unfold Reassembler.insertOverlappingRecord at h
  simp only [hscan] at h
  split_ifs at h with hnone hfull
  · rw [hr.finishDuplicate_ok charge hadmits hwire] at h
    cases h
  · exact (Except.error.inj h).symm
  · exact fillGaps_error hr hadded h

private theorem insertUnread_error (hr : r.WellFormed)
    {retained : ℕ} {precharged : Bool} (hnonempty : clipped.1 < stop clipped)
    (hwire : stop clipped ≤ maxWireOffset) (hagrees : r.AgreesWith clipped)
    (hadmits : r.AdmitsEnd (stop clipped) fin)
    (h : (r.insertUnread budget clipped.1 (stop clipped) clipped.2 retained fin charge precharged).1 =
      .error error) : error = .capacity := by
  unfold Reassembler.insertUnread at h
  split at h
  · exact insertOverlappingRecord_error hr hnonempty hwire hagrees hadmits h
  · split at h
    · exact (Except.error.inj h).symm
    · split at h
      · exact (Except.error.inj h).symm
      · split at h
        · rename_i failure hgrown
          rw [← Except.error.inj h]
          exact growUnless_error hgrown
        · cases h

theorem Reassembler.WellFormed.insertRecord_error (hr : r.WellFormed)
    (hid : budget.identity = r.memoryBudget) {record : ℕ × List UInt8} (hbytes : record.2 ≠ [])
    (hwire : stop record ≤ maxWireOffset) (hagrees : r.AgreesWith record)
    (hadmits : r.AdmitsEnd (stop record) fin)
    (h : (r.insertRecord budget record.1 record.2 fin).1 = .error error) : error = .capacity := by
  have hend : checkedEnd record.1 record.2.length = .ok (stop record) := checkedEnd_of_le hwire
  obtain ⟨hbeyond, hfinal⟩ := (hr.admitsEnd_iff _ _).mp hadmits
  unfold Reassembler.insertRecord at h
  cases hreserve : RecoveryCharge.reserve budget 0 with
  | error failure =>
    rw [hreserve] at h
    rw [← Except.error.inj h]
    exact reserve_error hreserve
  | ok granted =>
    obtain ⟨charge, lent⟩ := granted
    obtain ⟨rfl, -, -⟩ := RecoveryCharge.reserve_eq_ok hreserve
    rw [hreserve] at h
    unfold Reassembler.insertRecordWithReservation at h
    simp only [hend, RecoveryCharge.belongsTo, hid, beq_self_eq_true, Bool.not_true, Bool.false_and,
      Bool.or_self, Bool.false_eq_true, if_false, hbytes, hbeyond, hfinal] at h
    by_cases hread : stop record ≤ r.nextOffset
    · rw [if_pos hread, hr.validateConsumedOverlap_of_agrees hagrees le_rfl] at h
      rw [hr.finishDuplicate_ok _ hadmits hwire] at h
      cases h
    · have hpast := not_le.mp hread
      obtain ⟨hnonempty, hstop, hagree⟩ := hr.unreadPart_spec hbytes hpast hagrees
      rw [if_neg hread, hr.clipConsumed_of_agrees hagrees hpast.le] at h
      rw [← hstop] at hwire hadmits h
      exact insertUnread_error hr hnonempty hwire hagree hadmits h

end Quicp
