import Quicp.Recovery.InsertRecord

/-!
# When a record is accepted

A record that agrees with the buffered bytes and respects the final offset is refused only for want of room: bytes of
the buffer, chunks of the buffer, or memory of the endpoint.
-/

namespace Quicp

open Segment

variable {r : Reassembler} {budget : RecoveryMemoryBudget}

/-- Two segments have the same byte wherever both have one. -/
def Agree (left right : ℕ × List UInt8) : Prop :=
  ∀ i a b, elementAt left i = some a → elementAt right i = some b → a = b

/-- A record has the buffered byte wherever one is buffered. -/
def Reassembler.AgreesWith (r : Reassembler) (record : ℕ × List UInt8) : Prop :=
  ∀ i a b, firstElement r.segments i = some a → elementAt record i = some b → a = b

def Reassembler.unreadPart (r : Reassembler) (record : ℕ × List UInt8) : ℕ × List UInt8 :=
  (max record.1 r.nextOffset, record.2.drop (r.nextOffset - record.1))

theorem Reassembler.stop_unreadPart (r : Reassembler) (record : ℕ × List UInt8) :
    stop (r.unreadPart record) = max (stop record) r.nextOffset := by
  simp only [unreadPart, stop, List.length_drop]
  omega

/-- The chunks that a record adds: the unread stretches that are not buffered yet. -/
def Reassembler.newFragments (r : Reassembler) (record : ℕ × List UInt8) : ℕ :=
  (openGaps r.segments (r.unreadPart record)).length

def Reassembler.memoryNeeded (r : Reassembler) (record : ℕ × List UInt8) : ℕ :=
  if stop record ≤ r.nextOffset then 0
  else if r.overlaps (r.unreadPart record).1 (stop record) then
    totalLength (openGaps r.segments (r.unreadPart record)) + rangeSize * r.newFragments record
  else record.2.length

variable {bytes : List UInt8} {limit offset : ℕ}

theorem agrees_of_agree {existing : ℕ × List UInt8}
    (hlimit : limit ≤ stop (offset, bytes)) (hagree : Agree existing (offset, bytes)) :
    agrees offset limit bytes existing.1 (stop existing) existing.2 = true := by
  simp only [agrees, slice, beq_iff_eq]
  apply List.ext_getElem?
  intro k
  simp only [stop] at hlimit
  by_cases hk : k < min limit (stop existing) - offset - (max offset existing.1 - offset)
  · have hrecord : elementAt (offset, bytes) (max offset existing.1 + k) =
        bytes[max offset existing.1 - offset + k]? := by
      rw [elementAt_of_le (by dsimp only; omega)]
      congr 1
      dsimp only
      omega
    have hexisting : elementAt existing (max offset existing.1 + k) =
        existing.2[max offset existing.1 - existing.1 + k]? := by
      rw [elementAt_of_le (by omega)]
      congr 1
      omega
    rw [List.getElem?_take_of_lt hk, List.getElem?_take_of_lt (by omega), List.getElem?_drop,
      List.getElem?_drop, ← hrecord, ← hexisting]
    cases hleft : elementAt existing (max offset existing.1 + k) with
    | none =>
      have := (elementAt_eq_none_iff _ _).mp hleft
      omega
    | some a =>
      cases hright : elementAt (offset, bytes) (max offset existing.1 + k) with
      | none =>
        have := (elementAt_eq_none_iff _ _).mp hright
        simp only [stop] at this
        omega
      | some b => rw [hagree _ a b hleft hright]
  · rw [List.getElem?_take_eq_none (by omega), List.getElem?_take_eq_none (by omega)]

theorem validateOverlaps_of_agree {entries : List (ℕ × BufferedChunk)} (hlimit : limit ≤ stop (offset, bytes))
    (hwire : ∀ entry ∈ entries, stop (chunkSegment entry) ≤ maxWireOffset)
    (hagree : ∀ entry ∈ entries, Agree (chunkSegment entry) (offset, bytes)) :
    validateOverlaps offset limit bytes entries = .ok () := by
  induction entries with
  | nil => rfl
  | cons entry rest ih =>
    obtain ⟨existingOffset, existing⟩ := entry
    have hend := checkedEnd_chunk (hwire _ List.mem_cons_self)
    have hsame := agrees_of_agree hlimit (hagree _ List.mem_cons_self)
    have hrest := ih (fun entry h => hwire entry (List.mem_cons_of_mem _ h))
      (fun entry h => hagree entry (List.mem_cons_of_mem _ h))
    simp only [chunkSegment] at hsame hend
    simp only [validateOverlaps, hend, hsame, hrest, if_true, ite_self]

private theorem countGap_of_fits {scan : OverlapScan} {position : ℕ}
    (hwire : position ≤ maxWireOffset) (hadded : scan.added + offset ≤ scan.cursor)
    (hcount : scan.gapCount ≤ scan.added) :
    ∃ counted, scan.countGap position = .ok counted ∧ counted.cursor = scan.cursor ∧
      counted.gapCount ≤ counted.added ∧ counted.added + offset ≤ max scan.cursor position := by
  have hword : maxWireOffset ≤ wordMax := by decide
  unfold OverlapScan.countGap
  by_cases hlt : scan.cursor < position
  · have hone : checkedAdd scan.gapCount 1 = some (scan.gapCount + 1) := if_pos (by omega)
    have htotal : checkedAdd scan.added (position - scan.cursor) =
        some (scan.added + (position - scan.cursor)) := if_pos (by omega)
    rw [if_pos hlt, hone, htotal]
    exact ⟨_, rfl, rfl, by dsimp only; omega, by dsimp only; omega⟩
  · rw [if_neg hlt]
    exact ⟨scan, rfl, rfl, hcount, by omega⟩

theorem scanOverlaps_of_agree {entries : List (ℕ × BufferedChunk)} {scan : OverlapScan} (hoffset : offset < limit)
    (hlimit : limit ≤ stop (offset, bytes)) (hwireLimit : limit ≤ maxWireOffset)
    (hwire : ∀ entry ∈ entries, stop (chunkSegment entry) ≤ maxWireOffset)
    (hbelow : ∀ entry ∈ entries, entry.1 < limit)
    (hagree : ∀ entry ∈ entries, Agree (chunkSegment entry) (offset, bytes))
    (hcursor : offset ≤ scan.cursor) (hadded : scan.added + offset ≤ scan.cursor)
    (hcount : scan.gapCount ≤ scan.added) (hbound : scan.cursor ≤ limit) :
    ∃ result, scanOverlaps offset limit bytes scan entries = .ok result := by
  induction entries generalizing scan with
  | nil =>
    obtain ⟨counted, hcounted, _⟩ := countGap_of_fits hwireLimit hadded hcount
    exact ⟨counted, hcounted⟩
  | cons entry rest ih =>
    obtain ⟨existingOffset, existing⟩ := entry
    have hend := checkedEnd_chunk (hwire _ List.mem_cons_self)
    have hsame : agrees offset limit bytes existingOffset (stop (chunkSegment (existingOffset, existing)))
        existing.bytes = true := agrees_of_agree hlimit (hagree _ List.mem_cons_self)
    have hstart : existingOffset < limit := hbelow _ List.mem_cons_self
    have hlength : existingOffset ≤ stop (chunkSegment (existingOffset, existing)) := Nat.le_add_right _ _
    have hrestWire := fun entry h => hwire entry (List.mem_cons_of_mem _ h)
    have hrestBelow := fun entry h => hbelow entry (List.mem_cons_of_mem _ h)
    have hrestAgree := fun entry h => hagree entry (List.mem_cons_of_mem _ h)
    simp only [scanOverlaps, hend]
    by_cases hskip : stop (chunkSegment (existingOffset, existing)) ≤ offset
    · rw [if_pos hskip]
      exact ih hrestWire hrestBelow hrestAgree hcursor hadded hcount hbound
    · rw [if_neg hskip]
      obtain ⟨counted, hcounted, hposition, hcounts, htotal⟩ :=
        countGap_of_fits (show max offset existingOffset ≤ maxWireOffset by omega) hadded hcount
      simp only [hcounted]
      rw [if_pos hsame]
      exact ih hrestWire hrestBelow hrestAgree (by dsimp only; omega) (by dsimp only; omega) hcounts
        (by dsimp only; omega)

variable {record : ℕ × List UInt8}

theorem Reassembler.AgreesWith.agree (hr : r.WellFormed)
    (hagrees : r.AgreesWith record) {segment : ℕ × List UInt8} (hsegment : segment ∈ r.segments) :
    Agree segment record :=
  fun i a b hleft hright =>
    hagrees i a b ((firstElement_eq_some_iff hr.apart _ _).mpr ⟨segment, hsegment, hleft⟩) hright

theorem Reassembler.WellFormed.validateConsumedOverlap_of_agrees (hr : r.WellFormed)
    (hagrees : r.AgreesWith record) (hlimit : limit ≤ stop record) :
    r.validateConsumedOverlap record.1 limit record.2 = .ok () :=
  validateOverlaps_of_agree hlimit (hr.onWire_below _) fun _ hentry =>
    hagrees.agree hr (List.mem_map_of_mem (List.mem_filter.mp hentry).1)

theorem Reassembler.WellFormed.clipConsumed_of_agrees (hr : r.WellFormed)
    (hagrees : r.AgreesWith record) (hpast : r.nextOffset ≤ stop record) :
    r.clipConsumed record.1 record.2 = .ok (r.unreadPart record) := by
  unfold Reassembler.clipConsumed Reassembler.unreadPart
  split_ifs with hbefore
  · rw [hr.validateConsumedOverlap_of_agrees hagrees hpast, max_eq_right hbefore.le]
  · have hle := not_lt.mp hbefore
    rw [max_eq_left hle, Nat.sub_eq_zero_of_le hle, List.drop_zero]

theorem Reassembler.WellFormed.finishDuplicate_ok (hr : r.WellFormed) {fin : Bool}
    (charge : RecoveryCharge) (hadmits : r.AdmitsEnd limit fin) (hwire : limit ≤ maxWireOffset) :
    (r.finishDuplicate budget limit fin charge).1 = .ok () := by
  unfold Reassembler.finishDuplicate
  cases fin with
  | false => rfl
  | true =>
    simp only [if_true]
    rw [hr.setFinalOffset_eq_ok.mpr ⟨rfl, hwire, hadmits⟩]

section Unread

variable {clipped : ℕ × List UInt8} {fin : Bool}

theorem Reassembler.WellFormed.scan_of_agrees (hr : r.WellFormed) (hnonempty : clipped.1 < stop clipped)
    (hwire : stop clipped ≤ maxWireOffset) (hagrees : r.AgreesWith clipped) :
    ∃ scan, scanOverlaps clipped.1 (stop clipped) clipped.2 ⟨0, 0, clipped.1⟩
        (r.chunks.below (stop clipped)) = .ok scan ∧
      scan.gapCount = (openGaps r.segments clipped).length ∧
      scan.added = totalLength (openGaps r.segments clipped) := by
  have hcompletes : ∃ scan, scanOverlaps clipped.1 (stop clipped) clipped.2 ⟨0, 0, clipped.1⟩
      (r.chunks.below (stop clipped)) = .ok scan :=
    scanOverlaps_of_agree hnonempty le_rfl hwire (hr.onWire_below _)
      (fun entry hentry => by simpa using (List.mem_filter.mp hentry).2)
      (fun entry hentry => hagrees.agree hr (List.mem_map_of_mem (List.mem_filter.mp hentry).1))
      le_rfl (by simp) le_rfl hnonempty.le
  obtain ⟨scan, hscan⟩ := hcompletes
  have hcounts := scanOverlaps_counts (le_refl clipped.1) (hr.onWire_below _) hscan
  rw [r.map_below, zero_add, zero_add] at hcounts
  exact ⟨scan, hscan, hcounts⟩

theorem Reassembler.WellFormed.fillGaps_ok (hr : r.WellFormed) {charge : RecoveryCharge}
    {scan : OverlapScan} (hadded : scan.added = totalLength (openGaps r.segments clipped))
    (hmemory : budget.used + (scan.added + rangeSize * scan.gapCount) ≤ budget.limit) :
    (r.fillGaps budget clipped.1 (stop clipped) clipped.2 fin charge scan).1 = .ok () := by
  have hword : budget.limit ≤ wordMax := budget.bounded.trans (by decide)
  have hmul : checkedMul scan.gapCount rangeSize = some (rangeSize * scan.gapCount) := by
    rw [mul_comm]
    exact if_pos (by rw [mul_comm]; omega)
  have hreserved : (checkedMul scan.gapCount rangeSize).bind (checkedAdd scan.added) =
      some (scan.added + rangeSize * scan.gapCount) := by
    rw [hmul]
    exact if_pos (by omega)
  have hscratch : RecoveryCharge.reserve budget (scan.added + rangeSize * scan.gapCount) =
      .ok (⟨budget.identity, scan.added + rangeSize * scan.gapCount⟩,
        { budget with used := budget.used + (scan.added + rangeSize * scan.gapCount) }) := by
    unfold RecoveryCharge.reserve
    rw [budget.tryReserve_eq, if_pos hmemory]
  obtain ⟨filled, hfilled, -, -⟩ := hr.fillGaps_of_reserved fin charge rfl hadded hreserved hscratch
  rw [hfilled]

theorem Reassembler.WellFormed.insertOverlappingRecord_ok_iff (hr : r.WellFormed)
    {charge : RecoveryCharge} (hnonempty : clipped.1 < stop clipped) (hwire : stop clipped ≤ maxWireOffset)
    (hagrees : r.AgreesWith clipped) (hadmits : r.AdmitsEnd (stop clipped) fin)
    (hchunks : r.maxChunks < wordMax)
    (hroom : r.bytes + totalLength (openGaps r.segments clipped) ≤ r.maxBytes)
    (hmemory : budget.used + (totalLength (openGaps r.segments clipped) +
      rangeSize * (openGaps r.segments clipped).length) ≤ budget.limit) :
    (r.insertOverlappingRecord budget clipped.1 (stop clipped) clipped.2 fin charge).1 = .ok () ↔
      (openGaps r.segments clipped).length = 0 ∨
        r.chunks.length + (openGaps r.segments clipped).length ≤ r.maxChunks := by
  obtain ⟨scan, hscan, hcount, hadded⟩ := hr.scan_of_agrees hnonempty hwire hagrees
  rw [← hcount, ← hadded] at hmemory
  rw [← hadded] at hroom
  rw [← hcount]
  unfold Reassembler.insertOverlappingRecord saturatingAdd
  simp only [hscan]
  split_ifs with hnone hfull
  · simp only [hnone, true_or, iff_true]
    exact hr.finishDuplicate_ok charge hadmits hwire
  · simp only [false_iff]
    omega
  · simp only [hr.fillGaps_ok hadded hmemory, true_iff]
    omega

theorem Reassembler.WellFormed.insertUnread_ok_iff (hr : r.WellFormed) {retained : ℕ}
    (hnonempty : clipped.1 < stop clipped) (hwire : stop clipped ≤ maxWireOffset)
    (hagrees : r.AgreesWith clipped) (hadmits : r.AdmitsEnd (stop clipped) fin)
    (hchunks : r.maxChunks < wordMax)
    (hroom : r.bytes + totalLength (openGaps r.segments clipped) ≤ r.maxBytes)
    (hmemory : budget.used + (if r.overlaps clipped.1 (stop clipped) then
      totalLength (openGaps r.segments clipped) + rangeSize * (openGaps r.segments clipped).length
      else retained) ≤ budget.limit) :
    (r.insertUnread budget clipped.1 (stop clipped) clipped.2 retained fin ⟨budget.identity, 0⟩ false).1 =
        .ok () ↔
      (openGaps r.segments clipped).length = 0 ∨
        r.chunks.length + (openGaps r.segments clipped).length ≤ r.maxChunks := by
  unfold Reassembler.insertUnread
  cases hover : r.overlaps clipped.1 (stop clipped) with
  | true =>
    rw [hover, if_pos rfl] at hmemory
    rw [if_pos rfl]
    exact hr.insertOverlappingRecord_ok_iff hnonempty hwire hagrees hadmits hchunks hroom hmemory
  | false =>
    rw [hover, if_neg Bool.false_ne_true] at hmemory
    have hgaps := openGaps_of_apart hnonempty fun segment hsegment => hr.apart_of_not_overlaps hover hsegment
    have hlength : totalLength (openGaps r.segments clipped) = clipped.2.length := by
      rw [hgaps]
      simp [totalLength, stop]
    have hfits : ¬saturatingAdd r.bytes clipped.2.length > r.maxBytes := by
      unfold saturatingAdd
      omega
    have hgrown : ∃ granted, RecoveryCharge.growUnless false ⟨budget.identity, 0⟩ budget retained =
        .ok granted := by
      simp only [RecoveryCharge.growUnless, RecoveryCharge.grow, Bool.false_eq_true, if_false, Nat.sub_zero,
        budget.tryReserve_eq, if_pos hmemory]
      split_ifs <;> exact ⟨_, rfl⟩
    obtain ⟨granted, hgranted⟩ := hgrown
    simp only [Bool.false_eq_true, if_false, if_neg hfits, hgranted, hgaps, List.length_singleton]
    by_cases hfull : r.chunks.length ≥ r.maxChunks
    · rw [if_pos hfull]
      simp only [reduceCtorEq, false_or, false_iff]
      omega
    · rw [if_neg hfull]
      simp only [true_iff]
      omega

end Unread

theorem Reassembler.WellFormed.unreadPart_spec (hr : r.WellFormed)
    (hbytes : record.2 ≠ []) (hpast : r.nextOffset < stop record) (hagrees : r.AgreesWith record) :
    (r.unreadPart record).1 < stop (r.unreadPart record) ∧ stop (r.unreadPart record) = stop record ∧
      r.AgreesWith (r.unreadPart record) := by
  obtain ⟨-, hnonempty, hstop, hclip⟩ :=
    Reassembler.clipConsumed_spec hbytes hpast (hr.clipConsumed_of_agrees hagrees hpast.le)
  refine ⟨hnonempty, hstop, fun i a b hleft hright => hagrees i a b hleft ?_⟩
  rw [hclip] at hright
  split_ifs at hright
  exact hright

theorem Reassembler.WellFormed.insertRecord_ok_iff (hr : r.WellFormed)
    (hid : budget.identity = r.memoryBudget) {fin : Bool} (hbytes : record.2 ≠ [])
    (hwire : stop record ≤ maxWireOffset) (hagrees : r.AgreesWith record)
    (hadmits : r.AdmitsEnd (stop record) fin) (hchunks : r.maxChunks < wordMax)
    (hroom : r.bytes + totalLength (openGaps r.segments (r.unreadPart record)) ≤ r.maxBytes)
    (hmemory : budget.used + r.memoryNeeded record ≤ budget.limit) :
    (r.insertRecord budget record.1 record.2 fin).1 = .ok () ↔
      r.newFragments record = 0 ∨ r.chunks.length + r.newFragments record ≤ r.maxChunks := by
  have hreserve : RecoveryCharge.reserve budget 0 = .ok (⟨budget.identity, 0⟩, budget) := by
    unfold RecoveryCharge.reserve
    rw [budget.tryReserve_eq, if_pos (by omega)]
    rfl
  have hend : checkedEnd record.1 record.2.length = .ok (stop record) := checkedEnd_of_le hwire
  obtain ⟨hbeyond, hfinal⟩ := (hr.admitsEnd_iff _ _).mp hadmits
  unfold Reassembler.insertRecord Reassembler.insertRecordWithReservation Reassembler.newFragments
  simp only [hreserve, hend, RecoveryCharge.belongsTo, hid, beq_self_eq_true, Bool.not_true, Bool.false_and,
    Bool.or_self, Bool.false_eq_true, if_false, hbytes, hbeyond, hfinal]
  by_cases hread : stop record ≤ r.nextOffset
  · have hnil : openGaps r.segments (r.unreadPart record) = [] := by
      refine openGaps_of_empty ?_
      rw [r.stop_unreadPart, max_eq_right hread]
      exact le_max_right _ _
    rw [if_pos hread, hr.validateConsumedOverlap_of_agrees hagrees le_rfl, hnil]
    simp only [List.length_nil, true_or, iff_true]
    exact hr.finishDuplicate_ok _ hadmits hwire
  · have hpast := not_le.mp hread
    obtain ⟨hnonempty, hstop, hagree⟩ := hr.unreadPart_spec hbytes hpast hagrees
    rw [if_neg hread, hr.clipConsumed_of_agrees hagrees hpast.le]
    rw [Reassembler.memoryNeeded, if_neg hread, ← hstop] at hmemory
    rw [← hstop] at hwire hadmits ⊢
    rw [← hid]
    exact hr.insertUnread_ok_iff hnonempty hwire hagree hadmits hchunks hroom hmemory

end Quicp
