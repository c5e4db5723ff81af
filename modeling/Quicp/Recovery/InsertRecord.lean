import Quicp.Recovery.ReassemblerInsert

/-!
# The cases of a record insertion

Every call of `insert_record_with_reservation` either refuses the record, and then the
reassembler is unchanged and only the incoming charge is dropped, or accepts it, and
then the new chunks hold exactly what the budget gave.
-/

namespace Quicp

open Segment

variable {r : Reassembler} {budget : RecoveryMemoryBudget} {charge : RecoveryCharge}

/-- The outcomes of an insertion: refused without effect, or accepted and paid for. -/
inductive InsertEffect (r : Reassembler) (budget : RecoveryMemoryBudget) (charge : RecoveryCharge)
    (record : ℕ × List UInt8) (fin : Bool) : Inserted → Prop
  | refused (error : RecoveryError) :
    InsertEffect r budget charge record fin (.error error, r, charge.drop budget)
  | accepted {next : Reassembler} {after : RecoveryMemoryBudget} (haccepted : Accepted r next record fin)
    (hbalanced : Balanced budget after (r.charged + charge.heldOf budget.identity) next.charged) :
    InsertEffect r budget charge record fin (.ok (), next, after)

variable {fin : Bool} {record : ℕ × List UInt8}

theorem Reassembler.WellFormed.accepted_of_covered (hr : r.WellFormed)
    (hadmits : r.AdmitsEnd (stop record) fin) (hwire : stop record ≤ maxWireOffset)
    (hcovered : ∀ i, r.nextOffset ≤ i → elementAt record i ≠ none → firstElement r.segments i ≠ none) :
    Accepted r (r.withAdded r.chunks 0 (stop record) fin) record fin := by
  refine hr.withAdded hadmits hwire r.chunks [] (by simp [Reassembler.segments]) List.Pairwise.nil
    (by simp) (by simp) fun i => ?_
  rw [List.append_nil]
  cases hfirst : firstElement r.segments i with
  | some a => rfl
  | none =>
    by_cases hi : r.nextOffset ≤ i
    · have hnone : elementAt record i = none := by
        by_contra hsome
        exact hcovered i hi hsome hfirst
      simp [hi, hnone]
    · simp [hi]

theorem Reassembler.WellFormed.hasChunkPast_eq_false (hr : r.WellFormed) (offset : ℕ) :
    r.hasChunkPast offset = false ↔ ∀ segment ∈ r.segments, stop segment ≤ offset := by
  rw [Reassembler.hasChunkPast, List.any_eq_false]
  simp only [gt_iff_lt, decide_eq_true_eq, not_lt, Reassembler.segments, List.forall_mem_map]
  refine forall₂_congr fun entry hentry => ?_
  rw [chunkEnd_eq (hr.onWire _ (List.mem_map_of_mem hentry))]

theorem Reassembler.contradictsFinal_eq_false (r : Reassembler) (offset : ℕ) :
    r.contradictsFinal offset = false ↔
      ∀ finalOffset, r.finalOffset = some finalOffset → finalOffset = offset := by
  cases h : r.finalOffset <;> simp [Reassembler.contradictsFinal, h]

theorem Reassembler.WellFormed.admitsEnd_iff (hr : r.WellFormed) (stop : ℕ) (fin : Bool) :
    r.AdmitsEnd stop fin ↔
      (r.finalOffset.any (fun finalOffset => decide (stop > finalOffset)) = false ∧
        (fin && (r.contradictsFinal stop || decide (stop < r.nextOffset) || r.hasChunkPast stop)) = false) := by
  have hbeyond : r.finalOffset.any (fun finalOffset => decide (stop > finalOffset)) = false ↔
      ∀ finalOffset, r.finalOffset = some finalOffset → stop ≤ finalOffset := by
    cases h : r.finalOffset <;> simp
  unfold Reassembler.AdmitsEnd
  rw [hbeyond, ← r.contradictsFinal_eq_false, ← hr.hasChunkPast_eq_false]
  cases fin <;> simp [and_assoc]

theorem Reassembler.WellFormed.setFinalOffset_eq_ok (hr : r.WellFormed) {next : Reassembler}
    {finalOffset : ℕ} :
    r.setFinalOffset finalOffset = .ok next ↔
      next = { r with finalOffset := some finalOffset } ∧ finalOffset ≤ maxWireOffset ∧
        r.AdmitsEnd finalOffset true := by
  have hknown : r.AdmitsEnd finalOffset true ↔
      r.contradictsFinal finalOffset = false ∧ r.nextOffset ≤ finalOffset ∧
        r.hasChunkPast finalOffset = false := by
    unfold Reassembler.AdmitsEnd
    rw [r.contradictsFinal_eq_false, hr.hasChunkPast_eq_false]
    refine ⟨fun h => h.2 rfl, fun h => ⟨fun other hother => (h.1 other hother).ge, fun _ => h⟩⟩
  rw [hknown]
  unfold Reassembler.setFinalOffset
  split_ifs with hcheck
  · simp only [Bool.or_eq_true, decide_eq_true_eq] at hcheck
    simp only [false_iff, not_and, Bool.not_eq_false]
    intro _ hwire hfinal hnext
    rcases hcheck with ((h | h) | h) | h
    · omega
    · simp [hfinal] at h
    · omega
    · exact h
  · simp only [Bool.or_eq_true, decide_eq_true_eq, not_or, not_lt, Bool.not_eq_true, gt_iff_lt] at hcheck
    simp only [Except.ok.injEq]
    exact ⟨fun h => ⟨h.symm, hcheck.1.1.1, hcheck.1.1.2, hcheck.1.2, hcheck.2⟩, fun h => h.1.symm⟩

theorem Reassembler.WellFormed.finishDuplicate_effect (hr : r.WellFormed)
    (hheld : charge.heldOf budget.identity ≤ budget.used)
    (hadmits : r.AdmitsEnd (stop record) fin) (hwire : stop record ≤ maxWireOffset)
    (hcovered : ∀ i, r.nextOffset ≤ i → elementAt record i ≠ none → firstElement r.segments i ≠ none) :
    InsertEffect r budget charge record fin (r.finishDuplicate budget (stop record) fin charge) := by
  have haccepted := hr.accepted_of_covered hadmits hwire hcovered
  have hbalanced : Balanced budget (charge.drop budget) (r.charged + charge.heldOf budget.identity)
      r.charged := (RecoveryCharge.drop_balanced hheld).of_part rfl
  unfold Reassembler.finishDuplicate
  cases fin with
  | false => exact .accepted haccepted hbalanced
  | true =>
    simp only [if_true]
    cases hset : r.setFinalOffset (stop record) with
    | error error => exact .refused error
    | ok next =>
      rw [(hr.setFinalOffset_eq_ok.mp hset).1]
      exact .accepted haccepted hbalanced

theorem Reassembler.WellFormed.apart_of_not_overlaps (hr : r.WellFormed)
    (hover : r.overlaps record.1 (stop record) = false) {segment : ℕ × List UInt8}
    (hsegment : segment ∈ r.segments) : Apart segment record := by
  obtain ⟨entry, hentry, rfl⟩ := List.mem_map.mp hsegment
  unfold Reassembler.overlaps at hover
  by_cases hbelow : entry.1 < stop record
  · cases hlast : r.chunks.lastBelow (stop record) with
    | none =>
      have := OrderedMap.lastBelow_eq_none hlast hentry
      omega
    | some last =>
      obtain ⟨hmem, _, hgreatest⟩ := OrderedMap.lastBelow_eq_some hlast
      have hle := hgreatest entry hentry hbelow
      have hlastSegment : chunkSegment last ∈ r.segments := List.mem_map_of_mem hmem
      have hend := chunkEnd_eq (hr.onWire _ hlastSegment)
      simp only [hlast, Option.any_some, hend, gt_iff_lt, decide_eq_false_iff_not, not_lt] at hover
      exact Or.inl ((hr.stop_le_stop hentry hmem hle).trans hover)
  · exact Or.inr (not_lt.mp hbelow)

theorem Reassembler.clipConsumed_spec {offset : ℕ} {bytes : List UInt8} {clipped : ℕ × List UInt8}
    (hbytes : bytes ≠ []) (hpast : r.nextOffset < stop (offset, bytes))
    (h : r.clipConsumed offset bytes = .ok clipped) :
    r.nextOffset ≤ clipped.1 ∧ clipped.1 < stop clipped ∧ stop clipped = stop (offset, bytes) ∧
      ∀ i, elementAt clipped i = if r.nextOffset ≤ i then elementAt (offset, bytes) i else none := by
  have hlength := List.length_pos_iff.mpr hbytes
  unfold Reassembler.clipConsumed at h
  simp only [stop] at hpast
  split_ifs at h with hbefore
  · cases hvalid : r.validateConsumedOverlap offset r.nextOffset bytes with
    | error error => simp [hvalid] at h
    | ok value =>
      simp only [hvalid, Except.ok.injEq] at h
      subst h
      refine ⟨le_rfl, ?_, ?_, elementAt_drop (offset, bytes) hbefore.le⟩ <;>
        simp only [stop, List.length_drop] <;> omega
  · cases h
    refine ⟨not_lt.mp hbefore, by simp only [stop]; omega, rfl, fun i => ?_⟩
    split_ifs with hi
    · rfl
    · exact (elementAt_eq_none_iff _ _).mpr (Or.inl (by dsimp only; omega))

private theorem charged_of_perm {chunks : OrderedMap ℕ BufferedChunk} {added : List (ℕ × BufferedChunk)}
    {bytes stop : ℕ} (hperm : chunks.entries.Perm (r.chunks.entries ++ added)) :
    (r.withAdded chunks bytes stop fin).charged =
      r.charged + (added.map (fun entry => entry.2.charge.heldOf r.memoryBudget)).sum := by
  unfold Reassembler.charged Reassembler.withAdded
  rw [(hperm.map _).sum_eq, List.map_append, List.sum_append]

section Unread

variable {offset : ℕ} {bytes : List UInt8} {fin : Bool}

theorem Reassembler.WellFormed.onWire_below (hr : r.WellFormed) (bound : ℕ) :
    ∀ entry ∈ r.chunks.below bound, stop (chunkSegment entry) ≤ maxWireOffset :=
  fun _ hentry => hr.onWire _ (List.mem_map_of_mem (List.mem_filter.mp hentry).1)

variable {record : ℕ × List UInt8}

theorem Reassembler.WellFormed.fresh_of_mem_openGaps (hr : r.WellFormed)
    {gap : ℕ × ℕ} (hgap : gap ∈ openGaps r.segments record) {entry : ℕ × BufferedChunk}
    (hentry : entry ∈ r.chunks.entries) : entry.1 ≠ gap.1 := by
  intro heq
  have hmem : chunkSegment entry ∈ r.segments := List.mem_map_of_mem hentry
  have hopen := (firstElement_eq_none_iff _ _).mp (open_of_mem_openGaps r.segments_sorted hgap) _ hmem
  have hnonempty := hr.nonempty _ hmem
  have hstart : (chunkSegment entry).1 = gap.1 := heq
  have := (elementAt_eq_none_iff _ _).mp hopen
  omega

variable {clipped : ℕ × List UInt8}

theorem Reassembler.WellFormed.accepted_of_gaps (hr : r.WellFormed)
    (hadmits : r.AdmitsEnd (stop record) fin) (hwire : stop record ≤ maxWireOffset)
    (hstart : r.nextOffset ≤ clipped.1) (hstop : stop clipped = stop record)
    (hclip : ∀ i, elementAt clipped i = if r.nextOffset ≤ i then elementAt record i else none)
    {filled : OrderedMap ℕ BufferedChunk} {identity : ℕ}
    (hperm : filled.entries.Perm (r.chunks.entries ++
      (openGaps r.segments clipped).map (gapEntry clipped.1 clipped.2 identity))) :
    Accepted r (r.withAdded filled (totalLength (openGaps r.segments clipped)) (stop record) fin)
      record fin := by
  have hpieces : ((openGaps r.segments clipped).map (gapEntry clipped.1 clipped.2 identity)).map chunkSegment =
      pieces r.segments clipped := by
    rw [pieces, List.map_map]
    refine List.map_congr_left fun gap hgap => ?_
    have hbounds := bounds_of_mem_openGaps hgap
    exact chunkSegment_gapEntry identity hbounds.1 hbounds.2.1.le
  have hsegments : (filled.entries.map chunkSegment).Perm (r.segments ++ pieces r.segments clipped) := by
    rw [← hpieces, Reassembler.segments, ← List.map_append]
    exact hperm.map _
  rw [totalLength, ← sum_length_pieces]
  refine hr.withAdded hadmits hwire filled _ hsegments pieces_apart
    (fun segment hsegment piece hpiece =>
      apart_of_mem_pieces r.segments_sorted hsegment (hr.nonempty segment hsegment) hpiece)
    (fun piece hpiece => ?_) (fun i => ?_)
  · have hbounds := bounds_of_mem_pieces hpiece
    rw [← hstop]
    exact ⟨hstart.trans hbounds.1, hbounds.2⟩
  · rw [firstElement_append_pieces r.segments_sorted, hclip]

private theorem sum_heldOf_gapEntries (list : List (ℕ × ℕ)) (offset : ℕ) (bytes : List UInt8) (identity : ℕ) :
    ((list.map (gapEntry offset bytes identity)).map
      (fun entry => entry.2.charge.heldOf identity)).sum = totalLength list := by
  rw [List.map_map, totalLength]
  congr 1
  refine List.map_congr_left fun gap _ => ?_
  simp [gapEntry, RecoveryCharge.heldOf, RecoveryCharge.belongsTo]

private theorem balanced_of_scratch {lent : RecoveryMemoryBudget} {reserved kept held : ℕ}
    (hheld : charge.heldOf budget.identity ≤ budget.used) (hlent : Balanced budget lent 0 reserved)
    (hkept : kept ≤ reserved) :
    Balanced budget (charge.drop (RecoveryCharge.drop ⟨budget.identity, reserved - kept⟩ lent))
      (held + charge.heldOf budget.identity) (held + kept) := by
  have hscratch : RecoveryCharge.heldOf ⟨budget.identity, reserved - kept⟩ lent.identity = reserved - kept := by
    simp [RecoveryCharge.heldOf, RecoveryCharge.belongsTo, hlent.identity]
  have hused := hlent.used
  have hback := RecoveryCharge.drop_balanced (hscratch.trans_le (by omega : reserved - kept ≤ lent.used))
  have hidentity := hback.identity.trans hlent.identity
  have hbackUsed := hback.used
  rw [hscratch] at hbackUsed
  have hcover : charge.heldOf (RecoveryCharge.drop ⟨budget.identity, reserved - kept⟩ lent).identity ≤
      (RecoveryCharge.drop ⟨budget.identity, reserved - kept⟩ lent).used := by
    rw [hidentity]
    omega
  have hdrop := RecoveryCharge.drop_balanced hcover
  have hall := hlent.trans (hback.trans hdrop)
  refine ⟨hall.identity, hall.limit, ?_, hall.within, hall.sound⟩
  have := hall.used
  rw [hscratch, hidentity] at this
  omega

variable (fin) in
theorem Reassembler.WellFormed.fillGaps_of_reserved (hr : r.WellFormed) (charge : RecoveryCharge)
    (hstop : stop clipped = stop record) {scan : OverlapScan}
    {reserved : ℕ} {scratch : RecoveryCharge} {lent : RecoveryMemoryBudget} (hadded : scan.added = totalLength (openGaps r.segments clipped))
    (hreserved : (checkedMul scan.gapCount rangeSize).bind (checkedAdd scan.added) = some reserved)
    (hscratch : RecoveryCharge.reserve budget reserved = .ok (scratch, lent)) :
    ∃ filled, r.fillGaps budget clipped.1 (stop record) clipped.2 fin charge scan =
        (.ok (), r.withAdded filled scan.added (stop record) fin,
          charge.drop (RecoveryCharge.drop ⟨budget.identity, reserved - scan.added⟩ lent)) ∧
      scan.added ≤ reserved ∧
      filled.entries.Perm (r.chunks.entries ++
        (openGaps r.segments clipped).map (gapEntry clipped.1 clipped.2 budget.identity)) := by
  obtain ⟨rfl, -, -⟩ := RecoveryCharge.reserve_eq_ok hscratch
  have hcovers : scan.added ≤ reserved := by
    unfold checkedMul checkedAdd at hreserved
    split_ifs at hreserved <;> simp at hreserved
    omega
  have hgaps : collectGaps clipped.1 (stop record) clipped.1 (r.chunks.below (stop record)) =
      .ok (openGaps r.segments clipped) := by
    rw [collectGaps_eq le_rfl (hr.onWire_below _), r.map_below, openGaps, hstop]
  obtain ⟨filled, hfilled, hperm⟩ := insertGaps_spec clipped.2 ⟨budget.identity, reserved⟩
    (fun gap hgap => ⟨(bounds_of_mem_openGaps hgap).1, (bounds_of_mem_openGaps hgap).2.1⟩)
    openGaps_ordered (fun gap hgap entry hentry => hr.fresh_of_mem_openGaps hgap hentry)
    (hadded.symm.trans_le hcovers)
  refine ⟨filled, ?_, hcovers, hperm⟩
  unfold Reassembler.fillGaps
  simp only [hreserved, hscratch, vecCapacity, ne_eq, not_true_eq_false, if_false, hgaps, hfilled]
  rw [hadded]
  rfl

theorem Reassembler.WellFormed.fillGaps_effect (hr : r.WellFormed)
    (hid : budget.identity = r.memoryBudget) (hheld : charge.heldOf budget.identity ≤ budget.used)
    (hadmits : r.AdmitsEnd (stop record) fin) (hwire : stop record ≤ maxWireOffset)
    (hstart : r.nextOffset ≤ clipped.1) (hstop : stop clipped = stop record)
    (hclip : ∀ i, elementAt clipped i = if r.nextOffset ≤ i then elementAt record i else none)
    {scan : OverlapScan} (hadded : scan.added = totalLength (openGaps r.segments clipped)) :
    InsertEffect r budget charge record fin
      (r.fillGaps budget clipped.1 (stop record) clipped.2 fin charge scan) := by
  cases hreserved : (checkedMul scan.gapCount rangeSize).bind (checkedAdd scan.added) with
  | none =>
    simp only [Reassembler.fillGaps, hreserved]
    exact .refused _
  | some reserved =>
    cases hscratch : RecoveryCharge.reserve budget reserved with
    | error error =>
      simp only [Reassembler.fillGaps, hreserved, hscratch]
      exact .refused _
    | ok granted =>
      obtain ⟨filled, hfilled, hcovers, hperm⟩ :=
        hr.fillGaps_of_reserved fin charge hstop hadded hreserved hscratch
      rw [hfilled]
      refine .accepted (hadded ▸ hr.accepted_of_gaps hadmits hwire hstart hstop hclip hperm) ?_
      have hcharged : (r.withAdded filled scan.added (stop record) fin).charged = r.charged + scan.added := by
        rw [charged_of_perm hperm, ← hid, sum_heldOf_gapEntries, hadded]
      rw [hcharged]
      exact balanced_of_scratch hheld (RecoveryCharge.reserve_balanced hscratch) hcovers

theorem Reassembler.WellFormed.insertOverlappingRecord_effect (hr : r.WellFormed)
    (hid : budget.identity = r.memoryBudget) (hheld : charge.heldOf budget.identity ≤ budget.used)
    (hadmits : r.AdmitsEnd (stop record) fin) (hwire : stop record ≤ maxWireOffset)
    (hstart : r.nextOffset ≤ clipped.1) (hstop : stop clipped = stop record)
    (hclip : ∀ i, elementAt clipped i = if r.nextOffset ≤ i then elementAt record i else none) :
    InsertEffect r budget charge record fin
      (r.insertOverlappingRecord budget clipped.1 (stop record) clipped.2 fin charge) := by
  unfold Reassembler.insertOverlappingRecord
  cases hscan : scanOverlaps clipped.1 (stop record) clipped.2 ⟨0, 0, clipped.1⟩
      (r.chunks.below (stop record)) with
  | error error => exact .refused _
  | ok scan =>
    have hcounts := scanOverlaps_counts (le_refl clipped.1) (hr.onWire_below _) hscan
    rw [r.map_below, ← hstop, zero_add, zero_add] at hcounts
    simp only
    split_ifs with hnone hroom
    · refine hr.finishDuplicate_effect hheld hadmits hwire fun i hi hrecord => ?_
      have hnil : openGaps r.segments clipped = [] :=
        List.length_eq_zero_iff.mp (hcounts.1.symm.trans hnone)
      refine covered_of_openGaps_nil r.segments_sorted hnil ?_
      rwa [hclip, if_pos hi]
    · exact .refused _
    · exact hr.fillGaps_effect hid hheld hadmits hwire hstart hstop hclip hcounts.2

theorem RecoveryCharge.growUnless_eq_ok {paid : RecoveryCharge} {after : RecoveryMemoryBudget}
    {precharged : Bool} {retainedBytes : ℕ}
    (h : charge.growUnless precharged budget retainedBytes = .ok (paid, after)) :
    paid.budget = charge.budget ∧ Balanced budget after charge.bytes paid.bytes := by
  unfold growUnless at h
  split_ifs at h
  · cases h
    exact ⟨rfl, Balanced.refl _ _⟩
  · refine ⟨?_, RecoveryCharge.grow_balanced h⟩
    rw [(RecoveryCharge.grow_eq_ok h).1]

private theorem fresh_of_apart (hr : r.WellFormed)
    (hnonempty : clipped.1 < stop clipped) (hapart : ∀ segment ∈ r.segments, Apart segment clipped) :
    ∀ entry ∈ r.chunks.entries, entry.1 ≠ clipped.1 := by
  intro entry hentry heq
  have hmem : chunkSegment entry ∈ r.segments := List.mem_map_of_mem hentry
  have hchunk := hr.nonempty _ hmem
  have hkey : (chunkSegment entry).1 = clipped.1 := heq
  rcases hapart _ hmem with h | h <;> omega

private theorem insert_perm_append (paid : RecoveryCharge)
    (hfresh : ∀ entry ∈ r.chunks.entries, entry.1 ≠ clipped.1) :
    (r.chunks.insert clipped.1 ⟨clipped.2, paid⟩).entries.Perm
      (r.chunks.entries ++ [(clipped.1, ⟨clipped.2, paid⟩)]) :=
  (OrderedMap.insertEntries_perm _ _ _ hfresh).trans (List.perm_append_singleton _ _).symm

theorem Reassembler.WellFormed.accepted_of_apart (hr : r.WellFormed)
    (hadmits : r.AdmitsEnd (stop record) fin) (hwire : stop record ≤ maxWireOffset)
    (hstart : r.nextOffset ≤ clipped.1) (hnonempty : clipped.1 < stop clipped)
    (hstop : stop clipped = stop record)
    (hclip : ∀ i, elementAt clipped i = if r.nextOffset ≤ i then elementAt record i else none)
    (hapart : ∀ segment ∈ r.segments, Apart segment clipped) {chunks : OrderedMap ℕ BufferedChunk}
    {paid : RecoveryCharge}
    (hperm : chunks.entries.Perm (r.chunks.entries ++ [(clipped.1, ⟨clipped.2, paid⟩)])) :
    Accepted r (r.withAdded chunks clipped.2.length (stop record) fin) record fin := by
  have haccepted := hr.withAdded hadmits hwire chunks [clipped]
    (by simpa [Reassembler.segments, chunkSegment] using hperm.map chunkSegment)
    (List.pairwise_singleton _ _)
    (fun segment hsegment piece hpiece => List.mem_singleton.mp hpiece ▸ hapart segment hsegment)
    (fun piece hpiece => List.mem_singleton.mp hpiece ▸ ⟨hstart, hnonempty, hstop.le⟩)
    (fun i => by rw [firstElement_append_singleton, hclip])
  simpa using haccepted

theorem Reassembler.WellFormed.insertUnread_effect (hr : r.WellFormed)
    {retainedBytes : ℕ} {precharged : Bool}
    (hid : budget.identity = r.memoryBudget) (hown : charge.belongsTo r.memoryBudget = true)
    (hheld : charge.heldOf budget.identity ≤ budget.used)
    (hadmits : r.AdmitsEnd (stop record) fin) (hwire : stop record ≤ maxWireOffset)
    (hstart : r.nextOffset ≤ clipped.1) (hnonempty : clipped.1 < stop clipped)
    (hstop : stop clipped = stop record)
    (hclip : ∀ i, elementAt clipped i = if r.nextOffset ≤ i then elementAt record i else none) :
    InsertEffect r budget charge record fin
      (r.insertUnread budget clipped.1 (stop record) clipped.2 retainedBytes fin charge precharged) := by
  unfold Reassembler.insertUnread
  cases hover : r.overlaps clipped.1 (stop record) with
  | true => exact hr.insertOverlappingRecord_effect hid hheld hadmits hwire hstart hstop hclip
  | false =>
    simp only [Bool.false_eq_true, if_false]
    by_cases hbytes : saturatingAdd r.bytes clipped.2.length > r.maxBytes
    · rw [if_pos hbytes]
      exact .refused _
    · rw [if_neg hbytes]
      by_cases hchunks : r.chunks.length ≥ r.maxChunks
      · rw [if_pos hchunks]
        exact .refused _
      · rw [if_neg hchunks]
        cases hgrow : charge.growUnless precharged budget retainedBytes with
        | error error => exact .refused _
        | ok granted =>
          obtain ⟨paid, after⟩ := granted
          obtain ⟨hpaid, hbalanced⟩ := RecoveryCharge.growUnless_eq_ok hgrow
          have hapart : ∀ segment ∈ r.segments, Apart segment clipped :=
            fun segment hsegment => hr.apart_of_not_overlaps (hstop ▸ hover) hsegment
          have hperm := insert_perm_append paid (fresh_of_apart hr hnonempty hapart)
          refine .accepted (hr.accepted_of_apart hadmits hwire hstart hnonempty hstop hclip hapart hperm) ?_
          have hpaidOwn : paid.belongsTo r.memoryBudget = true := by
            rwa [RecoveryCharge.belongsTo, hpaid]
          rw [← Reassembler.withAdded, charged_of_perm hperm, hid, RecoveryCharge.heldOf_own hown]
          simp only [List.map_cons, List.map_nil, List.sum_singleton, RecoveryCharge.heldOf_own hpaidOwn]
          have hused := hbalanced.used
          exact ⟨hbalanced.identity, hbalanced.limit, by omega, hbalanced.within, hbalanced.sound⟩

end Unread

theorem Reassembler.WellFormed.insertRecordWithReservation_effect (hr : r.WellFormed)
    (hid : budget.identity = r.memoryBudget) (hheld : charge.heldOf budget.identity ≤ budget.used)
    (offset : ℕ) (bytes : List UInt8) (fin precharged : Bool) :
    InsertEffect r budget charge (offset, bytes) fin
      (r.insertRecordWithReservation budget offset bytes fin charge precharged) := by
  unfold Reassembler.insertRecordWithReservation
  cases hrefuse : !charge.belongsTo r.memoryBudget || (precharged && decide (charge.bytes < bytes.length)) with
  | true => exact .refused _
  | false =>
    simp only [Bool.false_eq_true, if_false]
    have hown : charge.belongsTo r.memoryBudget = true := by simp_all
    cases hend : checkedEnd offset bytes.length with
    | error error => exact .refused _
    | ok last =>
      obtain ⟨rfl, hwire⟩ := checkedEnd_eq_ok hend
      simp only
      by_cases hbytes : bytes = []
      · rw [if_pos hbytes]
        exact .refused _
      rw [if_neg hbytes]
      cases hbeyond : r.finalOffset.any (fun finalOffset => decide (offset + bytes.length > finalOffset)) with
      | true => exact .refused _
      | false =>
        simp only [Bool.false_eq_true, if_false]
        cases hfinal : fin && (r.contradictsFinal (offset + bytes.length) ||
            decide (offset + bytes.length < r.nextOffset) || r.hasChunkPast (offset + bytes.length)) with
        | true => exact .refused _
        | false =>
          simp only [Bool.false_eq_true, if_false]
          have hadmits : r.AdmitsEnd (stop (offset, bytes)) fin :=
            (hr.admitsEnd_iff _ _).mpr ⟨hbeyond, hfinal⟩
          by_cases hpast : offset + bytes.length ≤ r.nextOffset
          · rw [if_pos hpast]
            cases hvalid : r.validateConsumedOverlap offset (offset + bytes.length) bytes with
            | error error => exact .refused _
            | ok value =>
              refine hr.finishDuplicate_effect hheld hadmits hwire fun i hi hrecord => ?_
              refine absurd ((elementAt_eq_none_iff _ _).mpr (Or.inr ?_)) hrecord
              exact hpast.trans hi
          · rw [if_neg hpast]
            cases hclip : r.clipConsumed offset bytes with
            | error error => exact .refused _
            | ok clipped =>
              obtain ⟨hstart, hnonempty, hstop, helements⟩ :=
                Reassembler.clipConsumed_spec hbytes (not_le.mp hpast) hclip
              exact hr.insertUnread_effect hid hown hheld hadmits hwire hstart hnonempty hstop helements

theorem Reassembler.WellFormed.insertRecord_effect (hr : r.WellFormed)
    (hid : budget.identity = r.memoryBudget) (offset : ℕ) (bytes : List UInt8) (fin : Bool) :
    InsertEffect r budget ⟨budget.identity, 0⟩ (offset, bytes) fin
      (r.insertRecord budget offset bytes fin) := by
  unfold Reassembler.insertRecord
  cases hreserve : RecoveryCharge.reserve budget 0 with
  | error error =>
    have hrefused : InsertEffect r budget ⟨budget.identity, 0⟩ (offset, bytes) fin
        (.error error, r, RecoveryCharge.drop ⟨budget.identity, 0⟩ budget) := .refused error
    rwa [RecoveryCharge.drop_empty] at hrefused
  | ok granted =>
    obtain ⟨charge, lent⟩ := granted
    obtain ⟨rfl, rfl, -⟩ := RecoveryCharge.reserve_eq_ok hreserve
    exact hr.insertRecordWithReservation_effect hid (by simp) offset bytes fin false

end Quicp
