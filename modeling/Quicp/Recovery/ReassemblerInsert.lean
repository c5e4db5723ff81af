import Quicp.Library.SegmentGaps
import Quicp.Recovery.Reassembler

/-!
# What an insertion does to the reassembler

The buffered chunks are apart segments of the stream. An accepted record adds exactly the pieces of it that lie at or
past the read position and were still open, so each position keeps its first writer.
-/

namespace Quicp

open Segment

def chunkSegment (entry : ℕ × BufferedChunk) : ℕ × List UInt8 := (entry.1, entry.2.bytes)

def Reassembler.segments (r : Reassembler) : List (ℕ × List UInt8) := r.chunks.entries.map chunkSegment

/-- The bytes of its own budget that the buffered chunks hold. -/
def Reassembler.charged (r : Reassembler) : ℕ :=
  (r.chunks.entries.map (fun entry => entry.2.charge.heldOf r.memoryBudget)).sum

structure Reassembler.WellFormed (r : Reassembler) : Prop where
  apart : r.segments.Pairwise Apart
  nonempty : ∀ segment ∈ r.segments, segment.1 < stop segment
  onWire : ∀ segment ∈ r.segments, stop segment ≤ maxWireOffset
  counted : r.bytes = (r.segments.map (remaining r.nextOffset)).sum
  nextOnWire : r.nextOffset ≤ maxWireOffset
  finalPast : ∀ finalOffset, r.finalOffset = some finalOffset →
    r.nextOffset ≤ finalOffset ∧ ∀ segment ∈ r.segments, stop segment ≤ finalOffset

theorem Reassembler.withBudget_wellFormed (maxBytes memoryBudget : ℕ) :
    (Reassembler.withBudget maxBytes memoryBudget).WellFormed where
  apart := List.Pairwise.nil
  nonempty := by simp [segments, withBudget, OrderedMap.empty]
  onWire := by simp [segments, withBudget, OrderedMap.empty]
  counted := rfl
  nextOnWire := Nat.zero_le _
  finalPast := by simp [withBudget]

theorem Reassembler.segments_sorted (r : Reassembler) :
    r.segments.Pairwise (fun left right => left.1 < right.1) :=
  List.pairwise_map.mpr r.chunks.sorted

theorem Reassembler.WellFormed.stop_le_stop {r : Reassembler} (hr : r.WellFormed)
    {left right : ℕ × BufferedChunk} (hleft : left ∈ r.chunks.entries) (hright : right ∈ r.chunks.entries)
    (hle : left.1 ≤ right.1) : stop (chunkSegment left) ≤ stop (chunkSegment right) := by
  rcases hle.lt_or_eq with hlt | heq
  · have hleftMem : chunkSegment left ∈ r.segments := List.mem_map_of_mem hleft
    have hrightMem : chunkSegment right ∈ r.segments := List.mem_map_of_mem hright
    have hkeys : (chunkSegment left).1 < (chunkSegment right).1 := hlt
    have hne : chunkSegment left ≠ chunkSegment right := fun h => hkeys.ne (congrArg Prod.fst h)
    have hnonempty := hr.nonempty _ hrightMem
    rcases hr.apart.forall hleftMem hrightMem hne with hapart | hapart <;> omega
  · rw [OrderedMap.eq_of_key_eq hleft hright heq]

theorem Reassembler.map_below (r : Reassembler) (bound : ℕ) :
    (r.chunks.below bound).map chunkSegment =
      r.segments.filter (fun segment => decide (segment.1 < bound)) := by
  rw [OrderedMap.below, segments, List.filter_map]
  rfl

section Scans

variable {entries : List (ℕ × BufferedChunk)}

theorem checkedEnd_chunk {entry : ℕ × BufferedChunk}
    (h : stop (chunkSegment entry) ≤ maxWireOffset) :
    checkedEnd entry.1 entry.2.bytes.length = .ok (stop (chunkSegment entry)) :=
  checkedEnd_of_le h

theorem chunkEnd_eq {entry : ℕ × BufferedChunk} (h : stop (chunkSegment entry) ≤ maxWireOffset) :
    chunkEnd entry = stop (chunkSegment entry) := by
  unfold chunkEnd
  rw [checkedEnd_chunk h]

theorem collectGaps_eq {offset limit cursor : ℕ} (hcursor : offset ≤ cursor)
    (hwire : ∀ entry ∈ entries, stop (chunkSegment entry) ≤ maxWireOffset) :
    collectGaps offset limit cursor entries = .ok (gaps limit cursor (entries.map chunkSegment)) := by
  induction entries generalizing cursor with
  | nil => rfl
  | cons entry rest ih =>
    obtain ⟨existingOffset, existing⟩ := entry
    have hend := checkedEnd_chunk (hwire _ List.mem_cons_self)
    have hrest := fun entry hentry => hwire entry (List.mem_cons_of_mem _ hentry)
    have hlength : existingOffset ≤ stop (chunkSegment (existingOffset, existing)) := Nat.le_add_right _ _
    simp only [collectGaps, hend, List.map_cons]
    by_cases hskip : stop (chunkSegment (existingOffset, existing)) ≤ offset
    · have hsame : max cursor (min limit (stop (chunkSegment (existingOffset, existing)))) = cursor := by
        omega
      have hbefore : (chunkSegment (existingOffset, existing)).1 ≤ cursor := hlength.trans (hskip.trans hcursor)
      rw [if_pos hskip, gaps_cons_of_le hbefore, hsame]
      exact ih hcursor hrest
    · rw [if_neg hskip, ih (hcursor.trans (le_max_left _ _)) hrest]
      simp only
      by_cases hgap : cursor < existingOffset
      · rw [if_pos (lt_max_of_lt_right hgap), gaps_cons_of_lt hgap,
          max_eq_right (by omega : offset ≤ existingOffset)]
        rfl
      · rw [if_neg (by omega), gaps_cons_of_le (not_lt.mp hgap)]

def totalLength (list : List (ℕ × ℕ)) : ℕ := (list.map (fun gap => gap.2 - gap.1)).sum

theorem OverlapScan.countGap_eq_ok {scan counted : OverlapScan} {offset : ℕ}
    (h : scan.countGap offset = .ok counted) :
    counted = if scan.cursor < offset then
      ⟨scan.gapCount + 1, scan.added + (offset - scan.cursor), scan.cursor⟩ else scan := by
  unfold countGap checkedAdd at h
  split_ifs at h ⊢ <;> simp_all

theorem scanOverlaps_counts {offset limit : ℕ} {bytes : List UInt8} {scan result : OverlapScan}
    (hcursor : offset ≤ scan.cursor)
    (hwire : ∀ entry ∈ entries, stop (chunkSegment entry) ≤ maxWireOffset)
    (h : scanOverlaps offset limit bytes scan entries = .ok result) :
    result.gapCount = scan.gapCount + (gaps limit scan.cursor (entries.map chunkSegment)).length ∧
      result.added = scan.added + totalLength (gaps limit scan.cursor (entries.map chunkSegment)) := by
  induction entries generalizing scan with
  | nil =>
    rw [OverlapScan.countGap_eq_ok h, List.map_nil, gaps]
    split_ifs <;> simp [totalLength]
  | cons entry rest ih =>
    obtain ⟨existingOffset, existing⟩ := entry
    have hend := checkedEnd_chunk (hwire _ List.mem_cons_self)
    have hrest := fun entry hentry => hwire entry (List.mem_cons_of_mem _ hentry)
    have hlength : existingOffset ≤ stop (chunkSegment (existingOffset, existing)) := Nat.le_add_right _ _
    simp only [scanOverlaps, hend] at h
    simp only [List.map_cons]
    by_cases hskip : stop (chunkSegment (existingOffset, existing)) ≤ offset
    · have hsame : max scan.cursor (min limit (stop (chunkSegment (existingOffset, existing)))) =
          scan.cursor := by omega
      have hbefore : (chunkSegment (existingOffset, existing)).1 ≤ scan.cursor :=
        hlength.trans (hskip.trans hcursor)
      rw [if_pos hskip] at h
      rw [gaps_cons_of_le hbefore, hsame]
      exact ih hcursor hrest h
    · rw [if_neg hskip] at h
      cases hcount : scan.countGap (max offset existingOffset) with
      | error error => simp [hcount] at h
      | ok counted =>
        simp only [hcount] at h
        split_ifs at h with hagree
        have hcounted := OverlapScan.countGap_eq_ok hcount
        have hsame : counted.cursor = scan.cursor := by
          rw [hcounted]
          split_ifs <;> rfl
        have hcursor' : offset ≤ max counted.cursor (min limit (stop (chunkSegment (existingOffset, existing)))) := by
          omega
        have hlater := ih hcursor' hrest h
        simp only [hsame] at hlater
        by_cases hgap : scan.cursor < existingOffset
        · rw [if_pos (lt_max_of_lt_right hgap), max_eq_right (by omega : offset ≤ existingOffset)] at hcounted
          rw [gaps_cons_of_lt hgap, hlater.1, hlater.2, hcounted]
          simp only [chunkSegment, totalLength, List.map_cons, List.sum_cons, List.length_cons]
          omega
        · rw [if_neg (by omega)] at hcounted
          rw [gaps_cons_of_le (not_lt.mp hgap), hlater.1, hlater.2, hcounted]
          exact ⟨rfl, rfl⟩

end Scans

section Fill

variable {offset : ℕ} {bytes : List UInt8}

def gapEntry (offset : ℕ) (bytes : List UInt8) (budget : ℕ) (gap : ℕ × ℕ) : ℕ × BufferedChunk :=
  (gap.1, ⟨slice bytes (gap.1 - offset) (gap.2 - offset), ⟨budget, gap.2 - gap.1⟩⟩)

theorem chunkSegment_gapEntry (budget : ℕ) {gap : ℕ × ℕ} (hstart : offset ≤ gap.1) (hgap : gap.1 ≤ gap.2) :
    chunkSegment (gapEntry offset bytes budget gap) = cut (offset, bytes) gap := by
  have hlength : gap.2 - offset - (gap.1 - offset) = gap.2 - gap.1 := by omega
  simp only [chunkSegment, gapEntry, slice, cut, hlength]

theorem insertGaps_spec (bytes : List UInt8) {list : List (ℕ × ℕ)} {chunks : OrderedMap ℕ BufferedChunk}
    (scratch : RecoveryCharge) (hgaps : ∀ gap ∈ list, offset ≤ gap.1 ∧ gap.1 < gap.2)
    (hordered : list.Pairwise (fun left right => left.2 ≤ right.1))
    (hfresh : ∀ gap ∈ list, ∀ entry ∈ chunks.entries, entry.1 ≠ gap.1)
    (hcharge : totalLength list ≤ scratch.bytes) :
    ∃ filled, insertGaps offset bytes chunks scratch list =
        (.ok (), filled, ⟨scratch.budget, scratch.bytes - totalLength list⟩) ∧
      filled.entries.Perm (chunks.entries ++ list.map (gapEntry offset bytes scratch.budget)) := by
  induction list generalizing chunks scratch with
  | nil => exact ⟨chunks, by simp [insertGaps, totalLength], by simp⟩
  | cons gap rest ih =>
    have hbounds := hgaps gap List.mem_cons_self
    have hordered' := List.pairwise_cons.mp hordered
    have hlength : gap.2 - offset - (gap.1 - offset) = gap.2 - gap.1 := by omega
    have htotal : totalLength (gap :: rest) = (gap.2 - gap.1) + totalLength rest := by simp [totalLength]
    have hfreshHead := hfresh gap List.mem_cons_self
    have hsplit : scratch.split (vecCapacity (gap.2 - offset - (gap.1 - offset))) = .ok
        (⟨scratch.budget, scratch.bytes - (gap.2 - gap.1)⟩, ⟨scratch.budget, gap.2 - gap.1⟩) := by
      rw [vecCapacity, hlength]
      exact RecoveryCharge.split_of_le (by omega)
    have hfresh' : ∀ later ∈ rest, ∀ entry ∈ (chunks.insert gap.1
        (gapEntry offset bytes scratch.budget gap).2).entries, entry.1 ≠ later.1 := by
      intro later hlater entry hentry
      have horder := hordered'.1 later hlater
      rcases (OrderedMap.mem_insert hfreshHead).mp hentry with rfl | hentry
      · change gap.1 ≠ later.1
        omega
      · exact hfresh later (List.mem_cons_of_mem _ hlater) entry hentry
    obtain ⟨filled, hfilled, hperm⟩ := @ih
      (chunks.insert gap.1 (gapEntry offset bytes scratch.budget gap).2)
      ⟨scratch.budget, scratch.bytes - (gap.2 - gap.1)⟩
      (fun later hlater => hgaps later (List.mem_cons_of_mem _ hlater)) hordered'.2 hfresh'
      (by dsimp only; omega)
    refine ⟨filled, ?_, ?_⟩
    · simp only [insertGaps, vecCapacity, ne_eq, not_true_eq_false, if_false] at hsplit ⊢
      rw [hsplit]
      simp only [htotal, ← Nat.sub_sub]
      exact hfilled
    · refine hperm.trans ?_
      rw [List.map_cons]
      refine ((OrderedMap.insertEntries_perm gap.1 _ chunks.entries hfreshHead).append_right _).trans ?_
      exact List.perm_middle.symm

end Fill

/-- A record that ends here respects the final offset, and is not contradicted when it sets it. -/
def Reassembler.AdmitsEnd (r : Reassembler) (stop : ℕ) (fin : Bool) : Prop :=
  (∀ finalOffset, r.finalOffset = some finalOffset → stop ≤ finalOffset) ∧
    (fin = true → (∀ finalOffset, r.finalOffset = some finalOffset → finalOffset = stop) ∧
      r.nextOffset ≤ stop ∧ ∀ segment ∈ r.segments, Segment.stop segment ≤ stop)

/-- What an accepted record does: it fills the unread positions that were open, and no others. -/
structure Accepted (r next : Reassembler) (record : ℕ × List UInt8) (fin : Bool) : Prop where
  wellFormed : next.WellFormed
  admits : r.AdmitsEnd (stop record) fin
  nextOffset : next.nextOffset = r.nextOffset
  acknowledgedOffset : next.acknowledgedOffset = r.acknowledgedOffset
  maxBytes : next.maxBytes = r.maxBytes
  maxChunks : next.maxChunks = r.maxChunks
  memoryBudget : next.memoryBudget = r.memoryBudget
  finalOffset : next.finalOffset = if fin then some (stop record) else r.finalOffset
  unread : ∀ i, r.nextOffset ≤ i →
    firstElement next.segments i = (firstElement r.segments i).or (elementAt record i)
  consumed : ∀ i < r.nextOffset, firstElement next.segments i = firstElement r.segments i

theorem Accepted.finalOffset_stable {r next : Reassembler} {record : ℕ × List UInt8} {fin : Bool}
    (h : Accepted r next record fin) {finalOffset : ℕ} (hfinal : r.finalOffset = some finalOffset) :
    next.finalOffset = some finalOffset := by
  rw [h.finalOffset]
  cases fin with
  | false => exact hfinal
  | true => rw [((h.admits.2 rfl).1 finalOffset hfinal), if_pos rfl]

section Added

variable {r : Reassembler} {record : ℕ × List UInt8} {fin : Bool}

/-- The reassembler with chunks added past the read position and the final offset updated. -/
def Reassembler.withAdded (r : Reassembler) (chunks : OrderedMap ℕ BufferedChunk) (added : ℕ)
    (stop : ℕ) (fin : Bool) : Reassembler :=
  { r with
    chunks := chunks
    bytes := r.bytes + added
    finalOffset := if fin then some stop else r.finalOffset }

theorem Reassembler.WellFormed.withAdded (hr : r.WellFormed) (hadmits : r.AdmitsEnd (stop record) fin)
    (hwire : stop record ≤ maxWireOffset) (chunks : OrderedMap ℕ BufferedChunk)
    (added : List (ℕ × List UInt8))
    (hperm : (chunks.entries.map chunkSegment).Perm (r.segments ++ added))
    (hapart : added.Pairwise Apart) (hacross : ∀ segment ∈ r.segments, ∀ piece ∈ added, Apart segment piece)
    (hbounds : ∀ piece ∈ added, r.nextOffset ≤ piece.1 ∧ piece.1 < stop piece ∧ stop piece ≤ stop record)
    (hfirst : ∀ i, firstElement (r.segments ++ added) i =
      (firstElement r.segments i).or (if r.nextOffset ≤ i then elementAt record i else none)) :
    Accepted r (r.withAdded chunks (added.map (fun piece => piece.2.length)).sum (stop record) fin)
      record fin := by
  have hall : (r.segments ++ added).Pairwise Apart :=
    List.pairwise_append.mpr ⟨hr.apart, hapart, hacross⟩
  have hmem : ∀ segment ∈ chunks.entries.map chunkSegment, segment ∈ r.segments ∨ segment ∈ added :=
    fun segment h => List.mem_append.mp (hperm.mem_iff.mp h)
  have hsegments : ∀ i, firstElement (chunks.entries.map chunkSegment) i =
      (firstElement r.segments i).or (if r.nextOffset ≤ i then elementAt record i else none) :=
    fun i => (firstElement_perm hperm.symm hall i).symm.trans (hfirst i)
  refine ⟨⟨?_, ?_, ?_, ?_, hr.nextOnWire, ?_⟩, hadmits, rfl, rfl, rfl, rfl, rfl, rfl, ?_, ?_⟩
  · exact (hperm.pairwise_iff fun h => Apart.symm h).mpr hall
  · intro segment h
    rcases hmem segment h with h | h
    · exact hr.nonempty segment h
    · exact (hbounds segment h).2.1
  · intro segment h
    rcases hmem segment h with h | h
    · exact hr.onWire segment h
    · exact (hbounds segment h).2.2.trans hwire
  · change r.bytes + _ = ((chunks.entries.map chunkSegment).map (remaining r.nextOffset)).sum
    rw [(hperm.map _).sum_eq, List.map_append, List.sum_append, ← hr.counted,
      sum_remaining_of_past fun piece h => (hbounds piece h).1]
  · intro finalOffset hfinal
    have hstop : r.nextOffset ≤ finalOffset ∧ stop record ≤ finalOffset ∧
        ∀ segment ∈ r.segments, stop segment ≤ finalOffset := by
      simp only [Reassembler.withAdded] at hfinal
      split_ifs at hfinal with hfin
      · cases hfinal
        exact ⟨(hadmits.2 hfin).2.1, le_rfl, (hadmits.2 hfin).2.2⟩
      · exact ⟨(hr.finalPast _ hfinal).1, hadmits.1 _ hfinal, (hr.finalPast _ hfinal).2⟩
    refine ⟨hstop.1, fun segment h => ?_⟩
    rcases hmem segment h with h | h
    · exact hstop.2.2 segment h
    · exact (hbounds segment h).2.2.trans hstop.2.1
  · intro i hi
    exact (hsegments i).trans (by rw [if_pos hi])
  · intro i hi
    exact (hsegments i).trans (by rw [if_neg (not_le.mpr hi), Option.or_none])

end Added

end Quicp
