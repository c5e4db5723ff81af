import Quicp.Library.Segment

/-!
# Filling the gaps between segments

A new segment over a list of placed ones contributes only to the positions that are still open.
-/

namespace Segment

variable {α : Type*}

/-- The open stretches from a cursor up to a limit, found by one scan over placed segments. -/
def gaps (limit : ℕ) : ℕ → List (ℕ × List α) → List (ℕ × ℕ)
  | cursor, [] => if cursor < limit then [(cursor, limit)] else []
  | cursor, segment :: rest =>
    if cursor < segment.1 then
      (cursor, segment.1) :: gaps limit (max cursor (min limit (stop segment))) rest
    else gaps limit (max cursor (min limit (stop segment))) rest

variable {cursor limit : ℕ} {segment : ℕ × List α}

theorem gaps_cons_of_lt (h : cursor < segment.1)
    (rest : List (ℕ × List α)) :
    gaps limit cursor (segment :: rest) =
      (cursor, segment.1) :: gaps limit (max cursor (min limit (stop segment))) rest := if_pos h

theorem gaps_cons_of_le (h : segment.1 ≤ cursor)
    (rest : List (ℕ × List α)) :
    gaps limit cursor (segment :: rest) = gaps limit (max cursor (min limit (stop segment))) rest :=
  if_neg (not_lt.mpr h)

variable {segments : List (ℕ × List α)}

theorem gaps_of_before (hlimit : cursor < limit)
    (hbefore : ∀ segment ∈ segments, stop segment ≤ cursor) :
    gaps limit cursor segments = [(cursor, limit)] := by
  induction segments with
  | nil => exact if_pos hlimit
  | cons segment rest ih =>
    have hsegment := hbefore segment List.mem_cons_self
    have hstart : segment.1 ≤ stop segment := Nat.le_add_right _ _
    rw [gaps_cons_of_le (hstart.trans hsegment), max_eq_left ((min_le_right _ _).trans hsegment)]
    exact ih (fun other hother => hbefore other (List.mem_cons_of_mem _ hother))

def cut (segment : ℕ × List α) (gap : ℕ × ℕ) : ℕ × List α :=
  (gap.1, (segment.2.drop (gap.1 - segment.1)).take (gap.2 - gap.1))

variable {gap : ℕ × ℕ}

theorem bounds_of_mem_gaps (hbelow : ∀ segment ∈ segments, segment.1 ≤ limit)
    (hgap : gap ∈ gaps limit cursor segments) : cursor ≤ gap.1 ∧ gap.1 < gap.2 ∧ gap.2 ≤ limit := by
  induction segments generalizing cursor with
  | nil =>
    simp only [gaps] at hgap
    split_ifs at hgap with h
    · rw [List.mem_singleton.mp hgap]
      exact ⟨le_rfl, h, le_rfl⟩
    · simp at hgap
  | cons segment rest ih =>
    have hsegment := hbelow segment List.mem_cons_self
    have hrest := fun other hother => hbelow other (List.mem_cons_of_mem segment hother)
    simp only [gaps] at hgap
    split_ifs at hgap with h
    · rcases List.mem_cons.mp hgap with rfl | hgap
      · exact ⟨le_rfl, h, hsegment⟩
      · have := ih hrest hgap
        omega
    · have := ih hrest hgap
      omega

theorem gaps_ordered (hbelow : ∀ segment ∈ segments, segment.1 ≤ limit) :
    (gaps limit cursor segments).Pairwise (fun left right => left.2 ≤ right.1) := by
  induction segments generalizing cursor with
  | nil =>
    simp only [gaps]
    split_ifs <;> simp
  | cons segment rest ih =>
    have hsegment := hbelow segment List.mem_cons_self
    have hstop : segment.1 ≤ stop segment := Nat.le_add_right _ _
    have hrest := fun other hother => hbelow other (List.mem_cons_of_mem segment hother)
    have hlater := @ih (max cursor (min limit (stop segment))) hrest
    simp only [gaps]
    split_ifs with h
    · refine List.pairwise_cons.mpr ⟨fun gap hgap => ?_, hlater⟩
      have := bounds_of_mem_gaps hrest hgap
      omega
    · exact hlater

theorem mem_gaps_iff (hsorted : segments.Pairwise (fun left right => left.1 ≤ right.1))
    (hbelow : ∀ segment ∈ segments, segment.1 ≤ limit) (i : ℕ) :
    (∃ gap ∈ gaps limit cursor segments, gap.1 ≤ i ∧ i < gap.2) ↔
      cursor ≤ i ∧ i < limit ∧ ∀ segment ∈ segments, ¬(segment.1 ≤ i ∧ i < stop segment) := by
  induction segments generalizing cursor with
  | nil =>
    simp only [gaps]
    split_ifs with h
    · simp
    · simp only [List.not_mem_nil, false_and, exists_false, false_iff, not_and]
      omega
  | cons segment rest ih =>
    have hsplit := List.pairwise_cons.mp hsorted
    have hsegment := hbelow segment List.mem_cons_self
    have hrest := fun other hother => hbelow other (List.mem_cons_of_mem segment hother)
    have hlater := @ih (max cursor (min limit (stop segment))) hsplit.2 hrest
    have hopen : i < segment.1 → ∀ other ∈ rest, ¬(other.1 ≤ i ∧ i < stop other) := by
      intro hi other hother
      have := hsplit.1 other hother
      omega
    simp only [gaps]
    split_ifs with h
    · simp only [List.mem_cons, exists_eq_or_imp, forall_eq_or_imp, hlater]
      constructor
      · rintro (hin | ⟨hcursor, hlimit, hfree⟩)
        · exact ⟨hin.1, by omega, by omega, hopen hin.2⟩
        · exact ⟨by omega, hlimit, by omega, hfree⟩
      · rintro ⟨hcursor, hlimit, hsegment, hfree⟩
        by_cases hi : i < segment.1
        · exact Or.inl ⟨hcursor, hi⟩
        · exact Or.inr ⟨by omega, hlimit, hfree⟩
    · simp only [List.mem_cons, forall_eq_or_imp, hlater]
      constructor
      · rintro ⟨hcursor, hlimit, hfree⟩
        exact ⟨by omega, hlimit, by omega, hfree⟩
      · rintro ⟨hcursor, hlimit, hsegment, hfree⟩
        exact ⟨by omega, hlimit, hfree⟩

theorem stop_cut (hstart : segment.1 ≤ gap.1)
    (hgap : gap.1 ≤ gap.2) (hstop : gap.2 ≤ stop segment) : stop (cut segment gap) = gap.2 := by
  simp only [stop, cut, List.length_take, List.length_drop] at hstop ⊢
  omega

theorem elementAt_cut (hstart : segment.1 ≤ gap.1) (i : ℕ) :
    elementAt (cut segment gap) i = if gap.1 ≤ i ∧ i < gap.2 then elementAt segment i else none := by
  unfold elementAt cut
  dsimp only
  by_cases hlow : gap.1 ≤ i
  · have hin : segment.1 ≤ i := hstart.trans hlow
    rw [if_pos hlow, if_pos hin]
    by_cases hhigh : i < gap.2
    · rw [if_pos ⟨hlow, hhigh⟩, List.getElem?_take_of_lt (by omega), List.getElem?_drop]
      congr 1
      omega
    · rw [if_neg (fun h => hhigh h.2), List.getElem?_take_eq_none (by omega)]
  · rw [if_neg hlow, if_neg (fun h => hlow h.1)]

theorem apart_of_disjoint {left right : ℕ × List α} (hleft : left.1 < stop left)
    (hright : right.1 < stop right)
    (h : ∀ i, ¬((left.1 ≤ i ∧ i < stop left) ∧ right.1 ≤ i ∧ i < stop right)) : Apart left right := by
  unfold Apart
  rcases le_total left.1 right.1 with hle | hle
  · have := h right.1
    omega
  · have := h left.1
    omega

section Fill

variable {segments : List (ℕ × List α)} {record : ℕ × List α}

def openGaps (segments : List (ℕ × List α)) (record : ℕ × List α) : List (ℕ × ℕ) :=
  gaps (stop record) record.1 (segments.filter (fun segment => decide (segment.1 < stop record)))

/-- The pieces of a record over the positions that the segments leave open. -/
def pieces (segments : List (ℕ × List α)) (record : ℕ × List α) : List (ℕ × List α) :=
  (openGaps segments record).map (cut record)

private theorem filter_below :
    ∀ segment ∈ segments.filter (fun segment => decide (segment.1 < stop record)),
      segment.1 ≤ stop record :=
  fun segment h => le_of_lt (by simpa using (List.mem_filter.mp h).2)

variable {gap : ℕ × ℕ}

theorem bounds_of_mem_openGaps (h : gap ∈ openGaps segments record) :
    record.1 ≤ gap.1 ∧ gap.1 < gap.2 ∧ gap.2 ≤ stop record :=
  bounds_of_mem_gaps filter_below h

theorem openGaps_ordered :
    (openGaps segments record).Pairwise (fun left right => left.2 ≤ right.1) :=
  gaps_ordered filter_below

theorem mem_openGaps_iff (hsorted : segments.Pairwise (fun left right => left.1 < right.1)) (i : ℕ) :
    (∃ gap ∈ openGaps segments record, gap.1 ≤ i ∧ i < gap.2) ↔
      (record.1 ≤ i ∧ i < stop record) ∧ firstElement segments i = none := by
  rw [openGaps, mem_gaps_iff ((hsorted.imp le_of_lt).filter _) filter_below, firstElement_eq_none_iff,
    and_assoc]
  refine and_congr_right fun _ => and_congr_right fun hlimit => forall_congr' fun segment => ?_
  rw [elementAt_eq_none_iff, List.mem_filter, decide_eq_true_eq]
  constructor
  · intro hfree hmem
    by_cases hstart : segment.1 < stop record
    · have := hfree ⟨hmem, hstart⟩
      omega
    · omega
  · rintro hfree ⟨hmem, _⟩
    have := hfree hmem
    omega

theorem open_of_mem_openGaps (hsorted : segments.Pairwise (fun left right => left.1 < right.1))
    (h : gap ∈ openGaps segments record) : firstElement segments gap.1 = none :=
  ((mem_openGaps_iff hsorted gap.1).mp ⟨gap, h, le_rfl, (bounds_of_mem_openGaps h).2.1⟩).2

private theorem stop_piece (h : gap ∈ openGaps segments record) :
    stop (cut record gap) = gap.2 := by
  have hbounds := bounds_of_mem_openGaps h
  exact stop_cut hbounds.1 hbounds.2.1.le hbounds.2.2

theorem bounds_of_mem_pieces {piece : ℕ × List α} (h : piece ∈ pieces segments record) :
    record.1 ≤ piece.1 ∧ piece.1 < stop piece ∧ stop piece ≤ stop record := by
  obtain ⟨gap, hgap, rfl⟩ := List.mem_map.mp h
  rw [stop_piece hgap]
  exact bounds_of_mem_openGaps hgap

theorem sum_length_pieces :
    ((pieces segments record).map (fun piece => piece.2.length)).sum =
      ((openGaps segments record).map (fun gap => gap.2 - gap.1)).sum := by
  rw [pieces, List.map_map]
  congr 1
  refine List.map_congr_left fun gap hgap => ?_
  have hstop := stop_piece hgap
  simp only [stop, cut] at hstop
  simp only [Function.comp, cut]
  omega

theorem pieces_apart : (pieces segments record).Pairwise Apart := by
  refine List.pairwise_map.mpr (openGaps_ordered.imp_of_mem fun {left right} hleft _ hle => ?_)
  refine Or.inl ?_
  rw [stop_piece hleft]
  exact hle

theorem apart_of_mem_pieces (hsorted : segments.Pairwise (fun left right => left.1 < right.1))
    {segment piece : ℕ × List α} (hsegment : segment ∈ segments) (hnonempty : segment.1 < stop segment)
    (hpiece : piece ∈ pieces segments record) : Apart segment piece := by
  have hpiece' := (bounds_of_mem_pieces hpiece).2.1
  obtain ⟨gap, hgap, rfl⟩ := List.mem_map.mp hpiece
  refine apart_of_disjoint hnonempty hpiece' fun i ⟨hin, hcut⟩ => ?_
  rw [stop_piece hgap] at hcut
  have hopen := ((mem_openGaps_iff hsorted i).mp ⟨gap, hgap, hcut⟩).2
  have := (elementAt_eq_none_iff segment i).mp ((firstElement_eq_none_iff segments i).mp hopen segment hsegment)
  omega

theorem firstElement_append_pieces (hsorted : segments.Pairwise (fun left right => left.1 < right.1)) (i : ℕ) :
    firstElement (segments ++ pieces segments record) i =
      (firstElement segments i).or (elementAt record i) := by
  rw [firstElement_append]
  cases hfirst : firstElement segments i with
  | some a => rfl
  | none =>
    change firstElement (pieces segments record) i = elementAt record i
    cases hrecord : elementAt record i with
    | none =>
      rw [firstElement_eq_none_iff]
      intro piece hpiece
      have hbounds := bounds_of_mem_pieces hpiece
      rw [elementAt_eq_none_iff] at hrecord ⊢
      omega
    | some a =>
      have hin := bounds_of_elementAt hrecord
      obtain ⟨gap, hgap, hcovers⟩ := (mem_openGaps_iff hsorted i).mpr ⟨hin, hfirst⟩
      refine (firstElement_eq_some_iff pieces_apart i a).mpr ⟨cut record gap, List.mem_map_of_mem hgap, ?_⟩
      rw [elementAt_cut (bounds_of_mem_openGaps hgap).1, if_pos hcovers, hrecord]

theorem openGaps_of_apart (hrecord : record.1 < stop record)
    (hapart : ∀ segment ∈ segments, Apart segment record) :
    openGaps segments record = [(record.1, stop record)] := by
  refine gaps_of_before hrecord fun segment hsegment => ?_
  obtain ⟨hmem, hstart⟩ := List.mem_filter.mp hsegment
  have hbelow : segment.1 < stop record := by simpa using hstart
  rcases hapart segment hmem with h | h
  · exact h
  · omega

theorem openGaps_of_empty (hrecord : stop record ≤ record.1) : openGaps segments record = [] := by
  refine List.eq_nil_iff_forall_not_mem.mpr fun gap hgap => ?_
  have := bounds_of_mem_openGaps hgap
  omega

theorem covered_of_openGaps_nil (hsorted : segments.Pairwise (fun left right => left.1 < right.1))
    (h : openGaps segments record = []) {i : ℕ} (hi : elementAt record i ≠ none) :
    firstElement segments i ≠ none := by
  intro hopen
  have hin := (elementAt_isSome_iff record i).mp (Option.isSome_iff_ne_none.mpr hi)
  obtain ⟨gap, hgap, _⟩ := (mem_openGaps_iff hsorted i).mpr ⟨hin, hopen⟩
  rw [h] at hgap
  simp at hgap

end Fill

end Segment
