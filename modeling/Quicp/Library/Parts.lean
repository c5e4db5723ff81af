import Quicp.Library.FirstWriter

/-!
# Parts of one sequence

A part of a sequence is a segment that places the sequence's own elements at their own positions. Parts stay parts
when the sequence grows, and cutting a part gives parts.
-/

namespace Segment

variable {α : Type*} {whole more elements : List α} {segment : ℕ × List α} {start : ℕ}

/-- Every element of the segment is the sequence's at that position. -/
def IsPart (whole : List α) (segment : ℕ × List α) : Prop :=
  ∀ i a, elementAt segment i = some a → whole[i]? = some a

def Before (left right : ℕ × List α) : Prop := stop left ≤ right.1

theorem IsPart.append (h : IsPart whole segment) (more : List α) : IsPart (whole ++ more) segment := by
  intro i a hat
  have hwhole := h i a hat
  rw [List.getElem?_append_left (List.getElem?_eq_some_iff.mp hwhole).1]
  exact hwhole

theorem isPart_append_right (whole elements : List α) : IsPart (whole ++ elements) (whole.length, elements) := by
  intro i a hat
  rw [List.getElem?_append_right (bounds_of_elementAt hat).1]
  rwa [elementAt_of_le (bounds_of_elementAt hat).1] at hat

theorem isPart_self (whole : List α) : IsPart whole (0, whole) := isPart_append_right [] whole

theorem IsPart.take (h : IsPart whole (start, elements)) (count : ℕ) :
    IsPart whole (start, elements.take count) := by
  intro i a hat
  have hle : start ≤ i := (bounds_of_elementAt hat).1
  rw [elementAt_of_le hle, List.getElem?_take] at hat
  refine h i a ((elementAt_of_le hle).trans ?_)
  split_ifs at hat
  exact hat

theorem IsPart.drop (h : IsPart whole (start, elements)) (count : ℕ) :
    IsPart whole (start + count, elements.drop count) := by
  intro i a hat
  have hle : start + count ≤ i := (bounds_of_elementAt hat).1
  have hdrop := elementAt_drop (start, elements) (Nat.le_add_right start count) i
  rw [Nat.add_sub_cancel_left, if_pos hle] at hdrop
  exact h i a (hdrop.symm.trans hat)

theorem IsPart.stop_le (h : IsPart whole segment) (hne : segment.2 ≠ []) : stop segment ≤ whole.length := by
  have hlength := List.length_pos_iff.mpr hne
  have hlast : (elementAt segment (stop segment - 1)).isSome := by
    rw [elementAt_isSome_iff]
    simp only [stop]
    omega
  obtain ⟨a, ha⟩ := Option.isSome_iff_exists.mp hlast
  have := (List.getElem?_eq_some_iff.mp (h _ a ha)).1
  omega

end Segment

namespace FirstWriter

variable {α : Type*} {map : FirstWriter α} {whole : List α}

theorem Faithful.delivered_prefix (h : map.Faithful)
    (hparts : ∀ record ∈ map.accepted, Segment.IsPart whole record) : map.delivered <+: whole := by
  rw [List.prefix_iff_getElem?]
  intro i hi
  obtain ⟨record, hrecord, hat⟩ := Segment.exists_of_firstElement
    ((h i hi).symm.trans (List.getElem?_eq_getElem hi))
  exact hparts record hrecord i _ hat

end FirstWriter
