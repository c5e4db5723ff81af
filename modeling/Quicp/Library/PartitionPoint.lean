import Mathlib

/-!
# The partition point of a list

Where a predicate holds on a first part of a list and nowhere after it, halving an interval of
indices finds the length of that part.
-/

variable {α : Type*}

/-- The halving loop on the indices from `low` up to `high`. -/
def partitionLoop (holds : α → Bool) (items : List α) : ℕ → ℕ → ℕ → ℕ
  | 0, low, _ => low
  | turns + 1, low, high =>
    if low < high then
      let middle := low + (high - low) / 2
      if (items[middle]?).any holds then partitionLoop holds items turns (middle + 1) high
      else partitionLoop holds items turns low middle
    else low

/-- The index of the first item for which the predicate does not hold. -/
def partitionPoint (holds : α → Bool) (items : List α) : ℕ := partitionLoop holds items items.length 0 items.length

/-- The predicate holds of no item behind one for which it does not hold. -/
def Partitioned (holds : α → Bool) (items : List α) : Prop :=
  items.Pairwise (fun before after => holds after → holds before)

variable {holds : α → Bool} {items : List α}

theorem Partitioned.any_getElem? (h : Partitioned holds items) (i : ℕ) :
    (items[i]?).any holds = true ↔ i < (items.takeWhile holds).length := by
  induction items generalizing i with
  | nil => simp
  | cons first rest ih =>
    obtain ⟨hfirst, hrest⟩ := List.pairwise_cons.mp h
    by_cases hholds : holds first
    · rw [List.takeWhile_cons_of_pos hholds, List.length_cons]
      cases i with
      | zero => simp [hholds]
      | succ i => simpa using ih hrest i
    · rw [List.takeWhile_cons_of_neg hholds]
      have hnone : ∀ item ∈ first :: rest, ¬holds item := by
        intro item hmem
        rcases List.mem_cons.mp hmem with rfl | hmem
        · exact hholds
        · exact fun hitem => hholds (hfirst item hmem hitem)
      simp only [Option.any_eq_true, List.length_nil, Nat.not_lt_zero, iff_false, not_exists, not_and]
      exact fun item hitem => hnone item (List.mem_of_getElem? hitem)

theorem Partitioned.partitionLoop_eq (h : Partitioned holds items)
    {turns low high : ℕ} (hlow : low ≤ (items.takeWhile holds).length)
    (hhigh : (items.takeWhile holds).length ≤ high) (hturns : high - low ≤ turns) :
    partitionLoop holds items turns low high = (items.takeWhile holds).length := by
  induction turns generalizing low high with
  | zero =>
    rw [partitionLoop]
    omega
  | succ turns ih =>
    rw [partitionLoop]
    dsimp only
    split_ifs with hopen hholds
    · have hbefore := (h.any_getElem? _).mp hholds
      exact ih hbefore hhigh (by omega)
    · have hfrom : (items.takeWhile holds).length ≤ low + (high - low) / 2 :=
        not_lt.mp fun hbefore => hholds ((h.any_getElem? _).mpr hbefore)
      exact ih hlow hfrom (by omega)
    · omega

theorem Partitioned.partitionPoint_eq (h : Partitioned holds items) :
    partitionPoint holds items = (items.takeWhile holds).length :=
  h.partitionLoop_eq (Nat.zero_le _) (List.takeWhile_prefix holds).length_le (Nat.sub_zero _).le
