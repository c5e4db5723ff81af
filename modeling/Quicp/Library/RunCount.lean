import Mathlib

/-!
# Runs of a set of naturals

A set of naturals falls into maximal runs of neighbours. A run that does not begin at zero begins
behind an element that is not in the set, so these elements count the runs above the first one.
-/

/-- The naturals outside a set whose successor is in it: one before each run that does not begin at zero. -/
def runStarts (items : Set ℕ) : Set ℕ := {i | i ∉ items ∧ i + 1 ∈ items}

noncomputable def runCount (items : Set ℕ) : ℕ∞ := (runStarts items).encard

variable {items : Set ℕ} {start stop : ℕ}

theorem runCount_union_apart (hstart : 0 < start) (hne : start < stop)
    (hfree : ∀ i, start ≤ i + 1 → i ≤ stop → i ∉ items) : runCount (items ∪ Set.Ico start stop) = runCount items + 1 := by
  have hstarts : runStarts (items ∪ Set.Ico start stop) = insert (start - 1) (runStarts items) := by
    ext i
    simp only [runStarts, Set.mem_ofPred_eq, Set.mem_union, Set.mem_Ico, Set.mem_insert_iff, not_or]
    constructor
    · rintro ⟨⟨hout, hbeside⟩, hin | hin⟩
      · exact Or.inr ⟨hout, hin⟩
      · exact Or.inl (by omega)
    · rintro (rfl | ⟨hout, hin⟩)
      · exact ⟨⟨hfree _ (by omega) (by omega), by omega⟩, Or.inr (by omega)⟩
      · refine ⟨⟨hout, fun hbetween => hfree (i + 1) (by omega) (by omega) hin⟩, Or.inl hin⟩
  have hnew : start - 1 ∉ runStarts items := fun hold => hfree (start - 1 + 1) (by omega) (by omega) hold.2
  rw [runCount, hstarts, Set.encard_insert_of_notMem hnew, runCount]

theorem runCount_union_extends {first : ℕ} (hfirst : ∀ i < first, i ∈ items) (hstart : start ≤ first)
    (hfree : ∀ i, first ≤ i → i ≤ stop → i ∉ items) : runCount (items ∪ Set.Ico start stop) = runCount items := by
  have hstarts : runStarts (items ∪ Set.Ico start stop) = runStarts items := by
    ext i
    simp only [runStarts, Set.mem_ofPred_eq, Set.mem_union, Set.mem_Ico, not_or]
    constructor
    · rintro ⟨⟨hout, hbeside⟩, hin | hin⟩
      · exact ⟨hout, hin⟩
      · have hlow : ¬i < first := fun hlow => hout (hfirst i hlow)
        omega
    · rintro ⟨hout, hin⟩
      have hlow : ¬i < first := fun hlow => hout (hfirst i hlow)
      have hhigh : stop < i + 1 := not_le.mp fun hle => hfree (i + 1) (by omega) hle hin
      exact ⟨⟨hout, by omega⟩, Or.inl hin⟩
  rw [runCount, hstarts, runCount]
