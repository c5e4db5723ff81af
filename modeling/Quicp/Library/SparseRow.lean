import Mathlib

/-!
# Sparse linear forms

A linear form in unknowns `ι` is the list of its terms, sorted by unknown and without zero coefficients.
-/

variable {ι K : Type*}

namespace SparseRow

section Values

variable [CommRing K]

/-- The value of a form at an assignment of its unknowns. -/
def value (row : List (ι × K)) (assignment : ι → K) : K :=
  (row.map (fun term => term.2 * assignment term.1)).sum

def scale (factor : K) (row : List (ι × K)) : List (ι × K) :=
  row.map (fun term => (term.1, term.2 * factor))

@[simp] theorem value_nil (assignment : ι → K) : value [] assignment = 0 := rfl

@[simp] theorem value_cons (term : ι × K) (row : List (ι × K)) (assignment : ι → K) :
    value (term :: row) assignment = term.2 * assignment term.1 + value row assignment := by
  simp [value]

theorem value_append (row row' : List (ι × K)) (assignment : ι → K) :
    value (row ++ row') assignment = value row assignment + value row' assignment := by
  simp [value]

theorem value_perm {row row' : List (ι × K)} (h : row.Perm row') (assignment : ι → K) :
    value row assignment = value row' assignment := (h.map _).sum_eq

theorem value_filter_add (p : ι × K → Bool) (row : List (ι × K)) (assignment : ι → K) :
    value (row.filter p) assignment + value (row.filter fun term => !p term) assignment = value row assignment := by
  rw [← value_append]
  exact value_perm (List.filter_append_perm p row) assignment

theorem value_eq_zero {row : List (ι × K)} {assignment : ι → K} (h : ∀ term ∈ row, assignment term.1 = 0) :
    value row assignment = 0 := by
  induction row with
  | nil => rfl
  | cons term rest ih =>
    obtain ⟨hterm, hrest⟩ := List.forall_mem_cons.mp h
    rw [value_cons, hterm, mul_zero, zero_add, ih hrest]

theorem value_add (row : List (ι × K)) (assignment assignment' : ι → K) :
    value row (fun unknown => assignment unknown + assignment' unknown) =
      value row assignment + value row assignment' := by
  induction row with
  | nil => simp
  | cons term rest ih =>
    rw [value_cons, ih, value_cons, value_cons]
    ring

theorem value_mul (row : List (ι × K)) (factor : K) (assignment : ι → K) :
    value row (fun unknown => factor * assignment unknown) = factor * value row assignment := by
  induction row with
  | nil => simp
  | cons term rest ih =>
    rw [value_cons, ih, value_cons]
    ring

theorem value_scale (factor : K) (row : List (ι × K)) (assignment : ι → K) :
    value (scale factor row) assignment = value row assignment * factor := by
  induction row with
  | nil => simp [scale]
  | cons term rest ih =>
    have hrest : scale factor (term :: rest) = (term.1, term.2 * factor) :: scale factor rest := rfl
    rw [hrest, value_cons, ih, value_cons]
    ring

end Values

section Terms

variable [LinearOrder ι] [CommRing K]

def coefficient (row : List (ι × K)) (unknown : ι) : K := value row (Pi.single unknown 1)

/-- The terms are sorted by their unknowns and none of them is zero. -/
structure WellFormed (row : List (ι × K)) : Prop where
  sorted : row.Pairwise (fun term later => term.1 < later.1)
  nonzero : ∀ term ∈ row, term.2 ≠ 0

def takeTerm (unknown : ι) : List (ι × K) → Option (K × List (ι × K))
  | [] => none
  | (first, scalar) :: rest =>
    if first = unknown then some (scalar, rest)
    else (takeTerm unknown rest).map (fun taken => (taken.1, (first, scalar) :: taken.2))

variable {row : List (ι × K)}

theorem WellFormed.sublist {row' : List (ι × K)} (h : WellFormed row) (hsub : row'.Sublist row) :
    WellFormed row' :=
  ⟨h.sorted.sublist hsub, fun term hterm => h.nonzero term (hsub.subset hterm)⟩

theorem WellFormed.scale [NoZeroDivisors K] {factor : K} (h : WellFormed row)
    (hfactor : factor ≠ 0) : WellFormed (scale factor row) where
  sorted := List.pairwise_map.mpr h.sorted
  nonzero := by
    intro term hterm
    obtain ⟨term', hterm', rfl⟩ := List.mem_map.mp hterm
    exact mul_ne_zero (h.nonzero term' hterm') hfactor

variable {unknown : ι}

theorem coefficient_eq_zero (h : unknown ∉ row.map Prod.fst) :
    coefficient row unknown = 0 := by
  refine value_eq_zero fun term hterm => Pi.single_eq_of_ne ?_ 1
  rintro rfl
  exact h (List.mem_map_of_mem hterm)

variable {scalar : K}

theorem WellFormed.coefficient_eq (h : WellFormed row)
    (hmem : (unknown, scalar) ∈ row) : coefficient row unknown = scalar := by
  induction row with
  | nil => cases hmem
  | cons term rest ih =>
    obtain ⟨hbefore, hsorted⟩ := List.pairwise_cons.mp h.sorted
    have hrest : WellFormed rest := h.sublist (List.sublist_cons_self term rest)
    have hsplit : coefficient (term :: rest) unknown =
        term.2 * Pi.single (M := fun _ => K) unknown 1 term.1 + coefficient rest unknown := value_cons ..
    rcases List.mem_cons.mp hmem with rfl | hmem
    · have hnot : unknown ∉ rest.map Prod.fst := by
        intro hin
        obtain ⟨later, hlater, heq⟩ := List.mem_map.mp hin
        exact (hbefore later hlater).ne heq.symm
      rw [hsplit, Pi.single_eq_same, coefficient_eq_zero hnot, mul_one, add_zero]
    · have hne : term.1 ≠ unknown := (hbefore _ hmem).ne
      rw [hsplit, Pi.single_eq_of_ne hne, ih hrest hmem, mul_zero, zero_add]

theorem WellFormed.coefficient_ne_zero (h : WellFormed row) :
    coefficient row unknown ≠ 0 ↔ unknown ∈ row.map Prod.fst := by
  constructor
  · intro hne
    by_contra hnot
    exact hne (coefficient_eq_zero hnot)
  · intro hin
    obtain ⟨⟨_, scalar⟩, hmem, rfl⟩ := List.mem_map.mp hin
    rw [h.coefficient_eq hmem]
    exact h.nonzero _ hmem

theorem coefficient_scale (factor : K) (row : List (ι × K)) (unknown : ι) :
    coefficient (scale factor row) unknown = coefficient row unknown * factor := value_scale ..

variable {rest : List (ι × K)}

theorem value_takeTerm (h : takeTerm unknown row = some (scalar, rest)) (assignment : ι → K) :
    value row assignment = scalar * assignment unknown + value rest assignment := by
  induction row generalizing rest with
  | nil => cases h
  | cons term row ih =>
    obtain ⟨first, coefficient⟩ := term
    rw [takeTerm] at h
    split_ifs at h with hfirst
    · obtain ⟨rfl, rfl⟩ := Prod.mk.inj (Option.some.inj h)
      rw [value_cons, hfirst]
    · obtain ⟨⟨scalar', rest'⟩, htaken, heq⟩ := Option.map_eq_some_iff.mp h
      obtain ⟨rfl, rfl⟩ := Prod.mk.inj heq
      rw [value_cons, value_cons, ih htaken]
      ring

omit [CommRing K] in
theorem takeTerm_sublist
    (h : takeTerm unknown row = some (scalar, rest)) : rest.Sublist row ∧ (unknown, scalar) ∈ row := by
  induction row generalizing rest with
  | nil => cases h
  | cons term row ih =>
    obtain ⟨first, coefficient⟩ := term
    rw [takeTerm] at h
    split_ifs at h with hfirst
    · obtain ⟨rfl, rfl⟩ := Prod.mk.inj (Option.some.inj h)
      exact ⟨List.sublist_cons_self _ _, hfirst ▸ List.mem_cons_self⟩
    · obtain ⟨⟨scalar', rest'⟩, htaken, heq⟩ := Option.map_eq_some_iff.mp h
      obtain ⟨rfl, rfl⟩ := Prod.mk.inj heq
      obtain ⟨hsub, hmem⟩ := ih htaken
      exact ⟨hsub.cons_cons _, List.mem_cons_of_mem _ hmem⟩

omit [CommRing K] in
theorem takeTerm_eq_none :
    takeTerm unknown row = none ↔ unknown ∉ row.map Prod.fst := by
  induction row with
  | nil => simp [takeTerm]
  | cons term row ih =>
    obtain ⟨first, coefficient⟩ := term
    rw [takeTerm]
    split_ifs with hfirst
    · simp [hfirst]
    · rw [Option.map_eq_none_iff, ih, List.map_cons, List.mem_cons, not_or]
      exact ⟨fun h => ⟨fun heq => hfirst heq.symm, h⟩, fun h => h.2⟩

theorem WellFormed.not_mem_takeTerm (hrow : WellFormed row)
    (h : takeTerm unknown row = some (scalar, rest)) : unknown ∉ rest.map Prod.fst := by
  induction row generalizing rest with
  | nil => cases h
  | cons term row ih =>
    obtain ⟨first, coefficient⟩ := term
    rw [takeTerm] at h
    split_ifs at h with hfirst
    · obtain ⟨rfl, rfl⟩ := Prod.mk.inj (Option.some.inj h)
      intro hmem
      obtain ⟨later, hlater, heq⟩ := List.mem_map.mp hmem
      have hlt := (List.pairwise_cons.mp hrow.sorted).1 later hlater
      rw [heq] at hlt
      exact hlt.ne hfirst
    · obtain ⟨⟨scalar', rest'⟩, htaken, heq⟩ := Option.map_eq_some_iff.mp h
      obtain ⟨rfl, rfl⟩ := Prod.mk.inj heq
      rw [List.map_cons, List.mem_cons, not_or]
      exact ⟨fun heq => hfirst heq.symm, ih (hrow.sublist (List.sublist_cons_self _ _)) htaken⟩

end Terms

section Adding

variable [LinearOrder ι] [CommRing K] [DecidableEq K]

/-- Add a term at its place; a coefficient that becomes zero leaves the form. -/
def addTerm (unknown : ι) (added : K) : List (ι × K) → List (ι × K)
  | [] => [(unknown, added)]
  | (first, scalar) :: rest =>
    if unknown < first then (unknown, added) :: (first, scalar) :: rest
    else if unknown = first then
      if scalar + added = 0 then rest else (first, scalar + added) :: rest
    else (first, scalar) :: addTerm unknown added rest

theorem value_addTerm (unknown : ι) (added : K) (row : List (ι × K)) (assignment : ι → K) :
    value (addTerm unknown added row) assignment = value row assignment + added * assignment unknown := by
  induction row with
  | nil => simp [addTerm]
  | cons term rest ih =>
    obtain ⟨first, scalar⟩ := term
    rw [addTerm]
    split_ifs with hbefore hsame hzero
    · rw [value_cons, add_comm]
    · rw [value_cons, hsame]
      linear_combination -assignment first * hzero
    · rw [value_cons, value_cons, hsame]
      ring
    · rw [value_cons, value_cons, ih]
      ring

variable {row : List (ι × K)}

theorem mem_addTerm {unknown : ι} {added : K} {term : ι × K}
    (h : term ∈ addTerm unknown added row) : term.1 = unknown ∨ term.1 ∈ row.map Prod.fst := by
  induction row with
  | nil =>
    rw [addTerm, List.mem_singleton] at h
    exact Or.inl (congrArg Prod.fst h)
  | cons head rest ih =>
    obtain ⟨first, scalar⟩ := head
    rw [addTerm] at h
    split_ifs at h with hbefore hsame hzero
    · rcases List.mem_cons.mp h with rfl | h
      · exact Or.inl rfl
      · exact Or.inr (List.mem_map_of_mem h)
    · exact Or.inr (List.mem_cons_of_mem _ (List.mem_map_of_mem h))
    · rcases List.mem_cons.mp h with rfl | h
      · exact Or.inr List.mem_cons_self
      · exact Or.inr (List.mem_cons_of_mem _ (List.mem_map_of_mem h))
    · rcases List.mem_cons.mp h with rfl | h
      · exact Or.inr List.mem_cons_self
      · exact (ih h).imp_right (List.mem_cons_of_mem _)

theorem WellFormed.addTerm {unknown : ι} {added : K} (h : WellFormed row)
    (hadded : added ≠ 0) : WellFormed (addTerm unknown added row) := by
  induction row with
  | nil => exact ⟨List.pairwise_singleton _ _, by simpa [SparseRow.addTerm] using hadded⟩
  | cons head rest ih =>
    obtain ⟨first, scalar⟩ := head
    obtain ⟨hbefore, hsorted⟩ := List.pairwise_cons.mp h.sorted
    have hrest : WellFormed rest := h.sublist (List.sublist_cons_self _ _)
    rw [SparseRow.addTerm]
    split_ifs with hless hsame hzero
    · refine ⟨List.pairwise_cons.mpr ⟨?_, h.sorted⟩, List.forall_mem_cons.mpr ⟨hadded, h.nonzero⟩⟩
      intro term hterm
      rcases List.mem_cons.mp hterm with rfl | hterm
      · exact hless
      · exact hless.trans (hbefore term hterm)
    · exact hrest
    · exact ⟨List.pairwise_cons.mpr ⟨hbefore, hsorted⟩, List.forall_mem_cons.mpr ⟨hzero, hrest.nonzero⟩⟩
    · have hlater : first < unknown := lt_of_le_of_ne (not_lt.mp hless) (Ne.symm hsame)
      have htail := ih hrest
      refine ⟨List.pairwise_cons.mpr ⟨?_, htail.sorted⟩,
        List.forall_mem_cons.mpr ⟨h.nonzero _ List.mem_cons_self, htail.nonzero⟩⟩
      intro term hterm
      rcases mem_addTerm hterm with heq | hin
      · exact heq ▸ hlater
      · obtain ⟨later, hmem, heq⟩ := List.mem_map.mp hin
        exact heq ▸ hbefore later hmem

def addScaled (factor : K) (source row : List (ι × K)) : List (ι × K) :=
  source.foldl (fun row term => addTerm term.1 (term.2 * factor) row) row

theorem value_addScaled (factor : K) (source row : List (ι × K)) (assignment : ι → K) :
    value (addScaled factor source row) assignment =
      value row assignment + value source assignment * factor := by
  unfold addScaled
  induction source generalizing row with
  | nil => simp
  | cons term rest ih =>
    rw [List.foldl_cons, ih, value_addTerm, value_cons]
    ring

theorem coefficient_addScaled (factor : K) (source row : List (ι × K)) (unknown : ι) :
    coefficient (addScaled factor source row) unknown =
      coefficient row unknown + coefficient source unknown * factor := value_addScaled ..

theorem mem_addScaled {factor : K} {source : List (ι × K)} {term : ι × K}
    (h : term ∈ addScaled factor source row) :
    term.1 ∈ source.map Prod.fst ∨ term.1 ∈ row.map Prod.fst := by
  unfold addScaled at h
  induction source generalizing row with
  | nil => exact Or.inr (List.mem_map_of_mem h)
  | cons head rest ih =>
    rcases ih h with hin | hin
    · exact Or.inl (List.mem_cons_of_mem _ hin)
    · obtain ⟨term', hterm', heq⟩ := List.mem_map.mp hin
      rcases mem_addTerm hterm' with hsame | hrow
      · exact Or.inl (heq ▸ hsame ▸ List.mem_cons_self)
      · exact Or.inr (heq ▸ hrow)

theorem WellFormed.addScaled [NoZeroDivisors K] {factor : K} {source : List (ι × K)}
    (h : WellFormed row) (hsource : WellFormed source) (hfactor : factor ≠ 0) :
    WellFormed (addScaled factor source row) := by
  unfold SparseRow.addScaled
  induction source generalizing row with
  | nil => exact h
  | cons term rest ih =>
    have hterm := hsource.nonzero term List.mem_cons_self
    exact ih (h.addTerm (mul_ne_zero hterm hfactor)) (hsource.sublist (List.sublist_cons_self _ _))

end Adding

end SparseRow
