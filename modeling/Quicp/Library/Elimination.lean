import Quicp.Library.SparseRow

/-!
# Reduced systems of linear forms

A system pairs every form with a pivot: an unknown that has the coefficient one in its own form and does not occur in
the others.
-/

variable {ι K : Type*} [LinearOrder ι] [Field K]

namespace SparseRow

/-- Every pivot has the coefficient one in its own form and zero in the others. -/
structure Reduced (system : List (ι × List (ι × K))) : Prop where
  pivot : ∀ entry ∈ system, coefficient entry.2 entry.1 = 1
  apart : system.Pairwise fun entry later =>
    coefficient later.2 entry.1 = 0 ∧ coefficient entry.2 later.1 = 0

theorem Reduced.nil : Reduced ([] : List (ι × List (ι × K))) := ⟨by simp, .nil⟩

variable {system : List (ι × List (ι × K))}

theorem Reduced.sublist {system' : List (ι × List (ι × K))} (h : Reduced system)
    (hsub : system'.Sublist system) : Reduced system' :=
  ⟨fun entry hentry => h.pivot entry (hsub.subset hentry), h.apart.sublist hsub⟩

theorem Reduced.clear {α : Type*} {entries : List α} {pivotOf : α → ι} {form cleared : α → List (ι × K)}
    (h : Reduced (entries.map fun entry => (pivotOf entry, form entry))) {pivot : ι} {source : List (ι × K)}
    (hpivot : coefficient source pivot = 1) (hsource : ∀ entry ∈ entries, coefficient source (pivotOf entry) = 0)
    (hcleared : ∀ entry ∈ entries, ∀ unknown, coefficient (cleared entry) unknown =
      coefficient (form entry) unknown - coefficient (form entry) pivot * coefficient source unknown) :
    Reduced (entries.map (fun entry => (pivotOf entry, cleared entry)) ++ [(pivot, source)]) where
  pivot := by
    intro entry hentry
    rcases List.mem_append.mp hentry with hold | hnew
    · obtain ⟨old, hmem, rfl⟩ := List.mem_map.mp hold
      rw [hcleared old hmem, hsource old hmem, mul_zero, sub_zero]
      exact h.pivot _ (List.mem_map_of_mem hmem)
    · rw [List.mem_singleton.mp hnew]
      exact hpivot
  apart := by
    refine List.pairwise_append.mpr ⟨List.pairwise_map.mpr ?_, List.pairwise_singleton _ _, ?_⟩
    · refine (List.pairwise_map.mp h.apart).imp_of_mem fun {entry later} hentry hlater hapart => ?_
      dsimp only
      rw [hcleared later hlater, hsource entry hentry, hcleared entry hentry, hsource later hlater]
      simpa using hapart
    · intro entry hentry new hnew
      obtain ⟨old, hmem, rfl⟩ := List.mem_map.mp hentry
      rw [List.mem_singleton.mp hnew]
      refine ⟨hsource old hmem, ?_⟩
      dsimp only
      rw [hcleared old hmem, hpivot, mul_one, sub_self]

theorem Reduced.nodup (h : Reduced system) :
    (system.map Prod.fst).Nodup := by
  refine List.pairwise_map.mpr (h.apart.imp_of_mem fun {entry later} hentry hlater hapart heq => ?_)
  have hone := h.pivot later hlater
  rw [← heq, hapart.1] at hone
  exact zero_ne_one hone

/-- The assignment that is one at an unknown, zero at the other free unknowns, and solves the system. -/
def solution (system : List (ι × List (ι × K))) (free : ι) : ι → K :=
  match system with
  | [] => Pi.single free 1
  | entry :: rest => fun unknown =>
    solution rest free unknown + -coefficient entry.2 free * Pi.single (M := fun _ => K) entry.1 1 unknown

private theorem solution_cons (entry : ι × List (ι × K)) (rest : List (ι × List (ι × K))) (free unknown : ι) :
    solution (entry :: rest) free unknown = solution rest free unknown +
      -coefficient entry.2 free * Pi.single (M := fun _ => K) entry.1 1 unknown := rfl

private theorem value_solution_cons (entry : ι × List (ι × K)) (rest : List (ι × List (ι × K))) (free : ι)
    (form : List (ι × K)) : value form (solution (entry :: rest) free) =
      value form (solution rest free) + -coefficient entry.2 free * coefficient form entry.1 := by
  rw [solution, value_add, value_mul]
  rfl

private theorem value_solution_of_apart {form : List (ι × K)}
    (free : ι) (h : ∀ entry ∈ system, coefficient form entry.1 = 0) :
    value form (solution system free) = coefficient form free := by
  induction system with
  | nil => rfl
  | cons entry rest ih =>
    rw [value_solution_cons, ih fun later hlater => h later (List.mem_cons_of_mem _ hlater),
      h entry List.mem_cons_self, mul_zero, add_zero]

theorem Reduced.value_solution (h : Reduced system) (free : ι)
    {entry : ι × List (ι × K)} (hentry : entry ∈ system) : value entry.2 (solution system free) = 0 := by
  induction system with
  | nil => cases hentry
  | cons first rest ih =>
    obtain ⟨hfirst, _⟩ := List.pairwise_cons.mp h.apart
    rw [value_solution_cons]
    rcases List.mem_cons.mp hentry with rfl | hlater
    · rw [value_solution_of_apart free fun later hmem => (hfirst later hmem).2,
        h.pivot entry List.mem_cons_self, mul_one, add_neg_cancel]
    · rw [ih (h.sublist (List.sublist_cons_self _ _)) hlater, (hfirst entry hlater).1, mul_zero, add_zero]

theorem solution_of_not_pivot {free unknown : ι}
    (h : unknown ∉ system.map Prod.fst) :
    solution system free unknown = Pi.single (M := fun _ => K) free 1 unknown := by
  induction system with
  | nil => rfl
  | cons entry rest ih =>
    rw [List.map_cons, List.mem_cons, not_or] at h
    rw [solution_cons, ih h.2, Pi.single_eq_of_ne h.1, mul_zero, add_zero]

theorem Reduced.solution_pivot (h : Reduced system) {free : ι}
    (hfree : free ∉ system.map Prod.fst) {entry : ι × List (ι × K)} (hentry : entry ∈ system) :
    solution system free entry.1 = -coefficient entry.2 free := by
  induction system with
  | nil => cases hentry
  | cons first rest ih =>
    rw [List.map_cons, List.mem_cons, not_or] at hfree
    have hnodup := List.nodup_cons.mp h.nodup
    rcases List.mem_cons.mp hentry with rfl | hlater
    · rw [solution_cons, solution_of_not_pivot hnodup.1, Pi.single_eq_of_ne (Ne.symm hfree.1),
        Pi.single_eq_same, mul_one, zero_add]
    · have hne : entry.1 ≠ first.1 := fun heq => hnodup.1 (heq ▸ List.mem_map_of_mem hlater)
      rw [solution_cons, ih (h.sublist (List.sublist_cons_self _ _)) hfree.2 hlater, Pi.single_eq_of_ne hne,
        mul_zero, add_zero]

section Undetermined

variable {system : List (ι × List (ι × K))} (h : Reduced system)
  (hform : ∀ entry ∈ system, WellFormed entry.2) (hlong : ∀ entry ∈ system, 1 < entry.2.length)

include h

variable {entry : ι × List (ι × K)}

theorem Reduced.pivot_mem (hentry : entry ∈ system) :
    entry.1 ∈ entry.2.map Prod.fst := by
  by_contra hnot
  have hone := h.pivot entry hentry
  rw [coefficient_eq_zero hnot] at hone
  exact zero_ne_one hone

theorem Reduced.coefficient_of_ne {other : ι × List (ι × K)} (hentry : entry ∈ system) (hother : other ∈ system)
    (hne : entry ≠ other) : coefficient entry.2 other.1 = 0 := by
  have hsymm : Std.Symm fun entry later : ι × List (ι × K) =>
      coefficient later.2 entry.1 = 0 ∧ coefficient entry.2 later.1 = 0 :=
    ⟨fun _ _ hpair => ⟨hpair.2, hpair.1⟩⟩
  exact (h.apart.forall hentry hother hne).2

include hform

theorem Reduced.value_of_pivots {assignment : ι → K}
    (hfree : ∀ unknown, unknown ∉ system.map Prod.fst → assignment unknown = 0) (hentry : entry ∈ system) :
    value entry.2 assignment = assignment entry.1 := by
  let pivotal : ι → K := fun unknown => assignment entry.1 * Pi.single (M := fun _ => K) entry.1 1 unknown
  have hsplit : assignment = fun unknown => (assignment unknown - pivotal unknown) + pivotal unknown := by
    funext unknown
    rw [sub_add_cancel]
  have hrest : ∀ term ∈ entry.2, assignment term.1 - pivotal term.1 = 0 := by
    intro term hterm
    by_cases hpivot : term.1 = entry.1
    · simp [pivotal, hpivot]
    · have hnot : term.1 ∉ system.map Prod.fst := by
        intro hin
        obtain ⟨other, hother, heq⟩ := List.mem_map.mp hin
        refine (hform entry hentry).coefficient_ne_zero.mpr (List.mem_map_of_mem hterm) ?_
        rw [← heq]
        exact h.coefficient_of_ne hentry hother fun hsame => hpivot (hsame ▸ heq.symm)
      simp [pivotal, hfree _ hnot, hpivot]
  rw [hsplit, value_add, value_eq_zero hrest, zero_add, value_mul, ← coefficient, h.pivot entry hentry, mul_one]
  simp [pivotal]

include hlong

theorem Reduced.exists_free (hentry : entry ∈ system) :
    ∃ free ∈ entry.2.map Prod.fst, free ∉ system.map Prod.fst := by
  have hdistinct : (entry.2.map Prod.fst).Nodup :=
    List.pairwise_map.mpr ((hform entry hentry).sorted.imp ne_of_lt)
  have hother : ∃ free ∈ entry.2.map Prod.fst, free ≠ entry.1 := by
    match hterms : entry.2, hlong entry hentry with
    | first :: second :: rest, _ =>
      rw [hterms] at hdistinct
      have hne : first.1 ≠ second.1 := fun heq =>
        (List.nodup_cons.mp hdistinct).1 (heq ▸ List.mem_cons_self)
      by_cases hfirst : first.1 = entry.1
      · exact ⟨second.1, by simp, fun heq => hne (hfirst.trans heq.symm)⟩
      · exact ⟨first.1, by simp, hfirst⟩
  obtain ⟨free, hfree, hne⟩ := hother
  refine ⟨free, hfree, fun hpivot => ?_⟩
  obtain ⟨other, hmem, rfl⟩ := List.mem_map.mp hpivot
  have hnonzero := (hform entry hentry).coefficient_ne_zero.mpr hfree
  exact hnonzero (h.coefficient_of_ne hentry hmem fun heq => hne (heq ▸ rfl))

theorem Reduced.exists_solution (unknown : ι) : ∃ assignment : ι → K,
    (∀ entry ∈ system, value entry.2 assignment = 0) ∧ assignment unknown ≠ 0 ∧
      ∀ other, other ≠ unknown → (∀ entry ∈ system, other ∉ entry.2.map Prod.fst) → assignment other = 0 := by
  have hzero : ∀ free other, other ≠ free → (∀ entry ∈ system, other ∉ entry.2.map Prod.fst) →
      solution system free other = 0 := by
    intro free other hne hnot
    have hpivot : other ∉ system.map Prod.fst := by
      intro hin
      obtain ⟨entry, hmem, rfl⟩ := List.mem_map.mp hin
      exact hnot entry hmem (h.pivot_mem hmem)
    rw [solution_of_not_pivot hpivot, Pi.single_eq_of_ne hne]
  by_cases hpivot : unknown ∈ system.map Prod.fst
  · obtain ⟨entry, hmem, rfl⟩ := List.mem_map.mp hpivot
    obtain ⟨free, hfree, hnot⟩ := h.exists_free hform hlong hmem
    refine ⟨solution system free, fun _ => h.value_solution free, ?_, fun other _ hother => ?_⟩
    · rw [h.solution_pivot hnot hmem]
      exact neg_ne_zero.mpr ((hform entry hmem).coefficient_ne_zero.mpr hfree)
    · exact hzero free other (fun heq => hother entry hmem (heq ▸ hfree)) hother
  · refine ⟨solution system unknown, fun _ => h.value_solution unknown, ?_, hzero unknown⟩
    rw [solution_of_not_pivot hpivot, Pi.single_eq_same]
    exact one_ne_zero

theorem Reduced.length_lt_card (hne : system ≠ []) :
    system.length < (system.flatMap (fun entry => entry.2.map Prod.fst)).toFinset.card := by
  obtain ⟨entry, hentry⟩ := List.exists_mem_of_ne_nil system hne
  obtain ⟨free, hfree, hnot⟩ := h.exists_free hform hlong hentry
  have hcard : (free :: system.map Prod.fst).toFinset.card = system.length + 1 := by
    rw [List.toFinset_card_of_nodup (List.nodup_cons.mpr ⟨hnot, h.nodup⟩), List.length_cons, List.length_map]
  have hsubset : (free :: system.map Prod.fst).toFinset ⊆
      (system.flatMap (fun entry => entry.2.map Prod.fst)).toFinset := by
    intro unknown hin
    rw [List.mem_toFinset, List.mem_flatMap]
    rcases List.mem_cons.mp (List.mem_toFinset.mp hin) with rfl | hpivot
    · exact ⟨entry, hentry, hfree⟩
    · obtain ⟨other, hmem, rfl⟩ := List.mem_map.mp hpivot
      exact ⟨other, hmem, h.pivot_mem hmem⟩
  have hle := Finset.card_le_card hsubset
  omega

end Undetermined

end SparseRow
