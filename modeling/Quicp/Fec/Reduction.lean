import Quicp.Fec.Equations

/-!
# Reduced row echelon form

The rows of a decoder are a linear system over the zero-padded symbols, one equation for each position.
-/

namespace Quicp

def Row.Holds (symbols : UInt32 → ℕ → Gf256) (row : Row) : Prop :=
  ∀ i, SparseRow.value row.coefficients (fun id => symbols id i) = row.data.getD i 0

/-- A row with terms has the leading coefficient one, and its leading identifier is in no other row. -/
structure InEchelonForm (rows : List Row) : Prop where
  head : ∀ row ∈ rows, row.coefficients ≠ [] → row.coefficients.head? = some (row.leading, 1)
  apart : rows.Pairwise fun row other =>
    (row.coefficients ≠ [] → row.leading ∉ other.coefficients.map Prod.fst) ∧
      (other.coefficients ≠ [] → other.leading ∉ row.coefficients.map Prod.fst)

variable {rows : List Row} {symbols : UInt32 → ℕ → Gf256}

theorem linearInRows_position (symbols : UInt32 → ℕ → Gf256) (i : ℕ) : LinearInRows fun row =>
    SparseRow.value row.coefficients (fun id => symbols id i) - row.data.getD i 0 where
  scaled row factor := by
    rw [Row.scaled, SparseRow.value_scale, PaddedVector.getD_map_mul, sub_mul]
  plus row source factor := by
    have hlong : source.data.length ≤ (PaddedVector.grow source.data.length row.data).length := by
      rw [PaddedVector.length_grow]
      exact le_max_right _ _
    rw [Row.plus, SparseRow.value_addScaled, PaddedVector.getD_addScaled hlong, PaddedVector.getD_grow]
    ring

theorem forall_holds : (∀ row ∈ rows, row.Holds symbols) ↔
    ∀ i, ∀ row ∈ rows, SparseRow.value row.coefficients (fun id => symbols id i) - row.data.getD i 0 = 0 := by
  simp only [Row.Holds, sub_eq_zero]
  exact ⟨fun h i row hrow => h row hrow i, fun h row hrow i => h i row hrow⟩

theorem holds_eliminate (h : ∀ row ∈ rows, SparseRow.WellFormed row.coefficients) :
    (∀ row ∈ (eliminate rows.length [] rows).1, row.Holds symbols) ↔ ∀ row ∈ rows, row.Holds symbols := by
  rw [forall_holds, forall_holds]
  exact forall_congr' fun i =>
    (linearInRows_position symbols i).eliminate rows.length (List.forall_mem_nil _) h

section Echelon

variable (h : EchelonRows rows) (hwell : ∀ row ∈ rows, SparseRow.WellFormed row.coefficients)

include h hwell

theorem EchelonRows.inEchelonForm : InEchelonForm rows := by
  obtain ⟨system, empty, rfl, hreduced, hempty, hfirst⟩ := h
  have hmem : ∀ entry ∈ system, formOf entry ∈ system.map formOf := fun entry hentry => List.mem_map_of_mem hentry
  have hwell' : ∀ entry ∈ system, SparseRow.WellFormed entry.2.coefficients := fun entry hentry =>
    hwell entry.2 (List.mem_append_left _ (List.mem_map_of_mem hentry))
  have hpivot : ∀ entry ∈ system, entry.2.coefficients ≠ [] ∧ entry.2.leading = entry.1 := by
    intro entry hentry
    have hin : entry.1 ∈ entry.2.coefficients.map Prod.fst := hreduced.pivot_mem (hmem entry hentry)
    have hterms : entry.2.coefficients ≠ [] := by
      rintro hnil
      simp [hnil] at hin
    obtain ⟨scalar, later, hhead, _⟩ := Row.exists_head (hwell' entry hentry) hterms
    refine ⟨hterms, le_antisymm (Row.leading_le (hwell' entry hentry) hin) (hfirst entry hentry _ ?_)⟩
    simp [hhead]
  constructor
  · intro row hrow hterms
    rcases List.mem_append.mp hrow with hin | hin
    · obtain ⟨entry, hentry, rfl⟩ := List.mem_map.mp hin
      obtain ⟨scalar, later, hhead, _⟩ := Row.exists_head (hwell' entry hentry) hterms
      have hone : SparseRow.coefficient entry.2.coefficients entry.1 = 1 := hreduced.pivot _ (hmem entry hentry)
      have hscalar := (hwell' entry hentry).coefficient_eq (hhead ▸ List.mem_cons_self)
      rw [(hpivot entry hentry).2, hone] at hscalar
      rw [hhead, ← hscalar]
      rfl
    · exact absurd (hempty row hin) hterms
  · refine List.pairwise_append.mpr ⟨List.pairwise_map.mpr ?_, ?_, ?_⟩
    · refine (List.pairwise_map.mp hreduced.apart).imp_of_mem fun {entry later} hentry hlater hapart => ?_
      rw [(hpivot entry hentry).2, (hpivot later hlater).2]
      exact ⟨fun _ hin => (hwell' later hlater).coefficient_ne_zero.mpr hin hapart.1,
        fun _ hin => (hwell' entry hentry).coefficient_ne_zero.mpr hin hapart.2⟩
    · refine List.pairwise_of_forall_mem_list fun row hrow other hother => ?_
      simp [hempty row hrow, hempty other hother]
    · intro row hrow other hother
      simp [hempty other hother]

theorem EchelonRows.exists_holds (hzero : ∀ row ∈ rows, row.coefficients = [] → ∀ byte ∈ row.data, byte = 0) :
    ∃ symbols, ∀ row ∈ rows, row.Holds symbols := by
  obtain ⟨system, empty, rfl, hreduced, hempty, _⟩ := h
  let symbols : UInt32 → ℕ → Gf256 := fun id i =>
    ((system.find? (fun entry => entry.1 == id)).map (fun entry => entry.2.data.getD i 0)).getD 0
  have hwell' : ∀ form ∈ system.map formOf, SparseRow.WellFormed form.2 := List.forall_mem_map.mpr fun entry hentry =>
    hwell entry.2 (List.mem_append_left _ (List.mem_map_of_mem hentry))
  have hnodup : (system.map Prod.fst).Nodup := by
    have hforms := hreduced.nodup
    rwa [List.map_map] at hforms
  refine ⟨symbols, fun row hrow i => ?_⟩
  rcases List.mem_append.mp hrow with hin | hin
  · obtain ⟨entry, hentry, rfl⟩ := List.mem_map.mp hin
    have hfree : ∀ id, id ∉ (system.map formOf).map Prod.fst → symbols id i = 0 := by
      intro id hid
      have hnone : system.find? (fun entry => entry.1 == id) = none := by
        refine List.find?_eq_none.mpr fun other hother heq => hid ?_
        rw [List.map_map, ← eq_of_beq heq]
        exact List.mem_map.mpr ⟨other, hother, rfl⟩
      simp [symbols, hnone]
    have hfound : system.find? (fun other => other.1 == entry.1) = some entry := by
      obtain ⟨found, hfound⟩ := Option.isSome_iff_exists.mp
        (List.find?_isSome (p := fun other => other.1 == entry.1).mpr ⟨entry, hentry, by simp⟩)
      have heq : found.1 = entry.1 := by simpa using List.find?_some hfound
      rw [hfound, List.inj_on_of_nodup_map hnodup (List.mem_of_find?_eq_some hfound) hentry heq]
    have hvalue := hreduced.value_of_pivots hwell' hfree (List.mem_map_of_mem hentry)
    rw [formOf] at hvalue
    rw [hvalue]
    simp [symbols, hfound]
  · rw [hempty row hin, SparseRow.value_nil]
    have hdata := hzero row hrow (hempty row hin)
    by_cases hi : i < row.data.length
    · rw [List.getD_eq_getElem _ _ hi, hdata _ (List.getElem_mem hi)]
    · rw [List.getD_eq_default _ _ (not_lt.mp hi)]

end Echelon

theorem collectRecovered_eq_error {row : Row} (hrow : row ∈ rows) (hterms : row.coefficients = [])
    (hdata : row.data.any (· ≠ 0) = true) : collectRecovered rows = .error .contradictoryRepair := by
  induction rows with
  | nil => cases hrow
  | cons first rest ih =>
    unfold collectRecovered
    rcases List.mem_cons.mp hrow with rfl | hin
    · rw [hterms]
      exact if_pos hdata
    · rw [ih hin]
      rcases first.coefficients with _ | ⟨_, _ | _⟩
      · dsimp only
        split_ifs <;> rfl
      · rfl
      · rfl

theorem mem_solved (h : InEchelonForm rows) {id : UInt32} {data : List Gf256} :
    (id, data) ∈ rows.filterMap Row.solved ↔ ∃ row ∈ rows, row.coefficients = [(id, 1)] ∧ row.data = data := by
  rw [List.mem_filterMap]
  constructor
  · rintro ⟨row, hrow, hsolved⟩
    obtain ⟨id', hid, heq⟩ := Option.map_eq_some_iff.mp hsolved
    obtain ⟨rfl, rfl⟩ := Prod.mk.inj heq
    obtain ⟨scalar, hterms⟩ := Row.solvedId_eq_some.mp hid
    have hhead := h.head row hrow (by simp [hterms])
    simp only [hterms, List.head?_cons, Option.some.injEq, Prod.mk.injEq] at hhead
    rw [hhead.2] at hterms
    exact ⟨row, hrow, hterms, by simp [Row.solvedData, hterms]⟩
  · rintro ⟨row, hrow, hterms, rfl⟩
    exact ⟨row, hrow, by simp [Row.solved, Row.solvedId, Row.solvedData, hterms]⟩

theorem sorted_solved (h : EchelonRows rows) : (((rows.filterMap Row.solved).insertionSort
    (fun item later => item.1 ≤ later.1)).map Prod.fst).Pairwise (· < ·) := by
  have hnodup := ((List.perm_insertionSort (fun item later => item.1 ≤ later.1) (rows.filterMap Row.solved)).map
    Prod.fst).nodup_iff.mpr h.reducedRows.nodup_solved
  have hsorted := List.pairwise_insertionSort (fun item later : UInt32 × List Gf256 => item.1 ≤ later.1)
    (rows.filterMap Row.solved)
  exact (List.pairwise_map.mpr hsorted).imp₂ (fun _ _ hle hne => lt_of_le_of_ne hle hne) hnodup

/-- With a sufficient budget, elimination leaves rows in reduced row echelon form with the same solutions. `reduce`
returns the contradiction when and only when there is no solution, and otherwise the identifiers of the rows with one
term, in order and each once, with the bytes of these rows. -/
theorem reduce_computes_echelon_form (h : ∀ row ∈ rows, SparseRow.WellFormed row.coefficients) :
    ∃ reduced needed, (∀ symbols, (∀ row ∈ reduced, row.Holds symbols) ↔ ∀ row ∈ rows, row.Holds symbols) ∧
      (∀ row ∈ reduced, SparseRow.WellFormed row.coefficients) ∧ InEchelonForm reduced ∧
      ∀ budget, needed ≤ budget → (∃ work, reduceLoop budget rows.length [] rows 0 = .ok (reduced, work)) ∧
        (reduce rows budget = .error .contradictoryRepair ↔ ¬∃ symbols, ∀ row ∈ rows, row.Holds symbols) ∧
        ((∃ symbols, ∀ row ∈ rows, row.Holds symbols) → ∃ recovered, reduce rows budget = .ok (reduced, recovered) ∧
          (recovered.map Prod.fst).Pairwise (· < ·) ∧
          ∀ id data, (id, data) ∈ recovered ↔ ∃ row ∈ reduced, row.coefficients = [(id, 1)] ∧ row.data = data) := by
  have hechelon := echelonRows_eliminate h
  have hwell := keptByElimination_wellFormed.eliminate rows.length (List.forall_mem_nil _) h
  have hform := hechelon.inEchelonForm hwell
  refine ⟨(eliminate rows.length [] rows).1, (eliminate rows.length [] rows).2, fun symbols => holds_eliminate h, hwell,
    hform, fun budget hbudget => ?_⟩
  obtain ⟨work, hspent⟩ : ∃ work, spendMany (eliminate rows.length [] rows).2 0 budget = .ok work := by
    unfold spendMany saturatingAdd
    split_ifs <;> first | exact ⟨_, rfl⟩ | omega
  have hloop : reduceLoop budget rows.length [] rows 0 = .ok ((eliminate rows.length [] rows).1, work) := by
    rw [reduceLoop_eq, metered, hspent]
    rfl
  refine ⟨⟨work, hloop⟩, ?_⟩
  by_cases hzero : ∀ row ∈ (eliminate rows.length [] rows).1, row.coefficients = [] → ∀ byte ∈ row.data, byte = 0
  · have hreduce := reduce_eq h hzero budget
    rw [hspent] at hreduce
    obtain ⟨symbols, hsymbols⟩ := hechelon.exists_holds hwell hzero
    have hsolution : ∃ symbols, ∀ row ∈ rows, row.Holds symbols := ⟨symbols, (holds_eliminate h).mp hsymbols⟩
    refine ⟨⟨fun herror => ?_, fun hnone => absurd hsolution hnone⟩, fun _ => ⟨_, hreduce, sorted_solved hechelon,
      fun id data => ?_⟩⟩
    · cases hreduce.symm.trans herror
    · rw [(List.perm_insertionSort _ _).mem_iff]
      exact mem_solved hform
  · push Not at hzero
    obtain ⟨row, hrow, hterms, byte, hbyte, hne⟩ := hzero
    have hnone : ¬∃ symbols, ∀ row ∈ rows, row.Holds symbols := by
      rintro ⟨symbols, hsymbols⟩
      obtain ⟨i, hi, rfl⟩ := List.getElem_of_mem hbyte
      have hholds := (holds_eliminate h).mpr hsymbols row hrow i
      rw [hterms, SparseRow.value_nil, List.getD_eq_getElem _ _ hi] at hholds
      exact hne hholds.symm
    have herror : reduce rows budget = .error .contradictoryRepair := by
      have hcollect := collectRecovered_eq_error hrow hterms (List.any_eq_true.mpr ⟨byte, hbyte, by simpa using hne⟩)
      unfold reduce
      simp only [hloop, bind, Except.bind, hcollect]
    exact ⟨⟨fun _ => hnone, fun _ => herror⟩, fun hsome => absurd hsome hnone⟩

theorem reduce_computes_echelon_form_pair :
    let rows : List Row := [⟨[(1, 1), (2, 1)], [1]⟩, ⟨[(2, 1)], []⟩]
    ∃ reduced needed, InEchelonForm reduced ∧ ∀ budget, needed ≤ budget →
      ∃ work, reduceLoop budget rows.length [] rows 0 = .ok (reduced, work) := by
  intro rows
  have hwell : ∀ row ∈ rows, SparseRow.WellFormed row.coefficients := by
    simp only [rows, List.forall_mem_cons, List.not_mem_nil, false_implies, implies_true, and_true]
    exact ⟨⟨by decide, by decide⟩, ⟨by decide, by decide⟩⟩
  obtain ⟨reduced, needed, _, _, hform, hbudget⟩ := reduce_computes_echelon_form hwell
  exact ⟨reduced, needed, hform, fun budget hle => (hbudget budget hle).1⟩

end Quicp
