import Quicp.Fec.Metered

/-!
# What elimination does

Every turn of elimination takes a row with terms as the pivot row, scales it to a leading one and clears its first
identifier from the other rows.
-/

namespace Quicp

variable {row : Row} {rows : List Row}

private theorem swapFront_eq {index : ℕ} (h : rows[index]? = some row) :
    ∃ others, swapFront rows index = some (row, others) ∧ (row :: others).Perm rows := by
  cases rows with
  | nil => simp at h
  | cons first rest =>
    cases index with
    | zero => exact ⟨rest, by simpa [swapFront] using h, by simp_all⟩
    | succ index =>
      rw [List.getElem?_cons_succ] at h
      refine ⟨rest.set index first, by rw [swapFront, h]; rfl, ?_⟩
      induction rest generalizing index with
      | nil => simp at h
      | cons second rest ih =>
        cases index with
        | zero =>
          rw [List.getElem?_cons_zero, Option.some.injEq] at h
          rw [h, List.set_cons_zero]
          exact List.Perm.swap _ _ _
        | succ index =>
          rw [List.getElem?_cons_succ] at h
          rw [List.set_cons_succ]
          have hback : (second :: row :: rest.set index first).Perm (second :: first :: rest) := (ih index h).cons _
          exact (List.Perm.swap _ _ _).trans (hback.trans (List.Perm.swap _ _ _))

private theorem candidate_eq_some {index : ℕ} (h : candidate rows = some index) :
    ∃ row, rows[index]? = some row ∧ row.coefficients ≠ [] := by
  obtain ⟨⟨row, _⟩, hmin, rfl⟩ := Option.map_eq_some_iff.mp h
  obtain ⟨hmem, hterms⟩ := List.mem_filter.mp (List.argmin_mem hmin)
  exact ⟨row, List.mem_zipIdx_iff_getElem?.mp hmem, by simpa using hterms⟩

theorem choosePivot_eq_none (h : choosePivot rows = none) :
    ∀ row ∈ rows, row.coefficients = [] := by
  cases hcandidate : candidate rows with
  | some index =>
    obtain ⟨row, hrow, _⟩ := candidate_eq_some hcandidate
    obtain ⟨others, hswap, _⟩ := swapFront_eq hrow
    rw [choosePivot, hcandidate, Option.bind_some, hswap] at h
    cases h
  | none =>
    intro row hrow
    rw [candidate, Option.map_eq_none_iff, List.argmin_eq_none, List.filter_eq_nil_iff] at hcandidate
    obtain ⟨index, hindex⟩ := List.mem_iff_getElem?.mp hrow
    have hempty := hcandidate (row, index) (List.mem_zipIdx_iff_getElem?.mpr hindex)
    simpa using hempty

theorem choosePivot_eq_some {others : List Row} (h : choosePivot rows = some (row, others)) :
    row.coefficients ≠ [] ∧ (row :: others).Perm rows := by
  obtain ⟨index, hcandidate, hswap⟩ := Option.bind_eq_some_iff.mp h
  obtain ⟨row', hrow, hterms⟩ := candidate_eq_some hcandidate
  obtain ⟨others', hswap', hperm⟩ := swapFront_eq hrow
  rw [hswap'] at hswap
  obtain ⟨rfl, rfl⟩ := Prod.mk.inj (Option.some.inj hswap)
  exact ⟨hterms, hperm⟩

theorem leading_le_of_choosePivot {others : List Row} (h : choosePivot rows = some (row, others)) {other : Row}
    (hother : other ∈ rows) (hterms : other.coefficients ≠ []) : row.leading ≤ other.leading := by
  obtain ⟨index, hcandidate, hswap⟩ := Option.bind_eq_some_iff.mp h
  obtain ⟨⟨least, _⟩, hmin, rfl⟩ := Option.map_eq_some_iff.mp hcandidate
  obtain ⟨others', hswap', _⟩ := swapFront_eq
    (List.mem_zipIdx_iff_getElem?.mp (List.mem_of_mem_filter (List.argmin_mem hmin)))
  rw [hswap'] at hswap
  obtain ⟨rfl, rfl⟩ := Prod.mk.inj (Option.some.inj hswap)
  obtain ⟨index, hindex⟩ := List.mem_iff_getElem?.mp hother
  have hmem : (other, index) ∈ rows.zipIdx.filter (fun entry => !entry.1.coefficients.isEmpty) :=
    List.mem_filter.mpr ⟨List.mem_zipIdx_iff_getElem?.mpr hindex, by simpa using hterms⟩
  exact List.le_of_mem_argmin (f := fun entry : Row × ℕ => entry.1.leading) hmem hmin

theorem Row.exists_head (hwell : SparseRow.WellFormed row.coefficients)
    (hterms : row.coefficients ≠ []) : ∃ scalar rest, row.coefficients = (row.leading, scalar) :: rest ∧
      scalar ≠ 0 ∧ row.normalized = row.scaled scalar⁻¹ := by
  unfold Row.leading Row.normalized
  cases hcoefficients : row.coefficients with
  | nil => exact absurd hcoefficients hterms
  | cons term rest =>
    refine ⟨term.2, rest, rfl, hwell.nonzero term ?_, rfl⟩
    rw [hcoefficients]
    exact List.mem_cons_self

theorem Row.leading_le (hwell : SparseRow.WellFormed row.coefficients) {id : UInt32}
    (hid : id ∈ row.coefficients.map Prod.fst) : row.leading ≤ id := by
  obtain ⟨term, hterm, rfl⟩ := List.mem_map.mp hid
  obtain ⟨scalar, rest, hhead, _⟩ := Row.exists_head hwell (List.ne_nil_of_mem hterm)
  have hsorted := hwell.sorted
  rw [hhead] at hsorted hterm
  rcases List.mem_cons.mp hterm with rfl | hlater
  · exact le_rfl
  · exact ((List.pairwise_cons.mp hsorted).1 term hlater).le

theorem Row.factor?_eq_some (hwell : SparseRow.WellFormed row.coefficients) {id : UInt32}
    {factor : Gf256} (h : row.factor? id = some factor) :
    factor = SparseRow.coefficient row.coefficients id ∧ factor ≠ 0 := by
  obtain ⟨⟨id', factor'⟩, hfind, rfl⟩ := Option.map_eq_some_iff.mp h
  have hid : id' = id := by simpa using List.find?_some hfind
  have hmem := List.mem_of_find?_eq_some hfind
  subst hid
  exact ⟨(hwell.coefficient_eq hmem).symm, hwell.nonzero _ hmem⟩

theorem Row.factor?_eq_none {id : UInt32} (h : row.factor? id = none) :
    SparseRow.coefficient row.coefficients id = 0 := by
  refine SparseRow.coefficient_eq_zero fun hin => ?_
  obtain ⟨term, hmem, rfl⟩ := List.mem_map.mp hin
  have hnone := List.find?_eq_none.mp (Option.map_eq_none_iff.mp h) term hmem
  simp at hnone

theorem Row.coefficient_normalized (hwell : SparseRow.WellFormed row.coefficients)
    (hterms : row.coefficients ≠ []) : SparseRow.coefficient row.normalized.coefficients row.leading = 1 := by
  obtain ⟨scalar, rest, hhead, hscalar, hnormalized⟩ := Row.exists_head hwell hterms
  have hmem : (row.leading, scalar) ∈ row.coefficients := hhead ▸ List.mem_cons_self
  rw [hnormalized, Row.scaled, SparseRow.coefficient_scale, hwell.coefficient_eq hmem, mul_inv_cancel₀ hscalar]

variable {source : Row}

theorem coefficient_clearedBy (hwell : SparseRow.WellFormed row.coefficients)
    (pivotId unknown : UInt32) : SparseRow.coefficient (clearedBy pivotId source row).coefficients unknown =
      SparseRow.coefficient row.coefficients unknown -
        SparseRow.coefficient row.coefficients pivotId * SparseRow.coefficient source.coefficients unknown := by
  unfold clearedBy
  cases hfactor : row.factor? pivotId with
  | none => rw [Row.factor?_eq_none hfactor, zero_mul, sub_zero]
  | some factor =>
    obtain ⟨rfl, _⟩ := Row.factor?_eq_some hwell hfactor
    dsimp only [Row.plus]
    rw [SparseRow.coefficient_addScaled, Gf256.sub_eq_add, mul_comm]

/-- Scaling the pivot row and clearing keep a property that scaling and adding multiples keep. -/
structure KeptByElimination (P : Row → Prop) : Prop where
  wellFormed : ∀ row, P row → SparseRow.WellFormed row.coefficients
  scaled : ∀ row factor, P row → factor ≠ 0 → P (row.scaled factor)
  plus : ∀ row source factor, P row → P source → factor ≠ 0 → P (row.plus source factor)

variable {P : Row → Prop}

theorem KeptByElimination.normalized (hkept : KeptByElimination P) (h : P row)
    (hterms : row.coefficients ≠ []) : P row.normalized := by
  obtain ⟨scalar, rest, _, hscalar, hnormalized⟩ := Row.exists_head (hkept.wellFormed row h) hterms
  rw [hnormalized]
  exact hkept.scaled row scalar⁻¹ h (inv_ne_zero hscalar)

theorem KeptByElimination.clearedBy (hkept : KeptByElimination P)
    (h : P row) (hsource : P source) (pivotId : UInt32) : P (clearedBy pivotId source row) := by
  unfold Quicp.clearedBy
  cases hfactor : row.factor? pivotId with
  | none => exact h
  | some factor =>
    exact hkept.plus row source factor h hsource (Row.factor?_eq_some (hkept.wellFormed row h) hfactor).2

variable {rest : List Row}

theorem KeptByElimination.eliminate (hkept : KeptByElimination P) (turns : ℕ)
    {done : List Row} (hdone : ∀ row ∈ done, P row) (hrest : ∀ row ∈ rest, P row) :
    ∀ row ∈ (eliminate turns done rest).1, P row := by
  induction turns generalizing done rest with
  | zero => exact List.forall_mem_append.mpr ⟨hdone, hrest⟩
  | succ turns ih =>
    rw [Quicp.eliminate]
    cases hchoose : choosePivot rest with
    | none => exact List.forall_mem_append.mpr ⟨hdone, hrest⟩
    | some chosen =>
      obtain ⟨row, others⟩ := chosen
      obtain ⟨hterms, hperm⟩ := choosePivot_eq_some hchoose
      have hrow : P row := hrest row (hperm.subset List.mem_cons_self)
      have hothers : ∀ other ∈ others, P other := fun other hmem =>
        hrest other (hperm.subset (List.mem_cons_of_mem _ hmem))
      have hsource := hkept.normalized hrow hterms
      refine ih (List.forall_mem_append.mpr ⟨?_, by simpa using hsource⟩) ?_
      · exact List.forall_mem_map.mpr fun other hmem => hkept.clearedBy (hdone other hmem) hsource _
      · exact List.forall_mem_map.mpr fun other hmem => hkept.clearedBy (hothers other hmem) hsource _

theorem keptByElimination_wellFormed : KeptByElimination fun row => SparseRow.WellFormed row.coefficients where
  wellFormed _ h := h
  scaled _ _ h hfactor := h.scale hfactor
  plus _ _ _ h hsource hfactor := h.addScaled hsource hfactor

theorem keptByElimination_unknowns (p : UInt32 → Prop) : KeptByElimination fun row =>
    SparseRow.WellFormed row.coefficients ∧ ∀ id ∈ row.coefficients.map Prod.fst, p id where
  wellFormed _ h := h.1
  scaled row factor h hfactor := by
    refine ⟨h.1.scale hfactor, fun id hid => h.2 id ?_⟩
    simpa [Row.scaled, SparseRow.scale, Function.comp_def] using hid
  plus row source factor h hsource hfactor := by
    refine ⟨h.1.addScaled hsource.1 hfactor, fun id hid => ?_⟩
    obtain ⟨term, hterm, rfl⟩ := List.mem_map.mp hid
    rcases SparseRow.mem_addScaled hterm with hin | hin
    · exact hsource.2 _ hin
    · exact h.2 _ hin

def formOf (entry : UInt32 × Row) : UInt32 × List (UInt32 × Gf256) := (entry.1, entry.2.coefficients)

/-- The rows are a reduced system and rows without terms. -/
def ReducedRows (rows : List Row) : Prop :=
  ∃ (system : List (UInt32 × Row)) (empty : List Row), rows = system.map Prod.snd ++ empty ∧
    SparseRow.Reduced (system.map formOf) ∧ ∀ row ∈ empty, row.coefficients = []

/-- The rows are a reduced system whose pivots are the first unknowns of their rows, and rows without terms. -/
def EchelonRows (rows : List Row) : Prop :=
  ∃ (system : List (UInt32 × Row)) (empty : List Row), rows = system.map Prod.snd ++ empty ∧
    SparseRow.Reduced (system.map formOf) ∧ (∀ row ∈ empty, row.coefficients = []) ∧
    ∀ entry ∈ system, ∀ id ∈ entry.2.coefficients.map Prod.fst, entry.1 ≤ id

theorem EchelonRows.reducedRows (h : EchelonRows rows) : ReducedRows rows := by
  obtain ⟨system, empty, heq, hreduced, hempty, _⟩ := h
  exact ⟨system, empty, heq, hreduced, hempty⟩

theorem eliminate_echelon {turns : ℕ} {system : List (UInt32 × Row)}
    (hturns : rest.length ≤ turns) (hsystem : SparseRow.Reduced (system.map formOf))
    (hwell : ∀ entry ∈ system, SparseRow.WellFormed entry.2.coefficients)
    (hrest : ∀ row ∈ rest, SparseRow.WellFormed row.coefficients)
    (hfirst : ∀ entry ∈ system, ∀ id ∈ entry.2.coefficients.map Prod.fst, entry.1 ≤ id)
    (hlater : ∀ entry ∈ system, ∀ row ∈ rest, ∀ id ∈ row.coefficients.map Prod.fst, entry.1 < id) :
    EchelonRows (eliminate turns (system.map Prod.snd) rest).1 := by
  induction turns generalizing system rest with
  | zero =>
    have hnil : rest = [] := List.eq_nil_of_length_eq_zero (Nat.le_zero.mp hturns)
    exact ⟨system, rest, rfl, hsystem, by simp [hnil], hfirst⟩
  | succ turns ih =>
    rw [eliminate]
    cases hchoose : choosePivot rest with
    | none => exact ⟨system, rest, rfl, hsystem, choosePivot_eq_none hchoose, hfirst⟩
    | some chosen =>
      obtain ⟨row, others⟩ := chosen
      obtain ⟨hterms, hperm⟩ := choosePivot_eq_some hchoose
      have hmem : row ∈ rest := hperm.subset List.mem_cons_self
      have hothers : ∀ other ∈ others, other ∈ rest := fun other hother =>
        hperm.subset (List.mem_cons_of_mem _ hother)
      have hrow := hrest row hmem
      have hone := Row.coefficient_normalized hrow hterms
      have hnormal := keptByElimination_wellFormed.normalized hrow hterms
      -- The chosen row has the least first unknown, so all unknowns left are at least that one.
      have hleast : ∀ other ∈ rest, SparseRow.WellFormed other.coefficients ∧
          ∀ id ∈ other.coefficients.map Prod.fst, row.leading ≤ id := fun other hother =>
        ⟨hrest other hother, fun id hid => (leading_le_of_choosePivot hchoose hother (by rintro hnil; simp [hnil] at hid)).trans
          (Row.leading_le (hrest other hother) hid)⟩
      have hbelow : ∀ entry ∈ system, ∀ other ∈ rest, SparseRow.WellFormed other.coefficients ∧
          ∀ id ∈ other.coefficients.map Prod.fst, entry.1 < id := fun entry hentry other hother =>
        ⟨hrest other hother, hlater entry hentry other hother⟩
      have hsource : ∀ entry ∈ system, SparseRow.coefficient row.normalized.coefficients entry.1 = 0 := fun entry hentry =>
        SparseRow.coefficient_eq_zero fun hin =>
          lt_irrefl _ (((keptByElimination_unknowns _).normalized (hbelow entry hentry row hmem) hterms).2 _ hin)
      have hreduced : SparseRow.Reduced
          (system.map (fun entry => (entry.1, (clearedBy row.leading row.normalized entry.2).coefficients)) ++
            [(row.leading, row.normalized.coefficients)]) :=
        SparseRow.Reduced.clear hsystem hone hsource fun entry hentry unknown =>
          coefficient_clearedBy (hwell entry hentry) _ _
      have hlength := hperm.length_eq
      have hdone : (system.map Prod.snd).map (clearedBy row.leading row.normalized) ++ [row.normalized] =
          (system.map (fun entry => (entry.1, clearedBy row.leading row.normalized entry.2)) ++
            [(row.leading, row.normalized)]).map Prod.snd := by
        simp [Function.comp_def]
      dsimp only
      rw [hdone]
      refine ih ?_ ?_ ?_ ?_ ?_ ?_
      · rw [List.length_map]
        rw [List.length_cons] at hlength
        omega
      · rw [List.map_append, List.map_map]
        exact hreduced
      · refine List.forall_mem_append.mpr ⟨List.forall_mem_map.mpr fun entry hentry => ?_, by simpa using hnormal⟩
        exact keptByElimination_wellFormed.clearedBy (hwell entry hentry) hnormal _
      · refine List.forall_mem_map.mpr fun other hother => ?_
        exact keptByElimination_wellFormed.clearedBy (hrest other (hothers other hother)) hnormal _
      · refine List.forall_mem_append.mpr ⟨List.forall_mem_map.mpr fun entry hentry => ?_, ?_⟩
        · have hbehind := (keptByElimination_unknowns _).normalized (hbelow entry hentry row hmem) hterms
          exact ((keptByElimination_unknowns (entry.1 ≤ ·)).clearedBy ⟨hwell entry hentry, hfirst entry hentry⟩
            ⟨hnormal, fun id hid => (hbehind.2 id hid).le⟩ _).2
        · exact List.forall_mem_singleton.mpr ((keptByElimination_unknowns _).normalized (hleast row hmem) hterms).2
      · refine List.forall_mem_append.mpr ⟨List.forall_mem_map.mpr fun entry hentry => ?_, ?_⟩
        · refine List.forall_mem_map.mpr fun other hother => ?_
          exact ((keptByElimination_unknowns _).clearedBy (hbelow entry hentry other (hothers other hother))
            ((keptByElimination_unknowns _).normalized (hbelow entry hentry row hmem) hterms) _).2
        · refine List.forall_mem_singleton.mpr (List.forall_mem_map.mpr fun other hother id hid => ?_)
          have hkept := (keptByElimination_unknowns _).clearedBy (hleast other (hothers other hother))
            ((keptByElimination_unknowns _).normalized (hleast row hmem) hterms) row.leading
          refine lt_of_le_of_ne (hkept.2 id hid) ?_
          rintro rfl
          refine hkept.1.coefficient_ne_zero.mpr hid ?_
          rw [coefficient_clearedBy (hrest other (hothers other hother)), hone, mul_one, sub_self]

/-- A quantity of rows that scaling and adding multiples act on as on the rows. -/
structure LinearInRows (residual : Row → Gf256) : Prop where
  scaled : ∀ row factor, residual (row.scaled factor) = residual row * factor
  plus : ∀ row source factor, residual (row.plus source factor) = residual row + residual source * factor

theorem linearInRows_value (assignment : UInt32 → Gf256) :
    LinearInRows fun row => SparseRow.value row.coefficients assignment where
  scaled row factor := SparseRow.value_scale factor row.coefficients assignment
  plus row source factor := SparseRow.value_addScaled factor source.coefficients row.coefficients assignment

variable {residual : Row → Gf256}

theorem LinearInRows.normalized (hlinear : LinearInRows residual) (hwell : SparseRow.WellFormed row.coefficients)
    (hterms : row.coefficients ≠ []) : residual row.normalized = 0 ↔ residual row = 0 := by
  obtain ⟨scalar, _, _, hscalar, hnormalized⟩ := Row.exists_head hwell hterms
  rw [hnormalized, hlinear.scaled]
  exact ⟨fun h => (mul_eq_zero.mp h).resolve_right (inv_ne_zero hscalar), fun h => by rw [h, zero_mul]⟩

theorem LinearInRows.cleared (hlinear : LinearInRows residual) (h : residual source = 0) (pivotId : UInt32) (row : Row) :
    residual (clearedBy pivotId source row) = residual row := by
  unfold clearedBy
  cases row.factor? pivotId with
  | none => rfl
  | some factor =>
    dsimp only
    rw [hlinear.plus, h, zero_mul, add_zero]

theorem LinearInRows.eliminate (hlinear : LinearInRows residual) (turns : ℕ) {done : List Row}
    (hdone : ∀ row ∈ done, SparseRow.WellFormed row.coefficients)
    (hrest : ∀ row ∈ rest, SparseRow.WellFormed row.coefficients) :
    (∀ row ∈ (eliminate turns done rest).1, residual row = 0) ↔ ∀ row ∈ done ++ rest, residual row = 0 := by
  induction turns generalizing done rest with
  | zero => rfl
  | succ turns ih =>
    rw [Quicp.eliminate]
    cases hchoose : choosePivot rest with
    | none => rfl
    | some chosen =>
      obtain ⟨row, others⟩ := chosen
      obtain ⟨hterms, hperm⟩ := choosePivot_eq_some hchoose
      have hrow := hrest row (hperm.subset List.mem_cons_self)
      have hothers : ∀ other ∈ others, SparseRow.WellFormed other.coefficients := fun other hother =>
        hrest other (hperm.subset (List.mem_cons_of_mem _ hother))
      have hnormal := keptByElimination_wellFormed.normalized hrow hterms
      have hdone' : ∀ other ∈ done.map (clearedBy row.leading row.normalized) ++ [row.normalized],
          SparseRow.WellFormed other.coefficients := by
        refine List.forall_mem_append.mpr ⟨List.forall_mem_map.mpr fun other hother => ?_, by simpa using hnormal⟩
        exact keptByElimination_wellFormed.clearedBy (hdone other hother) hnormal _
      have hothers' : ∀ other ∈ others.map (clearedBy row.leading row.normalized),
          SparseRow.WellFormed other.coefficients := List.forall_mem_map.mpr fun other hother =>
        keptByElimination_wellFormed.clearedBy (hothers other hother) hnormal _
      have hsplit : (∀ other ∈ rest, residual other = 0) ↔ residual row = 0 ∧ ∀ other ∈ others, residual other = 0 := by
        simp only [← hperm.mem_iff, List.mem_cons, forall_eq_or_imp]
      dsimp only
      rw [ih hdone' hothers', List.forall_mem_append, List.forall_mem_append, List.forall_mem_append,
        List.forall_mem_map, List.forall_mem_map, List.forall_mem_singleton, hsplit, hlinear.normalized hrow hterms]
      by_cases hzero : residual row = 0
      · have hcleared := hlinear.cleared ((hlinear.normalized hrow hterms).mpr hzero) row.leading
        simp only [hcleared, hzero, and_true, true_and]
      · simp only [hzero, and_false, false_and]

end Quicp
