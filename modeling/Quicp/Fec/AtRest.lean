import Quicp.Fec.Session

/-!
# The pending rows under any traffic

Whatever arrives, the rows that a call leaves behind are what an elimination keeps: a reduced system in which every
row has a second unknown.
-/

namespace Quicp

private theorem exists_of_bind {α β : Type} {first : Except FecError α} {next : α → Except FecError β} {result : β}
    (h : (first >>= next) = .ok result) : ∃ value, first = .ok value ∧ next value = .ok result := by
  cases first with
  | error error => cases h
  | ok value => exact ⟨value, rfl, h⟩

variable {budget work : ℕ}

private theorem length_of_xorScaled {target source out : List Gf256} {factor : Gf256} {spent : ℕ}
    (h : xorScaled target source factor work budget = .ok (out, spent)) : out.length = target.length := by
  by_cases hlong : source.length > target.length
  · rw [xorScaled, if_pos hlong] at h
    cases h
  · rw [xorScaled_eq (not_lt.mp hlong)] at h
    rw [← eq_of_metered h, PaddedVector.length_addScaled]

private theorem repairTerms_eq_ok {known : KnownSources} {repairId seed : UInt32} {count : ℕ}
    {first : UInt32} {data : List Gf256} {work' : ℕ} {row : Row}
    (h : repairTerms known repairId seed budget count first data work = .ok (row, work')) :
    row.coefficients = unknownTerms known (spanTerms repairId seed count first) ∧ row.data.length = data.length := by
  induction count generalizing first data work row work' with
  | zero =>
    cases h
    exact ⟨rfl, rfl⟩
  | succ count ih =>
    unfold repairTerms at h
    cases hfind : known.find first with
    | some source =>
      rw [hfind] at h
      obtain ⟨⟨added, spent⟩, hxor, h⟩ := exists_of_bind h
      obtain ⟨hterms, hdata⟩ := ih h
      refine ⟨?_, hdata.trans (length_of_xorScaled hxor)⟩
      rw [hterms]
      simp [unknownTerms, spanTerms_succ, hfind]
    | none =>
      rw [hfind] at h
      obtain ⟨⟨later, spent⟩, hrest, h⟩ := exists_of_bind h
      obtain ⟨rfl, rfl⟩ := Prod.mk.inj (Except.ok.inj h)
      obtain ⟨hterms, hdata⟩ := ih hrest
      refine ⟨?_, hdata⟩
      simp [unknownTerms, spanTerms_succ, hfind] at hterms ⊢
      exact hterms

private theorem mem_of_collectRecovered {rows : List Row} {items : List (UInt32 × List Gf256)}
    (h : collectRecovered rows = .ok items) : ∀ item ∈ items, ∃ row ∈ rows, row.solvedId = some item.1 := by
  induction rows generalizing items with
  | nil =>
    cases h
    exact List.forall_mem_nil _
  | cons row rest ih =>
    have hlater : ∀ {items}, collectRecovered rest = .ok items →
        ∀ item ∈ items, ∃ other ∈ row :: rest, other.solvedId = some item.1 := by
      intro items hitems item hitem
      obtain ⟨other, hother, hsolved⟩ := ih hitems item hitem
      exact ⟨other, List.mem_cons_of_mem _ hother, hsolved⟩
    unfold collectRecovered at h
    split at h
    · split_ifs at h
      exact hlater h
    · next id scalar hterms =>
      obtain ⟨later, hrest, h⟩ := exists_of_bind h
      cases h
      refine List.forall_mem_cons.mpr ⟨⟨row, List.mem_cons_self, ?_⟩, hlater hrest⟩
      exact Row.solvedId_eq_some.mpr ⟨scalar, hterms⟩
    · exact hlater h

private theorem dedupAfter_subset (id : UInt32) (items : List (UInt32 × List Gf256)) :
    dedupAfter id items ⊆ items := by
  induction items generalizing id with
  | nil => exact List.Subset.refl _
  | cons item rest ih =>
    unfold dedupAfter
    split_ifs
    · exact List.subset_cons_of_subset _ (ih id)
    · exact List.cons_subset_cons _ (ih item.1)

private theorem subset_of_sortRecovered {recovered items : List (UInt32 × List Gf256)}
    (h : sortRecovered recovered = .ok items) : items ⊆ recovered := by
  have hsorted := (List.perm_insertionSort (fun item later : UInt32 × List Gf256 => item.1 ≤ later.1) recovered).subset
  unfold sortRecovered at h
  dsimp only at h
  split_ifs at h
  cases h
  cases hcases : recovered.insertionSort (fun item later => item.1 ≤ later.1) with
  | nil => exact List.nil_subset _
  | cons item rest =>
    rw [hcases] at hsorted
    exact List.Subset.trans (List.cons_subset_cons _ (dedupAfter_subset item.1 rest)) hsorted

private theorem symbolIds_of_canonicalRecovered {maxSymbolBytes : ℕ} {solved : List (UInt32 × List Gf256)}
    {items : List RecoveredSource} (h : canonicalRecovered maxSymbolBytes solved = .ok items) :
    items.map RecoveredSource.symbolId = solved.map Prod.fst := by
  induction solved generalizing items with
  | nil =>
    cases h
    rfl
  | cons item rest ih =>
    unfold canonicalRecovered at h
    split at h
    · cases h
    · split_ifs at h
      obtain ⟨later, hrest, h⟩ := exists_of_bind h
      cases h
      rw [List.map_cons, List.map_cons, ih hrest]

/-- What is left of a row when the source with the identifier is substituted: its other terms and as many bytes. -/
structure SubstitutedFrom (id : UInt32) (row row' : Row) : Prop where
  sublist : row'.coefficients.Sublist row.coefficients
  absent : SparseRow.WellFormed row.coefficients → id ∉ row'.coefficients.map Prod.fst
  length : row'.data.length = row.data.length

private theorem substituteRows_eq_ok {id : UInt32} {source : List Gf256} {rows rows' : List Row}
    {work' : ℕ} (h : substituteRows id source budget rows work = .ok (rows', work')) :
    rows'.length = rows.length ∧ ∀ row' ∈ rows', ∃ row ∈ rows, SubstitutedFrom id row row' := by
  induction rows generalizing work rows' work' with
  | nil =>
    cases h
    exact ⟨rfl, List.forall_mem_nil _⟩
  | cons row rest ih =>
    obtain ⟨⟨first, spent⟩, hrow, h⟩ := exists_of_bind h
    obtain ⟨⟨later, spent'⟩, hrest, h⟩ := exists_of_bind h
    cases h
    obtain ⟨hlength, hlater⟩ := ih hrest
    refine ⟨congrArg (· + 1) hlength, List.forall_mem_cons.mpr ⟨⟨row, List.mem_cons_self, ?_⟩, fun row' hrow' => ?_⟩⟩
    swap
    · obtain ⟨original, hmem, hfrom⟩ := hlater row' hrow'
      exact ⟨original, List.mem_cons_of_mem _ hmem, hfrom⟩
    unfold substituteRow at hrow
    cases htake : SparseRow.takeTerm id row.coefficients with
    | none =>
      rw [htake] at hrow
      cases hrow
      exact ⟨List.Sublist.refl _, fun _ => SparseRow.takeTerm_eq_none.mp htake, rfl⟩
    | some taken =>
      rw [htake] at hrow
      obtain ⟨⟨data, spent⟩, hxor, hrow⟩ := exists_of_bind hrow
      cases hrow
      exact ⟨(SparseRow.takeTerm_sublist htake).1, fun hwell => hwell.not_mem_takeTerm htake,
        length_of_xorScaled hxor⟩

namespace Decoder

variable {items : List RecoveredSource} {rows' : List Row}

theorem solve_eq_ok {d : Decoder} {rows : List Row} {workBudget : ℕ}
    (h : d.solve rows workBudget = .ok (rows', items)) : rows' = keptRows rows ∧
      ∀ item ∈ items, ∃ row ∈ (eliminate rows.length [] rows).1, row.solvedId = some item.symbolId := by
  obtain ⟨⟨reduced, recovered⟩, hreduce, h⟩ := exists_of_bind h
  obtain ⟨canonical, hcanonical, h⟩ := exists_of_bind h
  obtain ⟨_, _, h⟩ := exists_of_bind h
  obtain ⟨⟨eliminated, spent⟩, hloop, hreduce⟩ := exists_of_bind hreduce
  obtain ⟨collected, hcollect, hreduce⟩ := exists_of_bind hreduce
  obtain ⟨sorted, hsort, hreduce⟩ := exists_of_bind hreduce
  cases hreduce
  cases h
  rw [reduceLoop_eq] at hloop
  obtain rfl := eq_of_metered hloop
  refine ⟨rfl, fun item hitem => ?_⟩
  have hid : item.symbolId ∈ recovered.map Prod.fst := by
    rw [← symbolIds_of_canonicalRecovered hcanonical]
    exact List.mem_map_of_mem hitem
  obtain ⟨solved, hsolved, heq⟩ := List.mem_map.mp hid
  rw [← heq]
  exact mem_of_collectRecovered hcollect solved (subset_of_sortRecovered hsort hsolved)

variable {id : UInt32} {source : List UInt8}

theorem sourceRows_eq_ok {d : Decoder} {workBudget : ℕ}
    (h : d.sourceRows id source workBudget = .ok (rows', items)) :
    ∃ rows, (rows.length = d.rows.length ∧ ∀ row' ∈ rows, ∃ row ∈ d.rows, SubstitutedFrom id row row') ∧
      rows' = keptRows rows ∧ ∀ item ∈ items, ∃ row ∈ (eliminate rows.length [] rows).1, row.solvedId = some item.symbolId := by
  unfold sourceRows at h
  split at h
  · cases h
  · split_ifs at h
    obtain ⟨⟨rows, spent⟩, hsubstitute, hsolve⟩ := exists_of_bind h
    exact ⟨rows, substituteRows_eq_ok hsubstitute, solve_eq_ok hsolve⟩

variable {coded : List UInt8} {firstSymbolId repairId seed : UInt32} {span : ℕ}

theorem repairRows_eq_ok {d : Decoder}
    {workBudget : ℕ}
    (h : d.repairRows firstSymbolId span repairId seed coded workBudget = .ok (rows', items)) :
    rows' = d.rows ∧ items = [] ∨
      ∃ row : Row, row.coefficients = (pendingRow d.known firstSymbolId span repairId seed coded).coefficients ∧
        row.data.length = coded.length ∧ rows' = keptRows (d.rows ++ [row]) ∧
        ∀ item ∈ items, ∃ solved ∈ (eliminate (d.rows ++ [row]).length [] (d.rows ++ [row])).1,
          solved.solvedId = some item.symbolId := by
  unfold repairRows at h
  split at h
  · cases h
  · split_ifs at h
    split at h
    · cases h
    · next row work hrow =>
      obtain ⟨⟨terms, spent⟩, hterms, hsorted⟩ := exists_of_bind hrow
      cases hsorted
      obtain ⟨hcoefficients, hdata⟩ := repairTerms_eq_ok hterms
      split_ifs at h
      · cases h
        exact Or.inl ⟨rfl, rfl⟩
      · refine Or.inr ⟨_, ?_, ?_, solve_eq_ok h⟩
        · dsimp only
          rw [hcoefficients]
          rfl
        · rw [hdata, Gf256.ofBytes, List.length_map]

/-- The rows are well formed, reduced and without solved ones. -/
structure AtRest (d : Decoder) : Prop where
  wellFormed : ∀ row ∈ d.rows, SparseRow.WellFormed row.coefficients
  pending : PendingRows d.rows

theorem atRest_keptRows {d : Decoder} {rows : List Row} (hrows : d.rows = keptRows rows)
    (h : ∀ row ∈ rows, SparseRow.WellFormed row.coefficients) : d.AtRest where
  wellFormed := by
    intro row hrow
    rw [hrows] at hrow
    exact keptByElimination_wellFormed.eliminate rows.length (List.forall_mem_nil _) h row (List.mem_of_mem_filter hrow)
  pending := by
    rw [hrows]
    exact pendingRows_keptRows h

variable {d next : Decoder} {budget after : RecoveryMemoryBudget} {workBudget : ℕ}

theorem AtRest.of_rows_eq (h : d.AtRest) (hrows : next.rows = d.rows) : next.AtRest :=
  ⟨hrows ▸ h.wellFormed, hrows ▸ h.pending⟩

variable {outcome : Outcome FecError RecoveredBatch}

theorem AtRest.addSource (h : d.AtRest)
    (hresult : SourceResult d budget id source workBudget outcome next after) : next.AtRest := by
  cases hresult with
  | alone fresh hrows hnext hinserted hreturned => exact h.of_rows_eq (hnext.trans hrows.symm)
  | solved fresh hrows hsolved hinserted hreturned =>
    obtain ⟨rows, ⟨_, hsubstituted⟩, hkept, _⟩ := sourceRows_eq_ok hsolved
    refine atRest_keptRows hkept fun row hrow => ?_
    obtain ⟨original, hmem, hfrom⟩ := hsubstituted row hrow
    exact (h.wellFormed original hmem).sublist hfrom.sublist
  | _ => exact h

theorem AtRest.addRepair (h : d.AtRest)
    (hresult : RepairResult d budget firstSymbolId span repairId seed coded workBudget outcome next after) :
    next.AtRest := by
  cases hresult with
  | solved hspan hroom hsolved hreturned =>
    rcases repairRows_eq_ok hsolved with ⟨rfl, _⟩ | ⟨row, hterms, _, hkept, _⟩
    · exact h.of_rows_eq rfl
    · refine atRest_keptRows hkept (List.forall_mem_append.mpr ⟨h.wellFormed, List.forall_mem_singleton.mpr ?_⟩)
      rw [hterms]
      exact wellFormed_unknownTerms d.known hspan firstSymbolId repairId seed
  | _ => exact h

theorem CommitResult.rows_eq {charge : RecoveryCharge}
    {outcome : Outcome FecError Unit} (h : CommitResult d budget id source charge outcome next after) :
    next.rows = d.rows ∧ next.maxRows = d.maxRows := by
  cases h with
  | inserted fresh hrows hinserted => exact ⟨hrows, hinserted.maxRows⟩
  | _ => exact ⟨rfl, rfl⟩

theorem AtRest.commit (h : d.AtRest) {charge : RecoveryCharge}
    {outcome : Outcome FecError Unit} (hresult : CommitResult d budget id source charge outcome next after) :
    next.AtRest :=
  h.of_rows_eq hresult.rows_eq.1

theorem SourceResult.maxRows
    (h : SourceResult d budget id source workBudget outcome next after) : next.maxRows = d.maxRows := by
  cases h with
  | alone fresh hrows hnext hinserted hreturned => exact hinserted.maxRows
  | solved fresh hrows hsolved hinserted hreturned => exact hinserted.maxRows
  | _ => rfl

theorem RepairResult.maxRows
    (h : RepairResult d budget firstSymbolId span repairId seed coded workBudget outcome next after) :
    next.maxRows = d.maxRows := by
  cases h <;> rfl

/-- The identifiers that the pending rows leave unresolved. -/
def unresolved (d : Decoder) : Finset UInt32 := (d.rows.flatMap fun row => row.coefficients.map Prod.fst).toFinset

theorem AtRest.length_lt_unresolved (h : d.AtRest) (hne : d.rows ≠ []) : d.rows.length < d.unresolved.card := by
  obtain ⟨system, hrows, hreduced, hlong⟩ := h.pending
  have hmem : ∀ entry ∈ system, entry.2 ∈ d.rows := by
    intro entry hentry
    rw [hrows]
    exact List.mem_map_of_mem hentry
  have hbound := hreduced.length_lt_card
    (List.forall_mem_map.mpr fun entry hentry => h.wellFormed entry.2 (hmem entry hentry))
    (List.forall_mem_map.mpr fun entry hentry => hlong entry.2 (hmem entry hentry))
    (by
      intro hnil
      rw [List.map_eq_nil_iff] at hnil
      exact hne (by rw [hrows, hnil]; rfl))
  rw [unresolved, hrows, List.length_map]
  rw [List.length_map] at hbound
  simpa [List.flatMap_map, formOf] using hbound

end Decoder

end Quicp
