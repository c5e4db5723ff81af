import Quicp.Fec.Equations

/-!
# Honest sources and repairs

A repair of honest symbols is the sum of the symbols of its span, each multiplied by its coefficient.
-/

namespace Quicp

def spanIds : ℕ → UInt32 → List UInt32
  | 0, _ => []
  | count + 1, id => id :: spanIds count (id + 1)

def spanTerms (repairId seed : UInt32) (count : ℕ) (id : UInt32) : List (UInt32 × Gf256) :=
  (spanIds count id).map (fun id => (id, ⟨coefficient seed repairId id⟩))

theorem spanTerms_succ (repairId seed : UInt32) (count : ℕ) (id : UInt32) :
    spanTerms repairId seed (count + 1) id =
      (id, ⟨coefficient seed repairId id⟩) :: spanTerms repairId seed count (id + 1) := rfl

private theorem mem_spanIds {count : ℕ} {first id : UInt32} (h : id ∈ spanIds count first) :
    ∃ k < count, id = first + UInt32.ofNat k := by
  induction count generalizing first with
  | zero => cases h
  | succ count ih =>
    rcases List.mem_cons.mp h with rfl | h
    · exact ⟨0, Nat.succ_pos _, by simp⟩
    · obtain ⟨k, hk, rfl⟩ := ih h
      exact ⟨k + 1, by omega, by rw [UInt32.ofNat_add, UInt32.add_assoc, UInt32.add_comm 1]; rfl⟩

theorem nodup_spanIds {count : ℕ} (hcount : count ≤ maxRepairSpan) (first : UInt32) :
    (spanIds count first).Nodup := by
  induction count generalizing first with
  | zero => exact List.nodup_nil
  | succ count ih =>
    refine List.nodup_cons.mpr ⟨fun hmem => ?_, ih (by omega) _⟩
    obtain ⟨k, hk, heq⟩ := mem_spanIds hmem
    unfold maxRepairSpan at hcount
    have hnat := congrArg UInt32.toNat heq
    rw [UInt32.toNat_add, UInt32.toNat_add, UInt32.toNat_ofNat'] at hnat
    have hone : (1 : UInt32).toNat = 1 := rfl
    have hlt := first.toNat_lt
    omega

theorem length_spanIds (count : ℕ) (first : UInt32) : (spanIds count first).length = count := by
  induction count generalizing first with
  | zero => rfl
  | succ count ih => rw [spanIds, List.length_cons, ih]

theorem repairLoop_getD (repairId seed : UInt32) {symbol : UInt32 → List UInt8} (count : ℕ) (first : UInt32)
    {output : List Gf256} (hfits : ∀ id ∈ spanIds count first, (symbol id).length ≤ output.length) (i : ℕ) :
    (repairLoop repairId seed first ((spanIds count first).map symbol) output).getD i 0 =
      output.getD i 0 + SparseRow.value (spanTerms repairId seed count first)
        (fun id => (symbolData symbol id).getD i 0) := by
  induction count generalizing first output with
  | zero => simp [repairLoop, spanIds, spanTerms]
  | succ count ih =>
    obtain ⟨hfirst, hrest⟩ := List.forall_mem_cons.mp hfits
    have hlength : (symbolData symbol first).length ≤ output.length := by
      rw [symbolData, Gf256.ofBytes, List.length_map]
      exact hfirst
    have hrest' : ∀ id ∈ spanIds count (first + 1), (symbol id).length ≤
        (PaddedVector.addScaled ⟨coefficient seed repairId first⟩ output (symbolData symbol first)).length := by
      rw [PaddedVector.length_addScaled]
      exact hrest
    have hnext := ih (first + 1) hrest'
    rw [PaddedVector.getD_addScaled hlength] at hnext
    rw [spanIds, List.map_cons, repairLoop, ← symbolData, hnext, spanTerms_succ, SparseRow.value_cons]
    ring

theorem length_repairLoop (repairId seed first : UInt32) (sources : List (List UInt8)) (output : List Gf256) :
    (repairLoop repairId seed first sources output).length = output.length := by
  induction sources generalizing first output with
  | nil => rfl
  | cons source rest ih => rw [repairLoop, ih, PaddedVector.length_addScaled]

theorem repairSymbol_eq_ok {firstSymbolId repairId seed : UInt32} {symbol : UInt32 → List UInt8} {span : ℕ}
    {coded : List UInt8} {maxSymbolBytes : ℕ}
    (hbounded : ∀ id ∈ spanIds span firstSymbolId, (symbol id).length ≤ maxSymbolBytes)
    (h : repairSymbol firstSymbolId repairId seed ((spanIds span firstSymbolId).map symbol) = .ok coded) :
    0 < span ∧ span ≤ maxRepairSpan ∧ coded ≠ [] ∧ coded.length ≤ maxSymbolBytes ∧
      (∀ id ∈ spanIds span firstSymbolId, (symbol id).length ≤ coded.length) ∧
      ∀ i, (Gf256.ofBytes coded).getD i 0 = SparseRow.value (spanTerms repairId seed span firstSymbolId)
        (fun id => (symbolData symbol id).getD i 0) := by
  unfold repairSymbol at h
  dsimp only at h
  split_ifs at h with hspan hsize
  rw [List.map_eq_nil_iff, List.length_map, length_spanIds, not_or, not_lt] at hspan
  have hpositive : 0 < span := by
    rw [Nat.pos_iff_ne_zero]
    rintro rfl
    exact hspan.1 rfl
  cases hmax : (((spanIds span firstSymbolId).map symbol).map List.length).max? with
  | none =>
    rw [List.max?_eq_none_iff, List.map_eq_nil_iff, List.map_eq_nil_iff] at hmax
    exact absurd hmax hspan.1
  | some size =>
    obtain ⟨hmem, hle⟩ := List.max?_eq_some_iff.mp hmax
    rw [hmax, Option.getD_some, not_or, not_lt] at hsize
    rw [hmax, Option.getD_some, Except.ok.injEq] at h
    have hfits : ∀ id ∈ spanIds span firstSymbolId, (symbol id).length ≤ (List.replicate size (0 : Gf256)).length := by
      intro id hid
      rw [List.length_replicate]
      exact hle _ (List.mem_map_of_mem (List.mem_map_of_mem hid))
    have hlength : coded.length = size := by
      rw [← h, Gf256.toBytes, List.length_map, length_repairLoop, List.length_replicate]
    have hdata : Gf256.ofBytes coded =
        repairLoop repairId seed firstSymbolId ((spanIds span firstSymbolId).map symbol) (List.replicate size 0) := by
      rw [← h, Gf256.ofBytes, Gf256.toBytes, List.map_map]
      exact List.map_id _
    have hsmall : size ≤ maxSymbolBytes := by
      obtain ⟨source, hsource, rfl⟩ := List.mem_map.mp hmem
      obtain ⟨id, hid, rfl⟩ := List.mem_map.mp hsource
      exact hbounded id hid
    refine ⟨hpositive, hspan.2, ?_, hlength ▸ hsmall, ?_, ?_⟩
    · rintro rfl
      exact hsize.1 hlength.symm
    · simpa [hlength] using hfits
    · intro i
      have hzero : (List.replicate size (0 : Gf256)).getD i 0 = 0 := by
        rw [List.getD_eq_getElem?_getD, List.getElem?_replicate]
        split_ifs <;> rfl
      rw [hdata, repairLoop_getD repairId seed span firstSymbolId hfits, hzero, zero_add]

def substituted (id : UInt32) (source : List Gf256) (row : Row) : Row :=
  match SparseRow.takeTerm id row.coefficients with
  | none => row
  | some (factor, coefficients) => ⟨coefficients, PaddedVector.addScaled factor row.data source⟩

def substituteWork (id : UInt32) (source : List Gf256) (row : Row) : ℕ :=
  if (SparseRow.takeTerm id row.coefficients).isSome then source.length else 0

private theorem substituteRow_eq {id : UInt32} {source : List Gf256} {row : Row}
    (h : id ∈ row.coefficients.map Prod.fst → source.length ≤ row.data.length) (budget work : ℕ) :
    substituteRow id source budget row work =
      metered (substituteWork id source row) work budget (substituted id source row) := by
  unfold substituteRow substituteWork substituted
  cases htake : SparseRow.takeTerm id row.coefficients with
  | none => rfl
  | some taken =>
    have hmem : id ∈ row.coefficients.map Prod.fst :=
      List.mem_map.mpr ⟨_, (SparseRow.takeTerm_sublist htake).2, rfl⟩
    dsimp only
    rw [xorScaled_eq (h hmem), Option.isSome_some, if_pos rfl]
    exact metered_map (fun data => (⟨taken.2, data⟩ : Row)) _ _ _ _

theorem substituteRows_eq {id : UInt32} {source : List Gf256} {rows : List Row}
    (h : ∀ row ∈ rows, id ∈ row.coefficients.map Prod.fst → source.length ≤ row.data.length) (budget work : ℕ) :
    substituteRows id source budget rows work =
      metered (rows.map (substituteWork id source)).sum work budget (rows.map (substituted id source)) := by
  induction rows generalizing work with
  | nil => rfl
  | cons row rest ih =>
    obtain ⟨hrow, hrest⟩ := List.forall_mem_cons.mp h
    have hloop : substituteRows id source budget (row :: rest) work =
        (substituteRow id source budget row work).bind fun out =>
          (substituteRows id source budget rest out.2).bind fun later => .ok (out.1 :: later.1, later.2) := rfl
    rw [hloop, substituteRow_eq hrow, List.map_cons, List.map_cons, List.sum_cons]
    refine metered_bind fun work => ?_
    rw [ih hrest]
    exact metered_map (fun later => substituted id source row :: later) _ _ _ _

theorem sublist_substituted (id : UInt32) (source : List Gf256) (row : Row) :
    (substituted id source row).coefficients.Sublist row.coefficients := by
  unfold substituted
  cases htake : SparseRow.takeTerm id row.coefficients with
  | none => exact List.Sublist.refl _
  | some taken => exact (SparseRow.takeTerm_sublist htake).1

theorem TrueRow.substituted {symbols : UInt32 → List Gf256} {maxSymbolBytes : ℕ} {row : Row}
    (h : TrueRow symbols maxSymbolBytes row) (id : UInt32) :
    TrueRow symbols maxSymbolBytes (substituted id (symbols id) row) := by
  unfold Quicp.substituted
  cases htake : SparseRow.takeTerm id row.coefficients with
  | none => exact h
  | some taken =>
    obtain ⟨hsub, hmem⟩ := SparseRow.takeTerm_sublist htake
    have hfits : (symbols id).length ≤ row.data.length := h.fits id (List.mem_map.mpr ⟨_, hmem, rfl⟩)
    refine ⟨h.wellFormed.sublist hsub, ?_, ?_, fun i => ?_⟩
    · intro other hother
      rw [PaddedVector.length_addScaled]
      exact h.fits other ((hsub.map _).subset hother)
    · rw [PaddedVector.length_addScaled]
      exact h.bounded
    · rw [PaddedVector.getD_addScaled hfits, ← h.holds i, SparseRow.value_takeTerm htake, mul_comm taken.1,
        add_right_comm, Gf256.add_self, zero_add]

section KnownSymbols

variable (known : KnownSources)

def codedRest (repairId seed : UInt32) (ids : List UInt32) (data : List Gf256) : List Gf256 :=
  ids.foldl (fun data id =>
    match known.find id with
    | some source => PaddedVector.addScaled ⟨coefficient seed repairId id⟩ data (Gf256.ofBytes source.bytes)
    | none => data) data

/-- The operations of taking the known symbols of a span out of the coded bytes. -/
def codedWork (ids : List UInt32) : ℕ :=
  (ids.map fun id => ((known.find id).map fun source => source.bytes.length).getD 0).sum

def unknownTerms (terms : List (UInt32 × Gf256)) : List (UInt32 × Gf256) :=
  terms.filter fun term => (known.find term.1).isNone

private theorem repairTerms_eq (repairId seed : UInt32) (budget count : ℕ) (first : UInt32) {data : List Gf256}
    (h : ∀ id ∈ spanIds count first, ∀ source, known.find id = some source → source.bytes.length ≤ data.length)
    (work : ℕ) : repairTerms known repairId seed budget count first data work =
      metered (codedWork known (spanIds count first)) work budget
        ⟨unknownTerms known (spanTerms repairId seed count first),
          codedRest known repairId seed (spanIds count first) data⟩ := by
  induction count generalizing first data work with
  | zero => rfl
  | succ count ih =>
    obtain ⟨hfirst, hrest⟩ := List.forall_mem_cons.mp h
    cases hfind : known.find first with
    | some source =>
      have hlength : (Gf256.ofBytes source.bytes).length ≤ data.length := by
        rw [Gf256.ofBytes, List.length_map]
        exact hfirst source hfind
      have hwork : codedWork known (spanIds (count + 1) first) =
          (Gf256.ofBytes source.bytes).length + codedWork known (spanIds count (first + 1)) := by
        simp [codedWork, spanIds, hfind, Gf256.ofBytes]
      have hterms : unknownTerms known (spanTerms repairId seed (count + 1) first) =
          unknownTerms known (spanTerms repairId seed count (first + 1)) := by
        simp [unknownTerms, spanTerms_succ, hfind]
      simp only [repairTerms, hfind, hwork, hterms, bind]
      rw [xorScaled_eq hlength]
      refine metered_bind fun work => ?_
      rw [ih (first + 1) (by simpa using hrest)]
      simp only [codedRest, spanIds, List.foldl_cons, hfind]
    | none =>
      have hwork : codedWork known (spanIds (count + 1) first) = codedWork known (spanIds count (first + 1)) := by
        simp [codedWork, spanIds, hfind]
      have hterms : unknownTerms known (spanTerms repairId seed (count + 1) first) =
          (first, ⟨coefficient seed repairId first⟩) ::
            unknownTerms known (spanTerms repairId seed count (first + 1)) := by
        simp [unknownTerms, spanTerms_succ, hfind]
      simp only [repairTerms, hfind, hwork, hterms, bind]
      rw [ih (first + 1) hrest]
      simp only [codedRest, spanIds, List.foldl_cons, hfind]
      exact metered_map (fun row : Row =>
        { row with coefficients := (first, ⟨coefficient seed repairId first⟩) :: row.coefficients }) _ _ _ _

theorem length_codedRest (repairId seed : UInt32) (ids : List UInt32) (data : List Gf256) :
    (codedRest known repairId seed ids data).length = data.length := by
  induction ids generalizing data with
  | nil => rfl
  | cons id rest ih =>
    rw [codedRest, List.foldl_cons, ← codedRest, ih]
    cases known.find id with
    | none => rfl
    | some source => exact PaddedVector.length_addScaled ..

/-- The row of a repair, with the known symbols taken out. -/
def pendingRow (firstSymbolId : UInt32) (span : ℕ) (repairId seed : UInt32) (coded : List UInt8) : Row :=
  ⟨(unknownTerms known (spanTerms repairId seed span firstSymbolId)).insertionSort
      (fun term later => term.1 ≤ later.1),
    codedRest known repairId seed (spanIds span firstSymbolId) (Gf256.ofBytes coded)⟩

theorem Decoder.repairRow_eq {d : Decoder} {firstSymbolId repairId seed : UInt32} {span : ℕ} {coded : List UInt8}
    (h : ∀ id ∈ spanIds span firstSymbolId, ∀ source, d.known.find id = some source →
      source.bytes.length ≤ coded.length) (work workBudget : ℕ) :
    d.repairRow firstSymbolId span repairId seed coded work workBudget =
      metered (codedWork d.known (spanIds span firstSymbolId)) work workBudget
        (pendingRow d.known firstSymbolId span repairId seed coded) := by
  have hlength : (Gf256.ofBytes coded).length = coded.length := List.length_map ..
  rw [← hlength] at h
  rw [repairRow, repairTerms_eq d.known repairId seed workBudget span firstSymbolId h]
  exact metered_map (fun row : Row =>
    { row with coefficients := row.coefficients.insertionSort (fun term later => term.1 ≤ later.1) }) _ _ _ _

theorem wellFormed_unknownTerms (known : KnownSources) {span : ℕ} (hspan : span ≤ maxRepairSpan)
    (firstSymbolId repairId seed : UInt32) :
    SparseRow.WellFormed ((unknownTerms known (spanTerms repairId seed span firstSymbolId)).insertionSort
      (fun term later => term.1 ≤ later.1)) := by
  have hperm := List.perm_insertionSort (fun term later : UInt32 × Gf256 => term.1 ≤ later.1)
    (unknownTerms known (spanTerms repairId seed span firstSymbolId))
  have hids : (spanTerms repairId seed span firstSymbolId).map Prod.fst = spanIds span firstSymbolId := by
    simp [spanTerms, Function.comp_def]
  have hnodup := nodup_spanIds hspan firstSymbolId
  rw [← hids] at hnodup
  have hdistinct : ((unknownTerms known (spanTerms repairId seed span firstSymbolId)).insertionSort
      (fun term later => term.1 ≤ later.1)).Pairwise (fun term later => term.1 ≠ later.1) :=
    List.pairwise_map.mp ((hperm.map Prod.fst).nodup_iff.mpr (hnodup.sublist (List.filter_sublist.map _)))
  refine ⟨?_, fun term hterm => ?_⟩
  · exact List.Pairwise.imp₂ (fun _ _ hle hne => lt_of_le_of_ne hle hne) (List.pairwise_insertionSort _ _) hdistinct
  · obtain ⟨id, _, rfl⟩ := List.mem_map.mp (List.mem_of_mem_filter (hperm.subset hterm))
    intro hzero
    have hbyte := congrArg Gf256.byte hzero
    rw [Gf256.byte_zero] at hbyte
    exact coefficient_ne_zero seed repairId id hbyte

variable {known} {symbol : UInt32 → List UInt8} (hknown : ∀ source ∈ known.queue, source.bytes = symbol source.symbolId)

include hknown

theorem bytes_of_find {id : UInt32} {source : KnownSource} (h : known.find id = some source) :
    source.bytes = symbol id := by
  obtain ⟨hmem, rfl⟩ := KnownSources.find_eq_some h
  exact hknown source hmem

theorem getD_codedRest (repairId seed : UInt32) {ids : List UInt32} {data : List Gf256}
    (hfits : ∀ id ∈ ids, (symbol id).length ≤ data.length) (i : ℕ) :
    (codedRest known repairId seed ids data).getD i 0 = data.getD i 0 + SparseRow.value
      ((ids.map fun id => (id, (⟨coefficient seed repairId id⟩ : Gf256))).filter
        fun term => !(known.find term.1).isNone) (fun id => (symbolData symbol id).getD i 0) := by
  induction ids generalizing data with
  | nil => simp [codedRest]
  | cons id rest ih =>
    obtain ⟨hfirst, hrest⟩ := List.forall_mem_cons.mp hfits
    rw [codedRest, List.foldl_cons, ← codedRest, List.map_cons]
    cases hfind : known.find id with
    | none => rw [ih hrest, List.filter_cons_of_neg (by simp [hfind])]
    | some source =>
      have hlength : (symbolData symbol id).length ≤ data.length := by
        rw [symbolData, Gf256.ofBytes, List.length_map]
        exact hfirst
      dsimp only
      rw [bytes_of_find hknown hfind, ← symbolData, ih (by simpa using hrest),
        PaddedVector.getD_addScaled hlength, List.filter_cons_of_pos (by simp [hfind]), SparseRow.value_cons]
      ring

theorem trueRow_pendingRow {maxSymbolBytes : ℕ} {firstSymbolId repairId seed : UInt32} {span : ℕ}
    {coded : List UInt8} (hbounded : ∀ id ∈ spanIds span firstSymbolId, (symbol id).length ≤ maxSymbolBytes)
    (h : repairSymbol firstSymbolId repairId seed ((spanIds span firstSymbolId).map symbol) = .ok coded) :
    TrueRow (symbolData symbol) maxSymbolBytes (pendingRow known firstSymbolId span repairId seed coded) := by
  obtain ⟨_, hspan, _, hsize, hfits, hcoded⟩ := repairSymbol_eq_ok hbounded h
  have hperm := List.perm_insertionSort (fun term later : UInt32 × Gf256 => term.1 ≤ later.1)
    (unknownTerms known (spanTerms repairId seed span firstSymbolId))
  have hlength : (Gf256.ofBytes coded).length = coded.length := List.length_map ..
  have hids : (spanTerms repairId seed span firstSymbolId).map Prod.fst = spanIds span firstSymbolId := by
    simp [spanTerms, Function.comp_def]
  refine ⟨wellFormed_unknownTerms known hspan firstSymbolId repairId seed, ?_, ?_, ?_⟩
  · intro id hid
    have hmem : id ∈ spanIds span firstSymbolId := by
      rw [← hids]
      exact (List.filter_sublist.map Prod.fst).subset ((hperm.map Prod.fst).subset hid)
    rw [pendingRow, length_codedRest, hlength, symbolData, Gf256.ofBytes, List.length_map]
    exact hfits id hmem
  · rw [pendingRow, length_codedRest, hlength]
    exact hsize
  · intro i
    have hsplit := SparseRow.value_filter_add (fun term => (known.find term.1).isNone)
      (spanTerms repairId seed span firstSymbolId) (fun id => (symbolData symbol id).getD i 0)
    rw [← hlength] at hfits
    rw [pendingRow, getD_codedRest hknown repairId seed hfits, hcoded i, SparseRow.value_perm hperm,
      ← hsplit, ← spanTerms, add_assoc, Gf256.add_self, add_zero]
    rfl

end KnownSymbols

end Quicp
