import Quicp.Fec.Decoder
import Quicp.Fec.Elimination

/-!
# Rows as true equations

Against a fixed assignment of symbols to identifiers a row is true when it holds at every position of the zero-padded
symbols.
-/

namespace Quicp

/-- The row is a true equation between the symbols, each no longer than the row. -/
structure TrueRow (symbols : UInt32 → List Gf256) (maxSymbolBytes : ℕ) (row : Row) : Prop where
  wellFormed : SparseRow.WellFormed row.coefficients
  fits : ∀ id ∈ row.coefficients.map Prod.fst, (symbols id).length ≤ row.data.length
  bounded : row.data.length ≤ maxSymbolBytes
  holds : ∀ i, SparseRow.value row.coefficients (fun id => (symbols id).getD i 0) = row.data.getD i 0

variable {symbols : UInt32 → List Gf256} {maxSymbolBytes : ℕ}

theorem keptByElimination_trueRow : KeptByElimination (TrueRow symbols maxSymbolBytes) where
  wellFormed _ h := h.wellFormed
  scaled row factor h hfactor :=
    { wellFormed := h.wellFormed.scale hfactor
      fits := by
        intro id hid
        rw [Row.scaled, List.length_map]
        refine h.fits id ?_
        simpa [Row.scaled, SparseRow.scale, Function.comp_def] using hid
      bounded := by
        rw [Row.scaled, List.length_map]
        exact h.bounded
      holds := by
        intro i
        rw [Row.scaled, SparseRow.value_scale, h.holds, PaddedVector.getD_map_mul] }
  plus row source factor h hsource hfactor :=
    { wellFormed := h.wellFormed.addScaled hsource.wellFormed hfactor
      fits := by
        intro id hid
        obtain ⟨term, hterm, rfl⟩ := List.mem_map.mp hid
        rw [Row.plus, PaddedVector.length_addScaled, PaddedVector.length_grow]
        rcases SparseRow.mem_addScaled hterm with hin | hin
        · exact (hsource.fits _ hin).trans (le_max_right _ _)
        · exact (h.fits _ hin).trans (le_max_left _ _)
      bounded := by
        rw [Row.plus, PaddedVector.length_addScaled, PaddedVector.length_grow]
        exact max_le h.bounded hsource.bounded
      holds := by
        intro i
        have hlong : source.data.length ≤ (PaddedVector.grow source.data.length row.data).length := by
          rw [PaddedVector.length_grow]
          exact le_max_right _ _
        rw [Row.plus, SparseRow.value_addScaled, h.holds, hsource.holds, PaddedVector.getD_addScaled hlong,
          PaddedVector.getD_grow] }

def Row.solvedId (row : Row) : Option UInt32 :=
  match row.coefficients with
  | [(id, _)] => some id
  | _ => none

def Row.solvedData (row : Row) : List Gf256 :=
  match row.coefficients with
  | [(_, coefficient)] => if coefficient ≠ 1 then row.data.map (· * coefficient⁻¹) else row.data
  | _ => row.data

variable {id : UInt32} {row : Row}

theorem Row.solvedId_eq_some :
    row.solvedId = some id ↔ ∃ coefficient, row.coefficients = [(id, coefficient)] := by
  unfold Row.solvedId
  split
  · next id' coefficient hterms => simp [hterms, Prod.ext_iff]
  · next hterms =>
    simp only [reduceCtorEq, false_iff, not_exists]
    intro coefficient heq
    exact hterms id coefficient heq

theorem TrueRow.solvedData (h : TrueRow symbols maxSymbolBytes row)
    (hsolved : row.solvedId = some id) : ∃ padding, row.solvedData = symbols id ++ List.replicate padding 0 ∧
      (symbols id).length + padding ≤ maxSymbolBytes := by
  obtain ⟨coefficient, hterms⟩ := Row.solvedId_eq_some.mp hsolved
  have hnonzero : coefficient ≠ 0 := h.wellFormed.nonzero (id, coefficient) (by rw [hterms]; exact List.mem_cons_self)
  have hfits : (symbols id).length ≤ row.data.length := h.fits id (by simp [hterms])
  have hvalue : ∀ i, coefficient * (symbols id).getD i 0 = row.data.getD i 0 := by
    intro i
    have hrow := h.holds i
    rwa [hterms, SparseRow.value_cons, SparseRow.value_nil, add_zero] at hrow
  have hlength : row.solvedData.length = row.data.length := by
    simp only [Row.solvedData, hterms]
    split_ifs <;> simp
  have hdata : ∀ i, row.solvedData.getD i 0 = (symbols id).getD i 0 := by
    intro i
    simp only [Row.solvedData, hterms]
    split_ifs with hone
    · rw [PaddedVector.getD_map_mul, ← hvalue, mul_comm, inv_mul_cancel_left₀ hnonzero]
    · rw [← hvalue, not_not.mp hone, one_mul]
  have hpadded := PaddedVector.eq_append_replicate (hfits.trans hlength.ge) hdata
  refine ⟨_, hpadded, ?_⟩
  have hbounded := h.bounded
  omega

theorem TrueRow.data_eq_zero (h : TrueRow symbols maxSymbolBytes row)
    (hterms : row.coefficients = []) : ∀ byte ∈ row.data, byte = 0 := by
  intro byte hbyte
  obtain ⟨i, hi, rfl⟩ := List.getElem_of_mem hbyte
  have hrow := h.holds i
  rw [hterms, SparseRow.value_nil, List.getD_eq_getElem _ _ hi] at hrow
  exact hrow.symm

def Row.solved (row : Row) : Option (UInt32 × List Gf256) := row.solvedId.map (fun id => (id, row.solvedData))

variable {rows : List Row}

theorem collectRecovered_eq (h : ∀ row ∈ rows, row.coefficients = [] → ∀ byte ∈ row.data, byte = 0) :
    collectRecovered rows = .ok (rows.filterMap Row.solved) := by
  induction rows with
  | nil => rfl
  | cons row rest ih =>
    obtain ⟨hrow, hrest⟩ := List.forall_mem_cons.mp h
    have hlater := ih hrest
    unfold collectRecovered
    match hterms : row.coefficients with
    | [] =>
      have hsolved : row.solved = none := by simp [Row.solved, Row.solvedId, hterms]
      have hzero : row.data.any (· ≠ 0) = false := by
        simpa using hrow hterms
      rw [List.filterMap_cons_none hsolved]
      simp only [hzero]
      exact hlater
    | [(id, coefficient)] =>
      have hsolved : row.solved = some (id, row.solvedData) := by simp [Row.solved, Row.solvedId, hterms]
      rw [List.filterMap_cons_some hsolved]
      simp only [hlater, bind, Except.bind, pure, Except.pure, Row.solvedData, hterms]
    | _ :: _ :: _ =>
      have hsolved : row.solved = none := by simp [Row.solved, Row.solvedId, hterms]
      rw [List.filterMap_cons_none hsolved]
      exact hlater

private theorem eq_pivot_of_solved {system : List (UInt32 × Row)} (h : SparseRow.Reduced (system.map formOf))
    {entry : UInt32 × Row} (hentry : entry ∈ system) {item : UInt32 × List Gf256}
    (hsolved : entry.2.solved = some item) : item.1 = entry.1 := by
  obtain ⟨id, hid, rfl⟩ := Option.map_eq_some_iff.mp hsolved
  obtain ⟨coefficient, hterms⟩ := Row.solvedId_eq_some.mp hid
  have hpivot := h.pivot_mem (List.mem_map_of_mem hentry)
  rw [formOf, hterms] at hpivot
  exact (List.mem_singleton.mp hpivot).symm

theorem ReducedRows.nodup_solved (h : ReducedRows rows) :
    ((rows.filterMap Row.solved).map Prod.fst).Nodup := by
  obtain ⟨system, empty, rfl, hreduced, hempty⟩ := h
  have hnone : empty.filterMap Row.solved = [] := by
    refine List.filterMap_eq_nil_iff.mpr fun row hrow => ?_
    simp [Row.solved, Row.solvedId, hempty row hrow]
  have hpivots : (system.map Prod.fst).Nodup := by
    have hnodup := hreduced.nodup
    rwa [List.map_map] at hnodup
  rw [List.filterMap_append, hnone, List.append_nil, List.filterMap_map]
  refine List.pairwise_map.mpr (List.pairwise_filterMap.mpr ?_)
  refine (List.pairwise_map.mp hpivots).imp_of_mem fun {entry later} hentry hlater hne item hitem item' hitem' => ?_
  rw [eq_pivot_of_solved hreduced hentry hitem, eq_pivot_of_solved hreduced hlater hitem']
  exact hne

variable {items : List (UInt32 × List Gf256)}

private theorem hasConflict_eq_false (h : (items.map Prod.fst).Nodup) :
    hasConflict items = false := by
  induction items with
  | nil => rfl
  | cons first rest ih =>
    cases rest with
    | nil => rfl
    | cons second rest =>
      obtain ⟨hfirst, hrest⟩ := List.nodup_cons.mp h
      have hne : first.1 ≠ second.1 := fun heq => hfirst (heq ▸ List.mem_cons_self)
      rw [hasConflict, ih hrest, Bool.or_false, Bool.and_eq_false_iff]
      exact Or.inl (by simpa using hne)

private theorem dedupAfter_eq (h : (id :: items.map Prod.fst).Nodup) : dedupAfter id items = items := by
  induction items generalizing id with
  | nil => rfl
  | cons first rest ih =>
    obtain ⟨hfirst, hrest⟩ := List.nodup_cons.mp h
    have hne : first.1 ≠ id := fun heq => hfirst (heq ▸ List.mem_cons_self)
    rw [dedupAfter, if_neg hne, ih hrest]

theorem sortRecovered_eq {recovered : List (UInt32 × List Gf256)} (h : (recovered.map Prod.fst).Nodup) :
    sortRecovered recovered = .ok (recovered.insertionSort (fun item later => item.1 ≤ later.1)) := by
  have hsorted : ((recovered.insertionSort (fun item later => item.1 ≤ later.1)).map Prod.fst).Nodup :=
    ((List.perm_insertionSort _ recovered).map Prod.fst).nodup_iff.mpr h
  have hdedup : ∀ items : List (UInt32 × List Gf256), (items.map Prod.fst).Nodup → dedupById items = items := by
    intro items hitems
    cases items with
    | nil => rfl
    | cons first rest => rw [dedupById, dedupAfter_eq hitems]
  rw [sortRecovered, hasConflict_eq_false hsorted, hdedup _ hsorted]
  rfl

/-- The symbols are source datagrams: what `encode_source` makes, under the identifier, of at most 32 records. -/
structure EncodedSymbols (maxSymbolBytes : ℕ) (symbol : UInt32 → List UInt8) : Prop where
  encoded : ∀ id, ∃ records, encodeSource id records = .ok (symbol id) ∧ records.length ≤ maxSourceRecords ∧
    ∀ record ∈ records, record.flowId ≤ wordMax
  bounded : ∀ id, (symbol id).length ≤ maxSymbolBytes

/-- The flows of the records have the numbers of QUIC streams, which a variable-length integer holds. -/
def FlowSymbols (symbol : UInt32 → List UInt8) : Prop :=
  ∀ id, ∃ records, encodeSource id records = .ok (symbol id) ∧ records.length ≤ maxSourceRecords ∧
    ∀ record ∈ records, record.flowId ≤ maxWireOffset

def symbolData (symbol : UInt32 → List UInt8) (id : UInt32) : List Gf256 := Gf256.ofBytes (symbol id)

variable {symbol : UInt32 → List UInt8}

theorem FlowSymbols.decodeSourcePadded (h : FlowSymbols symbol)
    (id : UInt32) {padding : ℕ} (hsize : (symbol id).length + padding ≤ maxSymbolBytes) :
    ∃ decoded, decodeSourcePadded (symbol id ++ List.replicate padding 0) maxSourceRecords maxSymbolBytes =
      .ok (decoded, (symbol id).length) ∧ decoded.symbolId = id := by
  obtain ⟨records, hencoded, hrecords, hflows⟩ := h id
  cases records with
  | nil => cases hencoded
  | cons first later =>
    have hlength : (symbol id ++ List.replicate padding 0).length ≤ maxSymbolBytes := by simpa using hsize
    exact ⟨datagramOf id first later, decodeSourcePadded_encodeSource hflows hencoded hrecords hlength
      fun byte hbyte => List.eq_of_mem_replicate hbyte, rfl⟩

theorem EncodedSymbols.decodeSourcePadded (h : EncodedSymbols maxSymbolBytes symbol)
    (id : UInt32) {padding : ℕ} (hsize : (symbol id).length + padding ≤ maxSymbolBytes) :
    (∃ decoded, decodeSourcePadded (symbol id ++ List.replicate padding 0) maxSourceRecords maxSymbolBytes =
      .ok (decoded, (symbol id).length) ∧ decoded.symbolId = id) ∨
    ¬FlowSymbols symbol ∧ ∃ error, decodeSourcePadded (symbol id ++ List.replicate padding 0) maxSourceRecords
      maxSymbolBytes = .error error := by
  obtain ⟨records, hencoded, hrecords, hword⟩ := h.encoded id
  by_cases hreadable : ∀ record ∈ records, record.Readable
  · have honWire := encodeSource_onWire hencoded hword hreadable
    have hlength : (symbol id ++ List.replicate padding 0).length ≤ maxSymbolBytes := by simpa using hsize
    cases records with
    | nil => cases hencoded
    | cons first later =>
      refine Or.inl ⟨datagramOf id first.onWire (later.map SourceRecord.onWire), ?_, rfl⟩
      refine decodeSourcePadded_encodeSource ?_ honWire (by simpa using hrecords) hlength
        fun byte hbyte => List.eq_of_mem_replicate hbyte
      rw [← List.map_cons]
      exact List.forall_mem_map.mpr fun record _ => SourceRecord.onWire_le record
  · push Not at hreadable
    obtain ⟨error, herror⟩ := decodeSourcePadded_unreadable hencoded hword hreadable (List.replicate padding 0)
      maxSourceRecords maxSymbolBytes
    refine Or.inr ⟨fun hflows => ?_, error, herror⟩
    obtain ⟨decoded, hdecoded, _⟩ := hflows.decodeSourcePadded id hsize
    rw [herror] at hdecoded
    cases hdecoded

theorem EncodedSymbols.ne_nil (h : EncodedSymbols maxSymbolBytes symbol)
    (id : UInt32) : symbol id ≠ [] := by
  obtain ⟨records, hencoded, _⟩ := h.encoded id
  rw [(encodeSource_eq_ok.mp hencoded).2]
  exact List.cons_ne_nil _ _

private theorem toBytes_ofBytes (bytes : List UInt8) (padding : ℕ) :
    Gf256.toBytes (Gf256.ofBytes bytes ++ List.replicate padding 0) = bytes ++ List.replicate padding 0 := by
  simp only [Gf256.toBytes, Gf256.ofBytes, List.map_append, List.map_map, List.map_replicate]
  congr 1
  exact List.map_id bytes

def recoveredOf (symbol : UInt32 → List UInt8) (id : UInt32) : RecoveredSource :=
  ⟨id, symbol id, (symbol id).length⟩

theorem canonicalRecovered_cases (h : EncodedSymbols maxSymbolBytes symbol)
    (hitems : ∀ item ∈ items, ∃ padding,
      item.2 = symbolData symbol item.1 ++ List.replicate padding 0 ∧
        (symbolData symbol item.1).length + padding ≤ maxSymbolBytes) :
    canonicalRecovered maxSymbolBytes items = .ok (items.map (fun item => recoveredOf symbol item.1)) ∨
      ¬FlowSymbols symbol ∧ canonicalRecovered maxSymbolBytes items = .error .contradictoryRepair := by
  induction items with
  | nil => exact Or.inl rfl
  | cons item rest ih =>
    obtain ⟨⟨padding, hdata, hsize⟩, hrest⟩ := List.forall_mem_cons.mp hitems
    obtain ⟨id, data⟩ := item
    have hlength : (symbolData symbol id).length = (symbol id).length := List.length_map ..
    have hbytes : Gf256.toBytes data = symbol id ++ List.replicate padding 0 :=
      (congrArg Gf256.toBytes hdata).trans (toBytes_ofBytes _ _)
    rw [canonicalRecovered, hbytes]
    rcases h.decodeSourcePadded id (hlength ▸ hsize) with ⟨decoded, hdecoded, hid⟩ | ⟨hflows, error, herror⟩
    · rw [hdecoded]
      dsimp only
      rw [if_neg (not_not.mpr hid)]
      rcases ih hrest with hlater | ⟨hflows, hlater⟩
      · simp only [hlater, bind, Except.bind, pure, Except.pure, List.take_left', List.map_cons]
        exact Or.inl rfl
      · rw [hlater]
        exact Or.inr ⟨hflows, rfl⟩
    · rw [herror]
      exact Or.inr ⟨hflows, rfl⟩

def keptRows (rows : List Row) : List Row :=
  (eliminate rows.length [] rows).1.filter (fun row => decide (row.coefficients.length > 1))

/-- The identifiers that an elimination solves, in order. -/
def solvedIds (rows : List Row) : List UInt32 :=
  (((eliminate rows.length [] rows).1.filterMap Row.solved).insertionSort
    (fun item later => item.1 ≤ later.1)).map Prod.fst

private theorem validateRecovered_eq {known : KnownSources}
    (h : ∀ source ∈ known.queue, source.bytes = symbol source.symbolId) (ids : List UInt32) :
    validateRecovered known (ids.map (recoveredOf symbol)) = .ok () := by
  refine if_neg fun hany => ?_
  obtain ⟨item, hitem, hconflict⟩ := List.any_eq_true.mp hany
  obtain ⟨id, _, rfl⟩ := List.mem_map.mp hitem
  obtain ⟨existing, hfind, hne⟩ := (Option.any_eq_true _ _).mp hconflict
  obtain ⟨hmem, hid⟩ := KnownSources.find_eq_some hfind
  have hbytes : existing.bytes = symbol id := by rw [h existing hmem, hid]; rfl
  simp [hbytes, recoveredOf] at hne

theorem echelonRows_eliminate (h : ∀ row ∈ rows, SparseRow.WellFormed row.coefficients) :
    EchelonRows (eliminate rows.length [] rows).1 := by
  have hstart : EchelonRows (eliminate rows.length (([] : List (UInt32 × Row)).map Prod.snd) rows).1 :=
    eliminate_echelon le_rfl SparseRow.Reduced.nil (by simp) h (by simp) (by simp)
  exact hstart

theorem reducedRows_eliminate (h : ∀ row ∈ rows, SparseRow.WellFormed row.coefficients) :
    ReducedRows (eliminate rows.length [] rows).1 := (echelonRows_eliminate h).reducedRows

theorem trueRow_eliminate (h : ∀ row ∈ rows, TrueRow symbols maxSymbolBytes row) :
    ∀ row ∈ (eliminate rows.length [] rows).1, TrueRow symbols maxSymbolBytes row :=
  keptByElimination_trueRow.eliminate rows.length (List.forall_mem_nil _) h

theorem reduce_eq (h : ∀ row ∈ rows, SparseRow.WellFormed row.coefficients)
    (hzero : ∀ row ∈ (eliminate rows.length [] rows).1, row.coefficients = [] → ∀ byte ∈ row.data, byte = 0)
    (budget : ℕ) : reduce rows budget = (spendMany (eliminate rows.length [] rows).2 0 budget).map (fun _ =>
      ((eliminate rows.length [] rows).1, ((eliminate rows.length [] rows).1.filterMap Row.solved).insertionSort
        (fun item later => item.1 ≤ later.1))) := by
  unfold reduce
  rw [reduceLoop_eq, metered]
  cases spendMany (eliminate rows.length [] rows).2 0 budget with
  | error error => rfl
  | ok work =>
    simp only [Except.map, bind, Except.bind, collectRecovered_eq hzero,
      sortRecovered_eq (reducedRows_eliminate h).nodup_solved, pure, Except.pure]

/-- The outcome of an elimination whose operations are paid: the kept rows with the symbols of the solved ones, or
the refusal of a flow number. -/
def SolvedAs (symbol : UInt32 → List UInt8) (rows : List Row)
    (result : Except FecError (List Row × List RecoveredSource)) : Prop :=
  result = .ok (keptRows rows, (solvedIds rows).map (recoveredOf symbol)) ∨
    ¬FlowSymbols symbol ∧ result = .error .contradictoryRepair

theorem Decoder.solve_eq {d : Decoder}
    (hsymbol : EncodedSymbols d.maxSymbolBytes symbol)
    (hrows : ∀ row ∈ rows, TrueRow (symbolData symbol) d.maxSymbolBytes row)
    (hknown : ∀ source ∈ d.known.queue, source.bytes = symbol source.symbolId) :
    ∃ result, SolvedAs symbol rows result ∧
      ∀ budget, d.solve rows budget = (spendMany (eliminate rows.length [] rows).2 0 budget).bind fun _ => result := by
  have htrue := trueRow_eliminate hrows
  have hitems : ∀ item ∈ ((eliminate rows.length [] rows).1.filterMap Row.solved).insertionSort
      (fun item later => item.1 ≤ later.1), ∃ padding, item.2 = symbolData symbol item.1 ++ List.replicate padding 0 ∧
        (symbolData symbol item.1).length + padding ≤ d.maxSymbolBytes := by
    intro item hitem
    obtain ⟨row, hrow, hsolved⟩ := List.mem_filterMap.mp ((List.perm_insertionSort _ _).subset hitem)
    obtain ⟨id, hid, rfl⟩ := Option.map_eq_some_iff.mp hsolved
    exact (htrue row hrow).solvedData hid
  have hreduce := reduce_eq (fun row hrow => (hrows row hrow).wellFormed) fun row hrow => (htrue row hrow).data_eq_zero
  have hvalid := validateRecovered_eq hknown (solvedIds rows)
  simp only [solvedIds, List.map_map, Function.comp_def] at hvalid
  rcases canonicalRecovered_cases hsymbol hitems with hcanonical | ⟨hflows, hcanonical⟩
  · refine ⟨_, Or.inl rfl, fun budget => ?_⟩
    rw [solve, hreduce]
    cases spendMany (eliminate rows.length [] rows).2 0 budget with
    | error error => rfl
    | ok work =>
      simp only [Except.map, bind, Except.bind, hcanonical, hvalid, pure, Except.pure, solvedIds, keptRows,
        List.map_map, Function.comp_def]
  · refine ⟨_, Or.inr ⟨hflows, rfl⟩, fun budget => ?_⟩
    rw [solve, hreduce]
    cases spendMany (eliminate rows.length [] rows).2 0 budget with
    | error error => rfl
    | ok work => simp only [Except.map, bind, Except.bind, hcanonical]

end Quicp
