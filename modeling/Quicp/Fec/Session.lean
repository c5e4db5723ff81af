import Quicp.Fec.Honest
import Quicp.Fec.Operations
import Quicp.Library.Reachable

/-!
# Runs of the decoder on honest traffic

The symbols are fixed. Sources and repairs of them arrive in any order, more than once or not at all, recovered
sources are committed or not, and everything else that shares the memory budget moves its count.
-/

namespace Quicp

def PendingRows (rows : List Row) : Prop :=
  ∃ system : List (UInt32 × Row), rows = system.map Prod.snd ∧ SparseRow.Reduced (system.map formOf) ∧
    ∀ row ∈ rows, 1 < row.coefficients.length

theorem pendingRows_keptRows {rows : List Row} (h : ∀ row ∈ rows, SparseRow.WellFormed row.coefficients) :
    PendingRows (keptRows rows) := by
  obtain ⟨system, empty, heq, hreduced, hempty⟩ := reducedRows_eliminate h
  have hnone : empty.filter (fun row => decide (row.coefficients.length > 1)) = [] := by
    refine List.filter_eq_nil_iff.mpr fun row hrow => ?_
    simp [hempty row hrow]
  refine ⟨system.filter (fun entry => decide (entry.2.coefficients.length > 1)), ?_, ?_, ?_⟩
  · rw [keptRows, heq, List.filter_append, hnone, List.append_nil, List.filter_map]
    rfl
  · exact hreduced.sublist (List.filter_sublist.map _)
  · intro row hrow
    simpa using (List.mem_filter.mp hrow).2

/-- The decoder agrees with the symbols: its known sources are symbols, its rows are true and at rest. -/
structure Decoder.Honest (symbol : UInt32 → List UInt8) (d : Decoder) : Prop where
  known : ∀ source ∈ d.known.queue, source.bytes = symbol source.symbolId
  rows : ∀ row ∈ d.rows, TrueRow (symbolData symbol) d.maxSymbolBytes row
  pending : PendingRows d.rows

namespace Decoder

variable {symbol : UInt32 → List UInt8} {d : Decoder}

def substitutedRows (d : Decoder) (id : UInt32) (source : List UInt8) : List Row :=
  d.rows.map (substituted id (Gf256.ofBytes source))

theorem Honest.sourceRows_cases (h : d.Honest symbol) (hsymbol : EncodedSymbols d.maxSymbolBytes symbol)
    (id : UInt32) (workBudget : ℕ) :
    d.sourceRows id (symbol id) workBudget = .error .workBudget ∨
      SolvedAs symbol (d.substitutedRows id (symbol id)) (d.sourceRows id (symbol id) workBudget) := by
  have hfits : ∀ row ∈ d.rows, id ∈ row.coefficients.map Prod.fst →
      (Gf256.ofBytes (symbol id)).length ≤ row.data.length := fun row hrow hid => (h.rows row hrow).fits id hid
  have htrue : ∀ row ∈ d.substitutedRows id (symbol id), TrueRow (symbolData symbol) d.maxSymbolBytes row :=
    List.forall_mem_map.mpr fun row hrow => (h.rows row hrow).substituted id
  obtain ⟨result, hresult, hsolve⟩ := solve_eq hsymbol htrue h.known
  unfold sourceRows
  cases matrixCloneWork d.rows with
  | none => exact Or.inl rfl
  | some work =>
    dsimp only
    by_cases hwork : work > workBudget
    · exact Or.inl (if_pos hwork)
    · rw [if_neg hwork, solveSource, substituteRows_eq hfits]
      rcases spendMany_cases (d.rows.map (substituteWork id (Gf256.ofBytes (symbol id)))).sum work workBudget with
        hspend | ⟨spent, hspend⟩
      · rw [metered, hspend]
        exact Or.inl rfl
      · rw [metered, hspend]
        simp only [Except.map, bind, Except.bind]
        rw [← substitutedRows, hsolve]
        rcases spendMany_cases (eliminate (d.substitutedRows id (symbol id)).length []
          (d.substitutedRows id (symbol id))).2 0 (workBudget - spent) with hspend' | ⟨spent', hspend'⟩
        · rw [hspend']
          exact Or.inl rfl
        · rw [hspend']
          exact Or.inr hresult

theorem Honest.repairRows_cases (h : d.Honest symbol) (hsymbol : EncodedSymbols d.maxSymbolBytes symbol)
    {firstSymbolId repairId seed : UInt32} {span : ℕ} {coded : List UInt8}
    (hcoded : repairSymbol firstSymbolId repairId seed ((spanIds span firstSymbolId).map symbol) = .ok coded)
    (workBudget : ℕ) :
    d.repairRows firstSymbolId span repairId seed coded workBudget = .error .workBudget ∨
      ((pendingRow d.known firstSymbolId span repairId seed coded).coefficients = [] ∧
        d.repairRows firstSymbolId span repairId seed coded workBudget = .ok (d.rows, [])) ∨
      (pendingRow d.known firstSymbolId span repairId seed coded).coefficients ≠ [] ∧
        SolvedAs symbol (d.rows ++ [pendingRow d.known firstSymbolId span repairId seed coded])
          (d.repairRows firstSymbolId span repairId seed coded workBudget) := by
  obtain ⟨_, _, _, _, hspan, _⟩ := repairSymbol_eq_ok (fun id _ => hsymbol.bounded id) hcoded
  have hfits : ∀ id ∈ spanIds span firstSymbolId, ∀ source, d.known.find id = some source →
      source.bytes.length ≤ coded.length := by
    intro id hid source hfind
    rw [bytes_of_find h.known hfind]
    exact hspan id hid
  have hrow := trueRow_pendingRow h.known (fun id _ => hsymbol.bounded id) hcoded
  have htrue : ∀ row ∈ d.rows ++ [pendingRow d.known firstSymbolId span repairId seed coded],
      TrueRow (symbolData symbol) d.maxSymbolBytes row := by
    intro row hmem
    rcases List.mem_append.mp hmem with hold | hnew
    · exact h.rows row hold
    · rw [List.mem_singleton.mp hnew]
      exact hrow
  obtain ⟨result, hresult, hsolve⟩ := solve_eq hsymbol htrue h.known
  unfold repairRows
  cases d.repairBaseWork span coded with
  | none => exact Or.inl rfl
  | some work =>
    dsimp only
    by_cases hwork : work > workBudget
    · exact Or.inl (if_pos hwork)
    · rw [if_neg hwork, repairRow_eq hfits, metered]
      rcases spendMany_cases (codedWork d.known (spanIds span firstSymbolId)) work workBudget with
        hspend | ⟨spent, hspend⟩
      · rw [hspend]
        exact Or.inl rfl
      · rw [hspend]
        simp only [Except.map]
        by_cases hterms : (pendingRow d.known firstSymbolId span repairId seed coded).coefficients = []
        · have hzero : (pendingRow d.known firstSymbolId span repairId seed coded).data.all (· = 0) = true := by
            simpa using hrow.data_eq_zero hterms
          rw [if_pos hterms, if_pos hzero]
          exact Or.inr (Or.inl ⟨hterms, rfl⟩)
        · rw [if_neg hterms, hsolve]
          rcases spendMany_cases (eliminate (d.rows ++ [pendingRow d.known firstSymbolId span repairId seed
            coded]).length [] (d.rows ++ [pendingRow d.known firstSymbolId span repairId seed coded])).2 0
            (workBudget - spent) with hspend' | ⟨spent', hspend'⟩
          · rw [hspend']
            exact Or.inl rfl
          · rw [hspend']
            exact Or.inr (Or.inr ⟨hterms, hresult⟩)

variable {rows : List Row}

theorem trueRow_keptRows {symbols : UInt32 → List Gf256} {maxSymbolBytes : ℕ}
    (h : ∀ row ∈ rows, TrueRow symbols maxSymbolBytes row) : ∀ row ∈ keptRows rows, TrueRow symbols maxSymbolBytes row :=
  fun row hrow => trueRow_eliminate h row (List.mem_of_mem_filter hrow)

/-- What a call may return: recovered symbols, and no error that blames a sender with numbers of flows. -/
structure Sound (symbol : UInt32 → List UInt8) (outcome : Outcome FecError RecoveredBatch) : Prop where
  items : ∀ batch, outcome = .ok batch → ∀ item ∈ batch.items, item.bytes = symbol item.symbolId
  contradictory : FlowSymbols symbol → outcome ≠ .err .contradictoryRepair
  invalid : outcome ≠ .err .invalidSymbolSize

variable {outcome : Outcome FecError RecoveredBatch}

theorem sound_of_returned (ids : List UInt32)
    (h : Returned (ids.map (recoveredOf symbol)) outcome) : Sound symbol outcome := by
  rcases h with rfl | ⟨batch, rfl, hitems⟩
  · exact ⟨by simp, by simp, by simp⟩
  · refine ⟨fun batch' heq item hitem => ?_, by simp, by simp⟩
    rw [← Outcome.ok.inj heq, hitems] at hitem
    obtain ⟨id, _, rfl⟩ := List.mem_map.mp hitem
    rfl

theorem sound_of_refused {error : FecError} (hcontradictory : FlowSymbols symbol → error ≠ .contradictoryRepair)
    (hinvalid : error ≠ .invalidSymbolSize) : Sound symbol (.err error) :=
  ⟨by simp, by simpa using hcontradictory, by simpa using hinvalid⟩

theorem sound_of_solvedAs {error : FecError} (h : SolvedAs symbol rows (.error error)) :
    Sound symbol (.err error) := by
  rcases h with h | ⟨hflows, h⟩
  · cases h
  · cases h
    exact sound_of_refused (fun hall => absurd hall hflows) (by decide)

theorem eq_of_solvedAs {rows' : List Row} {items : List RecoveredSource}
    (h : SolvedAs symbol rows (.ok (rows', items))) :
    rows' = keptRows rows ∧ items = (solvedIds rows).map (recoveredOf symbol) := by
  rcases h with h | ⟨_, h⟩
  · exact Prod.mk.inj (Except.ok.inj h)
  · cases h

variable {id : UInt32} {next : Decoder}

theorem Honest.insert (h : d.Honest symbol) (hinserted : d.Inserted next id (symbol id))
    (hrows : ∀ row ∈ next.rows, TrueRow (symbolData symbol) d.maxSymbolBytes row) (hpending : PendingRows next.rows) :
    next.Honest symbol where
  known := by
    intro source hsource
    rcases hinserted.sources source hsource with hold | ⟨rfl, hbytes⟩
    · exact h.known source hold
    · exact hbytes
  rows := by
    rw [hinserted.maxSymbolBytes]
    exact hrows
  pending := hpending

variable {after budget : RecoveryMemoryBudget}

theorem Honest.addSource (h : d.Honest symbol) (hsymbol : EncodedSymbols d.maxSymbolBytes symbol)
    {workBudget : ℕ}
    (hresult : SourceResult d budget id (symbol id) workBudget outcome next after) :
    next.Honest symbol ∧ next.maxSymbolBytes = d.maxSymbolBytes ∧ Sound symbol outcome := by
  cases hresult with
  | invalid hsize =>
    rcases hsize with hnil | hlong
    · exact absurd hnil (hsymbol.ne_nil id)
    · exact absurd (hsymbol.bounded id) (not_le.mpr hlong)
  | contradictory hfind hne => exact absurd (bytes_of_find h.known hfind) hne
  | memory => exact ⟨h, rfl, sound_of_refused (fun _ => by decide) (by decide)⟩
  | failed fresh hrows hfailed =>
    rcases h.sourceRows_cases hsymbol id workBudget with hcase | hcase
    · rw [hcase] at hfailed
      cases hfailed
      exact ⟨h, rfl, sound_of_refused (fun _ => by decide) (by decide)⟩
    · rw [hfailed] at hcase
      exact ⟨h, rfl, sound_of_solvedAs hcase⟩
  | duplicate hknown hreturned => exact ⟨h, rfl, sound_of_returned [] hreturned⟩
  | alone fresh hrows hnext hinserted hreturned =>
    refine ⟨h.insert hinserted ?_ ?_, hinserted.maxSymbolBytes, sound_of_returned [] hreturned⟩
    · rw [hnext]
      exact List.forall_mem_nil _
    · rw [hnext, ← hrows]
      exact h.pending
  | solved fresh hrows hsolved hinserted hreturned =>
    have htrue : ∀ row ∈ d.substitutedRows id (symbol id), TrueRow (symbolData symbol) d.maxSymbolBytes row :=
      List.forall_mem_map.mpr fun row hrow => (h.rows row hrow).substituted id
    rcases h.sourceRows_cases hsymbol id workBudget with hcase | hcase
    · rw [hcase] at hsolved
      cases hsolved
    · rw [hsolved] at hcase
      obtain ⟨hkept, rfl⟩ := eq_of_solvedAs hcase
      refine ⟨h.insert hinserted ?_ ?_, hinserted.maxSymbolBytes, sound_of_returned _ hreturned⟩
      · rw [hkept]
        exact trueRow_keptRows htrue
      · rw [hkept]
        exact pendingRows_keptRows fun row hrow => (htrue row hrow).wellFormed

theorem Honest.addRepair (h : d.Honest symbol) (hsymbol : EncodedSymbols d.maxSymbolBytes symbol)
    {firstSymbolId repairId seed : UInt32} {span : ℕ} {coded : List UInt8}
    (hcoded : repairSymbol firstSymbolId repairId seed ((spanIds span firstSymbolId).map symbol) = .ok coded)
    {workBudget : ℕ}
    (hresult : RepairResult d budget firstSymbolId span repairId seed coded workBudget outcome next after) :
    next.Honest symbol ∧ next.maxSymbolBytes = d.maxSymbolBytes ∧ Sound symbol outcome := by
  obtain ⟨_, _, hne, hsize, _, _⟩ := repairSymbol_eq_ok (fun id _ => hsymbol.bounded id) hcoded
  have hcases := h.repairRows_cases hsymbol hcoded workBudget
  cases hresult with
  | invalidSpan hspan => exact ⟨h, rfl, sound_of_refused (fun _ => by decide) (by decide)⟩
  | invalid hinvalid =>
    rcases hinvalid with hnil | hlong
    · exact absurd hnil hne
    · exact absurd hsize (not_le.mpr hlong)
  | rowCapacity hfull => exact ⟨h, rfl, sound_of_refused (fun _ => by decide) (by decide)⟩
  | memory => exact ⟨h, rfl, sound_of_refused (fun _ => by decide) (by decide)⟩
  | failed hfailed =>
    rw [hfailed] at hcases
    rcases hcases with hcase | ⟨_, hcase⟩ | ⟨_, hcase⟩
    · cases hcase
      exact ⟨h, rfl, sound_of_refused (fun _ => by decide) (by decide)⟩
    · cases hcase
    · exact ⟨h, rfl, sound_of_solvedAs hcase⟩
  | solved hspan hroom hsolved hreturned =>
    rw [hsolved] at hcases
    rcases hcases with hcase | ⟨_, hcase⟩ | ⟨_, hcase⟩
    · cases hcase
    · obtain ⟨rfl, rfl⟩ := Prod.mk.inj (Except.ok.inj hcase)
      exact ⟨⟨h.known, h.rows, h.pending⟩, rfl, sound_of_returned [] hreturned⟩
    · obtain ⟨rfl, rfl⟩ := eq_of_solvedAs hcase
      have htrue : ∀ row ∈ d.rows ++ [pendingRow d.known firstSymbolId span repairId seed coded],
          TrueRow (symbolData symbol) d.maxSymbolBytes row :=
        List.forall_mem_append.mpr ⟨h.rows, List.forall_mem_singleton.mpr
          (trueRow_pendingRow h.known (fun id _ => hsymbol.bounded id) hcoded)⟩
      exact ⟨⟨h.known, trueRow_keptRows htrue, pendingRows_keptRows fun row hrow => (htrue row hrow).wellFormed⟩, rfl,
        sound_of_returned _ hreturned⟩

theorem Honest.commit (h : d.Honest symbol) (hsymbol : EncodedSymbols d.maxSymbolBytes symbol)
    {charge : RecoveryCharge} {outcome : Outcome FecError Unit}
    (hresult : CommitResult d budget id (symbol id) charge outcome next after) :
    next.Honest symbol ∧ next.maxSymbolBytes = d.maxSymbolBytes ∧ outcome ≠ .err .contradictoryRepair ∧
      outcome ≠ .err .invalidSymbolSize := by
  cases hresult with
  | invalid hsize =>
    rcases hsize with hnil | hlong
    · exact absurd hnil (hsymbol.ne_nil id)
    · exact absurd (hsymbol.bounded id) (not_le.mpr hlong)
  | memory => exact ⟨h, rfl, by simp, by simp⟩
  | contradictory hfind hne => exact absurd (bytes_of_find h.known hfind) hne
  | duplicate hknown => exact ⟨h, rfl, by simp, by simp⟩
  | inserted fresh hrows hinserted =>
    refine ⟨h.insert hinserted ?_ ?_, hinserted.maxSymbolBytes, by simp, by simp⟩
    · rw [hrows]
      exact h.rows
    · rw [hrows]
      exact h.pending

end Decoder

/-- A decoder with its shared budget, everything it has returned and the errors of the calls it refused. -/
structure Session where
  decoder : Decoder
  budget : RecoveryMemoryBudget
  returned : List RecoveredSource
  refused : List FecError

namespace Session

inductive Action
  | addSource (storage : Storage) (id : UInt32) (workBudget : ℕ)
  | addRepair (firstSymbolId : UInt32) (span : ℕ) (repairId seed : UInt32) (workBudget : ℕ)
  | commit (storage : Storage) (item : RecoveredSource) (charge : RecoveryCharge)
  | others (used : ℕ)

def refusedBy {α : Type} (errors : List FecError) : Outcome FecError α → List FecError
  | .err error => errors ++ [error]
  | _ => errors

def returnedBy (items : List RecoveredSource) : Outcome FecError RecoveredBatch → List RecoveredSource
  | .ok batch => items ++ batch.items
  | _ => items

def record (s : Session) (result : Outcome FecError RecoveredBatch × Decoder × RecoveryMemoryBudget) : Session :=
  ⟨result.2.1, result.2.2, returnedBy s.returned result.1, refusedBy s.refused result.1⟩

def apply (symbol : UInt32 → List UInt8) (s : Session) : Action → Session
  | .addSource storage id workBudget => s.record (s.decoder.addSource s.budget storage id (symbol id) workBudget)
  | .addRepair firstSymbolId span repairId seed workBudget =>
    match repairSymbol firstSymbolId repairId seed ((spanIds span firstSymbolId).map symbol) with
    | .error _ => s
    | .ok coded => s.record (s.decoder.addRepair s.budget firstSymbolId span repairId seed coded workBudget)
  | .commit storage item charge =>
    let result := s.decoder.commitRecoveredPrecharged s.budget storage item.symbolId item.bytes charge
    ⟨result.2.1, result.2.2, s.returned, refusedBy s.refused result.1⟩
  | .others used => { s with budget := { s.budget with used := used } }

def Allows (s : Session) : Action → Prop
  | .commit _ item _ => item ∈ s.returned
  | _ => True

def Step (symbol : UInt32 → List UInt8) (s : Session) (action : Action) (t : Session) : Prop :=
  s.Allows action ∧ t = s.apply symbol action

def Initial (maxSymbolBytes : ℕ) (s : Session) : Prop :=
  (∃ maxSymbols maxRows memoryBudget,
    s.decoder = Decoder.withBudget maxSymbols maxRows maxSymbolBytes memoryBudget) ∧
    s.returned = [] ∧ s.refused = []

structure Inv (symbol : UInt32 → List UInt8) (maxSymbolBytes : ℕ) (s : Session) : Prop where
  size : s.decoder.maxSymbolBytes = maxSymbolBytes
  honest : s.decoder.Honest symbol
  returned : ∀ item ∈ s.returned, item.bytes = symbol item.symbolId
  contradictory : FlowSymbols symbol → FecError.contradictoryRepair ∉ s.refused
  invalid : FecError.invalidSymbolSize ∉ s.refused

variable {maxSymbolBytes : ℕ} {s : Session}

theorem Initial.inv (h : Initial maxSymbolBytes s)
    (symbol : UInt32 → List UInt8) : s.Inv symbol maxSymbolBytes := by
  obtain ⟨⟨maxSymbols, maxRows, memoryBudget, hdecoder⟩, hreturned, hrefused⟩ := h
  refine ⟨?_, ?_, ?_, ?_, ?_⟩
  · rw [hdecoder]
    rfl
  · rw [hdecoder]
    exact ⟨List.forall_mem_nil _, List.forall_mem_nil _, [], rfl, SparseRow.Reduced.nil, List.forall_mem_nil _⟩
  · rw [hreturned]
    exact List.forall_mem_nil _
  · rw [hrefused]
    exact fun _ => List.not_mem_nil
  · rw [hrefused]
    exact List.not_mem_nil

theorem not_mem_refusedBy {α : Type} {errors : List FecError} {error : FecError} {outcome : Outcome FecError α}
    (h : error ∉ errors) (hne : outcome ≠ .err error) : error ∉ refusedBy errors outcome := by
  cases outcome with
  | ok value => exact h
  | panicked => exact h
  | err other =>
    intro hmem
    rcases List.mem_append.mp hmem with hold | hnew
    · exact h hold
    · exact hne (congrArg _ (List.mem_singleton.mp hnew).symm)

variable {symbol : UInt32 → List UInt8}

theorem Inv.record (h : s.Inv symbol maxSymbolBytes)
    {result : Outcome FecError RecoveredBatch × Decoder × RecoveryMemoryBudget}
    (hresult : result.2.1.Honest symbol ∧ result.2.1.maxSymbolBytes = s.decoder.maxSymbolBytes ∧
      Decoder.Sound symbol result.1) : (s.record result).Inv symbol maxSymbolBytes where
  size := hresult.2.1.trans h.size
  honest := hresult.1
  returned := by
    intro item hitem
    cases houtcome : result.1 with
    | ok batch =>
      rw [Session.record, houtcome] at hitem
      rcases List.mem_append.mp hitem with hold | hnew
      · exact h.returned item hold
      · exact hresult.2.2.items batch houtcome item hnew
    | err error =>
      rw [Session.record, houtcome] at hitem
      exact h.returned item hitem
    | panicked =>
      rw [Session.record, houtcome] at hitem
      exact h.returned item hitem
  contradictory := fun hflows => not_mem_refusedBy (h.contradictory hflows) (hresult.2.2.contradictory hflows)
  invalid := not_mem_refusedBy h.invalid hresult.2.2.invalid

theorem Inv.step (hsymbol : EncodedSymbols maxSymbolBytes symbol)
    {t : Session} {action : Action} (h : s.Inv symbol maxSymbolBytes) (hstep : Step symbol s action t) :
    t.Inv symbol maxSymbolBytes := by
  obtain ⟨hallows, rfl⟩ := hstep
  have hbounded : EncodedSymbols s.decoder.maxSymbolBytes symbol := by rwa [h.size]
  cases action with
  | addSource storage id workBudget =>
    exact h.record (h.honest.addSource hbounded (s.decoder.addSource_result s.budget storage id (symbol id) workBudget))
  | addRepair firstSymbolId span repairId seed workBudget =>
    cases hcoded : repairSymbol firstSymbolId repairId seed ((spanIds span firstSymbolId).map symbol) with
    | error error =>
      simp only [apply, hcoded]
      exact h
    | ok coded =>
      simp only [apply, hcoded]
      exact h.record (h.honest.addRepair hbounded hcoded
        (s.decoder.addRepair_result s.budget firstSymbolId span repairId seed coded workBudget))
  | commit storage item charge =>
    obtain ⟨id, bytes, retainedBytes⟩ := item
    obtain rfl : bytes = symbol id := h.returned _ hallows
    obtain ⟨hhonest, hsize, hcontradictory, hinvalid⟩ := h.honest.commit hbounded
      (s.decoder.commitRecoveredPrecharged_result s.budget storage id (symbol id) charge)
    exact ⟨hsize.trans h.size, hhonest, h.returned, fun hflows => not_mem_refusedBy (h.contradictory hflows)
      hcontradictory, not_mem_refusedBy h.invalid hinvalid⟩
  | others used => exact ⟨h.size, h.honest, h.returned, h.contradictory, h.invalid⟩

theorem inv_of_reachable (hsymbol : EncodedSymbols maxSymbolBytes symbol)
    (h : Reachable (Initial maxSymbolBytes) (Step symbol) s) : s.Inv symbol maxSymbolBytes :=
  h.invariant (fun _ hs => hs.inv symbol) (fun _ _ _ hinv hstep => hinv.step hsymbol hstep)

/-- Whatever arrives of the symbols, lost, duplicated or reordered, every recovered source is the symbol of its
identifier without padding, no symbol has a wrong size, and no call sees a contradiction while the flow numbers are
those of QUIC streams. -/
theorem recovered_sound {symbol : UInt32 → List UInt8} {maxSymbolBytes : ℕ}
    (hsymbol : EncodedSymbols maxSymbolBytes symbol) {s : Session}
    (h : Reachable (Initial maxSymbolBytes) (Step symbol) s) :
    (∀ item ∈ s.returned, item.bytes = symbol item.symbolId) ∧ FecError.invalidSymbolSize ∉ s.refused ∧
      (FlowSymbols symbol → FecError.contradictoryRepair ∉ s.refused) :=
  have hinv := inv_of_reachable hsymbol h
  ⟨hinv.returned, hinv.invalid, hinv.contradictory⟩

def symbolOf (record : SourceRecord) (id : UInt32) : List UInt8 :=
  sourceDatagramType :: (BigEndian.encode 4 id.toNat ++ (1 :: record.encoded))

theorem encodeSource_symbolOf {record : SourceRecord} (h : encodeSourceRecord record = .ok record.encoded)
    (id : UInt32) : encodeSource id [record] = .ok (symbolOf record id) := by
  simp [encodeSource, encodeSourceRecords, h, symbolOf]

theorem length_symbolOf (record : SourceRecord) (id : UInt32) :
    (symbolOf record id).length = record.encoded.length + 6 := by
  simp only [symbolOf, List.length_cons, List.length_append, BigEndian.encode_length]
  omega

theorem encodedSymbols_symbolOf {record : SourceRecord}
    (h : encodeSourceRecord record = .ok record.encoded) (hword : record.flowId ≤ wordMax)
    (hsize : record.encoded.length + 6 ≤ maxSymbolBytes) : EncodedSymbols maxSymbolBytes (symbolOf record) where
  encoded id := ⟨[record], encodeSource_symbolOf h id, Nat.le_of_ble_eq_true rfl, List.forall_mem_singleton.mpr hword⟩
  bounded id := (length_symbolOf record id).trans_le hsize

theorem recovered_sound_pair :
    let record : SourceRecord := ⟨4, 0, false, [7]⟩
    let start : Session := ⟨Decoder.withBudget 512 512 1200 0, ⟨0, 0, 1000000, by decide, false⟩, [], []⟩
    let storage : Storage := ⟨false, false, 0, false, 0⟩
    let s := [Action.addRepair 10 2 100 7 20000, Action.addSource storage 11 20000].foldl
      (fun s action => s.apply (symbolOf record) action) start
    s.returned = [recoveredOf (symbolOf record) 10] ∧
      ((∀ item ∈ s.returned, item.bytes = symbolOf record item.symbolId) ∧
        FecError.invalidSymbolSize ∉ s.refused ∧ FecError.contradictoryRepair ∉ s.refused) := by
  intro record start storage s
  have hsymbol : EncodedSymbols 1200 (symbolOf record) := encodedSymbols_symbolOf (by decide) (by decide) (by decide)
  have hflows : FlowSymbols (symbolOf record) := fun id =>
    ⟨[record], encodeSource_symbolOf (by decide) id, by decide, by decide⟩
  have hstart : Initial 1200 start := ⟨⟨512, 512, 0, rfl⟩, rfl, rfl⟩
  have hpermits : Reachable.Permits Allows (apply (symbolOf record)) start
      [Action.addRepair 10 2 100 7 20000, Action.addSource storage 11 20000] := ⟨trivial, trivial, trivial⟩
  obtain ⟨hitems, hinvalid, hcontradictory⟩ := recovered_sound hsymbol
    (Reachable.run (fun _ _ h => ⟨h, rfl⟩) (.start hstart) hpermits)
  exact ⟨by decide +kernel, hitems, hinvalid, hcontradictory hflows⟩

/-- A flow number that no variable-length integer holds is encoded as another one, and a repair of it is taken for a
contradiction. -/
theorem contradictory_flowNumber :
    let record : SourceRecord := ⟨2 ^ 62, 0, false, [7]⟩
    EncodedSymbols 1200 (symbolOf record) ∧
      ∃ s, Reachable (Initial 1200) (Step (symbolOf record)) s ∧ FecError.contradictoryRepair ∈ s.refused := by
  intro record
  let start : Session := ⟨Decoder.withBudget 512 512 1200 0, ⟨0, 0, 1000000, by decide, false⟩, [], []⟩
  have hstart : Initial 1200 start := ⟨⟨512, 512, 0, rfl⟩, rfl, rfl⟩
  have hstep : Step (symbolOf record) start (.addRepair 0 1 1 2 20000)
      (start.apply (symbolOf record) (.addRepair 0 1 1 2 20000)) := ⟨trivial, rfl⟩
  exact ⟨encodedSymbols_symbolOf (by decide) (by decide) (by decide), _, .next (.start hstart) hstep, by decide +kernel⟩

end Session

end Quicp
