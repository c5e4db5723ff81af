import Quicp.Fec.Session

/-!
# The cost of a source

While rows are pending a source pays for a copy of them, for its substitution and for the elimination.
-/

namespace Quicp

private theorem checkedAdd_bind (work first second : ℕ) :
    ((checkedAdd work first).bind fun work => checkedAdd work second) =
      if work + (first + second) ≤ wordMax then some (work + (first + second)) else none := by
  unfold checkedAdd
  by_cases hfirst : work + first ≤ wordMax
  · rw [if_pos hfirst, Option.bind_some, Nat.add_assoc]
  · rw [if_neg hfirst, if_neg (by omega)]
    rfl

private theorem foldlM_cloneWork (rows : List Row) {work : ℕ} (hwork : work ≤ wordMax) :
    rows.foldlM (fun work row => (checkedAdd work row.coefficients.length).bind fun work =>
      checkedAdd work row.data.length) work =
        if work + (rows.map Row.size).sum ≤ wordMax then some (work + (rows.map Row.size).sum) else none := by
  induction rows generalizing work with
  | nil => simp [hwork]
  | cons row rest ih =>
    rw [List.foldlM_cons, List.map_cons, List.sum_cons, checkedAdd_bind, ← Row.size]
    by_cases hrow : work + row.size ≤ wordMax
    · rw [if_pos hrow, Option.bind_eq_bind, Option.bind_some, ih hrow, Nat.add_assoc]
    · rw [if_neg hrow, if_neg (by omega)]
      rfl

theorem matrixCloneWork_eq (rows : List Row) : matrixCloneWork rows =
    if (rows.map Row.size).sum ≤ wordMax then some (rows.map Row.size).sum else none := by
  have hloop := foldlM_cloneWork rows (Nat.zero_le wordMax)
  rwa [Nat.zero_add] at hloop

theorem spendMany_eq {count work budget : ℕ} (hwork : work ≤ budget) (hbudget : budget < wordMax) :
    spendMany count work budget = if work + count ≤ budget then .ok (work + count) else .error .workBudget := by
  unfold spendMany saturatingAdd
  by_cases hcount : count = 0
  · simp [hcount, hwork]
  · rw [if_neg hcount]
    by_cases hfits : work + count ≤ budget
    · rw [if_pos hfits, if_neg (by omega), min_eq_left (by omega)]
    · rw [if_neg hfits, if_pos (by omega)]

namespace Decoder

/-- The operations of a source: the copy of the rows, the substitution and the elimination. -/
def sourceWork (d : Decoder) (id : UInt32) (source : List UInt8) : ℕ :=
  (d.rows.map Row.size).sum + (d.rows.map (substituteWork id (Gf256.ofBytes source))).sum +
    (eliminate (d.substitutedRows id source).length [] (d.substitutedRows id source)).2

variable {symbol : UInt32 → List UInt8} {d : Decoder}

theorem Honest.sourceRows_eq_workBudget (h : d.Honest symbol) (hsymbol : EncodedSymbols d.maxSymbolBytes symbol)
    (id : UInt32) {workBudget : ℕ} (hbudget : workBudget < wordMax) :
    d.sourceRows id (symbol id) workBudget = .error .workBudget ↔ workBudget < d.sourceWork id (symbol id) := by
  have hfits : ∀ row ∈ d.rows, id ∈ row.coefficients.map Prod.fst →
      (Gf256.ofBytes (symbol id)).length ≤ row.data.length := fun row hrow hid => (h.rows row hrow).fits id hid
  have htrue : ∀ row ∈ d.substitutedRows id (symbol id), TrueRow (symbolData symbol) d.maxSymbolBytes row :=
    List.forall_mem_map.mpr fun row hrow => (h.rows row hrow).substituted id
  obtain ⟨result, hresult, hsolve⟩ := solve_eq hsymbol htrue h.known
  have hpaid : result ≠ .error .workBudget := by
    rcases hresult with rfl | ⟨_, rfl⟩ <;> simp
  unfold sourceRows sourceWork
  rw [matrixCloneWork_eq]
  by_cases hclone : (d.rows.map Row.size).sum ≤ workBudget
  · rw [if_pos (by omega)]
    dsimp only
    rw [if_neg (by omega), solveSource, substituteRows_eq hfits, metered, spendMany_eq hclone hbudget]
    by_cases hsubstitute : (d.rows.map Row.size).sum +
        (d.rows.map (substituteWork id (Gf256.ofBytes (symbol id)))).sum ≤ workBudget
    · rw [if_pos hsubstitute]
      simp only [Except.map, bind, Except.bind]
      rw [← substitutedRows, hsolve, spendMany_eq (Nat.zero_le _) (by omega), Nat.zero_add]
      by_cases hsolved : (eliminate (d.substitutedRows id (symbol id)).length []
          (d.substitutedRows id (symbol id))).2 ≤ workBudget - ((d.rows.map Row.size).sum +
            (d.rows.map (substituteWork id (Gf256.ofBytes (symbol id)))).sum)
      · rw [if_pos hsolved]
        exact iff_of_false hpaid (by omega)
      · rw [if_neg hsolved]
        exact iff_of_true rfl (by omega)
    · rw [if_neg hsubstitute]
      exact iff_of_true rfl (by omega)
  · refine iff_of_true ?_ (by omega)
    split
    · rfl
    · next work hwork =>
      split_ifs at hwork
      cases hwork
      exact if_pos (not_le.mp hclone)

theorem Honest.addSource_eq_workBudget (h : d.Honest symbol) (hsymbol : EncodedSymbols d.maxSymbolBytes symbol)
    {id : UInt32} (hid : id ∉ d.known.ids) {workBudget : ℕ} (hbudget : workBudget < wordMax)
    {budget after : RecoveryMemoryBudget} {outcome : Outcome FecError RecoveredBatch} {next : Decoder}
    (hresult : SourceResult d budget id (symbol id) workBudget outcome next after)
    (hmemory : outcome ≠ .err .memoryCapacity) :
    outcome = .err .workBudget ↔ d.rows ≠ [] ∧ workBudget < d.sourceWork id (symbol id) := by
  have hwork := h.sourceRows_eq_workBudget hsymbol id hbudget
  have hnot : ∀ {items : List RecoveredSource}, Returned items outcome → outcome ≠ .err .workBudget := by
    rintro items (rfl | ⟨batch, rfl, _⟩) <;> simp
  cases hresult with
  | invalid hsize =>
    rcases hsize with hnil | hlong
    · exact absurd hnil (hsymbol.ne_nil id)
    · exact absurd (hsymbol.bounded id) (not_le.mpr hlong)
  | contradictory hfind hne => exact absurd (bytes_of_find h.known hfind) hne
  | memory => exact absurd rfl hmemory
  | failed fresh hrows hfailed =>
    rw [← hwork, hfailed]
    simp [hrows]
  | duplicate hknown hreturned => exact absurd hknown hid
  | alone fresh hrows hnext hinserted hreturned => exact iff_of_false (hnot hreturned) fun hpending => hpending.1 hrows
  | solved fresh hrows hsolved hinserted hreturned =>
    refine iff_of_false (hnot hreturned) fun hpending => ?_
    rw [← hwork, hsolved] at hpending
    cases hpending.2

end Decoder

namespace Session

/-- In every state that honest traffic leads to, an intact source with a new identifier is refused for work exactly
when repairs are pending and the budget is below the operations of the source; the decoder is then unchanged. -/
theorem source_refused_iff {symbol : UInt32 → List UInt8} {maxSymbolBytes : ℕ}
    (hsymbol : EncodedSymbols maxSymbolBytes symbol) {s : Session}
    (h : Reachable (Initial maxSymbolBytes) (Step symbol) s) {id : UInt32} (hid : id ∉ s.decoder.known.ids)
    {workBudget : ℕ} (hbudget : workBudget < wordMax) (budget : RecoveryMemoryBudget) (storage : Storage)
    (hmemory : (s.decoder.addSource budget storage id (symbol id) workBudget).1 ≠ .err .memoryCapacity) :
    ((s.decoder.addSource budget storage id (symbol id) workBudget).1 = .err .workBudget ↔
      s.decoder.rows ≠ [] ∧ workBudget < s.decoder.sourceWork id (symbol id)) ∧
    ((s.decoder.addSource budget storage id (symbol id) workBudget).1 = .err .workBudget →
      (s.decoder.addSource budget storage id (symbol id) workBudget).2 = (s.decoder, budget)) := by
  have hinv := inv_of_reachable hsymbol h
  have hencoded : EncodedSymbols s.decoder.maxSymbolBytes symbol := by rwa [hinv.size]
  have hresult := s.decoder.addSource_result budget storage id (symbol id) workBudget
  refine ⟨hinv.honest.addSource_eq_workBudget hencoded hid hbudget hresult hmemory, fun herror => ?_⟩
  rw [herror] at hresult
  exact Prod.ext hresult.unchanged.1 hresult.unchanged.2

/-- A repair of two symbols that 26 operations pay for leaves a row, and either symbol then costs 36 operations. -/
theorem source_blocked_by_repair :
    let record : SourceRecord := ⟨4, 0, false, [7]⟩
    let start : Session := ⟨Decoder.withBudget 512 512 1200 0, ⟨0, 0, u32Max, le_rfl, false⟩, [], []⟩
    let s := start.apply (symbolOf record) (.addRepair 10 2 100 7 26)
    EncodedSymbols 1200 (symbolOf record) ∧ Initial 1200 start ∧
      Step (symbolOf record) start (.addRepair 10 2 100 7 26) s ∧ s.returned = [] ∧ s.refused = [] ∧
      11 ∉ s.decoder.known.ids ∧
      (s.decoder.addSource s.budget ⟨false, false, 0, false, 0⟩ 11 (symbolOf record 11) 26).1 = .err .workBudget := by
  intro record start s
  refine ⟨encodedSymbols_symbolOf (by decide) (by decide) (by decide), ⟨⟨512, 512, 0, rfl⟩, rfl, rfl⟩,
    ⟨trivial, rfl⟩, ?_, ?_, ?_, ?_⟩ <;> decide +kernel

theorem source_refused_iff_pair :
    let record : SourceRecord := ⟨4, 0, false, [7]⟩
    let start : Session := ⟨Decoder.withBudget 512 512 1200 0, ⟨0, 0, u32Max, le_rfl, false⟩, [], []⟩
    let s := start.apply (symbolOf record) (.addRepair 10 2 100 7 26)
    s.decoder.sourceWork 11 (symbolOf record 11) = 36 ∧
      ((s.decoder.addSource s.budget ⟨false, false, 0, false, 0⟩ 11 (symbolOf record 11) 35).1 = .err .workBudget ↔
        s.decoder.rows ≠ [] ∧ 35 < s.decoder.sourceWork 11 (symbolOf record 11)) := by
  intro record start s
  have hstart : Initial 1200 start := ⟨⟨512, 512, 0, rfl⟩, rfl, rfl⟩
  have hstep : Step (symbolOf record) start (.addRepair 10 2 100 7 26) s := ⟨trivial, rfl⟩
  exact ⟨by decide +kernel, (source_refused_iff
    (encodedSymbols_symbolOf (by decide) (by decide) (by decide)) (.next (.start hstart) hstep) (by decide +kernel)
    (by decide) s.budget _ (by decide +kernel)).1⟩

end Session

end Quicp
