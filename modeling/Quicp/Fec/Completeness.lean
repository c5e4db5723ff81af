import Quicp.Fec.Session

/-!
# Everything that is determined is recovered

While no call is refused, nothing leaves the window and every recovered source is committed, the known sources and the
pending rows have the solutions of all equations received so far.
-/

namespace Quicp

variable {rows : List Row}

theorem mem_solvedIds {id : UInt32} :
    id ∈ solvedIds rows ↔ ∃ row ∈ (eliminate rows.length [] rows).1, row.solvedId = some id := by
  rw [solvedIds, List.mem_map]
  constructor
  · rintro ⟨item, hitem, rfl⟩
    obtain ⟨row, hrow, hsolved⟩ := List.mem_filterMap.mp ((List.perm_insertionSort _ _).subset hitem)
    obtain ⟨id, hid, rfl⟩ := Option.map_eq_some_iff.mp hsolved
    exact ⟨row, hrow, hid⟩
  · rintro ⟨row, hrow, hid⟩
    refine ⟨(id, row.solvedData), (List.perm_insertionSort _ _).mem_iff.mpr ?_, rfl⟩
    exact List.mem_filterMap.mpr ⟨row, hrow, Option.map_eq_some_iff.mpr ⟨id, hid, rfl⟩⟩

theorem keptRows_solutions (h : ∀ row ∈ rows, SparseRow.WellFormed row.coefficients)
    (assignment : UInt32 → Gf256) :
    ((∀ id ∈ solvedIds rows, assignment id = 0) ∧
        ∀ row ∈ keptRows rows, SparseRow.value row.coefficients assignment = 0) ↔
      ∀ row ∈ rows, SparseRow.value row.coefficients assignment = 0 := by
  have hwell := keptByElimination_wellFormed.eliminate rows.length (List.forall_mem_nil _) h
  have hsolutions := (linearInRows_value assignment).eliminate rows.length (List.forall_mem_nil _) h
  rw [List.nil_append] at hsolutions
  rw [← hsolutions]
  constructor
  · rintro ⟨hsolved, hkept⟩ row hrow
    match hterms : row.coefficients with
    | [] => rfl
    | [(id, scalar)] =>
      have hzero := hsolved id (mem_solvedIds.mpr ⟨row, hrow, Row.solvedId_eq_some.mpr ⟨scalar, hterms⟩⟩)
      rw [SparseRow.value_cons, hzero, mul_zero, SparseRow.value_nil, add_zero]
    | first :: second :: rest =>
      rw [← hterms]
      exact hkept row (List.mem_filter.mpr ⟨hrow, by simp [hterms]⟩)
  · intro hall
    refine ⟨fun id hid => ?_, fun row hrow => hall row (List.mem_of_mem_filter hrow)⟩
    obtain ⟨row, hrow, hsolved⟩ := mem_solvedIds.mp hid
    obtain ⟨scalar, hterms⟩ := Row.solvedId_eq_some.mp hsolved
    have hscalar : scalar ≠ 0 := (hwell row hrow).nonzero (id, scalar) (by simp [hterms])
    have hvalue := hall row hrow
    rw [hterms, SparseRow.value_cons, SparseRow.value_nil, add_zero] at hvalue
    exact (mul_eq_zero.mp hvalue).resolve_left hscalar

theorem not_mem_keptRows (h : ∀ row ∈ rows, SparseRow.WellFormed row.coefficients) {row : Row}
    (hrow : row ∈ keptRows rows) {id : UInt32} (hid : id ∈ solvedIds rows) : id ∉ row.coefficients.map Prod.fst := by
  have hwell := keptByElimination_wellFormed.eliminate rows.length (List.forall_mem_nil _) h
  obtain ⟨hmem, hlong⟩ := List.mem_filter.mp hrow
  obtain ⟨solved, hsolved, hone⟩ := mem_solvedIds.mp hid
  obtain ⟨scalar, hterms⟩ := Row.solvedId_eq_some.mp hone
  obtain ⟨system, empty, heq, hreduced, hempty⟩ := reducedRows_eliminate h
  -- Rows with terms belong to the system, and the two differ because only one of them is solved.
  have hsystem : ∀ other ∈ (eliminate rows.length [] rows).1, other.coefficients ≠ [] →
      ∃ entry ∈ system, entry.2 = other := by
    intro other hother hne
    rw [heq] at hother
    rcases List.mem_append.mp hother with hin | hin
    · exact List.mem_map.mp hin
    · exact absurd (hempty other hin) hne
  obtain ⟨entry, hentry, rfl⟩ := hsystem row hmem (by rintro hnil; simp [hnil] at hlong)
  obtain ⟨other, hother, rfl⟩ := hsystem solved hsolved (by simp [hterms])
  have hpivot : other.1 = id := by
    have hin := hreduced.pivot_mem (List.mem_map_of_mem hother)
    rw [formOf, hterms] at hin
    exact List.mem_singleton.mp hin
  have hne : formOf entry ≠ formOf other := by
    intro hform
    have hlength : entry.2.coefficients = other.2.coefficients := congrArg Prod.snd hform
    simp [hlength, hterms] at hlong
  have hzero := hreduced.coefficient_of_ne (List.mem_map_of_mem hentry) (List.mem_map_of_mem hother) hne
  rw [formOf, formOf, hpivot] at hzero
  exact fun hin => (hwell entry.2 hmem).coefficient_ne_zero.mpr hin hzero

theorem unknowns_keptRows (h : ∀ row ∈ rows, SparseRow.WellFormed row.coefficients)
    {p : UInt32 → Prop} (hp : ∀ row ∈ rows, ∀ id ∈ row.coefficients.map Prod.fst, p id) :
    ∀ row ∈ keptRows rows, ∀ id ∈ row.coefficients.map Prod.fst, p id ∧ id ∉ solvedIds rows := by
  intro row hrow id hid
  have hunknowns := (keptByElimination_unknowns p).eliminate rows.length (List.forall_mem_nil _)
    (fun row hrow => ⟨h row hrow, hp row hrow⟩)
  refine ⟨(hunknowns row (List.mem_of_mem_filter hrow)).2 id hid, fun hsolved => ?_⟩
  exact not_mem_keptRows h hrow hsolved hid

/-- What a decoder has received: a source, or a repair with its coded bytes. -/
inductive Received
  | source (id : UInt32)
  | repair (firstSymbolId : UInt32) (span : ℕ) (repairId seed : UInt32) (coded : List UInt8)
  deriving DecidableEq

namespace Received

def Holds (symbol : UInt32 → List UInt8) (bytes : UInt32 → ℕ → Gf256) : Received → Prop
  | source id => ∀ i, bytes id i = (symbolData symbol id).getD i 0
  | repair firstSymbolId span repairId seed coded => ∀ i,
    SparseRow.value (spanTerms repairId seed span firstSymbolId) (fun id => bytes id i) =
      (Gf256.ofBytes coded).getD i 0

/-- The assignment solves the equation with a zero right side. -/
def Vanishes (assignment : UInt32 → Gf256) : Received → Prop
  | source id => assignment id = 0
  | repair firstSymbolId span repairId seed _ =>
    SparseRow.value (spanTerms repairId seed span firstSymbolId) assignment = 0

theorem Holds.sub {symbol : UInt32 → List UInt8} {bytes bytes' : UInt32 → ℕ → Gf256} {received : Received}
    (h : received.Holds symbol bytes) (h' : received.Holds symbol bytes') (i : ℕ) :
    received.Vanishes (fun id => bytes id i + bytes' id i) := by
  cases received with
  | source id =>
    have hsum : bytes id i + bytes' id i = 0 := by rw [h i, h' i, Gf256.add_self]
    exact hsum
  | repair firstSymbolId span repairId seed coded =>
    have hsum := SparseRow.value_add (spanTerms repairId seed span firstSymbolId) (fun id => bytes id i)
      (fun id => bytes' id i)
    rw [h i, h' i, Gf256.add_self] at hsum
    exact hsum

theorem Holds.add {symbol : UInt32 → List UInt8} {bytes : UInt32 → ℕ → Gf256} {received : Received}
    (h : received.Holds symbol bytes) {assignment : UInt32 → Gf256} (hzero : received.Vanishes assignment) (k : ℕ) :
    received.Holds symbol (fun id i => if i = k then bytes id i + assignment id else bytes id i) := by
  cases received with
  | source id =>
    intro i
    have hid : assignment id = 0 := hzero
    dsimp only
    rw [hid, add_zero, ite_self]
    exact h i
  | repair firstSymbolId span repairId seed coded =>
    intro i
    by_cases hi : i = k
    · have hsum := SparseRow.value_add (spanTerms repairId seed span firstSymbolId) (fun id => bytes id i) assignment
      rw [h i, show SparseRow.value _ assignment = 0 from hzero, add_zero] at hsum
      simpa only [if_pos hi] using hsum
    · simpa only [if_neg hi] using h i

end Received

/-- The received equations leave only one symbol for the identifier. -/
def Determined (symbol : UInt32 → List UInt8) (history : List Received) (id : UInt32) : Prop :=
  ∀ bytes bytes', (∀ received ∈ history, received.Holds symbol bytes) →
    (∀ received ∈ history, received.Holds symbol bytes') → bytes id = bytes' id

namespace Decoder

/-- The window has room for a source with the identifier, so nothing is evicted for it. -/
def Room (d : Decoder) (id : UInt32) : Prop := id ∉ d.known.ids → d.known.queue.length < d.maxSymbols

/-- All items are committed, and none of them is refused or evicts another source. -/
inductive Commits : Decoder → List RecoveredSource → Decoder → Prop
  | nil {d : Decoder} : Commits d [] d
  | cons {d next last : Decoder} {item : RecoveredSource} {rest : List RecoveredSource} {storage : Storage}
      {charge : RecoveryCharge} {budget after : RecoveryMemoryBudget} (hroom : d.Room item.symbolId)
      (hcommit : d.commitRecoveredPrecharged budget storage item.symbolId item.bytes charge = (.ok (), next, after))
      (hrest : Commits next rest last) : Commits d (item :: rest) last

/-- An honest source or repair is accepted, and everything it recovers is committed. -/
inductive Accepts (symbol : UInt32 → List UInt8) : Decoder → Received → Decoder → Prop
  | source {d next last : Decoder} {id : UInt32} {storage : Storage} {workBudget : ℕ} {batch : RecoveredBatch}
      {budget after : RecoveryMemoryBudget} (hroom : d.Room id)
      (hadd : d.addSource budget storage id (symbol id) workBudget = (.ok batch, next, after))
      (hcommits : Commits next batch.items last) : Accepts symbol d (.source id) last
  | repair {d next last : Decoder} {firstSymbolId repairId seed : UInt32} {span : ℕ} {coded : List UInt8}
      {workBudget : ℕ} {batch : RecoveredBatch} {budget after : RecoveryMemoryBudget}
      (hcoded : repairSymbol firstSymbolId repairId seed ((spanIds span firstSymbolId).map symbol) = .ok coded)
      (hadd : d.addRepair budget firstSymbolId span repairId seed coded workBudget = (.ok batch, next, after))
      (hcommits : Commits next batch.items last) :
      Accepts symbol d (.repair firstSymbolId span repairId seed coded) last

/-- The known sources, the given solved identifiers and the rows have exactly the solutions of the received
equations, and no row has an unknown that is known or solved. -/
structure Spans (symbol : UInt32 → List UInt8) (d : Decoder) (solved : List UInt32) (history : List Received) :
    Prop where
  encoded : EncodedSymbols d.maxSymbolBytes symbol
  honest : d.Honest symbol
  apart : ∀ row ∈ d.rows, ∀ id ∈ row.coefficients.map Prod.fst, id ∉ d.known.ids ∧ id ∉ solved
  solutions : ∀ assignment : UInt32 → Gf256, ((∀ id ∈ d.known.ids, assignment id = 0) ∧
    (∀ id ∈ solved, assignment id = 0) ∧ ∀ row ∈ d.rows, SparseRow.value row.coefficients assignment = 0) ↔
      ∀ received ∈ history, received.Vanishes assignment
  holds : ∀ received ∈ history, received.Holds symbol fun id i => (symbolData symbol id).getD i 0

variable {symbol : UInt32 → List UInt8} {d : Decoder} {history : List Received}

variable {after budget : RecoveryMemoryBudget} {id : UInt32} {next : Decoder}

theorem Spans.commit {rest : List UInt32} (h : d.Spans symbol (id :: rest) history)
    (hroom : d.Room id) {charge : RecoveryCharge}
    (hresult : CommitResult d budget id (symbol id) charge (.ok ()) next after) :
    next.Spans symbol rest history := by
  obtain ⟨hhonest, hsize, _⟩ := h.honest.commit h.encoded hresult
  have hrest : ∀ row ∈ d.rows, ∀ other ∈ row.coefficients.map Prod.fst, other ∉ d.known.ids ∧ other ≠ id ∧
      other ∉ rest := by
    intro row hrow other hother
    obtain ⟨hknown, hsolved⟩ := h.apart row hrow other hother
    rw [List.mem_cons, not_or] at hsolved
    exact ⟨hknown, hsolved⟩
  cases hresult with
  | duplicate hknown =>
    refine ⟨h.encoded, h.honest, fun row hrow other hother => ?_, fun assignment => ?_, h.holds⟩
    · exact ⟨(hrest row hrow other hother).1, (hrest row hrow other hother).2.2⟩
    · rw [← h.solutions assignment, List.forall_mem_cons]
      constructor
      · rintro ⟨hall, hsolved, hrows⟩
        exact ⟨hall, ⟨hall id hknown, hsolved⟩, hrows⟩
      · rintro ⟨hall, ⟨_, hsolved⟩, hrows⟩
        exact ⟨hall, hsolved, hrows⟩
  | inserted fresh hrows hinserted =>
    have hids := hinserted.room (hroom fresh)
    refine ⟨hsize ▸ h.encoded, hhonest, fun row hrow other hother => ?_, fun assignment => ?_, h.holds⟩
    · rw [hrows] at hrow
      obtain ⟨hknown, hne, hsolved⟩ := hrest row hrow other hother
      rw [hids, Finset.mem_insert, not_or]
      exact ⟨⟨hne, hknown⟩, hsolved⟩
    · rw [← h.solutions assignment, hids, hrows, Finset.forall_mem_insert, List.forall_mem_cons]
      tauto

theorem Spans.commits {items : List RecoveredSource} (hcommits : Commits d items next)
    (hitems : ∀ item ∈ items, item.bytes = symbol item.symbolId)
    (h : d.Spans symbol (items.map RecoveredSource.symbolId) history) : next.Spans symbol [] history := by
  induction hcommits with
  | nil => exact h
  | cons hroom hcommit hrest ih =>
    obtain ⟨hitem, hlater⟩ := List.forall_mem_cons.mp hitems
    rw [hitem] at hcommit
    exact ih hlater (h.commit hroom (commitResult_of_eq hcommit))

variable {assignment : UInt32 → Gf256}

private theorem forall_vanishes_append {received : Received} :
    (∀ other ∈ history ++ [received], other.Vanishes assignment) ↔
      (∀ other ∈ history, other.Vanishes assignment) ∧ received.Vanishes assignment := by
  rw [List.forall_mem_append, List.forall_mem_singleton]

variable {batch : RecoveredBatch}

private theorem items_of_returned {items : List RecoveredSource}
    (h : Returned items (.ok batch)) : batch.items = items := by
  rcases h with heq | ⟨batch', heq, hitems⟩
  · cases heq
  · rw [Outcome.ok.inj heq, hitems]

theorem not_mem_substituted {row : Row} (h : SparseRow.WellFormed row.coefficients) (id : UInt32)
    (source : List Gf256) : id ∉ (substituted id source row).coefficients.map Prod.fst := by
  unfold substituted
  cases htake : SparseRow.takeTerm id row.coefficients with
  | none => exact SparseRow.takeTerm_eq_none.mp htake
  | some taken => exact h.not_mem_takeTerm htake

theorem value_substituted (h : assignment id = 0) (source : List Gf256)
    (row : Row) : SparseRow.value (substituted id source row).coefficients assignment =
      SparseRow.value row.coefficients assignment := by
  unfold substituted
  cases htake : SparseRow.takeTerm id row.coefficients with
  | none => rfl
  | some taken => rw [SparseRow.value_takeTerm htake, h, mul_zero, zero_add]

variable {workBudget : ℕ}

theorem Spans.source (h : d.Spans symbol [] history) (hroom : d.Room id)
    (hresult : SourceResult d budget id (symbol id) workBudget (.ok batch) next after) :
    next.Spans symbol (batch.items.map RecoveredSource.symbolId) (history ++ [.source id]) := by
  obtain ⟨hhonest, hsize, _⟩ := h.honest.addSource h.encoded hresult
  have hholds : ∀ received ∈ history ++ [.source id], received.Holds symbol
      fun id i => (symbolData symbol id).getD i 0 :=
    List.forall_mem_append.mpr ⟨h.holds, List.forall_mem_singleton.mpr fun _ => rfl⟩
  cases hresult with
  | duplicate hknown hreturned =>
    rw [items_of_returned hreturned]
    refine ⟨h.encoded, h.honest, h.apart, fun assignment => ?_, hholds⟩
    rw [forall_vanishes_append, ← h.solutions assignment]
    exact ⟨fun hall => ⟨hall, hall.1 id hknown⟩, And.left⟩
  | alone fresh hrows hnext hinserted hreturned =>
    rw [items_of_returned hreturned]
    refine ⟨hsize ▸ h.encoded, hhonest, ?_, fun assignment => ?_, hholds⟩
    · rw [hnext]
      exact List.forall_mem_nil _
    · rw [forall_vanishes_append, ← h.solutions assignment, hinserted.room (hroom fresh), hnext, hrows,
        Finset.forall_mem_insert]
      simp only [List.map_nil, Received.Vanishes]
      tauto
  | solved fresh hrows hsolved hinserted hreturned =>
    have hids := hinserted.room (hroom fresh)
    have htrue : ∀ row ∈ d.substitutedRows id (symbol id), TrueRow (symbolData symbol) d.maxSymbolBytes row :=
      List.forall_mem_map.mpr fun row hrow => (h.honest.rows row hrow).substituted id
    have hwell : ∀ row ∈ d.substitutedRows id (symbol id), SparseRow.WellFormed row.coefficients :=
      fun row hrow => (htrue row hrow).wellFormed
    have hunknowns : ∀ row ∈ d.substitutedRows id (symbol id), ∀ other ∈ row.coefficients.map Prod.fst,
        other ∉ next.known.ids := by
      refine List.forall_mem_map.mpr fun row hrow other hother => ?_
      rw [hids, Finset.mem_insert, not_or]
      constructor
      · rintro rfl
        exact not_mem_substituted (h.honest.rows row hrow).wellFormed _ _ hother
      · exact (h.apart row hrow other (((sublist_substituted _ _ _).map _).subset hother)).1
    rcases h.honest.sourceRows_cases h.encoded id workBudget with hcase | hcase
    · rw [hcase] at hsolved
      cases hsolved
    · rw [hsolved] at hcase
      obtain ⟨hkept, hitems⟩ := eq_of_solvedAs hcase
      have hsolvedIds : batch.items.map RecoveredSource.symbolId = solvedIds (d.substitutedRows id (symbol id)) := by
        rw [items_of_returned hreturned, hitems, List.map_map]
        exact List.map_id _
      rw [hsolvedIds]
      refine ⟨hsize ▸ h.encoded, hhonest, hkept ▸ unknowns_keptRows hwell hunknowns, fun assignment => ?_, hholds⟩
      rw [forall_vanishes_append, ← h.solutions assignment, hkept, keptRows_solutions hwell assignment, hids,
        Finset.forall_mem_insert, substitutedRows, List.forall_mem_map]
      constructor
      · rintro ⟨⟨hzero, hknown⟩, hall⟩
        refine ⟨⟨hknown, List.forall_mem_nil _, fun row hrow => ?_⟩, hzero⟩
        rw [← value_substituted hzero]
        exact hall row hrow
      · rintro ⟨⟨hknown, _, hall⟩, hzero⟩
        refine ⟨⟨hzero, hknown⟩, fun row hrow => ?_⟩
        rw [value_substituted hzero]
        exact hall row hrow

variable {coded : List UInt8} {firstSymbolId repairId seed : UInt32} {span : ℕ}

theorem not_mem_pendingRow
    (h : id ∈ (pendingRow d.known firstSymbolId span repairId seed coded).coefficients.map Prod.fst) :
    id ∉ d.known.ids := by
  obtain ⟨term, hterm, rfl⟩ := List.mem_map.mp h
  have hunknown := (List.mem_filter.mp ((List.perm_insertionSort _ _).subset hterm)).2
  exact not_mem_of_find (Option.isNone_iff_eq_none.mp hunknown)

theorem value_pendingRow (h : ∀ id ∈ d.known.ids, assignment id = 0)
    (firstSymbolId repairId seed : UInt32) (span : ℕ) (coded : List UInt8) :
    SparseRow.value (pendingRow d.known firstSymbolId span repairId seed coded).coefficients assignment =
      SparseRow.value (spanTerms repairId seed span firstSymbolId) assignment := by
  have hknown : SparseRow.value ((spanTerms repairId seed span firstSymbolId).filter
      fun term => !(d.known.find term.1).isNone) assignment = 0 := by
    refine SparseRow.value_eq_zero fun term hterm => h term.1 ?_
    have hsome := (List.mem_filter.mp hterm).2
    cases hfind : d.known.find term.1 with
    | none => simp [hfind] at hsome
    | some source => exact KnownSources.mem_ids.mpr ⟨source, KnownSources.find_eq_some hfind⟩
  have hsplit := SparseRow.value_filter_add (fun term => (d.known.find term.1).isNone)
    (spanTerms repairId seed span firstSymbolId) assignment
  rw [hknown, add_zero] at hsplit
  exact (SparseRow.value_perm (List.perm_insertionSort _ _) assignment).trans hsplit

theorem Spans.repair (h : d.Spans symbol [] history)
    (hcoded : repairSymbol firstSymbolId repairId seed ((spanIds span firstSymbolId).map symbol) = .ok coded)
    (hresult : RepairResult d budget firstSymbolId span repairId seed coded workBudget (.ok batch) next after) :
    next.Spans symbol (batch.items.map RecoveredSource.symbolId)
      (history ++ [.repair firstSymbolId span repairId seed coded]) := by
  obtain ⟨hhonest, hsize, _⟩ := h.honest.addRepair h.encoded hcoded hresult
  obtain ⟨_, _, _, _, _, hequation⟩ := repairSymbol_eq_ok (fun id _ => h.encoded.bounded id) hcoded
  have hrow := trueRow_pendingRow h.honest.known (fun id _ => h.encoded.bounded id) hcoded
  have hholds : ∀ received ∈ history ++ [.repair firstSymbolId span repairId seed coded],
      received.Holds symbol fun id i => (symbolData symbol id).getD i 0 :=
    List.forall_mem_append.mpr ⟨h.holds, List.forall_mem_singleton.mpr fun i => (hequation i).symm⟩
  have hcases := h.honest.repairRows_cases h.encoded hcoded workBudget
  cases hresult with
  | solved hspan hroom hsolved hreturned =>
    rw [hsolved] at hcases
    rcases hcases with hcase | ⟨hterms, hcase⟩ | ⟨hterms, hcase⟩
    · cases hcase
    · obtain ⟨rfl, rfl⟩ := Prod.mk.inj (Except.ok.inj hcase)
      rw [items_of_returned hreturned]
      refine ⟨h.encoded, hhonest, h.apart, fun assignment => ?_, hholds⟩
      rw [forall_vanishes_append, ← h.solutions assignment]
      refine ⟨fun hall => ⟨hall, ?_⟩, And.left⟩
      have hvalue := value_pendingRow hall.1 firstSymbolId repairId seed span coded
      rw [hterms, SparseRow.value_nil] at hvalue
      exact hvalue.symm
    · obtain ⟨rfl, rfl⟩ := eq_of_solvedAs hcase
      have hwell : ∀ row ∈ d.rows ++ [pendingRow d.known firstSymbolId span repairId seed coded],
          SparseRow.WellFormed row.coefficients := List.forall_mem_append.mpr
        ⟨fun row hmem => (h.honest.rows row hmem).wellFormed, List.forall_mem_singleton.mpr hrow.wellFormed⟩
      have hunknowns : ∀ row ∈ d.rows ++ [pendingRow d.known firstSymbolId span repairId seed coded],
          ∀ id ∈ row.coefficients.map Prod.fst, id ∉ d.known.ids := List.forall_mem_append.mpr
        ⟨fun row hmem id hid => (h.apart row hmem id hid).1, List.forall_mem_singleton.mpr fun id => not_mem_pendingRow⟩
      have hsolvedIds : batch.items.map RecoveredSource.symbolId =
          solvedIds (d.rows ++ [pendingRow d.known firstSymbolId span repairId seed coded]) := by
        rw [items_of_returned hreturned, List.map_map]
        exact List.map_id _
      rw [hsolvedIds]
      refine ⟨h.encoded, hhonest, unknowns_keptRows hwell hunknowns, fun assignment => ?_, hholds⟩
      rw [forall_vanishes_append, ← h.solutions assignment, keptRows_solutions hwell assignment,
        List.forall_mem_append, List.forall_mem_singleton]
      constructor
      · rintro ⟨hknown, hall, hnew⟩
        rw [value_pendingRow hknown] at hnew
        exact ⟨⟨hknown, List.forall_mem_nil _, hall⟩, hnew⟩
      · rintro ⟨⟨hknown, _, hall⟩, hnew⟩
        refine ⟨hknown, hall, ?_⟩
        rw [value_pendingRow hknown]
        exact hnew

/-- A decoder and what it has accepted so far: every step accepts one more source or repair. -/
def Receives (symbol : UInt32 → List UInt8) (s : Decoder × List Received) (received : Received)
    (t : Decoder × List Received) : Prop :=
  s.1.Accepts symbol received t.1 ∧ t.2 = s.2 ++ [received]

/-- A new decoder for symbols of at most the given size, with any other limits. -/
def Fresh (maxSymbolBytes : ℕ) (s : Decoder × List Received) : Prop :=
  (∃ maxSymbols maxRows memoryBudget, s.1 = withBudget maxSymbols maxRows maxSymbolBytes memoryBudget) ∧ s.2 = []

theorem spans_of_fresh {maxSymbolBytes : ℕ} (hsymbol : EncodedSymbols maxSymbolBytes symbol)
    {s : Decoder × List Received} (h : Fresh maxSymbolBytes s) : s.1.Spans symbol [] s.2 := by
  obtain ⟨⟨maxSymbols, maxRows, memoryBudget, hdecoder⟩, hhistory⟩ := h
  rw [hdecoder, hhistory]
  refine ⟨hsymbol, ?_, List.forall_mem_nil _, fun assignment => ?_, List.forall_mem_nil _⟩
  · exact ⟨List.forall_mem_nil _, List.forall_mem_nil _, [], rfl, SparseRow.Reduced.nil, List.forall_mem_nil _⟩
  · simp [withBudget, KnownSources.empty]

theorem Spans.receives {s t : Decoder × List Received} {received : Received} (h : s.1.Spans symbol [] s.2)
    (hstep : Receives symbol s received t) : t.1.Spans symbol [] t.2 := by
  obtain ⟨haccepts, hhistory⟩ := hstep
  rw [hhistory]
  cases haccepts with
  | source hroom hadd hcommits =>
    have hresult := sourceResult_of_eq hadd
    have hsound := (h.honest.addSource h.encoded hresult).2.2
    exact Spans.commits hcommits (hsound.items _ rfl) (h.source hroom hresult)
  | repair hcoded hadd hcommits =>
    have hresult := repairResult_of_eq hadd
    have hsound := (h.honest.addRepair h.encoded hcoded hresult).2.2
    exact Spans.commits hcommits (hsound.items _ rfl) (h.repair hcoded hresult)

theorem Spans.exists_assignment (h : d.Spans symbol [] history) (hnot : id ∉ d.known.ids) :
    ∃ assignment : UInt32 → Gf256, assignment id ≠ 0 ∧ ∀ received ∈ history, received.Vanishes assignment := by
  obtain ⟨system, hrows, hreduced, hlong⟩ := h.honest.pending
  have hmem : ∀ entry ∈ system.map formOf, ∃ row ∈ d.rows, row.coefficients = entry.2 := by
    refine List.forall_mem_map.mpr fun entry hentry => ⟨entry.2, ?_, rfl⟩
    rw [hrows]
    exact List.mem_map_of_mem hentry
  obtain ⟨assignment, hsystem, hne, hother⟩ := hreduced.exists_solution
    (fun entry hentry => by
      obtain ⟨row, hrow, heq⟩ := hmem entry hentry
      rw [← heq]
      exact (h.honest.rows row hrow).wellFormed)
    (fun entry hentry => by
      obtain ⟨row, hrow, heq⟩ := hmem entry hentry
      rw [← heq]
      exact hlong row hrow) id
  refine ⟨assignment, hne, (h.solutions assignment).mp ⟨fun known hknown => ?_, List.forall_mem_nil _, ?_⟩⟩
  · refine hother known (fun heq => hnot (heq ▸ hknown)) fun entry hentry hin => ?_
    obtain ⟨row, hrow, heq⟩ := hmem entry hentry
    rw [← heq] at hin
    exact (h.apart row hrow known hin).1 hknown
  · intro row hrow
    rw [hrows] at hrow
    obtain ⟨entry, hentry, rfl⟩ := List.mem_map.mp hrow
    exact hsystem (formOf entry) (List.mem_map_of_mem hentry)

theorem Spans.mem_known_iff (h : d.Spans symbol [] history) (id : UInt32) :
    id ∈ d.known.ids ↔ Determined symbol history id := by
  constructor
  · intro hid bytes bytes' hbytes hbytes'
    funext i
    have hzero := (h.solutions fun id => bytes id i + bytes' id i).mpr fun received hreceived =>
      (hbytes received hreceived).sub (hbytes' received hreceived) i
    exact sub_eq_zero.mp ((Gf256.sub_eq_add _ _).trans (hzero.1 id hid))
  · intro hdetermined
    by_contra hnot
    obtain ⟨assignment, hne, hvanishes⟩ := h.exists_assignment hnot
    have hsame := hdetermined _ _ h.holds fun received hreceived =>
      (h.holds received hreceived).add (hvanishes received hreceived) 0
    have hbyte := congrFun hsame 0
    rw [if_pos rfl] at hbyte
    exact hne (left_eq_add.mp hbyte)

/-- While nothing is refused or evicted and everything recovered is committed, the known identifiers are exactly
those that the sources and repairs received so far determine, and their order does not matter. -/
theorem known_iff_determined {maxSymbolBytes : ℕ} (hsymbol : EncodedSymbols maxSymbolBytes symbol)
    {s : Decoder × List Received} (h : Reachable (Fresh maxSymbolBytes) (Receives symbol) s) :
    (∀ id, id ∈ s.1.known.ids ↔ Determined symbol s.2 id) ∧
      ∀ t, Reachable (Fresh maxSymbolBytes) (Receives symbol) t → s.2.Perm t.2 → t.1.known.ids = s.1.known.ids := by
  have hspans : ∀ {s : Decoder × List Received}, Reachable (Fresh maxSymbolBytes) (Receives symbol) s →
      s.1.Spans symbol [] s.2 := fun hreach =>
    hreach.invariant (fun _ hs => spans_of_fresh hsymbol hs) (fun _ _ _ hinv hstep => hinv.receives hstep)
  refine ⟨(hspans h).mem_known_iff, fun t ht hperm => ?_⟩
  ext id
  rw [(hspans h).mem_known_iff, (hspans ht).mem_known_iff, Determined, Determined]
  simp only [hperm.mem_iff]

theorem reachable_repair_source {maxSymbolBytes : ℕ} {start first second third : Decoder}
    (hstart : Fresh maxSymbolBytes (start, [])) {budget after after' after'' : RecoveryMemoryBudget}
    {firstSymbolId repairId seed id : UInt32} {span workBudget : ℕ} {coded : List UInt8} {storage : Storage}
    {item : RecoveredSource} {batch batch' : RecoveredBatch} {charge : RecoveryCharge}
    (hcoded : repairSymbol firstSymbolId repairId seed ((spanIds span firstSymbolId).map symbol) = .ok coded)
    (hrepair : start.addRepair budget firstSymbolId span repairId seed coded workBudget = (.ok batch, first, after))
    (hnone : batch.items = [])
    (hsource : first.addSource after storage id (symbol id) workBudget = (.ok batch', second, after'))
    (hone : batch'.items = [item])
    (hcommit : second.commitRecoveredPrecharged after' storage item.symbolId item.bytes charge =
      (.ok (), third, after'')) (hroom : first.Room id) (hroom' : second.Room item.symbolId) :
    Reachable (Fresh maxSymbolBytes) (Receives symbol)
      (third, [.repair firstSymbolId span repairId seed coded, .source id]) := by
  have hfirst : Receives symbol (start, []) (.repair firstSymbolId span repairId seed coded)
      (first, [.repair firstSymbolId span repairId seed coded]) :=
    ⟨.repair hcoded hrepair (hnone ▸ .nil), rfl⟩
  have hsecond : Receives symbol (first, [.repair firstSymbolId span repairId seed coded]) (.source id)
      (third, [.repair firstSymbolId span repairId seed coded, .source id]) :=
    ⟨.source hroom hsource (hone ▸ .cons hroom' hcommit .nil), rfl⟩
  exact .next (.next (.start hstart) hfirst) hsecond

theorem known_iff_determined_pair :
    let record : SourceRecord := ⟨4, 0, false, [7]⟩
    let history : List Received := [.repair 10 2 100 7 [69, 0, 0, 0, 225, 195, 43, 0, 0, 195, 115], .source 11]
    ∃ d : Decoder, 10 ∈ d.known.ids ∧ ∀ id, id ∈ d.known.ids ↔ Determined (Session.symbolOf record) history id := by
  intro record history
  let start := withBudget 512 512 1200 0
  let row : Row := ⟨[(10, ⟨1⟩), (11, ⟨3⟩)], Gf256.ofBytes [64, 0, 0, 0, 23, 2, 8, 0, 0, 2, 14]⟩
  let eleven := KnownSources.empty.pushBack ⟨11, Session.symbolOf record 11, 11⟩ (by decide)
  let both := eleven.pushBack ⟨10, Session.symbolOf record 10, 11⟩ (by decide)
  have hrun : Reachable (Fresh 1200) (Receives (Session.symbolOf record))
      ({ start with known := both, rowBytes := 48 }, history) :=
    @reachable_repair_source (Session.symbolOf record) 1200 start
      { start with rows := [row], rowBytes := 1264 } { start with known := eleven, rowBytes := 48 }
      { start with known := both, rowBytes := 48 } ⟨⟨512, 512, 0, rfl⟩, rfl⟩
      ⟨0, 0, 1000000, by decide, false⟩ ⟨0, 1264, 1000000, by decide, false⟩ ⟨0, 118, 1000000, by decide, false⟩
      ⟨0, 118, 1000000, by decide, false⟩ 10 100 7 11 2 20000 _ ⟨false, false, 0, false, 0⟩
      (recoveredOf (Session.symbolOf record) 10) ⟨[], 0, ⟨0, 0⟩⟩
      ⟨[recoveredOf (Session.symbolOf record) 10], 59, ⟨0, 59⟩⟩ ⟨0, 11⟩ (by decide +kernel) (by decide +kernel) rfl
      (by decide +kernel) rfl (by decide +kernel) (fun _ => by decide) (fun _ => by decide)
  refine ⟨_, ?_, (known_iff_determined
    (Session.encodedSymbols_symbolOf (by decide) (by decide) (by decide)) hrun).1⟩
  decide +kernel

end Decoder

end Quicp
