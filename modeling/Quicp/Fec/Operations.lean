import Quicp.Fec.Window

/-!
# What the operations of the decoder do

Every call of the decoder ends in one of a few ways. A refused call leaves the decoder and the shared budget as they
were.
-/

namespace Quicp

theorem RecoveryCharge.drop_of_reserve {budget next : RecoveryMemoryBudget} {bytes : ℕ} {charge : RecoveryCharge}
    (h : RecoveryCharge.reserve budget bytes = .ok (charge, next)) : charge.drop next = budget := by
  obtain ⟨rfl, rfl, _⟩ := reserve_eq_ok h
  simp [drop, belongsTo, RecoveryMemoryBudget.release]

namespace KnownSources

theorem mem_ids {known : KnownSources} {id : UInt32} :
    id ∈ known.ids ↔ ∃ source ∈ known.queue, source.symbolId = id := by
  rw [known.indexed, List.mem_toFinset, List.mem_map]

theorem sublist_evict (maxSymbols turns : ℕ) (known : KnownSources) :
    (known.evict maxSymbols turns).queue.Sublist known.queue := by
  induction turns generalizing known with
  | zero => exact List.Sublist.refl _
  | succ turns ih =>
    unfold evict
    split_ifs
    · cases hpop : known.popFront with
      | none => exact List.Sublist.refl _
      | some popped =>
        obtain ⟨oldest, rest⟩ := popped
        dsimp only
        rw [(popFront_eq_some hpop).1]
        exact (ih rest).cons _
    · exact List.Sublist.refl _

theorem evict_of_le {maxSymbols : ℕ} {known : KnownSources} (h : known.queue.length ≤ maxSymbols) (turns : ℕ) :
    known.evict maxSymbols turns = known := by
  cases turns with
  | zero => rfl
  | succ turns => exact if_neg (not_lt.mpr h)

end KnownSources

namespace Decoder

/-- The decoder after a source has entered its window: the oldest sources may be gone, but only if it was full. -/
structure Inserted (d next : Decoder) (id : UInt32) (bytes : List UInt8) : Prop where
  maxSymbols : next.maxSymbols = d.maxSymbols
  maxRows : next.maxRows = d.maxRows
  maxSymbolBytes : next.maxSymbolBytes = d.maxSymbolBytes
  sources : ∀ source ∈ next.known.queue, source ∈ d.known.queue ∨ (source.symbolId = id ∧ source.bytes = bytes)
  room : d.known.queue.length < d.maxSymbols → next.known.ids = insert id d.known.ids
  entered : ∃ retainedBytes,
    next.known.window = d.known.window.insertKnown d.maxSymbols ⟨id, bytes, retainedBytes⟩ ∨
      ∃ storage, d.known.window.tryReuseOldestSource d.maxSymbols storage id bytes = (true, next.known.window)

theorem insertKnown_inserted (d : Decoder) (rows : List Row) (rowBytes : ℕ) (budget : RecoveryMemoryBudget)
    (source : KnownSource) (fresh : source.symbolId ∉ d.known.ids) (released : ℕ) :
    d.Inserted ({ d with rows := rows, rowBytes := rowBytes }.insertKnown budget source fresh released).1
      source.symbolId source.bytes where
  maxSymbols := rfl
  maxRows := rfl
  maxSymbolBytes := rfl
  sources := by
    intro other hother
    have hmem := (KnownSources.sublist_evict _ _ _).subset hother
    rcases List.mem_append.mp hmem with hold | hnew
    · exact Or.inl hold
    · rw [List.mem_singleton.mp hnew]
      exact Or.inr ⟨rfl, rfl⟩
  room := by
    intro hroom
    have hlength : (d.known.pushBack source fresh).queue.length ≤ d.maxSymbols := by
      simpa [KnownSources.pushBack] using Nat.succ_le_of_lt hroom
    rw [insertKnown, KnownSources.evict_of_le hlength]
    rfl
  entered := ⟨source.retainedBytes, Or.inl
    (window_insertKnown { d with rows := rows, rowBytes := rowBytes } budget source fresh released)⟩

variable {after budget : RecoveryMemoryBudget} {d : Decoder} {id : UInt32} {next : Decoder} {source : List UInt8}
    {storage : Storage}

theorem reused_inserted {fresh : id ∉ d.known.ids}
    (h : d.tryReuseOldestSource budget storage id source fresh = (true, next, after)) :
    d.Inserted next id source := by
  have hwindow := d.window_tryReuseOldestSource budget storage id source fresh
  rw [h] at hwindow
  rcases d.tryReuseOldestSource_cases budget storage id source fresh with heq | ⟨oldest, rest, hpop, hfull, heq⟩
  · rw [heq] at h
    cases h
  · rw [heq] at h
    obtain ⟨rfl, rfl⟩ := Prod.mk.inj (Prod.mk.inj h).2
    refine ⟨rfl, rfl, rfl, ?_, fun hroom => absurd hroom (not_lt.mpr hfull), 0, Or.inr ⟨storage, hwindow⟩⟩
    intro other hother
    rcases List.mem_append.mp hother with hold | hnew
    · rw [(KnownSources.popFront_eq_some hpop).1]
      exact Or.inl (List.mem_cons_of_mem _ hold)
    · rw [List.mem_singleton.mp hnew]
      exact Or.inr ⟨rfl, rfl⟩

/-- A call that was not refused gives back the items; an `expect` of it may still fail. -/
def Returned (items : List RecoveredSource) (outcome : Outcome FecError RecoveredBatch) : Prop :=
  outcome = .panicked ∨ ∃ batch, outcome = .ok batch ∧ batch.items = items

theorem finishEmpty_spec (d : Decoder) (budget : RecoveryMemoryBudget) :
    Returned [] (d.finishEmpty budget).1 ∧ (d.finishEmpty budget).2.1 = d := by
  unfold finishEmpty
  cases RecoveryCharge.reserve budget 0 with
  | error error => exact ⟨Or.inl rfl, rfl⟩
  | ok reserved => exact ⟨Or.inr ⟨_, rfl, rfl⟩, rfl⟩

/-- The rows that `add_source` computes from the pending ones, and what it recovers. -/
def sourceRows (d : Decoder) (symbolId : UInt32) (source : List UInt8) (workBudget : ℕ) :
    Except FecError (List Row × List RecoveredSource) :=
  match matrixCloneWork d.rows with
  | none => .error .workBudget
  | some work => if work > workBudget then .error .workBudget else d.solveSource symbolId source work workBudget

/-- The ways in which `add_source` ends. -/
inductive SourceResult (d : Decoder) (budget : RecoveryMemoryBudget) (id : UInt32) (source : List UInt8)
    (workBudget : ℕ) : Outcome FecError RecoveredBatch → Decoder → RecoveryMemoryBudget → Prop
  | invalid (hsize : source = [] ∨ source.length > d.maxSymbolBytes) :
      SourceResult d budget id source workBudget (.err .invalidSymbolSize) d budget
  | contradictory {existing : KnownSource} (hfind : d.known.find id = some existing)
      (hne : existing.bytes ≠ source) :
      SourceResult d budget id source workBudget (.err .contradictoryRepair) d budget
  | memory : SourceResult d budget id source workBudget (.err .memoryCapacity) d budget
  | failed {error : FecError} (fresh : id ∉ d.known.ids) (hrows : d.rows ≠ [])
      (hfailed : d.sourceRows id source workBudget = .error error) :
      SourceResult d budget id source workBudget (.err error) d budget
  | duplicate {outcome : Outcome FecError RecoveredBatch} {after : RecoveryMemoryBudget} (hknown : id ∈ d.known.ids)
      (hreturned : Returned [] outcome) : SourceResult d budget id source workBudget outcome d after
  | alone {outcome : Outcome FecError RecoveredBatch} {next : Decoder} {after : RecoveryMemoryBudget}
      (fresh : id ∉ d.known.ids) (hrows : d.rows = []) (hnext : next.rows = [])
      (hinserted : d.Inserted next id source) (hreturned : Returned [] outcome) :
      SourceResult d budget id source workBudget outcome next after
  | solved {items : List RecoveredSource} {outcome : Outcome FecError RecoveredBatch} {next : Decoder}
      {after : RecoveryMemoryBudget} (fresh : id ∉ d.known.ids) (hrows : d.rows ≠ [])
      (hsolved : d.sourceRows id source workBudget = .ok (next.rows, items))
      (hinserted : d.Inserted next id source) (hreturned : Returned items outcome) :
      SourceResult d budget id source workBudget outcome next after

theorem new_cases (items : List RecoveredSource) (scratch : RecoveryCharge) (committedBytes : ℕ)
    (budget : RecoveryMemoryBudget) :
    RecoveredBatch.new items scratch committedBytes budget = (.err .memoryCapacity, scratch.drop budget) ∨
      ∃ batch after grown, RecoveredBatch.new items scratch committedBytes budget = (.ok batch, after) ∧
        batch.items = items ∧ scratch.grow budget (batch.retainedBytes + committedBytes) = .ok (grown, after) ∧
        batch.scratch = ⟨scratch.budget, grown.bytes - committedBytes⟩ ∧
        batch.retainedBytes + committedBytes ≤ grown.bytes := by
  unfold RecoveredBatch.new
  dsimp only
  split
  · exact Or.inl rfl
  · next retained required hsizes =>
    have hrequired : retained + committedBytes = required := by
      simp only [Option.bind_eq_bind, Option.bind_eq_some_iff] at hsizes
      obtain ⟨_, _, _, _, _, hadd, hpure⟩ := hsizes
      obtain ⟨rfl, rfl⟩ := Prod.mk.inj (Option.some.inj hpure)
      exact (checkedAdd_eq_some hadd).symm
    subst hrequired
    cases hgrow : scratch.grow budget (retained + committedBytes) with
    | error error => exact Or.inl rfl
    | ok grown =>
      obtain ⟨grown, after⟩ := grown
      obtain ⟨hgrown, _⟩ := RecoveryCharge.grow_eq_ok hgrow
      have hlarge : retained + committedBytes ≤ grown.bytes := by
        rw [hgrown]
        exact le_max_right _ _
      dsimp only
      rw [RecoveryCharge.transfer_of_le (by omega)]
      refine Or.inr ⟨_, _, grown, rfl, rfl, hgrow, ?_, hlarge⟩
      rw [hgrown]

theorem shrinkAfterStateTransition_eq {batch : RecoveredBatch} {own grown committedBytes : ℕ}
    (hscratch : batch.scratch = ⟨own, grown - committedBytes⟩) (hlarge : batch.retainedBytes + committedBytes ≤ grown)
    (budget : RecoveryMemoryBudget) : batch.shrinkAfterStateTransition budget =
      some (⟨batch.items, batch.retainedBytes, ⟨own, batch.retainedBytes⟩⟩,
        budget.release (grown - committedBytes - batch.retainedBytes)) := by
  have hle : batch.retainedBytes ≤ batch.scratch.bytes := by
    rw [hscratch]
    dsimp only
    omega
  rw [RecoveredBatch.shrinkAfterStateTransition, RecoveryCharge.shrink_of_le hle, hscratch]
  rfl

theorem addSourceAlone_result (d : Decoder) (budget : RecoveryMemoryBudget) (storage : Storage) (id : UInt32)
    (source : List UInt8) (fresh : id ∉ d.known.ids) (hrows : d.rows = []) (workBudget : ℕ) :
    SourceResult d budget id source workBudget (d.addSourceAlone budget storage id source fresh).1
      (d.addSourceAlone budget storage id source fresh).2.1
      (d.addSourceAlone budget storage id source fresh).2.2 := by
  unfold addSourceAlone
  cases hreserve : RecoveryCharge.reserve budget source.length with
  | error error => exact .memory
  | ok reserved =>
    obtain ⟨scratch, after⟩ := reserved
    dsimp only
    cases hgrow : scratch.grow after
        (d.knownMemoryDelta (normalizeSourceStorage storage id source).retainedBytes).1 with
    | error error =>
      dsimp only
      rw [RecoveryCharge.drop_of_reserve hreserve]
      exact .memory
    | ok grown =>
      obtain ⟨grown, after'⟩ := grown
      obtain ⟨hgrown, _⟩ := RecoveryCharge.grow_eq_ok hgrow
      have hlarge : (d.knownMemoryDelta (normalizeSourceStorage storage id source).retainedBytes).1 ≤
          grown.bytes := by
        rw [hgrown]
        exact le_max_right _ _
      dsimp only
      rw [RecoveryCharge.transfer_of_le hlarge]
      dsimp only
      obtain ⟨hreturned, hnext⟩ := finishEmpty_spec
        (d.insertKnown after' (normalizeSourceStorage storage id source) fresh
          (d.knownMemoryDelta (normalizeSourceStorage storage id source).retainedBytes).2).1
        (d.insertKnown after' (normalizeSourceStorage storage id source) fresh
          (d.knownMemoryDelta (normalizeSourceStorage storage id source).retainedBytes).2).2
      rw [hnext]
      exact .alone fresh hrows hrows
        (insertKnown_inserted d d.rows d.rowBytes _ (normalizeSourceStorage storage id source) fresh _) hreturned

theorem addSourceToRows_result (d : Decoder) (budget : RecoveryMemoryBudget) (storage : Storage) (id : UInt32)
    (source : List UInt8) (fresh : id ∉ d.known.ids) (hrows : d.rows ≠ []) (workBudget : ℕ) :
    SourceResult d budget id source workBudget (d.addSourceToRows budget storage id source fresh workBudget).1
      (d.addSourceToRows budget storage id source fresh workBudget).2.1
      (d.addSourceToRows budget storage id source fresh workBudget).2.2 := by
  unfold addSourceToRows
  cases hclone : matrixCloneWork d.rows with
  | none => exact .failed fresh hrows (by rw [sourceRows, hclone])
  | some work =>
    dsimp only
    by_cases hwork : work > workBudget
    · rw [if_pos hwork]
      exact .failed fresh hrows (by simp only [sourceRows, hclone, if_pos hwork])
    · have hattempt : d.sourceRows id source workBudget = d.solveSource id source work workBudget := by
        simp only [sourceRows, hclone, if_neg hwork]
      rw [if_neg hwork]
      split
      · next scratchBytes coefficientCapacity _ _ =>
        cases hreserve : RecoveryCharge.reserve budget scratchBytes with
        | error error => exact .memory
        | ok reserved =>
          obtain ⟨scratch, after⟩ := reserved
          have hdrop := RecoveryCharge.drop_of_reserve hreserve
          cases hsolve : d.solveSource id source work workBudget with
          | error error =>
            dsimp only
            rw [hdrop]
            exact .failed fresh hrows (hattempt.trans hsolve)
          | ok solved =>
            obtain ⟨rows, recovered⟩ := solved
            dsimp only
            split
            · rw [hdrop]
              exact .memory
            · next nextRowBytes _ =>
              split
              · rw [hdrop]
                exact .memory
              · next reservation _ =>
                rcases new_cases recovered scratch reservation after with hnew | ⟨batch, _, grown, hnew, hitems, _,
                  hscratch, hlarge⟩
                · rw [hnew, hdrop]
                  exact .memory
                · simp only [hnew, shrinkAfterStateTransition_eq hscratch hlarge]
                  refine .solved fresh hrows (hattempt.trans hsolve) ?_ (Or.inr ⟨_, rfl, hitems⟩)
                  exact insertKnown_inserted d rows nextRowBytes _ (normalizeSourceStorage storage id source) fresh _
      · exact .memory

theorem sourceStatus_ne_panicked (d : Decoder) (id : UInt32) (source : List UInt8) :
    d.sourceStatus id source ≠ .panicked := by
  unfold sourceStatus
  by_cases hmem : id ∈ d.known.ids
  · cases hfind : d.known.find id with
    | none => exact absurd hmem (not_mem_of_find hfind)
    | some existing =>
      rw [if_pos hmem]
      dsimp only
      split_ifs <;> simp
  · simp [if_neg hmem]

variable {error : FecError}

theorem sourceStatus_eq_err
    (h : d.sourceStatus id source = .err error) : ∃ existing, d.known.find id = some existing ∧
      existing.bytes ≠ source ∧ error = .contradictoryRepair := by
  unfold sourceStatus at h
  split_ifs at h
  split at h
  · cases h
  · next existing hfind =>
    split_ifs at h with hbytes
    exact ⟨existing, hfind, hbytes, (Outcome.err.inj h).symm⟩

theorem mem_of_sourceStatus (h : d.sourceStatus id source = .ok .duplicate) : id ∈ d.known.ids := by
  by_contra hnot
  rw [sourceStatus, if_neg hnot] at h
  cases h

theorem addSource_result (d : Decoder) (budget : RecoveryMemoryBudget) (storage : Storage) (id : UInt32)
    (source : List UInt8) (workBudget : ℕ) :
    SourceResult d budget id source workBudget (d.addSource budget storage id source workBudget).1
      (d.addSource budget storage id source workBudget).2.1 (d.addSource budget storage id source workBudget).2.2 := by
  unfold addSource
  by_cases hsize : source = [] ∨ source.length > d.maxSymbolBytes
  · rw [if_pos hsize]
    exact .invalid hsize
  · rw [if_neg hsize]
    split
    · next error hstatus =>
      obtain ⟨existing, hfind, hne, rfl⟩ := sourceStatus_eq_err hstatus
      exact .contradictory hfind hne
    · next hstatus => exact absurd hstatus (d.sourceStatus_ne_panicked id source)
    · next hstatus =>
      obtain ⟨hreturned, hnext⟩ := d.finishEmpty_spec budget
      rw [hnext]
      exact .duplicate (mem_of_sourceStatus hstatus) hreturned
    · next hstatus =>
      have fresh := not_mem_of_sourceStatus hstatus
      dsimp only
      by_cases hrows : d.rows = []
      · rw [if_pos hrows]
        by_cases hunique : storage.isUnique
        · rw [if_pos hunique]
          exact d.addSourceAlone_result budget storage id source fresh hrows workBudget
        · rw [if_neg hunique]
          rcases d.tryReuseOldestSource_cases budget storage id source fresh with heq | ⟨_, _, _, _, heq⟩
          · simp only [heq, Bool.false_eq_true, dite_false]
            exact d.addSourceAlone_result budget storage id source fresh hrows workBudget
          · simp only [heq, dite_true]
            obtain ⟨hreturned, hnext⟩ := finishEmpty_spec _ _
            rw [hnext]
            exact .alone fresh hrows hrows (reused_inserted heq) hreturned
      · rw [if_neg hrows]
        exact d.addSourceToRows_result budget storage id source fresh hrows workBudget

/-- The rows that `add_repair` computes with its new row, and what it recovers. -/
def repairRows (d : Decoder) (firstSymbolId : UInt32) (span : ℕ) (repairId seed : UInt32) (coded : List UInt8)
    (workBudget : ℕ) : Except FecError (List Row × List RecoveredSource) :=
  match d.repairBaseWork span coded with
  | none => .error .workBudget
  | some work =>
    if work > workBudget then .error .workBudget
    else
      match d.repairRow firstSymbolId span repairId seed coded work workBudget with
      | .error error => .error error
      | .ok (row, work) =>
        if row.coefficients = [] then if row.data.all (· = 0) then .ok (d.rows, []) else .error .contradictoryRepair
        else d.solve (d.rows ++ [row]) (workBudget - work)

/-- The ways in which `add_repair` ends. -/
inductive RepairResult (d : Decoder) (budget : RecoveryMemoryBudget) (firstSymbolId : UInt32) (span : ℕ)
    (repairId seed : UInt32) (coded : List UInt8) (workBudget : ℕ) :
    Outcome FecError RecoveredBatch → Decoder → RecoveryMemoryBudget → Prop
  | invalidSpan (hspan : span = 0 ∨ span > maxRepairSpan) :
      RepairResult d budget firstSymbolId span repairId seed coded workBudget (.err .invalidSpan) d budget
  | invalid (hsize : coded = [] ∨ coded.length > d.maxSymbolBytes) :
      RepairResult d budget firstSymbolId span repairId seed coded workBudget (.err .invalidSymbolSize) d budget
  | rowCapacity (hfull : d.rows.length = d.maxRows) :
      RepairResult d budget firstSymbolId span repairId seed coded workBudget (.err .rowCapacity) d budget
  | memory : RepairResult d budget firstSymbolId span repairId seed coded workBudget (.err .memoryCapacity) d budget
  | failed {error : FecError}
      (hfailed : d.repairRows firstSymbolId span repairId seed coded workBudget = .error error) :
      RepairResult d budget firstSymbolId span repairId seed coded workBudget (.err error) d budget
  | solved {items : List RecoveredSource} {outcome : Outcome FecError RecoveredBatch} {rows : List Row}
      {rowBytes : ℕ} {after : RecoveryMemoryBudget} (hspan : span ≤ maxRepairSpan) (hroom : d.rows.length ≠ d.maxRows)
      (hsolved : d.repairRows firstSymbolId span repairId seed coded workBudget = .ok (rows, items))
      (hreturned : Returned items outcome) :
      RepairResult d budget firstSymbolId span repairId seed coded workBudget outcome
        { d with rows := rows, rowBytes := rowBytes } after

variable {coded : List UInt8} {repairId seed : UInt32} {span workBudget : ℕ}

theorem addRepairRow_result {scratch : RecoveryCharge}
    {firstSymbolId : UInt32} {row : Row} {work : ℕ}
    (hdrop : scratch.drop after = budget) (hspan : span ≤ maxRepairSpan) (hroom : d.rows.length ≠ d.maxRows)
    (hrows : d.repairRows firstSymbolId span repairId seed coded workBudget =
      d.solve (d.rows ++ [row]) (workBudget - work)) (coefficientCapacity : ℕ) :
    RepairResult d budget firstSymbolId span repairId seed coded workBudget
      (d.addRepairRow after scratch coefficientCapacity row work workBudget).1
      (d.addRepairRow after scratch coefficientCapacity row work workBudget).2.1
      (d.addRepairRow after scratch coefficientCapacity row work workBudget).2.2 := by
  unfold addRepairRow
  cases hsolve : d.solve (d.rows ++ [row]) (workBudget - work) with
  | error error =>
    dsimp only
    rw [hdrop]
    exact .failed (hrows.trans hsolve)
  | ok solved =>
    obtain ⟨rows, recovered⟩ := solved
    dsimp only
    split
    · rw [hdrop]
      exact .memory
    · next nextRowBytes _ =>
      rcases new_cases recovered scratch (nextRowBytes - d.rowBytes) after with hnew | ⟨batch, _, grown, hnew,
        hitems, _, hscratch, hlarge⟩
      · rw [hnew, hdrop]
        exact .memory
      · simp only [hnew, shrinkAfterStateTransition_eq hscratch hlarge]
        exact .solved hspan hroom (hrows.trans hsolve) (Or.inr ⟨_, rfl, hitems⟩)

theorem addRepair_result (d : Decoder) (budget : RecoveryMemoryBudget) (firstSymbolId : UInt32) (span : ℕ)
    (repairId seed : UInt32) (coded : List UInt8) (workBudget : ℕ) :
    RepairResult d budget firstSymbolId span repairId seed coded workBudget
      (d.addRepair budget firstSymbolId span repairId seed coded workBudget).1
      (d.addRepair budget firstSymbolId span repairId seed coded workBudget).2.1
      (d.addRepair budget firstSymbolId span repairId seed coded workBudget).2.2 := by
  unfold addRepair
  by_cases hspan : span = 0 ∨ span > maxRepairSpan
  · rw [if_pos hspan]
    exact .invalidSpan hspan
  by_cases hsize : coded = [] ∨ coded.length > d.maxSymbolBytes
  · rw [if_neg hspan, if_pos hsize]
    exact .invalid hsize
  by_cases hroom : d.rows.length = d.maxRows
  · rw [if_neg hspan, if_neg hsize, if_pos hroom]
    exact .rowCapacity hroom
  have hsmall : span ≤ maxRepairSpan := not_lt.mp fun hwide => hspan (Or.inr hwide)
  rw [if_neg hspan, if_neg hsize, if_neg hroom]
  cases hbase : d.repairBaseWork span coded with
  | none => exact .failed (by rw [repairRows, hbase])
  | some work =>
    dsimp only
    by_cases hwork : work > workBudget
    · rw [if_pos hwork]
      exact .failed (by simp only [repairRows, hbase, if_pos hwork])
    rw [if_neg hwork]
    split
    · next scratchBytes coefficientCapacity _ _ =>
      cases hreserve : RecoveryCharge.reserve budget scratchBytes with
      | error error => exact .memory
      | ok reserved =>
        obtain ⟨scratch, after⟩ := reserved
        have hdrop := RecoveryCharge.drop_of_reserve hreserve
        dsimp only
        cases hrow : d.repairRow firstSymbolId span repairId seed coded work workBudget with
        | error error =>
          dsimp only
          rw [hdrop]
          exact .failed (by simp only [repairRows, hbase, if_neg hwork, hrow])
        | ok repaired =>
          obtain ⟨row, spent⟩ := repaired
          dsimp only
          by_cases hterms : row.coefficients = []
          · rw [if_pos hterms]
            by_cases hzero : row.data.all (· = 0)
            · rw [if_pos hzero]
              obtain ⟨hreturned, hnext⟩ := d.finishEmpty_spec after
              dsimp only
              rw [hnext]
              exact .solved hsmall hroom (by simp only [repairRows, hbase, if_neg hwork, hrow, if_pos hterms, if_pos hzero])
                hreturned
            · rw [if_neg hzero, hdrop]
              exact .failed (by simp only [repairRows, hbase, if_neg hwork, hrow, if_pos hterms, if_neg hzero])
          · rw [if_neg hterms]
            exact addRepairRow_result hdrop hsmall hroom
              (by simp only [repairRows, hbase, if_neg hwork, hrow, if_neg hterms]) coefficientCapacity
    · exact .memory

/-- The ways in which `commit_recovered_precharged` ends. -/
inductive CommitResult (d : Decoder) (budget : RecoveryMemoryBudget) (id : UInt32) (source : List UInt8)
    (charge : RecoveryCharge) : Outcome FecError Unit → Decoder → RecoveryMemoryBudget → Prop
  | invalid (hsize : source = [] ∨ source.length > d.maxSymbolBytes) :
      CommitResult d budget id source charge (.err .invalidSymbolSize) d (charge.drop budget)
  | memory : CommitResult d budget id source charge (.err .memoryCapacity) d (charge.drop budget)
  | contradictory {existing : KnownSource} (hfind : d.known.find id = some existing)
      (hne : existing.bytes ≠ source) :
      CommitResult d budget id source charge (.err .contradictoryRepair) d (charge.drop budget)
  | duplicate (hknown : id ∈ d.known.ids) : CommitResult d budget id source charge (.ok ()) d (charge.drop budget)
  | inserted {next : Decoder} {after : RecoveryMemoryBudget} (fresh : id ∉ d.known.ids) (hrows : next.rows = d.rows)
      (hinserted : d.Inserted next id source) : CommitResult d budget id source charge (.ok ()) next after

theorem commitRecoveredPrecharged_result (d : Decoder) (budget : RecoveryMemoryBudget) (storage : Storage)
    (id : UInt32) (source : List UInt8) (charge : RecoveryCharge) :
    CommitResult d budget id source charge (d.commitRecoveredPrecharged budget storage id source charge).1
      (d.commitRecoveredPrecharged budget storage id source charge).2.1
      (d.commitRecoveredPrecharged budget storage id source charge).2.2 := by
  unfold commitRecoveredPrecharged
  by_cases hsize : source = [] ∨ source.length > d.maxSymbolBytes
  · rw [if_pos hsize]
    exact .invalid hsize
  rw [if_neg hsize]
  by_cases hcharge : !charge.belongsTo d.memoryBudget ∨ charge.bytes < source.length
  · rw [if_pos hcharge]
    exact .memory
  rw [if_neg hcharge]
  split
  · next existing hfind =>
    by_cases hbytes : existing.bytes = source
    · rw [if_pos hbytes]
      obtain ⟨hmem, hid⟩ := KnownSources.find_eq_some hfind
      exact .duplicate (KnownSources.mem_ids.mpr ⟨existing, hmem, hid⟩)
    · rw [if_neg hbytes]
      exact .contradictory hfind hbytes
  · next hfind =>
    dsimp only
    cases hgrow : charge.grow budget (normalizeSourceStorage storage id source).retainedBytes with
    | error error => exact .memory
    | ok grown =>
      obtain ⟨grown, after⟩ := grown
      obtain ⟨hgrown, _⟩ := RecoveryCharge.grow_eq_ok hgrow
      have hlarge : (normalizeSourceStorage storage id source).retainedBytes ≤ grown.bytes := by
        rw [hgrown]
        exact le_max_right _ _
      dsimp only
      rw [RecoveryCharge.transfer_of_le hlarge]
      exact .inserted (not_mem_of_find hfind) rfl
        (insertKnown_inserted d d.rows d.rowBytes after (normalizeSourceStorage storage id source)
          (not_mem_of_find hfind) d.evictedKnownBytes)

theorem sourceResult_of_eq {outcome : Outcome FecError RecoveredBatch}
    (h : d.addSource budget storage id source workBudget = (outcome, next, after)) :
    SourceResult d budget id source workBudget outcome next after := by
  have hresult := d.addSource_result budget storage id source workBudget
  rwa [h] at hresult

theorem repairResult_of_eq {first : UInt32}
    {outcome : Outcome FecError RecoveredBatch}
    (h : d.addRepair budget first span repairId seed coded workBudget = (outcome, next, after)) :
    RepairResult d budget first span repairId seed coded workBudget outcome next after := by
  have hresult := d.addRepair_result budget first span repairId seed coded workBudget
  rwa [h] at hresult

theorem commitResult_of_eq {charge : RecoveryCharge} {outcome : Outcome FecError Unit}
    (h : d.commitRecoveredPrecharged budget storage id source charge = (outcome, next, after)) :
    CommitResult d budget id source charge outcome next after := by
  have hresult := d.commitRecoveredPrecharged_result budget storage id source charge
  rwa [h] at hresult

theorem SourceResult.unchanged
    (h : SourceResult d budget id source workBudget (.err error) next after) : next = d ∧ after = budget := by
  have hnot : ∀ items, ¬Returned items (.err error) := by
    rintro items (heq | ⟨_, heq, _⟩) <;> cases heq
  cases h with
  | duplicate _ hreturned => exact absurd hreturned (hnot _)
  | alone _ _ _ _ hreturned => exact absurd hreturned (hnot _)
  | solved _ _ _ _ hreturned => exact absurd hreturned (hnot _)
  | _ => exact ⟨rfl, rfl⟩

theorem RepairResult.unchanged {first : UInt32}
    (h : RepairResult d budget first span repairId seed coded workBudget (.err error) next after) :
    next = d ∧ after = budget := by
  cases h with
  | solved _ _ _ hreturned => rcases hreturned with heq | ⟨_, heq, _⟩ <;> cases heq
  | _ => exact ⟨rfl, rfl⟩

theorem CommitResult.unchanged {charge : RecoveryCharge}
    (h : CommitResult d budget id source charge (.err error) next after) :
    next = d ∧ after = charge.drop budget := by
  cases h <;> exact ⟨rfl, rfl⟩

/-- A call that the decoder refuses leaves its sources, their order, its index, its rows and the count of the
shared budget as they were, and the commit gives back the bytes of the charge it was given. -/
theorem refused_unchanged (d : Decoder) (budget : RecoveryMemoryBudget) (error : FecError) :
    (∀ storage id source workBudget, (d.addSource budget storage id source workBudget).1 = .err error →
      (d.addSource budget storage id source workBudget).2 = (d, budget)) ∧
    (∀ firstSymbolId span repairId seed coded workBudget,
      (d.addRepair budget firstSymbolId span repairId seed coded workBudget).1 = .err error →
      (d.addRepair budget firstSymbolId span repairId seed coded workBudget).2 = (d, budget)) ∧
    ∀ storage id source (charge : RecoveryCharge), charge.heldOf budget.identity ≤ budget.used →
      (d.commitRecoveredPrecharged budget storage id source charge).1 = .err error →
      (d.commitRecoveredPrecharged budget storage id source charge).2.1 = d ∧
        (d.commitRecoveredPrecharged budget storage id source charge).2.2.used =
          budget.used - charge.heldOf budget.identity := by
  refine ⟨?_, ?_, ?_⟩
  · intro storage id source workBudget herror
    have hresult := d.addSource_result budget storage id source workBudget
    rw [herror] at hresult
    exact Prod.ext hresult.unchanged.1 hresult.unchanged.2
  · intro firstSymbolId span repairId seed coded workBudget herror
    have hresult := d.addRepair_result budget firstSymbolId span repairId seed coded workBudget
    rw [herror] at hresult
    exact Prod.ext hresult.unchanged.1 hresult.unchanged.2
  · intro storage id source charge hheld herror
    have hresult := d.commitRecoveredPrecharged_result budget storage id source charge
    rw [herror] at hresult
    refine ⟨hresult.unchanged.1, ?_⟩
    rw [hresult.unchanged.2, RecoveryCharge.drop_eq hheld]

theorem refused_unchanged_memory :
    let row : Row := ⟨[(0, ⟨3⟩), (1, ⟨5⟩)], [⟨7⟩, ⟨1⟩]⟩
    let d : Decoder := { withBudget 512 512 1200 0 with rows := [row], rowBytes := 66 }
    let budget : RecoveryMemoryBudget := ⟨0, 70, 70, by decide, false⟩
    let storage : Storage := ⟨false, false, 0, false, 0⟩
    (d.addSource budget storage 0 [1, 2] 100).2 = (d, budget) ∧
      (d.addRepair budget 1 2 9 4 [1, 2] 100).2 = (d, budget) ∧
      (d.commitRecoveredPrecharged budget storage 0 [1, 2] ⟨0, 1⟩).2.1 = d ∧
      (d.commitRecoveredPrecharged budget storage 0 [1, 2] ⟨0, 1⟩).2.2.used = 69 := by
  intro row d budget storage
  obtain ⟨hsource, hrepair, hcommit⟩ := refused_unchanged d budget .memoryCapacity
  exact ⟨hsource storage 0 [1, 2] 100 (by decide), hrepair 1 2 9 4 [1, 2] 100 (by decide),
    hcommit storage 0 [1, 2] ⟨0, 1⟩ (by decide) (by decide)⟩

end Decoder

end Quicp
