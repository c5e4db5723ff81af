import Quicp.Fec.Metered
import Quicp.Recovery.Reassembler
import Quicp.Wire.Repair

/-!
# The repair decoder

The decoder keeps a window of known sources and the pending rows. A source is substituted into the rows, a repair
becomes a row, and both end in an elimination whose solved rows are returned as recovered sources.
-/

namespace Quicp

/-- The largest `u16`. -/
def u16Max : ℕ := 2 ^ 16 - 1

/-- `size_of::<Row>()`: two vectors. -/
def rowSize : ℕ := 48

/-- `size_of::<(u32, u8)>()`. -/
def termSize : ℕ := 8

/-- `size_of::<(u32, Bytes)>()`. -/
def solvedSize : ℕ := 40

/-- `size_of::<RecoveredSource>()`. -/
def recoveredSourceSize : ℕ := 48

structure KnownSource where
  symbolId : UInt32
  bytes : List UInt8
  retainedBytes : ℕ
  deriving DecidableEq, Repr

/-- The known sources of a decoder, oldest first, with the index of their identifiers. -/
@[ext] structure KnownSources where
  queue : List KnownSource
  ids : Finset UInt32
  indexed : ids = (queue.map KnownSource.symbolId).toFinset
  distinct : (queue.map KnownSource.symbolId).Nodup
  deriving DecidableEq

namespace KnownSources

def empty : KnownSources := ⟨[], ∅, rfl, List.nodup_nil⟩

/-- `known_source`. -/
def find (known : KnownSources) (symbolId : UInt32) : Option KnownSource :=
  known.queue.find? (fun source => source.symbolId == symbolId)

variable {known : KnownSources}

theorem find_eq_some {id : UInt32} {source : KnownSource}
    (h : known.find id = some source) : source ∈ known.queue ∧ source.symbolId = id :=
  ⟨List.mem_of_find?_eq_some h, by simpa using List.find?_some h⟩

/-- `push_back` of a source with a new identifier. -/
def pushBack (known : KnownSources) (source : KnownSource) (fresh : source.symbolId ∉ known.ids) :
    KnownSources where
  queue := known.queue ++ [source]
  ids := insert source.symbolId known.ids
  indexed := by
    rw [known.indexed, List.map_append, List.toFinset_append, Finset.union_comm]
    rfl
  distinct := by
    rw [known.indexed, List.mem_toFinset] at fresh
    rw [List.map_append]
    exact List.nodup_append.mpr ⟨known.distinct, List.nodup_singleton _, by
      rintro id hid _ hnew rfl
      exact fresh (List.mem_singleton.mp hnew ▸ hid)⟩

/-- `push_front` of a source with a new identifier. -/
def pushFront (known : KnownSources) (source : KnownSource) (fresh : source.symbolId ∉ known.ids) :
    KnownSources where
  queue := source :: known.queue
  ids := insert source.symbolId known.ids
  indexed := by rw [known.indexed, List.map_cons, List.toFinset_cons]
  distinct := by
    rw [known.indexed, List.mem_toFinset] at fresh
    exact List.nodup_cons.mpr ⟨fresh, known.distinct⟩

/-- `pop_front`, with the identifier of the oldest source removed from the index. -/
def popFront (known : KnownSources) : Option (KnownSource × KnownSources) :=
  match h : known.queue with
  | [] => none
  | oldest :: rest => some (oldest, {
      queue := rest
      ids := known.ids.erase oldest.symbolId
      indexed := by
        have hnot := (List.nodup_cons.mp (List.map_cons ▸ h ▸ known.distinct)).1
        rw [known.indexed, h, List.map_cons, List.toFinset_cons, Finset.erase_insert]
        rwa [List.mem_toFinset]
      distinct := (List.nodup_cons.mp (List.map_cons ▸ h ▸ known.distinct)).2 })

variable {oldest : KnownSource} {rest : KnownSources}

theorem popFront_eq_some (h : known.popFront = some (oldest, rest)) :
    known.queue = oldest :: rest.queue ∧ rest.ids = known.ids.erase oldest.symbolId := by
  unfold popFront at h
  split at h
  · cases h
  · next hqueue =>
    obtain ⟨rfl, rfl⟩ := Prod.mk.inj (Option.some.inj h)
    exact ⟨hqueue, rfl⟩

theorem popFront_eq_none (h : known.popFront = none) : known.queue = [] := by
  unfold popFront at h
  split at h
  · next hnil => exact hnil
  · cases h

theorem not_mem_of_popFront (h : known.popFront = some (oldest, rest)) : oldest.symbolId ∉ rest.ids := by
  rw [(popFront_eq_some h).2]
  exact Finset.notMem_erase _ _

theorem not_mem_of_not_mem
    (h : known.popFront = some (oldest, rest)) {symbolId : UInt32} (hnot : symbolId ∉ known.ids) :
    symbolId ∉ rest.ids := by
  rw [(popFront_eq_some h).2]
  exact fun hmem => hnot (Finset.mem_of_mem_erase hmem)

theorem pushFront_of_popFront
    (h : known.popFront = some (oldest, rest)) : rest.pushFront oldest (not_mem_of_popFront h) = known := by
  obtain ⟨hqueue, hids⟩ := popFront_eq_some h
  have hmem : oldest.symbolId ∈ known.ids := by
    rw [known.indexed, hqueue, List.map_cons, List.mem_toFinset]
    exact List.mem_cons_self
  apply KnownSources.ext
  · exact hqueue.symm
  · change insert oldest.symbolId rest.ids = known.ids
    rw [hids, Finset.insert_erase hmem]

/-- The loop of `insert_known` that drops the oldest sources beyond the window. -/
def evict (maxSymbols : ℕ) : ℕ → KnownSources → KnownSources
  | 0, known => known
  | turns + 1, known =>
    if known.queue.length > maxSymbols then
      match known.popFront with
      | none => known
      | some (_, rest) => evict maxSymbols turns rest
    else known

end KnownSources

inductive SourceStatus
  | new
  | duplicate
  deriving DecidableEq, Repr

structure RecoveredSource where
  symbolId : UInt32
  bytes : List UInt8
  retainedBytes : ℕ
  deriving DecidableEq, Repr

/-- `RecoveredBatch`; its scratch reservation is a charge. -/
structure RecoveredBatch where
  items : List RecoveredSource
  retainedBytes : ℕ
  scratch : RecoveryCharge
  deriving DecidableEq, Repr

/-- What a call finds out about the buffers it handles: whether the given buffer is unique and can be
taken over, with what capacity, and the same for the buffer of the oldest source. -/
structure Storage where
  isUnique : Bool
  intoMut : Bool
  capacity : ℕ
  oldestIntoMut : Bool
  oldestCapacity : ℕ
  deriving DecidableEq, Repr

/-- `Decoder`; `memoryBudget` is the identity of the shared budget. -/
structure Decoder where
  known : KnownSources
  rows : List Row
  maxSymbols : ℕ
  maxRows : ℕ
  maxSymbolBytes : ℕ
  rowBytes : ℕ
  memoryBudget : ℕ
  deriving DecidableEq

/-- The loop of `repair_symbol`. -/
def repairLoop (repairId seed : UInt32) : UInt32 → List (List UInt8) → List Gf256 → List Gf256
  | _, [], output => output
  | id, source :: rest, output =>
    repairLoop repairId seed (id + 1) rest
      (PaddedVector.addScaled ⟨coefficient seed repairId id⟩ output (Gf256.ofBytes source))

def repairSymbol (firstSymbolId repairId seed : UInt32) (sources : List (List UInt8)) :
    Except FecError (List UInt8) :=
  if sources = [] ∨ sources.length > maxRepairSpan then .error .invalidSpan
  else
    let symbolSize := (sources.map List.length).max?.getD 0
    if symbolSize = 0 ∨ symbolSize > u16Max then .error .invalidSymbolSize
    else .ok (Gf256.toBytes (repairLoop repairId seed firstSymbolId sources (List.replicate symbolSize 0)))

def matrixCoefficientCount (rows : List Row) (additional : ℕ) : Option ℕ :=
  rows.foldlM (fun count row => checkedAdd count row.coefficients.length) additional

def matrixCloneWork (rows : List Row) : Option ℕ :=
  rows.foldlM (fun work row => do
    let work ← checkedAdd work row.coefficients.length
    checkedAdd work row.data.length) 0

/-- `row_storage_bytes`, for rows whose vectors have the given capacities. -/
def rowStorageBytes (rowCapacity coefficientCapacity dataCapacity : ℕ) (rows : List Row) : Option ℕ := do
  let bytes ← checkedMul rowCapacity rowSize
  rows.foldlM (fun bytes _ => do
    let bytes ← checkedAdd bytes dataCapacity
    let coefficients ← checkedMul coefficientCapacity termSize
    checkedAdd bytes coefficients) bytes

def normalizeSourceStorage (storage : Storage) (symbolId : UInt32) (source : List UInt8) : KnownSource :=
  ⟨symbolId, source, if storage.intoMut then storage.capacity else source.length⟩

/-- The loop of `canonical_recovered`. -/
def canonicalRecovered (maxSymbolBytes : ℕ) :
    List (UInt32 × List Gf256) → Except FecError (List RecoveredSource)
  | [] => .ok []
  | (symbolId, data) :: rest =>
    match decodeSourcePadded (Gf256.toBytes data) maxSourceRecords maxSymbolBytes with
    | .error _ => .error .contradictoryRepair
    | .ok (decoded, consumed) =>
      if decoded.symbolId ≠ symbolId then .error .contradictoryRepair
      else do
        let later ← canonicalRecovered maxSymbolBytes rest
        return ⟨symbolId, (Gf256.toBytes data).take consumed, vecCapacity consumed⟩ :: later

def validateRecovered (known : KnownSources) (recovered : List RecoveredSource) : Except FecError Unit :=
  if recovered.any (fun source =>
      (known.find source.symbolId).any (fun existing => existing.bytes ≠ source.bytes)) then
    .error .contradictoryRepair
  else .ok ()

/-- The loop of `add_source` that substitutes the source into a row. -/
def substituteRow (symbolId : UInt32) (source : List Gf256) (budget : ℕ) (row : Row) (work : ℕ) :
    Except FecError (Row × ℕ) :=
  match SparseRow.takeTerm symbolId row.coefficients with
  | none => .ok (row, work)
  | some (factor, coefficients) => do
    let (data, work) ← xorScaled row.data source factor work budget
    return (⟨coefficients, data⟩, work)

/-- The loop of `add_source` over the rows. -/
def substituteRows (symbolId : UInt32) (source : List Gf256) (budget : ℕ) :
    List Row → ℕ → Except FecError (List Row × ℕ)
  | [], work => .ok ([], work)
  | row :: rest, work => do
    let (row, work) ← substituteRow symbolId source budget row work
    let (rest, work) ← substituteRows symbolId source budget rest work
    return (row :: rest, work)

/-- The loop of `add_repair` over the span: a row with the terms of the unknown sources, and the coded bytes
without the known ones. -/
def repairTerms (known : KnownSources) (repairId seed : UInt32) (budget : ℕ) :
    ℕ → UInt32 → List Gf256 → ℕ → Except FecError (Row × ℕ)
  | 0, _, data, work => .ok (⟨[], data⟩, work)
  | count + 1, id, data, work =>
    match known.find id with
    | some source => do
      let (data, work) ← xorScaled data (Gf256.ofBytes source.bytes) ⟨coefficient seed repairId id⟩ work budget
      repairTerms known repairId seed budget count (id + 1) data work
    | none => do
      let (row, work) ← repairTerms known repairId seed budget count (id + 1) data work
      return ({ row with coefficients := (id, ⟨coefficient seed repairId id⟩) :: row.coefficients }, work)

namespace RecoveredBatch

/-- `RecoveredBatch::new`; a failure drops the scratch reservation. -/
def new (items : List RecoveredSource) (scratch : RecoveryCharge) (committedBytes : ℕ)
    (budget : RecoveryMemoryBudget) : Outcome FecError RecoveredBatch × RecoveryMemoryBudget :=
  let sizes := do
    let bytes ← checkedMul (vecCapacity items.length) recoveredSourceSize
    let retained ← items.foldlM (fun bytes source => checkedAdd bytes source.retainedBytes) bytes
    let required ← checkedAdd retained committedBytes
    return (retained, required)
  match sizes with
  | none => (.err .memoryCapacity, scratch.drop budget)
  | some (retained, required) =>
    match scratch.grow budget required with
    | .error _ => (.err .memoryCapacity, scratch.drop budget)
    | .ok (scratch, budget) =>
      match scratch.transfer committedBytes with
      | .error _ => (.panicked, budget)
      | .ok scratch => (.ok ⟨items, retained, scratch⟩, budget)

def shrinkAfterStateTransition (batch : RecoveredBatch) (budget : RecoveryMemoryBudget) :
    Option (RecoveredBatch × RecoveryMemoryBudget) :=
  (batch.scratch.shrink budget batch.retainedBytes).map fun shrunk =>
    ({ batch with scratch := shrunk.1 }, shrunk.2)

end RecoveredBatch

namespace Decoder

def withBudget (maxSymbols maxRows maxSymbolBytes memoryBudget : ℕ) : Decoder where
  known := .empty
  rows := []
  maxSymbols := maxSymbols
  maxRows := maxRows
  maxSymbolBytes := maxSymbolBytes
  rowBytes := 0
  memoryBudget := memoryBudget

/-- `source_status`; an index that names no known source panics. -/
def sourceStatus (d : Decoder) (symbolId : UInt32) (source : List UInt8) : Outcome FecError SourceStatus :=
  if symbolId ∈ d.known.ids then
    match d.known.find symbolId with
    | none => .panicked
    | some existing => if existing.bytes = source then .ok .duplicate else .err .contradictoryRepair
  else .ok .new

def evictedKnownBytes (d : Decoder) : ℕ :=
  if d.known.queue.length ≥ d.maxSymbols then (d.known.queue.head?.map KnownSource.retainedBytes).getD 0 else 0

def knownMemoryDelta (d : Decoder) (sourceBytes : ℕ) : ℕ × ℕ :=
  (sourceBytes - d.evictedKnownBytes, d.evictedKnownBytes - sourceBytes)

def scratchMemoryBytes (d : Decoder) (additionalRows additionalCoefficients sourceBytes : ℕ) : Option ℕ := do
  let rows ← checkedAdd d.rows.length additionalRows
  let columns ← matrixCoefficientCount d.rows additionalCoefficients
  let coefficientBytes ← checkedMul columns termSize
  let matrixRowBytes ← checkedAdd rowSize d.maxSymbolBytes >>= (checkedAdd · coefficientBytes)
  let matrixBytes ← checkedMul rows matrixRowBytes
  let symbolBytes ← checkedMul d.maxSymbolBytes 2 >>= (checkedAdd · solvedSize) >>=
    (checkedAdd · recoveredSourceSize)
  let recoveredBytes ← checkedMul rows symbolBytes
  let bytes ← checkedAdd matrixBytes matrixRowBytes
  let bytes ← checkedAdd bytes recoveredBytes
  checkedAdd bytes sourceBytes

/-- `insert_known` of a source with a new identifier. -/
def insertKnown (d : Decoder) (budget : RecoveryMemoryBudget) (source : KnownSource)
    (fresh : source.symbolId ∉ d.known.ids) (released : ℕ) : Decoder × RecoveryMemoryBudget :=
  let known := d.known.pushBack source fresh
  ({ d with known := known.evict d.maxSymbols known.queue.length }, budget.release released)

/-- `try_reuse_oldest_source`: whether the source now lives in the buffer of the oldest one. A buffer that
cannot be reused goes back to the front of the queue. -/
def tryReuseOldestSource (d : Decoder) (budget : RecoveryMemoryBudget) (storage : Storage) (symbolId : UInt32)
    (source : List UInt8) (fresh : symbolId ∉ d.known.ids) : Bool × Decoder × RecoveryMemoryBudget :=
  if d.known.queue.length < d.maxSymbols then (false, d, budget)
  else
    match hpop : d.known.popFront with
    | none => (false, d, budget)
    | some (oldest, rest) =>
      if oldest.retainedBytes < source.length then
        (false, { d with known := rest.pushFront oldest (KnownSources.not_mem_of_popFront hpop) }, budget)
      else if !storage.oldestIntoMut then
        (false, { d with known := rest.pushFront oldest (KnownSources.not_mem_of_popFront hpop) }, budget)
      else
        (true,
          { d with
            known := rest.pushBack ⟨symbolId, source, storage.oldestCapacity⟩
              (KnownSources.not_mem_of_not_mem hpop fresh) },
          budget.release (oldest.retainedBytes - storage.oldestCapacity))

theorem tryReuseOldestSource_cases (d : Decoder) (budget : RecoveryMemoryBudget) (storage : Storage)
    (symbolId : UInt32) (source : List UInt8) (fresh : symbolId ∉ d.known.ids) :
    d.tryReuseOldestSource budget storage symbolId source fresh = (false, d, budget) ∨
      ∃ oldest rest, ∃ hpop : d.known.popFront = some (oldest, rest), d.maxSymbols ≤ d.known.queue.length ∧
        d.tryReuseOldestSource budget storage symbolId source fresh =
          (true,
            { d with
              known := rest.pushBack ⟨symbolId, source, storage.oldestCapacity⟩
                (KnownSources.not_mem_of_not_mem hpop fresh) },
            budget.release (oldest.retainedBytes - storage.oldestCapacity)) := by
  unfold tryReuseOldestSource
  by_cases hroom : d.known.queue.length < d.maxSymbols
  · exact Or.inl (if_pos hroom)
  · rw [if_neg hroom]
    split
    · exact Or.inl rfl
    · next oldest rest hpop =>
      rw [KnownSources.pushFront_of_popFront hpop]
      by_cases hsmall : oldest.retainedBytes < source.length
      · exact Or.inl (if_pos hsmall)
      · rw [if_neg hsmall]
        cases hmutable : storage.oldestIntoMut with
        | false => exact Or.inl rfl
        | true => exact Or.inr ⟨oldest, rest, hpop, not_lt.mp hroom, rfl⟩

variable {d : Decoder} {symbolId : UInt32}

theorem tryReuseOldestSource_eq_false {budget : RecoveryMemoryBudget} {storage : Storage}
    {source : List UInt8} {fresh : symbolId ∉ d.known.ids}
    (h : (d.tryReuseOldestSource budget storage symbolId source fresh).1 = false) :
    (d.tryReuseOldestSource budget storage symbolId source fresh).2 = (d, budget) := by
  rcases d.tryReuseOldestSource_cases budget storage symbolId source fresh with heq | ⟨_, _, _, _, heq⟩
  · rw [heq]
  · rw [heq] at h
    cases h

def finishEmpty (d : Decoder) (budget : RecoveryMemoryBudget) :
    Outcome FecError RecoveredBatch × Decoder × RecoveryMemoryBudget :=
  match RecoveryCharge.reserve budget 0 with
  | .error _ => (.panicked, d, budget)
  | .ok (charge, budget) => (.ok ⟨[], 0, charge⟩, d, budget)

/-- `add_source` while no row is pending. -/
def addSourceAlone (d : Decoder) (budget : RecoveryMemoryBudget) (storage : Storage) (symbolId : UInt32)
    (source : List UInt8) (fresh : symbolId ∉ d.known.ids) :
    Outcome FecError RecoveredBatch × Decoder × RecoveryMemoryBudget :=
  match RecoveryCharge.reserve budget source.length with
  | .error _ => (.err .memoryCapacity, d, budget)
  | .ok (scratch, budget) =>
    let source := normalizeSourceStorage storage symbolId source
    let (reserved, released) := d.knownMemoryDelta source.retainedBytes
    match scratch.grow budget reserved with
    | .error _ => (.err .memoryCapacity, d, scratch.drop budget)
    | .ok (scratch, budget) =>
      match scratch.transfer reserved with
      | .error _ => (.panicked, d, budget)
      | .ok scratch =>
        let (d, budget) := d.insertKnown budget source fresh released
        let (outcome, d, budget) := d.finishEmpty budget
        (outcome, d, scratch.drop budget)

/-- The elimination of `add_source` and `add_repair`: the rows to keep and the recovered sources. -/
def solve (d : Decoder) (rows : List Row) (workBudget : ℕ) : Except FecError (List Row × List RecoveredSource) := do
  let (rows, recovered) ← reduce rows workBudget
  let recovered ← canonicalRecovered d.maxSymbolBytes recovered
  validateRecovered d.known recovered
  return (rows.filter (fun row => decide (row.coefficients.length > 1)), recovered)

/-- The rows of `add_source` and what it recovers. -/
def solveSource (d : Decoder) (symbolId : UInt32) (source : List UInt8) (work workBudget : ℕ) :
    Except FecError (List Row × List RecoveredSource) := do
  let (rows, work) ← substituteRows symbolId (Gf256.ofBytes source) workBudget d.rows work
  d.solve rows (workBudget - work)

/-- `add_source` while rows are pending. -/
def addSourceToRows (d : Decoder) (budget : RecoveryMemoryBudget) (storage : Storage) (symbolId : UInt32)
    (source : List UInt8) (fresh : symbolId ∉ d.known.ids) (workBudget : ℕ) :
    Outcome FecError RecoveredBatch × Decoder × RecoveryMemoryBudget :=
  match matrixCloneWork d.rows with
  | none => (.err .workBudget, d, budget)
  | some work =>
    if work > workBudget then (.err .workBudget, d, budget)
    else
      match d.scratchMemoryBytes 0 0 source.length, matrixCoefficientCount d.rows 0 with
      | some scratchBytes, some coefficientCapacity =>
        match RecoveryCharge.reserve budget scratchBytes with
        | .error _ => (.err .memoryCapacity, d, budget)
        | .ok (scratch, budget) =>
          match d.solveSource symbolId source work workBudget with
          | .error error => (.err error, d, scratch.drop budget)
          | .ok (rows, recovered) =>
            let source := normalizeSourceStorage storage symbolId source
            let (sourceGrowth, sourceRelease) := d.knownMemoryDelta source.retainedBytes
            match rowStorageBytes d.rows.length coefficientCapacity d.maxSymbolBytes rows with
            | none => (.err .memoryCapacity, d, scratch.drop budget)
            | some nextRowBytes =>
              match checkedAdd sourceGrowth (nextRowBytes - d.rowBytes) with
              | none => (.err .memoryCapacity, d, scratch.drop budget)
              | some reservation =>
                match RecoveredBatch.new recovered scratch reservation budget with
                | (.err error, budget) => (.err error, d, budget)
                | (.panicked, budget) => (.panicked, d, budget)
                | (.ok batch, budget) =>
                  let budget := budget.release (d.rowBytes - nextRowBytes)
                  let (d, budget) := { d with rows := rows, rowBytes := nextRowBytes }.insertKnown budget source
                    fresh sourceRelease
                  match batch.shrinkAfterStateTransition budget with
                  | none => (.panicked, d, budget)
                  | some (batch, budget) => (.ok batch, d, budget)
      | _, _ => (.err .memoryCapacity, d, budget)

theorem not_mem_of_sourceStatus {source : List UInt8}
    (h : d.sourceStatus symbolId source = .ok .new) : symbolId ∉ d.known.ids := by
  intro hmem
  rw [sourceStatus, if_pos hmem] at h
  split at h
  · cases h
  · split_ifs at h
    cases h

def addSource (d : Decoder) (budget : RecoveryMemoryBudget) (storage : Storage) (symbolId : UInt32)
    (source : List UInt8) (workBudget : ℕ) :
    Outcome FecError RecoveredBatch × Decoder × RecoveryMemoryBudget :=
  if source = [] ∨ source.length > d.maxSymbolBytes then (.err .invalidSymbolSize, d, budget)
  else
    match hstatus : d.sourceStatus symbolId source with
    | .err error => (.err error, d, budget)
    | .panicked => (.panicked, d, budget)
    | .ok .duplicate => d.finishEmpty budget
    | .ok .new =>
      have fresh := not_mem_of_sourceStatus hstatus
      if d.rows = [] then
        if storage.isUnique then d.addSourceAlone budget storage symbolId source fresh
        else
          let reused := d.tryReuseOldestSource budget storage symbolId source fresh
          if hreused : reused.1 then reused.2.1.finishEmpty reused.2.2
          else
            reused.2.1.addSourceAlone reused.2.2 storage symbolId source
              (by rw [tryReuseOldestSource_eq_false (Bool.eq_false_iff.mpr hreused)]; exact fresh)
      else d.addSourceToRows budget storage symbolId source fresh workBudget

/-- The row of `add_repair`, with its terms sorted, and the work done. -/
def repairRow (d : Decoder) (firstSymbolId : UInt32) (span : ℕ) (repairId seed : UInt32) (coded : List UInt8)
    (work workBudget : ℕ) : Except FecError (Row × ℕ) := do
  let (row, work) ← repairTerms d.known repairId seed workBudget span firstSymbolId (Gf256.ofBytes coded) work
  return ({ row with coefficients := row.coefficients.insertionSort (fun term later => term.1 ≤ later.1) }, work)

/-- `add_repair` from its new row on. -/
def addRepairRow (d : Decoder) (budget : RecoveryMemoryBudget) (scratch : RecoveryCharge)
    (coefficientCapacity : ℕ) (row : Row) (work workBudget : ℕ) :
    Outcome FecError RecoveredBatch × Decoder × RecoveryMemoryBudget :=
  match d.solve (d.rows ++ [row]) (workBudget - work) with
  | .error error => (.err error, d, scratch.drop budget)
  | .ok (rows, recovered) =>
    match rowStorageBytes (d.rows.length + 1) coefficientCapacity d.maxSymbolBytes rows with
    | none => (.err .memoryCapacity, d, scratch.drop budget)
    | some nextRowBytes =>
      match RecoveredBatch.new recovered scratch (nextRowBytes - d.rowBytes) budget with
      | (.err error, budget) => (.err error, d, budget)
      | (.panicked, budget) => (.panicked, d, budget)
      | (.ok batch, budget) =>
        let budget := budget.release (d.rowBytes - nextRowBytes)
        let d := { d with rows := rows, rowBytes := nextRowBytes }
        match batch.shrinkAfterStateTransition budget with
        | none => (.panicked, d, budget)
        | some (batch, budget) => (.ok batch, d, budget)

/-- The work of `add_repair` before its first loop. -/
def repairBaseWork (d : Decoder) (span : ℕ) (coded : List UInt8) : Option ℕ := do
  let work ← matrixCloneWork d.rows
  let work ← checkedAdd work coded.length
  checkedAdd work span

def addRepair (d : Decoder) (budget : RecoveryMemoryBudget) (firstSymbolId : UInt32) (span : ℕ)
    (repairId seed : UInt32) (coded : List UInt8) (workBudget : ℕ) :
    Outcome FecError RecoveredBatch × Decoder × RecoveryMemoryBudget :=
  if span = 0 ∨ span > maxRepairSpan then (.err .invalidSpan, d, budget)
  else if coded = [] ∨ coded.length > d.maxSymbolBytes then (.err .invalidSymbolSize, d, budget)
  else if d.rows.length = d.maxRows then (.err .rowCapacity, d, budget)
  else
    match d.repairBaseWork span coded with
    | none => (.err .workBudget, d, budget)
    | some work =>
      if work > workBudget then (.err .workBudget, d, budget)
      else
        match d.scratchMemoryBytes 1 span 0, matrixCoefficientCount d.rows span with
        | some scratchBytes, some coefficientCapacity =>
          match RecoveryCharge.reserve budget scratchBytes with
          | .error _ => (.err .memoryCapacity, d, budget)
          | .ok (scratch, budget) =>
            match d.repairRow firstSymbolId span repairId seed coded work workBudget with
            | .error error => (.err error, d, scratch.drop budget)
            | .ok (row, work) =>
              if row.coefficients = [] then
                if row.data.all (· = 0) then
                  let (outcome, d, budget) := d.finishEmpty budget
                  (outcome, d, scratch.drop budget)
                else (.err .contradictoryRepair, d, scratch.drop budget)
              else d.addRepairRow budget scratch coefficientCapacity row work workBudget
        | _, _ => (.err .memoryCapacity, d, budget)

theorem not_mem_of_find (h : d.known.find symbolId = none) :
    symbolId ∉ d.known.ids := by
  rw [d.known.indexed, List.mem_toFinset]
  intro hmem
  obtain ⟨source, hsource, rfl⟩ := List.mem_map.mp hmem
  simpa using List.find?_eq_none.mp h source hsource

/-- `commit_recovered_precharged`; the charge is dropped with what is left of it. -/
def commitRecoveredPrecharged (d : Decoder) (budget : RecoveryMemoryBudget) (storage : Storage)
    (symbolId : UInt32) (source : List UInt8) (charge : RecoveryCharge) :
    Outcome FecError Unit × Decoder × RecoveryMemoryBudget :=
  if source = [] ∨ source.length > d.maxSymbolBytes then (.err .invalidSymbolSize, d, charge.drop budget)
  else if !charge.belongsTo d.memoryBudget ∨ charge.bytes < source.length then
    (.err .memoryCapacity, d, charge.drop budget)
  else
    match hfind : d.known.find symbolId with
    | some existing =>
      if existing.bytes = source then (.ok (), d, charge.drop budget)
      else (.err .contradictoryRepair, d, charge.drop budget)
    | none =>
      let source := normalizeSourceStorage storage symbolId source
      match charge.grow budget source.retainedBytes with
      | .error _ => (.err .memoryCapacity, d, charge.drop budget)
      | .ok (charge, budget) =>
        match charge.transfer source.retainedBytes with
        | .error _ => (.err .memoryCapacity, d, charge.drop budget)
        | .ok charge =>
          let (d, budget) := d.insertKnown budget source (not_mem_of_find hfind) d.evictedKnownBytes
          (.ok (), d, charge.drop budget)

/-- `drop`: the decoder gives its bytes back. -/
def drop (d : Decoder) (budget : RecoveryMemoryBudget) : RecoveryMemoryBudget :=
  budget.release ((d.known.queue.map KnownSource.retainedBytes).sum + d.rowBytes)

end Decoder

end Quicp
