import Quicp.Fec.Emitter
import Quicp.Fec.Intake
import Quicp.Fec.SourceCost

/-!
# A decoder without room

Repairs of different pairs of lost sources have nothing in common, so the decoder keeps a row for each and none is
ever solved.
-/

namespace Quicp

/-- Rows one after the other: the identifiers of a row are below those of the later ones. -/
structure Staggered (rows : List Row) : Prop where
  ordered : rows.Pairwise fun row later =>
    ∀ id ∈ row.coefficients.map Prod.fst, ∀ id' ∈ later.coefficients.map Prod.fst, id < id'
  long : ∀ row ∈ rows, 1 < row.coefficients.length

variable {row : Row}

private theorem leading_mem (h : row.coefficients ≠ []) :
    row.leading ∈ row.coefficients.map Prod.fst := by
  unfold Row.leading
  cases hterms : row.coefficients with
  | nil => exact absurd hterms h
  | cons term rest => exact List.mem_cons_self

private theorem choosePivot_cons {rest : List Row} (hterms : row.coefficients ≠ [])
    (hleast : ∀ other ∈ rest, row.leading ≤ other.leading) : choosePivot (row :: rest) = some (row, rest) := by
  have hcandidate : candidate (row :: rest) = some 0 := by
    rw [candidate, List.zipIdx_cons, List.filter_cons_of_pos (by simpa using hterms), List.argmin_cons]
    cases hmin : List.argmin (fun entry : Row × ℕ => entry.1.leading)
        ((rest.zipIdx (0 + 1)).filter (fun entry => !entry.1.coefficients.isEmpty)) with
    | none => rfl
    | some entry =>
      have hmem := List.mem_of_mem_filter (List.argmin_mem hmin)
      have hle := hleast entry.1 (List.fst_mem_of_mem_zipIdx hmem)
      dsimp only
      rw [if_neg (not_lt.mpr hle)]
      rfl
  rw [choosePivot, hcandidate]
  rfl

private theorem factor?_of_not_mem {id : UInt32} (h : id ∉ row.coefficients.map Prod.fst) :
    row.factor? id = none := by
  rw [Row.factor?, Option.map_eq_none_iff, List.find?_eq_none]
  intro term hterm
  have hne : term.1 ≠ id := by
    rintro rfl
    exact h (List.mem_map_of_mem hterm)
  simpa using hne

private theorem ids_normalized (row : Row) :
    row.normalized.coefficients.map Prod.fst = row.coefficients.map Prod.fst := by
  simp [Row.normalized, Row.scaled, SparseRow.scale, Function.comp_def]

private theorem eliminate_staggered (turns : ℕ) {done rest : List Row} (hturns : rest.length ≤ turns)
    (hrest : Staggered rest) (hdone : ∀ row ∈ done, ∀ later ∈ rest, ∀ id ∈ row.coefficients.map Prod.fst,
      ∀ id' ∈ later.coefficients.map Prod.fst, id < id') :
    eliminate turns done rest = (done ++ rest.map Row.normalized, (rest.map Row.size).sum) := by
  induction turns generalizing done rest with
  | zero =>
    obtain rfl := List.eq_nil_of_length_eq_zero (Nat.le_zero.mp hturns)
    rfl
  | succ turns ih =>
    cases rest with
    | nil => rfl
    | cons row rest =>
      obtain ⟨hrow, hlater⟩ := List.pairwise_cons.mp hrest.ordered
      have hterms : row.coefficients ≠ [] := List.ne_nil_of_length_pos
        ((Nat.zero_lt_one).trans (hrest.long row List.mem_cons_self))
      have hlead := leading_mem hterms
      have hterms' : ∀ other ∈ rest, other.coefficients ≠ [] := fun other hother => List.ne_nil_of_length_pos
        ((Nat.zero_lt_one).trans (hrest.long other (List.mem_cons_of_mem _ hother)))
      have hchoose : choosePivot (row :: rest) = some (row, rest) := choosePivot_cons hterms fun other hother =>
        (hrow other hother _ hlead _ (leading_mem (hterms' other hother))).le
      have hapart : ∀ other ∈ done ++ rest, other.factor? row.leading = none := by
        intro other hother
        refine factor?_of_not_mem fun hmem => ?_
        rcases List.mem_append.mp hother with hold | hnew
        · exact lt_irrefl _ (hdone other hold row List.mem_cons_self _ hmem _ hlead)
        · exact lt_irrefl _ (hrow other hnew _ hlead _ hmem)
      have hcleared : ∀ rows : List Row, (∀ other ∈ rows, other.factor? row.leading = none) →
          rows.map (clearedBy row.leading row.normalized) = rows := by
        intro rows hrows
        conv_rhs => rw [← List.map_id rows]
        refine List.map_congr_left fun other hother => ?_
        rw [clearedBy, hrows other hother]
        rfl
      have hwork : ((done ++ rest).map (clearWork row.leading row.normalized)).sum = 0 := by
        refine List.sum_eq_zero (List.forall_mem_map.mpr fun other hother => ?_)
        rw [clearWork, hapart other hother]
        rfl
      obtain ⟨hapartDone, hapartRest⟩ := List.forall_mem_append.mp hapart
      have hrest' : Staggered rest := ⟨hlater, fun other hother => hrest.long other (List.mem_cons_of_mem _ hother)⟩
      have hdone' : ∀ other ∈ done ++ [row.normalized], ∀ later ∈ rest, ∀ id ∈ other.coefficients.map Prod.fst,
          ∀ id' ∈ later.coefficients.map Prod.fst, id < id' := by
        refine List.forall_mem_append.mpr ⟨fun other hother later hmem => ?_, List.forall_mem_singleton.mpr ?_⟩
        · exact hdone other hother later (List.mem_cons_of_mem _ hmem)
        · rw [ids_normalized]
          exact fun later hmem id hid id' hid' => hrow later hmem id hid id' hid'
      have hnext := ih (Nat.le_of_succ_le_succ hturns) hrest' hdone'
      rw [eliminate, hchoose]
      dsimp only
      rw [hcleared done hapartDone, hcleared rest hapartRest, hnext, hwork, List.append_assoc, zero_add]
      rfl

private theorem Staggered.normalized {rows : List Row} (h : Staggered rows) : Staggered (rows.map Row.normalized) where
  ordered := by
    refine List.pairwise_map.mpr (h.ordered.imp fun hrow => ?_)
    rw [ids_normalized, ids_normalized]
    exact hrow
  long := by
    refine List.forall_mem_map.mpr fun row hrow => ?_
    rw [← List.length_map Prod.fst, ids_normalized, List.length_map]
    exact h.long row hrow

private theorem collectRecovered_long {rows : List Row} (h : ∀ row ∈ rows, 1 < row.coefficients.length) :
    collectRecovered rows = .ok [] := by
  induction rows with
  | nil => rfl
  | cons row rest ih =>
    obtain ⟨hrow, hrest⟩ := List.forall_mem_cons.mp h
    unfold collectRecovered
    split
    · next hnil =>
      rw [hnil] at hrow
      exact absurd hrow (Nat.not_lt_zero 1)
    · next hone =>
      rw [hone] at hrow
      exact absurd hrow (lt_irrefl 1)
    · exact ih hrest

namespace Decoder

variable {rows : List Row}

private theorem solve_staggered (d : Decoder) (h : Staggered rows) {workBudget : ℕ}
    (hwork : (rows.map Row.size).sum ≤ workBudget) (hword : workBudget < wordMax) :
    d.solve rows workBudget = .ok (rows.map Row.normalized, []) := by
  have hloop : reduceLoop workBudget rows.length [] rows 0 = .ok (rows.map Row.normalized, (rows.map Row.size).sum) := by
    rw [reduceLoop_eq, eliminate_staggered rows.length le_rfl h (List.forall_mem_nil _), metered,
      spendMany_eq (Nat.zero_le _) hword, if_pos (by rwa [zero_add]), zero_add]
    rfl
  have hkept : (rows.map Row.normalized).filter (fun row => decide (row.coefficients.length > 1)) =
      rows.map Row.normalized :=
    List.filter_eq_self.mpr fun row hrow => decide_eq_true (h.normalized.long row hrow)
  have hreduce : reduce rows workBudget = .ok (rows.map Row.normalized, []) := by
    simp only [reduce, hloop, bind, Except.bind, collectRecovered_long h.normalized.long]
    rfl
  rw [solve, hreduce]
  change Except.ok ((rows.map Row.normalized).filter _, _) = _
  rw [hkept]

private theorem checkedAdd_of_le {left right : ℕ} (h : left + right ≤ wordMax) :
    checkedAdd left right = some (left + right) := if_pos h

private theorem checkedMul_of_le {left right : ℕ} (h : left * right ≤ wordMax) :
    checkedMul left right = some (left * right) := if_pos h

private theorem matrixCoefficientCount_pairs (h : ∀ row ∈ rows, row.coefficients.length = 2)
    {additional : ℕ} (hword : additional + 2 * rows.length ≤ wordMax) :
    matrixCoefficientCount rows additional = some (additional + 2 * rows.length) := by
  induction rows generalizing additional with
  | nil => rfl
  | cons row rest ih =>
    obtain ⟨hrow, hrest⟩ := List.forall_mem_cons.mp h
    rw [List.length_cons] at hword ⊢
    rw [matrixCoefficientCount, List.foldlM_cons, hrow, checkedAdd_of_le (by omega), Option.bind_eq_bind, Option.bind_some,
      ← matrixCoefficientCount, ih hrest (by omega)]
    congr 1
    omega

private theorem rowStorageBytes_eq {rowCapacity coefficientCapacity dataCapacity : ℕ}
    (hword : rowCapacity * rowSize + rows.length * (dataCapacity + coefficientCapacity * termSize) ≤ wordMax) :
    rowStorageBytes rowCapacity coefficientCapacity dataCapacity rows =
      some (rowCapacity * rowSize + rows.length * (dataCapacity + coefficientCapacity * termSize)) := by
  have hloop : ∀ bytes, bytes + rows.length * (dataCapacity + coefficientCapacity * termSize) ≤ wordMax →
      rows.foldlM (fun bytes (_ : Row) => (checkedAdd bytes dataCapacity).bind fun bytes =>
        (checkedMul coefficientCapacity termSize).bind fun coefficients => checkedAdd bytes coefficients) bytes =
        some (bytes + rows.length * (dataCapacity + coefficientCapacity * termSize)) := by
    clear hword
    induction rows with
    | nil => exact fun bytes _ => by simp
    | cons row rest ih =>
      intro bytes hbytes
      rw [List.length_cons, Nat.succ_mul] at hbytes ⊢
      have hrow : ((checkedAdd bytes dataCapacity).bind fun bytes =>
          (checkedMul coefficientCapacity termSize).bind fun coefficients => checkedAdd bytes coefficients) =
            some (bytes + (dataCapacity + coefficientCapacity * termSize)) := by
        rw [checkedAdd_of_le (by omega), Option.bind_some, checkedMul_of_le (by omega), Option.bind_some,
          checkedAdd_of_le (by omega), Nat.add_assoc]
      rw [List.foldlM_cons, hrow, Option.bind_eq_bind, Option.bind_some, ih _ (by omega)]
      congr 1
      omega
  unfold rowStorageBytes
  rw [checkedMul_of_le (by omega), Option.bind_eq_bind, Option.bind_some]
  exact hloop _ hword

/-- A decoder of 512 rows that holds a row for each of a number of pairs, with a budget that pays for nothing
else. -/
structure Filled (pairs : ℕ) (d : Decoder) (budget : RecoveryMemoryBudget) : Prop where
  known : d.known = .empty
  length : d.rows.length = pairs
  staggered : Staggered d.rows
  terms : ∀ row ∈ d.rows, row.coefficients.length = 2
  data : ∀ row ∈ d.rows, row.data.length ≤ 1200
  below : ∀ row ∈ d.rows, ∀ id ∈ row.coefficients.map Prod.fst, id.toNat < 2 * pairs
  maxRows : d.maxRows = 512
  maxSymbolBytes : d.maxSymbolBytes = 1200
  rowBytes : d.rowBytes = pairs * (1248 + 16 * pairs)
  used : budget.used = d.rowBytes
  limit : budget.limit = 2 ^ 26

variable {pairs : ℕ} {d : Decoder} {budget : RecoveryMemoryBudget}

private theorem pendingRow_pair (h : pairs < 512) (repairId seed : UInt32) (coded : List UInt8) :
    let row := pendingRow .empty (UInt32.ofNat (2 * pairs)) 2 repairId seed coded
    row.coefficients.length = 2 ∧ row.data.length = coded.length ∧
      ∀ id ∈ row.coefficients.map Prod.fst, 2 * pairs ≤ id.toNat ∧ id.toNat < 2 * (pairs + 1) := by
  have hperm := List.perm_insertionSort (fun term later : UInt32 × Gf256 => term.1 ≤ later.1)
    (unknownTerms .empty (spanTerms repairId seed 2 (UInt32.ofNat (2 * pairs))))
  have hterms : unknownTerms .empty (spanTerms repairId seed 2 (UInt32.ofNat (2 * pairs))) =
      spanTerms repairId seed 2 (UInt32.ofNat (2 * pairs)) := List.filter_eq_self.mpr fun _ _ => rfl
  rw [hterms] at hperm
  refine ⟨?_, ?_, ?_⟩
  · rw [pendingRow, hterms]
    exact hperm.length_eq
  · rw [pendingRow, length_codedRest]
    exact List.length_map ..
  · rw [pendingRow, hterms]
    intro id hid
    have hmem : id ∈ [UInt32.ofNat (2 * pairs), UInt32.ofNat (2 * pairs) + 1] := (hperm.map Prod.fst).subset hid
    have hfirst : (UInt32.ofNat (2 * pairs)).toNat = 2 * pairs := by
      rw [UInt32.toNat_ofNat']
      omega
    have hone : (1 : UInt32).toNat = 1 := rfl
    rcases List.mem_cons.mp hmem with rfl | hmem
    · omega
    · rw [List.mem_singleton.mp hmem, UInt32.toNat_add, hfirst, hone]
      omega

private theorem Filled.staggered_append (h : Filled pairs d budget) (hpairs : pairs < 512) (repairId seed : UInt32)
    (coded : List UInt8) :
    Staggered (d.rows ++ [pendingRow .empty (UInt32.ofNat (2 * pairs)) 2 repairId seed coded]) := by
  obtain ⟨hterms, _, hids⟩ := pendingRow_pair hpairs repairId seed coded
  refine ⟨List.pairwise_append.mpr ⟨h.staggered.ordered, List.pairwise_singleton _ _, ?_⟩,
    List.forall_mem_append.mpr ⟨h.staggered.long, List.forall_mem_singleton.mpr (by omega)⟩⟩
  intro row hrow later hlater id hid id' hid'
  rw [List.mem_singleton.mp hlater] at hid'
  have hbelow := h.below row hrow id hid
  have habove := (hids id' hid').1
  exact UInt32.lt_iff_toNat_lt.mpr (by omega)

private theorem sum_size_le (hterms : ∀ row ∈ rows, row.coefficients.length = 2)
    (hdata : ∀ row ∈ rows, row.data.length ≤ 1200) : (rows.map Row.size).sum ≤ rows.length * 1202 := by
  have hle : ∀ size ∈ rows.map Row.size, size ≤ 1202 := by
    refine List.forall_mem_map.mpr fun row hrow => ?_
    have hcoefficients := hterms row hrow
    have hbytes := hdata row hrow
    unfold Row.size
    omega
  simpa using List.sum_le_card_nsmul _ _ hle

private theorem Filled.scratchMemoryBytes_eq (h : Filled pairs d budget) (hpairs : pairs < 512) :
    d.scratchMemoryBytes 1 2 0 = some ((pairs + 1) * (1264 + 16 * pairs) + (1264 + 16 * pairs) + (pairs + 1) * 2488) := by
  have hword : (2 : ℕ) ^ 32 ≤ wordMax := by decide
  have hproduct : (pairs + 1) * (1264 + 16 * pairs) ≤ 512 * 9440 := Nat.mul_le_mul (by omega) (by omega)
  have hcount : matrixCoefficientCount d.rows 2 = some (2 + 2 * pairs) := by
    rw [matrixCoefficientCount_pairs h.terms (by rw [h.length]; omega), h.length]
  have hcolumns : (2 + 2 * pairs) * termSize = 16 + 16 * pairs := by
    unfold termSize
    omega
  have hmatrix : ((checkedAdd rowSize 1200).bind fun bytes => checkedAdd bytes (16 + 16 * pairs)) =
      some (1264 + 16 * pairs) := by
    have hrow : checkedAdd rowSize 1200 = some 1248 := by decide
    rw [hrow, Option.bind_some, checkedAdd_of_le (by omega), ← Nat.add_assoc]
  have hsymbol : (((checkedMul 1200 2).bind fun bytes => checkedAdd bytes solvedSize).bind fun bytes =>
      checkedAdd bytes recoveredSourceSize) = some 2488 := by decide
  unfold scratchMemoryBytes
  rw [h.length, h.maxSymbolBytes, checkedAdd_of_le (by omega), hcount]
  simp only [Option.bind_eq_bind, Option.bind_some]
  rw [checkedMul_of_le (by omega), hcolumns, Option.bind_some, hmatrix, Option.bind_some,
    checkedMul_of_le (by omega), Option.bind_some, hsymbol, Option.bind_some, checkedMul_of_le (by omega),
    Option.bind_some, checkedAdd_of_le (by omega), Option.bind_some, checkedAdd_of_le (by omega), Option.bind_some,
    checkedAdd_of_le (by omega), Nat.add_zero]

private theorem new_empty {scratch : RecoveryCharge} {committedBytes : ℕ} (h : committedBytes ≤ scratch.bytes)
    (hword : committedBytes ≤ wordMax) (budget : RecoveryMemoryBudget) :
    RecoveredBatch.new [] scratch committedBytes budget =
      (.ok ⟨[], 0, ⟨scratch.budget, scratch.bytes - committedBytes⟩⟩, budget) := by
  have hbytes : checkedMul (vecCapacity ([] : List RecoveredSource).length) recoveredSourceSize = some 0 := by decide
  have hadd : checkedAdd 0 committedBytes = some committedBytes := by
    rw [checkedAdd_of_le (by omega), zero_add]
  simp only [RecoveredBatch.new, hbytes, Option.bind_eq_bind, Option.bind_some, List.foldlM_nil, pure, hadd,
    RecoveryCharge.grow, if_pos h, RecoveryCharge.transfer_of_le h]

private theorem addRepairRow_pending {scratch : RecoveryCharge} {coefficientCapacity nextRowBytes : ℕ} {row : Row}
    {work workBudget : ℕ}
    (hsolve : d.solve (d.rows ++ [row]) (workBudget - work) = .ok (rows, []))
    (hstorage : rowStorageBytes (d.rows.length + 1) coefficientCapacity d.maxSymbolBytes rows = some nextRowBytes)
    (hgrows : d.rowBytes ≤ nextRowBytes) (hpaid : nextRowBytes ≤ scratch.bytes) (hword : nextRowBytes ≤ wordMax) :
    d.addRepairRow budget scratch coefficientCapacity row work workBudget =
      (.ok ⟨[], 0, ⟨scratch.budget, 0⟩⟩, { d with rows := rows, rowBytes := nextRowBytes },
        budget.release (scratch.bytes - (nextRowBytes - d.rowBytes))) := by
  have hrelease : budget.release (d.rowBytes - nextRowBytes) = budget := by
    rw [Nat.sub_eq_zero_of_le hgrows, RecoveryMemoryBudget.release_of_le (Nat.zero_le _), Nat.sub_zero]
  have hbatch := new_empty (show nextRowBytes - d.rowBytes ≤ scratch.bytes by omega) (by omega) budget
  simp only [addRepairRow, hsolve, hstorage, hbatch, hrelease, RecoveredBatch.shrinkAfterStateTransition,
    RecoveryCharge.shrink_of_le (Nat.zero_le _), Option.map_some, Nat.sub_zero]

private theorem Filled.next (h : Filled pairs d budget) {row : Row} (hterms : row.coefficients.length = 2)
    (hdata : row.data.length ≤ 1200) (hids : ∀ id ∈ row.coefficients.map Prod.fst, id.toNat < 2 * (pairs + 1))
    (hstaggered : Staggered (d.rows ++ [row])) {after : RecoveryMemoryBudget}
    (hused : after.used = (pairs + 1) * (1248 + 16 * (pairs + 1))) (hlimit : after.limit = budget.limit) :
    Filled (pairs + 1) { d with
      rows := (d.rows ++ [row]).map Row.normalized
      rowBytes := (pairs + 1) * (1248 + 16 * (pairs + 1)) } after where
  known := h.known
  length := by rw [List.length_map, List.length_append, h.length, List.length_singleton]
  staggered := hstaggered.normalized
  terms := by
    refine List.forall_mem_map.mpr fun other hother => ?_
    rw [← List.length_map Prod.fst, ids_normalized, List.length_map]
    exact List.forall_mem_append.mpr ⟨h.terms, List.forall_mem_singleton.mpr hterms⟩ other hother
  data := by
    refine List.forall_mem_map.mpr fun other hother => ?_
    rw [Row.normalized, Row.scaled, List.length_map]
    exact List.forall_mem_append.mpr ⟨h.data, List.forall_mem_singleton.mpr hdata⟩ other hother
  below := by
    refine List.forall_mem_map.mpr fun other hother => ?_
    rw [ids_normalized]
    intro id hid
    rcases List.mem_append.mp hother with hold | hnew
    · have hbelow := h.below other hold id hid
      omega
    · rw [List.mem_singleton.mp hnew] at hid
      exact hids id hid
  maxRows := h.maxRows
  maxSymbolBytes := h.maxSymbolBytes
  rowBytes := rfl
  used := hused
  limit := hlimit.trans h.limit

theorem Filled.addRepair (h : Filled pairs d budget) (hpairs : pairs < 512) (repairId seed : UInt32)
    {coded : List UInt8} (hne : coded ≠ []) (hsize : coded.length ≤ 1200) :
    ∃ batch next after, d.addRepair budget (UInt32.ofNat (2 * pairs)) 2 repairId seed coded (4096 * 1200) =
      (.ok batch, next, after) ∧ Filled (pairs + 1) next after := by
  obtain ⟨hterms, hdata, hids⟩ := pendingRow_pair hpairs repairId seed coded
  have hstaggered := h.staggered_append hpairs repairId seed coded
  have hrow : pendingRow d.known (UInt32.ofNat (2 * pairs)) 2 repairId seed coded =
      pendingRow .empty (UInt32.ofNat (2 * pairs)) 2 repairId seed coded := by rw [h.known]
  generalize pendingRow .empty (UInt32.ofNat (2 * pairs)) 2 repairId seed coded = row at hterms hdata hids hstaggered hrow
  have hword : (2 : ℕ) ^ 32 < wordMax := by decide
  have hold := sum_size_le h.terms h.data
  have hsizes := sum_size_le (List.forall_mem_append.mpr ⟨h.terms, List.forall_mem_singleton.mpr hterms⟩)
    (List.forall_mem_append.mpr ⟨h.data, List.forall_mem_singleton.mpr (hdata.trans_le hsize)⟩)
  rw [h.length] at hold
  rw [List.length_append, h.length, List.length_singleton] at hsizes
  have hproduct : (pairs + 1) * (1264 + 16 * pairs) ≤ 512 * 9440 := Nat.mul_le_mul (by omega) (by omega)
  have hproduct' : pairs * (1248 + 16 * pairs) ≤ (pairs + 1) * (1264 + 16 * pairs) :=
    Nat.mul_le_mul (by omega) (by omega)
  have hnext : (pairs + 1) * (1248 + 16 * (pairs + 1)) = (pairs + 1) * (1264 + 16 * pairs) := by ring
  have hbase : d.repairBaseWork 2 coded = some ((d.rows.map Row.size).sum + coded.length + 2) := by
    rw [repairBaseWork, matrixCloneWork_eq, if_pos (by omega), Option.bind_eq_bind, Option.bind_some,
      checkedAdd_of_le (by omega), Option.bind_some, checkedAdd_of_le (by omega)]
  have hcount : matrixCoefficientCount d.rows 2 = some (2 + 2 * pairs) := by
    rw [matrixCoefficientCount_pairs h.terms (by rw [h.length]; omega), h.length]
  have hrepair : d.repairRow (UInt32.ofNat (2 * pairs)) 2 repairId seed coded
      ((d.rows.map Row.size).sum + coded.length + 2) (4096 * 1200) =
        .ok (row, (d.rows.map Row.size).sum + coded.length + 2) := by
    rw [repairRow_eq (fun id _ source hfind => by rw [h.known] at hfind; cases hfind), hrow, h.known]
    rfl
  have hsolved := d.solve_staggered hstaggered
    (show _ ≤ 4096 * 1200 - ((d.rows.map Row.size).sum + coded.length + 2) by omega) (by omega)
  have hstorage : rowStorageBytes (pairs + 1) (2 + 2 * pairs) 1200 ((d.rows ++ [row]).map Row.normalized) =
      some ((pairs + 1) * (1248 + 16 * (pairs + 1))) := by
    have hbytes : (pairs + 1) * rowSize + ((d.rows ++ [row]).map Row.normalized).length *
        (1200 + (2 + 2 * pairs) * termSize) = (pairs + 1) * (1248 + 16 * (pairs + 1)) := by
      rw [List.length_map, List.length_append, h.length, List.length_singleton, rowSize, termSize]
      ring
    rw [rowStorageBytes_eq (by omega), hbytes]
  obtain ⟨scratch, hscratch⟩ : ∃ scratch, scratch =
      (pairs + 1) * (1264 + 16 * pairs) + (1264 + 16 * pairs) + (pairs + 1) * 2488 := ⟨_, rfl⟩
  have hmemory := h.scratchMemoryBytes_eq hpairs
  rw [← hscratch] at hmemory
  have hreserve := RecoveryMemoryBudget.tryReserve_eq budget scratch
  have hused : budget.used = pairs * (1248 + 16 * pairs) := h.used.trans h.rowBytes
  rw [if_pos (by rw [hused, h.limit]; omega)] at hreserve
  have hlength := h.length
  have hmax := h.maxSymbolBytes
  have hcall : d.addRepair budget (UInt32.ofNat (2 * pairs)) 2 repairId seed coded (4096 * 1200) =
      (.ok ⟨[], 0, ⟨budget.identity, 0⟩⟩, { d with
        rows := (d.rows ++ [row]).map Row.normalized
        rowBytes := (pairs + 1) * (1248 + 16 * (pairs + 1)) },
        { budget with used := budget.used + scratch }.release
          (scratch - ((pairs + 1) * (1248 + 16 * (pairs + 1)) - d.rowBytes))) := by
    unfold Decoder.addRepair
    rw [if_neg (by decide), if_neg (by rw [hmax]; simpa using ⟨hne, hsize⟩), if_neg (by rw [hlength, h.maxRows]; omega),
      hbase]
    dsimp only
    rw [if_neg (by omega), hmemory, hcount]
    dsimp only
    rw [RecoveryCharge.reserve, hreserve]
    dsimp only
    rw [hrepair]
    dsimp only
    rw [if_neg (by rw [← List.length_eq_zero_iff]; omega)]
    exact addRepairRow_pending hsolved (by rw [hlength, hmax]; exact hstorage) (by rw [h.rowBytes]; omega)
      (by dsimp only; omega) (by omega)
  refine ⟨_, _, _, hcall, h.next hterms (hdata.trans_le hsize) (fun id hid => (hids id hid).2) hstaggered ?_ rfl⟩
  rw [RecoveryMemoryBudget.release_used (by dsimp only; omega), h.rowBytes]
  dsimp only
  omega

end Decoder

def lossyRecord (symbol : ℕ) : SourceRecord := ⟨4, symbol, false, [7]⟩

def lossySource (symbol : ℕ) : List UInt8 := Session.symbolOf (lossyRecord symbol) (UInt32.ofNat symbol)

private theorem length_lossySource (symbol : ℕ) : 0 < (lossySource symbol).length ∧ (lossySource symbol).length ≤ 32 := by
  have hencoded : (lossyRecord symbol).encoded.length ≤ 1 + 25 := (lossyRecord symbol).length_encoded_le
  rw [lossySource, Session.length_symbolOf]
  omega

private theorem exists_lossyRepair (first repairId : UInt32) (symbol symbol' : ℕ) :
    ∃ coded bytes, repairSymbol first repairId (repairSeed first) [lossySource symbol, lossySource symbol'] = .ok coded ∧
      coded ≠ [] ∧ coded.length ≤ 1200 ∧
      encodeRepair ⟨repairId, first, 2, coded.length, repairSeed first, coded⟩ = .ok bytes := by
  obtain ⟨hpositive, hshort⟩ := length_lossySource symbol
  obtain ⟨_, hshort'⟩ := length_lossySource symbol'
  have hmax : ([lossySource symbol, lossySource symbol'].map List.length).max?.getD 0 =
      max (lossySource symbol).length (lossySource symbol').length := rfl
  have hu16 : 32 ≤ u16Max := by decide
  have hcoded : repairSymbol first repairId (repairSeed first) [lossySource symbol, lossySource symbol'] =
      .ok (Gf256.toBytes (repairLoop repairId (repairSeed first) first [lossySource symbol, lossySource symbol']
        (List.replicate (max (lossySource symbol).length (lossySource symbol').length) 0))) := by
    rw [repairSymbol, if_neg (by simp [maxRepairSpan])]
    dsimp only
    rw [hmax, if_neg (by omega)]
  have hlength : (Gf256.toBytes (repairLoop repairId (repairSeed first) first [lossySource symbol, lossySource symbol']
      (List.replicate (max (lossySource symbol).length (lossySource symbol').length) 0))).length =
        max (lossySource symbol).length (lossySource symbol').length := by
    rw [Gf256.toBytes, List.length_map, length_repairLoop, List.length_replicate]
  refine ⟨_, _, hcoded, List.ne_nil_of_length_pos (by omega), by omega, if_neg ?_⟩
  simp only [maxRepairSpan]
  omega

def lossyConfig : RecoveryConfig where
  mode := .adaptive
  requireAdaptive := false
  maxRepairSpan := 2
  decoderWindow := 512
  maxAckRanges := 32
  replayBufferBytes := 65536
  reassemblyBufferBytes := 65536
  preOpenSymbols := 64
  workBudget := 4096

def lossyConnection (pairs : ℕ) : Connection where
  datagramEnabled := true
  pending := []
  capacity := 512
  nextSymbol := UInt32.ofNat (2 * pairs)
  requireAdaptive := false
  runtimeStopped := false
  maxSymbolBytes := 1200
  maxSymbol := 1200
  maxAckRanges := 32

def lossySources : ℕ → List (UInt32 × List UInt8)
  | 0 => []
  | pairs + 1 => [(UInt32.ofNat (2 * pairs), lossySource (2 * pairs)),
      (UInt32.ofNat (2 * pairs + 1), lossySource (2 * pairs + 1))]

def lossyEmitter (pairs : ℕ) (emitted : List (List UInt8)) : Emitter where
  connection := lossyConnection pairs
  sources := lossySources pairs
  nextRepair := UInt32.ofNat pairs
  maxSpan := 2
  sending := none
  running := true
  emitted := emitted

namespace Emitter

private theorem reachable_source {e : Emitter} (h : Reachable Initial Step e) (hrunning : e.running = true)
    (hsending : e.sending = none) (henabled : e.connection.datagramEnabled = true)
    (hpending : e.connection.pending = []) (hcapacity : e.connection.capacity ≠ 0) {record : SourceRecord}
    {bytes : List UInt8} (hbytes : encodeSource e.connection.nextSymbol [record] = .ok bytes)
    {nextSymbol : UInt32} (hnext : e.connection.nextSymbol + 1 = nextSymbol) {sources : List (UInt32 × List UInt8)}
    (hsources : (if e.sources.length + 1 > e.maxSpan then (e.sources ++ [(e.connection.nextSymbol, bytes)]).tail
      else e.sources ++ [(e.connection.nextSymbol, bytes)]) = sources) :
    Reachable Initial Step { e with
      connection := { e.connection with nextSymbol := nextSymbol }
      sources := sources
      emitted := e.emitted ++ [bytes] } := by
  subst hnext hsources
  have hqueued : e.connection.sendSource record = (.ok true, { e.connection with
      nextSymbol := e.connection.nextSymbol + 1
      pending := [.source e.connection.nextSymbol bytes] }) := by
    simp [Connection.sendSource, henabled, hpending, hcapacity.symm, hbytes]
  have hsend : Step e (.sendSource record) { e with connection := { e.connection with
      nextSymbol := e.connection.nextSymbol + 1
      pending := [.source e.connection.nextSymbol bytes] } } := by
    refine ⟨trivial, ?_⟩
    rw [apply, hqueued]
  have htake : Step { e with connection := { e.connection with
      nextSymbol := e.connection.nextSymbol + 1
      pending := [.source e.connection.nextSymbol bytes] } } .take { e with
        connection := { e.connection with nextSymbol := e.connection.nextSymbol + 1 }
        sending := some (.source e.connection.nextSymbol bytes) } := by
    refine ⟨⟨hrunning, hsending, List.cons_ne_nil _ _⟩, ?_⟩
    simp [apply, Connection.takeDatagram, hpending]
  refine ((h.next hsend).next htake).next (show Step _ .sent _ from ⟨⟨hrunning, Option.some_ne_none _⟩, ?_⟩)
  simp only [apply, recordSent, henabled, OutboundDatagram.bytes, List.length_append, List.length_singleton]
  simp [hsending]

private theorem reachable_repair {e : Emitter} (h : Reachable Initial Step e) (hrunning : e.running = true)
    (hsending : e.sending = none) (henabled : e.connection.datagramEnabled = true)
    (hpending : e.connection.pending = []) (hcapacity : e.connection.capacity ≠ 0) (hspan : e.maxSpan = 2)
    {first second : UInt32} {payload payload' coded bytes : List UInt8}
    (hsources : e.sources = [(first, payload), (second, payload')])
    (hcoded : repairSymbol first e.nextRepair (repairSeed first) [payload, payload'] = .ok coded)
    (hshort : coded.length ≤ u16Max)
    (hbytes : encodeRepair ⟨e.nextRepair, first, 2, coded.length, repairSeed first, coded⟩ = .ok bytes)
    {nextRepair : UInt32} (hnext : e.nextRepair + 1 = nextRepair) {emitted : List (List UInt8)}
    (hemitted : e.emitted ++ [bytes] = emitted) :
    Reachable Initial Step { e with nextRepair := nextRepair, emitted := emitted } := by
  subst hnext hemitted
  have hlimit : min 1 (e.connection.capacity - e.connection.pending.length) = 1 := by
    rw [hpending, List.length_nil]
    omega
  have hqueued : e.sendTailRepairs 1 = (.ok 1, { e with
      nextRepair := e.nextRepair + 1
      connection := { e.connection with pending := [.repair bytes] } }) := by
    have hsizes : ¬([payload, payload'].length > u16Max ∨ coded.length > u16Max) := by
      rw [not_or]
      exact ⟨Nat.not_lt_of_ge (Nat.le_of_ble_eq_true rfl), not_lt.mpr hshort⟩
    have hloop : queueRepairs first [payload, payload'] 1 e = (.ok 1, { e with
        nextRepair := e.nextRepair + 1
        connection := { e.connection with pending := [.repair bytes] } }) := by
      simp only [queueRepairs, hcoded, if_neg hsizes]
      simp [hbytes, henabled, hpending, hcapacity.symm]
    refine Eq.trans ?_ hloop
    rw [sendTailRepairs, henabled, hlimit, hsources, hspan]
    rfl
  have hsend : Step e (.sendTailRepairs 1) { e with
      nextRepair := e.nextRepair + 1
      connection := { e.connection with pending := [.repair bytes] } } := by
    refine ⟨trivial, ?_⟩
    rw [apply, hqueued]
  have htake : Step { e with
      nextRepair := e.nextRepair + 1
      connection := { e.connection with pending := [.repair bytes] } } .take
        { e with nextRepair := e.nextRepair + 1, sending := some (.repair bytes) } := by
    refine ⟨⟨hrunning, hsending, List.cons_ne_nil _ _⟩, ?_⟩
    simp [apply, Connection.takeDatagram, ← hpending]
  refine ((h.next hsend).next htake).next (show Step _ .sent _ from ⟨⟨hrunning, Option.some_ne_none _⟩, ?_⟩)
  simp [apply, recordSent, OutboundDatagram.bytes, hsending]

private theorem reachable_pair {pairs : ℕ} {emitted : List (List UInt8)} (hpairs : pairs ≤ 512)
    (h : Reachable Initial Step (lossyEmitter pairs emitted)) :
    ∃ coded bytes, coded ≠ [] ∧ coded.length ≤ 1200 ∧
      encodeRepair ⟨UInt32.ofNat pairs, UInt32.ofNat (2 * pairs), 2, coded.length, UInt32.ofNat (2 * pairs), coded⟩ =
        .ok bytes ∧
      Reachable Initial Step
        (lossyEmitter (pairs + 1) (emitted ++ [lossySource (2 * pairs), lossySource (2 * pairs + 1), bytes])) := by
  obtain ⟨coded, bytes, hcoded, hne, hsize, hbytes⟩ :=
    exists_lossyRepair (UInt32.ofNat (2 * pairs)) (UInt32.ofNat pairs) (2 * pairs) (2 * pairs + 1)
  refine ⟨coded, bytes, hne, hsize, hbytes, ?_⟩
  have hencode : ∀ symbol ≤ 1025, encodeSource (UInt32.ofNat symbol) [lossyRecord symbol] = .ok (lossySource symbol) := by
    intro symbol hsymbol
    have hwire : (1025 : ℕ) + 1 ≤ maxWireOffset := by decide
    refine Session.encodeSource_symbolOf (encodeSourceRecord_eq_ok.mpr ⟨rfl, List.cons_ne_nil _ _, ?_⟩) _
    exact (Nat.add_le_add_right hsymbol 1).trans hwire
  have hnext : ∀ count : ℕ, UInt32.ofNat count + 1 = UInt32.ofNat (count + 1) := fun count =>
    (UInt32.ofNat_add count 1).symm
  -- The first source may still have one of the pair before it in the window.
  obtain ⟨between, hbetween, hwindow⟩ : ∃ between : List (UInt32 × List UInt8),
      (if (lossySources pairs).length + 1 > 2 then
          (lossySources pairs ++ [(UInt32.ofNat (2 * pairs), lossySource (2 * pairs))]).tail
        else lossySources pairs ++ [(UInt32.ofNat (2 * pairs), lossySource (2 * pairs))]) = between ∧
      (if between.length + 1 > 2 then
          (between ++ [(UInt32.ofNat (2 * pairs + 1), lossySource (2 * pairs + 1))]).tail
        else between ++ [(UInt32.ofNat (2 * pairs + 1), lossySource (2 * pairs + 1))]) = lossySources (pairs + 1) := by
    cases pairs with
    | zero => exact ⟨_, rfl, rfl⟩
    | succ pairs => exact ⟨_, rfl, rfl⟩
  have hcapacity : (512 : ℕ) ≠ 0 := by decide
  have hfirst := reachable_source h rfl rfl rfl rfl hcapacity (hencode (2 * pairs) (by omega)) (hnext _) hbetween
  have hsecond := reachable_source hfirst rfl rfl rfl rfl hcapacity (hencode (2 * pairs + 1) (by omega))
    (hnext (2 * pairs + 1)) hwindow
  have hemitted : emitted ++ [lossySource (2 * pairs)] ++ [lossySource (2 * pairs + 1)] ++ [bytes] =
      emitted ++ [lossySource (2 * pairs), lossySource (2 * pairs + 1), bytes] := by
    rw [List.append_assoc, List.append_assoc]
    rfl
  exact reachable_repair hsecond rfl rfl rfl rfl hcapacity rfl rfl hcoded (hsize.trans (by decide)) hbytes (hnext _)
    hemitted

end Emitter

namespace Intake

private theorem receive_encodeRepair (i : Intake) (storage : Storage) (reserved : Bool) {frame : RepairDatagram}
    {bytes : List UInt8} (h : encodeRepair frame = .ok bytes) (hsize : frame.symbolSize ≤ i.maxSymbolBytes)
    (hshort : frame.symbolSize < 2 ^ 16) (hspan : frame.span ≤ i.maxSpan)
    {outcome : Outcome FecError RecoveredBatch} {next : Decoder} {after : RecoveryMemoryBudget}
    (hcall : i.decoder.addRepair i.budget frame.firstSymbolId frame.span frame.repairId frame.seed frame.coded
      i.workBudget = (outcome, next, after)) :
    i.receive storage reserved bytes =
      if outcome = .err .rowCapacity then { i with closed := true } else { i with decoder := next, budget := after } := by
  have hhead : bytes.head? = some repairDatagramType := by
    unfold encodeRepair at h
    split_ifs at h
    rw [← Except.ok.inj h]
    rfl
  have hdecode := decodeRepair_encodeRepair h hsize hshort
  rw [receive, hhead]
  dsimp only
  rw [if_neg (by decide), if_pos rfl, receiveRepair, hdecode]
  dsimp only
  rw [if_neg (not_not.mpr hspan), hcall]
  split
  · next heq =>
    rw [if_pos (congrArg Prod.fst heq)]
  · next hne heq =>
    cases heq
    rw [if_neg hne]

def lossyStart : Intake := start lossyConfig 1200 2 ⟨0, 0, 2 ^ 26, by decide, false⟩

def lossyReceived (delivered : List (List UInt8)) : Intake :=
  delivered.foldl (fun i datagram => i.receive ⟨false, false, 0, false, 0⟩ true datagram) lossyStart

private theorem exists_lossy {pairs : ℕ} (hpairs : pairs ≤ 512) : ∃ emitted delivered,
    Reachable Emitter.Initial Emitter.Step (lossyEmitter pairs emitted) ∧ delivered.Sublist emitted ∧
      Reachable (Initial lossyConfig) Step (lossyReceived delivered) ∧
      ∃ decoder budget, lossyReceived delivered = { lossyStart with decoder := decoder, budget := budget } ∧
        decoder.Filled pairs budget := by
  induction pairs with
  | zero =>
    refine ⟨[], [], .start ⟨rfl, rfl, rfl, rfl, rfl, rfl, rfl⟩, .slnil, .start ⟨_, _, _, rfl⟩, _, _, rfl, ?_⟩
    exact ⟨rfl, rfl, ⟨.nil, List.forall_mem_nil _⟩, List.forall_mem_nil _, List.forall_mem_nil _, List.forall_mem_nil _,
      rfl, rfl, rfl, rfl, rfl⟩
  | succ pairs ih =>
    obtain ⟨emitted, delivered, hsender, hsublist, hreceiver, decoder, budget, heq, hfilled⟩ := ih (by omega)
    obtain ⟨coded, bytes, hne, hsize, hbytes, hnext⟩ := Emitter.reachable_pair (by omega) hsender
    obtain ⟨batch, decoder', budget', hcall, hfilled'⟩ := hfilled.addRepair (by omega) _ _ hne hsize
    have hreceive := receive_encodeRepair { lossyStart with decoder := decoder, budget := budget }
      ⟨false, false, 0, false, 0⟩ true hbytes hsize (lt_of_le_of_lt hsize (by decide)) le_rfl hcall
    rw [if_neg (by simp)] at hreceive
    have hreceived : lossyReceived (delivered ++ [bytes]) =
        { lossyStart with decoder := decoder', budget := budget' } := by
      rw [lossyReceived, List.foldl_append, ← lossyReceived, heq]
      exact hreceive
    refine ⟨_, delivered ++ [bytes], hnext, ?_, ?_, decoder', budget', hreceived, hfilled'⟩
    · exact hsublist.append (((List.Sublist.refl [bytes]).cons _).cons _)
    · rw [hreceived, ← hreceive]
      rw [heq] at hreceiver
      exact hreceiver.next (show Step _ (.receive _ _ _) _ from ⟨rfl, rfl⟩)

/-- A connection with an accepted configuration is closed for its rows only when its pending repairs leave more
symbols unresolved than the decoder window, whatever datagrams arrived. -/
theorem unresolved_of_closed {config : RecoveryConfig} {flowBufferBytes : ℕ}
    (hconfig : config.validate flowBufferBytes = .ok ()) {i : Intake} (h : Reachable (Initial config) Step i)
    (hclosed : i.closed = true) : config.decoderWindow < i.decoder.unresolved.card := by
  have hinv := inv_of_reachable h
  have hfull := hinv.full hclosed
  have hwindow := RecoveryConfig.decoderWindow_of_validate hconfig
  have hne : i.decoder.rows ≠ [] := List.ne_nil_of_length_pos (by omega)
  rw [← hfull]
  exact hinv.atRest.length_lt_unresolved hne

private theorem exists_closed : ∃ emitted delivered, Reachable Emitter.Initial Emitter.Step (lossyEmitter 513 emitted) ∧
    delivered.Sublist emitted ∧ Reachable (Initial lossyConfig) Step (lossyReceived delivered) ∧
      (lossyReceived delivered).closed = true := by
  obtain ⟨emitted, delivered, hsender, hsublist, hreceiver, decoder, budget, heq, hfilled⟩ := exists_lossy le_rfl
  obtain ⟨coded, bytes, hne, hsize, hbytes, hnext⟩ := Emitter.reachable_pair le_rfl hsender
  have hcall : decoder.addRepair budget (UInt32.ofNat (2 * 512)) 2 (UInt32.ofNat 512) (UInt32.ofNat (2 * 512)) coded
      (4096 * 1200) = (.err .rowCapacity, decoder, budget) := by
    rw [Decoder.addRepair, if_neg (by decide), if_neg (by rw [hfilled.maxSymbolBytes]; simpa using ⟨hne, hsize⟩),
      if_pos (by rw [hfilled.length, hfilled.maxRows])]
  have hreceive := receive_encodeRepair { lossyStart with decoder := decoder, budget := budget }
    ⟨false, false, 0, false, 0⟩ true hbytes hsize (lt_of_le_of_lt hsize (by decide)) le_rfl hcall
  rw [if_pos rfl] at hreceive
  have hreceived : lossyReceived (delivered ++ [bytes]) =
      Intake.receive { lossyStart with decoder := decoder, budget := budget } ⟨false, false, 0, false, 0⟩ true bytes := by
    rw [lossyReceived, List.foldl_append, ← lossyReceived, heq]
    rfl
  refine ⟨_, delivered ++ [bytes], hnext, ?_, ?_, ?_⟩
  · exact hsublist.append (((List.Sublist.refl [bytes]).cons _).cons _)
  · rw [hreceived]
    rw [heq] at hreceiver
    exact hreceiver.next (show Step _ (.receive _ _ _) _ from ⟨rfl, rfl⟩)
  · rw [hreceived, hreceive]

theorem unresolved_of_closed_lossy : ∃ i : Intake, Reachable (Initial lossyConfig) Step i ∧ i.closed = true ∧
    512 < i.decoder.unresolved.card := by
  obtain ⟨_, delivered, _, _, hreceiver, hclosed⟩ := exists_closed
  have hconfig : lossyConfig.validate 65536 = .ok () := by decide
  exact ⟨lossyReceived delivered, hreceiver, hclosed, unresolved_of_closed hconfig hreceiver hclosed⟩

/-- Loss alone closes a connection with an accepted configuration: the sender is honest, and what it sent is
delivered in order and at most once. -/
theorem closed_by_loss : lossyConfig.validate 65536 = .ok () ∧ ∃ (e : Emitter) (delivered : List (List UInt8)),
    Reachable Emitter.Initial Emitter.Step e ∧ e.maxSpan = lossyConfig.maxRepairSpan ∧
      delivered.Sublist e.emitted ∧ (lossyReceived delivered).closed = true := by
  obtain ⟨emitted, delivered, hsender, hsublist, _, hclosed⟩ := exists_closed
  exact ⟨by decide, lossyEmitter 513 emitted, delivered, hsender, rfl, hsublist, hclosed⟩

end Intake

end Quicp
