import Quicp.Fec.Field
import Quicp.Library.Elimination
import Quicp.Library.PaddedVector
import Quicp.Recovery.Arithmetic

/-!
# Rows of the repair decoder

A pending repair is a row: an equation between the sources that are still missing and the bytes that are left of the
coded symbol.
-/

namespace Quicp

inductive FecError
  | invalidSpan
  | invalidSymbolSize
  | rowCapacity
  | memoryCapacity
  | workBudget
  | contradictoryRepair
  deriving DecidableEq, Repr

instance symbolOrder : LinearOrder UInt32 where
  le_refl _ := UInt32.le_refl _
  le_trans _ _ _ := UInt32.le_trans
  le_antisymm _ _ := UInt32.le_antisymm
  le_total := UInt32.le_total
  lt_iff_le_not_ge a b := by
    rw [UInt32.lt_iff_toNat_lt, UInt32.le_iff_toNat_le, UInt32.le_iff_toNat_le]
    omega
  toDecidableLE := inferInstance
  toDecidableEq := inferInstance
  toDecidableLT := inferInstance

structure Row where
  coefficients : List (UInt32 × Gf256)
  data : List Gf256
  deriving DecidableEq, Repr

def spend (work budget : ℕ) : Except FecError ℕ :=
  if saturatingAdd work 1 > budget then .error .workBudget else .ok (saturatingAdd work 1)

def spendMap {α β : Type} (f : α → β) (budget : ℕ) : List α → ℕ → Except FecError (List β × ℕ)
  | [], work => .ok ([], work)
  | item :: rest, work => do
    let work ← spend work budget
    let (rest, work) ← spendMap f budget rest work
    return (f item :: rest, work)

/-- A loop that spends for every item and adds it to what it has so far. -/
def spendFold {α β : Type} (f : β → α → β) (budget : ℕ) : List α → β → ℕ → Except FecError (β × ℕ)
  | [], state, work => .ok (state, work)
  | item :: rest, state, work => do
    let work ← spend work budget
    spendFold f budget rest (f state item) work

/-- A loop that spends for every byte that two symbols share and adds the multiple of the second. -/
def spendZip (factor : Gf256) (budget : ℕ) : List Gf256 → List Gf256 → ℕ → Except FecError (List Gf256 × ℕ)
  | first :: target, added :: source, work => do
    let work ← spend work budget
    let (target, work) ← spendZip factor budget target source work
    return ((first + added * factor) :: target, work)
  | target, _, work => .ok (target, work)

def xorScaled (target source : List Gf256) (factor : Gf256) (work budget : ℕ) :
    Except FecError (List Gf256 × ℕ) :=
  if source.length > target.length then .error .invalidSymbolSize
  else spendZip factor budget target source work

def scaleRow (row : Row) (factor : Gf256) (work budget : ℕ) : Except FecError (Row × ℕ) := do
  let (coefficients, work) ← spendMap (fun term => (term.1, term.2 * factor)) budget row.coefficients work
  let (data, work) ← spendMap (· * factor) budget row.data work
  return (⟨coefficients, data⟩, work)

/-- `subtract_row`; subtracting and adding are the same. -/
def subtractRow (target source : Row) (factor : Gf256) (work budget : ℕ) : Except FecError (Row × ℕ) := do
  let data := PaddedVector.grow source.data.length target.data
  let (coefficients, work) ← spendFold
    (fun terms term => SparseRow.addTerm term.1 (term.2 * factor) terms) budget source.coefficients
    target.coefficients work
  let (data, work) ← spendZip factor budget data source.data work
  return (⟨coefficients, data⟩, work)

def Row.leading (row : Row) : UInt32 := (row.coefficients.head?.map Prod.fst).getD 0

/-- The first of the rows with the least first identifier; rows without terms do not count. -/
def candidate (rows : List Row) : Option ℕ :=
  (List.argmin (fun entry => entry.1.leading)
    (rows.zipIdx.filter (fun entry => !entry.1.coefficients.isEmpty))).map Prod.snd

/-- The row that `swap` brings to the front, and the other rows after it. -/
def swapFront : List Row → ℕ → Option (Row × List Row)
  | [], _ => none
  | first :: rest, 0 => some (first, rest)
  | first :: rest, index + 1 => rest[index]?.map (fun row => (row, rest.set index first))

/-- The body of the loop over the other rows in `reduce`. -/
def clearRow (pivotId : UInt32) (source : Row) (budget : ℕ) (row : Row) (work : ℕ) :
    Except FecError (Row × ℕ) :=
  match row.coefficients.find? (fun term => term.1 == pivotId) with
  | none => .ok (row, work)
  | some (_, factor) => subtractRow row source factor work budget

/-- The loop over the other rows in `reduce`. -/
def clearRows (pivotId : UInt32) (source : Row) (budget : ℕ) : List Row → ℕ → Except FecError (List Row × ℕ)
  | [], work => .ok ([], work)
  | row :: rest, work => do
    let (row, work) ← clearRow pivotId source budget row work
    let (rest, work) ← clearRows pivotId source budget rest work
    return (row :: rest, work)

/-- The loop of `reduce` over the pivots, on the rows before the pivot index and those from it on. -/
def reduceLoop (budget : ℕ) : ℕ → List Row → List Row → ℕ → Except FecError (List Row × ℕ)
  | 0, done, rest, work => .ok (done ++ rest, work)
  | turns + 1, done, rest, work =>
    match (candidate rest).bind (swapFront rest) with
    | none => .ok (done ++ rest, work)
    | some (row, others) => do
      let (source, work) ← scaleRow row ((row.coefficients.head?.map Prod.snd).getD 0)⁻¹ work budget
      let (done, work) ← clearRows row.leading source budget done work
      let (others, work) ← clearRows row.leading source budget others work
      reduceLoop budget turns (done ++ [source]) others work

/-- The loop of `reduce` that collects the solved rows. -/
def collectRecovered : List Row → Except FecError (List (UInt32 × List Gf256))
  | [] => .ok []
  | row :: rest =>
    match row.coefficients with
    | [] => if row.data.any (· ≠ 0) then .error .contradictoryRepair else collectRecovered rest
    | [(id, coefficient)] => do
      let later ← collectRecovered rest
      return ((id, if coefficient ≠ 1 then row.data.map (· * coefficient⁻¹) else row.data) :: later)
    | _ => collectRecovered rest

/-- Two neighbours have one identifier and different bytes. -/
def hasConflict : List (UInt32 × List Gf256) → Bool
  | first :: second :: rest => (first.1 == second.1 && first.2 != second.2) || hasConflict (second :: rest)
  | _ => false

/-- `dedup_by_key` after an item with the given identifier. -/
def dedupAfter (id : UInt32) : List (UInt32 × List Gf256) → List (UInt32 × List Gf256)
  | [] => []
  | item :: rest => if item.1 = id then dedupAfter id rest else item :: dedupAfter item.1 rest

/-- `dedup_by_key`. -/
def dedupById : List (UInt32 × List Gf256) → List (UInt32 × List Gf256)
  | [] => []
  | item :: rest => item :: dedupAfter item.1 rest

/-- The end of `reduce`: the solved symbols in the order of their identifiers. -/
def sortRecovered (recovered : List (UInt32 × List Gf256)) :
    Except FecError (List (UInt32 × List Gf256)) :=
  let sorted := recovered.insertionSort (fun item later => item.1 ≤ later.1)
  if hasConflict sorted then .error .contradictoryRepair else .ok (dedupById sorted)

/-- `reduce`: the reduced rows and the solved symbols. -/
def reduce (rows : List Row) (budget : ℕ) : Except FecError (List Row × List (UInt32 × List Gf256)) := do
  let (rows, _) ← reduceLoop budget rows.length [] rows 0
  let recovered ← collectRecovered rows
  let recovered ← sortRecovered recovered
  return (rows, recovered)

end Quicp
