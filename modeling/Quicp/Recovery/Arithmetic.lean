import Mathlib

/-!
# Machine integers and logical ranges

Offsets are `u64` and lengths are `usize` on a 64-bit target. Both are natural numbers here, with every checked or
saturating operation written out against the word limit.
-/

namespace Quicp

/-- The largest `u64`, which is also the largest `usize` of the target. -/
def wordMax : ℕ := 2 ^ 64 - 1

/-- The largest `u32`. -/
def u32Max : ℕ := 2 ^ 32 - 1

/-- `MAX_WIRE_OFFSET`: the largest logical offset the wire can carry. -/
def maxWireOffset : ℕ := 2 ^ 62 - 1

/-- `checked_add` on a 64-bit word. -/
def checkedAdd (left right : ℕ) : Option ℕ :=
  if left + right ≤ wordMax then some (left + right) else none

/-- `checked_mul` on a 64-bit word. -/
def checkedMul (left right : ℕ) : Option ℕ :=
  if left * right ≤ wordMax then some (left * right) else none

/-- `saturating_add` on a 64-bit word. -/
def saturatingAdd (left right : ℕ) : ℕ := min (left + right) wordMax

/-- `saturating_mul` on a 64-bit word. -/
def saturatingMul (left right : ℕ) : ℕ := min (left * right) wordMax

/-- `div_ceil` on positive divisors. -/
def divCeil (value divisor : ℕ) : ℕ := (value + divisor - 1) / divisor

/-- `RecoveryError`: the bounded logical ACK, replay and reassembly errors. -/
inductive RecoveryError
  | offsetOverflow
  | invalidRange
  | rangeCapacity
  | flowControl
  | capacity
  | contradictoryOverlap
  | finalOffset
  deriving DecidableEq, Repr

/-- The result of a call that may also fail an `expect` and panic. -/
inductive Outcome (ε α : Type)
  | ok (value : α)
  | err (error : ε)
  | panicked
  deriving DecidableEq, Repr

inductive Poll (α : Type)
  | pending
  | ready (value : α)
  deriving DecidableEq, Repr

/-- `Range<u64>`: the logical offsets from `start` up to but not including `stop`. -/
structure Range where
  start : ℕ
  stop : ℕ
  deriving DecidableEq, Repr

def Range.Contains (range : Range) (i : ℕ) : Prop := range.start ≤ i ∧ i < range.stop

/-- `checked_end`: the offset just past a record, if the wire can carry it. -/
def checkedEnd (offset length : ℕ) : Except RecoveryError ℕ :=
  match (checkedAdd offset length).filter (fun stop => decide (stop ≤ maxWireOffset)) with
  | some stop => .ok stop
  | none => .error .offsetOverflow

/-- `validate_range`: a nonempty range within the logical offset space. -/
def validateRange (range : Range) : Except RecoveryError Unit :=
  if range.start ≥ range.stop ∨ range.stop > maxWireOffset then .error .invalidRange else .ok ()

theorem checkedAdd_eq_some {left right sum : ℕ} (h : checkedAdd left right = some sum) : sum = left + right := by
  unfold checkedAdd at h
  split_ifs at h
  exact (Option.some.inj h).symm

theorem checkedEnd_of_le {offset length : ℕ} (h : offset + length ≤ maxWireOffset) :
    checkedEnd offset length = .ok (offset + length) := by
  have hword : offset + length ≤ wordMax := h.trans (by decide)
  simp [checkedEnd, checkedAdd, hword, Option.filter_some, h]

theorem checkedEnd_of_lt {offset length : ℕ} (h : maxWireOffset < offset + length) :
    checkedEnd offset length = .error .offsetOverflow := by
  have hnot : ¬offset + length ≤ maxWireOffset := by omega
  by_cases hword : offset + length ≤ wordMax <;>
    simp [checkedEnd, checkedAdd, hword, Option.filter_some, hnot]

theorem checkedEnd_eq_ok {offset length stop : ℕ} (h : checkedEnd offset length = .ok stop) :
    stop = offset + length ∧ offset + length ≤ maxWireOffset := by
  by_cases hle : offset + length ≤ maxWireOffset
  · rw [checkedEnd_of_le hle] at h
    exact ⟨(Except.ok.inj h).symm, hle⟩
  · rw [checkedEnd_of_lt (by omega)] at h
    cases h

theorem validateRange_eq_ok {range : Range} :
    validateRange range = .ok () ↔ range.start < range.stop ∧ range.stop ≤ maxWireOffset := by
  unfold validateRange
  split_ifs with h
  · simp only [false_iff]
    omega
  · simp only [true_iff]
    omega

end Quicp
