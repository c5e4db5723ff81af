import Mathlib

/-!
# Hexadecimal text

Fixed-width hexadecimal numbers, most significant digit first, and the fold that reads digits back as
long as the number stays below a limit.
-/

namespace Hexadecimal

def digit (value : ℕ) : Char :=
  if value < 10 then Char.ofNat ('0'.toNat + value) else Char.ofNat ('A'.toNat + (value - 10))

def digitValue (digit : Char) : Option ℕ :=
  if '0' ≤ digit ∧ digit ≤ '9' then some (digit.toNat - '0'.toNat)
  else if 'a' ≤ digit ∧ digit ≤ 'f' then some (digit.toNat - 'a'.toNat + 10)
  else if 'A' ≤ digit ∧ digit ≤ 'F' then some (digit.toNat - 'A'.toNat + 10)
  else none

def encode : ℕ → ℕ → List Char
  | 0, _ => []
  | width + 1, value => digit (value / 16 ^ width % 16) :: encode width value

/-- Shift the digits into a value that stays below the limit. -/
def decodeFrom (limit : ℕ) : ℕ → List Char → Option ℕ
  | value, [] => some value
  | value, digit :: rest => do
    let low ← digitValue digit
    if value * 16 + low < limit then decodeFrom limit (value * 16 + low) rest else none

theorem digitValue_digit {value : ℕ} (h : value < 16) : digitValue (digit value) = some value := by
  have hall : ∀ value : Fin 16, digitValue (digit value) = some value.val := by decide
  exact hall ⟨value, h⟩

theorem toNat_digit {value : ℕ} (h : value < 16) : 48 ≤ (digit value).toNat ∧ (digit value).toNat ≤ 70 := by
  have hall : ∀ value : Fin 16, 48 ≤ (digit value).toNat ∧ (digit value).toNat ≤ 70 := by decide
  exact hall ⟨value, h⟩

@[simp] theorem length_encode (width value : ℕ) : (encode width value).length = width := by
  induction width with
  | zero => rfl
  | succ width ih => rw [encode, List.length_cons, ih]

theorem toNat_of_mem_encode {width value : ℕ} {letter : Char} (h : letter ∈ encode width value) :
    48 ≤ letter.toNat ∧ letter.toNat ≤ 70 := by
  induction width with
  | zero => cases h
  | succ width ih =>
    rcases List.mem_cons.mp h with rfl | h
    · exact toNat_digit (Nat.mod_lt _ (by decide))
    · exact ih h

theorem decodeFrom_encode {limit width value high : ℕ} (h : (high + 1) * 16 ^ width ≤ limit) :
    decodeFrom limit high (encode width value) = some (high * 16 ^ width + value % 16 ^ width) := by
  induction width generalizing high with
  | zero => simp [encode, decodeFrom, Nat.mod_one]
  | succ width ih =>
    have hdigit : value / 16 ^ width % 16 < 16 := Nat.mod_lt _ (by decide)
    have hroom : (high * 16 + value / 16 ^ width % 16 + 1) * 16 ^ width ≤ limit := by
      refine le_trans ?_ h
      rw [pow_succ', ← Nat.mul_assoc]
      exact Nat.mul_le_mul_right _ (by omega)
    have hbelow : high * 16 + value / 16 ^ width % 16 < limit := by
      refine lt_of_lt_of_le (Nat.lt_succ_self _) (le_trans ?_ hroom)
      exact Nat.le_mul_of_pos_right _ (Nat.pow_pos (by decide))
    have hstep : decodeFrom limit high (encode (width + 1) value) =
        decodeFrom limit (high * 16 + value / 16 ^ width % 16) (encode width value) := by
      rw [encode, decodeFrom, digitValue_digit hdigit]
      exact if_pos hbelow
    rw [hstep, ih hroom, Nat.mod_pow_succ]
    congr 1
    ring

end Hexadecimal
