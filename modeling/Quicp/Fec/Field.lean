import Quicp.Library.ByteProduct

/-!
# Coding arithmetic

Symbols are combined byte by byte in the field of 256 elements. Adding is the exclusive or
and multiplying is the shift-and-reduce loop of the source; both loops end after eight
turns because they drop a bit of a byte in every turn.
-/

namespace Quicp

def reduction : UInt8 := 0x1d

/-- The loop of `multiply`. -/
def multiplyLoop : ℕ → UInt8 → UInt8 → UInt8 → UInt8
  | 0, output, _, _ => output
  | turns + 1, output, left, right =>
    if right = 0 then output
    else
      multiplyLoop turns (if right &&& 1 ≠ 0 then output ^^^ left else output)
        (if left &&& 0x80 ≠ 0 then left <<< 1 ^^^ reduction else left <<< 1) (right >>> 1)

def multiply (left right : UInt8) : UInt8 := multiplyLoop 8 0 left right

/-- The loop of `inverse`. -/
def inverseLoop : ℕ → UInt8 → UInt8 → UInt8 → UInt8
  | 0, _, _, output => output
  | turns + 1, base, exponent, output =>
    if exponent = 0 then output
    else
      inverseLoop turns (multiply base base) (exponent >>> 1)
        (if exponent &&& 1 ≠ 0 then multiply output base else output)

def inverse (value : UInt8) : UInt8 := inverseLoop 8 value 254 1

/-- `coefficient`: the mixed identifiers choose a byte other than zero. -/
def coefficient (seed repairId symbolId : UInt32) : UInt8 :=
  let value := seed ^^^ repairId * 0x9e3779b9 ^^^ symbolId * 0x85ebca6b
  let value := value ^^^ value >>> 16
  let value := value * 0x7feb352d
  let value := value ^^^ value >>> 15
  let value := value * 0x846ca68b
  let value := value ^^^ value >>> 16
  if value.toUInt8 = 0 then 1 else value.toUInt8

private theorem multiplyLoop_eq (turns : ℕ) (output left right : UInt8) :
    multiplyLoop turns output left right = output ^^^ ByteProduct.lowProduct turns left right := by
  induction turns generalizing output left right with
  | zero => simp [multiplyLoop, ByteProduct.lowProduct]
  | succ turns ih =>
    have hdouble : (if left &&& 0x80 ≠ 0 then left <<< 1 ^^^ reduction else left <<< 1) =
        ByteProduct.double left := by
      unfold ByteProduct.double ByteProduct.pick reduction
      split_ifs <;> simp
    have hpick : (if right &&& 1 ≠ 0 then output ^^^ left else output) =
        output ^^^ ByteProduct.pick 1 left right := by
      unfold ByteProduct.pick
      split_ifs <;> simp
    rw [multiplyLoop]
    by_cases hright : right = 0
    · rw [if_pos hright, hright, ByteProduct.lowProduct_zero, UInt8.xor_zero]
    · rw [if_neg hright, hdouble, hpick, ih, UInt8.xor_assoc, ← ByteProduct.lowProduct]

theorem multiply_eq_product (left right : UInt8) : multiply left right = ByteProduct.product left right := by
  rw [multiply, multiplyLoop_eq, UInt8.zero_xor, ByteProduct.product]

private theorem inverseLoop_ones {turns : ℕ} (hturns : turns ≤ 7) (value output : UInt8) :
    inverseLoop turns (ByteProduct.square value) (UInt8.ofNat (2 ^ turns - 1)) output =
      ByteProduct.product output (ByteProduct.squares turns value) := by
  induction turns generalizing value output with
  | zero => rw [inverseLoop, ByteProduct.squares, ByteProduct.product_one]
  | succ turns ih =>
    have hbits : ∀ turns : Fin 7, UInt8.ofNat (2 ^ (turns.val + 1) - 1) ≠ 0 ∧
        UInt8.ofNat (2 ^ (turns.val + 1) - 1) &&& 1 ≠ 0 ∧
        UInt8.ofNat (2 ^ (turns.val + 1) - 1) >>> 1 = UInt8.ofNat (2 ^ turns.val - 1) := by decide
    obtain ⟨hne, hodd, hshift⟩ := hbits ⟨turns, hturns⟩
    rw [inverseLoop, if_neg hne, if_pos hodd, hshift, multiply_eq_product, multiply_eq_product,
      ← ByteProduct.square, ih (Nat.le_of_succ_le hturns), ByteProduct.product_assoc, ← ByteProduct.squares]

theorem inverse_eq (value : UInt8) : inverse value = ByteProduct.inverse value := by
  have hones : (254 : UInt8) >>> 1 = UInt8.ofNat (2 ^ 7 - 1) := by decide
  rw [inverse, inverseLoop, if_neg (by decide), if_neg (by decide), hones, multiply_eq_product,
    ← ByteProduct.square, inverseLoop_ones le_rfl, ByteProduct.one_product, ByteProduct.inverse]

theorem coefficient_ne_zero (seed repairId symbolId : UInt32) : coefficient seed repairId symbolId ≠ 0 := by
  unfold coefficient
  dsimp only
  split_ifs with hzero
  · decide
  · exact hzero

/-- A byte of a symbol or a coefficient, with the arithmetic of the source. -/
@[ext] structure Gf256 where
  byte : UInt8
  deriving DecidableEq, Repr

namespace Gf256

section Operations

local instance : Zero Gf256 := ⟨⟨0⟩⟩

local instance : One Gf256 := ⟨⟨1⟩⟩

local instance : Add Gf256 := ⟨fun left right => ⟨left.byte ^^^ right.byte⟩⟩

local instance : Neg Gf256 := ⟨id⟩

local instance : Mul Gf256 := ⟨fun left right => ⟨multiply left.byte right.byte⟩⟩

local instance : Inv Gf256 := ⟨fun value => ⟨inverse value.byte⟩⟩

instance : Field Gf256 :=
  Field.ofMinimalAxioms Gf256
    (fun a b c => Gf256.ext (UInt8.xor_assoc a.byte b.byte c.byte))
    (fun a => Gf256.ext UInt8.zero_xor)
    (fun a => Gf256.ext UInt8.xor_self)
    (fun a b c => Gf256.ext (by
      simp only [HMul.hMul, Mul.mul, multiply_eq_product]
      exact ByteProduct.product_assoc a.byte b.byte c.byte))
    (fun a b => Gf256.ext (by
      simp only [HMul.hMul, Mul.mul, multiply_eq_product]
      exact ByteProduct.product_comm a.byte b.byte))
    (fun a => Gf256.ext ((multiply_eq_product 1 a.byte).trans (ByteProduct.one_product a.byte)))
    (fun a hne => Gf256.ext (by
      have hbyte : a.byte ≠ 0 := fun hzero => hne (Gf256.ext hzero)
      simp only [HMul.hMul, Mul.mul, Inv.inv, multiply_eq_product, inverse_eq]
      exact ByteProduct.product_inverse hbyte))
    (Gf256.ext ((inverse_eq 0).trans ByteProduct.inverse_zero))
    (fun a b c => Gf256.ext (by
      simp only [HMul.hMul, Mul.mul, HAdd.hAdd, Add.add, multiply_eq_product]
      exact ByteProduct.product_xor_right a.byte b.byte c.byte))
    ⟨0, 1, fun h => absurd (congrArg Gf256.byte h) (by decide)⟩

end Operations

theorem byte_zero : (0 : Gf256).byte = 0 := rfl

theorem add_self (a : Gf256) : a + a = 0 := Gf256.ext UInt8.xor_self

theorem sub_eq_add (a b : Gf256) : a - b = a + b := sub_eq_add_neg a b

def ofBytes (bytes : List UInt8) : List Gf256 := bytes.map Gf256.mk

def toBytes (data : List Gf256) : List UInt8 := data.map Gf256.byte

end Gf256

end Quicp
