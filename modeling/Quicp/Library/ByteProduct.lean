import Mathlib

/-!
# Products of bytes as binary polynomials

A byte is a polynomial over the field of two elements, and its sum with another is their exclusive or. The product of
two bytes is reduced by x⁸ + x⁴ + x³ + x² + 1 after every shift.
-/

namespace ByteProduct

def pick (mask value a : UInt8) : UInt8 := if a &&& mask ≠ 0 then value else 0

def double (a : UInt8) : UInt8 := a <<< 1 ^^^ pick 0x80 0x1d a

/-- The product with the polynomial of the low bits of the second byte. -/
@[grind =] def lowProduct : ℕ → UInt8 → UInt8 → UInt8
  | 0, _, _ => 0
  | bits + 1, a, b => pick 1 a b ^^^ lowProduct bits (double a) (b >>> 1)

def product (a b : UInt8) : UInt8 := lowProduct 8 a b

def power (i : Fin 8) : UInt8 := 1 <<< UInt8.ofNat i

def square (a : UInt8) : UInt8 := product a a

/-- The product of the given number of repeated squares of a byte. -/
@[grind =] def squares : ℕ → UInt8 → UInt8
  | 0, _ => 1
  | count + 1, a => product (square a) (squares count (square a))

/-- The power 254 of a byte: the squares up to its power 128. -/
def inverse (a : UInt8) : UInt8 := squares 7 a

private theorem xor_and (a b mask : UInt8) : (a ^^^ b) &&& mask = (a &&& mask) ^^^ (b &&& mask) := by
  apply UInt8.toBitVec_inj.mp
  ext i hi
  simp [Bool.and_xor_distrib_right]

private theorem pick_xor {mask : UInt8} (value a b : UInt8)
    (hmask : ∀ c, c &&& mask = 0 ∨ c &&& mask = mask) :
    pick mask value (a ^^^ b) = pick mask value a ^^^ pick mask value b := by
  unfold pick
  rw [xor_and]
  rcases hmask a with ha | ha <;> rcases hmask b with hb | hb <;> by_cases hzero : mask = 0 <;>
    simp [ha, hb, hzero]

private theorem pick_value_xor (mask value value' a : UInt8) :
    pick mask (value ^^^ value') a = pick mask value a ^^^ pick mask value' a := by
  unfold pick
  split_ifs <;> simp

private theorem and_bit (c mask : UInt8) {i : ℕ} (hmask : mask.toNat = 2 ^ i) : c &&& mask = 0 ∨ c &&& mask = mask := by
  have hand : (c &&& mask).toNat = (c.toNat.testBit i).toNat * 2 ^ i := by
    rw [UInt8.toNat_and, hmask, Nat.and_two_pow]
  cases hbit : c.toNat.testBit i with
  | false =>
    rw [hbit, Bool.toNat_false, Nat.zero_mul] at hand
    exact Or.inl (UInt8.toNat_inj.mp hand)
  | true =>
    rw [hbit, Bool.toNat_true, Nat.one_mul, ← hmask] at hand
    exact Or.inr (UInt8.toNat_inj.mp hand)

private theorem low_bit (c : UInt8) : c &&& 1 = 0 ∨ c &&& 1 = 1 := and_bit c 1 (show (1 : UInt8).toNat = 2 ^ 0 from rfl)

private theorem high_bit (c : UInt8) : c &&& 0x80 = 0 ∨ c &&& 0x80 = 0x80 :=
  and_bit c 0x80 (show (0x80 : UInt8).toNat = 2 ^ 7 from rfl)

private theorem xor_xor_xor_comm (a b c d : UInt8) : (a ^^^ b) ^^^ (c ^^^ d) = (a ^^^ c) ^^^ (b ^^^ d) := by
  rw [UInt8.xor_assoc, ← UInt8.xor_assoc b, UInt8.xor_comm b, UInt8.xor_assoc c, ← UInt8.xor_assoc]

theorem double_xor (a b : UInt8) : double (a ^^^ b) = double a ^^^ double b := by
  unfold double
  rw [UInt8.shiftLeft_xor, pick_xor _ _ _ high_bit, xor_xor_xor_comm]

theorem lowProduct_xor_left (bits : ℕ) (a a' b : UInt8) :
    lowProduct bits (a ^^^ a') b = lowProduct bits a b ^^^ lowProduct bits a' b := by
  induction bits generalizing a a' b with
  | zero => simp [lowProduct]
  | succ bits ih =>
    simp only [lowProduct]
    rw [pick_value_xor, double_xor, ih, xor_xor_xor_comm]

theorem lowProduct_xor_right (bits : ℕ) (a b b' : UInt8) :
    lowProduct bits a (b ^^^ b') = lowProduct bits a b ^^^ lowProduct bits a b' := by
  induction bits generalizing a b b' with
  | zero => simp [lowProduct]
  | succ bits ih =>
    simp only [lowProduct]
    rw [pick_xor _ _ _ low_bit, UInt8.shiftRight_xor, ih, xor_xor_xor_comm]

theorem product_xor_left (a a' b : UInt8) : product (a ^^^ a') b = product a b ^^^ product a' b :=
  lowProduct_xor_left 8 a a' b

theorem product_xor_right (a b b' : UInt8) : product a (b ^^^ b') = product a b ^^^ product a b' :=
  lowProduct_xor_right 8 a b b'

theorem lowProduct_zero (bits : ℕ) (a : UInt8) : lowProduct bits a 0 = 0 := by
  have h := lowProduct_xor_right bits a 0 0
  rwa [UInt8.xor_self, UInt8.xor_self] at h

@[simp] theorem product_zero (a : UInt8) : product a 0 = 0 := lowProduct_zero 8 a

@[simp] theorem zero_product (b : UInt8) : product 0 b = 0 := by
  have h := product_xor_left 0 0 b
  rwa [UInt8.xor_self, UInt8.xor_self] at h

private theorem toNat_power (i : Fin 8) : (power i).toNat = 2 ^ i.val := by
  revert i
  decide

private theorem xor_power_lt {a : UInt8} {i : Fin 8} (h : a.toNat < 2 ^ (i.val + 1)) (hle : 2 ^ i.val ≤ a.toNat) :
    (a ^^^ power i).toNat < 2 ^ i.val := by
  rw [UInt8.toNat_xor, toNat_power]
  refine Nat.lt_pow_two_of_testBit _ fun j hj => ?_
  rw [Nat.testBit_xor, Nat.testBit_two_pow]
  obtain rfl | hlt := Nat.eq_or_lt_of_le hj
  · rw [Nat.testBit_of_two_pow_le_and_two_pow_add_one_gt hle h]
    simp
  · rw [Nat.testBit_lt_two_pow (h.trans_le (Nat.pow_le_pow_right (by decide) hlt)), decide_eq_false (Nat.ne_of_lt hlt)]
    rfl

theorem xor_induction {P : UInt8 → Prop} (hzero : P 0) (hpower : ∀ i, P (power i))
    (hxor : ∀ a b, P a → P b → P (a ^^^ b)) (a : UInt8) : P a := by
  have hbits : ∀ bits ≤ 8, ∀ a : UInt8, a.toNat < 2 ^ bits → P a := by
    intro bits
    induction bits with
    | zero =>
      intro _ a ha
      obtain rfl : a = 0 := UInt8.toNat_inj.mp (Nat.lt_one_iff.mp ha)
      exact hzero
    | succ bits ih =>
      intro hle a ha
      by_cases hlow : a.toNat < 2 ^ bits
      · exact ih (Nat.le_of_succ_le hle) a hlow
      · have hrest := ih (Nat.le_of_succ_le hle) _ (xor_power_lt (i := ⟨bits, hle⟩) ha (not_lt.mp hlow))
        have hsum := hxor _ _ hrest (hpower ⟨bits, hle⟩)
        rwa [UInt8.xor_assoc, UInt8.xor_self, UInt8.xor_zero] at hsum
  exact hbits 8 le_rfl a a.toNat_lt

theorem double_product (a b : UInt8) : product (double a) b = double (product a b) := by
  have hzero : double 0 = 0 := by decide
  have hlow : ∀ (bits : ℕ) (a b : UInt8), lowProduct bits (double a) b = double (lowProduct bits a b) := by
    intro bits
    induction bits with
    | zero => exact fun _ _ => hzero.symm
    | succ bits ih =>
      intro a b
      have hpick : pick 1 (double a) b = double (pick 1 a b) := by
        unfold pick
        split_ifs
        · rfl
        · exact hzero.symm
      rw [lowProduct, lowProduct, double_xor, ih, hpick]
  exact hlow 8 a b

private theorem power_eq_double (i : Fin 8) : power i = double^[i] 1 := by
  revert i
  decide

private theorem iterate_double_product (count : ℕ) (a b : UInt8) :
    product (double^[count] a) b = double^[count] (product a b) := by
  induction count generalizing a with
  | zero => rfl
  | succ count ih => rw [Function.iterate_succ_apply, ih, double_product, ← Function.iterate_succ_apply]

theorem one_product (a : UInt8) : product 1 a = a := by
  induction a using xor_induction with
  | hzero => exact product_zero 1
  | hxor a b ha hb => rw [product_xor_right, ha, hb]
  | hpower i =>
    revert i
    decide +kernel

theorem product_comm (a b : UInt8) : product a b = product b a := by
  induction a using xor_induction with
  | hzero => simp
  | hxor a a' ha ha' => rw [product_xor_left, product_xor_right, ha, ha']
  | hpower i =>
    induction b using xor_induction with
    | hzero => simp
    | hxor b b' hb hb' => rw [product_xor_left, product_xor_right, hb, hb']
    | hpower j =>
      calc product (power i) (power j) = double^[i] (double^[j] 1) := by
            rw [power_eq_double i, iterate_double_product, one_product, power_eq_double]
        _ = double^[j] (double^[i] 1) := by
            rw [← Function.iterate_add_apply, ← Function.iterate_add_apply, Nat.add_comm]
        _ = product (power j) (power i) := by
            rw [power_eq_double j, iterate_double_product, one_product, power_eq_double]

theorem product_assoc (a b c : UInt8) : product (product a b) c = product a (product b c) := by
  induction a using xor_induction with
  | hzero => simp
  | hxor a a' ha ha' => simp only [product_xor_left, ha, ha']
  | hpower i =>
    rw [power_eq_double, iterate_double_product, iterate_double_product, iterate_double_product, one_product, one_product]

theorem product_one (a : UInt8) : product a 1 = a := by rw [product_comm, one_product]

private theorem product_product_product_comm (a b c d : UInt8) :
    product (product a b) (product c d) = product (product a c) (product b d) := by
  rw [product_assoc, ← product_assoc b, product_comm b, product_assoc c, ← product_assoc]

private theorem square_xor (a b : UInt8) : square (a ^^^ b) = square a ^^^ square b := by
  have hcross : product a b ^^^ product b a = 0 := by rw [product_comm b, UInt8.xor_self]
  calc square (a ^^^ b) = (product a a ^^^ product a b) ^^^ (product b a ^^^ product b b) := by
        rw [square, product_xor_left, product_xor_right, product_xor_right]
    _ = square a ^^^ (product a b ^^^ product b a) ^^^ square b := by
        simp only [square, UInt8.xor_assoc]
    _ = square a ^^^ square b := by rw [hcross, UInt8.xor_zero]

private theorem square_product (a b : UInt8) : square (product a b) = product (square a) (square b) :=
  product_product_product_comm a b a b

private theorem square_iterate_eight (a : UInt8) : square^[8] a = a := by
  have hxor : ∀ (count : ℕ) (a b : UInt8), square^[count] (a ^^^ b) = square^[count] a ^^^ square^[count] b := by
    intro count
    induction count with
    | zero => exact fun _ _ => rfl
    | succ count ih =>
      intro a b
      rw [Function.iterate_succ_apply, square_xor, ih, Function.iterate_succ_apply, Function.iterate_succ_apply]
  induction a using xor_induction with
  | hzero => decide +kernel
  | hxor a b ha hb => rw [hxor, ha, hb]
  | hpower i =>
    revert i
    decide +kernel

private theorem square_squares (count : ℕ) (a : UInt8) : square (squares count a) = squares count (square a) := by
  induction count generalizing a with
  | zero => exact product_one 1
  | succ count ih => rw [squares, square_product, ih, ← squares]

private theorem squares_succ (count : ℕ) (a : UInt8) :
    squares (count + 1) a = product (squares count a) (square^[count + 1] a) := by
  induction count generalizing a with
  | zero => rw [squares, squares, squares, product_one, one_product, Function.iterate_one]
  | succ count ih =>
    rw [squares, ih, ← product_assoc, ← squares, Function.iterate_succ_apply square (count + 1)]

private theorem product_product_squares (count : ℕ) (a : UInt8) :
    product a (product a (squares count a)) = square^[count + 1] a := by
  induction count generalizing a with
  | zero => rw [squares, product_one, Function.iterate_one, square]
  | succ count ih => rw [squares, ← product_assoc, ← square, ih, ← Function.iterate_succ_apply]

/-- The sum of the given number of repeated squares of a byte. -/
@[grind =] private def squareSum : ℕ → UInt8 → UInt8
  | 0, _ => 0
  | count + 1, a => a ^^^ squareSum count (square a)

private theorem squareSum_xor (count : ℕ) (a b : UInt8) :
    squareSum count (a ^^^ b) = squareSum count a ^^^ squareSum count b := by
  induction count generalizing a b with
  | zero => exact UInt8.xor_self.symm
  | succ count ih => rw [squareSum, square_xor, ih, xor_xor_xor_comm, ← squareSum, ← squareSum]

private theorem squareSum_eight (a : UInt8) : squareSum 8 a = 0 ∨ squareSum 8 a = 1 := by
  induction a using xor_induction with
  | hzero => exact Or.inl (by decide +kernel)
  | hxor a b ha hb =>
    rw [squareSum_xor]
    rcases ha with ha | ha <;> rcases hb with hb | hb <;> rw [ha, hb] <;> decide
  | hpower i =>
    revert i
    decide +kernel

private theorem squareSum_product {a : UInt8} (h : square a = a) (count : ℕ) (b : UInt8) :
    squareSum count (product a b) = product a (squareSum count b) := by
  induction count generalizing b with
  | zero => exact (product_zero a).symm
  | succ count ih => rw [squareSum, square_product, h, ih, ← product_xor_right, ← squareSum]

private theorem eq_zero_or_one {a : UInt8} (h : square a = a) : a = 0 ∨ a = 1 := by
  have htrace : squareSum 8 0x20 = 1 := by decide +kernel
  have hproduct := squareSum_product h 8 0x20
  rw [htrace, product_one] at hproduct
  rw [← hproduct]
  exact squareSum_eight _

theorem product_inverse {a : UInt8} (hne : a ≠ 0) : product a (inverse a) = 1 := by
  have hlast : squares 8 a = product a (inverse a) := by
    rw [squares_succ, square_iterate_eight, product_comm, inverse]
  have hidempotent : square (product a (inverse a)) = product a (inverse a) := by
    rw [square_product, inverse, square_squares, ← squares, hlast, inverse]
  rcases eq_zero_or_one hidempotent with hzero | hone
  · have hpower := product_product_squares 7 a
    rw [← inverse, hzero, product_zero, square_iterate_eight] at hpower
    exact absurd hpower.symm hne
  · exact hone

theorem inverse_zero : inverse 0 = 0 := by
  rw [inverse, squares, square, product_zero, zero_product]

end ByteProduct
