import Quicp.Library.BigEndian

/-!
# Ones' complement sums

Adding the carries of a sum back into it does not change its remainder modulo the largest word, and the fold ends with
the representative between one and that word, or with zero for an empty sum.
-/

namespace OnesComplement

/-- What the fold of a sum ends with; `top` is the largest word. -/
def residue (top sum : ℕ) : ℕ := if sum = 0 then 0 else (sum - 1) % top + 1

variable {top : ℕ}

theorem residue_of_le {sum : ℕ} (h : sum ≤ top) : residue top sum = sum := by
  unfold residue
  split_ifs with hzero
  · exact hzero.symm
  · rw [Nat.mod_eq_of_lt (by omega)]
    omega

theorem residue_le (htop : 0 < top) (sum : ℕ) : residue top sum ≤ top := by
  unfold residue
  split_ifs
  · exact Nat.zero_le _
  · exact Nat.mod_lt _ htop

theorem residue_carry (top sum : ℕ) : residue top (sum % (top + 1) + sum / (top + 1)) = residue top sum := by
  have hsum := Nat.mod_add_div sum (top + 1)
  rw [Nat.succ_mul] at hsum
  generalize sum % (top + 1) = low at hsum ⊢
  generalize sum / (top + 1) = carry at hsum ⊢
  unfold residue
  by_cases hzero : sum = 0
  · have hnone : low + carry = 0 := by omega
    rw [if_pos hnone, if_pos hzero]
  · have hpos : low + carry ≠ 0 := by
      intro hnone
      obtain rfl : carry = 0 := by omega
      omega
    have hsplit : sum - 1 = low + carry - 1 + top * carry := by omega
    rw [if_neg hpos, if_neg hzero, hsplit, Nat.add_mul_mod_self_left]

theorem residue_add_complement (htop : 0 < top) (sum : ℕ) : residue top (sum + (top - residue top sum)) = top := by
  by_cases hzero : sum = 0
  · rw [hzero, show residue top 0 = 0 from rfl, Nat.sub_zero, Nat.zero_add]
    exact residue_of_le le_rfl
  · have hmod := Nat.mod_add_div (sum - 1) top
    have hlt := Nat.mod_lt (sum - 1) htop
    have hcomplete : sum + (top - residue top sum) - 1 = top - 1 + top * ((sum - 1) / top) := by
      rw [residue, if_neg hzero]
      omega
    have hpos : sum + (top - residue top sum) ≠ 0 := by omega
    rw [residue, if_neg hpos, hcomplete, Nat.add_mul_mod_self_left, Nat.mod_eq_of_lt (by omega)]
    omega

/-- The sum of the two-byte words, most significant byte first; a last odd byte is a high byte. -/
def wordSum : List UInt8 → ℕ
  | high :: low :: rest => high.toNat * 256 + low.toNat + wordSum rest
  | [high] => high.toNat * 256
  | [] => 0

theorem wordSum_append {first : List UInt8} (h : Even first.length) (rest : List UInt8) :
    wordSum (first ++ rest) = wordSum first + wordSum rest := by
  induction first using wordSum.induct with
  | case1 high low first ih =>
    rw [List.cons_append, List.cons_append, wordSum, wordSum, ih (by simpa [Nat.even_add_one] using h), ← Nat.add_assoc]
  | case2 high => simp at h
  | case3 => rw [List.nil_append, wordSum, Nat.zero_add]

theorem wordSum_le (bytes : List UInt8) : wordSum bytes ≤ 65535 * ((bytes.length + 1) / 2) := by
  induction bytes using wordSum.induct with
  | case1 high low rest ih =>
    have hhigh := high.toNat_lt
    have hlow := low.toNat_lt
    rw [wordSum, List.length_cons, List.length_cons]
    omega
  | case2 high =>
    have hhigh := high.toNat_lt
    rw [wordSum, List.length_singleton]
    omega
  | case3 => exact Nat.zero_le _

theorem wordSum_encode {value : ℕ} (h : value < 65536) : wordSum (BigEndian.encode 2 value) = value := by
  rw [BigEndian.encode, BigEndian.encode, BigEndian.encode, wordSum, wordSum, UInt8.toNat_ofNat', UInt8.toNat_ofNat']
  omega

end OnesComplement
