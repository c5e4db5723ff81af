import Mathlib

/-!
# Big-endian byte strings

Fixed-width encodings of natural numbers, most significant byte first, and the fold that
reads them back on top of what was read before.
-/

namespace BigEndian

/-- The low `width` bytes of a value, most significant first. -/
def encode : ℕ → ℕ → List UInt8
  | 0, _ => []
  | width + 1, value => UInt8.ofNat (value / 256 ^ width) :: encode width value

def decodeFrom (value : ℕ) (bytes : List UInt8) : ℕ :=
  bytes.foldl (fun value byte => value * 256 + byte.toNat) value

@[simp] theorem encode_length (width value : ℕ) : (encode width value).length = width := by
  induction width with
  | zero => rfl
  | succ width ih => rw [encode, List.length_cons, ih]

theorem decodeFrom_encode (width value high : ℕ) :
    decodeFrom high (encode width value) = high * 256 ^ width + value % 256 ^ width := by
  induction width generalizing high with
  | zero => simp [encode, decodeFrom, Nat.mod_one]
  | succ width ih =>
    have hstep : decodeFrom high (encode (width + 1) value) =
        decodeFrom (high * 256 + (UInt8.ofNat (value / 256 ^ width)).toNat) (encode width value) := rfl
    have hbyte : (UInt8.ofNat (value / 256 ^ width)).toNat = value / 256 ^ width % 256 := rfl
    rw [hstep, ih, hbyte, Nat.mod_pow_succ]
    ring

theorem decodeFrom_div (high : ℕ) (bytes : List UInt8) : decodeFrom high bytes / 256 ^ bytes.length = high := by
  induction bytes generalizing high with
  | nil => simp [decodeFrom]
  | cons byte rest ih =>
    have hbyte := byte.toNat_lt
    have hrest : decodeFrom high (byte :: rest) / 256 ^ rest.length = high * 256 + byte.toNat := ih _
    rw [List.length_cons, pow_succ, ← Nat.div_div_eq_div_mul, hrest]
    omega

theorem encode_decodeFrom (high : ℕ) (bytes : List UInt8) :
    encode bytes.length (decodeFrom high bytes) = bytes := by
  induction bytes generalizing high with
  | nil => rfl
  | cons byte rest ih =>
    have hhigh : decodeFrom high (byte :: rest) / 256 ^ rest.length = high * 256 + byte.toNat :=
      decodeFrom_div (high * 256 + byte.toNat) rest
    have hbyte : UInt8.ofNat (high * 256 + byte.toNat) = byte := by
      have hlt := byte.toNat_lt
      refine UInt8.toNat_inj.mp ?_
      rw [UInt8.toNat_ofNat']
      omega
    rw [List.length_cons, encode, hhigh, hbyte]
    exact congrArg (byte :: ·) (ih _)

theorem decodeFrom_lt (high : ℕ) (bytes : List UInt8) :
    decodeFrom high bytes < (high + 1) * 256 ^ bytes.length := by
  have hpos : 0 < 256 ^ bytes.length := Nat.pow_pos (by decide)
  exact (Nat.div_lt_iff_lt_mul hpos).mp (by rw [decodeFrom_div]; exact Nat.lt_succ_self _)

theorem decodeFrom_add (high more : ℕ) (bytes : List UInt8) :
    decodeFrom (high + more) bytes = decodeFrom high bytes + more * 256 ^ bytes.length := by
  induction bytes generalizing high more with
  | nil => simp [decodeFrom]
  | cons byte rest ih =>
    have hstep : decodeFrom (high + more) (byte :: rest) =
        decodeFrom (high * 256 + byte.toNat + more * 256) rest := by
      rw [add_right_comm, ← add_mul]
      rfl
    rw [hstep, ih, List.length_cons, pow_succ']
    show decodeFrom (high * 256 + byte.toNat) rest + _ = decodeFrom (high * 256 + byte.toNat) rest + _
    ring

end BigEndian
