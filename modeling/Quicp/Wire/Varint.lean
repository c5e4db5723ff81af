import Quicp.Library.BigEndian
import Quicp.Library.Reader
import Quicp.Recovery.Arithmetic

/-!
# Variable-length integers

The two high bits of the first byte give the length of a varint; the decoder accepts only the shortest form.
-/

namespace Quicp

inductive CodecError
  | truncated
  | nonCanonical
  | invalidField
  | unknownType
  | trailingBytes
  | limit
  deriving DecidableEq, Repr

/-- `encode_varint` of a `u64`. -/
def encodeVarint (value : ℕ) : List UInt8 :=
  if value ≤ 63 then BigEndian.encode 1 value
  else if value ≤ 16383 then BigEndian.encode 2 (value ||| 0x4000)
  else if value ≤ 1073741823 then BigEndian.encode 4 (value ||| 0x80000000)
  else BigEndian.encode 8 (value ||| 0xc000000000000000)

/-- The least value whose shortest form has the given length. -/
def varintMinimum : ℕ → ℕ
  | 2 => 64
  | 4 => 16384
  | 8 => 1073741824
  | _ => 0

/-- `decode_varint`: the value and the length of its encoding. -/
def decodeVarint : List UInt8 → Except CodecError (ℕ × ℕ)
  | [] => .error .truncated
  | first :: rest =>
    let length := 1 <<< (first >>> 6).toNat
    if rest.length + 1 < length then .error .truncated
    else
      let value := BigEndian.decodeFrom (first &&& 0x3f).toNat (rest.take (length - 1))
      if value < varintMinimum length then .error .nonCanonical else .ok (value, length)

/-- `Cursor::u8`. -/
def readByte : List UInt8 → Except CodecError (UInt8 × List UInt8)
  | [] => .error .truncated
  | byte :: rest => .ok (byte, rest)

/-- `Cursor::take`; lengths come from varints, so the end of the taken bytes fits the word. -/
def readBytes (length : ℕ) (input : List UInt8) : Except CodecError (List UInt8 × List UInt8) :=
  if input.length < length then .error .truncated else .ok (input.take length, input.drop length)

/-- `Cursor::u32`. -/
def readWord (input : List UInt8) : Except CodecError (UInt32 × List UInt8) :=
  match readBytes 4 input with
  | .error error => .error error
  | .ok (bytes, rest) => .ok (UInt32.ofNat (BigEndian.decodeFrom 0 bytes), rest)

/-- `Cursor::varint`. -/
def readVarint (input : List UInt8) : Except CodecError (ℕ × List UInt8) :=
  match decodeVarint input with
  | .error error => .error error
  | .ok (value, length) => .ok (value, input.drop length)

theorem length_encodeVarint_le (value : ℕ) : (encodeVarint value).length ≤ 8 := by
  unfold encodeVarint
  split_ifs <;> simp only [BigEndian.encode_length] <;> omega

variable {tag : ℕ}

private theorem tagged_byte {high : ℕ} (htag : tag < 4) (hhigh : high < 64) :
    (UInt8.ofNat (high + tag * 64) >>> 6).toNat = tag ∧ (UInt8.ofNat (high + tag * 64) &&& 0x3f).toNat = high := by
  have hfirst : (UInt8.ofNat (high + tag * 64)).toNat = high + tag * 64 := Nat.mod_eq_of_lt (by omega)
  have hmask : (0x3f : UInt8).toNat = 2 ^ 6 - 1 := rfl
  rw [UInt8.toNat_shiftRight, UInt8.toNat_and, hfirst, hmask, Nat.and_two_pow_sub_one_eq_mod]
  simp only [UInt8.reduceToNat, Nat.reduceMod, Nat.shiftRight_eq_div_pow]
  omega

variable {value : ℕ}

private theorem decodeVarint_tagged_eq (tag width : ℕ) (rest : List UInt8) (htag : tag < 4)
    (hwidth : 2 ^ tag = width + 1) (hvalue : value < 64 * 256 ^ width) :
    decodeVarint (BigEndian.encode (width + 1) (value + tag * 64 * 256 ^ width) ++ rest) =
      if value < varintMinimum (width + 1) then .error .nonCanonical else .ok (value, width + 1) := by
  have hquotient : (value + tag * 64 * 256 ^ width) / 256 ^ width = value / 256 ^ width + tag * 64 :=
    Nat.add_mul_div_right _ _ (Nat.pow_pos (by decide))
  have hhigh : value / 256 ^ width < 64 := Nat.div_lt_of_lt_mul (by rwa [mul_comm])
  obtain ⟨hlength, hpayload⟩ := tagged_byte htag hhigh
  have hlow : (value + tag * 64 * 256 ^ width) % 256 ^ width = value % 256 ^ width :=
    Nat.add_mul_mod_self_right _ _ _
  have htake : (BigEndian.encode width (value + tag * 64 * 256 ^ width) ++ rest).take (width + 1 - 1) =
      BigEndian.encode width (value + tag * 64 * 256 ^ width) := by
    rw [Nat.add_sub_cancel]
    exact List.take_left' (BigEndian.encode_length _ _)
  have hread : BigEndian.decodeFrom (value / 256 ^ width)
      (BigEndian.encode width (value + tag * 64 * 256 ^ width)) = value := by
    rw [BigEndian.decodeFrom_encode, hlow]
    exact Nat.div_add_mod' _ _
  rw [BigEndian.encode, hquotient, List.cons_append, decodeVarint]
  simp only [hlength, hpayload, Nat.shiftLeft_eq, one_mul, hwidth, htake, hread, List.length_append,
    BigEndian.encode_length]
  rw [if_neg (by omega)]

private theorem or_tag (bits tag : ℕ) (h : value < 2 ^ bits) :
    value ||| 2 ^ bits * tag = value + 2 ^ bits * tag := by
  rw [Nat.or_comm, ← Nat.two_pow_add_eq_or_of_lt h, Nat.add_comm]

variable {width : ℕ}

private theorem tag_cases (htag : tag < 4) (hwidth : 2 ^ tag = width + 1) :
    tag = 0 ∧ width = 0 ∨ tag = 1 ∧ width = 1 ∨ tag = 2 ∧ width = 3 ∨ tag = 3 ∧ width = 7 := by
  have htags : tag = 0 ∨ tag = 1 ∨ tag = 2 ∨ tag = 3 := by omega
  rcases htags with rfl | rfl | rfl | rfl <;> omega

private theorem encodeVarint_tagged (htag : tag < 4) (hwidth : 2 ^ tag = width + 1)
    (hminimum : varintMinimum (width + 1) ≤ value) (hvalue : value < 64 * 256 ^ width) :
    encodeVarint value = BigEndian.encode (width + 1) (value + tag * 64 * 256 ^ width) := by
  rcases tag_cases htag hwidth with ⟨rfl, rfl⟩ | ⟨rfl, rfl⟩ | ⟨rfl, rfl⟩ | ⟨rfl, rfl⟩ <;>
    simp only [varintMinimum] at hminimum <;> norm_num at hvalue
  · rw [encodeVarint, if_pos (by omega)]
    rfl
  · have hor := or_tag 14 1 hvalue
    norm_num at hor
    rw [encodeVarint, if_neg (by omega), if_pos (by omega), hor]
    rfl
  · have hor := or_tag 30 2 hvalue
    norm_num at hor
    rw [encodeVarint, if_neg (by omega), if_neg (by omega), if_pos (by omega), hor]
    rfl
  · have hor := or_tag 62 3 hvalue
    norm_num at hor
    rw [encodeVarint, if_neg (by omega), if_neg (by omega), if_neg (by omega), hor]
    rfl

private theorem exists_tag (h : value ≤ maxWireOffset) :
    ∃ tag width, tag < 4 ∧ 2 ^ tag = width + 1 ∧ varintMinimum (width + 1) ≤ value ∧ value < 64 * 256 ^ width := by
  simp only [maxWireOffset] at h
  by_cases hone : value ≤ 63
  · exact ⟨0, 0, by omega, rfl, Nat.zero_le _, by omega⟩
  by_cases htwo : value ≤ 16383
  · exact ⟨1, 1, by omega, rfl, by simp only [varintMinimum]; omega, by omega⟩
  by_cases hfour : value ≤ 1073741823
  · exact ⟨2, 3, by omega, rfl, by simp only [varintMinimum]; omega, by omega⟩
  · exact ⟨3, 7, by omega, rfl, by simp only [varintMinimum]; omega, by omega⟩

theorem decodeVarint_encodeVarint (rest : List UInt8) (h : value ≤ maxWireOffset) :
    decodeVarint (encodeVarint value ++ rest) = .ok (value, (encodeVarint value).length) := by
  obtain ⟨tag, width, htag, hwidth, hminimum, hvalue⟩ := exists_tag h
  rw [encodeVarint_tagged htag hwidth hminimum hvalue, BigEndian.encode_length,
    decodeVarint_tagged_eq tag width rest htag hwidth hvalue, if_neg (not_lt.mpr hminimum)]

theorem readVarint_encodeVarint (rest : List UInt8) (h : value ≤ maxWireOffset) :
    readVarint (encodeVarint value ++ rest) = .ok (value, rest) := by
  unfold readVarint
  rw [decodeVarint_encodeVarint rest h]
  simp

private theorem toNat_eq_tagged (first : UInt8) :
    first.toNat = (first &&& 0x3f).toNat + (first >>> 6).toNat * 64 ∧ (first >>> 6).toNat < 4 ∧
      (first &&& 0x3f).toNat < 64 := by
  have hlt := first.toNat_lt
  have hmask : (0x3f : UInt8).toNat = 2 ^ 6 - 1 := rfl
  rw [UInt8.toNat_shiftRight, UInt8.toNat_and, hmask, Nat.and_two_pow_sub_one_eq_mod]
  simp only [UInt8.reduceToNat, Nat.reduceMod, Nat.shiftRight_eq_div_pow]
  omega

private theorem encodeVarint_decodeFrom {first : UInt8} {bytes : List UInt8}
    (hlength : 2 ^ (first >>> 6).toNat = bytes.length + 1)
    (hminimum : varintMinimum (bytes.length + 1) ≤ BigEndian.decodeFrom (first &&& 0x3f).toNat bytes) :
    encodeVarint (BigEndian.decodeFrom (first &&& 0x3f).toNat bytes) = first :: bytes ∧
      BigEndian.decodeFrom (first &&& 0x3f).toNat bytes ≤ maxWireOffset := by
  obtain ⟨hfirst, htag, hhigh⟩ := toNat_eq_tagged first
  have hvalue : BigEndian.decodeFrom (first &&& 0x3f).toNat bytes < 64 * 256 ^ bytes.length :=
    (BigEndian.decodeFrom_lt _ bytes).trans_le (Nat.mul_le_mul_right _ (Nat.succ_le_of_lt hhigh))
  constructor
  · have hread : BigEndian.decodeFrom 0 (first :: bytes) = BigEndian.decodeFrom first.toNat bytes := by
      simp [BigEndian.decodeFrom]
    rw [encodeVarint_tagged htag hlength hminimum hvalue, ← BigEndian.decodeFrom_add, ← hfirst, ← hread]
    exact BigEndian.encode_decodeFrom 0 (first :: bytes)
  · have hwidth : bytes.length ≤ 7 := by
      rcases tag_cases htag hlength with h | h | h | h <;> omega
    have hwire : 64 * 256 ^ bytes.length ≤ 64 * 256 ^ 7 :=
      Nat.mul_le_mul_left _ (Nat.pow_le_pow_right (by decide) hwidth)
    exact Nat.le_sub_one_of_lt (hvalue.trans_le hwire)

theorem decodeVarint_eq_ok {input : List UInt8} {length : ℕ} :
    decodeVarint input = .ok (value, length) ↔
      value ≤ maxWireOffset ∧ length = (encodeVarint value).length ∧ encodeVarint value <+: input := by
  constructor
  · intro h
    cases input with
    | nil => simp [decodeVarint] at h
    | cons first rest =>
      simp only [decodeVarint, Nat.shiftLeft_eq, one_mul] at h
      split_ifs at h with hshort hsmall
      obtain ⟨hdecoded, hlengthEq⟩ := Prod.mk.inj (Except.ok.inj h)
      have hone : 1 ≤ length := by rw [← hlengthEq]; exact Nat.one_le_two_pow
      rw [hlengthEq] at hshort hsmall hdecoded
      have htake : (rest.take (length - 1)).length + 1 = length := by
        rw [List.length_take]
        omega
      have hbytes := encodeVarint_decodeFrom (hlengthEq.trans htake.symm) (by rw [htake]; exact not_lt.mp hsmall)
      rw [hdecoded] at hbytes
      refine ⟨hbytes.2, by rw [hbytes.1, List.length_cons, htake], ?_⟩
      rw [hbytes.1]
      exact (List.prefix_cons_inj first).mpr (List.take_prefix _ _)
  · rintro ⟨hvalue, rfl, rest, rfl⟩
    exact decodeVarint_encodeVarint rest hvalue

theorem readVarint_canonical : Reader.Canonical readVarint (· ≤ maxWireOffset) encodeVarint := by
  intro input value rest
  constructor
  · intro h
    unfold readVarint at h
    cases hdecode : decodeVarint input with
    | error error => simp [hdecode] at h
    | ok decoded =>
      obtain ⟨read, length⟩ := decoded
      simp only [hdecode, Except.ok.injEq, Prod.mk.injEq] at h
      obtain ⟨rfl, rfl⟩ := h
      obtain ⟨hvalue, rfl, after, rfl⟩ := decodeVarint_eq_ok.mp hdecode
      exact ⟨hvalue, by rw [List.drop_left]⟩
  · rintro ⟨hvalue, rfl⟩
    exact readVarint_encodeVarint rest hvalue

theorem readByte_canonical : Reader.Canonical readByte (fun _ => True) (fun byte => [byte]) := by
  intro input byte rest
  cases input <;> simp [readByte]

theorem readBytes_canonical (length : ℕ) : Reader.Canonical (readBytes length) (·.length = length) id := by
  intro input bytes rest
  unfold readBytes
  split_ifs with hshort
  · simp only [id_eq, false_iff, not_and]
    rintro hlength rfl
    rw [List.length_append] at hshort
    omega
  · simp only [Except.ok.injEq, Prod.mk.injEq, id_eq]
    constructor
    · rintro ⟨rfl, rfl⟩
      exact ⟨List.length_take_of_le (not_lt.mp hshort), (List.take_append_drop _ _).symm⟩
    · rintro ⟨rfl, rfl⟩
      exact ⟨List.take_left, List.drop_left⟩

theorem readNumber_canonical {α : Type} {ofNat : ℕ → α} {toNat : α → ℕ}
    {read : List UInt8 → Except CodecError (α × List UInt8)} {Admitted : α → Prop}
    (hread : ∀ input, read input = match readBytes width input with
      | .error error => .error error
      | .ok (bytes, rest) => .ok (ofNat (BigEndian.decodeFrom 0 bytes), rest))
    (hadmitted : ∀ value, Admitted value ↔ toNat value < 256 ^ width) (hofNat : ∀ value, ofNat (toNat value) = value)
    (htoNat : ∀ value < 256 ^ width, toNat (ofNat value) = value) :
    Reader.Canonical read Admitted (fun value => BigEndian.encode width (toNat value)) := by
  intro input value rest
  rw [hread, hadmitted]
  constructor
  · intro h
    cases hbytes : readBytes width input with
    | error error => simp [hbytes] at h
    | ok taken =>
      obtain ⟨bytes, after⟩ := taken
      simp only [hbytes, Except.ok.injEq, Prod.mk.injEq] at h
      obtain ⟨rfl, rfl⟩ := h
      obtain ⟨rfl, rfl⟩ := (readBytes_canonical width _ _ _).mp hbytes
      have hlt := BigEndian.decodeFrom_lt 0 bytes
      rw [zero_add, one_mul] at hlt
      exact ⟨(htoNat _ hlt).symm ▸ hlt, by simp [htoNat _ hlt, BigEndian.encode_decodeFrom]⟩
  · rintro ⟨hvalue, rfl⟩
    have hbytes := (readBytes_canonical width).read_encode (BigEndian.encode_length width (toNat value)) rest
    rw [id_eq] at hbytes
    simp only [hbytes, BigEndian.decodeFrom_encode, zero_mul, zero_add, Nat.mod_eq_of_lt hvalue, hofNat]

theorem readWord_canonical :
    Reader.Canonical readWord (fun _ => True) (fun word => BigEndian.encode 4 word.toNat) := by
  refine readNumber_canonical (fun _ => rfl) (fun word => ?_) (fun _ => UInt32.ofNat_toNat) fun value hvalue => ?_
  · exact iff_of_true trivial word.toNat_lt
  · exact UInt32.toNat_ofNat_of_lt' hvalue

private theorem or_tag_wide (h : value ≤ wordMax) :
    value ||| 0xc000000000000000 = value % 2 ^ 62 + 3 * 64 * 256 ^ 7 := by
  have hlow : value % 2 ^ 62 < 2 ^ 62 := Nat.mod_lt _ (by decide)
  have hhigh : value / 2 ^ 62 < 4 := by
    unfold wordMax at h
    omega
  have hsplit : 2 ^ 62 * (value / 2 ^ 62) ||| value % 2 ^ 62 = value := by
    rw [← Nat.two_pow_add_eq_or_of_lt hlow, Nat.div_add_mod]
  have htag : ∀ high < 4, 2 ^ 62 * high ||| 0xc000000000000000 = 2 ^ 62 * 3 := by
    intro high hlt
    have hcases : high = 0 ∨ high = 1 ∨ high = 2 ∨ high = 3 := by omega
    rcases hcases with rfl | rfl | rfl | rfl <;> rfl
  calc value ||| 0xc000000000000000
      = 2 ^ 62 * (value / 2 ^ 62) ||| value % 2 ^ 62 ||| 0xc000000000000000 := by rw [hsplit]
    _ = 2 ^ 62 * 3 ||| value % 2 ^ 62 := by rw [Nat.or_assoc, Nat.or_comm (value % 2 ^ 62), ← Nat.or_assoc,
        htag _ hhigh]
    _ = value % 2 ^ 62 + 3 * 64 * 256 ^ 7 := by
      rw [← Nat.two_pow_add_eq_or_of_lt hlow]
      omega

theorem encodeVarint_wide (h : maxWireOffset < value) (hword : value ≤ wordMax) :
    encodeVarint value = BigEndian.encode 8 (value % 2 ^ 62 + 3 * 64 * 256 ^ 7) := by
  simp only [maxWireOffset] at h
  unfold encodeVarint
  rw [if_neg (by omega), if_neg (by omega), if_neg (by omega), or_tag_wide hword]

theorem encodeVarint_wide_of_le (h : maxWireOffset < value) (hword : value ≤ wordMax)
    (hlow : 1073741824 ≤ value % 2 ^ 62) : encodeVarint value = encodeVarint (value % 2 ^ 62) := by
  have hmod : value % 2 ^ 62 < 2 ^ 62 := Nat.mod_lt _ (by decide)
  have hor := or_tag 62 3 hmod
  norm_num at hor
  rw [encodeVarint_wide h hword]
  unfold encodeVarint
  rw [if_neg (by omega), if_neg (by omega), if_neg (by omega)]
  norm_num
  rw [hor]

theorem readVarint_wide (rest : List UInt8) (h : maxWireOffset < value) (hword : value ≤ wordMax)
    (hlow : value % 2 ^ 62 < 1073741824) : readVarint (encodeVarint value ++ rest) = .error .nonCanonical := by
  have hvalue : value % 2 ^ 62 < 64 * 256 ^ 7 := Nat.mod_lt _ (by decide)
  have hminimum : varintMinimum (7 + 1) = 1073741824 := rfl
  unfold readVarint
  rw [encodeVarint_wide h hword, decodeVarint_tagged_eq 3 7 rest (by omega) rfl hvalue, hminimum, if_pos hlow]

end Quicp
