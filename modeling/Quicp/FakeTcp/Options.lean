import Quicp.FakeTcp.Checksum
import Quicp.Library.Buffer

/-!
# TCP options of the carrier

The options are appended to a buffer of the largest size, one after the other, and padded to whole words.
-/

namespace Quicp

open Buffer (writeAt length_writeAt take_writeAt)

inductive CarrierError
  | invalidTuple
  | unsupportedIpVersion
  | packetTooShort
  | packetTooLarge
  | invalidOuterMtu (mtu : UInt16)
  | invalidMss (mss maximum : UInt16)
  | outputTooSmall (required available : ℕ)
  | invalidIpHeader
  | invalidTcpHeader
  | invalidTcpOption
  | tcpOptionsTooLong
  | datagramTooLarge
  | synDataDisabled
  | synCookieRejected
  | invalidState
  | wrongTuple
  | emptyPayload
  | randomness
  deriving DecidableEq, Repr

def maxTcpOptionsBytes : ℕ := 40

def tfoOptionKind : UInt8 := 34

def synWindowScale : UInt8 := 7

/-- `TcpOptions`; the cookie comes with the length it was given with. -/
structure TcpOptions where
  mss : Option UInt16
  sackPermitted : Bool
  timestamps : Option (UInt32 × UInt32)
  windowScale : Option UInt8
  fastOpenCookie : Option (Octets 16 × ℕ)
  deriving DecidableEq

/-- `append_option`: the buffer with the bytes written from the offset on, and the offset behind them. -/
def appendOption (written : List UInt8 × ℕ) (bytes : List UInt8) : Except CarrierError (List UInt8 × ℕ) :=
  match checkedAdd written.2 bytes.length with
  | none => .error .tcpOptionsTooLong
  | some stop =>
    if stop > maxTcpOptionsBytes ∨ stop > written.1.length then .error .tcpOptionsTooLong
    else .ok (writeAt written.1 written.2 bytes, stop)

/-- The loop of `encode_into` that pads to whole words; `turns` bounds its rounds. -/
def padOptions : ℕ → List UInt8 × ℕ → Except CarrierError (List UInt8 × ℕ)
  | 0, written => .ok written
  | turns + 1, written =>
    if written.2 % 4 ≠ 0 then do
      let written ← appendOption written [1]
      padOptions turns written
    else .ok written

namespace TcpOptions

def default : TcpOptions := ⟨none, false, none, none, none⟩

def forSynWithMss (mss : UInt16) (cookie : Option (List UInt8)) : TcpOptions where
  mss := some mss
  sackPermitted := true
  timestamps := none
  windowScale := some synWindowScale
  fastOpenCookie := cookie.map fun cookie =>
    (⟨cookie.take 16 ++ List.replicate (16 - cookie.length) 0, by
      rw [List.length_append, List.length_take, List.length_replicate]; omega⟩, cookie.length)

def isEmpty (options : TcpOptions) : Bool :=
  options.mss.isNone && !options.sackPermitted && options.timestamps.isNone && options.windowScale.isNone &&
    options.fastOpenCookie.isNone

/-- The part of `encode_into` for the segment size. -/
def appendMss (options : TcpOptions) (written : List UInt8 × ℕ) : Except CarrierError (List UInt8 × ℕ) :=
  match options.mss with
  | none => .ok written
  | some mss => do
    let written ← appendOption written [2, 4]
    appendOption written (BigEndian.encode 2 mss.toNat)

/-- The part of `encode_into` for selective acknowledgments. -/
def appendSack (options : TcpOptions) (written : List UInt8 × ℕ) : Except CarrierError (List UInt8 × ℕ) :=
  if options.sackPermitted then appendOption written [4, 2] else .ok written

/-- The part of `encode_into` for the timestamps. -/
def appendTimestamps (options : TcpOptions) (written : List UInt8 × ℕ) : Except CarrierError (List UInt8 × ℕ) :=
  match options.timestamps with
  | none => .ok written
  | some (value, echo) => do
    let written ← appendOption written [1, 1, 8, 10]
    let written ← appendOption written (BigEndian.encode 4 value.toNat)
    appendOption written (BigEndian.encode 4 echo.toNat)

/-- The part of `encode_into` for the window scale. -/
def appendScale (options : TcpOptions) (written : List UInt8 × ℕ) : Except CarrierError (List UInt8 × ℕ) :=
  match options.windowScale with
  | none => .ok written
  | some scale => appendOption written [3, 3, scale]

/-- The part of `encode_into` for the fast-open cookie. -/
def appendCookie (options : TcpOptions) (written : List UInt8 × ℕ) : Except CarrierError (List UInt8 × ℕ) :=
  match options.fastOpenCookie with
  | none => .ok written
  | some (cookie, cookieLength) =>
    if cookieLength > cookie.toList.length then .error .invalidTcpOption
    else if saturatingAdd 2 cookieLength > 255 then .error .invalidTcpOption
    else do
      let written ← appendOption written [tfoOptionKind, UInt8.ofNat (saturatingAdd 2 cookieLength)]
      appendOption written (cookie.toList.take cookieLength)

/-- `encode_into`: the buffer with the options, and how many bytes they take. -/
def encodeInto (options : TcpOptions) (bytes : List UInt8) : Except CarrierError (List UInt8 × ℕ) := do
  let written ← options.appendMss (bytes, 0)
  let written ← options.appendSack written
  let written ← options.appendTimestamps written
  let written ← options.appendScale written
  let written ← options.appendCookie written
  padOptions 4 written

def cookie (options : TcpOptions) : Option (List UInt8) :=
  options.fastOpenCookie.map fun entry => entry.1.toList.take entry.2

end TcpOptions

/-- The loop of `fast_open_cookie`; `turns` bounds its rounds. -/
def fastOpenLoop : ℕ → List UInt8 → Option (List UInt8) → Except CarrierError (Option (List UInt8))
  | 0, _, cookie => .ok cookie
  | turns + 1, input, cookie =>
    match input with
    | [] => .ok cookie
    | kind :: rest =>
      if kind = 0 then .ok cookie
      else if kind = 1 then fastOpenLoop turns rest cookie
      else
        match rest with
        | [] => .error .invalidTcpOption
        | length :: _ =>
          if length.toNat < 2 ∨ length.toNat > input.length then .error .invalidTcpOption
          else
            fastOpenLoop turns (input.drop length.toNat)
              (if kind = tfoOptionKind ∧ 2 ≤ length.toNat ∧ length.toNat ≤ 18 then
                some ((input.take length.toNat).drop 2)
              else cookie)

def fastOpenCookie (input : List UInt8) : Except CarrierError (Option (List UInt8)) :=
  fastOpenLoop input.length input none

/-- The options that were written so far stand at the front of a buffer of the largest size. -/
structure Written (written : List UInt8 × ℕ) (bytes : List UInt8) : Prop where
  size : written.1.length = maxTcpOptionsBytes
  length : written.2 = bytes.length
  bytes : written.1.take written.2 = bytes

theorem Written.append {written : List UInt8 × ℕ} {bytes : List UInt8} (h : Written written bytes)
    (more : List UInt8) (hfits : bytes.length + more.length ≤ maxTcpOptionsBytes) :
    ∃ next, appendOption written more = .ok next ∧ Written next (bytes ++ more) := by
  have hlimit : maxTcpOptionsBytes = 40 := rfl
  have hwithin : written.2 + more.length ≤ written.1.length := by rw [h.length, h.size]; exact hfits
  have hadd : checkedAdd written.2 more.length = some (written.2 + more.length) := by
    refine if_pos ?_
    rw [h.length]
    exact hfits.trans (by decide)
  refine ⟨(writeAt written.1 written.2 more, written.2 + more.length), ?_, ?_, ?_, ?_⟩
  · rw [appendOption, hadd]
    dsimp only
    rw [if_neg]
    rw [h.size, h.length]
    omega
  · exact (length_writeAt hwithin).trans h.size
  · rw [List.length_append, h.length]
  · rw [← h.bytes]
    exact take_writeAt (by omega)

def padding (length : ℕ) : List UInt8 := List.replicate ((4 - length % 4) % 4) 1

theorem Written.pad {written : List UInt8 × ℕ} {bytes : List UInt8} (h : Written written bytes)
    (turns : ℕ) (hfits : bytes.length ≤ maxTcpOptionsBytes) (hturns : (4 - bytes.length % 4) % 4 < turns) :
    ∃ next, padOptions turns written = .ok next ∧ Written next (bytes ++ padding bytes.length) := by
  have hlimit : maxTcpOptionsBytes = 40 := rfl
  induction turns generalizing written bytes with
  | zero => omega
  | succ turns ih =>
    rw [padOptions, h.length]
    by_cases hwhole : bytes.length % 4 = 0
    · refine ⟨written, if_neg (not_not.mpr hwhole), ?_⟩
      rw [padding, hwhole]
      simpa using h
    · obtain ⟨next, happend, hnext⟩ := h.append [1] (by rw [List.length_singleton]; omega)
      obtain ⟨last, hpad, hlast⟩ := ih hnext (by rw [List.length_append, List.length_singleton]; omega)
        (by rw [List.length_append, List.length_singleton]; omega)
      refine ⟨last, ?_, ?_⟩
      · rw [if_pos hwhole, happend]
        exact hpad
      · rw [List.append_assoc] at hlast
        convert hlast using 2
        rw [padding, padding, List.length_append, List.length_singleton, List.singleton_append, ← List.replicate_succ]
        congr 1
        omega

namespace TcpOptions

def mssBytes (options : TcpOptions) : List UInt8 :=
  options.mss.elim [] fun mss => [2, 4] ++ BigEndian.encode 2 mss.toNat

def sackBytes (options : TcpOptions) : List UInt8 := if options.sackPermitted then [4, 2] else []

def timestampBytes (options : TcpOptions) : List UInt8 :=
  options.timestamps.elim [] fun stamps =>
    [1, 1, 8, 10] ++ BigEndian.encode 4 stamps.1.toNat ++ BigEndian.encode 4 stamps.2.toNat

def scaleBytes (options : TcpOptions) : List UInt8 := options.windowScale.elim [] fun scale => [3, 3, scale]

def cookieBytes (options : TcpOptions) : List UInt8 :=
  options.cookie.elim [] fun cookie => [tfoOptionKind, UInt8.ofNat (2 + cookie.length)] ++ cookie

def body (options : TcpOptions) : List UInt8 :=
  options.mssBytes ++ options.sackBytes ++ options.timestampBytes ++ options.scaleBytes ++ options.cookieBytes

def encoded (options : TcpOptions) : List UInt8 := options.body ++ padding options.body.length

/-- The cookie is not longer than the bytes it is kept in. -/
def CookieFits (options : TcpOptions) : Prop := ∀ entry ∈ options.fastOpenCookie, entry.2 ≤ 16

theorem length_parts (options : TcpOptions) : options.mssBytes.length ≤ 4 ∧ options.sackBytes.length ≤ 2 ∧
    options.timestampBytes.length ≤ 12 ∧ options.scaleBytes.length ≤ 3 ∧ options.cookieBytes.length ≤ 18 := by
  refine ⟨?_, ?_, ?_, ?_, ?_⟩
  · cases hmss : options.mss <;> simp [mssBytes, hmss]
  · cases hsack : options.sackPermitted <;> simp [sackBytes, hsack]
  · cases hstamps : options.timestamps <;> simp [timestampBytes, hstamps]
  · cases hscale : options.windowScale <;> simp [scaleBytes, hscale]
  · cases hcookie : options.fastOpenCookie with
    | none => simp [cookieBytes, cookie, hcookie]
    | some entry =>
      have hlength := entry.1.toList_length
      simp only [cookieBytes, cookie, hcookie, Option.map_some, Option.elim_some, List.length_append, List.length_cons,
        List.length_nil, List.length_take, hlength]
      omega

theorem length_body_le (options : TcpOptions) : options.body.length ≤ 39 := by
  obtain ⟨hmss, hsack, hstamps, hscale, hcookie⟩ := options.length_parts
  simp only [body, List.length_append]
  omega

theorem length_encoded (options : TcpOptions) :
    options.encoded.length % 4 = 0 ∧ options.encoded.length ≤ maxTcpOptionsBytes := by
  have hbody := options.length_body_le
  have hlimit : maxTcpOptionsBytes = 40 := rfl
  rw [encoded, List.length_append, padding, List.length_replicate]
  omega

section Append

variable (options : TcpOptions) {written : List UInt8 × ℕ} {bytes : List UInt8} (h : Written written bytes)

include h

private theorem appendMss_ok (hroom : bytes.length ≤ 0) :
    ∃ next, options.appendMss written = .ok next ∧ Written next (bytes ++ options.mssBytes) := by
  have hlimit : maxTcpOptionsBytes = 40 := rfl
  unfold appendMss mssBytes
  cases options.mss with
  | none => exact ⟨written, rfl, by simpa using h⟩
  | some mss =>
    obtain ⟨first, hfirst, hwritten⟩ := h.append [2, 4] (by simp; omega)
    obtain ⟨second, hsecond, hwritten⟩ := hwritten.append (BigEndian.encode 2 mss.toNat) (by simp; omega)
    refine ⟨second, ?_, by simpa using hwritten⟩
    dsimp only
    rw [hfirst]
    exact hsecond

private theorem appendSack_ok (hroom : bytes.length ≤ 4) :
    ∃ next, options.appendSack written = .ok next ∧ Written next (bytes ++ options.sackBytes) := by
  have hlimit : maxTcpOptionsBytes = 40 := rfl
  unfold appendSack sackBytes
  split_ifs
  · exact h.append [4, 2] (by simp; omega)
  · exact ⟨written, rfl, by simpa using h⟩

private theorem appendTimestamps_ok (hroom : bytes.length ≤ 6) :
    ∃ next, options.appendTimestamps written = .ok next ∧ Written next (bytes ++ options.timestampBytes) := by
  have hlimit : maxTcpOptionsBytes = 40 := rfl
  unfold appendTimestamps timestampBytes
  cases options.timestamps with
  | none => exact ⟨written, rfl, by simpa using h⟩
  | some stamps =>
    obtain ⟨first, hfirst, hwritten⟩ := h.append [1, 1, 8, 10] (by simp; omega)
    obtain ⟨second, hsecond, hwritten⟩ := hwritten.append (BigEndian.encode 4 stamps.1.toNat) (by simp; omega)
    obtain ⟨third, hthird, hwritten⟩ := hwritten.append (BigEndian.encode 4 stamps.2.toNat) (by simp; omega)
    refine ⟨third, ?_, by simpa using hwritten⟩
    dsimp only
    simp only [hfirst, hsecond, bind, Except.bind]
    exact hthird

private theorem appendScale_ok (hroom : bytes.length ≤ 18) :
    ∃ next, options.appendScale written = .ok next ∧ Written next (bytes ++ options.scaleBytes) := by
  have hlimit : maxTcpOptionsBytes = 40 := rfl
  unfold appendScale scaleBytes
  cases options.windowScale with
  | none => exact ⟨written, rfl, by simpa using h⟩
  | some scale => exact h.append [3, 3, scale] (by simp; omega)

private theorem appendCookie_ok (hroom : bytes.length ≤ 21) (hfits : options.CookieFits) :
    ∃ next, options.appendCookie written = .ok next ∧ Written next (bytes ++ options.cookieBytes) := by
  have hlimit : maxTcpOptionsBytes = 40 := rfl
  unfold appendCookie cookieBytes cookie
  cases hcookie : options.fastOpenCookie with
  | none => exact ⟨written, rfl, by simpa using h⟩
  | some entry =>
    obtain ⟨octets, cookieLength⟩ := entry
    have hsmall : cookieLength ≤ 16 := hfits _ hcookie
    have hlength : octets.toList.length = 16 := octets.toList_length
    have htake : (octets.toList.take cookieLength).length = cookieLength := List.length_take_of_le (by omega)
    have hsum : saturatingAdd 2 cookieLength = 2 + cookieLength := by
      rw [saturatingAdd, min_eq_left]
      exact (show 2 + cookieLength ≤ 18 by omega).trans (by decide)
    obtain ⟨first, hfirst, hwritten⟩ := h.append [tfoOptionKind, UInt8.ofNat (2 + cookieLength)] (by simp; omega)
    obtain ⟨second, hsecond, hwritten⟩ := hwritten.append (octets.toList.take cookieLength) (by simp [hlength]; omega)
    refine ⟨second, ?_, ?_⟩
    · dsimp only
      rw [if_neg (by omega), hsum, if_neg (by omega), hfirst]
      exact hsecond
    · simpa [htake] using hwritten

end Append

private theorem appendCookie_error {options : TcpOptions} (h : ¬options.CookieFits) (written : List UInt8 × ℕ) :
    options.appendCookie written = .error .invalidTcpOption := by
  unfold CookieFits at h
  unfold appendCookie
  cases hcookie : options.fastOpenCookie with
  | none => simp [hcookie] at h
  | some entry =>
    obtain ⟨octets, cookieLength⟩ := entry
    refine if_pos ?_
    simpa [hcookie, octets.toList_length] using h

theorem encodeInto_cases (options : TcpOptions) {bytes : List UInt8} (h : bytes.length = maxTcpOptionsBytes) :
    (¬options.CookieFits ∧ options.encodeInto bytes = .error .invalidTcpOption) ∨
      options.CookieFits ∧ ∃ written, options.encodeInto bytes = .ok written ∧ Written written options.encoded := by
  obtain ⟨hmss, hsack, hstamps, hscale, _⟩ := options.length_parts
  have hbody := options.length_body_le
  have hstart : Written (bytes, 0) [] := ⟨h, rfl, rfl⟩
  obtain ⟨first, hfirst, hwritten⟩ := appendMss_ok options hstart le_rfl
  obtain ⟨second, hsecond, hwritten⟩ := appendSack_ok options hwritten (by simpa using hmss)
  obtain ⟨third, hthird, hwritten⟩ := appendTimestamps_ok options hwritten (by simp; omega)
  obtain ⟨fourth, hfourth, hwritten⟩ := appendScale_ok options hwritten (by simp; omega)
  have hbefore : options.encodeInto bytes = options.appendCookie fourth >>= padOptions 4 := by
    simp only [encodeInto, hfirst, hsecond, hthird, hfourth, bind, Except.bind]
  rw [hbefore]
  by_cases hfits : options.CookieFits
  · obtain ⟨fifth, hfifth, hwritten⟩ := appendCookie_ok options hwritten (by simp; omega) hfits
    have hlong : (([] ++ options.mssBytes ++ options.sackBytes ++ options.timestampBytes ++ options.scaleBytes) ++
        options.cookieBytes).length ≤ 39 := by simpa [body] using hbody
    obtain ⟨last, hlast, hwritten⟩ := hwritten.pad 4 (hlong.trans (by decide)) (by omega)
    refine Or.inr ⟨hfits, last, ?_, ?_⟩
    · rw [hfifth]
      exact hlast
    · simpa [encoded, body] using hwritten
  · rw [appendCookie_error hfits]
    exact Or.inl ⟨hfits, rfl⟩

end TcpOptions

/-- The parser walks over the bytes, whatever follows them, and takes over what it finds. -/
def Parses (bytes : List UInt8) (found : Option (List UInt8) → Option (List UInt8)) : Prop :=
  ∀ turns rest cookie, (bytes ++ rest).length ≤ turns → ∃ turns', rest.length ≤ turns' ∧
    fastOpenLoop turns (bytes ++ rest) cookie = fastOpenLoop turns' rest (found cookie)

theorem Parses.nil : Parses [] id := fun turns _ _ hturns => ⟨turns, hturns, rfl⟩

theorem Parses.append {first second : List UInt8} {found found' : Option (List UInt8) → Option (List UInt8)}
    (hfirst : Parses first found) (hsecond : Parses second found') : Parses (first ++ second) (found' ∘ found) := by
  intro turns rest cookie hturns
  rw [List.append_assoc] at hturns ⊢
  obtain ⟨turns', hturns', hloop⟩ := hfirst turns (second ++ rest) cookie hturns
  obtain ⟨last, hlast, hloop'⟩ := hsecond turns' rest (found cookie) hturns'
  exact ⟨last, hlast, hloop.trans hloop'⟩

theorem Parses.noOperation : Parses [1] id := by
  intro turns rest cookie hturns
  obtain ⟨turns, rfl⟩ := Nat.exists_eq_succ_of_ne_zero (show turns ≠ 0 by rintro rfl; simp at hturns)
  exact ⟨turns, Nat.le_of_succ_le_succ (by simpa using hturns), rfl⟩

theorem Parses.replicate (count : ℕ) : Parses (List.replicate count 1) id := by
  induction count with
  | zero => exact .nil
  | succ count ih => exact Parses.noOperation.append ih

theorem Parses.option {kind length : UInt8} {value : List UInt8} (hend : kind ≠ 0) (hpad : kind ≠ 1)
    (hlength : length.toNat = value.length + 2) : Parses (kind :: length :: value)
      fun cookie => if kind = tfoOptionKind ∧ value.length ≤ 16 then some value else cookie := by
  intro turns rest cookie hturns
  obtain ⟨turns, rfl⟩ := Nat.exists_eq_succ_of_ne_zero (show turns ≠ 0 by rintro rfl; simp at hturns)
  simp only [List.cons_append, List.length_cons, List.length_append] at hturns ⊢
  refine ⟨turns, by omega, ?_⟩
  rw [fastOpenLoop, if_neg hend, if_neg hpad, hlength, if_neg (by simp), List.drop_succ_cons, List.drop_succ_cons,
    List.drop_left, List.take_succ_cons, List.take_succ_cons, List.drop_succ_cons, List.drop_succ_cons, List.drop_zero,
    List.take_left]
  congr 1
  simp

theorem Parses.skip {kind length : UInt8} {value : List UInt8} (hend : kind ≠ 0) (hpad : kind ≠ 1)
    (hkind : kind ≠ tfoOptionKind) (hlength : length.toNat = value.length + 2) : Parses (kind :: length :: value) id := by
  have hparses := Parses.option hend hpad hlength
  simp only [hkind, false_and, if_false] at hparses
  exact hparses

namespace TcpOptions

theorem fastOpenCookie_encoded {options : TcpOptions} (h : options.CookieFits) :
    Quicp.fastOpenCookie options.encoded = .ok options.cookie := by
  have hmss : Parses options.mssBytes id := by
    unfold mssBytes
    cases options.mss with
    | none => exact .nil
    | some mss => exact .skip (by decide) (by decide) (by decide) rfl
  have hsack : Parses options.sackBytes id := by
    unfold sackBytes
    split_ifs
    · exact .skip (by decide) (by decide) (by decide) rfl
    · exact .nil
  have hstamps : Parses options.timestampBytes id := by
    unfold timestampBytes
    cases options.timestamps with
    | none => exact .nil
    | some stamps =>
      exact Parses.noOperation.append (Parses.noOperation.append (.skip (by decide) (by decide) (by decide) rfl))
  have hscale : Parses options.scaleBytes id := by
    unfold scaleBytes
    cases options.windowScale with
    | none => exact .nil
    | some scale => exact .skip (by decide) (by decide) (by decide) rfl
  have hcookie : Parses options.cookieBytes fun cookie => options.cookie.or cookie := by
    unfold cookieBytes cookie
    cases hentry : options.fastOpenCookie with
    | none => exact .nil
    | some entry =>
      have hsmall : (entry.1.toList.take entry.2).length ≤ 16 := (List.length_take_le _ _).trans (h entry hentry)
      have hparses : Parses (tfoOptionKind :: UInt8.ofNat (2 + (entry.1.toList.take entry.2).length) ::
          entry.1.toList.take entry.2) _ := .option (by decide) (by decide) (by rw [UInt8.toNat_ofNat']; omega)
      simp only [hsmall, and_self, if_true] at hparses
      exact hparses
  have hall : Parses options.encoded _ := ((((hmss.append hsack).append hstamps).append hscale).append hcookie).append
    (.replicate ((4 - options.body.length % 4) % 4))
  obtain ⟨turns, _, hloop⟩ := hall options.encoded.length [] none (by simp)
  rw [List.append_nil] at hloop
  rw [Quicp.fastOpenCookie, hloop]
  cases turns <;> simp [fastOpenLoop]

end TcpOptions

end Quicp
