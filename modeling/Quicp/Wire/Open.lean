import Quicp.Wire.Control

/-!
# Open requests

The destination of a flow: a lowercase multi-label host name and a port. A request is decoded
only from its one encoding, since the name is checked and not normalised.
-/

namespace Quicp

/-- `WireError`, without the error of a caller's own output storage. -/
inductive WireError
  | truncated
  | invalidHostLength
  | invalidHost
  | zeroPort
  | unknownStatus (value : UInt8)
  deriving DecidableEq, Repr

def maxCanonicalHostBytes : ℕ := 253

def isAsciiDigit (byte : UInt8) : Bool := 0x30 ≤ byte && byte ≤ 0x39

def isAsciiLowercase (byte : UInt8) : Bool := 0x61 ≤ byte && byte ≤ 0x7a

/-- A decimal octet of an address: up to three digits, without a leading zero. -/
def isOctet (label : List UInt8) : Bool :=
  label ≠ [] && label.length ≤ 3 && label.all isAsciiDigit && (label.length = 1 || label.head? ≠ some 0x30) &&
    label.foldl (fun value digit => value * 10 + (digit.toNat - 0x30)) 0 ≤ 255

/-- `parse::<IpAddr>` on a text without a colon; one with a colon is no host name in any case. -/
def isAddress (host : List UInt8) : Bool :=
  (host.splitOn 0x2e).length = 4 && (host.splitOn 0x2e).all isOctet

/-- The check of one label in `CanonicalHost::parse`. -/
def isLabel (label : List UInt8) : Bool :=
  label ≠ [] && label.length ≤ 63 && label.head? ≠ some 0x2d && label.getLast? ≠ some 0x2d &&
    label.all (fun byte => isAsciiLowercase byte || isAsciiDigit byte || byte == 0x2d)

/-- The text is the name of a `CanonicalHost`. -/
def isCanonicalHost (host : List UInt8) : Bool :=
  host.length ≤ maxCanonicalHostBytes && host.contains 0x2e && !isAddress host && (host.splitOn 0x2e).all isLabel

/-- `str::from_utf8` and `CanonicalHost::parse`: bytes that are no text are no label either. -/
def parseHost (host : List UInt8) : Except WireError (List UInt8) :=
  if isCanonicalHost host then .ok host else .error .invalidHost

/-- `OpenRequest::decode`: the request and the number of bytes that it takes. -/
def OpenRequest.decode : List UInt8 → Except WireError (OpenRequest × ℕ)
  | [] => .error .truncated
  | hostLength :: rest =>
    if hostLength = 0 then .error .invalidHostLength
    else
      let consumed := hostLength.toNat + 3
      if rest.length + 1 < consumed then .error .truncated
      else
        match parseHost (rest.take hostLength.toNat) with
        | .error error => .error error
        | .ok host =>
          let port := UInt16.ofNat (BigEndian.decodeFrom 0 ((rest.drop hostLength.toNat).take 2))
          if port = 0 then .error .zeroPort else .ok (⟨host, port⟩, consumed)

def OpenStatus.decode (value : UInt8) : Except WireError OpenStatus :=
  match value with
  | 0x00 => .ok .ok
  | 0x01 => .ok .generalFailure
  | 0x02 => .ok .policyDenied
  | 0x03 => .ok .resolutionFailure
  | 0x04 => .ok .connectionRefused
  | 0x05 => .ok .connectionTimeout
  | 0x06 => .ok .capacityExhausted
  | unknown => .error (.unknownStatus unknown)

/-- A request has a canonical host and a nonzero port, which the types of the source carry. -/
def OpenRequest.Valid (request : OpenRequest) : Prop := isCanonicalHost request.host = true ∧ request.port ≠ 0

instance (request : OpenRequest) : Decidable request.Valid := inferInstanceAs (Decidable (_ ∧ _))

theorem length_of_isCanonicalHost {host : List UInt8} (h : isCanonicalHost host = true) :
    host ≠ [] ∧ host.length ≤ maxCanonicalHostBytes := by
  simp only [isCanonicalHost, Bool.and_eq_true, decide_eq_true_eq] at h
  refine ⟨fun hnil => ?_, h.1.1.1⟩
  rw [hnil] at h
  exact absurd h.1.1.2 (by decide)

private theorem encode_port {bytes : List UInt8} (h : bytes.length = 2) :
    BigEndian.encode 2 (UInt16.ofNat (BigEndian.decodeFrom 0 bytes)).toNat = bytes := by
  have hlt := BigEndian.decodeFrom_lt 0 bytes
  rw [h] at hlt
  rw [UInt16.toNat_ofNat_of_lt' (by simpa using hlt), ← h, BigEndian.encode_decodeFrom]

theorem OpenRequest.decode_eq_ok {input : List UInt8} {request : OpenRequest} {consumed : ℕ} :
    OpenRequest.decode input = .ok (request, consumed) ↔
      request.Valid ∧ consumed = request.encode.length ∧ request.encode <+: input := by
  constructor
  · intro h
    cases input with
    | nil => simp [OpenRequest.decode] at h
    | cons hostLength rest =>
      rw [OpenRequest.decode] at h
      by_cases hhost : isCanonicalHost (rest.take hostLength.toNat) = true
      · rw [parseHost, if_pos hhost] at h
        dsimp only at h
        split_ifs at h with hzero hshort hport
        obtain ⟨rfl, rfl⟩ := Prod.mk.inj (Except.ok.inj h)
        have htake : (rest.take hostLength.toNat).length = hostLength.toNat :=
          List.length_take_of_le (by omega)
        have hbytes : ((rest.drop hostLength.toNat).take 2).length = 2 := by
          rw [List.length_take, List.length_drop]
          omega
        have hencode : OpenRequest.encode ⟨rest.take hostLength.toNat,
            UInt16.ofNat (BigEndian.decodeFrom 0 ((rest.drop hostLength.toNat).take 2))⟩ =
              hostLength :: rest.take (hostLength.toNat + 2) := by
          rw [OpenRequest.encode, htake, encode_port hbytes, UInt8.ofNat_toNat, ← List.take_add]
        rw [hencode]
        refine ⟨⟨hhost, hport⟩, ?_, (List.prefix_cons_inj _).mpr (List.take_prefix _ _)⟩
        rw [List.length_cons, List.length_take]
        omega
      · rw [parseHost, if_neg hhost] at h
        dsimp only at h
        split_ifs at h
  · rintro ⟨⟨hhost, hport⟩, rfl, rest, rfl⟩
    obtain ⟨host, port⟩ := request
    dsimp only at hhost hport
    obtain ⟨hne, hlength⟩ := length_of_isCanonicalHost hhost
    have hcount : (UInt8.ofNat host.length).toNat = host.length :=
      Nat.mod_eq_of_lt (hlength.trans_lt (by decide))
    have hnonzero : UInt8.ofNat host.length ≠ 0 := fun h => by
      have hzero := congrArg UInt8.toNat h
      rw [hcount] at hzero
      exact hne (List.length_eq_zero_iff.mp hzero)
    have hread : BigEndian.decodeFrom 0 (BigEndian.encode 2 port.toNat) = port.toNat := by
      rw [BigEndian.decodeFrom_encode, zero_mul, zero_add]
      exact Nat.mod_eq_of_lt port.toNat_lt
    have htake : (BigEndian.encode 2 port.toNat ++ rest).take 2 = BigEndian.encode 2 port.toNat :=
      List.take_left' (BigEndian.encode_length _ _)
    have hlong : ¬host.length + (2 + rest.length) + 1 < host.length + 3 := by omega
    simp only [OpenRequest.encode, List.cons_append, List.append_assoc, OpenRequest.decode, if_neg hnonzero, hcount,
      if_neg hlong, List.take_left, List.drop_left, parseHost, if_pos hhost, htake, hread, UInt16.ofNat_toNat,
      if_neg hport, List.length_cons, List.length_append, BigEndian.encode_length]

theorem OpenStatus.decode_eq_ok {value : UInt8} {status : OpenStatus} :
    OpenStatus.decode value = .ok status ↔ value = status.encode := by
  constructor
  · intro h
    unfold OpenStatus.decode at h
    split at h <;> cases h <;> rfl
  · rintro rfl
    cases status <;> rfl

end Quicp
