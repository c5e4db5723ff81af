import Quicp.Recovery.Config
import Quicp.Wire.Open

/-!
# Decoding control frames

A control frame is decoded from its declared bytes alone: the payload readers see neither less nor more than the
payload.
-/

namespace Quicp

def capabilityMask : UInt8 := 0x01 ||| 0x02 ||| 0x08

/-- `Cursor::u64`. -/
def readLong (input : List UInt8) : Except CodecError (UInt64 × List UInt8) :=
  match readBytes 8 input with
  | .error error => .error error
  | .ok (bytes, rest) => .ok (UInt64.ofNat (BigEndian.decodeFrom 0 bytes), rest)

/-- `control_payload_range`: where the payload of a frame starts and ends. -/
def controlPayloadRange (input : List UInt8) (maxFrameBytes : ℕ) : Except CodecError (ℕ × ℕ) :=
  match input with
  | [] => .error .truncated
  | _ :: rest =>
    match decodeVarint rest with
    | .error error => .error error
    | .ok (length, lengthBytes) =>
      let header := 1 + lengthBytes
      match (checkedAdd header length).filter (fun stop => decide (stop ≤ maxFrameBytes)) with
      | none => .error .limit
      | some stop => .ok (header, stop)

def Capabilities.InRange (own : Capabilities) : Prop :=
  64 ≤ own.maxSymbol.toNat ∧ 1 ≤ own.maxSpan.toNat ∧ own.maxSpan.toNat ≤ maxRepairSpan ∧
    512 ≤ own.decoderWindow.toNat ∧ own.decoderWindow.toNat ≤ maxDecoderWindow ∧
    1 ≤ own.maxAckRanges.toNat ∧ own.maxAckRanges.toNat ≤ 32

instance (own : Capabilities) : Decidable own.InRange := inferInstanceAs (Decidable (_ ∧ _))

/-- The fields of `FRAME_CAPABILITIES`; a `u64` has no bits but those of its low byte in the mask. -/
def readCapabilities (input : List UInt8) : Except CodecError (Capabilities × List UInt8) := do
  let (flags, input) ← readVarint input
  if flags &&& (wordMax ^^^ capabilityMask.toNat) ≠ 0 then
    throw .invalidField
  if flags > 255 then
    throw .invalidField
  let (maxSymbol, input) ← readShort input
  let (maxSpan, input) ← readShort input
  let (decoderWindow, input) ← readShort input
  let (maxAckRanges, input) ← readByte input
  let own : Capabilities := ⟨UInt8.ofNat flags, UInt16.ofNat maxSymbol, UInt16.ofNat maxSpan,
    UInt16.ofNat decoderWindow, maxAckRanges⟩
  if ¬own.InRange then
    throw .invalidField
  return (own, input)

/-- The loop of `FRAME_ACK`: ranges that go upward from the end of the one before. -/
def readRanges : ℕ → ℕ → List UInt8 → Except CodecError (List Range × List UInt8)
  | 0, _, input => .ok ([], input)
  | count + 1, previous, input => do
    let (start, input) ← readVarint input
    let (stop, input) ← readVarint input
    if start < previous ∨ start ≥ stop ∨ stop > maxWireOffset then
      throw .invalidField
    let (later, input) ← readRanges count stop input
    return (⟨start, stop⟩ :: later, input)

/-- The check for trailing bytes at the end of `decode_control`. -/
def finishPayload (frame : ControlFrame) (rest : List UInt8) : Except CodecError ControlFrame :=
  if rest ≠ [] then .error .trailingBytes else .ok frame

/-- The payload of `FRAME_ACK`. -/
def decodeAck (payload : List UInt8) (maxAckRanges : ℕ) : Except CodecError ControlFrame := do
  let (contiguous, rest) ← readVarint payload
  let (count, rest) ← readByte rest
  if count.toNat > maxAckRanges then
    throw .limit
  let (ranges, rest) ← readRanges count.toNat contiguous rest
  finishPayload (.ack contiguous ranges) rest

/-- The payload of `FRAME_OPEN`. -/
def decodeOpen (payload : List UInt8) : Except CodecError ControlFrame :=
  match OpenRequest.decode payload with
  | .error _ => .error .invalidField
  | .ok (request, consumed) =>
    if consumed ≠ payload.length then .error .trailingBytes else .ok (.openRequest request)

/-- The payload of `FRAME_STATUS`. -/
def decodeStatus (payload : List UInt8) : Except CodecError ControlFrame := do
  let (value, rest) ← readByte payload
  match OpenStatus.decode value with
  | .error _ => .error .invalidField
  | .ok result => finishPayload (.status result) rest

/-- The payload of `FRAME_STREAM_DATA`. -/
def decodeStreamData (payload : List UInt8) : Except CodecError ControlFrame := do
  let (offset, rest) ← readVarint payload
  let (flags, data) ← readByte rest
  if flags &&& 0xfe ≠ 0 then
    throw .invalidField
  return .streamData offset (flags = 1) data

/-- The payload of `FRAME_EARLY_OPEN`. -/
def decodeEarlyOpen (payload : List UInt8) : Except CodecError ControlFrame := do
  let (tokenLength, rest) ← readByte payload
  if tokenLength.toNat = 0 ∨ tokenLength.toNat > 128 then
    throw .limit
  let (token, rest) ← readBytes tokenLength.toNat rest
  let (nonce, remaining) ← readLong rest
  match OpenRequest.decode remaining with
  | .error _ => .error .invalidField
  | .ok (request, consumed) =>
    if remaining.drop consumed = [] then .error .invalidField
    else .ok (.earlyOpen token nonce request (remaining.drop consumed))

/-- The `match` of `decode_control` on the type byte. -/
def decodePayload (kind : UInt8) (payload : List UInt8) (maxAckRanges : ℕ) : Except CodecError ControlFrame :=
  match kind with
  | 0x01 => do
    let (own, rest) ← readCapabilities payload
    finishPayload (.capabilities own) rest
  | 0x02 => decodeOpen payload
  | 0x03 => decodeStatus payload
  | 0x04 => decodeAck payload maxAckRanges
  | 0x05 => do
    let (maximum, rest) ← readVarint payload
    finishPayload (.maxOffset maximum) rest
  | 0x06 => do
    let (offset, rest) ← readVarint payload
    finishPayload (.fin offset) rest
  | 0x08 => decodeStreamData payload
  | 0x09 => decodeEarlyOpen payload
  | _ => .error .unknownType

/-- `decode_control`: the frame and the number of its bytes. -/
def decodeControl (input : List UInt8) (maxAckRanges maxFrameBytes : ℕ) : Except CodecError (ControlFrame × ℕ) := do
  let (header, stop) ← controlPayloadRange input maxFrameBytes
  if input.length < stop then
    throw .truncated
  -- An input with a payload range has a type byte.
  let frame ← decodePayload (input.headD 0) ((input.take stop).drop header) maxAckRanges
  return (frame, stop)

/-- Nonempty ranges of the wire, each from the end of the one before. -/
def RangesFrom : ℕ → List Range → Prop
  | _, [] => True
  | previous, range :: rest =>
    (previous ≤ range.start ∧ range.start < range.stop ∧ range.stop ≤ maxWireOffset) ∧ RangesFrom range.stop rest

def encodeRanges (ranges : List Range) : List UInt8 :=
  (ranges.map (fun range => encodeVarint range.start ++ encodeVarint range.stop)).flatten

/-- The fields of a frame fit the wire, and its ranges, token and early data are what a peer may send. -/
def ControlFrame.FieldsValid (maxAckRanges : ℕ) : ControlFrame → Prop
  | .capabilities own => own.flags &&& ~~~capabilityMask = 0 ∧ own.InRange
  | .openRequest request => request.Valid
  | .status _ => True
  | .ack contiguous ranges =>
    contiguous ≤ maxWireOffset ∧ ranges.length ≤ maxAckRanges ∧ ranges.length ≤ 255 ∧ RangesFrom contiguous ranges
  | .maxOffset maximum => maximum ≤ maxWireOffset
  | .fin offset => offset ≤ maxWireOffset
  | .streamData offset _ _ => offset ≤ maxWireOffset
  | .earlyOpen token _ request initial =>
    1 ≤ token.length ∧ token.length ≤ 128 ∧ request.Valid ∧ initial ≠ []

/-- A frame that can be written: valid fields, and a payload whose length is a varint. -/
structure ControlFrame.WellFormed (maxAckRanges : ℕ) (frame : ControlFrame) : Prop where
  fields : frame.FieldsValid maxAckRanges
  length : frame.payload.length ≤ maxWireOffset

theorem readLong_canonical :
    Reader.Canonical readLong (fun _ => True) (fun word => BigEndian.encode 8 word.toNat) := by
  refine readNumber_canonical (fun _ => rfl) (fun word => ?_) (fun _ => UInt64.ofNat_toNat) fun value hvalue => ?_
  · exact iff_of_true trivial word.toNat_lt
  · exact UInt64.toNat_ofNat_of_lt' hvalue

private theorem and_mask_eq_zero (flags : UInt8) :
    flags.toNat &&& (wordMax ^^^ capabilityMask.toNat) = 0 ↔ flags &&& ~~~capabilityMask = 0 := by
  have hbits : ∀ bits : BitVec 8, bits.toNat &&& (wordMax ^^^ capabilityMask.toNat) = 0 ↔
      bits &&& ~~~capabilityMask.toBitVec = 0 := by decide +kernel
  rw [← UInt8.toBitVec_inj]
  exact hbits flags.toBitVec

private theorem readRanges_encodeRanges {ranges : List Range} {previous : ℕ} (rest : List UInt8)
    (h : RangesFrom previous ranges) :
    readRanges ranges.length previous (encodeRanges ranges ++ rest) = .ok (ranges, rest) := by
  induction ranges generalizing previous with
  | nil => rfl
  | cons range later ih =>
    obtain ⟨⟨hstart, hne, hstop⟩, hlater⟩ := h
    have hvalid : ¬(range.start < previous ∨ range.start ≥ range.stop ∨ range.stop > maxWireOffset) := by omega
    have hencode : encodeRanges (range :: later) ++ rest =
        encodeVarint range.start ++ (encodeVarint range.stop ++ (encodeRanges later ++ rest)) := by
      simp [encodeRanges]
    simp only [List.length_cons, readRanges, hencode, readVarint_encodeVarint _ (hne.le.trans hstop),
      readVarint_encodeVarint _ hstop, bind, Except.bind, if_neg hvalid, ih hlater, pure, Except.pure]

theorem readRanges_canonical (count previous : ℕ) :
    Reader.Canonical (readRanges count previous)
      (fun ranges => ranges.length = count ∧ RangesFrom previous ranges) encodeRanges := by
  induction count generalizing previous with
  | zero =>
    intro input ranges rest
    simp only [readRanges, Except.ok.injEq, Prod.mk.injEq, List.length_eq_zero_iff]
    constructor
    · rintro ⟨rfl, rfl⟩
      exact ⟨⟨rfl, trivial⟩, rfl⟩
    · rintro ⟨⟨rfl, -⟩, rfl⟩
      exact ⟨rfl, rfl⟩
  | succ count ih =>
    intro input ranges rest
    constructor
    · intro h
      simp only [readRanges, readVarint_canonical.bind_eq_ok, Reader.throwIf_eq_ok, (ih _).bind_eq_ok, pure,
        Except.pure, Except.ok.injEq, Prod.mk.injEq, not_or, not_lt, not_le, ge_iff_le, gt_iff_lt] at h
      obtain ⟨start, _, -, rfl, stop, _, -, rfl, hvalid, later, _, ⟨rfl, hlater⟩, rfl, rfl, rfl⟩ := h
      exact ⟨⟨rfl, hvalid, hlater⟩, by simp [encodeRanges]⟩
    · rintro ⟨⟨hlength, hranges⟩, rfl⟩
      rw [← hlength]
      exact readRanges_encodeRanges rest hranges

variable {frame : ControlFrame}

theorem finishPayload_eq_ok {result : ControlFrame} {rest : List UInt8} :
    finishPayload frame rest = .ok result ↔ rest = [] ∧ frame = result := by
  cases rest <;> simp [finishPayload]

theorem readCapabilities_canonical :
    Reader.Canonical readCapabilities (fun own => own.flags &&& ~~~capabilityMask = 0 ∧ own.InRange)
      (fun own => (ControlFrame.capabilities own).payload) := by
  intro input own rest
  constructor
  · intro h
    simp only [readCapabilities, readVarint_canonical.bind_eq_ok, Reader.throwIf_eq_ok,
      readShort_canonical.bind_eq_ok, readByte_canonical.bind_eq_ok, pure, Except.pure, Except.ok.injEq,
      Prod.mk.injEq, not_not, not_lt, ne_eq, gt_iff_lt] at h
    obtain ⟨flags, _, -, rfl, hmask, hflags, symbol, _, hsymbol, rfl, span, _, hspan, rfl, window, _, hwindow, rfl,
      ranges, _, -, rfl, hrange, rfl, rfl⟩ := h
    have hbyte : (UInt8.ofNat flags).toNat = flags := UInt8.toNat_ofNat_of_lt' (Nat.lt_succ_of_le hflags)
    refine ⟨⟨(and_mask_eq_zero _).mp (by rw [hbyte]; exact hmask), hrange⟩, ?_⟩
    simp [ControlFrame.payload, hbyte, UInt16.toNat_ofNat_of_lt' hsymbol, UInt16.toNat_ofNat_of_lt' hspan,
      UInt16.toNat_ofNat_of_lt' hwindow]
  · rintro ⟨⟨hmask, hrange⟩, rfl⟩
    obtain ⟨flags, maxSymbol, maxSpan, decoderWindow, maxAckRanges⟩ := own
    have hflags : flags.toNat ≤ 255 := Nat.le_of_lt_succ flags.toNat_lt
    have hwire : flags.toNat ≤ maxWireOffset := hflags.trans (by decide)
    simp only [readCapabilities, ControlFrame.payload, List.append_assoc, readVarint_encodeVarint _ hwire,
      (and_mask_eq_zero flags).mpr hmask, not_lt.mpr hflags, readShort_encode maxSymbol.toNat_lt,
      readShort_encode maxSpan.toNat_lt, readShort_encode decoderWindow.toNat_lt, List.singleton_append, readByte,
      bind, Except.bind, pure, Except.pure, ne_eq, not_true_eq_false, if_false, UInt8.ofNat_toNat,
      UInt16.ofNat_toNat, hrange]

variable {maxAckRanges : ℕ} {payload : List UInt8}

theorem decodeAck_eq_ok :
    decodeAck payload maxAckRanges = .ok frame ↔
      ∃ contiguous ranges, frame = .ack contiguous ranges ∧ frame.FieldsValid maxAckRanges ∧ payload = frame.payload := by
  constructor
  · intro h
    simp only [decodeAck, readVarint_canonical.bind_eq_ok, readByte_canonical.bind_eq_ok, Reader.throwIf_eq_ok,
      (readRanges_canonical _ _).bind_eq_ok, finishPayload_eq_ok, not_lt, gt_iff_lt] at h
    obtain ⟨contiguous, _, hcontiguous, rfl, count, _, -, rfl, hcount, ranges, _, ⟨hlength, hranges⟩, rfl, rfl, rfl⟩ := h
    have hfew : ranges.length ≤ 255 := hlength.trans_le (Nat.le_of_lt_succ count.toNat_lt)
    refine ⟨contiguous, ranges, rfl, ⟨hcontiguous, hlength.trans_le hcount, hfew, hranges⟩, ?_⟩
    simp [ControlFrame.payload, encodeRanges, hlength]
  · rintro ⟨contiguous, ranges, rfl, ⟨hcontiguous, hcount, hfew, hranges⟩, rfl⟩
    have hbyte : (UInt8.ofNat ranges.length).toNat = ranges.length := Nat.mod_eq_of_lt (Nat.lt_succ_of_le hfew)
    have hread := (readRanges_canonical _ _).read_encode ⟨rfl, hranges⟩ []
    rw [List.append_nil, encodeRanges] at hread
    simp only [decodeAck, ControlFrame.payload, readVarint_encodeVarint _ hcontiguous, readByte, bind, Except.bind,
      hbyte, gt_iff_lt, not_lt.mpr hcount, if_false, hread, finishPayload, ne_eq, not_true_eq_false]

theorem decodeOpen_eq_ok :
    decodeOpen payload = .ok frame ↔
      ∃ request : OpenRequest, frame = .openRequest request ∧ request.Valid ∧ payload = request.encode := by
  constructor
  · intro h
    unfold decodeOpen at h
    cases hdecode : OpenRequest.decode payload with
    | error error => simp [hdecode] at h
    | ok decoded =>
      obtain ⟨request, consumed⟩ := decoded
      simp only [hdecode] at h
      split_ifs at h with hwhole
      obtain rfl := Except.ok.inj h
      obtain ⟨hvalid, hconsumed, hstart⟩ := OpenRequest.decode_eq_ok.mp hdecode
      refine ⟨request, rfl, hvalid, (hstart.eq_of_length ?_).symm⟩
      rw [← hconsumed, not_not.mp hwhole]
  · rintro ⟨request, rfl, hvalid, rfl⟩
    have hdecode := OpenRequest.decode_eq_ok.mpr ⟨hvalid, rfl, List.prefix_refl request.encode⟩
    simp only [decodeOpen, hdecode, ne_eq, not_true_eq_false, if_false]

theorem decodeStatus_eq_ok :
    decodeStatus payload = .ok frame ↔ ∃ result : OpenStatus, frame = .status result ∧ payload = [result.encode] := by
  simp only [decodeStatus, readByte_canonical.bind_eq_ok]
  constructor
  · rintro ⟨value, rest, -, rfl, h⟩
    cases hdecode : OpenStatus.decode value with
    | error error => simp [hdecode] at h
    | ok result =>
      simp only [hdecode, finishPayload_eq_ok] at h
      obtain ⟨rfl, rfl⟩ := h
      exact ⟨result, rfl, by rw [OpenStatus.decode_eq_ok.mp hdecode, List.append_nil]⟩
  · rintro ⟨result, rfl, rfl⟩
    exact ⟨result.encode, [], trivial, rfl, by simp [OpenStatus.decode_eq_ok.mpr rfl, finishPayload]⟩

private theorem readVarint_finishPayload_eq_ok {make : ℕ → ControlFrame} :
    (readVarint payload >>= fun (value, rest) => finishPayload (make value) rest) = .ok frame ↔
      ∃ value, frame = make value ∧ value ≤ maxWireOffset ∧ payload = encodeVarint value := by
  simp only [readVarint_canonical.bind_eq_ok, finishPayload_eq_ok]
  constructor
  · rintro ⟨value, _, hvalue, rfl, rfl, rfl⟩
    exact ⟨value, rfl, hvalue, List.append_nil _⟩
  · rintro ⟨value, rfl, hvalue, rfl⟩
    exact ⟨value, [], hvalue, (List.append_nil _).symm, rfl, rfl⟩

theorem decodeStreamData_eq_ok :
    decodeStreamData payload = .ok frame ↔
      ∃ offset last data, frame = .streamData offset last data ∧ offset ≤ maxWireOffset ∧ payload = frame.payload := by
  simp only [decodeStreamData, readVarint_canonical.bind_eq_ok, readByte_canonical.bind_eq_ok, Reader.throwIf_eq_ok,
    pure, Except.pure, Except.ok.injEq, ne_eq, not_not]
  constructor
  · rintro ⟨offset, _, hoffset, rfl, flags, data, -, rfl, hflags, rfl⟩
    refine ⟨offset, decide (flags = 1), data, rfl, hoffset, ?_⟩
    simp [ControlFrame.payload, boolByte_of_and hflags]
  · rintro ⟨offset, last, data, rfl, hoffset, rfl⟩
    exact ⟨offset, boolByte last :: data, hoffset, rfl, boolByte last, data, trivial, rfl, boolByte_and last,
      by rw [decide_boolByte]⟩

theorem decodeEarlyOpen_eq_ok :
    decodeEarlyOpen payload = .ok frame ↔
      ∃ token nonce request initial, frame = .earlyOpen token nonce request initial ∧
        frame.FieldsValid maxAckRanges ∧ payload = frame.payload := by
  simp only [decodeEarlyOpen, readByte_canonical.bind_eq_ok, (readBytes_canonical _).bind_eq_ok,
    readLong_canonical.bind_eq_ok, Reader.throwIf_eq_ok, not_or, not_lt, gt_iff_lt]
  constructor
  · rintro ⟨tokenLength, _, -, rfl, ⟨hzero, hlong⟩, token, _, htoken, rfl, nonce, remaining, -, rfl, h⟩
    cases hdecode : OpenRequest.decode remaining with
    | error error => simp [hdecode] at h
    | ok decoded =>
      obtain ⟨request, consumed⟩ := decoded
      simp only [hdecode] at h
      split_ifs at h with hinitial
      obtain rfl := Except.ok.inj h
      obtain ⟨hvalid, rfl, after, rfl⟩ := OpenRequest.decode_eq_ok.mp hdecode
      rw [List.drop_left] at hinitial ⊢
      refine ⟨token, nonce, request, after, rfl, ⟨by omega, by omega, hvalid, hinitial⟩, ?_⟩
      simp [ControlFrame.payload, htoken]
  · rintro ⟨token, nonce, request, initial, rfl, ⟨hne, hlong, hvalid, hinitial⟩, rfl⟩
    have hbyte : (UInt8.ofNat token.length).toNat = token.length := Nat.mod_eq_of_lt (by omega)
    have hdecode := OpenRequest.decode_eq_ok.mpr ⟨hvalid, rfl, List.prefix_append request.encode initial⟩
    refine ⟨UInt8.ofNat token.length, _, trivial, rfl, ⟨by omega, by omega⟩, token, _, hbyte.symm, rfl, nonce, _,
      trivial, rfl, ?_⟩
    simp only [hdecode, List.drop_left, if_neg hinitial]

theorem decodePayload_eq_ok {kind : UInt8} :
    decodePayload kind payload maxAckRanges = .ok frame ↔
      frame.FieldsValid maxAckRanges ∧ kind = frame.kind ∧ payload = frame.payload := by
  constructor
  · intro h
    unfold decodePayload at h
    split at h
    · simp only [readCapabilities_canonical.bind_eq_ok, finishPayload_eq_ok] at h
      obtain ⟨own, _, hvalid, rfl, rfl, rfl⟩ := h
      exact ⟨hvalid, rfl, List.append_nil _⟩
    · obtain ⟨request, rfl, hvalid, rfl⟩ := decodeOpen_eq_ok.mp h
      exact ⟨hvalid, rfl, rfl⟩
    · obtain ⟨result, rfl, rfl⟩ := decodeStatus_eq_ok.mp h
      exact ⟨trivial, rfl, rfl⟩
    · obtain ⟨contiguous, ranges, rfl, hvalid, rfl⟩ := decodeAck_eq_ok.mp h
      exact ⟨hvalid, rfl, rfl⟩
    · obtain ⟨maximum, rfl, hvalid, rfl⟩ := readVarint_finishPayload_eq_ok.mp h
      exact ⟨hvalid, rfl, rfl⟩
    · obtain ⟨offset, rfl, hvalid, rfl⟩ := readVarint_finishPayload_eq_ok.mp h
      exact ⟨hvalid, rfl, rfl⟩
    · obtain ⟨offset, last, data, rfl, hvalid, rfl⟩ := decodeStreamData_eq_ok.mp h
      exact ⟨hvalid, rfl, rfl⟩
    · obtain ⟨token, nonce, request, initial, rfl, hvalid, rfl⟩ := (@decodeEarlyOpen_eq_ok _ maxAckRanges _).mp h
      exact ⟨hvalid, rfl, rfl⟩
    · cases h
  · rintro ⟨hvalid, rfl, rfl⟩
    cases frame with
    | capabilities own =>
      refine readCapabilities_canonical.bind_eq_ok.mpr ⟨own, [], hvalid, (List.append_nil _).symm, ?_⟩
      exact finishPayload_eq_ok.mpr ⟨rfl, rfl⟩
    | openRequest request => exact decodeOpen_eq_ok.mpr ⟨request, rfl, hvalid, rfl⟩
    | status result => exact decodeStatus_eq_ok.mpr ⟨result, rfl, rfl⟩
    | ack contiguous ranges => exact decodeAck_eq_ok.mpr ⟨contiguous, ranges, rfl, hvalid, rfl⟩
    | maxOffset maximum => exact readVarint_finishPayload_eq_ok.mpr ⟨maximum, rfl, hvalid, rfl⟩
    | fin offset => exact readVarint_finishPayload_eq_ok.mpr ⟨offset, rfl, hvalid, rfl⟩
    | streamData offset last data => exact decodeStreamData_eq_ok.mpr ⟨offset, last, data, rfl, hvalid, rfl⟩
    | earlyOpen token nonce request initial =>
      exact decodeEarlyOpen_eq_ok.mpr ⟨token, nonce, request, initial, rfl, hvalid, rfl⟩

variable {maxFrameBytes : ℕ}

private theorem checkedAdd_filter {length : ℕ} (h : length ≤ maxWireOffset) :
    (checkedAdd (1 + (encodeVarint length).length) length).filter (fun stop => decide (stop ≤ maxFrameBytes)) =
      if 1 + (encodeVarint length).length + length ≤ maxFrameBytes then
        some (1 + (encodeVarint length).length + length) else none := by
  have hheader := length_encodeVarint_le length
  have hword : 1 + (encodeVarint length).length + length ≤ wordMax := by
    unfold maxWireOffset at h
    unfold wordMax
    omega
  rw [checkedAdd, if_pos hword]
  by_cases hle : 1 + (encodeVarint length).length + length ≤ maxFrameBytes <;> simp [Option.filter_some, hle]

theorem controlPayloadRange_eq_ok {input : List UInt8} {header stop : ℕ} :
    controlPayloadRange input maxFrameBytes = .ok (header, stop) ↔
      ∃ kind length rest, input = kind :: (encodeVarint length ++ rest) ∧ length ≤ maxWireOffset ∧
        header = 1 + (encodeVarint length).length ∧ stop = header + length ∧ stop ≤ maxFrameBytes := by
  constructor
  · intro h
    cases input with
    | nil => simp [controlPayloadRange] at h
    | cons kind tail =>
      cases hdecode : decodeVarint tail with
      | error error => simp [controlPayloadRange, hdecode] at h
      | ok decoded =>
        obtain ⟨length, lengthBytes⟩ := decoded
        obtain ⟨hlength, rfl, rest, rfl⟩ := decodeVarint_eq_ok.mp hdecode
        simp only [controlPayloadRange, hdecode, checkedAdd_filter hlength] at h
        split_ifs at h with hle
        obtain ⟨rfl, rfl⟩ := Prod.mk.inj (Except.ok.inj h)
        exact ⟨kind, length, rest, rfl, hlength, rfl, rfl, hle⟩
  · rintro ⟨kind, length, rest, rfl, hlength, rfl, rfl, hle⟩
    simp only [controlPayloadRange, decodeVarint_encodeVarint rest hlength, checkedAdd_filter hlength, if_pos hle]

theorem drop_take_payload (kind : UInt8) (header rest : List UInt8) (length : ℕ) :
    ((kind :: (header ++ rest)).take (1 + header.length + length)).drop (1 + header.length) = rest.take length := by
  rw [List.drop_take, Nat.add_sub_cancel_left, Nat.add_comm 1, List.drop_succ_cons, List.drop_left]

theorem decodeControl_eq_ok {input : List UInt8} {length : ℕ} :
    decodeControl input maxAckRanges maxFrameBytes = .ok (frame, length) ↔
      frame.WellFormed maxAckRanges ∧ length = (encodeControl frame).length ∧ length ≤ maxFrameBytes ∧
        encodeControl frame <+: input := by
  simp only [decodeControl, Reader.bind_eq_ok, Reader.throwIf_eq_ok, Prod.exists, controlPayloadRange_eq_ok,
    decodePayload_eq_ok, not_lt, pure, Except.pure, Except.ok.injEq, Prod.mk.injEq]
  constructor
  · rintro ⟨header, stop, ⟨kind, size, rest, rfl, hsize, rfl, rfl, hle⟩, hlong, decoded, ⟨hvalid, hkind, hpayload⟩,
      rfl, rfl⟩
    rw [drop_take_payload] at hpayload
    have hlength : decoded.payload.length = size := by
      rw [← hpayload]
      simp only [List.length_cons, List.length_append] at hlong
      exact List.length_take_of_le (by omega)
    have hencode : encodeControl decoded = kind :: (encodeVarint size ++ rest.take size) := by
      rw [encodeControl, hlength, ← hpayload, ← hkind]
      rfl
    refine ⟨⟨hvalid, hlength.trans_le hsize⟩, ?_, hle, ?_⟩
    · rw [hencode, List.length_cons, List.length_append, hpayload, hlength]
      omega
    · rw [hencode]
      exact (List.prefix_cons_inj _).mpr ((List.prefix_append_right_inj _).mpr (List.take_prefix _ _))
  · rintro ⟨⟨hvalid, hsize⟩, rfl, hle, rest, rfl⟩
    have hencode : encodeControl frame ++ rest =
        frame.kind :: (encodeVarint frame.payload.length ++ (frame.payload ++ rest)) := by
      rw [encodeControl, List.cons_append, List.append_assoc]
    have hlength : (encodeControl frame).length =
        1 + (encodeVarint frame.payload.length).length + frame.payload.length := by
      rw [encodeControl, List.length_cons, List.length_append]
      omega
    refine ⟨_, _, ⟨frame.kind, frame.payload.length, frame.payload ++ rest, hencode, hsize, rfl, rfl, ?_⟩, ?_, frame,
      ⟨hvalid, by rw [hencode]; rfl, ?_⟩, rfl, hlength.symm⟩
    · rwa [← hlength]
    · rw [← hlength, List.length_append]
      omega
    · rw [hencode, drop_take_payload, List.take_left]

/-- Control frames have one encoding: a frame that can be written comes back whatever follows it, and what is
accepted is the encoding of the frame it is accepted as. -/
theorem control_encoding_unique (maxAckRanges maxFrameBytes : ℕ) :
    (∀ (frame : ControlFrame) (rest : List UInt8), frame.WellFormed maxAckRanges →
      (encodeControl frame).length ≤ maxFrameBytes →
      decodeControl (encodeControl frame ++ rest) maxAckRanges maxFrameBytes =
        .ok (frame, (encodeControl frame).length)) ∧
    ∀ (input : List UInt8) (frame : ControlFrame) (length : ℕ),
      decodeControl input maxAckRanges maxFrameBytes = .ok (frame, length) →
      length ≤ input.length ∧ encodeControl frame = input.take length := by
  constructor
  · intro frame rest hframe hlength
    exact decodeControl_eq_ok.mpr ⟨hframe, rfl, hlength, List.prefix_append _ _⟩
  · intro input frame length h
    obtain ⟨-, rfl, -, hstart⟩ := decodeControl_eq_ok.mp h
    exact ⟨hstart.length_le, List.prefix_iff_eq_take.mp hstart⟩

def sampleEarlyOpen : ControlFrame := .earlyOpen [7] 1 ⟨[0x61, 0x2e, 0x62], 443⟩ [5, 6]

theorem control_encoding_unique_earlyOpen :
    decodeControl (encodeControl sampleEarlyOpen ++ [0x05]) 32 64 = .ok (sampleEarlyOpen, 20) ∧
      encodeControl sampleEarlyOpen = (encodeControl sampleEarlyOpen ++ [0x05]).take 20 := by
  have hvalid : sampleEarlyOpen.WellFormed 32 :=
    ⟨⟨by decide, by decide, by decide +kernel, by decide⟩, by decide +kernel⟩
  have hlength : (encodeControl sampleEarlyOpen).length = 20 := by decide +kernel
  obtain ⟨hread, hwrite⟩ := control_encoding_unique 32 64
  have hdecode := hread sampleEarlyOpen [0x05] hvalid (by rw [hlength]; decide)
  rw [hlength] at hdecode
  exact ⟨hdecode, (hwrite _ _ _ hdecode).2⟩

end Quicp
