import Quicp.Wire.Varint

/-!
# Source datagrams

A source datagram carries its symbol identifier and up to 32 records of flow bytes. It
delimits itself, so a symbol that was padded with zeros for coding still decodes to the
datagram it was made from.
-/

namespace Quicp

/-- `SOURCE_DATAGRAM`. -/
def sourceDatagramType : UInt8 := 0x20

def maxSourceRecords : ℕ := 32

def repairDatagramHeaderBytes : ℕ := 1 + 4 + 4 + 2 + 2 + 4

def singleSourceMaxOverhead : ℕ := (1 + 4 + 1) + (8 + 8 + 1 + 8)

structure SourceRecord where
  flowId : ℕ
  offset : ℕ
  fin : Bool
  data : List UInt8
  deriving DecidableEq, Repr

/-- `SourceDatagram`: the first record and the validated bytes of the others. -/
structure SourceDatagram where
  symbolId : UInt32
  firstRecord : SourceRecord
  remainingRecords : List UInt8
  recordCount : ℕ
  deriving DecidableEq, Repr

def validateWireRange (offset length : ℕ) : Except CodecError Unit :=
  match (checkedAdd offset length).filter (fun stop => decide (stop ≤ maxWireOffset)) with
  | some _ => .ok ()
  | none => .error .invalidField

/-- `u8::from` of a flag. -/
def boolByte (flag : Bool) : UInt8 := if flag then 1 else 0

/-- The bytes that the loop of `encode_source` appends for a record. -/
def SourceRecord.encoded (record : SourceRecord) : List UInt8 :=
  encodeVarint record.flowId ++ (encodeVarint record.offset ++
    (boolByte record.fin :: (encodeVarint record.data.length ++ record.data)))

/-- The body of the loop of `encode_source`. -/
def encodeSourceRecord (record : SourceRecord) : Except CodecError (List UInt8) :=
  if record.data = [] then .error .invalidField
  else
    match validateWireRange record.offset record.data.length with
    | .error error => .error error
    | .ok () => .ok record.encoded

/-- The loop of `encode_source`. -/
def encodeSourceRecords : List SourceRecord → Except CodecError (List UInt8)
  | [] => .ok []
  | record :: rest =>
    match encodeSourceRecord record with
    | .error error => .error error
    | .ok bytes =>
      match encodeSourceRecords rest with
      | .error error => .error error
      | .ok later => .ok (bytes ++ later)

def encodeSource (symbolId : UInt32) (records : List SourceRecord) : Except CodecError (List UInt8) :=
  if records.length > 255 then .error .limit
  else if records.length = 0 then .error .invalidField
  else
    match encodeSourceRecords records with
    | .error error => .error error
    | .ok body => .ok (sourceDatagramType ::
        (BigEndian.encode 4 symbolId.toNat ++ (UInt8.ofNat records.length :: body)))

def decodeSourceRecord (input : List UInt8) : Except CodecError (SourceRecord × List UInt8) := do
  let (flowId, input) ← readVarint input
  let (offset, input) ← readVarint input
  let (flags, input) ← readByte input
  if flags &&& 0xfe ≠ 0 then
    throw .invalidField
  let (length, input) ← readVarint input
  if length = 0 then
    throw .invalidField
  validateWireRange offset length
  let (data, input) ← readBytes length input
  return (⟨flowId, offset, flags = 1, data⟩, input)

/-- The loop of `decode_source_inner`: the bytes left after the given number of records. -/
def skipSourceRecords : ℕ → List UInt8 → Except CodecError (List UInt8)
  | 0, input => .ok input
  | count + 1, input =>
    match decodeSourceRecord input with
    | .error error => .error error
    | .ok (_, rest) => skipSourceRecords count rest

/-- `decode_source_inner`: the datagram and the bytes that follow it. -/
def decodeSourceInner (input : List UInt8) (maxRecords maxSymbolBytes : ℕ) :
    Except CodecError (SourceDatagram × List UInt8) := do
  if input.length > maxSymbolBytes then
    throw .limit
  let (type, rest) ← readByte input
  if type ≠ sourceDatagramType then
    throw .unknownType
  let (symbolId, rest) ← readWord rest
  let (count, rest) ← readByte rest
  if count.toNat = 0 ∨ count.toNat > maxRecords then
    throw .limit
  let (firstRecord, rest) ← decodeSourceRecord rest
  let after ← skipSourceRecords (count.toNat - 1) rest
  return (⟨symbolId, firstRecord, rest.take (rest.length - after.length), count.toNat⟩, after)

def decodeSource (input : List UInt8) (maxRecords maxSymbolBytes : ℕ) :
    Except CodecError SourceDatagram :=
  match decodeSourceInner input maxRecords maxSymbolBytes with
  | .error error => .error error
  | .ok (source, rest) => if rest ≠ [] then .error .trailingBytes else .ok source

/-- `decode_source_padded`: the datagram and the number of bytes before its padding. -/
def decodeSourcePadded (input : List UInt8) (maxRecords maxSymbolBytes : ℕ) :
    Except CodecError (SourceDatagram × ℕ) :=
  match decodeSourceInner input maxRecords maxSymbolBytes with
  | .error error => .error error
  | .ok (source, rest) =>
    if rest.any (fun byte => byte ≠ 0) then .error .trailingBytes
    else .ok (source, input.length - rest.length)

/-- The records of `records` after the first one; its readers stop at the first error. -/
def laterRecords : ℕ → List UInt8 → List (Except CodecError SourceRecord)
  | 0, _ => []
  | count + 1, input =>
    match decodeSourceRecord input with
    | .error error => [.error error]
    | .ok (record, rest) => .ok record :: laterRecords count rest

def SourceDatagram.records (source : SourceDatagram) : List (Except CodecError SourceRecord) :=
  .ok source.firstRecord :: laterRecords (source.recordCount - 1) source.remainingRecords

def SourceDatagram.singleRecord (source : SourceDatagram) : Option SourceRecord :=
  if source.recordCount = 1 then some source.firstRecord else none

def SourceRecord.Valid (record : SourceRecord) : Prop :=
  record.flowId ≤ maxWireOffset ∧ record.data ≠ [] ∧ record.offset + record.data.length ≤ maxWireOffset

theorem SourceRecord.length_encoded_le (record : SourceRecord) : record.encoded.length ≤ record.data.length + 25 := by
  have hflow := length_encodeVarint_le record.flowId
  have hoffset := length_encodeVarint_le record.offset
  have hlength := length_encodeVarint_le record.data.length
  simp only [SourceRecord.encoded, List.length_append, List.length_cons]
  omega

theorem validateWireRange_eq_ok {offset length : ℕ} :
    validateWireRange offset length = .ok () ↔ offset + length ≤ maxWireOffset := by
  unfold validateWireRange checkedAdd
  by_cases hle : offset + length ≤ maxWireOffset
  · have hword : offset + length ≤ wordMax := hle.trans (by decide)
    simp [hword, Option.filter_some, hle]
  · by_cases hword : offset + length ≤ wordMax <;> simp [hword, Option.filter_some, hle]

theorem validateWireRange_bind_eq_ok {α : Type} {offset length : ℕ} {next : Unit → Except CodecError α}
    {result : α} :
    (validateWireRange offset length >>= next) = .ok result ↔
      offset + length ≤ maxWireOffset ∧ next () = .ok result := by
  rw [Reader.bind_eq_ok, ← validateWireRange_eq_ok]
  exact ⟨fun ⟨_, h⟩ => h, fun h => ⟨(), h⟩⟩

theorem boolByte_of_and {flags : UInt8} (h : flags &&& 0xfe = 0) : boolByte (decide (flags = 1)) = flags := by
  have hcases : ∀ bits : BitVec 8, bits &&& 0xfe = 0 → bits = 0 ∨ bits = 1 := by decide +kernel
  rcases hcases flags.toBitVec (congrArg UInt8.toBitVec h) with hzero | hone
  · rw [show flags = 0 from UInt8.toBitVec_inj.mp hzero]
    rfl
  · rw [show flags = 1 from UInt8.toBitVec_inj.mp hone]
    rfl

theorem boolByte_and (flag : Bool) : boolByte flag &&& 0xfe = 0 := by cases flag <;> rfl

theorem decide_boolByte (flag : Bool) : decide (boolByte flag = 1) = flag := by cases flag <;> rfl

variable {bytes : List UInt8} {record : SourceRecord}

theorem encodeSourceRecord_eq_ok :
    encodeSourceRecord record = .ok bytes ↔
      bytes = record.encoded ∧ record.data ≠ [] ∧ record.offset + record.data.length ≤ maxWireOffset := by
  unfold encodeSourceRecord
  split_ifs with hempty
  · simp [hempty]
  · cases hrange : validateWireRange record.offset record.data.length with
    | error error =>
      have hnot : ¬record.offset + record.data.length ≤ maxWireOffset := fun hle => by
        rw [validateWireRange_eq_ok.mpr hle] at hrange
        cases hrange
      simp [hnot]
    | ok value => simp [hempty, validateWireRange_eq_ok.mp hrange, eq_comm]

theorem decodeSourceRecord_encoded (rest : List UInt8) (hvalid : record.Valid) :
    decodeSourceRecord (record.encoded ++ rest) = .ok (record, rest) := by
  obtain ⟨hflow, hdata, hrange⟩ := hvalid
  have hoffset : record.offset ≤ maxWireOffset := le_of_add_le_left hrange
  have hlength : record.data.length ≤ maxWireOffset := le_of_add_le_right hrange
  have hpositive : record.data.length ≠ 0 := List.length_pos_iff.mpr hdata |>.ne'
  simp only [SourceRecord.encoded, List.append_assoc, List.cons_append, decodeSourceRecord,
    readVarint_encodeVarint _ hflow, readVarint_encodeVarint _ hoffset, readVarint_encodeVarint _ hlength,
    readByte, boolByte_and, hpositive, validateWireRange_eq_ok.mpr hrange, readBytes, bind, Except.bind, pure,
    Except.pure]
  simp [decide_boolByte]

theorem decodeSourceRecord_canonical :
    Reader.Canonical decodeSourceRecord SourceRecord.Valid SourceRecord.encoded := by
  intro input record rest
  constructor
  · intro h
    simp only [decodeSourceRecord, readVarint_canonical.bind_eq_ok, readByte_canonical.bind_eq_ok,
      (readBytes_canonical _).bind_eq_ok, Reader.throwIf_eq_ok, validateWireRange_bind_eq_ok, pure, Except.pure,
      Except.ok.injEq, Prod.mk.injEq] at h
    obtain ⟨flowId, _, hflow, rfl, offset, _, -, rfl, flags, _, -, rfl, hflags, _, _, -, rfl, hempty, hrange, data,
      _, rfl, rfl, rfl, rfl⟩ := h
    refine ⟨⟨hflow, fun h => hempty (List.length_eq_zero_iff.mpr h), hrange⟩, ?_⟩
    simp [SourceRecord.encoded, boolByte_of_and (not_not.mp hflags)]
  · rintro ⟨hvalid, rfl⟩
    exact decodeSourceRecord_encoded rest hvalid

variable {records : List SourceRecord}

theorem encodeSourceRecords_eq_ok :
    encodeSourceRecords records = .ok bytes ↔
      bytes = (records.map SourceRecord.encoded).flatten ∧
        ∀ record ∈ records, record.data ≠ [] ∧ record.offset + record.data.length ≤ maxWireOffset := by
  induction records generalizing bytes with
  | nil => simp [encodeSourceRecords, eq_comm]
  | cons record rest ih =>
    unfold encodeSourceRecords
    cases hrecord : encodeSourceRecord record with
    | error error =>
      have hnot : ¬(record.data ≠ [] ∧ record.offset + record.data.length ≤ maxWireOffset) := fun hvalid => by
        rw [encodeSourceRecord_eq_ok.mpr ⟨rfl, hvalid⟩] at hrecord
        cases hrecord
      simp only [reduceCtorEq, false_iff, not_and]
      exact fun _ hall => hnot (hall record List.mem_cons_self)
    | ok first =>
      obtain ⟨rfl, hvalid⟩ := encodeSourceRecord_eq_ok.mp hrecord
      cases hlater : encodeSourceRecords rest with
      | error error =>
        simp only [reduceCtorEq, false_iff, not_and]
        intro _ hall
        have hrest := fun record h => hall record (List.mem_cons_of_mem _ h)
        rw [ih.mpr ⟨rfl, hrest⟩] at hlater
        cases hlater
      | ok later =>
        obtain ⟨rfl, hrest⟩ := ih.mp hlater
        simp only [Except.ok.injEq, List.map_cons, List.flatten_cons, List.forall_mem_cons]
        exact ⟨fun h => ⟨h.symm, hvalid, hrest⟩, fun h => h.1.symm⟩

theorem skipSourceRecords_encoded (rest : List UInt8)
    (hvalid : ∀ record ∈ records, record.Valid) :
    skipSourceRecords records.length ((records.map SourceRecord.encoded).flatten ++ rest) = .ok rest := by
  induction records with
  | nil => rfl
  | cons record later ih =>
    have hrecord := hvalid record List.mem_cons_self
    simp only [List.map_cons, List.flatten_cons, List.append_assoc, List.length_cons, skipSourceRecords,
      decodeSourceRecord_encoded _ hrecord]
    exact ih fun record h => hvalid record (List.mem_cons_of_mem _ h)

theorem readWord_encode (word : UInt32) (rest : List UInt8) :
    readWord (BigEndian.encode 4 word.toNat ++ rest) = .ok (word, rest) :=
  readWord_canonical.read_encode trivial rest

def datagramOf (symbolId : UInt32) (first : SourceRecord) (later : List SourceRecord) : SourceDatagram :=
  ⟨symbolId, first, (later.map SourceRecord.encoded).flatten, later.length + 1⟩

variable {symbolId : UInt32}

theorem decodeSourceInner_encodeSource {first : SourceRecord} {later : List SourceRecord}
    {padding : List UInt8} {maxRecords maxSymbolBytes : ℕ}
    (hflow : ∀ record ∈ first :: later, record.flowId ≤ maxWireOffset)
    (h : encodeSource symbolId (first :: later) = .ok bytes) (hrecords : later.length + 1 ≤ maxRecords)
    (hsize : (bytes ++ padding).length ≤ maxSymbolBytes) :
    decodeSourceInner (bytes ++ padding) maxRecords maxSymbolBytes =
      .ok (datagramOf symbolId first later, padding) := by
  unfold encodeSource at h
  split_ifs at h with hmany
  cases hbody : encodeSourceRecords (first :: later) with
  | error error => simp [hbody] at h
  | ok body =>
    obtain ⟨rfl, hencodes⟩ := encodeSourceRecords_eq_ok.mp hbody
    simp only [hbody, Except.ok.injEq] at h
    have hvalid : ∀ record ∈ first :: later, record.Valid := fun record hmem =>
      ⟨hflow record hmem, hencodes record hmem⟩
    have hskip := skipSourceRecords_encoded padding fun record hmem => hvalid record (List.mem_cons_of_mem _ hmem)
    have hcount : (UInt8.ofNat (later.length + 1)).toNat = later.length + 1 :=
      Nat.mod_eq_of_lt (by simp only [List.length_cons] at hmany; omega)
    have hlong : ¬(bytes ++ padding).length > maxSymbolBytes := not_lt.mpr hsize
    have hfew : ¬(later.length + 1 = 0 ∨ later.length + 1 > maxRecords) := by omega
    unfold decodeSourceInner
    rw [if_neg hlong]
    subst h
    simp only [List.cons_append, List.append_assoc, readByte, bind, Except.bind,
      pure, Except.pure, ne_eq, not_true_eq_false, if_false, readWord_encode, List.length_cons, hcount,
      List.map_cons, List.flatten_cons, decodeSourceRecord_encoded _ (hvalid first List.mem_cons_self),
      Nat.add_sub_cancel, hskip, datagramOf, if_neg hfew]
    simp

theorem decodeSourcePadded_encodeSource {first : SourceRecord}
    {later : List SourceRecord} {padding : List UInt8} {maxRecords maxSymbolBytes : ℕ}
    (hflow : ∀ record ∈ first :: later, record.flowId ≤ maxWireOffset)
    (h : encodeSource symbolId (first :: later) = .ok bytes) (hrecords : later.length + 1 ≤ maxRecords)
    (hsize : (bytes ++ padding).length ≤ maxSymbolBytes) (hpadding : ∀ byte ∈ padding, byte = 0) :
    decodeSourcePadded (bytes ++ padding) maxRecords maxSymbolBytes =
      .ok (datagramOf symbolId first later, bytes.length) := by
  unfold decodeSourcePadded
  rw [decodeSourceInner_encodeSource hflow h hrecords hsize]
  simpa using hpadding

/-- The record with the flow number that its bytes carry. -/
def SourceRecord.onWire (record : SourceRecord) : SourceRecord := { record with flowId := record.flowId % 2 ^ 62 }

def SourceRecord.Readable (record : SourceRecord) : Prop :=
  record.flowId ≤ maxWireOffset ∨ 1073741824 ≤ record.flowId % 2 ^ 62

theorem SourceRecord.encoded_onWire (h : record.Readable) (hword : record.flowId ≤ wordMax) :
    record.onWire.encoded = record.encoded := by
  have hflow : encodeVarint (record.flowId % 2 ^ 62) = encodeVarint record.flowId := by
    by_cases hwire : record.flowId ≤ maxWireOffset
    · have hlt : record.flowId < 2 ^ 62 := lt_of_le_of_lt hwire (by decide)
      rw [Nat.mod_eq_of_lt hlt]
    · exact (encodeVarint_wide_of_le (not_le.mp hwire) hword (h.resolve_left hwire)).symm
  simp only [SourceRecord.encoded, SourceRecord.onWire, hflow]

theorem SourceRecord.onWire_le (record : SourceRecord) : record.onWire.flowId ≤ maxWireOffset := by
  have hlt : record.flowId % 2 ^ 62 < 2 ^ 62 := Nat.mod_lt _ (by decide)
  exact Nat.le_sub_one_of_lt hlt

theorem decodeSourceRecord_unreadable (rest : List UInt8) (h : ¬record.Readable)
    (hword : record.flowId ≤ wordMax) : decodeSourceRecord (record.encoded ++ rest) = .error .nonCanonical := by
  rw [SourceRecord.Readable, not_or, not_le, not_le] at h
  simp only [SourceRecord.encoded, List.append_assoc, List.cons_append, decodeSourceRecord,
    readVarint_wide _ h.1 hword h.2, bind, Except.bind]

theorem skipSourceRecords_unreadable (rest : List UInt8)
    (hencodes : ∀ record ∈ records, record.data ≠ [] ∧ record.offset + record.data.length ≤ maxWireOffset)
    (hword : ∀ record ∈ records, record.flowId ≤ wordMax) (h : ∃ record ∈ records, ¬record.Readable) :
    skipSourceRecords records.length ((records.map SourceRecord.encoded).flatten ++ rest) = .error .nonCanonical := by
  induction records with
  | nil => simp at h
  | cons record later ih =>
    obtain ⟨hrecord, hlater⟩ := List.forall_mem_cons.mp hencodes
    obtain ⟨hflow, hflows⟩ := List.forall_mem_cons.mp hword
    simp only [List.map_cons, List.flatten_cons, List.append_assoc, List.length_cons, skipSourceRecords]
    by_cases hreadable : record.Readable
    · rw [← SourceRecord.encoded_onWire hreadable hflow,
        decodeSourceRecord_encoded _ ⟨record.onWire_le, hrecord⟩]
      refine ih hlater hflows ?_
      obtain ⟨other, hother, hnot⟩ := h
      rcases List.mem_cons.mp hother with rfl | hin
      · exact absurd hreadable hnot
      · exact ⟨other, hin, hnot⟩
    · rw [decodeSourceRecord_unreadable _ hreadable hflow]

theorem encodeSource_eq_ok :
    encodeSource symbolId records = .ok bytes ↔
      (records.length ≤ 255 ∧ records ≠ [] ∧
        ∀ record ∈ records, record.data ≠ [] ∧ record.offset + record.data.length ≤ maxWireOffset) ∧
      bytes = sourceDatagramType :: (BigEndian.encode 4 symbolId.toNat ++
        (UInt8.ofNat records.length :: (records.map SourceRecord.encoded).flatten)) := by
  unfold encodeSource
  split_ifs with hmany hnone
  · simp only [false_iff, not_and]
    exact fun hfew => absurd hfew.1 (not_le.mpr hmany)
  · simp [List.eq_nil_of_length_eq_zero hnone]
  · have hne : records ≠ [] := fun hnil => hnone (by rw [hnil]; rfl)
    cases hbody : encodeSourceRecords records with
    | error error =>
      simp only [reduceCtorEq, false_iff, not_and]
      rintro ⟨_, _, hall⟩
      rw [encodeSourceRecords_eq_ok.mpr ⟨rfl, hall⟩] at hbody
      cases hbody
    | ok body =>
      obtain ⟨rfl, hall⟩ := encodeSourceRecords_eq_ok.mp hbody
      simp only [Except.ok.injEq]
      exact ⟨fun h => ⟨⟨not_lt.mp hmany, hne, hall⟩, h.symm⟩, fun h => h.2.symm⟩

theorem encodeSource_onWire
    (h : encodeSource symbolId records = .ok bytes) (hword : ∀ record ∈ records, record.flowId ≤ wordMax)
    (hreadable : ∀ record ∈ records, record.Readable) :
    encodeSource symbolId (records.map SourceRecord.onWire) = .ok bytes := by
  obtain ⟨⟨hlength, hne, hall⟩, rfl⟩ := encodeSource_eq_ok.mp h
  have hencoded : (records.map SourceRecord.onWire).map SourceRecord.encoded = records.map SourceRecord.encoded := by
    rw [List.map_map]
    exact List.map_congr_left fun record hmem => SourceRecord.encoded_onWire (hreadable record hmem) (hword record hmem)
  refine encodeSource_eq_ok.mpr ⟨⟨by simpa using hlength, by simpa using hne, ?_⟩, ?_⟩
  · exact List.forall_mem_map.mpr hall
  · rw [hencoded, List.length_map]

theorem decodeSourcePadded_unreadable
    (h : encodeSource symbolId records = .ok bytes) (hword : ∀ record ∈ records, record.flowId ≤ wordMax)
    (hunreadable : ∃ record ∈ records, ¬record.Readable) (padding : List UInt8) (maxRecords maxSymbolBytes : ℕ) :
    ∃ error, decodeSourcePadded (bytes ++ padding) maxRecords maxSymbolBytes = .error error := by
  obtain ⟨⟨hlength, hne, hall⟩, rfl⟩ := encodeSource_eq_ok.mp h
  have hskip := skipSourceRecords_unreadable padding hall hword hunreadable
  have hcount : (UInt8.ofNat records.length).toNat = records.length := Nat.mod_eq_of_lt (by omega)
  have hturns : records.length = records.length - 1 + 1 :=
    (Nat.sub_add_cancel (List.length_pos_iff.mpr hne)).symm
  have hinner : ∃ error, decodeSourceInner (sourceDatagramType :: (BigEndian.encode 4 symbolId.toNat ++
      (UInt8.ofNat records.length :: (records.map SourceRecord.encoded).flatten)) ++ padding) maxRecords
        maxSymbolBytes = .error error := by
    unfold decodeSourceInner
    split_ifs with hlong
    · exact ⟨_, rfl⟩
    · simp only [List.cons_append, List.append_assoc, readByte, bind, Except.bind, pure, Except.pure, ne_eq,
        not_true_eq_false, if_false, readWord_encode, hcount]
      split_ifs with hfew
      · exact ⟨_, rfl⟩
      · rw [hturns, skipSourceRecords] at hskip
        cases hfirst : decodeSourceRecord ((records.map SourceRecord.encoded).flatten ++ padding) with
        | error error => exact ⟨_, rfl⟩
        | ok decoded =>
          rw [hfirst] at hskip
          dsimp only at hskip ⊢
          rw [hskip]
          exact ⟨_, rfl⟩
  obtain ⟨error, herror⟩ := hinner
  rw [decodeSourcePadded, herror]
  exact ⟨error, rfl⟩

end Quicp
