import Quicp.Wire.Repair

/-!
# Source and repair datagrams have one encoding

The records of a source datagram are parsed twice: once when the datagram is checked and again when they are used.
-/

namespace Quicp

variable {input rest : List UInt8}

theorem skipSourceRecords_eq_ok {count : ℕ} :
    skipSourceRecords count input = .ok rest ↔
      ∃ records : List SourceRecord, records.length = count ∧ (∀ record ∈ records, record.Valid) ∧
        input = (records.map SourceRecord.encoded).flatten ++ rest := by
  constructor
  · intro h
    induction count generalizing input with
    | zero => exact ⟨[], rfl, by simp, Except.ok.inj h⟩
    | succ count ih =>
      unfold skipSourceRecords at h
      cases hdecode : decodeSourceRecord input with
      | error error => simp [hdecode] at h
      | ok decoded =>
        obtain ⟨record, after⟩ := decoded
        rw [hdecode] at h
        obtain ⟨hvalid, rfl⟩ := (decodeSourceRecord_canonical _ _ _).mp hdecode
        obtain ⟨later, rfl, hlater, rfl⟩ := ih h
        exact ⟨record :: later, rfl, List.forall_mem_cons.mpr ⟨hvalid, hlater⟩, by simp⟩
  · rintro ⟨records, rfl, hvalid, rfl⟩
    exact skipSourceRecords_encoded rest hvalid

theorem laterRecords_encoded {records : List SourceRecord} (hvalid : ∀ record ∈ records, record.Valid) :
    laterRecords records.length (records.map SourceRecord.encoded).flatten = records.map .ok := by
  induction records with
  | nil => rfl
  | cons record later ih =>
    obtain ⟨hrecord, hlater⟩ := List.forall_mem_cons.mp hvalid
    simp only [List.length_cons, List.map_cons, List.flatten_cons, laterRecords,
      decodeSourceRecord_encoded _ hrecord, ih hlater]

theorem records_datagramOf {symbolId : UInt32} {first : SourceRecord} {later : List SourceRecord}
    (hvalid : ∀ record ∈ first :: later, record.Valid) :
    (datagramOf symbolId first later).records = (first :: later).map .ok := by
  have hlater := laterRecords_encoded fun record hmem => hvalid record (List.mem_cons_of_mem _ hmem)
  simp only [SourceDatagram.records, datagramOf, Nat.add_sub_cancel, hlater, List.map_cons]

theorem encodeSource_of_valid (symbolId : UInt32) {records : List SourceRecord} (hne : records ≠ [])
    (hfew : records.length ≤ 255) (hvalid : ∀ record ∈ records, record.Valid) :
    encodeSource symbolId records = .ok (sourceDatagramType :: (BigEndian.encode 4 symbolId.toNat ++
      (UInt8.ofNat records.length :: (records.map SourceRecord.encoded).flatten))) :=
  encodeSource_eq_ok.mpr ⟨⟨hfew, hne, fun record hmem => (hvalid record hmem).2⟩, rfl⟩

variable {maxRecords maxSymbolBytes : ℕ} {source : SourceDatagram}

theorem decodeSourceInner_eq_ok :
    decodeSourceInner input maxRecords maxSymbolBytes = .ok (source, rest) ↔
      ∃ first later bytes, source = datagramOf source.symbolId first later ∧
        (∀ record ∈ first :: later, record.Valid) ∧ encodeSource source.symbolId (first :: later) = .ok bytes ∧
        later.length + 1 ≤ maxRecords ∧ input = bytes ++ rest ∧ input.length ≤ maxSymbolBytes := by
  constructor
  · intro h
    simp only [decodeSourceInner, Reader.throwIf_eq_ok, readByte_canonical.bind_eq_ok, readWord_canonical.bind_eq_ok,
      decodeSourceRecord_canonical.bind_eq_ok, not_lt, not_or, ne_eq, not_not, gt_iff_lt] at h
    simp only [Reader.bind_eq_ok, skipSourceRecords_eq_ok, pure, Except.pure, Except.ok.injEq, Prod.mk.injEq] at h
    obtain ⟨hsize, _, _, -, rfl, rfl, symbolId, _, -, rfl, count, _, -, rfl, ⟨hcount, hmany⟩, first, _, hfirst, rfl,
      after, ⟨later, hlength, hlater, rfl⟩, rfl, rfl⟩ := h
    have hturns : count.toNat = later.length + 1 := by omega
    have hvalid : ∀ record ∈ first :: later, record.Valid := List.forall_mem_cons.mpr ⟨hfirst, hlater⟩
    have hfew : (first :: later).length ≤ 255 := by
      rw [List.length_cons, ← hturns]
      exact Nat.le_of_lt_succ count.toNat_lt
    have hencode := encodeSource_of_valid symbolId (List.cons_ne_nil first later) hfew hvalid
    refine ⟨first, later, _, ?_, hvalid, hencode, hturns ▸ hmany, ?_, hsize⟩
    · simp [datagramOf, hturns]
    · simp [← hturns]
  · rintro ⟨first, later, bytes, hsource, hvalid, hencode, hrecords, rfl, hsize⟩
    rw [hsource]
    exact decodeSourceInner_encodeSource (fun record hmem => (hvalid record hmem).1) hencode hrecords hsize

theorem encodeSource_of_decodeSourceInner
    (h : decodeSourceInner input maxRecords maxSymbolBytes = .ok (source, rest)) :
    ∃ records bytes, source.records = records.map .ok ∧ encodeSource source.symbolId records = .ok bytes ∧
      input = bytes ++ rest := by
  obtain ⟨first, later, bytes, hsource, hvalid, hencode, -, hinput, -⟩ := decodeSourceInner_eq_ok.mp h
  refine ⟨first :: later, bytes, ?_, hencode, hinput⟩
  rw [hsource]
  exact records_datagramOf hvalid

theorem encodeSource_of_decodeSource (h : decodeSource input maxRecords maxSymbolBytes = .ok source) :
    ∃ records, source.records = records.map .ok ∧ encodeSource source.symbolId records = .ok input := by
  cases hinner : decodeSourceInner input maxRecords maxSymbolBytes with
  | error error => simp [decodeSource, hinner] at h
  | ok decoded =>
    obtain ⟨inner, rest⟩ := decoded
    simp only [decodeSource, hinner] at h
    split_ifs at h with hrest
    obtain rfl := Except.ok.inj h
    obtain ⟨records, bytes, hrecords, hencode, hinput⟩ := encodeSource_of_decodeSourceInner hinner
    rw [not_not.mp hrest, List.append_nil] at hinput
    exact ⟨records, hrecords, hinput ▸ hencode⟩

theorem encodeSource_of_decodeSourcePadded {consumed : ℕ}
    (h : decodeSourcePadded input maxRecords maxSymbolBytes = .ok (source, consumed)) :
    ∃ records, source.records = records.map .ok ∧
      encodeSource source.symbolId records = .ok (input.take consumed) := by
  cases hinner : decodeSourceInner input maxRecords maxSymbolBytes with
  | error error => simp [decodeSourcePadded, hinner] at h
  | ok decoded =>
    obtain ⟨inner, rest⟩ := decoded
    simp only [decodeSourcePadded, hinner] at h
    split_ifs at h with hrest
    obtain ⟨rfl, rfl⟩ := Prod.mk.inj (Except.ok.inj h)
    obtain ⟨records, bytes, hrecords, hencode, rfl⟩ := encodeSource_of_decodeSourceInner hinner
    refine ⟨records, hrecords, ?_⟩
    rw [List.length_append, Nat.add_sub_cancel, List.take_left]
    exact hencode

theorem encodeRepair_of_decodeRepair {frame : RepairDatagram}
    (h : decodeRepair input maxSymbolBytes = .ok frame) : encodeRepair frame = .ok input := by
  simp only [decodeRepair, readByte_canonical.bind_eq_ok, readWord_canonical.bind_eq_ok,
    readShort_canonical.bind_eq_ok, (readBytes_canonical _).bind_eq_ok, Reader.throwIf_eq_ok, pure, Except.pure,
    Except.ok.injEq, ne_eq, not_not] at h
  obtain ⟨_, _, -, rfl, rfl, repairId, _, -, rfl, firstSymbolId, _, -, rfl, span, _, hspan, rfl, symbolSize, _, hsize,
    rfl, seed, _, -, rfl, hvalid, coded, _, hcoded, rfl, rfl, rfl⟩ := h
  have hfields : ¬(span = 0 ∨ span > maxRepairSpan ∨ symbolSize = 0 ∨ coded.length ≠ symbolSize) := by
    simp only [not_or] at hvalid
    simp only [not_or, not_not]
    exact ⟨hvalid.1, hvalid.2.1, hvalid.2.2.1, hcoded⟩
  simp [encodeRepair, hfields]

/-- Source and repair datagrams have one encoding. Written records come back in both passes, with zero padding or
without it; what is accepted is the encoding of what it is accepted as. -/
theorem datagram_encoding_unique (maxSymbolBytes : ℕ) :
    (∀ (symbolId : UInt32) (records : List SourceRecord), records ≠ [] → records.length ≤ maxSourceRecords →
      (∀ record ∈ records, record.Valid) →
      ∃ bytes source, encodeSource symbolId records = .ok bytes ∧ source.symbolId = symbolId ∧
        source.records = records.map .ok ∧
        (bytes.length ≤ maxSymbolBytes → decodeSource bytes maxSourceRecords maxSymbolBytes = .ok source) ∧
        ∀ padding : List UInt8, (∀ byte ∈ padding, byte = 0) → (bytes ++ padding).length ≤ maxSymbolBytes →
          decodeSourcePadded (bytes ++ padding) maxSourceRecords maxSymbolBytes = .ok (source, bytes.length)) ∧
    (∀ (input : List UInt8) (maxRecords : ℕ) (source : SourceDatagram),
      decodeSource input maxRecords maxSymbolBytes = .ok source →
      ∃ records, source.records = records.map .ok ∧ encodeSource source.symbolId records = .ok input) ∧
    (∀ (input : List UInt8) (maxRecords consumed : ℕ) (source : SourceDatagram),
      decodeSourcePadded input maxRecords maxSymbolBytes = .ok (source, consumed) →
      ∃ records, source.records = records.map .ok ∧
        encodeSource source.symbolId records = .ok (input.take consumed)) ∧
    (∀ (frame : RepairDatagram) (bytes : List UInt8), frame.symbolSize < 2 ^ 16 → frame.symbolSize ≤ maxSymbolBytes →
      encodeRepair frame = .ok bytes → decodeRepair bytes maxSymbolBytes = .ok frame) ∧
    ∀ (input : List UInt8) (frame : RepairDatagram),
      decodeRepair input maxSymbolBytes = .ok frame → encodeRepair frame = .ok input := by
  refine ⟨?_, ?_, ?_, ?_, ?_⟩
  · intro symbolId records hne hfew hvalid
    obtain ⟨first, later, rfl⟩ := List.exists_cons_of_ne_nil hne
    have hbyte : (first :: later).length ≤ 255 := hfew.trans (by decide)
    have hencode := encodeSource_of_valid symbolId hne hbyte hvalid
    refine ⟨_, datagramOf symbolId first later, hencode, rfl, records_datagramOf hvalid, ?_, ?_⟩
    · intro hsize
      have hinner := decodeSourceInner_eq_ok.mpr ⟨first, later, _, show datagramOf symbolId first later = _ from rfl,
        hvalid, hencode, hfew, (List.append_nil _).symm, hsize⟩
      rw [decodeSource, hinner]
      rfl
    · intro padding hzero hsize
      exact decodeSourcePadded_encodeSource (fun record hmem => (hvalid record hmem).1) hencode hfew hsize hzero
  · intro input maxRecords source h
    exact encodeSource_of_decodeSource h
  · intro input maxRecords consumed source h
    exact encodeSource_of_decodeSourcePadded h
  · intro frame bytes hshort hsize hencode
    exact decodeRepair_encodeRepair hencode hsize hshort
  · intro input frame h
    exact encodeRepair_of_decodeRepair h

def samplePair : List SourceRecord := [⟨3, 0, false, [1, 2]⟩, ⟨70, 100, true, [9]⟩]

theorem datagram_encoding_unique_pair :
    (∃ bytes source, encodeSource 5 samplePair = .ok bytes ∧ source.records = samplePair.map .ok ∧
      decodeSourcePadded (bytes ++ [0, 0, 0]) maxSourceRecords 64 = .ok (source, bytes.length)) ∧
    ∃ bytes, encodeRepair ⟨1, 5, 2, 2, 7, [8, 9]⟩ = .ok bytes ∧
      decodeRepair bytes 64 = .ok ⟨1, 5, 2, 2, 7, [8, 9]⟩ := by
  obtain ⟨hsource, -, -, hrepair, -⟩ := datagram_encoding_unique 64
  have hvalid : ∀ record ∈ samplePair, record.Valid := by
    simp [samplePair, SourceRecord.Valid, maxWireOffset]
  obtain ⟨bytes, source, hencode, -, hrecords, -, hpadded⟩ := hsource 5 samplePair (by decide) (by decide) hvalid
  refine ⟨⟨bytes, source, hencode, hrecords, hpadded _ (by simp) ?_⟩, _, rfl, hrepair _ _ (by decide) (by decide) rfl⟩
  obtain rfl := Except.ok.inj (hencode.symm.trans (encodeSource_of_valid 5 (by decide) (by decide) hvalid))
  decide +kernel

end Quicp
