import Quicp.Wire.Source

/-!
# Repair datagrams

A repair datagram names its span and carries the coded bytes. It is decoded only as a whole,
so what is encoded comes back unless it is longer than the receiver's symbols.
-/

namespace Quicp

/-- `REPAIR_DATAGRAM`. -/
def repairDatagramType : UInt8 := 0x21

/-- `RepairDatagram`; `span` and `symbolSize` are a `u16`. -/
structure RepairDatagram where
  repairId : UInt32
  firstSymbolId : UInt32
  span : ℕ
  symbolSize : ℕ
  seed : UInt32
  coded : List UInt8
  deriving DecidableEq, Repr

def maxRepairSpan : ℕ := 256

def encodeRepair (frame : RepairDatagram) : Except CodecError (List UInt8) :=
  if frame.span = 0 ∨ frame.span > maxRepairSpan ∨ frame.symbolSize = 0 ∨ frame.coded.length ≠ frame.symbolSize then
    .error .invalidField
  else
    .ok (repairDatagramType :: (BigEndian.encode 4 frame.repairId.toNat ++
      (BigEndian.encode 4 frame.firstSymbolId.toNat ++ (BigEndian.encode 2 frame.span ++
        (BigEndian.encode 2 frame.symbolSize ++ (BigEndian.encode 4 frame.seed.toNat ++ frame.coded))))))

/-- `Cursor::u16`. -/
def readShort (input : List UInt8) : Except CodecError (ℕ × List UInt8) :=
  match readBytes 2 input with
  | .error error => .error error
  | .ok (bytes, rest) => .ok (BigEndian.decodeFrom 0 bytes, rest)

def decodeRepair (input : List UInt8) (maxSymbolBytes : ℕ) : Except CodecError RepairDatagram := do
  let (type, rest) ← readByte input
  if type ≠ repairDatagramType then
    throw .unknownType
  let (repairId, rest) ← readWord rest
  let (firstSymbolId, rest) ← readWord rest
  let (span, rest) ← readShort rest
  let (symbolSize, rest) ← readShort rest
  let (seed, rest) ← readWord rest
  if span = 0 ∨ span > maxRepairSpan ∨ symbolSize = 0 ∨ symbolSize > maxSymbolBytes then
    throw .invalidField
  let (coded, rest) ← readBytes symbolSize rest
  if rest ≠ [] then
    throw .trailingBytes
  return ⟨repairId, firstSymbolId, span, symbolSize, seed, coded⟩

theorem readShort_canonical : Reader.Canonical readShort (· < 2 ^ 16) (BigEndian.encode 2) :=
  readNumber_canonical (fun _ => rfl) (fun _ => Iff.rfl) (fun _ => rfl) fun _ _ => rfl

theorem readShort_encode {value : ℕ} (hvalue : value < 2 ^ 16) (rest : List UInt8) :
    readShort (BigEndian.encode 2 value ++ rest) = .ok (value, rest) :=
  readShort_canonical.read_encode hvalue rest

theorem decodeRepair_encodeRepair {frame : RepairDatagram} {bytes : List UInt8} {maxSymbolBytes : ℕ}
    (h : encodeRepair frame = .ok bytes) (hsize : frame.symbolSize ≤ maxSymbolBytes)
    (hshort : frame.symbolSize < 2 ^ 16) : decodeRepair bytes maxSymbolBytes = .ok frame := by
  obtain ⟨repairId, firstSymbolId, span, symbolSize, seed, coded⟩ := frame
  unfold encodeRepair at h
  split_ifs at h with hinvalid
  rw [not_or, not_or, not_or, not_not] at hinvalid
  obtain ⟨hspan, hwide, hempty, hcoded⟩ := hinvalid
  dsimp only at hspan hwide hempty hcoded hsize hshort h
  subst hcoded
  have hspanShort : span < 2 ^ 16 := lt_of_le_of_lt (not_lt.mp hwide) (by decide)
  have hvalid : ¬(span = 0 ∨ span > maxRepairSpan ∨ coded.length = 0 ∨ coded.length > maxSymbolBytes) := by
    rw [not_or, not_or, not_or]
    exact ⟨hspan, hwide, hempty, not_lt.mpr hsize⟩
  obtain rfl := Except.ok.inj h
  simp only [decodeRepair, readByte, bind, Except.bind, pure, Except.pure, ne_eq, not_true_eq_false, if_false,
    readWord_encode, readShort_encode hspanShort, readShort_encode hshort, if_neg hvalid, readBytes, lt_irrefl,
    List.take_length, List.drop_length]

end Quicp
