import Quicp.Library.OrderedMap
import Quicp.Recovery.Budget

/-!
# The reassembler

Received records are buffered as chunks keyed by their logical offset. A record may overlap the consumed prefix and
any number of buffered chunks; the parts that are new become chunks of their own and the parts that are not must agree
with what is buffered.
-/

namespace Quicp

/-- `BufferedChunk`: received bytes and the charge that pays for them. -/
structure BufferedChunk where
  bytes : List UInt8
  charge : RecoveryCharge
  deriving DecidableEq, Repr

/-- `Reassembler`; `memoryBudget` is the identity of the shared budget. -/
structure Reassembler where
  chunks : OrderedMap ℕ BufferedChunk
  nextOffset : ℕ
  acknowledgedOffset : ℕ
  finalOffset : Option ℕ
  bytes : ℕ
  maxBytes : ℕ
  maxChunks : ℕ
  memoryBudget : ℕ

/-- The number of chunks that a buffer of this many bytes may be split into. -/
def replayChunkLimit (maxBytes : ℕ) : ℕ := max (divCeil maxBytes 64) 8

/-- `Reassembler::with_budget`; it spells out the same chunk limit as `replay_chunk_limit`. -/
def Reassembler.withBudget (maxBytes : ℕ) (memoryBudget : ℕ) : Reassembler where
  chunks := .empty
  nextOffset := 0
  acknowledgedOffset := 0
  finalOffset := none
  bytes := 0
  maxBytes := maxBytes
  maxChunks := max (divCeil maxBytes 64) 8
  memoryBudget := memoryBudget

def slice (bytes : List UInt8) (start stop : ℕ) : List UInt8 := (bytes.drop start).take (stop - start)

/-- The capacity that `Vec::with_capacity` allocates: exactly what is asked for. -/
def vecCapacity (requested : ℕ) : ℕ := requested

/-- `size_of::<Range<u64>>()`. -/
def rangeSize : ℕ := 16

/-- The end of a chunk, with the wire limit in place of an end past it. -/
def chunkEnd (entry : ℕ × BufferedChunk) : ℕ :=
  match checkedEnd entry.1 entry.2.bytes.length with
  | .ok stop => stop
  | .error _ => maxWireOffset

def Reassembler.hasChunkPast (r : Reassembler) (offset : ℕ) : Bool :=
  r.chunks.entries.any (fun entry => decide (chunkEnd entry > offset))

/-- The final offset is already known and differs from this one. -/
def Reassembler.contradictsFinal (r : Reassembler) (offset : ℕ) : Bool :=
  r.finalOffset.any (fun current => decide (current ≠ offset))

def Reassembler.setFinalOffset (r : Reassembler) (finalOffset : ℕ) : Except RecoveryError Reassembler :=
  if finalOffset > maxWireOffset || r.contradictsFinal finalOffset || finalOffset < r.nextOffset ||
      r.hasChunkPast finalOffset then .error .finalOffset
  else .ok { r with finalOffset := some finalOffset }

/-- The stretch shared by a record and a chunk reads the same in both. -/
def agrees (offset stop : ℕ) (bytes : List UInt8) (existingOffset existingEnd : ℕ)
    (existing : List UInt8) : Bool :=
  let overlapStart := max offset existingOffset
  let overlapEnd := min stop existingEnd
  let incomingStart := overlapStart - offset
  let incomingEnd := overlapEnd - offset
  let existingStart := overlapStart - existingOffset
  slice bytes incomingStart incomingEnd ==
    slice existing existingStart (existingStart + (incomingEnd - incomingStart))

/-- The loop of `validate_consumed_overlap` over the chunks that start below the end. -/
def validateOverlaps (offset stop : ℕ) (bytes : List UInt8) :
    List (ℕ × BufferedChunk) → Except RecoveryError Unit
  | [] => .ok ()
  | (existingOffset, existing) :: rest =>
    match checkedEnd existingOffset existing.bytes.length with
    | .error error => .error error
    | .ok existingEnd =>
      if max offset existingOffset ≥ min stop existingEnd then validateOverlaps offset stop bytes rest
      else if agrees offset stop bytes existingOffset existingEnd existing.bytes then
        validateOverlaps offset stop bytes rest
      else .error .contradictoryOverlap

def Reassembler.validateConsumedOverlap (r : Reassembler) (offset stop : ℕ) (bytes : List UInt8) :
    Except RecoveryError Unit :=
  validateOverlaps offset stop bytes (r.chunks.below stop)

/-- The counters of the validating scan over the chunks that a record overlaps. -/
structure OverlapScan where
  gapCount : ℕ
  added : ℕ
  cursor : ℕ
  deriving DecidableEq, Repr

/-- Count the gap between the cursor and an offset, if there is one. -/
def OverlapScan.countGap (scan : OverlapScan) (offset : ℕ) : Except RecoveryError OverlapScan :=
  if scan.cursor < offset then
    match checkedAdd scan.gapCount 1, checkedAdd scan.added (offset - scan.cursor) with
    | some gapCount, some added => .ok { scan with gapCount := gapCount, added := added }
    | _, _ => .error .capacity
  else .ok scan

/-- The validating scan of `insert_overlapping_record`. -/
def scanOverlaps (offset stop : ℕ) (bytes : List UInt8) :
    OverlapScan → List (ℕ × BufferedChunk) → Except RecoveryError OverlapScan
  | scan, [] => scan.countGap stop
  | scan, (existingOffset, existing) :: rest =>
    match checkedEnd existingOffset existing.bytes.length with
    | .error error => .error error
    | .ok existingEnd =>
      if existingEnd ≤ offset then scanOverlaps offset stop bytes scan rest
      else
        match scan.countGap (max offset existingOffset) with
        | .error error => .error error
        | .ok counted =>
          if agrees offset stop bytes existingOffset existingEnd existing.bytes then
            scanOverlaps offset stop bytes
              { counted with cursor := max counted.cursor (min stop existingEnd) } rest
          else .error .contradictoryOverlap

/-- The second scan of `insert_overlapping_record`: the gaps themselves. -/
def collectGaps (offset stop : ℕ) : ℕ → List (ℕ × BufferedChunk) → Except RecoveryError (List (ℕ × ℕ))
  | cursor, [] => .ok (if cursor < stop then [(cursor, stop)] else [])
  | cursor, (existingOffset, existing) :: rest =>
    match checkedEnd existingOffset existing.bytes.length with
    | .error error => .error error
    | .ok existingEnd =>
      if existingEnd ≤ offset then collectGaps offset stop cursor rest
      else
        match collectGaps offset stop (max cursor (min stop existingEnd)) rest with
        | .error error => .error error
        | .ok later =>
          .ok (if cursor < max offset existingOffset then (cursor, max offset existingOffset) :: later
            else later)

/-- The inserting loop of `insert_overlapping_record`: one charged chunk for each gap. -/
def insertGaps (offset : ℕ) (bytes : List UInt8) :
    OrderedMap ℕ BufferedChunk → RecoveryCharge → List (ℕ × ℕ) →
      Except RecoveryError Unit × OrderedMap ℕ BufferedChunk × RecoveryCharge
  | chunks, scratch, [] => (.ok (), chunks, scratch)
  | chunks, scratch, gap :: rest =>
    let start := gap.1 - offset
    let stop := gap.2 - offset
    if vecCapacity (stop - start) ≠ stop - start then (.error .capacity, chunks, scratch)
    else
      match scratch.split (vecCapacity (stop - start)) with
      | .error error => (.error error, chunks, scratch)
      | .ok (scratch, charge) =>
        insertGaps offset bytes (chunks.insert gap.1 ⟨slice bytes start stop, charge⟩) scratch rest

/-- What an insertion returns: its result, the reassembler and the budget. -/
abbrev Inserted := Except RecoveryError Unit × Reassembler × RecoveryMemoryBudget

/-- Record the final offset if the record carried one; the incoming charge is dropped. -/
def Reassembler.finishDuplicate (r : Reassembler) (budget : RecoveryMemoryBudget) (stop : ℕ)
    (fin : Bool) (charge : RecoveryCharge) : Inserted :=
  if fin then
    match r.setFinalOffset stop with
    | .error error => (.error error, r, charge.drop budget)
    | .ok next => (.ok (), next, charge.drop budget)
  else (.ok (), r, charge.drop budget)

/-- The mutating half of `insert_overlapping_record`, once its scan has counted the gaps. -/
def Reassembler.fillGaps (r : Reassembler) (budget : RecoveryMemoryBudget) (offset stop : ℕ)
    (bytes : List UInt8) (fin : Bool) (charge : RecoveryCharge) (scan : OverlapScan) : Inserted :=
  match (checkedMul scan.gapCount rangeSize).bind (checkedAdd scan.added) with
  | none => (.error .capacity, r, charge.drop budget)
  | some reserved =>
    match RecoveryCharge.reserve budget reserved with
    | .error error => (.error error, r, charge.drop budget)
    | .ok (scratch, budget) =>
      if vecCapacity scan.gapCount ≠ scan.gapCount then
        (.error .capacity, r, charge.drop (scratch.drop budget))
      else
        match collectGaps offset stop offset (r.chunks.below stop) with
        | .error error => (.error error, r, charge.drop (scratch.drop budget))
        | .ok gaps =>
          match insertGaps offset bytes r.chunks scratch gaps with
          | (.error error, chunks, scratch) =>
            (.error error, { r with chunks := chunks }, charge.drop (scratch.drop budget))
          | (.ok (), chunks, scratch) =>
            (.ok (), { r with
              chunks := chunks
              bytes := r.bytes + scan.added
              finalOffset := if fin then some stop else r.finalOffset },
              charge.drop (scratch.drop budget))

def Reassembler.insertOverlappingRecord (r : Reassembler) (budget : RecoveryMemoryBudget)
    (offset stop : ℕ) (bytes : List UInt8) (fin : Bool) (charge : RecoveryCharge) : Inserted :=
  match scanOverlaps offset stop bytes ⟨0, 0, offset⟩ (r.chunks.below stop) with
  | .error error => (.error error, r, charge.drop budget)
  | .ok scan =>
    if scan.gapCount = 0 then r.finishDuplicate budget stop fin charge
    else if saturatingAdd r.bytes scan.added > r.maxBytes ∨
        saturatingAdd r.chunks.length scan.gapCount > r.maxChunks then
      (.error .capacity, r, charge.drop budget)
    else r.fillGaps budget offset stop bytes fin charge scan

/-- The greatest chunk below the end of a record reaches into it. -/
def Reassembler.overlaps (r : Reassembler) (offset stop : ℕ) : Bool :=
  (r.chunks.lastBelow stop).any (fun entry => decide (chunkEnd entry > offset))

/-- A record that came without a full charge grows its charge to the record's length. -/
def RecoveryCharge.growUnless (precharged : Bool) (charge : RecoveryCharge)
    (budget : RecoveryMemoryBudget) (bytes : ℕ) :
    Except RecoveryError (RecoveryCharge × RecoveryMemoryBudget) :=
  if precharged then .ok (charge, budget) else charge.grow budget bytes

/-- The last part of `insert_record_with_reservation`, for bytes at or past the read position. -/
def Reassembler.insertUnread (r : Reassembler) (budget : RecoveryMemoryBudget) (offset stop : ℕ)
    (bytes : List UInt8) (retainedBytes : ℕ) (fin : Bool) (charge : RecoveryCharge)
    (precharged : Bool) : Inserted :=
  if r.overlaps offset stop then r.insertOverlappingRecord budget offset stop bytes fin charge
  else if saturatingAdd r.bytes bytes.length > r.maxBytes then (.error .capacity, r, charge.drop budget)
  else if r.chunks.length ≥ r.maxChunks then (.error .capacity, r, charge.drop budget)
  else
    match charge.growUnless precharged budget retainedBytes with
    | .error error => (.error error, r, charge.drop budget)
    | .ok (charge, budget) =>
      (.ok (), { r with
        chunks := r.chunks.insert offset ⟨bytes, charge⟩
        bytes := r.bytes + bytes.length
        finalOffset := if fin then some stop else r.finalOffset }, budget)

/-- The part of a record at or past the read position, after comparing the part before it. -/
def Reassembler.clipConsumed (r : Reassembler) (offset : ℕ) (bytes : List UInt8) :
    Except RecoveryError (ℕ × List UInt8) :=
  if offset < r.nextOffset then
    match r.validateConsumedOverlap offset r.nextOffset bytes with
    | .error error => .error error
    | .ok () => .ok (r.nextOffset, bytes.drop (r.nextOffset - offset))
  else .ok (offset, bytes)

def Reassembler.insertRecordWithReservation (r : Reassembler) (budget : RecoveryMemoryBudget)
    (offset : ℕ) (bytes : List UInt8) (fin : Bool) (charge : RecoveryCharge) (precharged : Bool) :
    Inserted :=
  if !charge.belongsTo r.memoryBudget || (precharged && decide (charge.bytes < bytes.length)) then
    (.error .capacity, r, charge.drop budget)
  else
    match checkedEnd offset bytes.length with
    | .error error => (.error error, r, charge.drop budget)
    | .ok stop =>
      if bytes = [] then (.error .invalidRange, r, charge.drop budget)
      else if r.finalOffset.any (fun finalOffset => decide (stop > finalOffset)) then
        (.error .finalOffset, r, charge.drop budget)
      else if fin && (r.contradictsFinal stop || decide (stop < r.nextOffset) || r.hasChunkPast stop) then
        (.error .finalOffset, r, charge.drop budget)
      else if stop ≤ r.nextOffset then
        match r.validateConsumedOverlap offset stop bytes with
        | .error error => (.error error, r, charge.drop budget)
        | .ok () => r.finishDuplicate budget stop fin charge
      else
        match r.clipConsumed offset bytes with
        | .error error => (.error error, r, charge.drop budget)
        | .ok (unreadOffset, unread) =>
          r.insertUnread budget unreadOffset stop unread bytes.length fin charge precharged

/-- `insert_record`: reserve what the record needs while inserting it. -/
def Reassembler.insertRecord (r : Reassembler) (budget : RecoveryMemoryBudget) (offset : ℕ)
    (bytes : List UInt8) (fin : Bool) : Inserted :=
  match RecoveryCharge.reserve budget 0 with
  | .error error => (.error error, r, budget)
  | .ok (charge, budget) => r.insertRecordWithReservation budget offset bytes fin charge false

/-- `insert_record_precharged`: the caller hands in a charge for the whole record. -/
def Reassembler.insertRecordPrecharged (r : Reassembler) (budget : RecoveryMemoryBudget) (offset : ℕ)
    (bytes : List UInt8) (fin : Bool) (charge : RecoveryCharge) : Inserted :=
  r.insertRecordWithReservation budget offset bytes fin charge true

def Reassembler.candidate (r : Reassembler) : Option (ℕ × BufferedChunk) :=
  (r.chunks.lastUpTo r.nextOffset).filter (fun entry =>
    match checkedEnd entry.1 entry.2.bytes.length with
    | .ok stop => decide (stop > r.nextOffset)
    | .error _ => false)

/-- The bytes that one pass of the reading loop copies from a chunk. -/
def Reassembler.readCount (r : Reassembler) (room : ℕ) (entry : ℕ × BufferedChunk) : ℕ :=
  min (entry.2.bytes.length - (r.nextOffset - entry.1)) room

/-- Move the read position forward and take the bytes off the count. -/
def Reassembler.advance (r : Reassembler) (count : ℕ) : Reassembler :=
  { r with nextOffset := r.nextOffset + count, bytes := r.bytes - count }

/-- One pass of the reading loop: copy from the chunk and release it once it is done with. -/
def Reassembler.readChunk (r : Reassembler) (budget : RecoveryMemoryBudget) (room : ℕ)
    (entry : ℕ × BufferedChunk) : List UInt8 × Reassembler × RecoveryMemoryBudget :=
  let start := r.nextOffset - entry.1
  let count := r.readCount room entry
  let stop := entry.1 + entry.2.bytes.length
  (slice entry.2.bytes start (start + count),
    if stop ≤ r.nextOffset + count ∧ stop ≤ r.acknowledgedOffset then
      ({ r.advance count with chunks := r.chunks.erase entry.1 }, entry.2.charge.drop budget)
    else (r.advance count, budget))

/-- The reading loop; every pass copies at least one byte, so `fuel` passes fill `fuel` bytes. -/
def Reassembler.readLoop : ℕ → ℕ → Reassembler → RecoveryMemoryBudget →
    List UInt8 × Reassembler × RecoveryMemoryBudget
  | 0, _, r, budget => ([], r, budget)
  | fuel + 1, room, r, budget =>
    if room = 0 then ([], r, budget)
    else
      match r.candidate with
      | none => ([], r, budget)
      | some entry =>
        let pass := r.readChunk budget room entry
        let later := readLoop fuel (room - pass.1.length) pass.2.1 pass.2.2
        (pass.1 ++ later.1, later.2)

/-- `read` into a buffer of the given length: the bytes written to it. -/
def Reassembler.read (r : Reassembler) (budget : RecoveryMemoryBudget) (length : ℕ) :
    List UInt8 × Reassembler × RecoveryMemoryBudget :=
  readLoop length length r budget

def dropCharges (budget : RecoveryMemoryBudget) (released : List (ℕ × BufferedChunk)) :
    RecoveryMemoryBudget :=
  released.foldl (fun budget entry => entry.2.charge.drop budget) budget

def endsBy (offset : ℕ) (entry : ℕ × BufferedChunk) : Bool :=
  match checkedEnd entry.1 entry.2.bytes.length with
  | .ok stop => decide (stop ≤ offset)
  | .error _ => false

def Reassembler.acknowledgeConsumed (r : Reassembler) (budget : RecoveryMemoryBudget)
    (contiguous : ℕ) : Reassembler × RecoveryMemoryBudget :=
  let acknowledgedOffset := max r.acknowledgedOffset contiguous
  let releaseBefore := min acknowledgedOffset r.nextOffset
  ({ r with
      acknowledgedOffset := acknowledgedOffset
      chunks := r.chunks.retain (fun offset chunk => !endsBy releaseBefore (offset, chunk)) },
    dropCharges budget (r.chunks.entries.filter (endsBy releaseBefore)))

/-- `is_finished`: everything up to the final offset was read. -/
def Reassembler.isFinished (r : Reassembler) : Bool := decide (r.finalOffset = some r.nextOffset)

def Reassembler.hasFinalOffset (r : Reassembler) : Bool := r.finalOffset.isSome

end Quicp
