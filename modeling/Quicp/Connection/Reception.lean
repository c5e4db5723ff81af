import Quicp.Fec.SharedMemory
import Quicp.Flow.Shared

/-!
# Sources that a connection receives

A received or recovered source is given to the flows of its records. Records of flows that are not open yet are kept
for a while, and their number is bounded by a counter that is reserved before the decoder takes the source.
-/

namespace Quicp

/-- `PRE_OPEN_TTL`, in nanoseconds. -/
def preOpenTtl : ℕ := 1000000000

/-- `size_of::<PendingSourceRecord>()`. -/
def pendingSourceRecordSize : ℕ := 88

structure PreOpenRecord where
  offset : ℕ
  fin : Bool
  data : List UInt8
  charge : RecoveryCharge
  expiresAt : ℕ
  deriving DecidableEq, Repr

/-- `PendingSourceRecord`; a flow is named by the number of its allocation. -/
structure PendingSourceRecord where
  flow : Option ℕ
  flowId : ℕ
  offset : ℕ
  fin : Bool
  data : List UInt8
  retainedBytes : ℕ
  charge : Option RecoveryCharge
  deriving DecidableEq, Repr

/-- The part of `ConnectionRecovery` that receives sources. `flows` has the registered allocations and `states`
those that are alive. `preOpen` lists the entries of all flows in the order of their arrival, and `underflowed`
tells whether the counter was ever lowered below zero. -/
structure Reception where
  budget : RecoveryMemoryBudget
  flows : ℕ → Option ℕ
  states : ℕ → Option FlowShared
  preOpen : List (ℕ × PreOpenRecord)
  preOpenCount : ℕ
  underflowed : Bool
  decoder : Decoder
  preOpenSymbols : ℕ
  workBudget : ℕ
  maxSymbolBytes : ℕ
  now : ℕ

/-- What a call finds out about the buffers it allocates: whether the vector of records, the copy of each record
and each copy made for the pre-open store have the capacity asked for. -/
structure Allocations where
  records : Bool
  copies : ℕ → Bool
  stored : ℕ → Bool
  storage : Storage

def dropRecords (budget : RecoveryMemoryBudget) (records : List PendingSourceRecord) : RecoveryMemoryBudget :=
  records.foldl (fun budget record => dropIncoming budget record.charge) budget

def neededOf (records : List PendingSourceRecord) : ℕ := records.countP (fun record => record.flow.isNone)

/-- `reserve_bounded`: the counter after the reservation. -/
def reserveBounded (counter limit amount : ℕ) : Option ℕ :=
  if amount = 0 then some counter
  else if counter + amount > u32Max then none
  else if counter + amount > limit then none
  else some (counter + amount)

/-- The bytes that a record is charged for: a record that waits for its flow is copied. -/
def PendingSourceRecord.chargeBytes (record : PendingSourceRecord) : ℕ :=
  if record.flow.isNone then record.data.length else record.retainedBytes

def neededBytes (records : List PendingSourceRecord) : Option ℕ :=
  (records.filter (fun record => record.charge.isNone)).foldlM (fun bytes record =>
    checkedAdd bytes record.chargeBytes) 0

/-- The loop of `reserve_source_records`: whether every record got its part of the charge, what is left of it,
and the records. -/
def chargeRecords (stored : ℕ → Bool) : ℕ → RecoveryCharge → List PendingSourceRecord →
    Bool × RecoveryCharge × List PendingSourceRecord
  | _, charge, [] => (true, charge, [])
  | index, charge, record :: rest =>
    if record.charge.isSome then
      let (granted, charge, rest) := chargeRecords stored (index + 1) charge rest
      (granted, charge, record :: rest)
    else if record.flow.isNone ∧ stored index = false then (false, charge, record :: rest)
    else
      match charge.split record.chargeBytes with
      | .error _ => (false, charge, record :: rest)
      | .ok (charge, own) =>
        let (granted, charge, rest) := chargeRecords stored (index + 1) charge rest
        (granted, charge, { record with retainedBytes := record.chargeBytes, charge := some own } :: rest)

/-- A copy of a record with its own charge, before its flow is looked up. -/
def SourceRecord.pending (record : SourceRecord) (charge : RecoveryCharge) : PendingSourceRecord :=
  ⟨none, record.flowId, record.offset, record.fin, record.data, record.data.length, some charge⟩

/-- The loops of `receive_source` and `dispatch_recovered` that copy the records of a source, each charged to a
pool: the copies made, what is left of the pool, and whether all were made. -/
def copyRecords {Pool : Type} (take : Pool → ℕ → Option (RecoveryCharge × Pool)) (copies : ℕ → Bool) :
    ℕ → Pool → List (Except CodecError SourceRecord) → List PendingSourceRecord × Pool × Bool
  | _, pool, [] => ([], pool, true)
  | _, pool, .error _ :: _ => ([], pool, false)
  | index, pool, .ok record :: rest =>
    if !copies index then ([], pool, false)
    else
      match take pool record.data.length with
      | none => ([], pool, false)
      | some (charge, pool) =>
        let (copied, pool, complete) := copyRecords take copies (index + 1) pool rest
        (record.pending charge :: copied, pool, complete)

/-- `split`, as the pool of `receive_source`. -/
def RecoveryCharge.takePart (pool : RecoveryCharge) (bytes : ℕ) : Option (RecoveryCharge × RecoveryCharge) :=
  (pool.split bytes).toOption.map Prod.swap

namespace Reception

def upgrade (s : Reception) (flowId : ℕ) : Option ℕ :=
  (s.flows flowId).filter (fun flow => (s.states flow).isSome)

/-- `pre_open_count.fetch_sub`, which wraps below zero. -/
def lowerCount (s : Reception) (amount : ℕ) : Reception :=
  { s with
    preOpenCount :=
      if amount ≤ s.preOpenCount then s.preOpenCount - amount else s.preOpenCount + (u32Max + 1) - amount
    underflowed := s.underflowed || !decide (amount ≤ s.preOpenCount) }

def expired (s : Reception) (entry : ℕ × PreOpenRecord) : Bool := decide (entry.2.expiresAt ≤ s.now)

def dropEntries (budget : RecoveryMemoryBudget) (entries : List (ℕ × PreOpenRecord)) : RecoveryMemoryBudget :=
  entries.foldl (fun budget entry => entry.2.charge.drop budget) budget

/-- `prune_pre_open` and the counting of what it removed. -/
def prunePreOpen (s : Reception) : Reception :=
  let removed := s.preOpen.filter s.expired
  let kept := { s with
    preOpen := s.preOpen.filter (fun entry => !s.expired entry)
    budget := dropEntries s.budget removed }
  if removed.length ≠ 0 then kept.lowerCount removed.length else kept

/-- `reserve_source_records` after its first loop; the records name their flows. -/
def reserveNamed (s : Reception) (stored : ℕ → Bool) (records : List PendingSourceRecord) :
    Bool × List PendingSourceRecord × Reception :=
  match reserveBounded s.preOpenCount s.preOpenSymbols (neededOf records) with
  | none => (false, records, s)
  | some count =>
    let s := { s with preOpenCount := count }
    match neededBytes records with
    | none => (false, records, s.lowerCount (neededOf records))
    | some bytes =>
      match RecoveryCharge.reserve s.budget bytes with
      | .error _ => (false, records, s.lowerCount (neededOf records))
      | .ok (charge, budget) =>
        let (granted, charge, charged) := chargeRecords stored 0 charge records
        let s := { s with budget := charge.drop budget }
        (granted, charged, if granted then s else s.lowerCount (neededOf records))

def reserveSourceRecords (s : Reception) (stored : ℕ → Bool) (records : List PendingSourceRecord) :
    Bool × List PendingSourceRecord × Reception :=
  let s := s.prunePreOpen
  s.reserveNamed stored (records.map fun record => { record with flow := s.upgrade record.flowId })

def releaseSourceReservations (s : Reception) (records : List PendingSourceRecord) : Reception :=
  s.lowerCount (neededOf records)

/-- Give a record to a flow; an error that is not about room is a violation of the protocol. A flow that a call
holds is alive. -/
def insertInto (s : Reception) (flow offset : ℕ) (data : List UInt8) (fin : Bool) (charge : RecoveryCharge) :
    Reception :=
  match s.states flow with
  | none => { s with budget := charge.drop s.budget }
  | some shared =>
    let (outcome, shared, budget) := shared.insertBytesPrecharged s.budget offset data fin charge
    let shared :=
      match outcome with
      | .err .capacity | .err .rangeCapacity => shared
      | .err _ => shared.rejectProtocol
      | _ => shared
    { s with states := Function.update s.states flow (some shared), budget := budget }

/-- The body of the loop of `dispatch_reserved_source`; a record without a charge panics. -/
def dispatchRecord (s : Reception) (record : PendingSourceRecord) : Option Reception :=
  match record.charge with
  | none => none
  | some charge =>
    match record.flow with
    | some flow => some (s.insertInto flow record.offset record.data record.fin charge)
    | none =>
      match s.upgrade record.flowId with
      | none => some { s with preOpen := s.preOpen ++
          [(record.flowId, ⟨record.offset, record.fin, record.data, charge, s.now + preOpenTtl⟩)] }
      | some flow => some ((s.lowerCount 1).insertInto flow record.offset record.data record.fin charge)

def dispatchReservedSource (s : Reception) (records : List PendingSourceRecord) : Option Reception :=
  records.foldlM dispatchRecord s

/-- The part of `register_flow` under its locks, and the records it took out of the store. -/
def registerFlow (s : Reception) (flowId flow : ℕ) : List PreOpenRecord × Reception :=
  let records := s.preOpen.filter (fun entry => entry.1 = flowId)
  (records.map Prod.snd,
    { s with
      flows := Function.update s.flows flowId (some flow)
      preOpen := s.preOpen.filter (fun entry => !decide (entry.1 = flowId)) }.lowerCount records.length)

/-- The body of the loop of `register_flow`. -/
def openRecord (s : Reception) (flow : ℕ) (record : PreOpenRecord) : Reception :=
  if record.expiresAt ≤ s.now then { s with budget := record.charge.drop s.budget }
  else s.insertInto flow record.offset record.data record.fin record.charge

def unregisterFlow (s : Reception) (flowId : ℕ) : Reception :=
  { s with flows := Function.update s.flows flowId none }

/-- One turn of the loop of `dispatch_recovered`, and what is left of the batch's reservation. -/
def dispatchItem (s : Reception) (alloc : Allocations) (batch : RecoveredBatch) (source : RecoveredSource) :
    Option (RecoveredBatch × Reception) :=
  match decodeSource source.bytes maxSourceRecords s.maxSymbolBytes with
  | .error _ => some (batch, s)
  | .ok decoded =>
    if !alloc.records then some (batch, s)
    else
      let (copied, batch, complete) := copyRecords (fun batch bytes => (batch.takeDispatchCharge bytes).toOption)
        alloc.copies 0 batch decoded.records
      if !complete then some (batch, { s with budget := dropRecords s.budget copied })
      else
        let (granted, records, s) := s.reserveSourceRecords alloc.stored copied
        if !granted then some (batch, { s with budget := dropRecords s.budget records })
        else
          match batch.takeRetainedCharge source.retainedBytes with
          | .error _ =>
            some (batch, { s with budget := dropRecords s.budget records }.releaseSourceReservations records)
          | .ok (charge, batch) =>
            match s.decoder.commitRecoveredPrecharged s.budget alloc.storage source.symbolId source.bytes charge with
            | (.panicked, _, _) => none
            | (.err _, decoder, budget) =>
              let s := { s with decoder := decoder, budget := dropRecords budget records }
              some (batch, s.releaseSourceReservations records)
            | (.ok (), decoder, budget) =>
              ({ s with decoder := decoder, budget := budget }.dispatchReservedSource records).map (batch, ·)

/-- The loop of `dispatch_recovered` over the sources in the order in which they are popped. -/
def dispatchItems (alloc : ℕ → Allocations) : ℕ → List RecoveredSource → RecoveredBatch → Reception → Option Reception
  | _, [], batch, s => some { s with budget := batch.scratch.drop s.budget }
  | turn, source :: rest, batch, s =>
    match s.dispatchItem (alloc turn) batch source with
    | none => none
    | some (batch, s) => dispatchItems alloc (turn + 1) rest batch s

/-- The bytes that `dispatch_recovered` reserves beside those of the batch. -/
def dispatchBytes (items : List RecoveredSource) : Option ℕ :=
  match items.foldlM (fun bytes source => checkedAdd bytes source.bytes.length) 0 with
  | none => none
  | some bytes => checkedAdd bytes (saturatingMul maxSourceRecords pendingSourceRecordSize)

def dispatchRecovered (s : Reception) (alloc : ℕ → Allocations) (recovered : RecoveredBatch) : Option Reception :=
  if recovered.items = [] then some { s with budget := recovered.scratch.drop s.budget }
  else
    match dispatchBytes recovered.items with
    | none => some { s with budget := recovered.scratch.drop s.budget }
    | some bytes =>
      match recovered.reserveDispatch s.budget bytes with
      | .error _ => some { s with budget := recovered.scratch.drop s.budget }
      | .ok (batch, budget) => dispatchItems alloc 0 recovered.items.reverse batch { s with budget := budget }

end Reception

/-- The exit that `receive_source` takes. -/
inductive SourceVerdict
  | malformed
  | duplicate
  | contradictory
  | unreserved
  | rejected
  | accepted
  deriving DecidableEq, Repr

namespace Reception

/-- `accept_source` after it reserved for the records: the exit it takes and the records that its caller still
holds; `later` are the allocations for what is recovered. -/
def acceptReserved (s : Reception) (alloc : Allocations) (later : ℕ → Allocations) (symbolId : UInt32)
    (datagram : List UInt8) (records : List PendingSourceRecord) :
    Option (SourceVerdict × List PendingSourceRecord × Reception) :=
  match s.decoder.sourceStatus symbolId datagram with
  | .panicked => none
  | .ok .duplicate => some (.duplicate, records, s.releaseSourceReservations records)
  | .err _ => some (.rejected, records, s.releaseSourceReservations records)
  | .ok .new =>
    match s.decoder.addSource s.budget alloc.storage symbolId datagram (s.workBudget * s.maxSymbolBytes) with
    | (.panicked, _, _) => none
    | (.err _, decoder, budget) =>
      some (.rejected, records, { s with decoder := decoder, budget := budget }.releaseSourceReservations records)
    | (.ok recovered, decoder, budget) =>
      match { s with decoder := decoder, budget := budget }.dispatchReservedSource records with
      | none => none
      | some s => (s.dispatchRecovered later recovered).map (.accepted, [], ·)

def acceptSource (s : Reception) (alloc : Allocations) (later : ℕ → Allocations) (symbolId : UInt32)
    (datagram : List UInt8) (records : List PendingSourceRecord) :
    Option (SourceVerdict × List PendingSourceRecord × Reception) :=
  match s.decoder.sourceStatus symbolId datagram with
  | .panicked => none
  | .ok .duplicate => some (.duplicate, records, s)
  | .err _ => some (.contradictory, records, s)
  | .ok .new =>
    match s.reserveSourceRecords alloc.stored records with
    | (false, records, s) => some (.unreserved, records, s)
    | (true, records, s) => s.acceptReserved alloc later symbolId datagram records

/-- The end of `receive_source`: the records and the rest of the pool are dropped. -/
def finishSource (pool : RecoveryCharge) :
    Option (SourceVerdict × List PendingSourceRecord × Reception) → Option (SourceVerdict × Reception)
  | none => none
  | some (verdict, records, s) =>
    some (verdict, { s with budget := pool.drop (dropRecords s.budget records) })

def receiveSource (s : Reception) (alloc : Allocations) (later : ℕ → Allocations) (datagram : List UInt8) :
    Option (SourceVerdict × Reception) :=
  match decodeSource datagram maxSourceRecords s.maxSymbolBytes with
  | .error _ => some (.malformed, s)
  | .ok source =>
    match source.singleRecord with
    | some record =>
      let pending : PendingSourceRecord := ⟨none, record.flowId, record.offset, record.fin, record.data,
        s.maxSymbolBytes + repairDatagramHeaderBytes, none⟩
      finishSource ⟨s.budget.identity, 0⟩ (s.acceptSource alloc later source.symbolId datagram [pending])
    | none =>
      match (checkedMul source.recordCount pendingSourceRecordSize).bind (checkedAdd · datagram.length) with
      | none => some (.unreserved, s)
      | some bytes =>
        match RecoveryCharge.reserve s.budget bytes with
        | .error _ => some (.unreserved, s)
        | .ok (pool, budget) =>
          if !alloc.records then some (.unreserved, { s with budget := pool.drop budget })
          else
            match copyRecords RecoveryCharge.takePart alloc.copies 0 pool source.records with
            | (copied, pool, false) => some (.unreserved, { s with budget := pool.drop (dropRecords budget copied) })
            | (copied, pool, true) =>
              finishSource pool ({ s with budget := budget }.acceptSource alloc later source.symbolId datagram copied)

end Reception

end Quicp
