import Quicp.Fec.Memory
import Quicp.Library.Weight
import Quicp.Recovery.Config
import Quicp.Recovery.Reassembly

/-!
# Everything that shares a memory budget

One budget is shared by any number of decoders, reassemblers, recovered batches and charges of pre-open and in-flight
records.
-/

namespace Quicp

namespace RecoveredBatch

def reserveDispatch (batch : RecoveredBatch) (budget : RecoveryMemoryBudget) (bytes : ℕ) :
    Except FecError (RecoveredBatch × RecoveryMemoryBudget) :=
  match checkedAdd batch.retainedBytes bytes with
  | none => .error .memoryCapacity
  | some required =>
    match batch.scratch.grow budget required with
    | .error _ => .error .memoryCapacity
    | .ok (scratch, budget) => .ok ({ batch with scratch := scratch }, budget)

def takeDispatchCharge (batch : RecoveredBatch) (bytes : ℕ) : Except FecError (RecoveryCharge × RecoveredBatch) :=
  match batch.scratch.split bytes with
  | .error _ => .error .memoryCapacity
  | .ok (scratch, charge) => .ok (charge, { batch with scratch := scratch })

def takeRetainedCharge (batch : RecoveredBatch) (bytes : ℕ) : Except FecError (RecoveryCharge × RecoveredBatch) :=
  if bytes > batch.retainedBytes then .error .memoryCapacity
  else
    match batch.takeDispatchCharge bytes with
    | .error error => .error error
    | .ok (charge, batch) => .ok (charge, { batch with retainedBytes := batch.retainedBytes - bytes })

end RecoveredBatch

structure SharedMemory where
  budget : RecoveryMemoryBudget
  charges : List RecoveryCharge
  batches : List RecoveredBatch
  decoders : List Decoder
  reassemblers : List Reassembler

namespace SharedMemory

/-- The bytes of all live charges: those of records, of recovered batches and of buffered chunks. -/
def chargedBytes (m : SharedMemory) : ℕ :=
  totalWeight RecoveryCharge.bytes m.charges + totalWeight (fun batch => batch.scratch.bytes) m.batches +
    totalWeight Reassembler.charged m.reassemblers

/-- The bytes that the live decoders own: those of their known sources and of their rows. -/
def ownedBytes (m : SharedMemory) : ℕ := totalWeight Decoder.held m.decoders

inductive Action
  | reserve (bytes : ℕ)
  | grow (charge bytes : ℕ)
  | shrink (charge bytes : ℕ)
  | split (charge bytes : ℕ)
  | drop (charge : ℕ)
  | newDecoder (config : RecoveryConfig) (maxSymbolBytes : ℕ)
  | addSource (decoder : ℕ) (storage : Storage) (symbolId : UInt32) (source : List UInt8) (workBudget : ℕ)
  | addRepair (decoder : ℕ) (firstSymbolId : UInt32) (span : ℕ) (repairId seed : UInt32) (coded : List UInt8)
      (workBudget : ℕ)
  | commit (decoder : ℕ) (storage : Storage) (symbolId : UInt32) (source : List UInt8) (charge : ℕ)
  | dropDecoder (decoder : ℕ)
  | reserveDispatch (batch bytes : ℕ)
  | takeRetainedCharge (batch bytes : ℕ)
  | takeDispatchCharge (batch bytes : ℕ)
  | pop (batch : ℕ)
  | dropBatch (batch : ℕ)
  | newReassembler (maxBytes : ℕ)
  | insertRecord (reassembler offset : ℕ) (bytes : List UInt8) (fin : Bool)
  | insertCharged (reassembler offset : ℕ) (bytes : List UInt8) (fin : Bool) (charge : ℕ) (precharged : Bool)
  | setFinalOffset (reassembler finalOffset : ℕ)
  | read (reassembler length : ℕ)
  | acknowledgeConsumed (reassembler contiguous : ℕ)
  | dropReassembler (reassembler : ℕ)

def decoded (m : SharedMemory) (decoder : ℕ)
    (result : Outcome FecError RecoveredBatch × Decoder × RecoveryMemoryBudget) : SharedMemory :=
  { m with
    budget := result.2.2
    decoders := m.decoders.set decoder result.2.1
    batches := match result.1 with
      | .ok batch => batch :: m.batches
      | _ => m.batches }

def inserted (m : SharedMemory) (reassembler : ℕ) (result : Inserted) : SharedMemory :=
  { m with budget := result.2.2, reassemblers := m.reassemblers.set reassembler result.2.1 }

def taken (m : SharedMemory) (batch : ℕ) : Except FecError (RecoveryCharge × RecoveredBatch) → SharedMemory
  | .error _ => m
  | .ok (charge, rest) => { m with charges := charge :: m.charges, batches := m.batches.set batch rest }

@[grind =] def apply (m : SharedMemory) : Action → SharedMemory
  | .reserve bytes =>
    match RecoveryCharge.reserve m.budget bytes with
    | .error _ => m
    | .ok (charge, budget) => { m with budget := budget, charges := charge :: m.charges }
  | .grow index bytes =>
    match m.charges[index]? with
    | none => m
    | some charge =>
      match charge.grow m.budget bytes with
      | .error _ => m
      | .ok (charge, budget) => { m with budget := budget, charges := m.charges.set index charge }
  | .shrink index bytes =>
    match m.charges[index]? with
    | none => m
    | some charge =>
      match charge.shrink m.budget bytes with
      | none => m
      | some (charge, budget) => { m with budget := budget, charges := m.charges.set index charge }
  | .split index bytes =>
    match m.charges[index]? with
    | none => m
    | some charge =>
      match charge.split bytes with
      | .error _ => m
      | .ok (rest, part) => { m with charges := part :: m.charges.set index rest }
  | .drop index =>
    match m.charges[index]? with
    | none => m
    | some charge => { m with budget := charge.drop m.budget, charges := m.charges.eraseIdx index }
  | .newDecoder config maxSymbolBytes =>
    { m with decoders :=
        Decoder.withBudget config.decoderWindow config.decoderWindow maxSymbolBytes m.budget.identity :: m.decoders }
  | .addSource index storage symbolId source workBudget =>
    match m.decoders[index]? with
    | none => m
    | some decoder => m.decoded index (decoder.addSource m.budget storage symbolId source workBudget)
  | .addRepair index firstSymbolId span repairId seed coded workBudget =>
    match m.decoders[index]? with
    | none => m
    | some decoder => m.decoded index (decoder.addRepair m.budget firstSymbolId span repairId seed coded workBudget)
  | .commit index storage symbolId source paid =>
    match m.decoders[index]?, m.charges[paid]? with
    | some decoder, some charge =>
      let (_, decoder, budget) := decoder.commitRecoveredPrecharged m.budget storage symbolId source charge
      { m with budget := budget, decoders := m.decoders.set index decoder, charges := m.charges.eraseIdx paid }
    | _, _ => m
  | .dropDecoder index =>
    match m.decoders[index]? with
    | none => m
    | some decoder => { m with budget := decoder.drop m.budget, decoders := m.decoders.eraseIdx index }
  | .reserveDispatch index bytes =>
    match m.batches[index]? with
    | none => m
    | some batch =>
      match batch.reserveDispatch m.budget bytes with
      | .error _ => m
      | .ok (batch, budget) => { m with budget := budget, batches := m.batches.set index batch }
  | .takeRetainedCharge index bytes =>
    match m.batches[index]? with
    | none => m
    | some batch => m.taken index (batch.takeRetainedCharge bytes)
  | .takeDispatchCharge index bytes =>
    match m.batches[index]? with
    | none => m
    | some batch => m.taken index (batch.takeDispatchCharge bytes)
  | .pop index =>
    match m.batches[index]? with
    | none => m
    | some batch => { m with batches := m.batches.set index { batch with items := batch.items.dropLast } }
  | .dropBatch index =>
    match m.batches[index]? with
    | none => m
    | some batch => { m with budget := batch.scratch.drop m.budget, batches := m.batches.eraseIdx index }
  | .newReassembler maxBytes =>
    { m with reassemblers := Reassembler.withBudget maxBytes m.budget.identity :: m.reassemblers }
  | .insertRecord index offset bytes fin =>
    match m.reassemblers[index]? with
    | none => m
    | some reassembler => m.inserted index (reassembler.insertRecord m.budget offset bytes fin)
  | .insertCharged index offset bytes fin paid precharged =>
    match m.reassemblers[index]?, m.charges[paid]? with
    | some reassembler, some charge =>
      { m.inserted index (reassembler.insertRecordWithReservation m.budget offset bytes fin charge precharged) with
        charges := m.charges.eraseIdx paid }
    | _, _ => m
  | .setFinalOffset index finalOffset =>
    match m.reassemblers[index]? with
    | none => m
    | some reassembler =>
      match reassembler.setFinalOffset finalOffset with
      | .error _ => m
      | .ok reassembler => { m with reassemblers := m.reassemblers.set index reassembler }
  | .read index length =>
    match m.reassemblers[index]? with
    | none => m
    | some reassembler =>
      let (_, reassembler, budget) := reassembler.read m.budget length
      { m with budget := budget, reassemblers := m.reassemblers.set index reassembler }
  | .acknowledgeConsumed index contiguous =>
    match m.reassemblers[index]? with
    | none => m
    | some reassembler =>
      let (reassembler, budget) := reassembler.acknowledgeConsumed m.budget contiguous
      { m with budget := budget, reassemblers := m.reassemblers.set index reassembler }
  | .dropReassembler index =>
    match m.reassemblers[index]? with
    | none => m
    | some reassembler =>
      { m with
        budget := dropCharges m.budget reassembler.chunks.entries
        reassemblers := m.reassemblers.eraseIdx index }

def Allows (m : SharedMemory) : Action → Prop
  | .shrink index bytes => ∀ charge ∈ m.charges[index]?, bytes ≤ charge.bytes
  | .newDecoder config _ => ∃ flowBufferBytes, config.validate flowBufferBytes = .ok ()
  | .addSource index storage _ _ _ => ∀ decoder ∈ m.decoders[index]?, Decoder.Shrinks storage decoder
  | _ => True

def Step (m : SharedMemory) (action : Action) (n : SharedMemory) : Prop := m.Allows action ∧ n = m.apply action

structure Initial (m : SharedMemory) : Prop where
  used : m.budget.used = 0
  underflowed : m.budget.underflowed = false
  charges : m.charges = []
  batches : m.batches = []
  decoders : m.decoders = []
  reassemblers : m.reassemblers = []

structure Inv (m : SharedMemory) : Prop where
  conserved : m.budget.used = m.chargedBytes + m.ownedBytes
  within : m.budget.used ≤ m.budget.limit
  sound : m.budget.underflowed = false
  charges : ∀ charge ∈ m.charges, charge.budget = m.budget.identity
  batches : ∀ batch ∈ m.batches, batch.scratch.budget = m.budget.identity
  decoders : ∀ decoder ∈ m.decoders, decoder.Windowed ∧ decoder.memoryBudget = m.budget.identity
  reassemblers : ∀ reassembler ∈ m.reassemblers,
    reassembler.WellFormed ∧ reassembler.memoryBudget = m.budget.identity

variable {m n : SharedMemory} {index : ℕ}

theorem Initial.inv (h : m.Initial) : m.Inv where
  conserved := by rw [h.used, chargedBytes, ownedBytes, h.charges, h.batches, h.decoders, h.reassemblers]; rfl
  within := by rw [h.used]; exact Nat.zero_le _
  sound := h.underflowed
  charges := by rw [h.charges]; exact List.forall_mem_nil _
  batches := by rw [h.batches]; exact List.forall_mem_nil _
  decoders := by rw [h.decoders]; exact List.forall_mem_nil _
  reassemblers := by rw [h.reassemblers]; exact List.forall_mem_nil _

theorem Inv.balanced (h : m.Inv) {given taken : ℕ} (hbalanced : Balanced m.budget n.budget given taken)
    (htotal : n.chargedBytes + n.ownedBytes + given = m.chargedBytes + m.ownedBytes + taken)
    (hcharges : ∀ charge ∈ n.charges, charge.budget = m.budget.identity)
    (hbatches : ∀ batch ∈ n.batches, batch.scratch.budget = m.budget.identity)
    (hdecoders : ∀ decoder ∈ n.decoders, decoder.Windowed ∧ decoder.memoryBudget = m.budget.identity)
    (hreassemblers : ∀ reassembler ∈ n.reassemblers,
      reassembler.WellFormed ∧ reassembler.memoryBudget = m.budget.identity) : n.Inv where
  conserved := by
    have hconserved := h.conserved
    have hused := hbalanced.used
    omega
  within := hbalanced.within h.within
  sound := hbalanced.sound.trans h.sound
  charges := by rwa [hbalanced.identity]
  batches := by rwa [hbalanced.identity]
  decoders := by rwa [hbalanced.identity]
  reassemblers := by rwa [hbalanced.identity]

variable {charge : RecoveryCharge}

theorem Inv.charge_le (h : m.Inv) (hcharge : m.charges[index]? = some charge) :
    charge.bytes ≤ m.budget.used := by
  have hle := weight_le_totalWeight RecoveryCharge.bytes hcharge
  have hconserved := h.conserved
  unfold chargedBytes at hconserved
  omega

theorem Inv.heldOf_charge (h : m.Inv) (hcharge : m.charges[index]? = some charge) :
    charge.heldOf m.budget.identity = charge.bytes := by
  refine RecoveryCharge.heldOf_own ?_
  rw [RecoveryCharge.belongsTo, h.charges charge (List.mem_of_getElem? hcharge), beq_self_eq_true]

variable {decoder : Decoder}

theorem Inv.decoder_le (h : m.Inv) (hdecoder : m.decoders[index]? = some decoder) :
    decoder.held + totalWeight RecoveryCharge.bytes m.charges ≤ m.budget.used := by
  have hle := weight_le_totalWeight Decoder.held hdecoder
  have hconserved := h.conserved
  unfold chargedBytes ownedBytes at hconserved
  omega

variable {reassembler : Reassembler}

theorem Inv.reassembler_le (h : m.Inv)
    (hreassembler : m.reassemblers[index]? = some reassembler) :
    reassembler.charged + totalWeight RecoveryCharge.bytes m.charges ≤ m.budget.used := by
  have hle := weight_le_totalWeight Reassembler.charged hreassembler
  have hconserved := h.conserved
  unfold chargedBytes at hconserved
  omega

variable {budget : RecoveryMemoryBudget}

theorem Inv.replaceCharge (h : m.Inv) {charge' : RecoveryCharge}
    (hcharge : m.charges[index]? = some charge) (hown : charge'.budget = charge.budget)
    (hbalanced : Balanced m.budget budget charge.bytes charge'.bytes) :
    ({ m with budget := budget, charges := m.charges.set index charge' } : SharedMemory).Inv := by
  have htotal := totalWeight_set RecoveryCharge.bytes hcharge charge'
  refine h.balanced hbalanced ?_ ?_ h.batches h.decoders h.reassemblers
  · unfold chargedBytes ownedBytes
    dsimp only
    omega
  · exact forall_mem_set index h.charges (hown.trans (h.charges charge (List.mem_of_getElem? hcharge)))

theorem Inv.decoded (h : m.Inv) (hdecoder : m.decoders[index]? = some decoder)
    {result : Outcome FecError RecoveredBatch × Decoder × RecoveryMemoryBudget}
    (hconserves : decoder.Conserves m.budget result) : (m.decoded index result).Inv := by
  have htotal := totalWeight_set Decoder.held hdecoder result.2.1
  have hmemory := (h.decoders decoder (List.mem_of_getElem? hdecoder)).2
  have hnext := forall_mem_set index h.decoders ⟨hconserves.windowed, hconserves.memoryBudget.trans hmemory⟩
  have hbalanced := hconserves.balanced
  obtain ⟨outcome, next, budget⟩ := result
  cases outcome with
  | ok batch =>
    refine h.balanced hbalanced ?_ h.charges (List.forall_mem_cons.mpr ⟨hconserves.owned batch rfl, h.batches⟩) hnext
      h.reassemblers
    unfold chargedBytes ownedBytes SharedMemory.decoded
    dsimp only [Decoder.scratchBytes] at htotal ⊢
    rw [totalWeight_cons]
    omega
  | err error =>
    refine h.balanced hbalanced ?_ h.charges h.batches hnext h.reassemblers
    unfold chargedBytes ownedBytes SharedMemory.decoded
    dsimp only [Decoder.scratchBytes] at htotal ⊢
    omega
  | panicked => exact absurd rfl hconserves.completes

theorem Inv.dropCharge (h : m.Inv) (hcharge : m.charges[index]? = some charge) :
    ({ m with budget := charge.drop m.budget, charges := m.charges.eraseIdx index } : SharedMemory).Inv := by
  have htotal := totalWeight_eraseIdx RecoveryCharge.bytes hcharge
  have hown := h.charges charge (List.mem_of_getElem? hcharge)
  refine h.balanced (RecoveryCharge.drop_own_balanced hown (h.charge_le hcharge)) ?_
    (forall_mem_eraseIdx index h.charges) h.batches h.decoders h.reassemblers
  unfold chargedBytes ownedBytes
  dsimp only
  omega

theorem Inv.commit (h : m.Inv) (hdecoder : m.decoders[index]? = some decoder) {paid : ℕ}
    (hcharge : m.charges[paid]? = some charge)
    {result : Outcome FecError Unit × Decoder × RecoveryMemoryBudget}
    (hconserves : decoder.CommitConserves m.budget charge result) :
    ({ m with
      budget := result.2.2
      decoders := m.decoders.set index result.2.1
      charges := m.charges.eraseIdx paid } : SharedMemory).Inv := by
  have htotal := totalWeight_set Decoder.held hdecoder result.2.1
  have htotal' := totalWeight_eraseIdx RecoveryCharge.bytes hcharge
  have hmemory := (h.decoders decoder (List.mem_of_getElem? hdecoder)).2
  have hbytes := h.heldOf_charge hcharge
  refine h.balanced hconserves.balanced ?_ (forall_mem_eraseIdx paid h.charges) h.batches
    (forall_mem_set index h.decoders ⟨hconserves.windowed, hconserves.memoryBudget.trans hmemory⟩) h.reassemblers
  unfold chargedBytes ownedBytes
  dsimp only
  omega

theorem Inv.taken (h : m.Inv) {batch : RecoveredBatch} (hbatch : m.batches[index]? = some batch)
    {result : Except FecError (RecoveryCharge × RecoveredBatch)}
    (hresult : ∀ charge rest, result = .ok (charge, rest) → charge.budget = batch.scratch.budget ∧
      rest.scratch.budget = batch.scratch.budget ∧ rest.scratch.bytes + charge.bytes = batch.scratch.bytes) :
    (m.taken index result).Inv := by
  cases result with
  | error error => exact h
  | ok value =>
    obtain ⟨charge, rest⟩ := value
    obtain ⟨hcharge, hrest, hbytes⟩ := hresult charge rest rfl
    have htotal := totalWeight_set (fun batch => batch.scratch.bytes) hbatch rest
    have hown := h.batches batch (List.mem_of_getElem? hbatch)
    refine h.balanced (Balanced.refl m.budget 0) ?_ (List.forall_mem_cons.mpr ⟨hcharge.trans hown, h.charges⟩)
      (forall_mem_set index h.batches (hrest.trans hown)) h.decoders h.reassemblers
    unfold chargedBytes ownedBytes SharedMemory.taken
    dsimp only at htotal ⊢
    rw [totalWeight_cons]
    omega

theorem takeDispatchCharge_eq_ok {batch rest : RecoveredBatch} {bytes : ℕ}
    (h : batch.takeDispatchCharge bytes = .ok (charge, rest)) : charge.budget = batch.scratch.budget ∧
      rest.scratch.budget = batch.scratch.budget ∧ rest.scratch.bytes + charge.bytes = batch.scratch.bytes := by
  unfold RecoveredBatch.takeDispatchCharge at h
  by_cases hle : bytes ≤ batch.scratch.bytes
  · rw [RecoveryCharge.split_of_le hle] at h
    cases h
    exact ⟨rfl, rfl, Nat.sub_add_cancel hle⟩
  · rw [RecoveryCharge.split, if_pos (not_le.mp hle)] at h
    cases h

theorem Inv.replaceReassembler (h : m.Inv) {next : Reassembler}
    (hreassembler : m.reassemblers[index]? = some reassembler) (hwellFormed : next.WellFormed)
    (hmemory : next.memoryBudget = reassembler.memoryBudget)
    (hbalanced : Balanced m.budget budget reassembler.charged next.charged) :
    ({ m with budget := budget, reassemblers := m.reassemblers.set index next } : SharedMemory).Inv := by
  have htotal := totalWeight_set Reassembler.charged hreassembler next
  have hown := (h.reassemblers reassembler (List.mem_of_getElem? hreassembler)).2
  refine h.balanced hbalanced ?_ h.charges h.batches h.decoders
    (forall_mem_set index h.reassemblers ⟨hwellFormed, hmemory.trans hown⟩)
  unfold chargedBytes ownedBytes
  dsimp only
  omega

theorem balanced_of_insertEffect {r : Reassembler}
    {record : ℕ × List UInt8} {fin : Bool} {result : Inserted} (hr : r.WellFormed)
    (hheld : charge.heldOf budget.identity ≤ budget.used) (h : InsertEffect r budget charge record fin result) :
    result.2.1.WellFormed ∧ result.2.1.memoryBudget = r.memoryBudget ∧
      Balanced budget result.2.2 (r.charged + charge.heldOf budget.identity) result.2.1.charged := by
  cases h with
  | refused error => exact ⟨hr, rfl, (RecoveryCharge.drop_balanced hheld).congr (by dsimp only; omega)⟩
  | accepted haccepted hbalanced => exact ⟨haccepted.wellFormed, haccepted.memoryBudget, hbalanced⟩

theorem Inv.insertCharged (h : m.Inv)
    (hreassembler : m.reassemblers[index]? = some reassembler) {paid : ℕ}
    (hcharge : m.charges[paid]? = some charge) (offset : ℕ) (bytes : List UInt8) (fin precharged : Bool) :
    ({ m.inserted index (reassembler.insertRecordWithReservation m.budget offset bytes fin charge precharged) with
      charges := m.charges.eraseIdx paid } : SharedMemory).Inv := by
  obtain ⟨hr, hmemory⟩ := h.reassemblers reassembler (List.mem_of_getElem? hreassembler)
  have hbytes := h.heldOf_charge hcharge
  have hheld : charge.heldOf m.budget.identity ≤ m.budget.used := hbytes.trans_le (h.charge_le hcharge)
  obtain ⟨hwellFormed, hnext, hbalanced⟩ := balanced_of_insertEffect hr hheld
    (hr.insertRecordWithReservation_effect hmemory.symm hheld offset bytes fin precharged)
  generalize reassembler.insertRecordWithReservation m.budget offset bytes fin charge precharged = result at *
  have htotal := totalWeight_set Reassembler.charged hreassembler result.2.1
  have htotal' := totalWeight_eraseIdx RecoveryCharge.bytes hcharge
  refine h.balanced hbalanced ?_ (forall_mem_eraseIdx paid h.charges) h.batches h.decoders
    (forall_mem_set index h.reassemblers ⟨hwellFormed, hnext.trans hmemory⟩)
  unfold chargedBytes ownedBytes inserted
  dsimp only
  omega

theorem Inv.insertRecord (h : m.Inv)
    (hreassembler : m.reassemblers[index]? = some reassembler) (offset : ℕ) (bytes : List UInt8) (fin : Bool) :
    (m.inserted index (reassembler.insertRecord m.budget offset bytes fin)).Inv := by
  obtain ⟨hr, hmemory⟩ := h.reassemblers reassembler (List.mem_of_getElem? hreassembler)
  have hheld : RecoveryCharge.heldOf ⟨m.budget.identity, 0⟩ m.budget.identity ≤ m.budget.used := by
    rw [RecoveryCharge.heldOf_empty]
    exact Nat.zero_le _
  rw [Reassembler.insertRecord, RecoveryCharge.reserve_zero h.within]
  obtain ⟨hwellFormed, hnext, hbalanced⟩ := balanced_of_insertEffect hr hheld
    (hr.insertRecordWithReservation_effect hmemory.symm hheld offset bytes fin false)
  rw [RecoveryCharge.heldOf_empty, Nat.add_zero] at hbalanced
  exact h.replaceReassembler hreassembler hwellFormed hnext hbalanced

theorem Inv.dropReassembler (h : m.Inv)
    (hreassembler : m.reassemblers[index]? = some reassembler) :
    ({ m with
      budget := dropCharges m.budget reassembler.chunks.entries
      reassemblers := m.reassemblers.eraseIdx index } : SharedMemory).Inv := by
  have hmemory := (h.reassemblers reassembler (List.mem_of_getElem? hreassembler)).2
  have hle := h.reassembler_le hreassembler
  have hcharged : reassembler.charged = (reassembler.chunks.entries.map
      (fun entry => entry.2.charge.heldOf m.budget.identity)).sum := by rw [Reassembler.charged, hmemory]
  have htotal := totalWeight_eraseIdx Reassembler.charged hreassembler
  refine h.balanced (dropCharges_balanced (by omega)) ?_ h.charges h.batches h.decoders
    (forall_mem_eraseIdx index h.reassemblers)
  unfold chargedBytes ownedBytes
  dsimp only
  omega

private theorem Inv.apply_reserve (h : m.Inv) (bytes : ℕ) : (m.apply (.reserve bytes)).Inv := by
  rw [apply]
  split
  · exact h
  · next charge budget hreserve =>
    obtain ⟨hcharge, _, _⟩ := RecoveryCharge.reserve_eq_ok hreserve
    refine h.balanced (RecoveryCharge.reserve_balanced hreserve) ?_
      (List.forall_mem_cons.mpr ⟨by rw [hcharge], h.charges⟩) h.batches h.decoders h.reassemblers
    unfold chargedBytes ownedBytes
    dsimp only
    rw [totalWeight_cons, hcharge]
    dsimp only
    omega

private theorem Inv.apply_grow (h : m.Inv) (index bytes : ℕ) : (m.apply (.grow index bytes)).Inv := by
  rw [apply]
  split
  · exact h
  · next charge hcharge =>
    split
    · exact h
    · next grown budget hgrow =>
      exact h.replaceCharge hcharge (by rw [(RecoveryCharge.grow_eq_ok hgrow).1]) (RecoveryCharge.grow_balanced hgrow)

private theorem Inv.apply_shrink (h : m.Inv) {index bytes : ℕ} (hallows : m.Allows (.shrink index bytes)) :
    (m.apply (.shrink index bytes)).Inv := by
  rw [apply]
  split
  · exact h
  · next charge hcharge =>
    have hle := h.charge_le hcharge
    have hbytes : bytes ≤ charge.bytes := hallows charge hcharge
    rw [RecoveryCharge.shrink_of_le hbytes]
    exact h.replaceCharge hcharge rfl ((RecoveryMemoryBudget.release_balanced (by omega)).congr (by dsimp only; omega))

private theorem Inv.apply_split (h : m.Inv) (index bytes : ℕ) : (m.apply (.split index bytes)).Inv := by
  rw [apply]
  split
  · exact h
  · next charge hcharge =>
    by_cases hle : bytes ≤ charge.bytes
    · have hown := h.charges charge (List.mem_of_getElem? hcharge)
      have htotal := totalWeight_set RecoveryCharge.bytes hcharge ⟨charge.budget, charge.bytes - bytes⟩
      rw [RecoveryCharge.split_of_le hle]
      refine h.balanced (Balanced.refl m.budget 0) ?_
        (List.forall_mem_cons.mpr ⟨hown, forall_mem_set index h.charges hown⟩) h.batches h.decoders h.reassemblers
      unfold chargedBytes ownedBytes
      dsimp only at htotal ⊢
      rw [totalWeight_cons]
      dsimp only
      omega
    · rw [RecoveryCharge.split, if_pos (not_le.mp hle)]
      exact h

private theorem Inv.apply_newDecoder (h : m.Inv) {config : RecoveryConfig} {maxSymbolBytes : ℕ}
    (hallows : m.Allows (.newDecoder config maxSymbolBytes)) : (m.apply (.newDecoder config maxSymbolBytes)).Inv := by
  obtain ⟨flowBufferBytes, hconfig⟩ := hallows
  have hwindow := RecoveryConfig.decoderWindow_of_validate hconfig
  refine h.balanced (Balanced.refl m.budget 0) ?_ h.charges h.batches
    (List.forall_mem_cons.mpr ⟨⟨⟨lt_of_lt_of_le (by decide) hwindow, Nat.zero_le _⟩, rfl⟩, h.decoders⟩) h.reassemblers
  rw [apply]
  unfold chargedBytes ownedBytes
  dsimp only
  rw [totalWeight_cons]
  simp [Decoder.held, Decoder.withBudget, KnownSources.empty]

private theorem Inv.apply_commit (h : m.Inv) (index : ℕ) (storage : Storage) (symbolId : UInt32) (source : List UInt8)
    (paid : ℕ) : (m.apply (.commit index storage symbolId source paid)).Inv := by
  rw [apply]
  split
  · next decoder charge hdecoder hcharge =>
    obtain ⟨hwindowed, hmemory⟩ := h.decoders decoder (List.mem_of_getElem? hdecoder)
    have hheld := h.decoder_le hdecoder
    have hle := weight_le_totalWeight RecoveryCharge.bytes hcharge
    have hbytes := h.heldOf_charge hcharge
    exact h.commit hdecoder hcharge (hwindowed.commitRecoveredPrecharged hmemory (by omega) storage symbolId source)
  · exact h

private theorem Inv.apply_dropDecoder (h : m.Inv) (index : ℕ) : (m.apply (.dropDecoder index)).Inv := by
  rw [apply]
  split
  · exact h
  · next decoder hdecoder =>
    have hheld := h.decoder_le hdecoder
    have htotal := totalWeight_eraseIdx Decoder.held hdecoder
    refine h.balanced (decoder.drop_balanced (by omega)) ?_ h.charges h.batches
      (forall_mem_eraseIdx index h.decoders) h.reassemblers
    unfold chargedBytes ownedBytes
    dsimp only
    omega

private theorem Inv.apply_reserveDispatch (h : m.Inv) (index bytes : ℕ) :
    (m.apply (.reserveDispatch index bytes)).Inv := by
  rw [apply]
  split
  · exact h
  · next batch hbatch =>
    have hown := h.batches batch (List.mem_of_getElem? hbatch)
    split
    · exact h
    · next grown budget hreserve =>
      unfold RecoveredBatch.reserveDispatch at hreserve
      split at hreserve
      · cases hreserve
      · split at hreserve
        · cases hreserve
        · next scratch after hgrow =>
          cases hreserve
          have htotal := totalWeight_set (fun batch => batch.scratch.bytes) hbatch { batch with scratch := scratch }
          refine h.balanced (RecoveryCharge.grow_balanced hgrow) ?_ h.charges (forall_mem_set index h.batches ?_)
            h.decoders h.reassemblers
          · unfold chargedBytes ownedBytes
            dsimp only at htotal ⊢
            omega
          · rw [(RecoveryCharge.grow_eq_ok hgrow).1]
            exact hown

private theorem Inv.apply_dropBatch (h : m.Inv) (index : ℕ) : (m.apply (.dropBatch index)).Inv := by
  rw [apply]
  split
  · exact h
  · next batch hbatch =>
    have hown := h.batches batch (List.mem_of_getElem? hbatch)
    have hle := weight_le_totalWeight (fun batch => batch.scratch.bytes) hbatch
    have htotal := totalWeight_eraseIdx (fun batch => batch.scratch.bytes) hbatch
    have hconserved := h.conserved
    unfold chargedBytes at hconserved
    refine h.balanced (RecoveryCharge.drop_own_balanced hown (by omega)) ?_ h.charges
      (forall_mem_eraseIdx index h.batches) h.decoders h.reassemblers
    unfold chargedBytes ownedBytes
    dsimp only at htotal ⊢
    omega

private theorem Inv.apply_addSource (h : m.Inv) {index : ℕ} {storage : Storage} {symbolId : UInt32}
    {source : List UInt8} {workBudget : ℕ} (hallows : m.Allows (.addSource index storage symbolId source workBudget)) :
    (m.apply (.addSource index storage symbolId source workBudget)).Inv := by
  rw [apply]
  split
  · exact h
  · next decoder hdecoder =>
    have hheld := h.decoder_le hdecoder
    have hwindowed := (h.decoders decoder (List.mem_of_getElem? hdecoder)).1
    exact h.decoded hdecoder (hwindowed.addSource (by omega) h.within (hallows decoder hdecoder) symbolId source workBudget)

private theorem Inv.apply_addRepair (h : m.Inv) (index : ℕ) (firstSymbolId : UInt32) (span : ℕ)
    (repairId seed : UInt32) (coded : List UInt8) (workBudget : ℕ) :
    (m.apply (.addRepair index firstSymbolId span repairId seed coded workBudget)).Inv := by
  rw [apply]
  split
  · exact h
  · next decoder hdecoder =>
    have hheld := h.decoder_le hdecoder
    have hwindowed := (h.decoders decoder (List.mem_of_getElem? hdecoder)).1
    exact h.decoded hdecoder
      (hwindowed.addRepair (by omega) h.within firstSymbolId span repairId seed coded workBudget)

private theorem Inv.apply_takeRetainedCharge (h : m.Inv) (index bytes : ℕ) :
    (m.apply (.takeRetainedCharge index bytes)).Inv := by
  rw [apply]
  split
  · exact h
  · next batch hbatch =>
    refine h.taken hbatch (fun charge rest htaken => ?_)
    unfold RecoveredBatch.takeRetainedCharge at htaken
    split at htaken
    · cases htaken
    · split at htaken
      · cases htaken
      · next dispatched remaining hdispatch =>
        cases htaken
        have hparts := takeDispatchCharge_eq_ok hdispatch
        exact hparts

private theorem Inv.apply_takeDispatchCharge (h : m.Inv) (index bytes : ℕ) :
    (m.apply (.takeDispatchCharge index bytes)).Inv := by
  rw [apply]
  split
  · exact h
  · next batch hbatch => exact h.taken hbatch (fun charge rest htaken => takeDispatchCharge_eq_ok htaken)

private theorem Inv.apply_pop (h : m.Inv) (index : ℕ) : (m.apply (.pop index)).Inv := by
  rw [apply]
  split
  · exact h
  · next batch hbatch =>
    have hown := h.batches batch (List.mem_of_getElem? hbatch)
    have htotal := totalWeight_set (fun batch => batch.scratch.bytes) hbatch
      { batch with items := batch.items.dropLast }
    refine h.balanced (Balanced.refl m.budget 0) ?_ h.charges (forall_mem_set index h.batches hown) h.decoders
      h.reassemblers
    unfold chargedBytes ownedBytes
    dsimp only at htotal ⊢
    omega

private theorem Inv.apply_newReassembler (h : m.Inv) (maxBytes : ℕ) : (m.apply (.newReassembler maxBytes)).Inv := by
  refine h.balanced (Balanced.refl m.budget 0) ?_ h.charges h.batches h.decoders
    (List.forall_mem_cons.mpr ⟨⟨Reassembler.withBudget_wellFormed _ _, rfl⟩, h.reassemblers⟩)
  rw [apply]
  unfold chargedBytes ownedBytes
  dsimp only
  rw [totalWeight_cons]
  simp [Reassembler.charged, Reassembler.withBudget, OrderedMap.empty]

private theorem Inv.apply_setFinalOffset (h : m.Inv) (index finalOffset : ℕ) :
    (m.apply (.setFinalOffset index finalOffset)).Inv := by
  rw [apply]
  split
  · exact h
  · next reassembler hreassembler =>
    obtain ⟨hr, hmemory⟩ := h.reassemblers reassembler (List.mem_of_getElem? hreassembler)
    split
    · exact h
    · next next hset =>
      obtain ⟨rfl, _, hadmits⟩ := hr.setFinalOffset_eq_ok.mp hset
      exact h.replaceReassembler hreassembler (hr.withFinal hadmits) rfl (Balanced.refl m.budget reassembler.charged)

private theorem Inv.apply_read (h : m.Inv) (index length : ℕ) : (m.apply (.read index length)).Inv := by
  rw [apply]
  split
  · exact h
  · next reassembler hreassembler =>
    obtain ⟨hr, hmemory⟩ := h.reassemblers reassembler (List.mem_of_getElem? hreassembler)
    have hle := h.reassembler_le hreassembler
    obtain ⟨hconsumed, hbalanced, _⟩ := hr.readLoop_consumed hmemory.symm (by omega) (le_refl length)
    exact h.replaceReassembler hreassembler hconsumed.wellFormed hconsumed.memoryBudget hbalanced

private theorem Inv.apply_acknowledgeConsumed (h : m.Inv) (index contiguous : ℕ) :
    (m.apply (.acknowledgeConsumed index contiguous)).Inv := by
  rw [apply]
  split
  · exact h
  · next reassembler hreassembler =>
    obtain ⟨hr, hmemory⟩ := h.reassemblers reassembler (List.mem_of_getElem? hreassembler)
    have hle := h.reassembler_le hreassembler
    obtain ⟨hconsumed, hbalanced⟩ := hr.acknowledgeConsumed_consumed hmemory.symm (by omega) contiguous
    exact h.replaceReassembler hreassembler hconsumed.wellFormed hconsumed.memoryBudget hbalanced

theorem Inv.step (h : m.Inv) {action : Action} (hstep : Step m action n) : n.Inv := by
  obtain ⟨hallows, rfl⟩ := hstep
  cases action with
  | reserve bytes => exact h.apply_reserve bytes
  | grow charge bytes => exact h.apply_grow charge bytes
  | shrink charge bytes => exact h.apply_shrink hallows
  | split charge bytes => exact h.apply_split charge bytes
  | drop charge =>
    rw [apply]
    split
    · exact h
    · next hcharge => exact h.dropCharge hcharge
  | newDecoder config maxSymbolBytes => exact h.apply_newDecoder hallows
  | addSource decoder storage symbolId source workBudget => exact h.apply_addSource hallows
  | addRepair decoder firstSymbolId span repairId seed coded workBudget =>
    exact h.apply_addRepair decoder firstSymbolId span repairId seed coded workBudget
  | commit decoder storage symbolId source charge => exact h.apply_commit decoder storage symbolId source charge
  | dropDecoder decoder => exact h.apply_dropDecoder decoder
  | reserveDispatch batch bytes => exact h.apply_reserveDispatch batch bytes
  | takeRetainedCharge batch bytes => exact h.apply_takeRetainedCharge batch bytes
  | takeDispatchCharge batch bytes => exact h.apply_takeDispatchCharge batch bytes
  | pop batch => exact h.apply_pop batch
  | dropBatch batch => exact h.apply_dropBatch batch
  | newReassembler maxBytes => exact h.apply_newReassembler maxBytes
  | insertRecord reassembler offset bytes fin =>
    rw [apply]
    split
    · exact h
    · next hreassembler => exact h.insertRecord hreassembler offset bytes fin
  | insertCharged reassembler offset bytes fin charge precharged =>
    rw [apply]
    split
    · next hreassembler hcharge => exact h.insertCharged hreassembler hcharge offset bytes fin precharged
    · exact h
  | setFinalOffset reassembler finalOffset => exact h.apply_setFinalOffset reassembler finalOffset
  | read reassembler length => exact h.apply_read reassembler length
  | acknowledgeConsumed reassembler contiguous => exact h.apply_acknowledgeConsumed reassembler contiguous
  | dropReassembler reassembler =>
    rw [apply]
    split
    · exact h
    · next hreassembler => exact h.dropReassembler hreassembler

theorem inv_of_reachable (h : Reachable Initial Step m) : m.Inv :=
  Reachable.invariant (fun _ hs => hs.inv) (fun _ _ _ hs hstep => hs.step hstep) h

/-- Whatever shares a budget and however its operations interleave, the count is the bytes of the live charges and
of what the live decoders own. It stays within the limit, no release underflows, and nothing remains of it once
everything is dropped. -/
theorem used_conserved (h : Reachable Initial Step m) :
    m.budget.used = m.chargedBytes + m.ownedBytes ∧ m.budget.used ≤ m.budget.limit ∧
      m.budget.underflowed = false ∧
      (m.charges = [] → m.batches = [] → m.decoders = [] → m.reassemblers = [] → m.budget.used = 0) := by
  have hinv := inv_of_reachable h
  refine ⟨hinv.conserved, hinv.within, hinv.sound, fun hcharges hbatches hdecoders hreassemblers => ?_⟩
  rw [hinv.conserved, chargedBytes, ownedBytes, hcharges, hbatches, hdecoders, hreassemblers]
  rfl

def sample : SharedMemory := ⟨⟨0, 0, 2 ^ 20, mebibyte_bounded, false⟩, [], [], [], []⟩

def sampleConfig : RecoveryConfig := ⟨.adaptive, false, 2, 512, 32, 65536, 65536, 64, 4096⟩

def sampleActions : List Action :=
  [.newDecoder sampleConfig 64, .newReassembler 64, .addSource 0 ⟨false, false, 3, false, 0⟩ 7 [1, 2, 3] 4096,
    .addRepair 0 7 2 1 5 [9, 9, 9, 9] 4096, .dropBatch 0, .dropBatch 0, .reserve 40,
    .insertCharged 0 0 [1, 2, 3, 4] false 0 true, .read 0 1, .reserve 20]

theorem used_conserved_sample :
    0 < (sampleActions.foldl apply sample).chargedBytes ∧ 0 < (sampleActions.foldl apply sample).ownedBytes ∧
      (sampleActions.foldl apply sample).budget.used =
        (sampleActions.foldl apply sample).chargedBytes + (sampleActions.foldl apply sample).ownedBytes := by
  have hpermits : Reachable.Permits Allows apply sample sampleActions :=
    ⟨⟨1, by decide⟩, trivial, fun _ hdecoder => Option.some.inj hdecoder ▸ fun _ holdest => (nomatch holdest), trivial,
      trivial, trivial, trivial, trivial, trivial, trivial, trivial⟩
  have hstart : Reachable Initial Step sample := .start ⟨rfl, rfl, rfl, rfl, rfl, rfl⟩
  have hrun := hstart.run (fun _ _ hallows => ⟨hallows, rfl⟩) hpermits
  exact ⟨by decide +kernel, by decide +kernel, (used_conserved hrun).1⟩

end SharedMemory

end Quicp
