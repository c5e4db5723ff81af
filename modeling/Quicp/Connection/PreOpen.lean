import Quicp.Connection.Reserve

/-!
# The bookkeeping of the pre-open store

Several calls may hold reservations while flows are registered, entries expire and the clock advances. The steps are
those that the source takes under its locks.
-/

namespace Quicp

inductive Fate
  | handed (flow : ℕ)
  | expired (time : ℕ)
  deriving DecidableEq, Repr

/-- A connection with the calls that hold reservations, the entries that registrations took out of the store and
still hand over, and a history: all entries stored, all registrations, and how entries left. -/
structure PreOpenRun where
  reception : Reception
  calls : List (List PendingSourceRecord)
  opening : List ((ℕ × PreOpenRecord) × ℕ)
  stored : List (ℕ × PreOpenRecord)
  registered : List (ℕ × ℕ)
  departed : List ((ℕ × PreOpenRecord) × Fate)

namespace PreOpenRun

inductive Action
  | reserve (exact : ℕ → Bool) (records : List PendingSourceRecord)
  | release (call : ℕ)
  | dispatch (call : ℕ)
  | register (flowId flow : ℕ)
  | openRecord (entry : ℕ)
  | unregister (flowId : ℕ)
  | free (flow : ℕ)
  | advance (nanoseconds : ℕ)
  | others (budget : RecoveryMemoryBudget) (states : ℕ → Option FlowShared) (decoder : Decoder)

/-- The fate of an entry that a registration took out of the store. -/
def fateOf (now flow : ℕ) (record : PreOpenRecord) : Fate :=
  if record.expiresAt ≤ now then .expired now else .handed flow

def apply (r : PreOpenRun) : Action → PreOpenRun
  | .reserve exact records =>
    let pruned := (r.reception.preOpen.filter r.reception.expired).map fun entry => (entry, Fate.expired r.reception.now)
    let r := { r with departed := r.departed ++ pruned }
    let (granted, charged, reception) := r.reception.reserveSourceRecords exact records
    if granted then { r with reception := reception, calls := charged :: r.calls }
    else { r with reception := { reception with budget := dropRecords reception.budget charged } }
  | .release index =>
    match r.calls[index]? with
    | none => r
    | some records =>
      let reception := r.reception.releaseSourceReservations records
      { r with
        reception := { reception with budget := dropRecords reception.budget records }
        calls := r.calls.eraseIdx index }
  | .dispatch index =>
    match r.calls[index]? with
    | none | some [] => r
    | some (record :: rest) =>
      match r.reception.dispatchRecord record with
      | none => r
      | some reception =>
        { r with
          reception := reception
          calls := r.calls.set index rest
          stored := r.stored ++ reception.preOpen.drop r.reception.preOpen.length }
  | .register flowId flow =>
    let (records, reception) := r.reception.registerFlow flowId flow
    { r with
      reception := reception
      opening := r.opening ++ records.map fun record => ((flowId, record), flow)
      registered := r.registered ++ [(flowId, flow)] }
  | .openRecord index =>
    match r.opening[index]? with
    | none => r
    | some (entry, flow) =>
      { r with
        reception := r.reception.openRecord flow entry.2
        opening := r.opening.eraseIdx index
        departed := r.departed ++ [(entry, fateOf r.reception.now flow entry.2)] }
  | .unregister flowId => { r with reception := r.reception.unregisterFlow flowId }
  | .free flow => { r with reception := { r.reception with states := Function.update r.reception.states flow none } }
  | .advance nanoseconds => { r with reception := { r.reception with now := r.reception.now + nanoseconds } }
  | .others budget states decoder =>
    { r with reception := { r.reception with budget := budget, states := states, decoder := decoder } }

def Allows (r : PreOpenRun) : Action → Prop
  | .register _ flow => (r.reception.states flow).isSome = true
  | .free flow => (∀ call ∈ r.calls, ∀ record ∈ call, record.flow ≠ some flow) ∧ ∀ entry ∈ r.opening, entry.2 ≠ flow
  | _ => True

def Step (r : PreOpenRun) (action : Action) (next : PreOpenRun) : Prop := r.Allows action ∧ next = r.apply action

structure Initial (r : PreOpenRun) : Prop where
  preOpen : r.reception.preOpen = []
  preOpenCount : r.reception.preOpenCount = 0
  underflowed : r.reception.underflowed = false
  calls : r.calls = []
  opening : r.opening = []
  stored : r.stored = []
  departed : r.departed = []

/-- The records that are reserved in the store and not dispatched. -/
def reserved (r : PreOpenRun) : ℕ := totalWeight neededOf r.calls

structure Inv (r : PreOpenRun) : Prop where
  counted : r.reception.preOpenCount = r.reception.preOpen.length + r.reserved
  bounded : r.reception.preOpenCount ≤ r.reception.preOpenSymbols
  sound : r.reception.underflowed = false
  charged : ∀ call ∈ r.calls, ∀ record ∈ call, record.charge.isSome = true
  conserved : r.stored.Perm (r.reception.preOpen ++ (r.opening.map Prod.fst ++ r.departed.map Prod.fst))
  opened : ∀ entry ∈ r.opening, (entry.1.1, entry.2) ∈ r.registered
  handed : ∀ entry flow, (entry, Fate.handed flow) ∈ r.departed → (entry.1, flow) ∈ r.registered
  expired : ∀ entry time, (entry, Fate.expired time) ∈ r.departed →
    entry.2.expiresAt ≤ time ∧ time ≤ r.reception.now

variable {r : PreOpenRun}

theorem Inv.of_same (h : r.Inv) (reception : Reception)
    (hpreOpen : reception.preOpen = r.reception.preOpen) (hcount : reception.preOpenCount = r.reception.preOpenCount)
    (hlimit : reception.preOpenSymbols = r.reception.preOpenSymbols)
    (hsound : reception.underflowed = r.reception.underflowed) (hnow : r.reception.now ≤ reception.now) :
    Inv { r with reception := reception } where
  counted := by
    show reception.preOpenCount = reception.preOpen.length + r.reserved
    rw [hcount, hpreOpen]
    exact h.counted
  bounded := by
    show reception.preOpenCount ≤ reception.preOpenSymbols
    rw [hcount, hlimit]
    exact h.bounded
  sound := hsound.trans h.sound
  charged := h.charged
  conserved := by
    show r.stored.Perm (reception.preOpen ++ _)
    rw [hpreOpen]
    exact h.conserved
  opened := h.opened
  handed := h.handed
  expired := fun entry time hmem =>
    ⟨(h.expired entry time hmem).1, (h.expired entry time hmem).2.trans hnow⟩

theorem Initial.inv (h : r.Initial) : r.Inv where
  counted := by simp [h.preOpenCount, h.preOpen, reserved, h.calls]
  bounded := by simp [h.preOpenCount]
  sound := h.underflowed
  charged := by simp [h.calls]
  conserved := by simp [h.stored, h.preOpen, h.opening, h.departed]
  opened := by simp [h.opening]
  handed := by simp [h.departed]
  expired := by simp [h.departed]

theorem Inv.filter_le (h : r.Inv) (keep : ℕ × PreOpenRecord → Bool) :
    (r.reception.preOpen.filter keep).length ≤ r.reception.preOpenCount :=
  (List.length_filter_le ..).trans (h.counted ▸ Nat.le_add_right ..)

theorem Inv.prune (h : r.Inv) :
    Inv { r with
      reception := r.reception.prunePreOpen
      departed := r.departed ++ (r.reception.preOpen.filter r.reception.expired).map fun entry =>
        (entry, Fate.expired r.reception.now) } := by
  have hsplit := List.filter_append_perm r.reception.expired r.reception.preOpen
  have hlength := hsplit.length_eq
  have hcounted := h.counted
  have hbounded := h.bounded
  rw [List.length_append] at hlength
  rw [Reception.prunePreOpen_eq (h.filter_le _)]
  refine ⟨?_, (Nat.sub_le ..).trans hbounded, h.sound, h.charged, ?_, h.opened, ?_, ?_⟩
  · show r.reception.preOpenCount - (r.reception.preOpen.filter r.reception.expired).length =
      (r.reception.preOpen.filter fun entry => !r.reception.expired entry).length + r.reserved
    omega
  · refine List.perm_iff_count.mpr fun entry => ?_
    have hstored := h.conserved.count_eq entry
    have hparts := hsplit.count_eq entry
    rw [List.map_append, List.map_map, show Prod.fst ∘ (fun entry => (entry, Fate.expired r.reception.now)) = id from rfl,
      List.map_id]
    simp only [List.count_append] at hstored hparts ⊢
    omega
  · intro entry flow hmem
    rcases List.mem_append.mp hmem with hold | hnew
    · exact h.handed entry flow hold
    · obtain ⟨other, _, heq⟩ := List.mem_map.mp hnew
      cases heq
  · intro entry time hmem
    rcases List.mem_append.mp hmem with hold | hnew
    · exact h.expired entry time hold
    · obtain ⟨other, hother, heq⟩ := List.mem_map.mp hnew
      cases heq
      exact ⟨of_decide_eq_true (List.mem_filter.mp hother).2, le_refl _⟩

theorem Inv.reserve (h : r.Inv) (exact : ℕ → Bool) (records : List PendingSourceRecord) :
    (r.apply (.reserve exact records)).Inv := by
  have hpruned := h.prune
  have heffect := r.reception.prunePreOpen.reserveNamed_effect exact
    (records.map fun record => { record with flow := r.reception.prunePreOpen.upgrade record.flowId })
  rw [apply, Reception.reserveSourceRecords]
  dsimp only
  rcases hreserve : r.reception.prunePreOpen.reserveNamed exact
    (records.map fun record => { record with flow := r.reception.prunePreOpen.upgrade record.flowId }) with
    ⟨granted, charged, reception⟩
  rw [hreserve] at heffect ⊢
  obtain ⟨hneeded, hall, hplaces, hstate, _⟩ := heffect
  have hcounted := hpruned.counted
  have hbounded := hpruned.bounded
  dsimp only at hneeded hall hplaces hstate hcounted hbounded ⊢
  cases granted with
  | false =>
    rw [if_neg Bool.false_ne_true, hstate]
    exact hpruned.of_same _ rfl rfl rfl rfl le_rfl
  | true =>
    rw [if_pos rfl] at hstate ⊢
    rw [hstate] at hplaces ⊢
    refine ⟨?_, ?_, hpruned.sound, List.forall_mem_cons.mpr ⟨hall rfl, hpruned.charged⟩, hpruned.conserved,
      hpruned.opened, hpruned.handed, hpruned.expired⟩
    · show _ + _ = _ + totalWeight neededOf (charged :: r.calls)
      rw [totalWeight_cons, hneeded, hcounted]
      exact (Nat.add_assoc ..).trans (congrArg _ (Nat.add_comm ..))
    · rcases hplaces rfl with hnone | hroom
      · show _ + _ ≤ _
        rw [hnone]
        exact hbounded
      · exact hroom

theorem Inv.release (h : r.Inv) (index : ℕ) : (r.apply (.release index)).Inv := by
  rw [apply]
  cases hcall : r.calls[index]? with
  | none => exact h
  | some records =>
    have hweight := totalWeight_eraseIdx neededOf hcall
    have hcounted := h.counted
    have hplaces : neededOf records ≤ r.reception.preOpenCount := by
      rw [hcounted, reserved]
      omega
    dsimp only
    rw [Reception.releaseSourceReservations, Reception.lowerCount_of_le hplaces]
    refine ⟨?_, (Nat.sub_le ..).trans h.bounded, h.sound, forall_mem_eraseIdx index h.charged, h.conserved, h.opened,
      h.handed, h.expired⟩
    show r.reception.preOpenCount - neededOf records = r.reception.preOpen.length +
      totalWeight neededOf (r.calls.eraseIdx index)
    rw [hcounted, reserved]
    omega

theorem Inv.dispatched (h : r.Inv) {index : ℕ} {record : PendingSourceRecord}
    {rest : List PendingSourceRecord} (hcall : r.calls[index]? = some (record :: rest)) {reception : Reception}
    (added : List (ℕ × PreOpenRecord)) (hpreOpen : reception.preOpen = r.reception.preOpen ++ added)
    (hcount : reception.preOpenCount + neededOf (record :: rest) =
      r.reception.preOpenCount + neededOf rest + added.length)
    (hbounded : reception.preOpenCount ≤ reception.preOpenSymbols) (hsound : reception.underflowed = false)
    (hnow : reception.now = r.reception.now) :
    Inv { r with
      reception := reception
      calls := r.calls.set index rest
      stored := r.stored ++ reception.preOpen.drop r.reception.preOpen.length } := by
  have hweight := totalWeight_set neededOf hcall rest
  have hcounted := h.counted
  rw [reserved] at hcounted
  have hrest := (List.forall_mem_cons.mp (h.charged _ (List.mem_of_getElem? hcall))).2
  refine ⟨?_, hbounded, hsound, forall_mem_set index h.charged hrest, ?_, h.opened, h.handed, ?_⟩
  · show reception.preOpenCount = reception.preOpen.length + totalWeight neededOf (r.calls.set index rest)
    rw [hpreOpen, List.length_append]
    omega
  · show (r.stored ++ reception.preOpen.drop r.reception.preOpen.length).Perm (reception.preOpen ++ _)
    rw [hpreOpen, List.drop_left, List.append_assoc]
    refine (h.conserved.append_right added).trans ?_
    rw [List.append_assoc]
    exact List.perm_append_comm.append_left _
  · rw [hnow]
    exact h.expired

theorem Inv.dispatch (h : r.Inv) (index : ℕ) : (r.apply (.dispatch index)).Inv := by
  rw [apply]
  cases hcall : r.calls[index]? with
  | none => exact h
  | some records =>
    cases records with
    | nil => exact h
    | cons record rest =>
      obtain ⟨charge, hcharge⟩ := Option.isSome_iff_exists.mp
        ((List.forall_mem_cons.mp (h.charged _ (List.mem_of_getElem? hcall))).1)
      have hneeded := neededOf_cons record rest
      dsimp only
      rw [Reception.dispatchRecord, hcharge]
      cases hflow : record.flow with
      | some flow =>
        rw [hflow] at hneeded
        dsimp only
        rw [Reception.insertInto_eq]
        refine h.dispatched hcall [] (List.append_nil _).symm ?_ h.bounded h.sound rfl
        rw [hneeded]
        rfl
      | none =>
        rw [hflow] at hneeded
        dsimp only
        cases hupgrade : r.reception.upgrade record.flowId with
        | none =>
          refine h.dispatched hcall [_] rfl ?_ h.bounded h.sound rfl
          rw [hneeded]
          rfl
        | some flow =>
          have hplace : 1 ≤ r.reception.preOpenCount := by
            have hweight := weight_le_totalWeight neededOf hcall
            have hcounted := h.counted
            rw [hneeded] at hweight
            rw [reserved] at hcounted
            simp only [Option.isNone_none, if_true] at hweight
            omega
          dsimp only
          rw [Reception.insertInto_eq, Reception.lowerCount_of_le hplace]
          refine h.dispatched hcall [] (List.append_nil _).symm ?_ ((Nat.sub_le ..).trans h.bounded) h.sound rfl
          rw [hneeded]
          simp only [Option.isNone_none, if_true, List.length_nil]
          omega

theorem Inv.register (h : r.Inv) (flowId flow : ℕ) : (r.apply (.register flowId flow)).Inv := by
  have hsplit := List.filter_append_perm (fun entry : ℕ × PreOpenRecord => decide (entry.1 = flowId)) r.reception.preOpen
  have hlength := hsplit.length_eq
  have hcounted := h.counted
  have hcovered := h.filter_le fun entry => decide (entry.1 = flowId)
  rw [List.length_append] at hlength
  have hentries : ((r.reception.preOpen.filter fun entry => decide (entry.1 = flowId)).map Prod.snd).map
      (fun record => ((flowId, record), flow)) =
        (r.reception.preOpen.filter fun entry => decide (entry.1 = flowId)).map fun entry => (entry, flow) := by
    rw [List.map_map]
    refine List.map_congr_left fun entry hentry => ?_
    have hid : entry.1 = flowId := of_decide_eq_true (List.mem_filter.mp hentry).2
    simp [← hid]
  rw [apply, Reception.registerFlow, Reception.lowerCount_of_le (by exact hcovered)]
  dsimp only
  rw [hentries]
  refine ⟨?_, (Nat.sub_le ..).trans h.bounded, h.sound, h.charged, ?_, ?_, ?_, h.expired⟩
  · show r.reception.preOpenCount - (r.reception.preOpen.filter fun entry => decide (entry.1 = flowId)).length =
      (r.reception.preOpen.filter fun entry => !decide (entry.1 = flowId)).length + r.reserved
    omega
  · refine List.perm_iff_count.mpr fun entry => ?_
    have hstored := h.conserved.count_eq entry
    have hparts := hsplit.count_eq entry
    rw [List.map_append, List.map_map, show Prod.fst ∘ (fun entry : ℕ × PreOpenRecord => (entry, flow)) = id from rfl,
      List.map_id]
    simp only [List.count_append] at hstored hparts ⊢
    omega
  · intro entry hentry
    rcases List.mem_append.mp hentry with hold | hnew
    · exact List.mem_append_left _ (h.opened entry hold)
    · obtain ⟨other, hother, rfl⟩ := List.mem_map.mp hnew
      have hid : other.1 = flowId := of_decide_eq_true (List.mem_filter.mp hother).2
      exact List.mem_append_right _ (List.mem_singleton.mpr (by rw [hid]))
  · exact fun entry handedTo hmem => List.mem_append_left _ (h.handed entry handedTo hmem)

theorem Inv.openRecord (h : r.Inv) (index : ℕ) : (r.apply (.openRecord index)).Inv := by
  rw [apply]
  cases hentry : r.opening[index]? with
  | none => exact h
  | some found =>
    obtain ⟨entry, flow⟩ := found
    obtain ⟨hlt, hget⟩ := List.getElem?_eq_some_iff.mp hentry
    have hperm := List.getElem_cons_eraseIdx_perm hlt
    rw [hget] at hperm
    have hsame : r.reception.openRecord flow entry.2 = { r.reception with
        budget := (r.reception.openRecord flow entry.2).budget
        states := (r.reception.openRecord flow entry.2).states } := by
      unfold Reception.openRecord
      split_ifs
      · rfl
      · exact Reception.insertInto_eq ..
    dsimp only
    rw [hsame]
    refine ⟨h.counted, h.bounded, h.sound, h.charged, ?_, forall_mem_eraseIdx index h.opened, ?_, ?_⟩
    · refine List.perm_iff_count.mpr fun other => ?_
      have hstored := h.conserved.count_eq other
      have hparts := (hperm.map Prod.fst).count_eq other
      simp only [List.count_append, List.map_append, List.map_cons, List.map_nil, List.count_cons, List.count_nil]
        at hstored hparts ⊢
      omega
    · intro other handedTo hmem
      rcases List.mem_append.mp hmem with hold | hnew
      · exact h.handed other handedTo hold
      · rw [fateOf] at hnew
        split_ifs at hnew
        · cases List.mem_singleton.mp hnew
        · cases List.mem_singleton.mp hnew
          exact h.opened _ (List.mem_of_getElem? hentry)
    · intro other time hmem
      rcases List.mem_append.mp hmem with hold | hnew
      · exact h.expired other time hold
      · rw [fateOf] at hnew
        split_ifs at hnew with hexpired
        · cases List.mem_singleton.mp hnew
          exact ⟨hexpired, le_refl _⟩
        · cases List.mem_singleton.mp hnew

theorem Inv.step {next : PreOpenRun} {action : Action} (h : r.Inv) (hstep : r.Step action next) : next.Inv := by
  obtain ⟨_, rfl⟩ := hstep
  cases action with
  | reserve exact records => exact h.reserve exact records
  | release index => exact h.release index
  | dispatch index => exact h.dispatch index
  | register flowId flow => exact h.register flowId flow
  | openRecord index => exact h.openRecord index
  | unregister flowId => exact h.of_same _ rfl rfl rfl rfl le_rfl
  | free flow => exact h.of_same _ rfl rfl rfl rfl le_rfl
  | advance nanoseconds => exact h.of_same _ rfl rfl rfl rfl (Nat.le_add_right ..)
  | others budget states decoder => exact h.of_same _ rfl rfl rfl rfl le_rfl

instance (r : PreOpenRun) (action : Action) : Decidable (r.Allows action) := by
  cases action <;> unfold Allows <;> infer_instance

def sample : PreOpenRun where
  reception :=
    { budget := ⟨0, 0, 2 ^ 20, mebibyte_bounded, false⟩
      flows := fun _ => none
      states := fun flow =>
        if flow = 0 then some (FlowShared.new ⟨64, 64, 1, by decide, by decide, by decide⟩ 0 0) else none
      preOpen := []
      preOpenCount := 0
      underflowed := false
      decoder := Decoder.withBudget 512 512 1200 0
      preOpenSymbols := 2
      workBudget := 64
      maxSymbolBytes := 1200
      now := 0 }
  calls := []
  opening := []
  stored := []
  registered := []
  departed := []

def early (offset : ℕ) : PendingSourceRecord := ⟨none, 4, offset, false, [7], 1217, none⟩

end PreOpenRun

end Quicp
