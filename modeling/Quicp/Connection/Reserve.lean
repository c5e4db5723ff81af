import Quicp.Connection.Reception

/-!
# Reserving for the records of a source

A reservation takes a place in the pre-open store for every record whose flow is not open and bytes of the memory
budget for every record without a charge.
-/

namespace Quicp

/-- What pending records hold of the budget with this identity. -/
def heldBy (budget : ℕ) (records : List PendingSourceRecord) : ℕ :=
  (records.map fun record => (record.charge.map (·.heldOf budget)).getD 0).sum

@[simp] theorem heldBy_cons (budget : ℕ) (record : PendingSourceRecord) (rest : List PendingSourceRecord) :
    heldBy budget (record :: rest) = (record.charge.map (·.heldOf budget)).getD 0 + heldBy budget rest := by
  rw [heldBy, List.map_cons, List.sum_cons, heldBy]

theorem neededOf_cons (record : PendingSourceRecord) (rest : List PendingSourceRecord) :
    neededOf (record :: rest) = neededOf rest + if record.flow.isNone then 1 else 0 := List.countP_cons ..

/-- What entries of the pre-open store hold of the budget with this identity. -/
def heldByEntries (budget : ℕ) (entries : List (ℕ × PreOpenRecord)) : ℕ :=
  (entries.map fun entry => entry.2.charge.heldOf budget).sum

theorem dropRecords_eq {budget : RecoveryMemoryBudget} {records : List PendingSourceRecord}
    (h : heldBy budget.identity records ≤ budget.used) :
    dropRecords budget records = { budget with used := budget.used - heldBy budget.identity records } := by
  induction records generalizing budget with
  | nil => rfl
  | cons record rest ih =>
    rw [heldBy_cons] at h ⊢
    rw [dropRecords, List.foldl_cons, ← dropRecords]
    cases hcharge : record.charge with
    | none =>
      rw [hcharge, Option.map_none, Option.getD_none, zero_add] at h
      rw [Option.map_none, Option.getD_none, zero_add, dropIncoming, ih h]
    | some charge =>
      rw [hcharge, Option.map_some, Option.getD_some] at h
      have hfirst : charge.heldOf budget.identity ≤ budget.used := by omega
      rw [Option.map_some, Option.getD_some, dropIncoming, RecoveryCharge.drop_eq hfirst, ih (by dsimp only; omega)]
      dsimp only
      rw [Nat.sub_sub]

theorem dropEntries_eq {budget : RecoveryMemoryBudget} {entries : List (ℕ × PreOpenRecord)}
    (h : heldByEntries budget.identity entries ≤ budget.used) :
    Reception.dropEntries budget entries =
      { budget with used := budget.used - heldByEntries budget.identity entries } := by
  induction entries generalizing budget with
  | nil => rfl
  | cons entry rest ih =>
    rw [heldByEntries, List.map_cons, List.sum_cons, ← heldByEntries] at h
    rw [heldByEntries, List.map_cons, List.sum_cons, ← heldByEntries, Reception.dropEntries, List.foldl_cons,
      ← Reception.dropEntries]
    have hfirst : entry.2.charge.heldOf budget.identity ≤ budget.used := by omega
    rw [RecoveryCharge.drop_eq hfirst, ih (by dsimp only; omega)]
    dsimp only
    rw [Nat.sub_sub]

theorem chargeRecords_moved (stored : ℕ → Bool) (index : ℕ) (charge : RecoveryCharge)
    (records : List PendingSourceRecord) :
    (chargeRecords stored index charge records).2.1.budget = charge.budget ∧
      (chargeRecords stored index charge records).2.1.bytes +
        heldBy charge.budget (chargeRecords stored index charge records).2.2 =
          charge.bytes + heldBy charge.budget records ∧
      neededOf (chargeRecords stored index charge records).2.2 = neededOf records ∧
      ((chargeRecords stored index charge records).1 = true →
        ∀ record ∈ (chargeRecords stored index charge records).2.2, record.charge.isSome = true) := by
  induction records generalizing index charge with
  | nil => exact ⟨rfl, rfl, rfl, fun _ => List.forall_mem_nil _⟩
  | cons record rest ih =>
    rw [chargeRecords]
    by_cases hcharged : record.charge.isSome
    · obtain ⟨hbudget, hbytes, hneeded, hall⟩ := ih (index + 1) charge
      rcases hrest : chargeRecords stored (index + 1) charge rest with ⟨granted, left, charged⟩
      rw [hrest] at hbudget hbytes hneeded hall
      rw [if_pos hcharged]
      refine ⟨hbudget, ?_, ?_, fun hgranted => List.forall_mem_cons.mpr ⟨hcharged, hall hgranted⟩⟩
      · rw [heldBy_cons, heldBy_cons, Nat.add_left_comm, hbytes, Nat.add_left_comm]
      · rw [neededOf_cons, neededOf_cons, hneeded]
    rw [if_neg hcharged]
    by_cases hinexact : record.flow.isNone ∧ stored index = false
    · rw [if_pos hinexact]
      exact ⟨rfl, rfl, rfl, (by simp)⟩
    rw [if_neg hinexact]
    by_cases hfits : record.chargeBytes ≤ charge.bytes
    · rw [RecoveryCharge.split_of_le hfits]
      dsimp only
      obtain ⟨hbudget, hbytes, hneeded, hall⟩ := ih (index + 1) ⟨charge.budget, charge.bytes - record.chargeBytes⟩
      have hnone : record.charge = none := by simpa using hcharged
      have hown : RecoveryCharge.heldOf ⟨charge.budget, record.chargeBytes⟩ charge.budget = record.chargeBytes := by
        simp [RecoveryCharge.heldOf, RecoveryCharge.belongsTo]
      rcases hrest : chargeRecords stored (index + 1) ⟨charge.budget, charge.bytes - record.chargeBytes⟩ rest with
        ⟨granted, left, charged⟩
      rw [hrest] at hbudget hbytes hneeded hall
      refine ⟨hbudget, ?_, ?_, fun hgranted => List.forall_mem_cons.mpr ⟨rfl, hall hgranted⟩⟩
      · rw [heldBy_cons, heldBy_cons, hnone]
        simp only [Option.map_some, Option.map_none, Option.getD_some, Option.getD_none, hown]
        dsimp only at hbytes
        omega
      · rw [neededOf_cons, neededOf_cons, hneeded]
    · rw [RecoveryCharge.split, if_pos (not_le.mp hfits)]
      exact ⟨rfl, rfl, rfl, (by simp)⟩

namespace Reception

def withUsed (s : Reception) (used : ℕ) : Reception := { s with budget := { s.budget with used := used } }

theorem lowerCount_of_le {s : Reception} {amount : ℕ} (h : amount ≤ s.preOpenCount) :
    s.lowerCount amount = { s with preOpenCount := s.preOpenCount - amount } := by
  simp [lowerCount, h]

theorem lowerCount_add (s : Reception) (amount : ℕ) :
    ({ s with preOpenCount := s.preOpenCount + amount } : Reception).lowerCount amount = s := by
  rw [lowerCount_of_le (Nat.le_add_left ..)]
  simp

theorem reserveBounded_eq_some {counter limit amount next : ℕ} (h : reserveBounded counter limit amount = some next) :
    next = counter + amount ∧ (amount = 0 ∨ next ≤ limit) := by
  unfold reserveBounded at h
  split_ifs at h with hzero hwide hlimit
  · cases h
    exact ⟨by rw [hzero, add_zero], Or.inl hzero⟩
  · cases h
    exact ⟨rfl, Or.inr (not_lt.mp hlimit)⟩

/-- Reserving for records takes their places and charges them, or changes no more than the charges. -/
structure ReserveEffect (s : Reception) (records : List PendingSourceRecord) (granted : Bool)
    (charged : List PendingSourceRecord) (next : Reception) : Prop where
  needed : neededOf charged = neededOf records
  allCharged : granted = true → ∀ record ∈ charged, record.charge.isSome = true
  places : granted = true → neededOf records = 0 ∨ next.preOpenCount ≤ s.preOpenSymbols
  state : next = { s with
    budget := next.budget
    preOpenCount := if granted then s.preOpenCount + neededOf records else s.preOpenCount }
  moved : heldBy s.budget.identity records ≤ s.budget.used →
    ∃ used, used + heldBy s.budget.identity records = s.budget.used + heldBy s.budget.identity charged ∧
      next.budget = { s.budget with used := used }

theorem ReserveEffect.refused (s : Reception) (records : List PendingSourceRecord) :
    ReserveEffect s records false records s :=
  ⟨rfl, nofun, nofun, rfl, fun _ => ⟨s.budget.used, rfl, rfl⟩⟩

theorem reserveNamed_effect (s : Reception) (stored : ℕ → Bool) (records : List PendingSourceRecord) :
    ReserveEffect s records (s.reserveNamed stored records).1 (s.reserveNamed stored records).2.1
      (s.reserveNamed stored records).2.2 := by
  unfold reserveNamed
  cases hplaces : reserveBounded s.preOpenCount s.preOpenSymbols (neededOf records) with
  | none => exact .refused s records
  | some count =>
    obtain ⟨rfl, hlimit⟩ := reserveBounded_eq_some hplaces
    dsimp only
    rw [lowerCount_add]
    cases hbytes : neededBytes records with
    | none => exact .refused s records
    | some bytes =>
      dsimp only
      cases hreserve : RecoveryCharge.reserve s.budget bytes with
      | error error => exact .refused s records
      | ok reserved =>
        obtain ⟨charge, budget⟩ := reserved
        obtain ⟨rfl, rfl, _⟩ := RecoveryCharge.reserve_eq_ok hreserve
        obtain ⟨hown, hmoved, hneeded, hall⟩ := chargeRecords_moved stored 0 ⟨s.budget.identity, bytes⟩ records
        dsimp only
        rcases hcharged : chargeRecords stored 0 ⟨s.budget.identity, bytes⟩ records with ⟨granted, left, charged⟩
        rw [hcharged] at hown hmoved hneeded hall
        dsimp only at hown hmoved hneeded hall ⊢
        have hleft : left.heldOf s.budget.identity = left.bytes := by
          simp [RecoveryCharge.heldOf, RecoveryCharge.belongsTo, hown]
        have hdrop : heldBy s.budget.identity records ≤ s.budget.used →
            left.drop { s.budget with used := s.budget.used + bytes } =
              { s.budget with used := s.budget.used + bytes - left.bytes } := by
          intro hheld
          rw [RecoveryCharge.drop_eq (by dsimp only; omega), hleft]
        cases granted with
        | true =>
          exact ⟨hneeded, hall, fun _ => hlimit, rfl, fun hheld =>
            ⟨s.budget.used + bytes - left.bytes, by omega, hdrop hheld⟩⟩
        | false =>
          rw [if_neg Bool.false_ne_true, lowerCount_of_le (Nat.le_add_left ..)]
          exact ⟨hneeded, (by simp), (by simp), by simp, fun hheld =>
            ⟨s.budget.used + bytes - left.bytes, by omega, hdrop hheld⟩⟩

theorem heldByEntries_expired_le {s : Reception} (h : heldByEntries s.budget.identity s.preOpen ≤ s.budget.used) :
    heldByEntries s.budget.identity (s.preOpen.filter s.expired) ≤ s.budget.used :=
  ((List.filter_sublist.map _).sum_le_sum (fun _ _ => Nat.zero_le _)).trans h

theorem prunePreOpen_budget {s : Reception} (h : heldByEntries s.budget.identity s.preOpen ≤ s.budget.used) :
    s.prunePreOpen.budget = { s.budget with
      used := s.budget.used - heldByEntries s.budget.identity (s.preOpen.filter s.expired) } := by
  rw [← dropEntries_eq (heldByEntries_expired_le h)]
  unfold prunePreOpen
  dsimp only
  split_ifs <;> rfl

theorem prunePreOpen_withUsed (s : Reception) (used : ℕ) :
    (s.withUsed used).prunePreOpen = { s.prunePreOpen with budget := (s.withUsed used).prunePreOpen.budget } := by
  have hremoved : (s.withUsed used).preOpen.filter (s.withUsed used).expired = s.preOpen.filter s.expired := rfl
  unfold prunePreOpen
  dsimp only
  rw [hremoved]
  split_ifs <;> rfl

theorem prunePreOpen_eq {s : Reception} (h : (s.preOpen.filter s.expired).length ≤ s.preOpenCount) :
    s.prunePreOpen = { s with
      budget := s.prunePreOpen.budget
      preOpen := s.preOpen.filter (fun entry => !s.expired entry)
      preOpenCount := s.preOpenCount - (s.preOpen.filter s.expired).length } := by
  unfold prunePreOpen
  dsimp only
  split_ifs with hnone
  · rw [lowerCount_of_le (by exact h)]
  · rw [not_not] at hnone
    rw [hnone]
    rfl

theorem insertInto_eq (s : Reception) (flow offset : ℕ) (data : List UInt8) (fin : Bool) (charge : RecoveryCharge) :
    s.insertInto flow offset data fin charge = { s with
      budget := (s.insertInto flow offset data fin charge).budget
      states := (s.insertInto flow offset data fin charge).states } := by
  unfold insertInto
  cases s.states flow <;> rfl

end Reception

end Quicp
