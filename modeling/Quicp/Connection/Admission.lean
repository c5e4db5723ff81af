import Quicp.Connection.Reserve

/-!
# A refused source leaves no trace

`receive_source` reserves memory and places for all records of a source before the decoder sees it.
-/

namespace Quicp

namespace Reception

theorem heldBy_named (budget : ℕ) (name : ℕ → Option ℕ) (records : List PendingSourceRecord) :
    heldBy budget (records.map fun record => { record with flow := name record.flowId }) = heldBy budget records := by
  rw [heldBy, heldBy, List.map_map]
  rfl

theorem reserveSourceRecords_effect (s : Reception) (stored : ℕ → Bool) (records : List PendingSourceRecord)
    (hheld : heldBy s.budget.identity records ≤ s.prunePreOpen.budget.used)
    (hown : s.prunePreOpen.budget.identity = s.budget.identity) {granted : Bool} {charged : List PendingSourceRecord}
    {next : Reception} (h : s.reserveSourceRecords stored records = (granted, charged, next)) :
    ∃ used, used + heldBy s.budget.identity records =
        s.prunePreOpen.budget.used + heldBy s.budget.identity charged ∧
      (if granted then next.releaseSourceReservations charged else next) = s.prunePreOpen.withUsed used := by
  have heffect := s.prunePreOpen.reserveNamed_effect stored
    (records.map fun record => { record with flow := s.prunePreOpen.upgrade record.flowId })
  rw [show s.prunePreOpen.reserveNamed stored _ = _ from h] at heffect
  obtain ⟨hneeded, _, _, hstate, hmoved⟩ := heffect
  rw [heldBy_named, hown] at hmoved
  obtain ⟨used, hused, hbudget⟩ := hmoved hheld
  refine ⟨used, hused, ?_⟩
  rw [show next.budget = _ from hbudget] at hstate
  cases granted with
  | false => exact hstate
  | true =>
    rw [if_pos rfl, releaseSourceReservations, show neededOf charged = _ from hneeded]
    exact (congrArg (lowerCount · _) hstate).trans ((s.prunePreOpen.withUsed used).lowerCount_add _)

theorem acceptReserved_refused {s next : Reception} {alloc : Allocations} {later : ℕ → Allocations}
    {symbolId : UInt32} {datagram : List UInt8} {records held : List PendingSourceRecord} {verdict : SourceVerdict}
    (h : s.acceptReserved alloc later symbolId datagram records = some (verdict, held, next))
    (hrefused : verdict ≠ .accepted) : held = records ∧ next = s.releaseSourceReservations records := by
  unfold acceptReserved at h
  split at h
  · cases h
  · cases h
    exact ⟨rfl, rfl⟩
  · cases h
    exact ⟨rfl, rfl⟩
  · split at h
    · cases h
    · next hadd =>
      obtain ⟨rfl, rfl⟩ := (Decoder.sourceResult_of_eq hadd).unchanged
      cases h
      exact ⟨rfl, rfl⟩
    · split at h
      · cases h
      · obtain ⟨_, _, heq⟩ := Option.map_eq_some_iff.mp h
        exact absurd (Prod.mk.inj heq).1.symm hrefused

theorem acceptSource_refused {s next : Reception} {alloc : Allocations} {later : ℕ → Allocations} {symbolId : UInt32}
    {datagram : List UInt8} {records held : List PendingSourceRecord} {verdict : SourceVerdict}
    (h : s.acceptSource alloc later symbolId datagram records = some (verdict, held, next))
    (hrefused : verdict ≠ .accepted) (hheld : heldBy s.budget.identity records ≤ s.prunePreOpen.budget.used)
    (hown : s.prunePreOpen.budget.identity = s.budget.identity) :
    ∃ base, (base = s ∨ base = s.prunePreOpen) ∧ ∃ used, used + heldBy s.budget.identity records =
      base.budget.used + heldBy s.budget.identity held ∧ next = base.withUsed used := by
  unfold acceptSource at h
  split at h
  · cases h
  · cases h
    exact ⟨s, Or.inl rfl, s.budget.used, rfl, rfl⟩
  · cases h
    exact ⟨s, Or.inl rfl, s.budget.used, rfl, rfl⟩
  · split at h
    · next hreserve =>
      obtain ⟨used, hmoved, hnext⟩ := s.reserveSourceRecords_effect _ _ hheld hown hreserve
      cases h
      exact ⟨_, Or.inr rfl, used, hmoved, hnext⟩
    · next hreserve =>
      obtain ⟨used, hmoved, hnext⟩ := s.reserveSourceRecords_effect _ _ hheld hown hreserve
      obtain ⟨rfl, rfl⟩ := acceptReserved_refused h hrefused
      exact ⟨_, Or.inr rfl, used, hmoved, hnext⟩

end Reception

theorem copyRecords_held (copies : ℕ → Bool) (index : ℕ) (pool : RecoveryCharge)
    (records : List (Except CodecError SourceRecord)) :
    (copyRecords RecoveryCharge.takePart copies index pool records).2.1.budget = pool.budget ∧
      (copyRecords RecoveryCharge.takePart copies index pool records).2.1.bytes +
        heldBy pool.budget (copyRecords RecoveryCharge.takePart copies index pool records).1 = pool.bytes := by
  induction records generalizing index pool with
  | nil => exact ⟨rfl, rfl⟩
  | cons record rest ih =>
    cases record with
    | error error => exact ⟨rfl, rfl⟩
    | ok record =>
      rw [copyRecords]
      cases hexact : copies index with
      | false => exact ⟨rfl, rfl⟩
      | true =>
        by_cases hfits : record.data.length ≤ pool.bytes
        · obtain ⟨hbudget, hbytes⟩ := ih (index + 1) ⟨pool.budget, pool.bytes - record.data.length⟩
          rw [RecoveryCharge.takePart, RecoveryCharge.split_of_le hfits]
          simp only [Bool.not_true, Bool.false_eq_true, if_false, Except.toOption, Option.map_some, Prod.swap_prod_mk]
          rcases hrest : copyRecords RecoveryCharge.takePart copies (index + 1)
            ⟨pool.budget, pool.bytes - record.data.length⟩ rest with ⟨copied, left, complete⟩
          rw [hrest] at hbudget hbytes
          refine ⟨hbudget, ?_⟩
          have hown : RecoveryCharge.heldOf ⟨pool.budget, record.data.length⟩ pool.budget = record.data.length := by
            simp [RecoveryCharge.heldOf, RecoveryCharge.belongsTo]
          rw [heldBy_cons, SourceRecord.pending, Option.map_some, Option.getD_some, hown]
          dsimp only at hbytes ⊢
          omega
        · rw [RecoveryCharge.takePart, RecoveryCharge.split, if_pos (not_le.mp hfits)]
          exact ⟨rfl, rfl⟩

theorem drop_refused {budget : RecoveryMemoryBudget} {pool : RecoveryCharge} {held : List PendingSourceRecord}
    {before used taken : ℕ} (hown : pool.budget = budget.identity)
    (hused : used + taken = before + heldBy budget.identity held) (htaken : taken + pool.bytes ≤ before) :
    pool.drop (dropRecords { budget with used := used } held) =
      { budget with used := before - (taken + pool.bytes) } := by
  have hrecords : heldBy budget.identity held ≤ used := by omega
  have hpool : pool.heldOf budget.identity = pool.bytes := by
    simp [RecoveryCharge.heldOf, RecoveryCharge.belongsTo, hown]
  rw [dropRecords_eq hrecords, RecoveryCharge.drop_eq (by dsimp only; omega), hpool]
  dsimp only
  congr 1
  omega

namespace Reception

theorem finishSource_refused {s next : Reception} {alloc : Allocations} {later : ℕ → Allocations}
    {symbolId : UInt32} {datagram : List UInt8} {records : List PendingSourceRecord} {pool : RecoveryCharge}
    {verdict : SourceVerdict} {taken : ℕ} (hcharged : heldByEntries s.budget.identity s.preOpen ≤ s.budget.used)
    (hown : pool.budget = s.budget.identity) (htaken : pool.bytes + heldBy s.budget.identity records = taken)
    (h : finishSource pool ((s.withUsed (s.budget.used + taken)).acceptSource alloc later symbolId datagram records) =
      some (verdict, next)) (hrefused : verdict ≠ .accepted) : next = s ∨ next = s.prunePreOpen := by
  have hexpired := heldByEntries_expired_le hcharged
  have hmore : heldByEntries (s.withUsed (s.budget.used + taken)).budget.identity
      (s.withUsed (s.budget.used + taken)).preOpen ≤ (s.withUsed (s.budget.used + taken)).budget.used :=
    hcharged.trans (Nat.le_add_right ..)
  have hpruned : (s.withUsed (s.budget.used + taken)).prunePreOpen.budget = { s.budget with
      used := s.budget.used + taken - heldByEntries s.budget.identity (s.preOpen.filter s.expired) } :=
    prunePreOpen_budget hmore
  cases haccept : (s.withUsed (s.budget.used + taken)).acceptSource alloc later symbolId datagram records with
  | none =>
    rw [haccept] at h
    cases h
  | some result =>
    obtain ⟨exit, held, after⟩ := result
    rw [haccept] at h
    cases h
    have hroom : heldBy s.budget.identity records ≤
        (s.withUsed (s.budget.used + taken)).prunePreOpen.budget.used := by
      rw [hpruned]
      dsimp only
      omega
    obtain ⟨base, hbase, used, hmoved, rfl⟩ := acceptSource_refused haccept hrefused hroom (by rw [hpruned]; rfl)
    -- The records and the pool together held what was taken, so dropping them gives it back.
    rcases hbase with rfl | rfl
    · left
      have hdrop := drop_refused hown (show used + heldBy s.budget.identity records = s.budget.used + taken + _ from hmoved)
        (by omega)
      have hused : s.budget.used + taken - (heldBy s.budget.identity records + pool.bytes) = s.budget.used := by omega
      rw [hused] at hdrop
      exact congrArg (fun budget => { s with budget := budget }) hdrop
    · right
      rw [hpruned] at hmoved
      have hdrop := drop_refused hown (show used + heldBy s.budget.identity records =
        s.budget.used + taken - heldByEntries s.budget.identity (s.preOpen.filter s.expired) + _ from hmoved) (by omega)
      have hused : s.budget.used + taken - heldByEntries s.budget.identity (s.preOpen.filter s.expired) -
          (heldBy s.budget.identity records + pool.bytes) =
            s.budget.used - heldByEntries s.budget.identity (s.preOpen.filter s.expired) := by omega
      rw [hused, ← prunePreOpen_budget hcharged] at hdrop
      rw [prunePreOpen_withUsed, hpruned]
      exact congrArg (fun budget => { s.prunePreOpen with budget := budget }) hdrop

/-- A source that is not accepted changes nothing: no record of it reaches a flow or the pre-open store, the
decoder is as it was, and so are the counter and the memory budget, apart from expired entries that are pruned. -/
theorem refused_source_kept {s next : Reception} {alloc : Allocations} {later : ℕ → Allocations}
    {datagram : List UInt8} {verdict : SourceVerdict}
    (hcharged : heldByEntries s.budget.identity s.preOpen ≤ s.budget.used)
    (h : s.receiveSource alloc later datagram = some (verdict, next)) (hrefused : verdict ≠ .accepted) :
    next = s ∨ next = s.prunePreOpen := by
  unfold receiveSource at h
  split at h
  · cases h
    exact Or.inl rfl
  next source _ =>
    split at h
    · exact finishSource_refused hcharged rfl (show _ = 0 from rfl) h hrefused
    split at h
    · cases h
      exact Or.inl rfl
    split at h
    · cases h
      exact Or.inl rfl
    next bytes _ _ pool budget hreserve =>
      have hdrop := RecoveryCharge.drop_of_reserve hreserve
      obtain ⟨rfl, rfl, _⟩ := RecoveryCharge.reserve_eq_ok hreserve
      have hheld := copyRecords_held alloc.copies 0 ⟨s.budget.identity, bytes⟩ source.records
      split_ifs at h
      · cases h
        left
        rw [hdrop]
      · split at h
        · next copied left hcopy =>
          rw [hcopy] at hheld
          cases h
          left
          dsimp only at hheld
          have hback := drop_refused hheld.1 (show s.budget.used + bytes + heldBy s.budget.identity copied =
            s.budget.used + bytes + _ from rfl) (by omega)
          have hused : s.budget.used + bytes - (heldBy s.budget.identity copied + left.bytes) = s.budget.used := by omega
          rw [hused] at hback
          exact congrArg (fun budget => { s with budget := budget }) hback
        · next copied left hcopy =>
          rw [hcopy] at hheld
          exact finishSource_refused hcharged hheld.1 hheld.2 h hrefused

def exactAllocations : Allocations := ⟨true, fun _ => true, fun _ => true, ⟨false, false, 0, false, 0⟩⟩

def full : Reception where
  budget := ⟨0, 100, 2 ^ 20, mebibyte_bounded, false⟩
  flows := fun _ => none
  states := fun _ => none
  preOpen := [(4, ⟨0, false, [1, 2, 3], ⟨0, 3⟩, 5⟩)]
  preOpenCount := 1
  underflowed := false
  decoder := Decoder.withBudget 512 512 1200 0
  preOpenSymbols := 1
  workBudget := 64
  maxSymbolBytes := 1200
  now := 9

def twoRecords : List UInt8 :=
  match encodeSource 7 [⟨4, 3, false, [1]⟩, ⟨8, 0, true, [2, 3]⟩] with
  | .ok bytes => bytes
  | .error _ => []

theorem refused_source_kept_full :
    ∃ next, full.receiveSource exactAllocations (fun _ => exactAllocations) twoRecords = some (.unreserved, next) ∧
      (next = full ∨ next = full.prunePreOpen) := by
  have hverdict : (full.receiveSource exactAllocations (fun _ => exactAllocations) twoRecords).map Prod.fst =
      some .unreserved := by decide +kernel
  obtain ⟨⟨verdict, next⟩, hreceive, rfl⟩ := Option.map_eq_some_iff.mp hverdict
  exact ⟨next, hreceive, refused_source_kept (by decide) hreceive (by decide)⟩

end Reception

end Quicp
