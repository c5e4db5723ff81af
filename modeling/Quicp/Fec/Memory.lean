import Quicp.Fec.Operations

/-!
# The memory of the decoder

The decoder owns the bytes of its known sources and of its rows without a charge of its own: what it keeps is
transferred to it from a reservation, and what it gives up is released.
-/

namespace Quicp

namespace Decoder

def held (d : Decoder) : ℕ := (d.known.queue.map KnownSource.retainedBytes).sum + d.rowBytes

/-- A window with room for a source, which holds no more than it may. -/
structure Windowed (d : Decoder) : Prop where
  positive : 0 < d.maxSymbols
  length : d.known.queue.length ≤ d.maxSymbols

/-- A buffer that is taken over does not have more capacity than it had. -/
def Shrinks (storage : Storage) (d : Decoder) : Prop :=
  ∀ oldest ∈ d.known.queue.head?, storage.oldestCapacity ≤ oldest.retainedBytes

private theorem queue_evict {maxSymbols turns : ℕ} {known : KnownSources} (h : known.queue.length = maxSymbols + 1)
    (hturns : 0 < turns) : (known.evict maxSymbols turns).queue = known.queue.tail := by
  cases turns with
  | zero => exact absurd hturns (lt_irrefl 0)
  | succ turns =>
    rw [KnownSources.evict, if_pos (by omega)]
    cases hpop : known.popFront with
    | none =>
      rw [KnownSources.popFront_eq_none hpop] at h
      cases h
    | some popped =>
      obtain ⟨oldest, rest⟩ := popped
      obtain ⟨hqueue, _⟩ := KnownSources.popFront_eq_some hpop
      rw [hqueue, List.length_cons] at h
      dsimp only
      rw [KnownSources.evict_of_le (by omega), hqueue]
      rfl

theorem evictedKnownBytes_le (d : Decoder) : d.evictedKnownBytes ≤ (d.known.queue.map KnownSource.retainedBytes).sum := by
  unfold evictedKnownBytes
  split_ifs
  · cases d.known.queue with
    | nil => exact Nat.zero_le _
    | cons oldest rest => simp
  · exact Nat.zero_le _

theorem Windowed.insertKnown {d : Decoder} (h : d.Windowed) (budget : RecoveryMemoryBudget) (source : KnownSource)
    (fresh : source.symbolId ∉ d.known.ids) (released : ℕ) : ∃ next,
    d.insertKnown budget source fresh released = (next, budget.release released) ∧ next.Windowed ∧
      next.memoryBudget = d.memoryBudget ∧ next.held + d.evictedKnownBytes = d.held + source.retainedBytes := by
  refine ⟨_, rfl, ?_⟩
  have hlength : (d.known.pushBack source fresh).queue.length = d.known.queue.length + 1 := List.length_append
  by_cases hfull : d.known.queue.length = d.maxSymbols
  · have hqueue : ((d.known.pushBack source fresh).evict d.maxSymbols (d.known.pushBack source fresh).queue.length).queue =
        (d.known.queue ++ [source]).tail :=
      queue_evict (by rw [hlength, hfull]) (by omega)
    have hpositive := h.positive
    cases hold : d.known.queue with
    | nil =>
      rw [hold] at hfull
      rw [← hfull] at hpositive
      exact absurd hpositive (lt_irrefl 0)
    | cons oldest rest =>
      rw [hold] at hqueue hfull
      refine ⟨⟨h.positive, ?_⟩, rfl, ?_⟩
      · rw [hqueue]
        change _ ≤ d.maxSymbols
        simpa using hfull.le
      · rw [held, hqueue, held, evictedKnownBytes, hold, if_pos hfull.ge]
        simp only [List.cons_append, List.tail_cons, List.map_append, List.sum_append, List.map_cons, List.map_nil,
          List.sum_cons, List.sum_nil, List.head?_cons, Option.map_some, Option.getD_some]
        omega
  · have hroom : d.known.queue.length < d.maxSymbols := lt_of_le_of_ne h.length hfull
    have hqueue : ((d.known.pushBack source fresh).evict d.maxSymbols (d.known.pushBack source fresh).queue.length).queue =
        d.known.queue ++ [source] := by
      rw [KnownSources.evict_of_le (by omega)]
      rfl
    refine ⟨⟨h.positive, ?_⟩, rfl, ?_⟩
    · rw [hqueue, List.length_append]
      exact hroom
    · rw [held, hqueue, held, evictedKnownBytes, if_neg (not_le.mpr hroom)]
      simp only [List.map_append, List.sum_append, List.map_cons, List.map_nil, List.sum_cons, List.sum_nil]
      omega

def scratchBytes : Outcome FecError RecoveredBatch → ℕ
  | .ok batch => batch.scratch.bytes
  | _ => 0

/-- A call that does not panic and moves the count by what the decoder and the returned batch hold. -/
structure Conserves (d : Decoder) (budget : RecoveryMemoryBudget)
    (result : Outcome FecError RecoveredBatch × Decoder × RecoveryMemoryBudget) : Prop where
  completes : result.1 ≠ .panicked
  windowed : result.2.1.Windowed
  memoryBudget : result.2.1.memoryBudget = d.memoryBudget
  owned : ∀ batch, result.1 = .ok batch → batch.scratch.budget = budget.identity
  balanced : Balanced budget result.2.2 d.held (result.2.1.held + scratchBytes result.1)

variable {d : Decoder} {budget : RecoveryMemoryBudget}

theorem Conserves.refused (h : d.Windowed) (error : FecError) : Conserves d budget (.err error, d, budget) where
  completes := fun heq => nomatch heq
  windowed := h
  memoryBudget := rfl
  owned := fun _ heq => nomatch heq
  balanced := Balanced.refl _ _

theorem finishEmpty_eq (d : Decoder) (h : budget.used ≤ budget.limit) :
    d.finishEmpty budget = (.ok ⟨[], 0, ⟨budget.identity, 0⟩⟩, d, budget) := by
  rw [finishEmpty, RecoveryCharge.reserve_zero h]

theorem Windowed.addSourceAlone (h : d.Windowed) (hheld : d.held ≤ budget.used) (hlimit : budget.used ≤ budget.limit)
    (storage : Storage) (id : UInt32) (source : List UInt8) (fresh : id ∉ d.known.ids) :
    Conserves d budget (d.addSourceAlone budget storage id source fresh) := by
  unfold Decoder.addSourceAlone
  cases hreserve : RecoveryCharge.reserve budget source.length with
  | error error => exact Conserves.refused h _
  | ok reserved =>
    obtain ⟨scratch, after⟩ := reserved
    have hlent := RecoveryCharge.reserve_balanced hreserve
    dsimp only
    cases hgrow : scratch.grow after
        (d.knownMemoryDelta (normalizeSourceStorage storage id source).retainedBytes).1 with
    | error error =>
      dsimp only
      rw [RecoveryCharge.drop_of_reserve hreserve]
      exact Conserves.refused h _
    | ok grown =>
      obtain ⟨grown, after'⟩ := grown
      obtain ⟨rfl, _, _⟩ := RecoveryCharge.reserve_eq_ok hreserve
      obtain ⟨hgrown, _⟩ := RecoveryCharge.grow_eq_ok hgrow
      have hpaid := hlent.chain (RecoveryCharge.grow_balanced hgrow)
      have hlarge : (d.knownMemoryDelta (normalizeSourceStorage storage id source).retainedBytes).1 ≤
          grown.bytes := by
        rw [hgrown]
        exact le_max_right _ _
      obtain ⟨next, hinsert, hwindowed, hbudget, hexchange⟩ := h.insertKnown after'
        (normalizeSourceStorage storage id source) fresh
        (d.knownMemoryDelta (normalizeSourceStorage storage id source).retainedBytes).2
      have hevicted := d.evictedKnownBytes_le
      have hused := hpaid.used
      generalize hdelta : d.knownMemoryDelta (normalizeSourceStorage storage id source).retainedBytes = delta at *
      obtain ⟨hreserved, hreleased⟩ := Prod.mk.inj hdelta
      have hcover : delta.2 ≤ after'.used := by
        unfold held at hheld
        omega
      have hrelease := hpaid.trans (RecoveryMemoryBudget.release_balanced hcover)
      have hleft := RecoveryMemoryBudget.release_used hcover
      have hrest : (⟨grown.budget, grown.bytes - delta.1⟩ : RecoveryCharge).bytes ≤ (after'.release delta.2).used := by
        unfold held at hheld
        dsimp only
        omega
      have hdrop := RecoveryCharge.drop_own_balanced (by rw [hgrown, hrelease.identity]) hrest
      dsimp only
      rw [RecoveryCharge.transfer_of_le hlarge]
      dsimp only
      rw [hinsert]
      dsimp only
      rw [finishEmpty_eq _ (hrelease.within hlimit)]
      refine ⟨fun heq => (nomatch heq), hwindowed, hbudget, ?_, (hrelease.trans hdrop).congr ?_⟩
      · rintro _ ⟨⟩
        exact hrelease.identity
      · dsimp only [scratchBytes]
        omega

theorem Windowed.reused (h : d.Windowed) (hheld : d.held ≤ budget.used) (hlimit : budget.used ≤ budget.limit)
    {oldest : KnownSource} {rest : KnownSources} (hpop : d.known.popFront = some (oldest, rest)) (source : KnownSource)
    (hsmall : source.retainedBytes ≤ oldest.retainedBytes) (fresh : source.symbolId ∉ rest.ids) :
    Conserves d budget (({ d with known := rest.pushBack source fresh } : Decoder).finishEmpty
      (budget.release (oldest.retainedBytes - source.retainedBytes))) := by
  obtain ⟨hqueue, _⟩ := KnownSources.popFront_eq_some hpop
  have hwindow := h.length
  have hold : d.held = oldest.retainedBytes + ((rest.queue.map KnownSource.retainedBytes).sum + d.rowBytes) := by
    rw [held, hqueue, List.map_cons, List.sum_cons, Nat.add_assoc]
  have hnew : ({ d with known := rest.pushBack source fresh } : Decoder).held =
      (rest.queue.map KnownSource.retainedBytes).sum + source.retainedBytes + d.rowBytes := by
    simp [held, KnownSources.pushBack]
  have hrelease := RecoveryMemoryBudget.release_balanced
    (show oldest.retainedBytes - source.retainedBytes ≤ budget.used by omega)
  rw [finishEmpty_eq _ (hrelease.within hlimit)]
  refine ⟨fun heq => (by cases heq), ⟨h.positive, ?_⟩, rfl, ?_, hrelease.congr ?_⟩
  · rw [hqueue] at hwindow
    simpa [KnownSources.pushBack] using hwindow
  · rintro _ ⟨⟩
    exact hrelease.identity
  · rw [hnew]
    dsimp only [scratchBytes]
    omega

theorem balanced_of_batch {lent after released : RecoveryMemoryBudget} {scratch grown : RecoveryCharge}
    {committed retained freed : ℕ} (hlent : Balanced budget lent 0 scratch.bytes)
    (hgrow : scratch.grow lent (retained + committed) = .ok (grown, after)) (hreleased : Balanced after released freed 0)
    (hlarge : retained + committed ≤ grown.bytes) (hfreed : freed ≤ budget.used) :
    Balanced budget (released.release (grown.bytes - committed - retained)) freed (committed + retained) := by
  have hpaid := (hlent.chain (RecoveryCharge.grow_balanced hgrow)).trans hreleased
  have hused := hpaid.used
  have hcover : grown.bytes - committed - retained ≤ released.used := by omega
  exact (hpaid.trans (RecoveryMemoryBudget.release_balanced hcover)).congr (by omega)

private theorem Windowed.commitRows (h : d.Windowed) (hheld : d.held ≤ budget.used) {source : KnownSource}
    (fresh : source.symbolId ∉ d.known.ids) {lent after : RecoveryMemoryBudget} {batch : RecoveredBatch}
    {grown : RecoveryCharge} {scratchBytes nextRowBytes reservation : ℕ} (rows : List Row)
    (hreservation : checkedAdd (d.knownMemoryDelta source.retainedBytes).1 (nextRowBytes - d.rowBytes) =
      some reservation) (hlent : Balanced budget lent 0 scratchBytes)
    (hgrow : RecoveryCharge.grow ⟨budget.identity, scratchBytes⟩ lent (batch.retainedBytes + reservation) =
      .ok (grown, after)) (hscratch : batch.scratch = ⟨budget.identity, grown.bytes - reservation⟩)
    (hlarge : batch.retainedBytes + reservation ≤ grown.bytes) {committed : Decoder × RecoveryMemoryBudget}
    (hcommitted : committed = ({ d with rows := rows, rowBytes := nextRowBytes } : Decoder).insertKnown
      (after.release (d.rowBytes - nextRowBytes)) source fresh (d.knownMemoryDelta source.retainedBytes).2) :
    Conserves d budget (match batch.shrinkAfterStateTransition committed.2 with
      | none => (.panicked, committed.1, committed.2)
      | some (batch, budget) => (.ok batch, committed.1, budget)) := by
  have hmoved : ({ d with rows := rows, rowBytes := nextRowBytes } : Decoder).Windowed := ⟨h.positive, h.length⟩
  obtain ⟨next, hinsert, hwindowed, hbudget, hexchange⟩ := hmoved.insertKnown
    (after.release (d.rowBytes - nextRowBytes)) source fresh (d.knownMemoryDelta source.retainedBytes).2
  rw [hinsert] at hcommitted
  subst hcommitted
  have hsum := checkedAdd_eq_some hreservation
  have hevicted := d.evictedKnownBytes_le
  have hpaid := hlent.chain (RecoveryCharge.grow_balanced hgrow)
  have hused := hpaid.used
  have hold : d.held = (d.known.queue.map KnownSource.retainedBytes).sum + d.rowBytes := rfl
  have hnew : ({ d with rows := rows, rowBytes := nextRowBytes } : Decoder).held =
      (d.known.queue.map KnownSource.retainedBytes).sum + nextRowBytes := rfl
  have hsame : ({ d with rows := rows, rowBytes := nextRowBytes } : Decoder).evictedKnownBytes =
      d.evictedKnownBytes := rfl
  have hdelta : d.knownMemoryDelta source.retainedBytes =
      (source.retainedBytes - d.evictedKnownBytes, d.evictedKnownBytes - source.retainedBytes) := rfl
  rw [hdelta] at hsum
  have hrows : d.rowBytes - nextRowBytes ≤ after.used := by omega
  have hleft := RecoveryMemoryBudget.release_used hrows
  have hsource : (d.knownMemoryDelta source.retainedBytes).2 ≤ (after.release (d.rowBytes - nextRowBytes)).used := by
    rw [hdelta]
    omega
  have hfreed := (RecoveryMemoryBudget.release_balanced hrows).trans (RecoveryMemoryBudget.release_balanced hsource)
  have hbatch := balanced_of_batch hlent hgrow hfreed hlarge (by rw [hdelta]; omega)
  rw [shrinkAfterStateTransition_eq hscratch hlarge]
  refine ⟨fun heq => (nomatch heq), hwindowed, hbudget, ?_, hbatch.congr ?_⟩
  · rintro _ ⟨⟩
    rfl
  · rw [hdelta]
    dsimp only [Decoder.scratchBytes]
    omega

theorem Windowed.addSourceToRows (h : d.Windowed) (hheld : d.held ≤ budget.used) (storage : Storage) (id : UInt32)
    (source : List UInt8) (fresh : id ∉ d.known.ids) (workBudget : ℕ) :
    Conserves d budget (d.addSourceToRows budget storage id source fresh workBudget) := by
  unfold Decoder.addSourceToRows
  split
  · exact Conserves.refused h _
  split_ifs
  · exact Conserves.refused h _
  split
  · next scratchBytes coefficientCapacity _ _ =>
    cases hreserve : RecoveryCharge.reserve budget scratchBytes with
    | error error => exact Conserves.refused h _
    | ok reserved =>
      obtain ⟨scratch, lent⟩ := reserved
      have hdrop := RecoveryCharge.drop_of_reserve hreserve
      have hlent := RecoveryCharge.reserve_balanced hreserve
      dsimp only
      split
      · rw [hdrop]
        exact Conserves.refused h _
      split
      · rw [hdrop]
        exact Conserves.refused h _
      · next rows recovered _ _ nextRowBytes _ =>
        split
        · rw [hdrop]
          exact Conserves.refused h _
        · next reservation hreservation =>
          rcases new_cases recovered scratch reservation lent with hnew | ⟨batch, after, grown, hnew, _, hgrow,
            hscratch, hlarge⟩
          · rw [hnew, hdrop]
            exact Conserves.refused h _
          · obtain ⟨rfl, _, _⟩ := RecoveryCharge.reserve_eq_ok hreserve
            rw [hnew]
            exact h.commitRows hheld fresh rows hreservation hlent hgrow hscratch hlarge rfl
  · exact Conserves.refused h _

theorem Windowed.addSource (h : d.Windowed) (hheld : d.held ≤ budget.used) (hlimit : budget.used ≤ budget.limit)
    {storage : Storage} (hshrinks : Shrinks storage d) (id : UInt32) (source : List UInt8) (workBudget : ℕ) :
    Conserves d budget (d.addSource budget storage id source workBudget) := by
  unfold Decoder.addSource
  by_cases hsize : source = [] ∨ source.length > d.maxSymbolBytes
  · rw [if_pos hsize]
    exact Conserves.refused h _
  rw [if_neg hsize]
  split
  · exact Conserves.refused h _
  · next hstatus => exact absurd hstatus (d.sourceStatus_ne_panicked id source)
  · rw [finishEmpty_eq _ hlimit]
    exact ⟨fun heq => (nomatch heq), h, rfl, by rintro _ ⟨⟩; rfl, Balanced.refl _ _⟩
  · next hstatus =>
    have fresh := not_mem_of_sourceStatus hstatus
    dsimp only
    by_cases hrows : d.rows = []
    · rw [if_pos hrows]
      by_cases hunique : storage.isUnique
      · rw [if_pos hunique]
        exact h.addSourceAlone hheld hlimit storage id source fresh
      · rw [if_neg hunique]
        rcases d.tryReuseOldestSource_cases budget storage id source fresh with heq | ⟨oldest, rest, hpop, _, heq⟩
        · simp only [heq, Bool.false_eq_true, dite_false]
          exact h.addSourceAlone hheld hlimit storage id source fresh
        · simp only [heq, dite_true]
          have hsmall : storage.oldestCapacity ≤ oldest.retainedBytes :=
            hshrinks oldest (by rw [(KnownSources.popFront_eq_some hpop).1]; rfl)
          exact h.reused hheld hlimit hpop ⟨id, source, storage.oldestCapacity⟩ hsmall _
    · rw [if_neg hrows]
      exact h.addSourceToRows hheld storage id source fresh workBudget

private theorem Windowed.addRepairRow (h : d.Windowed) (hheld : d.held ≤ budget.used) {lent : RecoveryMemoryBudget}
    {scratchBytes : ℕ} (hlent : Balanced budget lent 0 scratchBytes)
    (hdrop : RecoveryCharge.drop ⟨budget.identity, scratchBytes⟩ lent = budget) (coefficientCapacity : ℕ) (row : Row)
    (work workBudget : ℕ) : Conserves d budget
      (d.addRepairRow lent ⟨budget.identity, scratchBytes⟩ coefficientCapacity row work workBudget) := by
  unfold Decoder.addRepairRow
  split
  · rw [hdrop]
    exact Conserves.refused h _
  · next rows recovered _ =>
    split
    · rw [hdrop]
      exact Conserves.refused h _
    · next nextRowBytes _ =>
      rcases new_cases recovered ⟨budget.identity, scratchBytes⟩ (nextRowBytes - d.rowBytes) lent with hnew |
        ⟨batch, after, grown, hnew, _, hgrow, hscratch, hlarge⟩
      · rw [hnew, hdrop]
        exact Conserves.refused h _
      · have hpaid := hlent.chain (RecoveryCharge.grow_balanced hgrow)
        have hused := hpaid.used
        have hold : d.held = (d.known.queue.map KnownSource.retainedBytes).sum + d.rowBytes := rfl
        have hafter : ({ d with rows := rows, rowBytes := nextRowBytes } : Decoder).held =
            (d.known.queue.map KnownSource.retainedBytes).sum + nextRowBytes := rfl
        have hrows : d.rowBytes - nextRowBytes ≤ after.used := by omega
        have hbatch := balanced_of_batch hlent hgrow (RecoveryMemoryBudget.release_balanced hrows) hlarge (by omega)
        simp only [hnew, shrinkAfterStateTransition_eq hscratch hlarge]
        refine ⟨fun heq => (by cases heq), ⟨h.positive, h.length⟩, rfl, ?_, hbatch.congr ?_⟩
        · rintro _ ⟨⟩
          rfl
        · dsimp only [Decoder.scratchBytes]
          omega

theorem Windowed.addRepair (h : d.Windowed) (hheld : d.held ≤ budget.used) (hlimit : budget.used ≤ budget.limit)
    (firstSymbolId : UInt32) (span : ℕ) (repairId seed : UInt32) (coded : List UInt8) (workBudget : ℕ) :
    Conserves d budget (d.addRepair budget firstSymbolId span repairId seed coded workBudget) := by
  unfold Decoder.addRepair
  split_ifs
  · exact Conserves.refused h _
  · exact Conserves.refused h _
  · exact Conserves.refused h _
  split
  · exact Conserves.refused h _
  split_ifs
  · exact Conserves.refused h _
  split
  · next scratchBytes coefficientCapacity _ _ =>
    cases hreserve : RecoveryCharge.reserve budget scratchBytes with
    | error error => exact Conserves.refused h _
    | ok reserved =>
      obtain ⟨scratch, lent⟩ := reserved
      have hdrop := RecoveryCharge.drop_of_reserve hreserve
      have hlent := RecoveryCharge.reserve_balanced hreserve
      obtain ⟨rfl, _, _⟩ := RecoveryCharge.reserve_eq_ok hreserve
      dsimp only
      split
      · rw [hdrop]
        exact Conserves.refused h _
      · split_ifs
        · rw [finishEmpty_eq _ (hlent.within hlimit), hdrop]
          exact ⟨fun heq => (by cases heq), h, rfl, by rintro _ ⟨⟩; exact hlent.identity, Balanced.refl _ _⟩
        · rw [hdrop]
          exact Conserves.refused h _
        · exact h.addRepairRow hheld hlent hdrop coefficientCapacity _ _ workBudget
  · exact Conserves.refused h _

/-- A commit that does not panic and moves the count by what the decoder and the charge held. -/
structure CommitConserves (d : Decoder) (budget : RecoveryMemoryBudget) (charge : RecoveryCharge)
    (result : Outcome FecError Unit × Decoder × RecoveryMemoryBudget) : Prop where
  completes : result.1 ≠ .panicked
  windowed : result.2.1.Windowed
  memoryBudget : result.2.1.memoryBudget = d.memoryBudget
  balanced : Balanced budget result.2.2 (d.held + charge.heldOf budget.identity) result.2.1.held

theorem Windowed.commitRecoveredPrecharged (h : d.Windowed) (hid : d.memoryBudget = budget.identity)
    {charge : RecoveryCharge} (hheld : d.held + charge.heldOf budget.identity ≤ budget.used) (storage : Storage)
    (id : UInt32) (source : List UInt8) :
    CommitConserves d budget charge (d.commitRecoveredPrecharged budget storage id source charge) := by
  have hdropped : ∀ outcome : Outcome FecError Unit, outcome ≠ .panicked →
      CommitConserves d budget charge (outcome, d, charge.drop budget) := fun outcome hne =>
    ⟨hne, h, rfl, (RecoveryCharge.drop_balanced (by omega)).congr (by dsimp only; omega)⟩
  unfold Decoder.commitRecoveredPrecharged
  by_cases hsize : source = [] ∨ source.length > d.maxSymbolBytes
  · rw [if_pos hsize]
    exact hdropped _ (fun heq => by cases heq)
  rw [if_neg hsize]
  by_cases hcharge : !charge.belongsTo d.memoryBudget ∨ charge.bytes < source.length
  · rw [if_pos hcharge]
    exact hdropped _ (fun heq => by cases heq)
  rw [if_neg hcharge]
  split
  · split_ifs
    · exact hdropped _ (fun heq => by cases heq)
    · exact hdropped _ (fun heq => by cases heq)
  · next hfind =>
    have hown : charge.belongsTo budget.identity = true := by
      rw [← hid]
      simpa using (not_or.mp hcharge).1
    rw [RecoveryCharge.heldOf_own hown] at hheld
    have hbudget : charge.budget = budget.identity := by simpa [RecoveryCharge.belongsTo] using hown
    dsimp only
    cases hgrow : charge.grow budget (normalizeSourceStorage storage id source).retainedBytes with
    | error error => exact hdropped _ (fun heq => by cases heq)
    | ok grown =>
      obtain ⟨grown, after⟩ := grown
      obtain ⟨hgrown, _⟩ := RecoveryCharge.grow_eq_ok hgrow
      have hpaid := RecoveryCharge.grow_balanced hgrow
      have hlarge : (normalizeSourceStorage storage id source).retainedBytes ≤ grown.bytes := by
        rw [hgrown]
        exact le_max_right _ _
      obtain ⟨next, hinsert, hwindowed, hmemory, hexchange⟩ := h.insertKnown after
        (normalizeSourceStorage storage id source) (not_mem_of_find hfind) d.evictedKnownBytes
      have hevicted := d.evictedKnownBytes_le
      have hused := hpaid.used
      have hcover : d.evictedKnownBytes ≤ after.used := by
        unfold held at hheld
        omega
      have hrelease := hpaid.trans (RecoveryMemoryBudget.release_balanced hcover)
      have hleft := RecoveryMemoryBudget.release_used hcover
      have hrest : (⟨grown.budget, grown.bytes - (normalizeSourceStorage storage id source).retainedBytes⟩ :
          RecoveryCharge).bytes ≤ (after.release d.evictedKnownBytes).used := by
        unfold held at hheld
        dsimp only
        omega
      have hdrop := RecoveryCharge.drop_own_balanced (by rw [hgrown, hrelease.identity]; exact hbudget) hrest
      dsimp only
      rw [RecoveryCharge.transfer_of_le hlarge]
      dsimp only
      rw [hinsert]
      refine ⟨fun heq => (by cases heq), hwindowed, hmemory, (hrelease.trans hdrop).congr ?_⟩
      rw [RecoveryCharge.heldOf_own hown]
      dsimp only
      omega

theorem drop_balanced (d : Decoder) (hheld : d.held ≤ budget.used) : Balanced budget (d.drop budget) d.held 0 :=
  RecoveryMemoryBudget.release_balanced hheld

end Decoder

end Quicp
