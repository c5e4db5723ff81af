import Quicp.Fec.AtRest
import Quicp.Recovery.Config

/-!
# Datagrams that a connection receives

A connection decodes every datagram that arrives, whoever made it. Datagrams that are not valid and those that the
decoder refuses are dropped, with one exception: a repair for which the decoder has no row left closes the connection.
-/

namespace Quicp

private theorem bind_ne_rowCapacity {α β : Type} {first : Except FecError α} {next : α → Except FecError β}
    (hfirst : first ≠ .error .rowCapacity) (hnext : ∀ value, next value ≠ .error .rowCapacity) :
    (first >>= next) ≠ .error .rowCapacity := by
  cases first with
  | error error => exact fun heq => hfirst (congrArg _ (Except.error.inj heq))
  | ok value => exact hnext value

private theorem metered_ne_rowCapacity {α : Type} (count work budget : ℕ) (result : α) :
    metered count work budget result ≠ .error .rowCapacity := by
  rw [metered]
  rcases spendMany_cases count work budget with hspend | ⟨spent, hspend⟩
  · rw [hspend]
    exact fun heq => by cases heq
  · rw [hspend]
    exact fun heq => by cases heq

private theorem collectRecovered_ne_rowCapacity (rows : List Row) : collectRecovered rows ≠ .error .rowCapacity := by
  induction rows with
  | nil => exact fun heq => nomatch heq
  | cons row rest ih =>
    unfold collectRecovered
    split
    · split_ifs
      · exact fun heq => nomatch heq
      · exact ih
    · exact bind_ne_rowCapacity ih fun later heq => nomatch heq
    · exact ih

private theorem canonicalRecovered_ne_rowCapacity (maxSymbolBytes : ℕ) (recovered : List (UInt32 × List Gf256)) :
    canonicalRecovered maxSymbolBytes recovered ≠ .error .rowCapacity := by
  induction recovered with
  | nil => exact fun heq => nomatch heq
  | cons item rest ih =>
    unfold canonicalRecovered
    split
    · exact fun heq => nomatch heq
    · split_ifs
      · exact fun heq => nomatch heq
      · exact bind_ne_rowCapacity ih fun later heq => nomatch heq

private theorem repairTerms_ne_rowCapacity (known : KnownSources) (repairId seed : UInt32) (budget count : ℕ)
    (first : UInt32) (data : List Gf256) (work : ℕ) :
    repairTerms known repairId seed budget count first data work ≠ .error .rowCapacity := by
  induction count generalizing first data work with
  | zero => exact fun heq => by cases heq
  | succ count ih =>
    unfold repairTerms
    split
    · next source _ =>
      refine bind_ne_rowCapacity ?_ fun spent => ih _ _ _
      by_cases hfits : (Gf256.ofBytes source.bytes).length ≤ data.length
      · rw [xorScaled_eq hfits]
        exact metered_ne_rowCapacity _ _ _ _
      · rw [xorScaled, if_pos (not_le.mp hfits)]
        exact fun heq => by cases heq
    · exact bind_ne_rowCapacity (ih _ _ _) fun later heq => by cases heq

namespace Decoder

private theorem solve_ne_rowCapacity (d : Decoder) (rows : List Row) (workBudget : ℕ) :
    d.solve rows workBudget ≠ .error .rowCapacity := by
  have hreduce : reduce rows workBudget ≠ .error .rowCapacity := by
    refine bind_ne_rowCapacity ?_ fun reduced => bind_ne_rowCapacity (collectRecovered_ne_rowCapacity _)
      fun recovered => bind_ne_rowCapacity ?_ fun sorted heq => nomatch heq
    · rw [reduceLoop_eq]
      exact metered_ne_rowCapacity _ _ _ _
    · unfold sortRecovered
      dsimp only
      split_ifs <;> exact fun heq => nomatch heq
  refine bind_ne_rowCapacity hreduce fun reduced => bind_ne_rowCapacity (canonicalRecovered_ne_rowCapacity _ _)
    fun recovered => bind_ne_rowCapacity ?_ fun _ heq => nomatch heq
  unfold validateRecovered
  split_ifs <;> exact fun heq => nomatch heq

theorem rows_full_of_rowCapacity {d next : Decoder} {budget after : RecoveryMemoryBudget}
    {firstSymbolId repairId seed : UInt32} {span : ℕ} {coded : List UInt8} {workBudget : ℕ}
    (h : d.addRepair budget firstSymbolId span repairId seed coded workBudget = (.err .rowCapacity, next, after)) :
    d.rows.length = d.maxRows := by
  cases repairResult_of_eq h with
  | rowCapacity hfull => exact hfull
  | solved hspan hroom hsolved hreturned => rcases hreturned with heq | ⟨_, heq, _⟩ <;> cases heq
  | failed hfailed =>
    unfold repairRows at hfailed
    split at hfailed
    · cases hfailed
    · split_ifs at hfailed
      · cases hfailed
      · split at hfailed
        · next error hrow =>
          cases hfailed
          exact absurd hrow (bind_ne_rowCapacity (repairTerms_ne_rowCapacity _ _ _ _ _ _ _ _) fun _ heq => by cases heq)
        · split_ifs at hfailed
          · cases hfailed
          · exact absurd hfailed (d.solve_ne_rowCapacity _ _)

end Decoder

/-- The part of `ConnectionRecovery` that receives datagrams; `maxSpan` is the negotiated one. -/
structure Intake where
  config : RecoveryConfig
  maxSymbolBytes : ℕ
  maxSpan : ℕ
  decoder : Decoder
  budget : RecoveryMemoryBudget
  closed : Bool

namespace Intake

/-- The decoder of `ConnectionRecovery::start`. -/
def start (config : RecoveryConfig) (maxSymbolBytes maxSpan : ℕ) (budget : RecoveryMemoryBudget) : Intake where
  config := config
  maxSymbolBytes := maxSymbolBytes
  maxSpan := maxSpan
  decoder := Decoder.withBudget config.decoderWindow config.decoderWindow maxSymbolBytes budget.identity
  budget := budget
  closed := false

def workBudget (i : Intake) : ℕ := i.config.workBudget * i.maxSymbolBytes

/-- `receive_source` and `accept_source`; `reserved` says whether the memory and the flows for the records were
there. -/
def receiveSource (i : Intake) (storage : Storage) (reserved : Bool) (datagram : List UInt8) : Intake :=
  match decodeSource datagram maxSourceRecords i.maxSymbolBytes with
  | .error _ => i
  | .ok source =>
    match i.decoder.sourceStatus source.symbolId datagram with
    | .ok .new =>
      if !reserved then i
      else
        let (_, decoder, budget) := i.decoder.addSource i.budget storage source.symbolId datagram i.workBudget
        { i with decoder := decoder, budget := budget }
    | _ => i

/-- The branch of `receive` for repairs. -/
def receiveRepair (i : Intake) (datagram : List UInt8) : Intake :=
  match decodeRepair datagram i.maxSymbolBytes with
  | .error _ => i
  | .ok repair =>
    if ¬repair.span ≤ i.maxSpan then i
    else
      match i.decoder.addRepair i.budget repair.firstSymbolId repair.span repair.repairId repair.seed repair.coded
        i.workBudget with
      | (.err .rowCapacity, _, _) => { i with closed := true }
      | (_, decoder, budget) => { i with decoder := decoder, budget := budget }

def receive (i : Intake) (storage : Storage) (reserved : Bool) (datagram : List UInt8) : Intake :=
  match datagram.head? with
  | none => i
  | some type =>
    if type = sourceDatagramType then i.receiveSource storage reserved datagram
    else if type = repairDatagramType then i.receiveRepair datagram
    else i

inductive Action
  | receive (storage : Storage) (reserved : Bool) (datagram : List UInt8)
  | commit (storage : Storage) (symbolId : UInt32) (source : List UInt8) (charge : RecoveryCharge)
  | others (used : ℕ)

def apply (i : Intake) : Action → Intake
  | .receive storage reserved datagram => i.receive storage reserved datagram
  | .commit storage symbolId source charge =>
    let (_, decoder, budget) := i.decoder.commitRecoveredPrecharged i.budget storage symbolId source charge
    { i with decoder := decoder, budget := budget }
  | .others used => { i with budget := { i.budget with used := used } }

def Allows (i : Intake) : Action → Prop
  | .receive .. => i.closed = false
  | _ => True

def Step (i : Intake) (action : Action) (j : Intake) : Prop := i.Allows action ∧ j = i.apply action

def Initial (config : RecoveryConfig) (i : Intake) : Prop :=
  ∃ maxSymbolBytes maxSpan budget, i = start config maxSymbolBytes maxSpan budget

structure Inv (config : RecoveryConfig) (i : Intake) : Prop where
  maxRows : i.decoder.maxRows = config.decoderWindow
  atRest : i.decoder.AtRest
  full : i.closed = true → i.decoder.rows.length = config.decoderWindow

variable {config : RecoveryConfig} {i : Intake}

theorem Inv.of_call (h : i.Inv config) {decoder : Decoder}
    (budget : RecoveryMemoryBudget) (hrows : decoder.maxRows = i.decoder.maxRows) (hrest : decoder.AtRest)
    (hfull : i.closed = true → decoder.rows = i.decoder.rows) :
    ({ i with decoder := decoder, budget := budget } : Intake).Inv config where
  maxRows := hrows.trans h.maxRows
  atRest := hrest
  full := fun hclosed => (congrArg List.length (hfull hclosed)).trans (h.full hclosed)

theorem Inv.receive (h : i.Inv config) (hopen : i.closed = false)
    (storage : Storage) (reserved : Bool) (datagram : List UInt8) : (i.receive storage reserved datagram).Inv config := by
  have hnever : ∀ {decoder : Decoder}, i.closed = true → decoder.rows = i.decoder.rows := by
    intro decoder hclosed
    rw [hopen] at hclosed
    cases hclosed
  unfold Intake.receive
  split
  · exact h
  · split_ifs
    · unfold receiveSource
      split
      · exact h
      · split
        · split_ifs
          · exact h
          · next source _ _ _ _ =>
            have hresult := i.decoder.addSource_result i.budget storage source.symbolId datagram i.workBudget
            exact h.of_call _ hresult.maxRows (h.atRest.addSource hresult) hnever
        · exact h
    · unfold receiveRepair
      split
      · exact h
      · split_ifs
        · split
          · next heq =>
            exact ⟨h.maxRows, h.atRest, fun _ => (Decoder.rows_full_of_rowCapacity heq).trans h.maxRows⟩
          · next heq =>
            have hresult := Decoder.repairResult_of_eq heq
            exact h.of_call _ hresult.maxRows (h.atRest.addRepair hresult) hnever
        · exact h
    · exact h

theorem Inv.step {j : Intake} {action : Action} (h : i.Inv config)
    (hstep : i.Step action j) : j.Inv config := by
  obtain ⟨hallows, rfl⟩ := hstep
  cases action with
  | receive storage reserved datagram => exact h.receive hallows storage reserved datagram
  | commit storage symbolId source charge =>
    have hresult := i.decoder.commitRecoveredPrecharged_result i.budget storage symbolId source charge
    exact h.of_call _ hresult.rows_eq.2 (h.atRest.commit hresult) fun _ => hresult.rows_eq.1
  | others used => exact ⟨h.maxRows, h.atRest, h.full⟩

theorem inv_of_reachable (h : Reachable (Initial config) Step i) :
    i.Inv config := by
  refine h.invariant ?_ fun _ _ _ hinv hstep => hinv.step hstep
  rintro _ ⟨maxSymbolBytes, maxSpan, budget, rfl⟩
  refine ⟨rfl, ⟨List.forall_mem_nil _, [], rfl, SparseRow.Reduced.nil, List.forall_mem_nil _⟩, ?_⟩
  intro hclosed
  cases hclosed

end Intake

end Quicp
