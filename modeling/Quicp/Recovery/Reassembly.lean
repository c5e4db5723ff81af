import Quicp.Library.FirstWriter
import Quicp.Library.Reachable
import Quicp.Recovery.InsertRecord
import Quicp.Recovery.ReassemblerRead

/-!
# The reassembler refines the first-writer stream

A run drives one reassembler and its memory budget through any sequence of operations, with the rest of the endpoint
reserving and releasing budget in between.
-/

namespace Quicp

open Segment

/-- The reassembler agrees with the abstract stream on everything still to be read, and what it
still buffers of the rest are the first writers' bytes. -/
structure Refines (r : Reassembler) (stream : FirstWriter UInt8) : Prop where
  position : stream.delivered.length = r.nextOffset
  faithful : stream.Faithful
  unread : ∀ i, r.nextOffset ≤ i → firstElement r.segments i = firstElement stream.accepted i
  buffered : ∀ i a, firstElement r.segments i = some a → firstElement stream.accepted i = some a

variable {r next : Reassembler} {stream : FirstWriter UInt8}

theorem Reassembler.WellFormed.withFinal (hr : r.WellFormed) {finalOffset : ℕ}
    (hadmits : r.AdmitsEnd finalOffset true) :
    Reassembler.WellFormed { r with finalOffset := some finalOffset } :=
  ⟨hr.apart, hr.nonempty, hr.onWire, hr.counted, hr.nextOnWire, fun _ hfinal =>
    Option.some.inj hfinal ▸ (hadmits.2 rfl).2⟩

variable {fin : Bool} {record : ℕ × List UInt8}

theorem Refines.write (h : Refines r stream)
    (haccepted : Accepted r next record fin) : Refines next (stream.write record) where
  position := h.position.trans haccepted.nextOffset.symm
  faithful := h.faithful.write record
  unread := by
    intro i hi
    rw [haccepted.nextOffset] at hi
    rw [haccepted.unread i hi, h.unread i hi, FirstWriter.write, firstElement_append_singleton]
  buffered := by
    intro i a hat
    rw [FirstWriter.write, firstElement_append_singleton]
    by_cases hi : r.nextOffset ≤ i
    · rwa [haccepted.unread i hi, h.unread i hi] at hat
    · rw [haccepted.consumed i (not_le.mp hi)] at hat
      rw [h.buffered i a hat, Option.some_or]

theorem Refines.deliver (h : Refines r stream) {output : List UInt8} (hconsumed : Consumed r next output) :
    Refines next (stream.deliver output) where
  position := by
    rw [hconsumed.advanced, ← h.position]
    exact List.length_append
  faithful := by
    refine h.faithful.deliver fun k hk => ?_
    rw [h.position, hconsumed.copied k hk]
    exact h.unread _ (Nat.le_add_right _ _)
  unread := by
    intro i hi
    rw [hconsumed.unread i hi]
    refine h.unread i (le_trans ?_ hi)
    rw [hconsumed.advanced]
    exact Nat.le_add_right _ _
  buffered := fun i a hat => h.buffered i a (hconsumed.kept i a hat)

theorem Refines.bytes_eq_ncard (h : Refines r stream) (hr : r.WellFormed) :
    r.bytes = (coveredFrom r.nextOffset stream.accepted).ncard := by
  have hsame : coveredFrom r.nextOffset r.segments = coveredFrom r.nextOffset stream.accepted := by
    ext i
    refine and_congr_right fun hi => ?_
    rw [h.unread i hi]
  rw [hr.counted, ← ncard_coveredFrom r.nextOffset hr.apart, hsame]

theorem Refines.read_length (h : Refines r stream) (hr : r.WellFormed) {budget : RecoveryMemoryBudget}
    (hid : budget.identity = r.memoryBudget) (hheld : r.charged ≤ budget.used) (length : ℕ) :
    (r.read budget length).1.length = min length (runLength stream.accepted r.nextOffset) := by
  obtain ⟨hconsumed, _, hfits, hopen⟩ := hr.readLoop_consumed hid hheld (le_refl length)
  refine eq_min_runLength hfits (fun k hk hnone => ?_) (fun hshort => ?_)
  · have hcopied := hconsumed.copied k hk
    rw [h.unread _ (Nat.le_add_right _ _), hnone] at hcopied
    exact absurd hk (not_lt.mpr (List.getElem?_eq_none_iff.mp hcopied))
  · rw [← h.unread _ (Nat.le_add_right _ _)]
    exact hopen hshort

/-- The operations of a run, and what the rest of the endpoint does to the budget. -/
inductive ReassemblyOp
  | insertRecord (offset : ℕ) (bytes : List UInt8) (fin : Bool)
  | insertRecordPrecharged (offset : ℕ) (bytes : List UInt8) (fin : Bool) (charge : RecoveryCharge)
  | setFinalOffset (finalOffset : ℕ)
  | read (length : ℕ)
  | acknowledgeConsumed (contiguous : ℕ)
  | reserveElsewhere (bytes : ℕ)
  | releaseElsewhere (bytes : ℕ)

/-- The bytes of a budget that the caller hands in with an operation. -/
def ReassemblyOp.handedIn (budget : ℕ) : ReassemblyOp → ℕ
  | .insertRecordPrecharged _ _ _ charge => charge.heldOf budget
  | _ => 0

/-- One reassembler with its budget, the bytes reserved elsewhere, and the abstract stream. -/
structure ReassemblyRun where
  reassembler : Reassembler
  budget : RecoveryMemoryBudget
  outside : ℕ
  stream : FirstWriter UInt8

/-- The run after an insertion: an accepted record is written to the abstract stream. -/
def ReassemblyRun.afterInsert (s : ReassemblyRun) (outside : ℕ) (record : ℕ × List UInt8) :
    Inserted → Except RecoveryError Unit × ReassemblyRun
  | (.ok (), r, budget) => (.ok (), ⟨r, budget, outside, s.stream.write record⟩)
  | (.error error, r, budget) => (.error error, ⟨r, budget, outside, s.stream⟩)

def ReassemblyRun.apply (s : ReassemblyRun) : ReassemblyOp → Except RecoveryError Unit × ReassemblyRun
  | .insertRecord offset bytes fin =>
    s.afterInsert s.outside (offset, bytes) (s.reassembler.insertRecord s.budget offset bytes fin)
  | .insertRecordPrecharged offset bytes fin charge =>
    s.afterInsert (s.outside - charge.heldOf s.budget.identity) (offset, bytes)
      (s.reassembler.insertRecordPrecharged s.budget offset bytes fin charge)
  | .setFinalOffset finalOffset =>
    match s.reassembler.setFinalOffset finalOffset with
    | .ok r => (.ok (), { s with reassembler := r })
    | .error error => (.error error, s)
  | .read length =>
    let result := s.reassembler.read s.budget length
    (.ok (), ⟨result.2.1, result.2.2, s.outside, s.stream.deliver result.1⟩)
  | .acknowledgeConsumed contiguous =>
    let result := s.reassembler.acknowledgeConsumed s.budget contiguous
    (.ok (), { s with reassembler := result.1, budget := result.2 })
  | .reserveElsewhere bytes =>
    match s.budget.tryReserve bytes with
    | some budget => (.ok (), { s with budget := budget, outside := s.outside + bytes })
    | none => (.error .capacity, s)
  | .releaseElsewhere bytes =>
    (.ok (), { s with budget := s.budget.release bytes, outside := s.outside - bytes })

def ReassemblyRun.Allows (s : ReassemblyRun) : ReassemblyOp → Prop
  | .insertRecordPrecharged _ _ _ charge => charge.heldOf s.budget.identity ≤ s.outside
  | .releaseElsewhere bytes => bytes ≤ s.outside
  | _ => True

def ReassemblyRun.Step (s : ReassemblyRun) (op : ReassemblyOp) (t : ReassemblyRun) : Prop :=
  s.Allows op ∧ t = (s.apply op).2

def ReassemblyRun.Initial (s : ReassemblyRun) : Prop :=
  (∃ maxBytes, s.reassembler = Reassembler.withBudget maxBytes s.budget.identity) ∧
    s.budget.used = s.outside ∧ s.budget.used ≤ s.budget.limit ∧ s.stream = .empty

structure ReassemblyRun.Inv (s : ReassemblyRun) : Prop where
  wellFormed : s.reassembler.WellFormed
  identity : s.budget.identity = s.reassembler.memoryBudget
  used : s.budget.used = s.reassembler.charged + s.outside
  refines : Refines s.reassembler s.stream

variable {s : ReassemblyRun}

theorem ReassemblyRun.Initial.inv (h : s.Initial) : s.Inv := by
  obtain ⟨⟨maxBytes, hr⟩, hused, _, hstream⟩ := h
  refine ⟨hr ▸ Reassembler.withBudget_wellFormed _ _, by rw [hr]; rfl, ?_, ?_⟩
  · rw [hr, hused]
    exact (Nat.zero_add _).symm
  · rw [hr, hstream]
    exact ⟨rfl, by simp [FirstWriter.Faithful, FirstWriter.empty], fun _ _ => rfl, fun _ _ h => h⟩

theorem ReassemblyRun.Inv.afterInsert (h : s.Inv) {charge : RecoveryCharge}
    (hheld : charge.heldOf s.budget.identity ≤ s.outside)
    {inserted : Inserted} (heffect : InsertEffect s.reassembler s.budget charge record fin inserted) :
    (s.afterInsert (s.outside - charge.heldOf s.budget.identity) record inserted).2.Inv := by
  have hused := h.used
  cases heffect with
  | refused error =>
    have hdrop : Balanced s.budget (charge.drop s.budget) (charge.heldOf s.budget.identity) 0 :=
      RecoveryCharge.drop_balanced (by omega)
    have hafter := hdrop.used
    refine ⟨h.wellFormed, hdrop.identity.trans h.identity, ?_, h.refines⟩
    simp only [ReassemblyRun.afterInsert]
    omega
  | accepted haccepted hbalanced =>
    have hafter := hbalanced.used
    refine ⟨haccepted.wellFormed, ?_, ?_, h.refines.write haccepted⟩
    · exact hbalanced.identity.trans (h.identity.trans haccepted.memoryBudget.symm)
    · simp only [ReassemblyRun.afterInsert]
      omega

theorem ReassemblyRun.Inv.charged_le (h : s.Inv) :
    s.reassembler.charged ≤ s.budget.used := by
  have := h.used
  omega

theorem ReassemblyRun.Inv.step {t : ReassemblyRun} {op : ReassemblyOp} (h : s.Inv) (hstep : s.Step op t) :
    t.Inv := by
  obtain ⟨hallows, rfl⟩ := hstep
  have hused := h.used
  cases op with
  | insertRecord offset bytes fin =>
    have hinv := h.afterInsert (by simp) (h.wellFormed.insertRecord_effect h.identity offset bytes fin)
    rwa [RecoveryCharge.heldOf_empty] at hinv
  | insertRecordPrecharged offset bytes fin charge =>
    have hheld : charge.heldOf s.budget.identity ≤ s.outside := hallows
    exact h.afterInsert hheld (h.wellFormed.insertRecordWithReservation_effect h.identity (by omega)
      offset bytes fin true)
  | setFinalOffset finalOffset =>
    simp only [ReassemblyRun.apply]
    cases hset : s.reassembler.setFinalOffset finalOffset with
    | error error => exact h
    | ok next =>
      obtain ⟨rfl, _, hadmits⟩ := h.wellFormed.setFinalOffset_eq_ok.mp hset
      exact ⟨h.wellFormed.withFinal hadmits, h.identity, h.used, h.refines.position, h.refines.faithful,
        h.refines.unread, h.refines.buffered⟩
  | read length =>
    obtain ⟨hconsumed, hbalanced, _⟩ := h.wellFormed.readLoop_consumed h.identity h.charged_le (le_refl length)
    have hafter := hbalanced.used
    refine ⟨hconsumed.wellFormed, hbalanced.identity.trans (h.identity.trans hconsumed.memoryBudget.symm), ?_,
      h.refines.deliver hconsumed⟩
    simp only [ReassemblyRun.apply, Reassembler.read]
    omega
  | acknowledgeConsumed contiguous =>
    obtain ⟨hconsumed, hbalanced⟩ :=
      h.wellFormed.acknowledgeConsumed_consumed h.identity h.charged_le contiguous
    have hafter := hbalanced.used
    have hknown : Refines (s.reassembler.acknowledgedUpTo contiguous) s.stream :=
      ⟨h.refines.position, h.refines.faithful, h.refines.unread, h.refines.buffered⟩
    have hrefines := hknown.deliver hconsumed
    rw [FirstWriter.deliver, List.append_nil] at hrefines
    refine ⟨hconsumed.wellFormed, hbalanced.identity.trans (h.identity.trans hconsumed.memoryBudget.symm), ?_,
      hrefines⟩
    simp only [ReassemblyRun.apply]
    omega
  | reserveElsewhere bytes =>
    simp only [ReassemblyRun.apply]
    cases hreserve : s.budget.tryReserve bytes with
    | none => exact h
    | some budget =>
      obtain ⟨rfl, _⟩ := RecoveryMemoryBudget.tryReserve_eq_some hreserve
      exact ⟨h.wellFormed, h.identity, by simp only; omega, h.refines⟩
  | releaseElsewhere bytes =>
    have hheld : bytes ≤ s.outside := hallows
    refine ⟨h.wellFormed, h.identity, ?_, h.refines⟩
    simp only [ReassemblyRun.apply]
    rw [RecoveryMemoryBudget.release_used (by omega)]
    omega

theorem ReassemblyRun.afterInsert_error {charge : RecoveryCharge}
    {outside : ℕ}
    (hheld : charge.heldOf s.budget.identity ≤ s.budget.used) {inserted : Inserted}
    (heffect : InsertEffect s.reassembler s.budget charge record fin inserted) {error : RecoveryError}
    (herror : (s.afterInsert outside record inserted).1 = .error error) :
    (s.afterInsert outside record inserted).2.reassembler = s.reassembler ∧
      (s.afterInsert outside record inserted).2.budget.used =
        s.budget.used - charge.heldOf s.budget.identity := by
  cases heffect with
  | refused error' =>
    refine ⟨rfl, ?_⟩
    simp only [ReassemblyRun.afterInsert, RecoveryCharge.drop_eq hheld]
  | accepted haccepted hbalanced => simp [ReassemblyRun.afterInsert] at herror

theorem ReassemblyRun.Inv.unchanged_of_error (h : s.Inv) {op : ReassemblyOp}
    (hallows : s.Allows op) {error : RecoveryError} (herror : (s.apply op).1 = .error error) :
    (s.apply op).2.reassembler = s.reassembler ∧
      (s.apply op).2.budget.used = s.budget.used - op.handedIn s.budget.identity := by
  have hused := h.used
  cases op with
  | insertRecord offset bytes fin =>
    have hunchanged := ReassemblyRun.afterInsert_error (by simp)
      (h.wellFormed.insertRecord_effect h.identity offset bytes fin) herror
    rwa [RecoveryCharge.heldOf_empty] at hunchanged
  | insertRecordPrecharged offset bytes fin charge =>
    have hheld : charge.heldOf s.budget.identity ≤ s.outside := hallows
    have hcover : charge.heldOf s.budget.identity ≤ s.budget.used := by omega
    exact ReassemblyRun.afterInsert_error hcover
      (h.wellFormed.insertRecordWithReservation_effect h.identity hcover offset bytes fin true) herror
  | setFinalOffset finalOffset =>
    simp only [ReassemblyRun.apply] at herror ⊢
    cases hset : s.reassembler.setFinalOffset finalOffset with
    | error error' => exact ⟨rfl, rfl⟩
    | ok next => simp [hset] at herror
  | read length => simp [ReassemblyRun.apply] at herror
  | acknowledgeConsumed contiguous => simp [ReassemblyRun.apply] at herror
  | reserveElsewhere bytes =>
    simp only [ReassemblyRun.apply] at herror ⊢
    cases hreserve : s.budget.tryReserve bytes with
    | none => exact ⟨rfl, rfl⟩
    | some budget => simp [hreserve] at herror
  | releaseElsewhere bytes => simp [ReassemblyRun.apply] at herror

theorem ReassemblyRun.inv_of_reachable (h : Reachable ReassemblyRun.Initial ReassemblyRun.Step s) : s.Inv :=
  h.invariant (fun _ hs => hs.inv) (fun _ _ _ hs hstep => hs.step hstep)

/-- The reassembler refines the first-writer stream: in every state of every run each delivered
byte is the first writer's, a read returns the accepted run cut to its buffer, the chunks are
apart and counted, and a failed operation changes nothing but the charge handed in. -/
theorem reassembler_refines_firstWriter {s : ReassemblyRun}
    (h : Reachable ReassemblyRun.Initial ReassemblyRun.Step s) :
    (s.stream.delivered.length = s.reassembler.nextOffset ∧
      ∀ i < s.reassembler.nextOffset, s.stream.delivered[i]? = firstElement s.stream.accepted i) ∧
    (∀ length, (s.reassembler.read s.budget length).1.length =
      min length (runLength s.stream.accepted s.reassembler.nextOffset)) ∧
    s.reassembler.segments.Pairwise Apart ∧
    s.reassembler.bytes = (coveredFrom s.reassembler.nextOffset s.stream.accepted).ncard ∧
    ∀ op error, s.Allows op → (s.apply op).1 = .error error →
      (s.apply op).2.reassembler.chunks = s.reassembler.chunks ∧
      (s.apply op).2.reassembler.nextOffset = s.reassembler.nextOffset ∧
      (s.apply op).2.reassembler.finalOffset = s.reassembler.finalOffset ∧
      (s.apply op).2.reassembler.bytes = s.reassembler.bytes ∧
      (s.apply op).2.budget.used = s.budget.used - op.handedIn s.budget.identity := by
  have hinv := ReassemblyRun.inv_of_reachable h
  refine ⟨⟨hinv.refines.position, fun i hi => ?_⟩, fun length => ?_, hinv.wellFormed.apart,
    hinv.refines.bytes_eq_ncard hinv.wellFormed, fun op error hallows herror => ?_⟩
  · exact hinv.refines.faithful i (hinv.refines.position.symm ▸ hi)
  · exact hinv.refines.read_length hinv.wellFormed hinv.identity hinv.charged_le length
  · obtain ⟨hsame, hused⟩ := hinv.unchanged_of_error hallows herror
    rw [hsame]
    exact ⟨rfl, rfl, rfl, rfl, hused⟩

def ReassemblyRun.sample : ReassemblyRun :=
  ⟨.withBudget 64 0, ⟨0, 0, 1024, by decide, false⟩, 0, .empty⟩

theorem reassembler_refines_firstWriter_overlapping :
    ∃ s : ReassemblyRun, s.stream.accepted = [(2, [3, 4]), (0, [1, 2, 3])] ∧
      s.stream.delivered = [1, 2, 3, 4] ∧
      ∀ i < s.reassembler.nextOffset, s.stream.delivered[i]? = firstElement s.stream.accepted i := by
  have hstart : Reachable ReassemblyRun.Initial ReassemblyRun.Step ReassemblyRun.sample :=
    .start ⟨⟨64, rfl⟩, rfl, by decide, rfl⟩
  have hsecond := hstart.next
    (show ReassemblyRun.Step _ (.insertRecord 2 [3, 4] false) _ from ⟨trivial, rfl⟩)
  have hfirst := hsecond.next
    (show ReassemblyRun.Step _ (.insertRecord 0 [1, 2, 3] false) _ from ⟨trivial, rfl⟩)
  have hcontradicting := hfirst.next
    (show ReassemblyRun.Step _ (.insertRecord 3 [9] false) _ from ⟨trivial, rfl⟩)
  have hread := hcontradicting.next (show ReassemblyRun.Step _ (.read 8) _ from ⟨trivial, rfl⟩)
  exact ⟨_, by decide, by decide, (reassembler_refines_firstWriter hread).1.2⟩

end Quicp
