import Quicp.Flow.Receive

/-!
# Runs of the receiving side

Any sequence of records from the peer, reads by the application, releases after written acknowledgements and feedback,
over a memory budget that the rest of the endpoint uses too.
-/

namespace Quicp

open Segment

/-- The operations of the receiving side, and the budget changes of other components. -/
inductive ReceiveOp
  | insertBytes (offset : ℕ) (bytes : List UInt8) (fin : Bool)
  | insertBytesPrecharged (offset : ℕ) (bytes : List UInt8) (fin : Bool) (charge : RecoveryCharge)
  | setFinalOffset (offset : ℕ)
  | read (length : ℕ)
  | acknowledgeConsumed (contiguous : ℕ)
  | takeFeedback (ackDue : Bool)
  | useBudget (used : ℕ)

/-- The shared state of a flow with the endpoint's budget and the stream received so far. -/
structure ReceiveRun where
  shared : FlowShared
  budget : RecoveryMemoryBudget
  stream : FirstWriter UInt8

def ReceiveRun.afterInsert (s : ReceiveRun) (record : ℕ × List UInt8) (out : InsertedBytes) : ReceiveRun :=
  ⟨out.2.1, out.2.2, streamAfterInsert s.stream record out.1⟩

def ReceiveRun.apply (s : ReceiveRun) : ReceiveOp → ReceiveRun
  | .insertBytes offset bytes fin =>
    s.afterInsert (offset, bytes) (s.shared.insertBytes s.budget offset bytes fin)
  | .insertBytesPrecharged offset bytes fin charge =>
    s.afterInsert (offset, bytes) (s.shared.insertBytesPrecharged s.budget offset bytes fin charge)
  | .setFinalOffset offset =>
    match s.shared.setFinalOffset offset with
    | .ok shared => { s with shared := shared }
    | .error _ => s
  | .read length =>
    let result := s.shared.read s.budget length
    ⟨result.2.1, result.2.2, s.stream.deliver result.1.bytes⟩
  | .acknowledgeConsumed contiguous =>
    let result := s.shared.acknowledgeConsumed s.budget contiguous
    { s with shared := result.1, budget := result.2 }
  | .takeFeedback ackDue => { s with shared := (s.shared.takeFeedback ackDue).2 }
  | .useBudget used => { s with budget := { s.budget with used := used } }

def ReceiveRun.Allows (s : ReceiveRun) : ReceiveOp → Prop
  | .insertBytesPrecharged _ _ _ charge =>
    s.shared.receive.charged + charge.heldOf s.budget.identity ≤ s.budget.used
  | .useBudget used => s.shared.receive.charged ≤ used ∧ used ≤ s.budget.limit
  | _ => True

def ReceiveRun.Step (s : ReceiveRun) (op : ReceiveOp) (t : ReceiveRun) : Prop := s.Allows op ∧ t = s.apply op

def ReceiveRun.Initial (s : ReceiveRun) : Prop :=
  (∃ config initialSendOffset, s.shared = .new config s.budget.identity initialSendOffset) ∧
    s.budget.used ≤ s.budget.limit ∧ s.stream = .empty

def ReceiveRun.Inv (s : ReceiveRun) : Prop := ReceiveInv s.shared s.budget s.stream

theorem ReceiveRun.Inv.step {s t : ReceiveRun} {op : ReceiveOp} (h : s.Inv) (hstep : s.Step op t) : t.Inv := by
  obtain ⟨hallows, rfl⟩ := hstep
  have hcharged := ReceiveInv.charged h
  cases op with
  | insertBytes offset bytes fin =>
    have hnone : (incomingCharge s.budget none).heldOf s.budget.identity = 0 :=
      RecoveryCharge.heldOf_empty _ _
    exact ReceiveInv.insert h (by rw [hnone]; exact hcharged)
      (h.insertBytesWithReservation_effect (by rw [hnone]; exact Nat.zero_le _) offset bytes fin)
  | insertBytesPrecharged offset bytes fin charge =>
    have hheld : s.shared.receive.charged + (incomingCharge s.budget (some charge)).heldOf s.budget.identity ≤
      s.budget.used := hallows
    exact ReceiveInv.insert h hheld
      (h.insertBytesWithReservation_effect (le_of_add_le_right hheld) offset bytes fin)
  | setFinalOffset offset =>
    simp only [ReceiveRun.apply]
    cases hset : s.shared.setFinalOffset offset with
    | error error => exact h
    | ok shared => exact ReceiveInv.setFinalOffset h hset
  | read length => exact ReceiveInv.read h length
  | acknowledgeConsumed contiguous => exact ReceiveInv.acknowledgeConsumed h contiguous
  | takeFeedback ackDue => exact ReceiveInv.congr h ⟨rfl, rfl, rfl, rfl, rfl⟩
  | useBudget used => exact ReceiveInv.withBudget h rfl hallows.1

theorem ReceiveRun.inv_of_reachable {s : ReceiveRun}
    (h : Reachable ReceiveRun.Initial ReceiveRun.Step s) : s.Inv := by
  refine h.invariant (fun s hs => ?_) (fun _ _ _ hs hstep => hs.step hstep)
  obtain ⟨⟨config, initialSendOffset, hshared⟩, _, hstream⟩ := hs
  unfold ReceiveRun.Inv
  rw [hshared, hstream]
  exact FlowShared.new_receiveInv config initialSendOffset

def FlowShared.Buffers (s : FlowShared) (i : ℕ) : Prop :=
  ∃ entry ∈ s.receive.chunks.entries, entry.1 ≤ i ∧ i < entry.1 + entry.2.bytes.length

theorem FlowShared.holds_iff (s : FlowShared) (i : ℕ) :
    s.Holds i ↔ i < s.receive.nextOffset ∨ s.Buffers i := by
  refine or_congr_right ?_
  rw [Option.isSome_iff_ne_none, ne_eq, firstElement_eq_none_iff]
  constructor
  · intro hsome
    by_contra hnone
    refine hsome fun segment hsegment => ?_
    obtain ⟨entry, hentry, rfl⟩ := List.mem_map.mp hsegment
    rw [elementAt_eq_none_iff]
    by_contra hcovers
    exact hnone ⟨entry, hentry, not_lt.mp fun h => hcovers (Or.inl h), not_le.mp fun h => hcovers (Or.inr h)⟩
  · rintro ⟨entry, hentry, hstart, hstop⟩ hall
    have hnone := (elementAt_eq_none_iff _ _).mp (hall _ (List.mem_map_of_mem hentry))
    simp only [chunkSegment, stop] at hnone
    omega

/-- Acknowledgements are honest: in every state of every run the acknowledged offsets, and those of
every acknowledgement taken for a frame, are the delivered and the buffered ones, and no insertion
fails its assertion. -/
theorem acknowledged_iff_delivered_or_buffered {s : ReceiveRun}
    (h : Reachable ReceiveRun.Initial ReceiveRun.Step s) :
    (∀ i, s.shared.received.Represents i ↔ i < s.shared.receive.nextOffset ∨ s.shared.Buffers i) ∧
    (∀ ackDue ack, (s.shared.takeFeedback ackDue).1.1 = some ack →
      ∀ i, (i < ack.1 ∨ Covers ack.2 i) ↔ (i < s.stream.delivered.length ∨ s.shared.Buffers i)) ∧
    (∀ offset bytes fin, (s.shared.insertBytes s.budget offset bytes fin).1 ≠ .panicked) ∧
    (∀ offset bytes fin charge, s.Allows (.insertBytesPrecharged offset bytes fin charge) →
      (s.shared.insertBytesPrecharged s.budget offset bytes fin charge).1 ≠ .panicked) := by
  have hinv := ReceiveRun.inv_of_reachable h
  have hhonest : ∀ i, s.shared.received.Represents i ↔
      i < s.shared.receive.nextOffset ∨ s.shared.Buffers i :=
    fun i => (ReceiveInv.honest hinv i).trans (s.shared.holds_iff i)
  have hpanics : ∀ offset bytes fin charge,
      (incomingCharge s.budget charge).heldOf s.budget.identity ≤ s.budget.used →
      (s.shared.insertBytesWithReservation s.budget offset bytes fin charge).1 ≠ .panicked := by
    intro offset bytes fin charge hheld
    have heffect := hinv.insertBytesWithReservation_effect hheld offset bytes fin
    generalize s.shared.insertBytesWithReservation s.budget offset bytes fin charge = out at heffect
    cases heffect <;> simp
  refine ⟨hhonest, fun ackDue ack hack i => ?_, fun offset bytes fin => ?_,
    fun offset bytes fin charge hallows => ?_⟩
  · have hframe : ack = (s.shared.received.contiguous, s.shared.received.ranges) := by
      simp only [FlowShared.takeFeedback] at hack
      split_ifs at hack
      exact (Option.some.inj hack).symm
    rw [hframe, (ReceiveInv.refines hinv).position]
    exact hhonest i
  · exact hpanics offset bytes fin none (by rw [incomingCharge]; simp)
  · exact hpanics offset bytes fin (some charge) (le_of_add_le_right hallows)

def ReceiveRun.sample : ReceiveRun :=
  ⟨.new .sample 0 0, .sample, .empty⟩

theorem ReceiveRun.sample_reachable : Reachable ReceiveRun.Initial ReceiveRun.Step ReceiveRun.sample :=
  .start ⟨⟨.sample, 0, rfl⟩, by decide, rfl⟩

theorem acknowledged_iff_delivered_or_buffered_sample :
    ∃ s : ReceiveRun, s.stream.delivered = [1, 2] ∧
      ∀ i, s.shared.received.Represents i ↔ i < s.shared.receive.nextOffset ∨ s.shared.Buffers i := by
  have hgap := ReceiveRun.sample_reachable.next
    (show ReceiveRun.Step _ (.insertBytes 5 [6, 7] false) _ from ⟨trivial, rfl⟩)
  have hfront := hgap.next (show ReceiveRun.Step _ (.insertBytes 0 [1, 2, 3, 4] false) _ from ⟨trivial, rfl⟩)
  have hbad := hfront.next (show ReceiveRun.Step _ (.insertBytes 3 [9, 9] false) _ from ⟨trivial, rfl⟩)
  have hread := hbad.next (show ReceiveRun.Step _ (.read 2) _ from ⟨trivial, rfl⟩)
  exact ⟨_, by decide, (acknowledged_iff_delivered_or_buffered hread).1⟩

end Quicp
