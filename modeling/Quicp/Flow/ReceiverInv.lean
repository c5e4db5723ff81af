import Quicp.Flow.Receiver

/-!
# What every receiver keeps

The receiving side keeps its invariant whatever else happens to the flow. What it accepts was
offered to it, a final offset stays once it is known, and the end of the stream is reported
only when the read position has reached the final offset.
-/

namespace Quicp

open Segment

structure Receiver.Inv (x : Receiver) : Prop where
  receive : ReceiveInv x.shared x.budget x.stream
  ended : x.ended = true → ∃ finalOffset, x.shared.receive.finalOffset = some finalOffset ∧
    finalOffset ≤ x.shared.receive.nextOffset

/-- How a receiver grows when some records and final offsets are offered to it. -/
structure Receiver.Grows (offers : ℕ × List UInt8 → Bool → Prop) (ends : ℕ → Prop) (x y : Receiver) : Prop where
  accepted : ∀ record ∈ y.stream.accepted, record ∈ x.stream.accepted ∨ ∃ last, offers record last
  final : ∀ finalOffset, y.shared.receive.finalOffset = some finalOffset →
    x.shared.receive.finalOffset = some finalOffset ∨ ends finalOffset ∨
      ∃ record, offers record true ∧ stop record = finalOffset

namespace Receiver

variable {offers : ℕ × List UInt8 → Bool → Prop} {ends : ℕ → Prop} {x y z : Receiver}

theorem Grows.of_same (hreceive : y.shared.receive.finalOffset = x.shared.receive.finalOffset)
    (hstream : y.stream.accepted = x.stream.accepted) : Grows offers ends x y :=
  ⟨fun _ hrecord => Or.inl (hstream ▸ hrecord), fun _ hfinal => Or.inl (hreceive ▸ hfinal)⟩

theorem Grows.trans (h : Grows offers ends x y) (hnext : Grows offers ends y z) : Grows offers ends x z where
  accepted := by
    intro record hrecord
    rcases hnext.accepted record hrecord with hold | hoffered
    · exact h.accepted record hold
    · exact Or.inr hoffered
  final := by
    intro finalOffset hfinal
    rcases hnext.final finalOffset hfinal with hold | hnew
    · exact h.final finalOffset hold
    · exact Or.inr hnew

theorem Inv.insert (h : x.Inv) {record : ℕ × List UInt8} {last : Bool} {charge : Option RecoveryCharge}
    (hoffer : offers record last)
    (hheld : ∀ held ∈ charge, x.shared.receive.charged + held.heldOf x.budget.identity ≤ x.budget.used) :
    (x.afterInsert record (x.shared.insertBytesWithReservation x.budget record.1 record.2 last charge)).Inv ∧
      Grows offers ends x
        (x.afterInsert record (x.shared.insertBytesWithReservation x.budget record.1 record.2 last charge)) := by
  have hcharge : x.shared.receive.charged + (incomingCharge x.budget charge).heldOf x.budget.identity ≤
      x.budget.used := by
    cases charge with
    | none =>
      rw [incomingCharge, Option.getD_none, RecoveryCharge.heldOf_empty]
      exact h.receive.charged
    | some held => exact hheld held rfl
  have heffect := h.receive.insertBytesWithReservation_effect (le_of_add_le_right hcharge) record.1 record.2 last
  have hreceive := h.receive.insert hcharge heffect
  generalize x.shared.insertBytesWithReservation x.budget record.1 record.2 last charge = out
    at heffect hreceive ⊢
  cases heffect with
  | refused error => exact ⟨⟨hreceive, h.ended⟩, .of_same rfl rfl⟩
  | accepted hend haccepted hreceived hbalanced =>
    refine ⟨⟨hreceive, fun hended => ?_⟩, ⟨fun other hother => ?_, fun finalOffset hfinal => ?_⟩⟩
    · obtain ⟨finalOffset, hfinal, hle⟩ := h.ended hended
      exact ⟨finalOffset, haccepted.finalOffset_stable hfinal, hle.trans haccepted.nextOffset.ge⟩
    · rcases List.mem_append.mp hother with hold | hnew
      · exact Or.inl hold
      · rw [List.mem_singleton.mp hnew]
        exact Or.inr ⟨last, hoffer⟩
    · have hset := haccepted.finalOffset.symm.trans hfinal
      cases last with
      | false => exact Or.inl hset
      | true => exact Or.inr (Or.inr ⟨record, hoffer, Option.some.inj hset⟩)

theorem read_receive (shared : FlowShared) (budget : RecoveryMemoryBudget) (length : ℕ) :
    ((shared.read budget length).2.1.receive = shared.receive ∧
        Flow.reportsEnd (shared.read budget length).1 = false) ∨
      ((shared.read budget length).2.1.receive = (shared.receive.read budget length).2.1 ∧
        (Flow.reportsEnd (shared.read budget length).1 = true →
          (shared.receive.read budget length).2.1.isFinished = true)) := by
  unfold FlowShared.read
  split
  · exact Or.inl ⟨rfl, rfl⟩
  · unfold FlowShared.readLive FlowShared.extendCredit
    dsimp only
    split
    · rename_i hsome
      have hnot : Flow.reportsEnd (.ok (some (shared.receive.read budget length).1)) = false := by
        cases hbytes : (shared.receive.read budget length).1 with
        | nil => exact absurd hbytes hsome
        | cons first rest => rfl
      rw [hnot]
      refine Or.inr ⟨?_, nofun⟩
      split <;> rfl
    · refine Or.inr ⟨rfl, fun hreports => ?_⟩
      cases hfinished : (shared.receive.read budget length).2.1.isFinished with
      | true => rfl
      | false =>
        rw [hfinished] at hreports
        cases hreports

theorem Inv.read (h : x.Inv) (length : ℕ) :
    (x.afterRead length).Inv ∧ Grows offers ends x (x.afterRead length) := by
  have hreceive := h.receive.read length
  obtain ⟨hconsumed, _⟩ :=
    h.receive.wellFormed.readLoop_consumed h.receive.identity h.receive.charged (le_refl length)
  rcases read_receive x.shared x.budget length with ⟨hsame, hreports⟩ | ⟨hread, hreports⟩
  · refine ⟨⟨hreceive, fun hended => ?_⟩, .of_same (congrArg Reassembler.finalOffset hsame) rfl⟩
    have hbefore : x.ended = true := by simpa [afterRead, hreports] using hended
    change ∃ finalOffset, (x.shared.read x.budget length).2.1.receive.finalOffset = some finalOffset ∧ _
    rw [show (x.afterRead length).shared.receive = x.shared.receive from hsame, hsame]
    exact h.ended hbefore
  · have hfinal : (x.afterRead length).shared.receive.finalOffset = x.shared.receive.finalOffset :=
      (congrArg Reassembler.finalOffset hread).trans hconsumed.finalOffset
    have hnext : x.shared.receive.nextOffset ≤ (x.afterRead length).shared.receive.nextOffset := by
      rw [show (x.afterRead length).shared.receive = (x.shared.receive.read x.budget length).2.1 from hread]
      exact (Nat.le_add_right _ _).trans hconsumed.advanced.ge
    refine ⟨⟨hreceive, fun hended => ?_⟩, .of_same hfinal rfl⟩
    rcases Bool.or_eq_true_iff.mp hended with hbefore | hnow
    · obtain ⟨finalOffset, hknown, hle⟩ := h.ended hbefore
      exact ⟨finalOffset, hfinal.trans hknown, hle.trans hnext⟩
    · refine ⟨(x.afterRead length).shared.receive.nextOffset, ?_, le_rfl⟩
      rw [show (x.afterRead length).shared.receive = (x.shared.receive.read x.budget length).2.1 from hread]
      exact of_decide_eq_true (hreports hnow)

theorem Inv.final (h : x.Inv) {offset : ℕ} {shared : FlowShared} (hends : ends offset)
    (hset : x.shared.setFinalOffset offset = .ok shared) :
    Inv { x with shared := shared } ∧ Grows offers ends x { x with shared := shared } := by
  have hreceive := h.receive.setFinalOffset hset
  unfold FlowShared.setFinalOffset at hset
  split at hset
  · cases hset
  · split at hset
    · cases hset
    · rename_i receive hknown
      obtain ⟨rfl, _, hadmits⟩ := h.receive.wellFormed.setFinalOffset_eq_ok.mp hknown
      cases hset
      refine ⟨⟨hreceive, fun hended => ?_⟩, fun _ => Or.inl, fun finalOffset hfinal => ?_⟩
      · obtain ⟨finalOffset, hfinal, hle⟩ := h.ended hended
        rw [(hadmits.2 rfl).1 finalOffset hfinal] at hle
        exact ⟨offset, rfl, hle⟩
      · rw [← Option.some.inj hfinal]
        exact Or.inr (Or.inl hends)

theorem Inv.release (h : x.Inv) (contiguous : ℕ) :
    Inv { x with
        shared := (x.shared.acknowledgeConsumed x.budget contiguous).1
        budget := (x.shared.acknowledgeConsumed x.budget contiguous).2 } ∧
      Grows offers ends x { x with
        shared := (x.shared.acknowledgeConsumed x.budget contiguous).1
        budget := (x.shared.acknowledgeConsumed x.budget contiguous).2 } := by
  obtain ⟨hconsumed, _⟩ :=
    h.receive.wellFormed.acknowledgeConsumed_consumed h.receive.identity h.receive.charged contiguous
  refine ⟨⟨h.receive.acknowledgeConsumed contiguous, fun hended => ?_⟩, .of_same hconsumed.finalOffset rfl⟩
  obtain ⟨finalOffset, hfinal, hle⟩ := h.ended hended
  exact ⟨finalOffset, hconsumed.finalOffset.trans hfinal, hle.trans hconsumed.advanced.ge⟩

theorem Step.inv (hstep : Step offers ends x y) (h : x.Inv) : y.Inv ∧ Grows offers ends x y := by
  cases hstep with
  | other shared hsame =>
    refine ⟨⟨h.receive.congr hsame, ?_⟩, .of_same (by rw [hsame.receive]) rfl⟩
    rw [hsame.receive]
    exact h.ended
  | useBudget used hused => exact ⟨⟨h.receive.withBudget rfl hused, h.ended⟩, .of_same rfl rfl⟩
  | insert record last charge hoffer hheld => exact h.insert hoffer hheld
  | final offset shared hends hset => exact h.final hends hset
  | read length => exact h.read length
  | release contiguous => exact h.release contiguous

theorem Steps.inv (hsteps : Steps offers ends x y) (h : x.Inv) : y.Inv ∧ Grows offers ends x y := by
  induction hsteps with
  | refl => exact ⟨h, .of_same rfl rfl⟩
  | tail _ hlast ih =>
    obtain ⟨hinv, hgrows⟩ := hlast.inv ih.1
    exact ⟨hinv, ih.2.trans hgrows⟩

end Receiver

end Quicp
