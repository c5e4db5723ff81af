import Quicp.Flow.Effects
import Quicp.Flow.SenderRuns

/-!
# What a flow never changes

The receive window is fixed when a flow is made, and a local reset is final.
-/

namespace Quicp

/-- The window of a flow stays, and a reset is not taken back. -/
structure FlowShared.Keeps (s t : FlowShared) : Prop where
  window : t.receiveWindow = s.receiveWindow
  reset : s.locallyReset = true → t.locallyReset = true

namespace FlowShared.Keeps

variable {s t u : FlowShared}

theorem refl (s : FlowShared) : s.Keeps s := ⟨rfl, id⟩

theorem trans (h : s.Keeps t) (hnext : t.Keeps u) : s.Keeps u :=
  ⟨hnext.window.trans h.window, fun hreset => hnext.reset (h.reset hreset)⟩

theorem unreset (h : s.Keeps t) (hunreset : t.locallyReset = false) : s.locallyReset = false :=
  Bool.eq_false_iff.mpr fun hreset => Bool.false_ne_true (hunreset.symm.trans (h.reset hreset))

end FlowShared.Keeps

namespace Flow

variable {s t : Flow}

private theorem SendEffect.keeps (h : SendEffect s t) : s.shared.Keeps t.shared := by
  obtain ⟨_, _, _, _, _, hshared⟩ := h.shared
  rw [hshared]
  exact ⟨rfl, id⟩

private theorem stop_keeps (h : s.shared.Keeps t.shared) : s.shared.Keeps t.stop.shared := by
  refine h.trans ?_
  unfold stop
  dsimp only
  split <;> exact ⟨rfl, id⟩

private theorem fail_keeps (h : s.shared.Keeps t.shared) (error : FlowTaskError) :
    s.shared.Keeps (t.fail error).shared :=
  stop_keeps (h.trans ⟨rfl, id⟩)

private theorem settle_keeps {out : Flow × Verdict} (h : s.shared.Keeps out.1.shared) :
    s.shared.Keeps (settle out).shared := by
  unfold settle
  split
  · exact fail_keeps h _
  · exact stop_keeps h
  · exact h

private theorem pollWire_keeps (result : WriteResult) : s.shared.Keeps (s.pollWire result).1.shared := by
  unfold pollWire
  dsimp only
  split
  · exact .refl _
  · next frame _ =>
    split
    · exact .refl _
    · exact .refl _
    · split
      · exact .refl _
      · split
        · obtain ⟨_, _, flushedOffset, ackedOffset⟩ := frame
          cases flushedOffset <;> cases ackedOffset <;> exact ⟨rfl, id⟩
        · exact .refl _

private theorem insertBytes_keeps (shared : FlowShared) (budget : RecoveryMemoryBudget) (offset : ℕ)
    (bytes : List UInt8) (fin : Bool) (charge : Option RecoveryCharge) :
    shared.Keeps (shared.insertBytesWithReservation budget offset bytes fin charge).2.1 := by
  obtain ⟨_, _, _, _, hshared⟩ := insertBytes_shared shared budget offset bytes fin charge
  rw [hshared]
  exact ⟨rfl, id⟩

private theorem requestReset_keeps (shared : FlowShared) (error : ApplicationError) :
    shared.Keeps (shared.requestReset error).2 := by
  unfold FlowShared.requestReset
  split
  · exact .refl shared
  · split
    · exact .refl shared
    · dsimp only
      split
      · exact ⟨rfl, fun _ => rfl⟩
      · split <;> exact ⟨rfl, fun _ => rfl⟩

private theorem applyControl_keeps (frame : ControlFrame) : s.shared.Keeps (s.applyControl frame).1.shared := by
  cases frame with
  | ack contiguous ranges => exact (applyAck_effect contiguous ranges).keeps
  | maxOffset maximum =>
    unfold applyControl
    dsimp only
    split <;> exact ⟨rfl, id⟩
  | fin offset =>
    unfold applyControl FlowShared.setFinalOffset
    dsimp only
    split
    · exact .refl _
    · next hset =>
      split at hset
      · cases hset
      · split at hset
        · cases hset
        · cases hset
          exact ⟨rfl, id⟩
  | streamData offset fin data =>
    unfold applyControl applyStreamData
    dsimp only
    split
    · exact .refl _
    · exact insertBytes_keeps s.shared s.budget offset data fin none
  | _ => exact .refl _

theorem apply_keeps (s : Flow) (action : FlowAction) : s.shared.Keeps (s.apply action).shared := by
  cases action with
  | enqueue bytes =>
    rw [apply, applyEnqueue, FlowShared.enqueue]
    split
    · exact .refl _
    · exact .refl _
    · split <;> exact ⟨rfl, id⟩
  | requestFlush =>
    rw [apply, FlowShared.requestFlush]
    split <;> exact ⟨rfl, id⟩
  | requestShutdown =>
    rw [apply, FlowShared.requestShutdown]
    split <;> exact ⟨rfl, id⟩
  | requestReset error => exact requestReset_keeps s.shared error
  | read length =>
    obtain ⟨_, _, _, _, hshared⟩ := read_shared s.shared s.budget length
    rw [apply, applyRead]
    dsimp only
    rw [hshared]
    exact ⟨rfl, id⟩
  | source offset bytes fin charge =>
    have hinsert := insertBytes_keeps s.shared s.budget offset bytes fin (some charge)
    rw [apply, applySource]
    split
    · exact hinsert.trans (requestReset_keeps _ _)
    · exact hinsert
  | pollStart =>
    rw [apply, pollStart]
    split
    · exact stop_keeps ⟨rfl, id⟩
    · split
      · exact stop_keeps (.refl _)
      · exact .refl _
  | control frame => exact settle_keeps (applyControl_keeps frame)
  | receiveError error => exact fail_keeps (.refl _) error
  | takeFeedback =>
    rw [apply, applyTakeFeedback]
    split <;> exact ⟨rfl, id⟩
  | takeOutbound => exact settle_keeps takeOutbound_effect.keeps
  | cutOutbound maxDatagramSize => exact settle_keeps (cutOutbound_effect maxDatagramSize).keeps
  | sendOutbound => exact settle_keeps sendOutbound_effect.keeps
  | flushOutbound => exact settle_keeps flushOutbound_effect.keeps
  | replay poll => exact settle_keeps (pollReplay_effect poll).keeps
  | terminal => exact queueTerminalFrames_effect.keeps
  | wire result => exact settle_keeps (pollWire_keeps result)
  | finish finishes => exact settle_keeps (finishSendIfReady_effect finishes).keeps
  | dropHandle => exact ⟨rfl, id⟩
  | _ => exact .refl _

end Flow

end Quicp
