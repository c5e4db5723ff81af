import Quicp.Flow.SenderInv

/-!
# The counters of a running flow

As long as its task exists, also after a reset has emptied the queue, the counters of a flow are what waits, what the
task has in hand and what the replay buffer holds.
-/

namespace Quicp

namespace Flow

variable {s t : Flow} {action : FlowAction}

theorem apply_stopped (hallows : s.Allows action) (hstopped : s.phase = .stopped) :
    (s.apply action).phase = .stopped := by
  have hother : ∀ {phase : TaskPhase}, s.phase = phase → phase ≠ .stopped → False :=
    fun hphase hne => hne (hphase.symm.trans hstopped)
  cases action with
  | enqueue | requestFlush | requestShutdown | requestReset | dropHandle | read | useBudget | connection =>
    exact hstopped
  | source offset bytes fin charge =>
    rw [apply, applySource]
    split <;> exact hstopped
  | control frame => exact (hother hallows.1 (by simp)).elim
  | takeFeedback => exact (hother (exists_of_inFeedback hallows).choose_spec (by simp)).elim
  | cutOutbound => exact (hother (exists_of_hasTaken hallows).choose_spec (by simp)).elim
  | sendOutbound => exact (hother (exists_of_hasCut hallows).choose_spec (by simp)).elim
  | flushOutbound => exact (hother (exists_of_hasSent hallows).choose_spec (by simp)).elim
  | replay poll => exact (hother hallows.1 (by simp)).elim
  | wire result => exact (hother hallows.1 (by simp)).elim
  | _ => exact (hother hallows (by simp)).elim

theorem Step.retained (hstep : s.Step action t) (hinv : s.sender.Inv) (hrunning : t.phase ≠ .stopped)
    (h : s.sender.Retained) : t.sender.Retained := by
  obtain ⟨hallows, rfl⟩ := hstep
  have hsteps : Sender.Steps { SenderGuard.none with stop := False } s.sender (s.apply action).sender :=
    apply_steps hallows (inHand_ne_nil hinv) { meets_none s action with stop := hrunning }
  exact hsteps.keeps (fun _ _ hlast hbefore => hlast.retained id hbefore.placed) hinv h

theorem retained_of_reachable (h : Reachable Initial Step s) (hrunning : s.phase ≠ .stopped) :
    s.sender.Retained := by
  induction h with
  | start hstart => exact (hstart.inv.accounted (by obtain ⟨_, _, _, _, _, _, rfl, _⟩ := hstart; rfl)).retention
  | next hbefore hstep ih =>
    refine hstep.retained (inv_of_reachable hbefore) hrunning (ih fun hstopped => hrunning ?_)
    obtain ⟨hallows, rfl⟩ := hstep
    exact apply_stopped hallows hstopped

theorem exists_retain_of_cut (hinv : s.sender.Inv) (h : s.sender.Retained) {chunk : Outbound}
    (hphase : s.phase = .cut chunk) : ∃ next, s.task.replay.retain chunk.offset chunk.bytes = .ok next := by
  have hhand : s.sender.inHand = some chunk := by rw [sender, hphase]; rfl
  have hready : s.sender.ready = true := by rw [sender, hphase]; rfl
  rw [Sender.Retained, Sender.pending_of_inHand hhand] at h
  have hplaced := hinv.placed
  rw [Sender.Placed, Sender.pending_of_inHand hhand] at hplaced
  have hcredit := hinv.framed.ready chunk (Sender.readyChunk_of_ready hready hhand)
  exact h.exists_retain (hplaced.parts chunk List.mem_cons_self).1 (hcredit.trans hinv.framed.onWire)
    (fun entry hentry => hplaced.ahead entry hentry chunk List.mem_cons_self)

theorem requestReset_ne_panicked (h : s.sender.Retained) (error : ApplicationError) :
    (s.shared.requestReset error).1 ≠ .panicked := by
  have hcovers : (s.shared.outbound.map (fun item => item.bytes.length)).sum ≤ s.shared.retainedBytes ∧
      s.shared.outbound.length ≤ s.shared.retainedChunks := h.covers
  unfold FlowShared.requestReset
  split
  · exact nofun
  · split
    · exact nofun
    · dsimp only
      rw [if_neg (not_lt.mpr hcovers.1), if_neg (not_lt.mpr hcovers.2)]
      exact nofun

theorem applyAck_ne_panicked (h : s.sender.Retained) (hreplay : s.task.replay.WellFormed) (contiguous : ℕ)
    (ranges : List Range) : (s.applyAck contiguous ranges).2 ≠ .panicked := by
  have hsum : s.shared.retainedBytes = pendingBytes s.sender.pending + s.task.replay.bytes := h.bytes
  have hcount : s.shared.retainedChunks = s.sender.pending.length + s.task.replay.chunks.length := h.chunks
  unfold applyAck
  split
  · exact nofun
  · next ack _ =>
    obtain ⟨_, hbytes, hchunks⟩ := hreplay.acknowledge ack
    dsimp only
    split
    · rw [if_neg (by omega)]
      exact nofun
    · exact nofun

/-- In every run, while the flow has its task, the retained bytes and chunks are those that wait, the one in
hand and those in the replay buffer, within both limits. Retaining the chunk that `process_outbound` has cut
never fails, and no checked subtraction goes below zero. -/
theorem retained_eq_pending_and_replayed (h : Reachable Initial Step s) (hrunning : s.phase ≠ .stopped) :
    s.shared.retainedBytes =
        pendingBytes s.shared.outbound + pendingBytes s.phase.inHand.toList + s.task.replay.bytes ∧
      s.shared.retainedChunks =
        s.shared.outbound.length + s.phase.inHand.toList.length + s.task.replay.chunks.length ∧
      s.shared.retainedBytes ≤ s.shared.replayLimit ∧ s.shared.retainedChunks ≤ s.shared.replayChunkLimit ∧
      (∀ chunk, s.phase = .cut chunk → ∃ next, s.task.replay.retain chunk.offset chunk.bytes = .ok next) ∧
      (∀ error, (s.shared.requestReset error).1 ≠ .panicked) ∧
      (∀ contiguous ranges, (s.applyAck contiguous ranges).2 ≠ .panicked) := by
  have hinv := inv_of_reachable h
  have hretained := retained_of_reachable h hrunning
  have hbytes : s.shared.retainedBytes =
      pendingBytes (s.phase.inHand.toList ++ s.shared.outbound) + s.task.replay.bytes := hretained.bytes
  have hchunks : s.shared.retainedChunks =
      (s.phase.inHand.toList ++ s.shared.outbound).length + s.task.replay.chunks.length := hretained.chunks
  refine ⟨?_, ?_, hretained.bytesLimit, hretained.chunksLimit, fun chunk => exists_retain_of_cut hinv hretained,
    requestReset_ne_panicked hretained, applyAck_ne_panicked hretained hinv.placed.wellFormed⟩
  · rw [hbytes, pendingBytes, List.map_append, List.sum_append, ← pendingBytes, ← pendingBytes]
    omega
  · rw [hchunks, List.length_append]
    omega

def resetRun : List FlowAction :=
  [.enqueue [1, 2, 3], .enqueue [4], .control (.maxOffset 2)] ++ handOver ++
    [.control (.maxOffset 100), .takeOutbound, .requestReset .flowAbort, .cutOutbound none]

theorem retained_eq_pending_and_replayed_reset :
    ((sample true).run resetRun).shared.outbound = [] ∧ ((sample true).run resetRun).shared.retainedBytes = 3 ∧
      ((sample true).run resetRun).shared.retainedBytes =
        pendingBytes ((sample true).run resetRun).shared.outbound +
          pendingBytes ((sample true).run resetRun).phase.inHand.toList +
          ((sample true).run resetRun).task.replay.bytes := by
  have hrun : Reachable.Permits Allows apply (sample true) resetRun := by decide +kernel
  refine ⟨by decide +kernel, by decide +kernel, ?_⟩
  exact (retained_eq_pending_and_replayed (Reachable.run (fun _ _ h => ⟨h, rfl⟩) (.start (sample_initial true)) hrun)
    (by decide +kernel)).1

end Flow

end Quicp
