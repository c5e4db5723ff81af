import Quicp.Flow.SenderRefinement

/-!
# Runs of a flow as runs of a sender

The remaining actions: control frames from the peer, the frames that the task writes, and
what the application, the dispatcher and the driver do.
-/

namespace Quicp

open Sender (Steps)

variable {guard : SenderGuard} {s : Flow}

private theorem oneStep {x y : Sender} (h : Sender.Step guard x y) : Steps guard x y :=
  Relation.ReflTransGen.single h

private theorem noStep {x y : Sender} (h : y = x) : Steps guard x y := h ▸ Relation.ReflTransGen.refl

namespace Flow

theorem settleReplay_sender (s : Flow) :
    sender { s with task := settleReplay s.task } = s.sender.settleReplay := by
  unfold settleReplay Sender.settleReplay
  change sender { s with task := if s.task.replay.bytes = 0 then _ else _ } =
    if s.task.replay.bytes = 0 then _ else _
  split <;> rfl

theorem applyAck_steps (contiguous : ℕ) (ranges : List Range)
    (hrelease : ∀ ack, AckRanges.fromWire contiguous ranges s.connection.maxAckRanges s.shared.nextSendOffset =
      .ok ack → guard.release ack)
    (hstop : (settle (s.applyAck contiguous ranges)).phase = .stopped → guard.stop) :
    Steps guard s.sender (settle (s.applyAck contiguous ranges)).sender := by
  unfold applyAck at hstop ⊢
  cases hack : AckRanges.fromWire contiguous ranges s.connection.maxAckRanges s.shared.nextSendOffset with
  | error error =>
    rw [hack] at hstop
    exact settle_steps Relation.ReflTransGen.refl hstop
  | ok ack =>
    rw [hack] at hstop
    have hguard := hrelease ack hack
    dsimp only at hstop ⊢
    by_cases hreleased : (s.task.replay.acknowledge ack).2.1 ≠ 0
    · rw [if_pos hreleased]
      by_cases hover : s.shared.retainedBytes < (s.task.replay.acknowledge ack).2.1 ∨
          s.shared.retainedChunks < (s.task.replay.acknowledge ack).2.2
      · rw [if_pos hreleased, if_pos hover] at hstop
        rw [if_pos hover]
        refine oneStep ?_
        rw [settle, stop_sender]
        exact .abandonReleased ack hguard (hstop rfl)
      · rw [if_neg hover]
        have hstep : Sender.Step guard s.sender _ := .release ack hguard
        refine oneStep ?_
        convert hstep using 1
        unfold Sender.release
        rw [settle, if_pos (show (s.sender.replay.acknowledge ack).2.1 ≠ 0 from hreleased)]
        exact settleReplay_sender { s with
          shared := { s.shared with
            retainedBytes := s.shared.retainedBytes - (s.task.replay.acknowledge ack).2.1
            retainedChunks := s.shared.retainedChunks - (s.task.replay.acknowledge ack).2.2 }
          task := restartReplayTimer (rewind { s.task with replay := (s.task.replay.acknowledge ack).1 }) }
    · rw [if_neg hreleased]
      have hstep : Sender.Step guard s.sender _ := .release ack hguard
      refine oneStep ?_
      convert hstep using 1
      unfold Sender.release
      rw [settle, if_neg (show ¬(s.sender.replay.acknowledge ack).2.1 ≠ 0 from hreleased)]
      exact settleReplay_sender { s with task := { s.task with replay := (s.task.replay.acknowledge ack).1 } }

theorem insertBytes_shared (shared : FlowShared) (budget : RecoveryMemoryBudget) (offset : ℕ)
    (bytes : List UInt8) (fin : Bool) (charge : Option RecoveryCharge) :
    ∃ receive finalOffset received ackPending,
      (shared.insertBytesWithReservation budget offset bytes fin charge).2.1 = { shared with
        receive := receive, receiveFinalOffset := finalOffset, received := received, ackPending := ackPending } := by
  unfold FlowShared.insertBytesWithReservation FlowShared.recordReceived
  split
  · exact ⟨_, _, _, _, rfl⟩
  · split
    · exact ⟨_, _, _, _, rfl⟩
    · split
      · exact ⟨_, _, _, _, rfl⟩
      · split
        · exact ⟨_, _, _, _, rfl⟩
        · dsimp only
          split <;> exact ⟨_, _, _, _, rfl⟩

theorem afterInsert_sender (offset : ℕ) (bytes : List UInt8) (fin : Bool) (charge : Option RecoveryCharge) :
    (s.afterInsert (offset, bytes)
      (s.shared.insertBytesWithReservation s.budget offset bytes fin charge)).sender = s.sender := by
  obtain ⟨receive, finalOffset, received, ackPending, hshared⟩ :=
    insertBytes_shared s.shared s.budget offset bytes fin charge
  unfold afterInsert
  rw [hshared]
  rfl

theorem applyControl_steps {frame : ControlFrame} (hwire : onWire frame = true)
    (hpeer : ∀ maximum, frame = .maxOffset maximum → guard.peerCredit maximum)
    (hrelease : ∀ contiguous ranges ack, frame = .ack contiguous ranges →
      AckRanges.fromWire contiguous ranges s.connection.maxAckRanges s.shared.nextSendOffset = .ok ack →
        guard.release ack)
    (hstop : (settle (s.applyControl frame)).phase = .stopped → guard.stop) :
    Steps guard s.sender (settle (s.applyControl frame)).sender := by
  cases frame with
  | ack contiguous ranges =>
    exact applyAck_steps contiguous ranges (fun ack hack => hrelease contiguous ranges ack rfl hack) hstop
  | maxOffset maximum =>
    refine settle_steps ?_ hstop
    unfold applyControl
    dsimp only
    by_cases hlower : maximum < s.shared.peerMaxOffset
    · rw [if_pos hlower]
      exact Relation.ReflTransGen.refl
    · rw [if_neg hlower]
      exact oneStep (.peerCredit maximum (not_lt.mp hlower) (of_decide_eq_true hwire) (hpeer maximum rfl))
  | fin offset =>
    refine settle_steps (noStep ?_) hstop
    unfold applyControl FlowShared.setFinalOffset
    dsimp only
    split
    · rfl
    · rename_i shared hset
      split at hset
      · cases hset
      · split at hset
        · cases hset
        · cases hset
          rfl
  | streamData offset fin data =>
    refine settle_steps (noStep ?_) hstop
    unfold applyControl applyStreamData
    dsimp only
    split
    · rfl
    · exact afterInsert_sender offset data fin none
  | _ => exact settle_steps Relation.ReflTransGen.refl hstop

theorem queueTerminalFrames_steps (hphase : s.phase = .idle) (hfin : guard.fin) :
    Steps guard s.sender s.queueTerminalFrames.sender := by
  obtain ⟨flowId, shared, task, phase, connection, budget, history⟩ := s
  change phase = _ at hphase
  subst hphase
  unfold queueTerminalFrames
  dsimp only
  cases hshutdown : shared.shutdownTarget with
  | none => exact Relation.ReflTransGen.refl
  | some finalOffset =>
    dsimp only
    by_cases hready : (!task.finQueued && decide (shared.outbound = [])) = true
    · have hfresh : task.finQueued = false := by simpa using (Bool.and_eq_true_iff.mp hready).1
      have houtbound : shared.outbound = [] := of_decide_eq_true (Bool.and_eq_true_iff.mp hready).2
      rw [if_pos hready]
      by_cases hempty : task.replay.bytes = 0
      · rw [if_pos hempty]
        have hstep : Sender.Step guard (sender ⟨flowId, shared, task, .idle, connection, budget, history⟩) _ :=
          .queueFin finalOffset hshutdown rfl rfl houtbound hempty hfresh hfin
        refine oneStep ?_
        convert hstep using 1
        simp [sender, queueControl]
      · rw [if_neg hempty]
        by_cases hon : task.datagramEnabled = true
        · rw [if_pos hon]
          exact oneStep .armTimer
        · rw [if_neg hon]
          exact Relation.ReflTransGen.refl
    · rw [if_neg hready]
      exact Relation.ReflTransGen.refl

theorem chooseFrame_steps (s : Flow) : Steps guard s.sender (sender { s with task := chooseFrame s.task }) := by
  obtain ⟨flowId, shared, task, phase, connection, budget, history⟩ := s
  obtain ⟨replay, ackTimer, wireQueue, wireCurrent, pendingAck, pendingCredit, datagramEnabled, replayStage,
    replayCursor, replayTimer, finQueued, sendFinished, ackedReceiveOffset⟩ := task
  cases wireCurrent with
  | some frame => exact Relation.ReflTransGen.refl
  | none =>
    cases wireQueue with
    | cons frame rest => exact Relation.ReflTransGen.refl
    | nil =>
      cases pendingAck with
      | some ack => exact oneStep (.acknowledge ack.1 ack.2)
      | none =>
        cases pendingCredit with
        | some maximum => exact oneStep (.sendCredit maximum rfl)
        | none => exact Relation.ReflTransGen.refl

theorem frameWritten_steps {frame : WireFrame} (hcurrent : s.task.wireCurrent = some frame) :
    Steps guard s.sender (s.frameWritten frame).sender := by
  obtain ⟨content, unsent, flushedOffset, ackedOffset⟩ := frame
  have hwaiting : s.sender.waiting = (content, flushedOffset) ::
      s.task.wireQueue.map (fun frame => (frame.frame, frame.flushedOffset)) := by
    simp [sender, hcurrent]
  have hstep : Sender.Step guard s.sender _ := .frameWritten content flushedOffset _ hwaiting
  cases ackedOffset <;> cases flushedOffset <;> exact oneStep hstep

theorem pollWire_steps (result : WriteResult) : Steps guard s.sender (s.pollWire result).1.sender := by
  refine (chooseFrame_steps s).trans ?_
  unfold pollWire
  generalize chooseFrame s.task = task
  dsimp only
  cases hcurrent : task.wireCurrent with
  | none => exact Relation.ReflTransGen.refl
  | some frame =>
    cases result with
    | pending => exact Relation.ReflTransGen.refl
    | failed => exact Relation.ReflTransGen.refl
    | written count =>
      dsimp only
      by_cases hzero : count = 0
      · rw [if_pos hzero]
      · rw [if_neg hzero]
        by_cases hall : count = frame.unsent.length
        · rw [if_pos hall]
          exact frameWritten_steps hcurrent
        · rw [if_neg hall]
          refine noStep ?_
          simp [sender, hcurrent]

theorem finishSendIfReady_steps (finishes : Bool) :
    Steps guard s.sender (s.finishSendIfReady finishes).1.sender := by
  unfold finishSendIfReady
  by_cases hnothing : nothingToWrite s.task = true
  · have hstep : Sender.Step guard s.sender { s.sender with shutdownDone := true } := by
      simp only [nothingToWrite, Bool.and_eq_true, Option.isNone_iff_eq_none, decide_eq_true_eq] at hnothing
      exact .shutDown hnothing.1.1.1.1 (by simp [sender, hnothing])
    rw [if_pos hnothing]
    dsimp only
    split
    · split <;> exact oneStep hstep
    · exact oneStep hstep
  · rw [if_neg hnothing]
    exact Relation.ReflTransGen.refl

theorem readFeedback_sender (hphase : s.phase = .idle) (timerReady : Bool) :
    (s.readFeedback timerReady).sender = s.sender := by
  obtain ⟨flowId, shared, task, phase, connection, budget, history⟩ := s
  change phase = _ at hphase
  subst hphase
  rfl

theorem takeFeedback_steps {ackDue : Bool} (hphase : s.phase = .feedback ackDue) :
    Steps guard s.sender (s.takeFeedback ackDue).sender := by
  obtain ⟨flowId, shared, task, phase, connection, budget, history⟩ := s
  change phase = _ at hphase
  subst hphase
  unfold takeFeedback FlowShared.takeFeedback
  dsimp only
  cases hdirty : shared.creditDirty with
  | true => exact oneStep .offerCredit
  | false => exact Relation.ReflTransGen.refl

theorem applyEnqueue_steps {bytes : List UInt8} (hbytes : bytes ≠ []) :
    Steps guard s.sender (s.applyEnqueue bytes).sender := by
  unfold applyEnqueue FlowShared.enqueue
  cases hready : s.shared.enqueueReady bytes.length with
  | error error => exact Relation.ReflTransGen.refl
  | ok room =>
    cases room with
    | false => exact Relation.ReflTransGen.refl
    | true =>
      cases hend : checkedAdd s.shared.nextSendOffset bytes.length with
      | none => exact Relation.ReflTransGen.refl
      | some next =>
        obtain rfl := checkedAdd_eq_some hend
        obtain ⟨hshutdown, hroom, hchunks⟩ := FlowShared.enqueueReady_eq_true hready
        exact oneStep (.write bytes hbytes hshutdown hroom hchunks)

theorem requestReset_steps (error : ApplicationError)
    (hreset : (s.shared.requestReset error).2.locallyReset = true → guard.reset) :
    Steps guard s.sender (sender { s with shared := (s.shared.requestReset error).2 }) := by
  unfold FlowShared.requestReset at hreset ⊢
  by_cases hlocal : s.shared.locallyReset = true
  · rw [if_pos hlocal]
    exact Relation.ReflTransGen.refl
  · rw [if_neg hlocal] at hreset ⊢
    by_cases hgone : (s.shared.taskStopped || s.shared.error.isSome) = true
    · rw [if_pos hgone]
      exact Relation.ReflTransGen.refl
    · have hlive : s.sender.live = true := by
        simp only [Bool.or_eq_true, not_or, Bool.not_eq_true] at hgone
        simp [sender, hgone.1, Option.isSome_eq_false_iff.mp hgone.2]
      rw [if_neg hgone] at hreset ⊢
      dsimp only at hreset ⊢
      by_cases hbytes : s.shared.retainedBytes < (s.shared.outbound.map (fun item => item.bytes.length)).sum
      · rw [if_pos hbytes] at hreset ⊢
        exact oneStep (.overdrawn s.shared.retainedBytes hlive (Or.inl hbytes) (hreset rfl))
      · rw [if_neg hbytes] at hreset ⊢
        by_cases hchunks : s.shared.retainedChunks < s.shared.outbound.length
        · rw [if_pos hchunks] at hreset ⊢
          exact oneStep (.overdrawn _ hlive (Or.inr hchunks) (hreset rfl))
        · rw [if_neg hchunks] at hreset ⊢
          exact oneStep (.reset (hreset rfl))

theorem applySource_steps (offset : ℕ) (bytes : List UInt8) (fin : Bool) (charge : RecoveryCharge)
    (hreset : (s.applySource offset bytes fin charge).shared.locallyReset = true → guard.reset) :
    Steps guard s.sender (s.applySource offset bytes fin charge).sender := by
  have hinsert : Steps guard s.sender (s.afterInsert (offset, bytes)
      (s.shared.insertBytesPrecharged s.budget offset bytes fin charge)).sender :=
    noStep (afterInsert_sender offset bytes fin (some charge))
  unfold applySource at hreset ⊢
  dsimp only at hreset ⊢
  by_cases hrejects : rejects (s.shared.insertBytesPrecharged s.budget offset bytes fin charge).1 = true
  · rw [if_pos hrejects] at hreset ⊢
    exact hinsert.trans (requestReset_steps _ hreset)
  · rw [if_neg hrejects]
    exact hinsert

theorem read_shared (shared : FlowShared) (budget : RecoveryMemoryBudget) (length : ℕ) :
    ∃ receive maximum creditDirty,
      (shared.maxReceiveOffset ≤ maximum ∧ maximum ≤ max shared.maxReceiveOffset maxWireOffset) ∧
      (shared.read budget length).2.1 = { shared with
        receive := receive, maxReceiveOffset := maximum, creditDirty := creditDirty } := by
  have hsame : shared.maxReceiveOffset ≤ shared.maxReceiveOffset ∧
      shared.maxReceiveOffset ≤ max shared.maxReceiveOffset maxWireOffset := ⟨le_rfl, le_max_left _ _⟩
  unfold FlowShared.read FlowShared.readLive FlowShared.extendCredit
  split
  · exact ⟨_, _, _, hsame, rfl⟩
  · dsimp only
    split
    · split
      · rename_i hmore
        exact ⟨_, _, _, ⟨hmore.le, le_max_of_le_right (min_le_right _ _)⟩, rfl⟩
      · exact ⟨_, _, _, hsame, rfl⟩
    · exact ⟨_, _, _, hsame, rfl⟩

theorem applyRead_steps (length : ℕ) : Steps guard s.sender (s.applyRead length).sender := by
  obtain ⟨receive, maximum, creditDirty, ⟨hmaximum, hwire⟩, hshared⟩ := read_shared s.shared s.budget length
  unfold applyRead
  dsimp only
  rw [hshared]
  exact oneStep (.credit maximum hmaximum hwire)

theorem requestFlush_steps : Steps guard s.sender (sender { s with shared := s.shared.requestFlush.2 }) := by
  unfold FlowShared.requestFlush
  split
  · exact Relation.ReflTransGen.refl
  · exact oneStep .requestFlush

theorem requestShutdown_steps : Steps guard s.sender (sender { s with shared := s.shared.requestShutdown.2 }) := by
  unfold FlowShared.requestShutdown
  split
  · exact Relation.ReflTransGen.refl
  · exact oneStep .requestShutdown

theorem pollStart_steps (hstop : s.pollStart.phase = .stopped → guard.stop) :
    Steps guard s.sender s.pollStart.sender := by
  unfold pollStart at hstop ⊢
  by_cases hreset : s.shared.reset.isSome = true
  · rw [if_pos hreset] at hstop ⊢
    exact stop_steps { s with shared := { s.shared with reset := none } } (hstop rfl)
  · rw [if_neg hreset] at hstop ⊢
    by_cases hdropped : s.shared.handleDropped = true
    · rw [if_pos hdropped] at hstop ⊢
      exact stop_steps s (hstop rfl)
    · rw [if_neg hdropped]
      exact Relation.ReflTransGen.refl

structure Meets (guard : SenderGuard) (s : Flow) (action : FlowAction) : Prop where
  switchOff : s.task.datagramEnabled = true → (s.apply action).task.datagramEnabled = false →
    guard.switchOff s.task.replayCursor s.task.replayStage
  flush : action = .flushOutbound → guard.flush s.shared.outbound s.shared.flushTarget
  peerCredit : ∀ maximum, action = .control (.maxOffset maximum) → guard.peerCredit maximum
  release : ∀ contiguous ranges ack, action = .control (.ack contiguous ranges) →
    AckRanges.fromWire contiguous ranges s.connection.maxAckRanges s.shared.nextSendOffset = .ok ack →
      guard.release ack
  cut : ∀ maxDatagramSize, action = .cutOutbound maxDatagramSize →
    ∀ length ≤ s.cutLimit maxDatagramSize, guard.cut length
  fin : action = .terminal → guard.fin
  reset : (s.apply action).shared.locallyReset = true → guard.reset
  stop : (s.apply action).phase = .stopped → guard.stop

theorem meets_none (s : Flow) (action : FlowAction) : Meets .none s action where
  switchOff := fun _ _ => trivial
  flush := fun _ => trivial
  peerCredit := fun _ _ => trivial
  release := fun _ _ _ _ _ => trivial
  cut := fun _ _ _ _ => trivial
  fin := fun _ => trivial
  reset := fun _ => trivial
  stop := fun _ => trivial

theorem apply_steps {action : FlowAction} (hallows : s.Allows action)
    (hpending : ∀ chunk ∈ s.sender.inHand, chunk.bytes ≠ []) (hmeets : Meets guard s action) :
    Steps guard s.sender (s.apply action).sender := by
  have hswitch := hmeets.switchOff
  have hstop := hmeets.stop
  cases action with
  | enqueue bytes => exact applyEnqueue_steps hallows
  | requestFlush => exact requestFlush_steps
  | requestShutdown => exact requestShutdown_steps
  | requestReset error => exact requestReset_steps error hmeets.reset
  | dropHandle => exact Relation.ReflTransGen.refl
  | read length => exact applyRead_steps length
  | source offset bytes fin charge => exact applySource_steps offset bytes fin charge hmeets.reset
  | useBudget used => exact Relation.ReflTransGen.refl
  | connection next => exact Relation.ReflTransGen.refl
  | pollStart => exact pollStart_steps hstop
  | control frame =>
    exact applyControl_steps hallows.2 (fun maximum hframe => hmeets.peerCredit maximum (by rw [hframe]))
      (fun contiguous ranges ack hframe => hmeets.release contiguous ranges ack (by rw [hframe])) hstop
  | receiveError error => exact fail_steps s error (hstop rfl)
  | readFeedback timerReady => exact noStep (readFeedback_sender hallows timerReady)
  | takeFeedback =>
    obtain ⟨ackDue, hphase⟩ := exists_of_inFeedback hallows
    simp only [apply, applyTakeFeedback, hphase]
    exact takeFeedback_steps hphase
  | takeOutbound =>
    refine settle_steps (takeOutbound_steps hallows ?_) hstop
    simpa only [apply, settle_task] using hswitch
  | cutOutbound maxDatagramSize =>
    obtain ⟨chunk, hphase⟩ := exists_of_hasTaken hallows
    have hbytes := hpending chunk (by simp [sender, hphase, TaskPhase.inHand])
    refine settle_steps (cutOutbound_steps hphase hbytes (hmeets.cut maxDatagramSize rfl) ?_) hstop
    simpa only [apply, settle_task] using hswitch
  | sendOutbound =>
    obtain ⟨chunk, hphase⟩ := exists_of_hasCut hallows
    refine settle_steps (sendOutbound_steps hphase ?_) hstop
    simpa only [apply, settle_task] using hswitch
  | flushOutbound =>
    obtain ⟨limit, hphase⟩ := exists_of_hasSent hallows
    exact settle_steps (flushOutbound_steps hphase (hmeets.flush rfl)) hstop
  | replay poll =>
    refine settle_steps (pollReplay_steps ?_) hstop
    simpa only [apply, settle_task] using hswitch
  | terminal => exact queueTerminalFrames_steps hallows (hmeets.fin rfl)
  | wire result => exact settle_steps (pollWire_steps result) hstop
  | finish finishes => exact settle_steps (finishSendIfReady_steps finishes) hstop

end Flow

end Quicp
