import Quicp.Flow.SenderInv

/-!
# After the control stream is finished

The task finishes its sending stream when the final offset is queued, nothing is left to write and the peer's bytes
are acknowledged up to their final offset.
-/

namespace Quicp

/-- What the task has to write: the queue, the frame being written, the acknowledgement and the credit that
wait; and whether the final offset is queued and the stream is finished. -/
def FlowTask.wire (task : FlowTask) :
    List WireFrame × Option WireFrame × Option (ℕ × List Range) × Option ℕ × Bool × Bool :=
  (task.wireQueue, task.wireCurrent, task.pendingAck, task.pendingCredit, task.finQueued, task.sendFinished)

namespace Flow

variable {s t : Flow} {action : FlowAction}

/-- The stream is finished with nothing to write and nothing due. -/
structure Quiet (s : Flow) : Prop where
  wire : s.task.wire = ([], none, none, none, true, true)
  ackPending : s.shared.ackPending = 0
  creditDirty : s.shared.creditDirty = false

theorem noticeDatagrams_wire (enabled : Bool) : (s.noticeDatagrams enabled).task.wire = s.task.wire := by
  unfold noticeDatagrams
  split <;> rfl

theorem settleReplay_wire (task : FlowTask) : (settleReplay task).wire = task.wire := by
  unfold settleReplay
  split <;> rfl

theorem applyAck_wire (contiguous : ℕ) (ranges : List Range) :
    (s.applyAck contiguous ranges).1.task.wire = s.task.wire := by
  unfold applyAck
  cases AckRanges.fromWire contiguous ranges s.connection.maxAckRanges s.shared.nextSendOffset with
  | error error => rfl
  | ok ack =>
    dsimp only
    split
    · split
      · rfl
      · exact settleReplay_wire _
    · exact settleReplay_wire _

theorem applyControl_wire (frame : ControlFrame) : (s.applyControl frame).1.task.wire = s.task.wire := by
  cases frame with
  | ack contiguous ranges => exact applyAck_wire contiguous ranges
  | maxOffset maximum =>
    unfold applyControl
    dsimp only
    split <;> rfl
  | fin offset =>
    unfold applyControl
    dsimp only
    cases s.shared.setFinalOffset offset <;> rfl
  | streamData offset last data =>
    change (s.applyStreamData offset last data).1.task.wire = _
    unfold applyStreamData
    split <;> rfl
  | _ => rfl

theorem takeOutbound_wire : s.takeOutbound.1.task.wire = s.task.wire := by
  unfold takeOutbound
  dsimp only
  split <;> exact noticeDatagrams_wire _

theorem cutOutbound_wire (maxDatagramSize : Option ℕ) :
    (s.cutOutbound maxDatagramSize).1.task.wire = s.task.wire := by
  unfold cutOutbound
  split
  · split
    · rfl
    · dsimp only
      split
      · split
        · rfl
        · rw [splitOutbound_task]
          rfl
      · rw [splitOutbound_task]
  · rfl

theorem pollReplay_wire (poll : ReplayPoll) (hreplay : s.task.replay.bytes = 0) :
    (s.pollReplay poll).1.task.wire = s.task.wire := by
  have hnotice : (s.noticeDatagrams poll.enabled).task.replay = s.task.replay := by
    unfold noticeDatagrams
    split <;> rfl
  unfold pollReplay
  dsimp only
  rw [hnotice, if_pos hreplay]
  split
  · exact noticeDatagrams_wire _
  · exact noticeDatagrams_wire _

theorem takeFeedback_wire (hquiet : s.Quiet) (ackDue : Bool) : (s.takeFeedback ackDue).task.wire = s.task.wire := by
  have hack : (ackDue && decide (s.shared.ackPending ≠ 0)) = false := by simp [hquiet.ackPending]
  simp only [takeFeedback, FlowShared.takeFeedback, hack, hquiet.creditDirty, FlowTask.wire, Bool.false_eq_true,
    if_false, Option.none_or]

theorem chooseFrame_of_wire {task : FlowTask} (h : task.wire = ([], none, none, none, true, true)) :
    chooseFrame task = task := by
  simp only [FlowTask.wire, Prod.mk.injEq] at h
  unfold chooseFrame
  rw [h.2.1, h.1, h.2.2.1, h.2.2.2.1]

theorem pollWire_of_wire (h : s.task.wire = ([], none, none, none, true, true)) (result : WriteResult) :
    s.pollWire result = (s, .done true) := by
  have hcurrent : s.task.wireCurrent = none := by
    simp only [FlowTask.wire, Prod.mk.injEq] at h
    exact h.2.1
  unfold pollWire
  rw [chooseFrame_of_wire h]
  dsimp only
  rw [hcurrent]

theorem failed_of_finished {result : WriteResult} (hfinished : s.task.sendFinished = true)
    (hframe : (chooseFrame s.task).wireCurrent.isSome = true) (hanswer : s.mayAnswer result = true) :
    result = .failed := by
  obtain ⟨frame, hframe⟩ := Option.isSome_iff_exists.mp hframe
  unfold mayAnswer at hanswer
  rw [hframe] at hanswer
  cases result with
  | failed => rfl
  | pending => simp [hfinished] at hanswer
  | written count => simp [hfinished] at hanswer

theorem Quiet.finished (h : s.Quiet) (hinv : s.sender.Inv) :
    s.sender.pending = [] ∧ s.task.replay.chunks.entries = [] := by
  have hwire := h.wire
  simp only [FlowTask.wire, Prod.mk.injEq] at hwire
  exact (hinv.ended.finished hwire.2.2.2.2.1).2

theorem Quiet.apply_wire (h : s.Quiet) (hinv : s.sender.Inv) (hallows : s.Allows action) :
    (s.apply action).task.wire = s.task.wire := by
  have hwire := h.wire
  simp only [FlowTask.wire, Prod.mk.injEq] at hwire
  obtain ⟨hpending, hreplay⟩ := h.finished hinv
  cases action with
  | pollStart =>
    change s.pollStart.task.wire = _
    unfold pollStart
    split
    · rfl
    · split <;> rfl
  | source offset bytes fin charge =>
    change (s.applySource offset bytes fin charge).task.wire = _
    unfold applySource
    dsimp only
    split <;> rfl
  | control frame =>
    change (settle _).task.wire = _
    rw [settle_task]
    exact applyControl_wire frame
  | takeFeedback =>
    obtain ⟨ackDue, hphase⟩ := exists_of_inFeedback hallows
    change s.applyTakeFeedback.task.wire = _
    rw [applyTakeFeedback, hphase]
    exact takeFeedback_wire h ackDue
  | takeOutbound =>
    change (settle _).task.wire = _
    rw [settle_task]
    exact takeOutbound_wire
  | cutOutbound maxDatagramSize =>
    change (settle _).task.wire = _
    rw [settle_task]
    exact cutOutbound_wire maxDatagramSize
  | sendOutbound =>
    obtain ⟨chunk, hphase⟩ := exists_of_hasCut hallows
    rw [Sender.pending_of_inHand (show s.phase.inHand = some chunk by rw [hphase]; rfl)] at hpending
    cases hpending
  | flushOutbound =>
    change (settle _).task.wire = _
    rw [settle_task, flushOutbound]
    split <;> rfl
  | replay poll =>
    change (settle _).task.wire = _
    rw [settle_task]
    exact pollReplay_wire poll (hinv.placed.wellFormed.bytes_eq_zero.mpr hreplay)
  | terminal =>
    change s.queueTerminalFrames.task.wire = _
    unfold queueTerminalFrames
    rw [hwire.2.2.2.2.1]
    split <;> rfl
  | wire result =>
    change (settle _).task.wire = _
    rw [settle_task, pollWire_of_wire h.wire]
  | finish finishes =>
    change (settle _).task.wire = _
    rw [settle_task, finishSendIfReady]
    split
    · dsimp only
      rw [hwire.2.2.2.2.2]
      rfl
    · rfl
  | _ => rfl

theorem sendOutbound_sendFinished : s.sendOutbound.1.task.sendFinished = s.task.sendFinished := by
  have hstream : ∀ (s : Flow) (chunk : Outbound) (stop : ℕ),
      (s.sendStreamData chunk stop).1.task.sendFinished = s.task.sendFinished := by
    intro s chunk stop
    unfold sendStreamData
    split <;> rfl
  unfold sendOutbound
  split
  · split
    · rfl
    · split
      · dsimp only
        split
        · unfold retainSent
          split <;> rfl
        · rfl
        · unfold datagramRefused
          split
          · rfl
          · split
            · rfl
            · exact hstream _ _ _
        · rfl
      · exact hstream _ _ _
  · rfl

theorem pollReplay_sendFinished (poll : ReplayPoll) :
    (s.pollReplay poll).1.task.sendFinished = s.task.sendFinished := by
  have hfallback : ∀ s : Flow, s.replayFallback.1.task.sendFinished = s.task.sendFinished := by
    intro s
    unfold replayFallback
    split
    · rfl
    · split
      · split <;> rfl
      · rfl
  have hsource : ∀ s : Flow, s.replaySource.1.task.sendFinished = s.task.sendFinished := by
    intro s
    unfold replaySource
    split
    · split
      · dsimp only
        split <;> rfl
      · rfl
    · exact hfallback s
  have hrepair : ∀ s : Flow, (s.replayRepair poll).1.task.sendFinished = s.task.sendFinished := by
    intro s
    unfold replayRepair
    split
    · split
      · rfl
      · split
        · split
          · rfl
          · exact hsource s
        · split
          · exact hsource s.giveUpDatagrams
          · rfl
    · exact hsource s
  have hnotice : (s.noticeDatagrams poll.enabled).task.sendFinished = s.task.sendFinished := by
    unfold noticeDatagrams
    split <;> rfl
  unfold pollReplay
  dsimp only
  split
  · exact hnotice
  · split
    · exact hnotice
    · exact (hrepair _).trans hnotice

theorem pollWire_sendFinished (result : WriteResult) :
    (s.pollWire result).1.task.sendFinished = s.task.sendFinished := by
  have hchoose : (chooseFrame s.task).sendFinished = s.task.sendFinished := by
    unfold chooseFrame
    split
    · rfl
    · split
      · rfl
      · split
        · rfl
        · split <;> rfl
  unfold pollWire
  dsimp only
  split
  · exact hchoose
  · split
    · exact hchoose
    · exact hchoose
    · split
      · exact hchoose
      · split <;> exact hchoose

private theorem sendFinished_of_wire {task other : FlowTask} (h : task.wire = other.wire) :
    task.sendFinished = other.sendFinished := congrArg (fun wire => wire.2.2.2.2.2) h

theorem apply_sendFinished (h : ∀ finishes, action ≠ .finish finishes) :
    (s.apply action).task.sendFinished = s.task.sendFinished := by
  cases action with
  | pollStart =>
    change s.pollStart.task.sendFinished = _
    unfold pollStart
    split
    · rfl
    · split <;> rfl
  | source offset bytes fin charge =>
    change (s.applySource offset bytes fin charge).task.sendFinished = _
    unfold applySource
    dsimp only
    split <;> rfl
  | control frame =>
    change (settle _).task.sendFinished = _
    rw [settle_task]
    exact sendFinished_of_wire (applyControl_wire frame)
  | takeFeedback =>
    change s.applyTakeFeedback.task.sendFinished = _
    unfold applyTakeFeedback
    split <;> rfl
  | takeOutbound =>
    change (settle _).task.sendFinished = _
    rw [settle_task]
    exact sendFinished_of_wire takeOutbound_wire
  | cutOutbound maxDatagramSize =>
    change (settle _).task.sendFinished = _
    rw [settle_task]
    exact sendFinished_of_wire (cutOutbound_wire maxDatagramSize)
  | sendOutbound =>
    change (settle _).task.sendFinished = _
    rw [settle_task]
    exact sendOutbound_sendFinished
  | flushOutbound =>
    change (settle _).task.sendFinished = _
    rw [settle_task, flushOutbound]
    split <;> rfl
  | replay poll =>
    change (settle _).task.sendFinished = _
    rw [settle_task]
    exact pollReplay_sendFinished poll
  | terminal =>
    change s.queueTerminalFrames.task.sendFinished = _
    unfold queueTerminalFrames
    split
    · rfl
    · split
      · split
        · rfl
        · split <;> rfl
      · rfl
  | wire result =>
    change (settle _).task.sendFinished = _
    rw [settle_task]
    exact pollWire_sendFinished result
  | finish finishes => exact absurd rfl (h finishes)
  | _ => rfl

theorem finishSendIfReady_cases (s : Flow) (finishes : Bool) :
    (s.finishSendIfReady finishes).1.task = s.task ∨
      (nothingToWrite s.task = true ∧ finalAckWritten s.shared s.task.ackedReceiveOffset = true ∧
        s.finishSendIfReady finishes = ({ s with
          shared := { s.shared with shutdownDone := true }
          task := { s.task with sendFinished := true } }, .done true)) := by
  unfold finishSendIfReady
  split
  · rename_i hnothing
    dsimp only
    split
    · rename_i hready
      split
      · exact Or.inr ⟨hnothing, (Bool.and_eq_true_iff.mp hready).2, rfl⟩
      · exact Or.inl rfl
    · exact Or.inl rfl
  · exact Or.inl rfl

theorem finishSendIfReady_quiet {finishes : Bool} (hbefore : s.task.sendFinished = false)
    (hcredit : s.shared.creditDirty = false)
    (hafter : (s.finishSendIfReady finishes).1.task.sendFinished = true) :
    (settle (s.finishSendIfReady finishes)).Quiet := by
  rcases s.finishSendIfReady_cases finishes with hsame | ⟨hnothing, hfinal, hout⟩
  · rw [hsame, hbefore] at hafter
    cases hafter
  · rw [hout]
    simp only [nothingToWrite, Bool.and_eq_true, decide_eq_true_eq, Option.isNone_iff_eq_none] at hnothing
    obtain ⟨⟨⟨⟨hfin, hcurrent⟩, hqueue⟩, hack⟩, hpendingCredit⟩ := hnothing
    refine ⟨?_, of_decide_eq_true (Bool.and_eq_true_iff.mp hfinal).2, hcredit⟩
    simp only [settle, FlowTask.wire, hfin, hcurrent, hqueue, hack, hpendingCredit]

/-- Nothing becomes due once the stream is finished, and no credit is due when it is. -/
def KeepsQuiet (s t : Flow) : Prop :=
  (s.task.sendFinished = false → t.task.sendFinished = true → s.shared.creditDirty = false) ∧
    (s.task.sendFinished = true → t.shared.ackPending ≤ s.shared.ackPending ∧
      (t.shared.creditDirty = true → s.shared.creditDirty = true))

instance (s t : Flow) : Decidable (s.KeepsQuiet t) := by
  unfold KeepsQuiet
  infer_instance

def QuietStep (s : Flow) (action : FlowAction) (t : Flow) : Prop := s.Step action t ∧ s.KeepsQuiet t

theorem QuietStep.quiet (hstep : s.QuietStep action t) (hinv : s.sender.Inv)
    (h : s.task.sendFinished = true → s.Quiet) : t.task.sendFinished = true → t.Quiet := by
  obtain ⟨⟨hallows, rfl⟩, hfinish, hdue⟩ := hstep
  intro hfinished
  cases hbefore : s.task.sendFinished with
  | true =>
    have hquiet := h hbefore
    obtain ⟨hack, hcredit⟩ := hdue hbefore
    refine ⟨(hquiet.apply_wire hinv hallows).trans hquiet.wire, by rw [hquiet.ackPending] at hack; omega, ?_⟩
    rw [hquiet.creditDirty] at hcredit
    simpa using hcredit
  | false =>
    by_cases haction : ∃ finishes, action = .finish finishes
    · obtain ⟨finishes, rfl⟩ := haction
      have hafter : (s.finishSendIfReady finishes).1.task.sendFinished = true := by
        rw [← settle_task]
        exact hfinished
      exact finishSendIfReady_quiet hbefore (hfinish hbefore hfinished) hafter
    · rw [apply_sendFinished (not_exists.mp haction), hbefore] at hfinished
      cases hfinished

end Flow

/-- In every run in which nothing becomes due after the finish, nothing is queued on a finished stream and
polling the wire writes nothing. -/
theorem nothing_written_after_finish {s : Flow} (h : Reachable Flow.Initial Flow.QuietStep s)
    (hfinished : s.task.sendFinished = true) :
    s.task.pendingAck = none ∧ s.task.pendingCredit = none ∧ s.task.wireQueue = [] ∧
      s.task.wireCurrent = none ∧ ∀ result, s.pollWire result = (s, .done true) := by
  have hboth := h.invariant (P := fun s => s.sender.Inv ∧ (s.task.sendFinished = true → s.Quiet))
    (fun _ hstart => ⟨hstart.inv, by
      obtain ⟨flowId, config, adaptive, connection, budget, early, rfl, _⟩ := hstart
      exact nofun⟩)
    (fun _ _ _ hs hstep => ⟨hstep.1.inv hs.1, hstep.quiet hs.1 hs.2⟩)
  have hwire := (hboth.2 hfinished).wire
  refine ⟨?_, ?_, ?_, ?_, Flow.pollWire_of_wire hwire⟩ <;> simp only [FlowTask.wire, Prod.mk.injEq] at hwire
  · exact hwire.2.2.1
  · exact hwire.2.2.2.1
  · exact hwire.1
  · exact hwire.2.1

def finishingRun (bytes : List UInt8) : List FlowAction :=
  [.control (.streamData 0 true bytes), .readFeedback true, .takeFeedback, .requestShutdown, .terminal,
    .wire (.written 3), .wire (.written 4), .wire (.written 4), .finish true]

theorem nothing_written_after_finish_idle :
    ((Flow.sample false).run (finishingRun [7])).task.pendingCredit = none := by
  have hrun : Reachable.Permits (fun s action => s.Allows action ∧ s.KeepsQuiet (s.apply action)) Flow.apply
      (Flow.sample false) (finishingRun [7]) := by decide +kernel
  exact (nothing_written_after_finish
    (Reachable.run (fun _ _ h => ⟨⟨h.1, rfl⟩, h.2⟩) (.start (Flow.sample_initial false)) hrun)
    (by decide +kernel)).2.1

/-- A read of one of two buffered bytes after the finish opens credit: the finished stream admits only a failure, and
the other byte is lost. -/
theorem credit_after_finish :
    ∃ s : Flow, Reachable Flow.Initial Flow.Step s ∧ s.Live ∧ s.task.sendFinished = true ∧
      s.task.pendingCredit = some 513 ∧ s.shared.receive.bytes = 1 ∧
      (∀ result, s.Allows (.wire result) → result = .failed) ∧ s.Allows (.wire .failed) ∧
      ((s.apply (.wire .failed)).shared.read s.budget 1).1 = .error (.connectionAborted, .task .write) := by
  have hrun : Reachable.Permits Flow.Allows Flow.apply (Flow.sample false)
      (finishingRun [7, 8] ++ [.read 1, .readFeedback false, .takeFeedback]) := by decide +kernel
  refine ⟨_, Reachable.run (fun _ _ h => ⟨h, rfl⟩) (.start (Flow.sample_initial false)) hrun,
    ⟨by decide +kernel, by decide +kernel⟩, by decide +kernel, by decide +kernel, by decide +kernel, ?_, ?_, ?_⟩
  · intro result hallows
    exact Flow.failed_of_finished (by decide +kernel) (by decide +kernel) hallows.2
  · decide +kernel
  · rfl

end Quicp
