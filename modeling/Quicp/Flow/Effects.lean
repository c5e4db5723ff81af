import Quicp.Flow.Machine

/-!
# What the sending half of a task may change

The functions that send, replay and close change the queue and the counters of the shared state, the datagram queue of
the connection and the task itself.
-/

namespace Quicp

theorem Connection.sendSource_connection (connection : Connection) (record : SourceRecord) :
    ∃ pending nextSymbol, (connection.sendSource record).2 =
      { connection with pending := pending, nextSymbol := nextSymbol } := by
  unfold sendSource
  split
  · exact ⟨_, _, rfl⟩
  · split
    · exact ⟨_, _, rfl⟩
    · split <;> exact ⟨_, _, rfl⟩

/-- The connection has the same limits and the same policy. -/
structure Connection.SameLimits (current next : Connection) : Prop where
  requireAdaptive : next.requireAdaptive = current.requireAdaptive
  maxSymbolBytes : next.maxSymbolBytes = current.maxSymbolBytes
  maxSymbol : next.maxSymbol = current.maxSymbol
  maxAckRanges : next.maxAckRanges = current.maxAckRanges

theorem Connection.SameLimits.refl (connection : Connection) : SameLimits connection connection := ⟨rfl, rfl, rfl, rfl⟩

theorem Connection.SameLimits.trans {first second third : Connection} (h : SameLimits first second)
    (hnext : SameLimits second third) : SameLimits first third :=
  ⟨hnext.requireAdaptive.trans h.requireAdaptive, hnext.maxSymbolBytes.trans h.maxSymbolBytes,
    hnext.maxSymbol.trans h.maxSymbol, hnext.maxAckRanges.trans h.maxAckRanges⟩

theorem Connection.SameLimits.maxStreamPayload {current next : Connection} (h : SameLimits current next) :
    next.maxStreamPayload = current.maxStreamPayload := by
  rw [Connection.maxStreamPayload, Connection.maxStreamPayload, h.maxSymbolBytes, h.maxSymbol]

namespace Flow

/-- Only what the sending half of a task works on has changed. -/
structure SendEffect (s t : Flow) : Prop where
  shared : ∃ outbound retainedBytes retainedChunks flushedOffset shutdownDone, t.shared = { s.shared with
    outbound := outbound, retainedBytes := retainedBytes, retainedChunks := retainedChunks,
    flushedOffset := flushedOffset, shutdownDone := shutdownDone }
  connection : ∃ pending nextSymbol, t.connection =
    { s.connection with pending := pending, nextSymbol := nextSymbol }
  budget : t.budget = s.budget
  received : t.history.received = s.history.received
  ended : t.history.ended = s.history.ended

namespace SendEffect

variable {s t u : Flow}

theorem refl (s : Flow) : SendEffect s s := ⟨⟨_, _, _, _, _, rfl⟩, ⟨_, _, rfl⟩, rfl, rfl, rfl⟩

theorem trans (h : SendEffect s t) (hnext : SendEffect t u) : SendEffect s u := by
  obtain ⟨outbound, retainedBytes, retainedChunks, flushedOffset, shutdownDone, hshared⟩ := hnext.shared
  obtain ⟨pending, nextSymbol, hconnection⟩ := hnext.connection
  obtain ⟨_, _, _, _, _, hfirst⟩ := h.shared
  obtain ⟨_, _, hbefore⟩ := h.connection
  exact ⟨⟨outbound, retainedBytes, retainedChunks, flushedOffset, shutdownDone, by rw [hshared, hfirst]⟩,
    ⟨pending, nextSymbol, by rw [hconnection, hbefore]⟩, hnext.budget.trans h.budget,
    hnext.received.trans h.received, hnext.ended.trans h.ended⟩

theorem of_task (hshared : t.shared = s.shared) (hconnection : t.connection = s.connection)
    (hbudget : t.budget = s.budget) (hreceived : t.history.received = s.history.received)
    (hended : t.history.ended = s.history.ended) : SendEffect s t :=
  ⟨⟨_, _, _, _, _, hshared⟩, ⟨_, _, hconnection⟩, hbudget, hreceived, hended⟩

theorem error (h : SendEffect s t) : t.shared.error = s.shared.error := by
  obtain ⟨_, _, _, _, _, hshared⟩ := h.shared
  rw [hshared]

theorem limits (h : SendEffect s t) : s.connection.SameLimits t.connection := by
  obtain ⟨_, _, hconnection⟩ := h.connection
  rw [hconnection]
  exact ⟨rfl, rfl, rfl, rfl⟩

end SendEffect

variable {s : Flow}

theorem giveUpDatagrams_effect (s : Flow) : SendEffect s s.giveUpDatagrams := .of_task rfl rfl rfl rfl rfl

theorem noticeDatagrams_effect (enabled : Bool) : SendEffect s (s.noticeDatagrams enabled) := by
  unfold noticeDatagrams
  split
  · exact giveUpDatagrams_effect s
  · exact .refl s

theorem takeOutbound_effect : SendEffect s s.takeOutbound.1 := by
  have hnotice := noticeDatagrams_effect (s := s) s.connection.datagramEnabled
  unfold takeOutbound
  dsimp only
  split
  · exact hnotice
  · exact hnotice.trans ⟨⟨_, _, _, _, _, rfl⟩, ⟨_, _, rfl⟩, rfl, rfl, rfl⟩

theorem putBack_effect (chunk : Outbound) : SendEffect s (s.putBack chunk).1 :=
  ⟨⟨_, _, _, _, _, rfl⟩, ⟨_, _, rfl⟩, rfl, rfl, rfl⟩

theorem splitOutbound_effect (chunk : Outbound) (length : ℕ) : SendEffect s (s.splitOutbound chunk length).1 := by
  unfold splitOutbound
  split
  · split
    · exact .refl s
    · split
      · exact putBack_effect chunk
      · exact ⟨⟨_, _, _, _, _, rfl⟩, ⟨_, _, rfl⟩, rfl, rfl, rfl⟩
  · exact .of_task rfl rfl rfl rfl rfl

theorem cutOutbound_effect (maxDatagramSize : Option ℕ) : SendEffect s (s.cutOutbound maxDatagramSize).1 := by
  unfold cutOutbound
  split
  · split
    · exact putBack_effect _
    · dsimp only
      split
      · split
        · exact .refl s
        · exact (giveUpDatagrams_effect s).trans (splitOutbound_effect _ _)
      · exact splitOutbound_effect _ _
  · exact .refl s

theorem sendStreamData_effect (chunk : Outbound) (limit : ℕ) : SendEffect s (s.sendStreamData chunk limit).1 := by
  unfold sendStreamData
  split
  · exact .refl s
  · exact .of_task rfl rfl rfl rfl rfl

theorem datagramRefused_effect (chunk : Outbound) (limit : ℕ) (error : SendDatagramError) :
    SendEffect s (s.datagramRefused chunk limit error).1 := by
  unfold datagramRefused
  split
  · exact .refl s
  · split
    · exact .refl s
    · exact (giveUpDatagrams_effect s).trans (sendStreamData_effect chunk limit)

theorem sendSource_effect (record : SourceRecord) :
    SendEffect s { s with connection := (s.connection.sendSource record).2 } :=
  ⟨⟨_, _, _, _, _, rfl⟩, s.connection.sendSource_connection record, rfl, rfl, rfl⟩

theorem sendOutbound_effect : SendEffect s s.sendOutbound.1 := by
  unfold sendOutbound
  split
  · next chunk _ =>
    split
    · exact .refl s
    · next limit _ =>
      split
      · have hsend := sendSource_effect (s := s) ⟨s.flowId, chunk.offset, false, chunk.bytes⟩
        dsimp only
        split
        · next connection hresult =>
          rw [hresult] at hsend
          refine hsend.trans ?_
          unfold retainSent
          split <;> exact .of_task rfl rfl rfl rfl rfl
        · next connection hresult =>
          rw [hresult] at hsend
          exact hsend.trans (putBack_effect chunk)
        · exact datagramRefused_effect chunk limit _
        · next connection hresult =>
          rw [hresult] at hsend
          exact hsend
      · exact sendStreamData_effect chunk limit
  · exact .refl s

theorem flushOutbound_effect : SendEffect s s.flushOutbound.1 := by
  unfold flushOutbound
  split
  · exact ⟨⟨_, _, _, _, _, rfl⟩, ⟨_, _, rfl⟩, rfl, rfl, rfl⟩
  · exact .refl s

theorem replayFallback_effect : SendEffect s s.replayFallback.1 := by
  unfold replayFallback
  split
  · exact .refl s
  · split
    · split <;> exact .of_task rfl rfl rfl rfl rfl
    · exact .of_task rfl rfl rfl rfl rfl

theorem replaySource_effect : SendEffect s s.replaySource.1 := by
  unfold replaySource
  split
  · split
    · next offset bytes _ =>
      have hsend := sendSource_effect (s := s) ⟨s.flowId, offset, false, bytes⟩
      dsimp only
      split
      · next connection hresult =>
        rw [hresult] at hsend
        exact hsend.trans (.of_task rfl rfl rfl rfl rfl)
      · next connection hresult =>
        rw [hresult] at hsend
        exact hsend
      · exact .refl s
      · next connection hresult =>
        rw [hresult] at hsend
        exact hsend
    · exact .of_task rfl rfl rfl rfl rfl
  · exact replayFallback_effect

theorem replayRepair_effect (poll : ReplayPoll) : SendEffect s (s.replayRepair poll).1 := by
  unfold replayRepair
  split
  · split
    · exact .of_task rfl rfl rfl rfl rfl
    · split
      · split
        · exact .of_task rfl rfl rfl rfl rfl
        · exact replaySource_effect
      · split
        · exact (giveUpDatagrams_effect s).trans replaySource_effect
        · exact .refl s
  · exact replaySource_effect

theorem pollReplay_effect (poll : ReplayPoll) : SendEffect s (s.pollReplay poll).1 := by
  have hnotice := noticeDatagrams_effect (s := s) poll.enabled
  unfold pollReplay
  dsimp only
  split
  · exact hnotice
  · split
    · exact hnotice.trans (.of_task rfl rfl rfl rfl rfl)
    · exact hnotice.trans (replayRepair_effect poll)

theorem applyAck_effect (contiguous : ℕ) (ranges : List Range) : SendEffect s (s.applyAck contiguous ranges).1 := by
  unfold applyAck
  split
  · exact .refl s
  · dsimp only
    split
    · split <;> exact ⟨⟨_, _, _, _, _, rfl⟩, ⟨_, _, rfl⟩, rfl, rfl, rfl⟩
    · exact .of_task rfl rfl rfl rfl rfl

theorem queueTerminalFrames_effect : SendEffect s s.queueTerminalFrames := by
  unfold queueTerminalFrames
  split
  · exact .refl s
  · split
    · split
      · exact .of_task rfl rfl rfl rfl rfl
      · split
        · exact .of_task rfl rfl rfl rfl rfl
        · exact .refl s
    · exact .refl s

theorem finishSendIfReady_effect (finishes : Bool) : SendEffect s (s.finishSendIfReady finishes).1 := by
  unfold finishSendIfReady
  split
  · dsimp only
    split
    · split <;> exact ⟨⟨_, _, _, _, _, rfl⟩, ⟨_, _, rfl⟩, rfl, rfl, rfl⟩
    · exact ⟨⟨_, _, _, _, _, rfl⟩, ⟨_, _, rfl⟩, rfl, rfl, rfl⟩
  · exact .refl s

theorem settle_connection (out : Flow × Verdict) : (settle out).connection = out.1.connection := by
  unfold settle
  split <;> rfl

theorem applyControl_limits (frame : ControlFrame) : s.connection.SameLimits (s.applyControl frame).1.connection := by
  cases frame with
  | ack contiguous ranges => exact (applyAck_effect contiguous ranges).limits
  | maxOffset maximum =>
    unfold applyControl
    dsimp only
    split <;> exact .refl _
  | fin offset =>
    unfold applyControl
    dsimp only
    split <;> exact .refl _
  | streamData offset fin data =>
    unfold applyControl applyStreamData
    dsimp only
    split <;> exact .refl _
  | _ => exact .refl _

theorem pollWire_connection (result : WriteResult) : (s.pollWire result).1.connection = s.connection := by
  unfold pollWire
  dsimp only
  split
  · rfl
  · split
    · rfl
    · rfl
    · split
      · rfl
      · split <;> rfl

theorem apply_limits {action : FlowAction} (hallows : s.Allows action) :
    s.connection.SameLimits (s.apply action).connection := by
  have hsettle : ∀ {out : Flow × Verdict}, s.connection.SameLimits out.1.connection →
      s.connection.SameLimits (settle out).connection := by
    intro out h
    rwa [settle_connection]
  cases action with
  | source offset bytes fin charge =>
    rw [apply, applySource]
    split <;> exact .refl _
  | connection next =>
    have hmay : connectionMayBecome s.connection next = true := hallows
    rw [connectionMayBecome, Bool.and_eq_true, Bool.and_eq_true, decide_eq_true_eq] at hmay
    rw [apply, hmay.1.1]
    exact ⟨rfl, rfl, rfl, rfl⟩
  | pollStart =>
    rw [apply, pollStart]
    split
    · exact .refl _
    · split <;> exact .refl _
  | control frame => exact hsettle (applyControl_limits frame)
  | takeFeedback =>
    rw [apply, applyTakeFeedback]
    split <;> exact .refl _
  | takeOutbound => exact hsettle takeOutbound_effect.limits
  | cutOutbound maxDatagramSize => exact hsettle (cutOutbound_effect maxDatagramSize).limits
  | sendOutbound => exact hsettle sendOutbound_effect.limits
  | flushOutbound => exact hsettle flushOutbound_effect.limits
  | replay poll => exact hsettle (pollReplay_effect poll).limits
  | terminal => exact queueTerminalFrames_effect.limits
  | wire result => exact hsettle (by rw [pollWire_connection]; exact .refl _)
  | finish finishes => exact hsettle (finishSendIfReady_effect finishes).limits
  | _ => exact .refl _

end Flow

end Quicp
