import Quicp.Flow.Sender

/-!
# A flow is a sender

Every action on a flow is a number of steps of the abstract sender, none at all for what only concerns the receiving
side.
-/

namespace Quicp

open Sender (Steps)

variable {guard : SenderGuard} {s : Flow}

private theorem single {x y : Sender} (h : Sender.Step guard x y) : Steps guard x y :=
  Relation.ReflTransGen.single h

namespace Flow

theorem stop_sender (s : Flow) : s.stop.sender = { s.sender with
    outbound := [], inHand := none, ready := false, handed := none, retainedBytes := 0,
    retainedChunks := 0, live := false } := by
  unfold stop
  split <;> simp [sender, FlowShared.discardRetained, FlowShared.failWithKind, FlowShared.markTaskStopped,
    TaskPhase.inHand, TaskPhase.handed, TaskPhase.ready]

theorem stop_steps (s : Flow) (hstop : guard.stop) : Steps guard s.sender s.stop.sender := by
  rw [stop_sender]
  exact single (.abandon hstop)

theorem fail_steps (s : Flow) (error : FlowTaskError) (hstop : guard.stop) :
    Steps guard s.sender (s.fail error).sender := by
  refine Relation.ReflTransGen.trans (single ?_) (stop_steps _ hstop)
  have hfail : Sender.Step guard s.sender { s.sender with live := false } := .fail hstop
  simpa [sender, FlowShared.failWithKind] using hfail

theorem settle_steps {x : Sender} {out : Flow × Verdict} (h : Steps guard x out.1.sender)
    (hstop : (settle out).phase = .stopped → guard.stop) : Steps guard x (settle out).sender := by
  unfold settle at hstop ⊢
  split at hstop
  · exact h.trans (fail_steps _ _ (hstop rfl))
  · exact h.trans (stop_steps _ (hstop rfl))
  · exact h

theorem settle_task (out : Flow × Verdict) : (settle out).task = out.1.task := by
  unfold settle
  split <;> rfl

theorem giveUpDatagrams_steps (hguard : guard.switchOff s.task.replayCursor s.task.replayStage) :
    Steps guard s.sender s.giveUpDatagrams.sender :=
  single (.switchOff hguard)

theorem noticeDatagrams_steps (enabled : Bool)
    (hswitch : s.task.datagramEnabled = true → (s.noticeDatagrams enabled).task.datagramEnabled = false →
      guard.switchOff s.task.replayCursor s.task.replayStage) :
    Steps guard s.sender (s.noticeDatagrams enabled).sender := by
  unfold noticeDatagrams at hswitch ⊢
  split_ifs at hswitch ⊢ with hoff
  · have hon : s.task.datagramEnabled = true := by simpa using (Bool.and_eq_true_iff.mp hoff).1
    exact giveUpDatagrams_steps (hswitch hon rfl)
  · exact Relation.ReflTransGen.refl

theorem takeOutbound_steps (hphase : s.phase = .idle)
    (hswitch : s.task.datagramEnabled = true → s.takeOutbound.1.task.datagramEnabled = false →
      guard.switchOff s.task.replayCursor s.task.replayStage) :
    Steps guard s.sender s.takeOutbound.1.sender := by
  have htask : s.takeOutbound.1.task = (s.noticeDatagrams s.connection.datagramEnabled).task := by
    unfold takeOutbound
    dsimp only
    split <;> rfl
  rw [htask] at hswitch
  refine (noticeDatagrams_steps _ hswitch).trans ?_
  have hidle : (s.noticeDatagrams s.connection.datagramEnabled).phase = .idle := by
    unfold noticeDatagrams
    split_ifs <;> exact hphase
  unfold takeOutbound
  generalize s.noticeDatagrams s.connection.datagramEnabled = noticed at hidle
  obtain ⟨flowId, shared, task, phase, connection, budget, history⟩ := noticed
  change phase = _ at hidle
  subst hidle
  dsimp only
  split
  · exact Relation.ReflTransGen.refl
  · rename_i chunk rest houtbound
    exact single (.take chunk rest rfl rfl houtbound)

variable {chunk : Outbound}

theorem putBack_steps (hphase : s.phase = .taken chunk ∨ s.phase = .cut chunk) :
    Steps guard s.sender (s.putBack chunk).1.sender := by
  obtain ⟨flowId, shared, task, phase, connection, budget, history⟩ := s
  rcases hphase with hphase | hphase <;>
  · change phase = _ at hphase
    subst hphase
    exact single (.putBack chunk rfl)

theorem splitOutbound_steps {length : ℕ} (hphase : s.phase = .taken chunk)
    (hpositive : 0 < length) (hcredit : chunk.offset + length ≤ s.shared.peerMaxOffset)
    (hlength : length ≤ chunk.bytes.length) (hcut : guard.cut length) :
    Steps guard s.sender (s.splitOutbound chunk length).1.sender := by
  unfold splitOutbound
  by_cases hlong : chunk.bytes.length > length
  · rw [if_pos hlong]
    cases hend : checkedAdd chunk.offset length with
    | none => exact Relation.ReflTransGen.refl
    | some remainingOffset =>
      obtain rfl := checkedAdd_eq_some hend
      by_cases hfull : s.shared.retainedChunks ≥ s.shared.replayChunkLimit
      · simp only [if_pos hfull]
        exact putBack_steps (Or.inl hphase)
      · simp only [if_neg hfull]
        obtain ⟨flowId, shared, task, phase, connection, budget, history⟩ := s
        change phase = _ at hphase
        subst hphase
        exact single (.split chunk length rfl hpositive hlong hcredit (not_le.mp hfull) hcut)
  · have hwhole : length = chunk.bytes.length := by omega
    rw [if_neg hlong]
    obtain ⟨flowId, shared, task, phase, connection, budget, history⟩ := s
    change phase = _ at hphase
    subst hphase hwhole
    exact single (.cut chunk rfl hcredit hcut)

theorem splitOutbound_task (chunk : Outbound) (length : ℕ) : (s.splitOutbound chunk length).1.task = s.task := by
  unfold splitOutbound putBack
  split
  · split
    · rfl
    · split <;> rfl
  · rfl

theorem sendLength_bounds (maxSourcePayload : ℕ) (hbytes : chunk.bytes ≠ [])
    (hcredit : chunk.offset < s.shared.peerMaxOffset)
    (hpayload : s.task.datagramEnabled = true → 0 < maxSourcePayload) :
    0 < s.sendLength chunk maxSourcePayload ∧
      chunk.offset + s.sendLength chunk maxSourcePayload ≤ s.shared.peerMaxOffset ∧
      s.sendLength chunk maxSourcePayload ≤ chunk.bytes.length := by
  have hlength := List.length_pos_iff.mpr hbytes
  have hstream := s.connection.maxStreamPayload_pos
  have hlimit : 0 < (if s.task.datagramEnabled then maxSourcePayload else s.connection.maxStreamPayload) := by
    split_ifs with hon
    · exact hpayload hon
    · exact hstream
  unfold sendLength
  dsimp only
  omega

/-- The most bytes of the chunk in hand that are made ready: stream data has its own limit, which also holds
once datagrams cannot carry a byte. -/
def cutLimit (s : Flow) (maxDatagramSize : Option ℕ) : ℕ :=
  if s.task.datagramEnabled && decide (s.connection.maxSourcePayload maxDatagramSize ≠ 0) then
    s.connection.maxSourcePayload maxDatagramSize
  else s.connection.maxStreamPayload

theorem cutOutbound_steps {maxDatagramSize : Option ℕ} (hphase : s.phase = .taken chunk)
    (hbytes : chunk.bytes ≠ []) (hcut : ∀ length ≤ s.cutLimit maxDatagramSize, guard.cut length)
    (hswitch : s.task.datagramEnabled = true → (s.cutOutbound maxDatagramSize).1.task.datagramEnabled = false →
      guard.switchOff s.task.replayCursor s.task.replayStage) :
    Steps guard s.sender (s.cutOutbound maxDatagramSize).1.sender := by
  unfold cutOutbound at hswitch ⊢
  simp only [hphase] at hswitch ⊢
  by_cases hcredit : chunk.offset ≥ s.shared.peerMaxOffset
  · rw [if_pos hcredit]
    exact putBack_steps (Or.inl hphase)
  · rw [if_neg hcredit] at hswitch ⊢
    by_cases hsmall : (s.task.datagramEnabled && decide (s.connection.maxSourcePayload maxDatagramSize = 0)) = true
    · rw [if_pos hsmall] at hswitch ⊢
      by_cases hrequired : s.connection.requireAdaptive = true
      · rw [if_pos hrequired]
        exact Relation.ReflTransGen.refl
      · rw [if_neg hrequired, splitOutbound_task] at hswitch
        rw [if_neg hrequired]
        have hon : s.task.datagramEnabled = true := (Bool.and_eq_true_iff.mp hsmall).1
        have hbounds := sendLength_bounds (s := s.giveUpDatagrams)
          (s.connection.maxSourcePayload maxDatagramSize) hbytes (not_le.mp hcredit) nofun
        have hlimit : s.giveUpDatagrams.sendLength chunk (s.connection.maxSourcePayload maxDatagramSize) ≤
            s.cutLimit maxDatagramSize := by
          rw [cutLimit, if_neg (by simpa using fun _ => (by simpa using hsmall : _ ∧ _).2)]
          exact (min_le_left _ _).trans (min_le_left _ _)
        exact (giveUpDatagrams_steps (hswitch hon rfl)).trans
          (splitOutbound_steps (s := s.giveUpDatagrams) hphase hbounds.1 hbounds.2.1 hbounds.2.2 (hcut _ hlimit))
    · rw [if_neg hsmall]
      have hbounds := sendLength_bounds (s.connection.maxSourcePayload maxDatagramSize) hbytes
        (not_le.mp hcredit) (fun hon => by simp [hon] at hsmall; omega)
      have hlimit : s.sendLength chunk (s.connection.maxSourcePayload maxDatagramSize) ≤
          s.cutLimit maxDatagramSize := by
        refine ((min_le_left _ _).trans (min_le_left _ _)).trans (le_of_eq ?_)
        unfold cutLimit
        cases hon : s.task.datagramEnabled with
        | false => rfl
        | true =>
          have hpositive : s.connection.maxSourcePayload maxDatagramSize ≠ 0 := by simpa [hon] using hsmall
          rw [if_pos rfl, if_pos (by simpa using hpositive)]
      exact splitOutbound_steps hphase hbounds.1 hbounds.2.1 hbounds.2.2 (hcut _ hlimit)

theorem queueStreamData_sender (s : Flow) (offset : ℕ) (data : List UInt8) :
    (s.queueStreamData offset data (offset + data.length)).sender = s.sender.queueStreamData offset data := by
  simp [sender, queueStreamData, Sender.queueStreamData]

theorem sendStreamData_steps (hphase : s.phase = .cut chunk) (hoff : s.task.datagramEnabled = false) :
    Steps guard s.sender (s.sendStreamData chunk (chunk.offset + chunk.bytes.length)).1.sender := by
  unfold sendStreamData
  cases hretain : s.task.replay.retain chunk.offset chunk.bytes with
  | error error => exact Relation.ReflTransGen.refl
  | ok replay =>
    have hhand : s.sender.inHand = some chunk := by rw [sender, hphase]; rfl
    have hready : s.sender.ready = true := by rw [sender, hphase]; rfl
    have hstep : Sender.Step guard s.sender _ := .handStream chunk replay hhand hready hretain hoff
    refine single ?_
    convert hstep using 1
    simp [sender, Sender.retain, Sender.queueStreamData, retained, queueStreamData, hphase, TaskPhase.inHand,
      TaskPhase.ready, TaskPhase.handed]

theorem sendStreamData_datagrams (chunk : Outbound) (limit : ℕ) :
    (s.sendStreamData chunk limit).1.task.datagramEnabled = s.task.datagramEnabled := by
  unfold sendStreamData
  split <;> rfl

theorem datagramRefused_steps {error : SendDatagramError} (hphase : s.phase = .cut chunk)
    (hswitch : (s.datagramRefused chunk (chunk.offset + chunk.bytes.length) error).1.task.datagramEnabled = false →
      guard.switchOff s.task.replayCursor s.task.replayStage) :
    Steps guard s.sender (s.datagramRefused chunk (chunk.offset + chunk.bytes.length) error).1.sender := by
  unfold datagramRefused at hswitch ⊢
  by_cases hlost : error = .connectionLost
  · rw [if_pos hlost]
    exact Relation.ReflTransGen.refl
  · by_cases hrequired : s.connection.requireAdaptive = true
    · rw [if_neg hlost, if_pos hrequired]
      exact Relation.ReflTransGen.refl
    · rw [if_neg hlost, if_neg hrequired, sendStreamData_datagrams] at hswitch
      rw [if_neg hlost, if_neg hrequired]
      exact (giveUpDatagrams_steps (hswitch rfl)).trans (sendStreamData_steps (s := s.giveUpDatagrams) hphase rfl)

theorem retainSent_steps {connection : Connection} (hphase : s.phase = .cut chunk)
    (hon : s.task.datagramEnabled = true) :
    Steps guard s.sender ((s.sourceQueued connection ⟨s.flowId, chunk.offset, false, chunk.bytes⟩).retainSent
      chunk (chunk.offset + chunk.bytes.length)).1.sender := by
  obtain ⟨flowId, shared, task, phase, own, budget, history⟩ := s
  change phase = _ at hphase
  subst hphase
  unfold retainSent
  cases hretain : task.replay.retain chunk.offset chunk.bytes with
  | error error =>
    simp only [sourceQueued, hretain]
    exact single (.lostSource chunk ⟨flowId, chunk.offset, false, chunk.bytes⟩ rfl rfl rfl rfl rfl)
  | ok replay =>
    simp only [sourceQueued, hretain]
    exact single (.handDatagram chunk replay ⟨flowId, chunk.offset, false, chunk.bytes⟩ rfl rfl rfl rfl rfl hretain hon)

theorem sendOutbound_steps (hphase : s.phase = .cut chunk)
    (hswitch : s.task.datagramEnabled = true → s.sendOutbound.1.task.datagramEnabled = false →
      guard.switchOff s.task.replayCursor s.task.replayStage) :
    Steps guard s.sender s.sendOutbound.1.sender := by
  obtain ⟨flowId, shared, task, phase, own, budget, history⟩ := s
  change phase = _ at hphase
  subst hphase
  unfold sendOutbound at hswitch ⊢
  dsimp only at hswitch ⊢
  cases hend : checkedAdd chunk.offset chunk.bytes.length with
  | none => exact Relation.ReflTransGen.refl
  | some limit =>
    obtain rfl := checkedAdd_eq_some hend
    simp only [hend] at hswitch ⊢
    by_cases hon : task.datagramEnabled = true
    · rw [if_pos hon] at hswitch ⊢
      cases hsend : own.sendSource ⟨flowId, chunk.offset, false, chunk.bytes⟩ with
      | mk outcome connection =>
        cases outcome with
        | ok queued =>
          cases queued with
          | true =>
            dsimp only
            exact retainSent_steps rfl hon
          | false =>
            dsimp only
            exact putBack_steps (s := ⟨flowId, shared, task, .cut chunk, connection, budget, history⟩) (Or.inr rfl)
        | err error =>
          simp only [hsend] at hswitch ⊢
          exact datagramRefused_steps rfl (hswitch hon)
        | panicked =>
          dsimp only
          exact Relation.ReflTransGen.refl
    · rw [if_neg hon]
      exact sendStreamData_steps rfl (Bool.eq_false_iff.mpr hon)

theorem flushOutbound_steps {limit : ℕ} (hphase : s.phase = .sent limit)
    (hguard : guard.flush s.shared.outbound s.shared.flushTarget) :
    Steps guard s.sender s.flushOutbound.1.sender := by
  obtain ⟨flowId, shared, task, phase, own, budget, history⟩ := s
  change phase = _ at hphase
  subst hphase
  exact single (.flush limit rfl hguard)

theorem replayFallback_steps (htimer : s.task.replayTimer = true)
    (hfallback : s.task.replayStage = .reliableFallback ∨ s.task.datagramEnabled = false) :
    Steps guard s.sender s.replayFallback.1.sender := by
  unfold replayFallback
  by_cases hbusy : (s.task.wireCurrent.isSome || decide (s.task.wireQueue ≠ [])) = true
  · rw [if_pos hbusy]
    exact Relation.ReflTransGen.refl
  · rw [if_neg hbusy]
    cases hnext : s.task.replay.nextChunkAfter s.task.replayCursor with
    | none =>
      dsimp only
      exact single (.fallbackDone htimer hfallback hnext)
    | some entry =>
      obtain ⟨offset, bytes⟩ := entry
      cases hend : checkedAdd offset bytes.length with
      | none =>
        simp only [hend]
        exact Relation.ReflTransGen.refl
      | some limit =>
        obtain rfl := checkedAdd_eq_some hend
        simp only [hend]
        have hstep : Sender.Step guard s.sender _ := .requeue offset bytes htimer hfallback hnext
        refine single ?_
        convert hstep using 1
        rw [← queueStreamData_sender]
        rfl

theorem replaySource_steps (htimer : s.task.replayTimer = true) :
    Steps guard s.sender s.replaySource.1.sender := by
  unfold replaySource
  by_cases hsource : (decide (s.task.replayStage ≠ .reliableFallback) && s.task.datagramEnabled) = true
  · obtain ⟨hstage, hon⟩ := Bool.and_eq_true_iff.mp hsource
    rw [if_pos hsource]
    cases hnext : s.task.replay.nextChunkAfter s.task.replayCursor with
    | none =>
      dsimp only
      exact single .toFallback
    | some entry =>
      obtain ⟨offset, bytes⟩ := entry
      cases hsend : s.connection.sendSource ⟨s.flowId, offset, false, bytes⟩ with
      | mk outcome connection =>
        cases outcome with
        | ok queued =>
          cases queued with
          | true =>
            simp only [hsend]
            exact single (.resend offset bytes ⟨s.flowId, offset, false, bytes⟩ htimer hon
              (of_decide_eq_true hstage) hnext rfl rfl rfl)
          | false =>
            simp only [hsend]
            exact Relation.ReflTransGen.refl
        | err error =>
          simp only [hsend]
          exact Relation.ReflTransGen.refl
        | panicked =>
          simp only [hsend]
          exact Relation.ReflTransGen.refl
  · rw [if_neg hsource]
    refine replayFallback_steps htimer ?_
    by_cases hstage : s.task.replayStage = .reliableFallback
    · exact Or.inl hstage
    · exact Or.inr (by simpa [hstage] using hsource)

theorem replaySource_off (hoff : s.task.datagramEnabled = false) :
    s.replaySource.1.task.datagramEnabled = false := by
  unfold replaySource replayFallback
  rw [if_neg (by simp [hoff])]
  split
  · exact hoff
  · split
    · split <;> exact hoff
    · rfl

variable {poll : ReplayPoll}

theorem replayRepair_off (hoff : s.task.datagramEnabled = false) :
    (s.replayRepair poll).1.task.datagramEnabled = false := by
  unfold replayRepair
  rw [if_neg (by simp [hoff])]
  exact replaySource_off hoff

theorem replayRepair_steps (htimer : s.task.replayTimer = true)
    (hswitch : s.task.datagramEnabled = true → (s.replayRepair poll).1.task.datagramEnabled = false →
      guard.switchOff s.task.replayCursor s.task.replayStage) :
    Steps guard s.sender (s.replayRepair poll).1.sender := by
  unfold replayRepair at hswitch ⊢
  by_cases hrepair : (decide (s.task.replayStage = .repair) && s.task.datagramEnabled) = true
  · have hon := (Bool.and_eq_true_iff.mp hrepair).2
    rw [if_pos hrepair] at hswitch ⊢
    by_cases hbudget : poll.repairBudget = 0
    · rw [if_pos hbudget]
      exact single (.toSource hon)
    · rw [if_neg hbudget] at hswitch ⊢
      cases hrepairs : poll.repairs with
      | ok sent =>
        dsimp only
        by_cases hsent : sent ≠ 0
        · rw [if_pos hsent]
          exact single (.toSource hon)
        · rw [if_neg hsent]
          exact replaySource_steps htimer
      | error error =>
        simp only [hrepairs] at hswitch ⊢
        by_cases hgives : (decide (error ≠ .connectionLost) && !s.connection.requireAdaptive) = true
        · rw [if_pos hgives] at hswitch ⊢
          have hguard := hswitch hon (replaySource_off (s := s.giveUpDatagrams) rfl)
          exact (giveUpDatagrams_steps hguard).trans (replaySource_steps (s := s.giveUpDatagrams) htimer)
        · rw [if_neg hgives]
          exact Relation.ReflTransGen.refl
  · rw [if_neg hrepair]
    exact replaySource_steps htimer

private theorem noticeDatagrams_replay (enabled : Bool) :
    (s.noticeDatagrams enabled).task.replayCursor = s.task.replayCursor ∧
      (s.noticeDatagrams enabled).task.replayStage = s.task.replayStage := by
  unfold noticeDatagrams
  split <;> exact ⟨rfl, rfl⟩

theorem pollReplay_steps
    (hswitch : s.task.datagramEnabled = true → (s.pollReplay poll).1.task.datagramEnabled = false →
      guard.switchOff s.task.replayCursor s.task.replayStage) :
    Steps guard s.sender (s.pollReplay poll).1.sender := by
  obtain ⟨hcursor, hstage⟩ := noticeDatagrams_replay (s := s) poll.enabled
  unfold pollReplay at hswitch ⊢
  dsimp only at hswitch ⊢
  by_cases hwaits : (!(s.noticeDatagrams poll.enabled).task.replayTimer || !poll.timerReady) = true
  · rw [if_pos hwaits] at hswitch ⊢
    exact noticeDatagrams_steps _ hswitch
  · rw [if_neg hwaits] at hswitch ⊢
    have hfired : (s.noticeDatagrams poll.enabled).task.replayTimer = true ∧ poll.timerReady = true := by
      simpa using hwaits
    by_cases hempty : (s.noticeDatagrams poll.enabled).task.replay.bytes = 0
    · rw [if_pos hempty] at hswitch ⊢
      exact (noticeDatagrams_steps _ hswitch).trans (single (.replayIdle hempty))
    · rw [if_neg hempty] at hswitch ⊢
      refine (noticeDatagrams_steps _ fun hon hoff => hswitch hon (replayRepair_off hoff)).trans
        (replayRepair_steps hfired.1 fun hon hoff => ?_)
      rw [hcursor, hstage]
      refine hswitch ?_ hoff
      by_contra hnot
      unfold noticeDatagrams at hon
      simp [hnot] at hon

end Flow

end Quicp
