import Quicp.Flow.Accounting
import Quicp.Flow.Effects

/-!
# Flows that can do without datagrams

A flow that does not require datagrams falls back to the control stream when they are refused.
-/

namespace Quicp

def FlowTaskError.isDatagram : FlowTaskError → Bool
  | .datagram _ => true
  | _ => false

def reportsDatagram : Option (IoErrorKind × IoMessage) → Bool
  | some (_, .task error) => error.isDatagram
  | _ => false

/-- The stretch of the task's code failed because of a refused datagram. -/
def Verdict.isDatagram : Verdict → Bool
  | .failed error => error.isDatagram
  | _ => false

namespace Flow

variable {s : Flow} {action : FlowAction}

theorem stop_error (h : reportsDatagram s.shared.error = false) : reportsDatagram s.stop.shared.error = false := by
  unfold stop
  dsimp only
  split
  · change reportsDatagram (s.shared.error.or _) = false
    cases herror : s.shared.error with
    | none => rfl
    | some error => rwa [herror] at h
  · exact h

theorem fail_error {error : FlowTaskError} (herror : error.isDatagram = false)
    (h : reportsDatagram s.shared.error = false) : reportsDatagram (s.fail error).shared.error = false := by
  refine stop_error ?_
  change reportsDatagram (s.shared.error.or _) = false
  cases hbefore : s.shared.error with
  | none => exact herror
  | some other => rwa [hbefore] at h

theorem settle_error {out : Flow × Verdict} (hverdict : out.2.isDatagram = false)
    (h : reportsDatagram out.1.shared.error = false) : reportsDatagram (settle out).shared.error = false := by
  unfold settle
  split
  · next error hfailed =>
    rw [hfailed] at hverdict
    exact fail_error hverdict h
  · exact stop_error h
  · exact h

private theorem splitOutbound_verdict (chunk : Outbound) (length : ℕ) :
    (s.splitOutbound chunk length).2.isDatagram = false := by
  unfold splitOutbound putBack
  split
  · split
    · rfl
    · split <;> rfl
  · rfl

theorem cutOutbound_verdict (hoptional : s.connection.requireAdaptive = false) (maxDatagramSize : Option ℕ) :
    (s.cutOutbound maxDatagramSize).2.isDatagram = false := by
  unfold cutOutbound
  split
  · split
    · rfl
    · dsimp only
      split
      · rw [if_neg (by rw [hoptional]; nofun)]
        exact splitOutbound_verdict _ _
      · exact splitOutbound_verdict _ _
  · rfl

private theorem sendStreamData_verdict (chunk : Outbound) (limit : ℕ) :
    (s.sendStreamData chunk limit).2.isDatagram = false := by
  unfold sendStreamData
  split <;> rfl

theorem datagramRefused_verdict (hoptional : s.connection.requireAdaptive = false) (chunk : Outbound) (limit : ℕ)
    (error : SendDatagramError) : (s.datagramRefused chunk limit error).2.isDatagram = false := by
  unfold datagramRefused
  split
  · rfl
  · rw [if_neg (by rw [hoptional]; nofun)]
    exact sendStreamData_verdict chunk limit

theorem sendOutbound_verdict (hoptional : s.connection.requireAdaptive = false) :
    s.sendOutbound.2.isDatagram = false := by
  unfold sendOutbound
  split
  · split
    · rfl
    · split
      · dsimp only
        split
        · unfold retainSent
          split <;> rfl
        · rfl
        · exact datagramRefused_verdict hoptional _ _ _
        · rfl
      · exact sendStreamData_verdict _ _
  · rfl

private theorem replayFallback_verdict : s.replayFallback.2.isDatagram = false := by
  unfold replayFallback
  split
  · rfl
  · split
    · split <;> rfl
    · rfl

private theorem replaySource_verdict (hon : s.task.datagramEnabled = true → s.connection.datagramEnabled = true) :
    s.replaySource.2.isDatagram = false := by
  unfold replaySource
  split
  · next hsource =>
    split
    · next offset bytes _ =>
      have henabled := hon (Bool.and_eq_true_iff.mp hsource).2
      dsimp only
      split
      · rfl
      · rfl
      · next error connection hresult =>
        unfold Connection.sendSource at hresult
        rw [if_neg (by rw [henabled]; nofun)] at hresult
        split at hresult
        · cases hresult
        · split at hresult <;> cases hresult
      · rfl
    · rfl
  · exact replayFallback_verdict

theorem pollReplay_verdict (hoptional : s.connection.requireAdaptive = false) {poll : ReplayPoll}
    (hseen : poll.enabled = true → s.connection.datagramEnabled = true)
    (hrepairs : poll.repairs ≠ .error .connectionLost) : (s.pollReplay poll).2.isDatagram = false := by
  have hon : (s.noticeDatagrams poll.enabled).task.datagramEnabled = true →
      (s.noticeDatagrams poll.enabled).connection.datagramEnabled = true := by
    unfold noticeDatagrams
    split
    · nofun
    · next hnotice =>
      intro hflow
      refine hseen ?_
      rw [hflow, Bool.true_and, Bool.not_eq_true, Bool.not_eq_false'] at hnotice
      exact hnotice
  have hadaptive := (noticeDatagrams_effect (s := s) poll.enabled).limits.requireAdaptive.trans hoptional
  unfold pollReplay
  dsimp only
  generalize s.noticeDatagrams poll.enabled = noticed at hon hadaptive
  split
  · rfl
  · split
    · rfl
    · unfold replayRepair
      split
      · split
        · rfl
        · split
          · split
            · rfl
            · exact replaySource_verdict hon
          · next error herror =>
            have hlost : error ≠ .connectionLost := fun hlost => hrepairs (by rw [herror, hlost])
            rw [if_pos (by rw [hadaptive, decide_eq_true hlost]; rfl)]
            exact replaySource_verdict nofun
      · exact replaySource_verdict hon

private theorem pollWire_error (result : WriteResult) :
    (s.pollWire result).1.shared.error = s.shared.error ∧ (s.pollWire result).2.isDatagram = false := by
  unfold pollWire
  dsimp only
  split
  · exact ⟨rfl, rfl⟩
  · next frame _ =>
    split
    · exact ⟨rfl, rfl⟩
    · exact ⟨rfl, rfl⟩
    · split
      · exact ⟨rfl, rfl⟩
      · split
        · obtain ⟨_, _, flushedOffset, ackedOffset⟩ := frame
          cases ackedOffset <;> exact ⟨rfl, rfl⟩
        · exact ⟨rfl, rfl⟩

private theorem applyControl_error (frame : ControlFrame) :
    (s.applyControl frame).1.shared.error = s.shared.error ∧ (s.applyControl frame).2.isDatagram = false := by
  cases frame with
  | ack contiguous ranges =>
    refine ⟨(applyAck_effect contiguous ranges).error, ?_⟩
    show (s.applyAck contiguous ranges).2.isDatagram = false
    unfold applyAck
    split
    · rfl
    · dsimp only
      split
      · split <;> rfl
      · rfl
  | maxOffset maximum =>
    unfold applyControl
    dsimp only
    split <;> exact ⟨rfl, rfl⟩
  | fin offset =>
    unfold applyControl FlowShared.setFinalOffset
    dsimp only
    split
    · exact ⟨rfl, rfl⟩
    · next hset =>
      split at hset
      · cases hset
      · split at hset
        · cases hset
        · cases hset
          exact ⟨rfl, rfl⟩
  | streamData offset fin data =>
    obtain ⟨_, _, _, _, hshared⟩ := insertBytes_shared s.shared s.budget offset data fin none
    unfold applyControl applyStreamData
    dsimp only
    split
    · exact ⟨rfl, rfl⟩
    · refine ⟨?_, by split <;> rfl⟩
      unfold afterInsert FlowShared.insertBytes
      rw [hshared]
  | _ => exact ⟨rfl, rfl⟩

private theorem requestReset_error {shared : FlowShared} (h : reportsDatagram shared.error = false)
    (error : ApplicationError) : reportsDatagram (shared.requestReset error).2.error = false := by
  unfold FlowShared.requestReset
  split
  · exact h
  · split
    · exact h
    · dsimp only
      split
      · exact h
      · split
        · exact h
        · rfl

private theorem applySource_error (h : reportsDatagram s.shared.error = false) (offset : ℕ) (bytes : List UInt8)
    (fin : Bool) (charge : RecoveryCharge) :
    reportsDatagram (s.applySource offset bytes fin charge).shared.error = false := by
  obtain ⟨_, _, _, _, hshared⟩ := insertBytes_shared s.shared s.budget offset bytes fin (some charge)
  have hinsert : reportsDatagram (s.afterInsert (offset, bytes)
      (s.shared.insertBytesPrecharged s.budget offset bytes fin charge)).shared.error = false := by
    unfold afterInsert FlowShared.insertBytesPrecharged
    rw [hshared]
    exact h
  unfold applySource
  dsimp only
  split
  · exact requestReset_error hinsert _
  · exact hinsert

end Flow

/-- What may happen to a flow that can do without datagrams: an action, or the first send of a chunk is refused. -/
inductive OptionalAction
  | act (action : FlowAction)
  | refuse (error : SendDatagramError)

namespace Flow

variable {s t : Flow}

def applyOptional (s : Flow) : OptionalAction → Flow
  | .act action => s.apply action
  | .refuse error =>
    match s.phase with
    | .cut chunk => settle (s.datagramRefused chunk (chunk.offset + chunk.bytes.length) error)
    | _ => s

/-- When it may happen. Sending may be refused at any time for any reason but a lost connection, and receiving
reports no refused datagram. -/
def AllowsOptional (s : Flow) : OptionalAction → Prop
  | .act action => s.Allows action ∧
      match action with
      | .receiveError error => error.isDatagram = false
      | .replay poll => poll.repairs ≠ .error .connectionLost
      | _ => True
  | .refuse error => hasCut s.phase = true ∧ s.task.datagramEnabled = true ∧ error ≠ .connectionLost

/-- The replay does not find the connection's datagrams off after it saw them on. -/
def SeesDatagrams (s : Flow) : OptionalAction → Prop
  | .act (.replay poll) => poll.enabled = true → s.connection.datagramEnabled = true
  | _ => True

instance (s : Flow) (action : OptionalAction) : Decidable (s.AllowsOptional action) := by
  cases action with
  | act action =>
    apply FlowAction.casesOn (motive := fun action => Decidable (s.AllowsOptional (.act action))) action <;> intros <;>
      unfold AllowsOptional <;> infer_instance
  | refuse error => unfold AllowsOptional; infer_instance

instance (s : Flow) (action : OptionalAction) : Decidable (s.SeesDatagrams action) := by
  cases action with
  | act action =>
    apply FlowAction.casesOn (motive := fun action => Decidable (s.SeesDatagrams (.act action))) action <;> intros <;>
      unfold SeesDatagrams <;> infer_instance
  | refuse error => unfold SeesDatagrams; infer_instance

def OptionalStep (s : Flow) (action : OptionalAction) (t : Flow) : Prop :=
  s.AllowsOptional action ∧ t = s.applyOptional action

/-- Such a step whose replay sees the connection's datagrams as they are. -/
def SeeingStep (s : Flow) (action : OptionalAction) (t : Flow) : Prop := s.OptionalStep action t ∧ s.SeesDatagrams action

def OptionalInitial (s : Flow) : Prop := s.Initial ∧ s.connection.requireAdaptive = false

private theorem apply_error {action : FlowAction} (hallows : s.AllowsOptional (.act action))
    (hsees : s.SeesDatagrams (.act action)) (hoptional : s.connection.requireAdaptive = false)
    (h : reportsDatagram s.shared.error = false) : reportsDatagram (s.apply action).shared.error = false := by
  have hsend : ∀ {out : Flow × Verdict}, SendEffect s out.1 → out.2.isDatagram = false →
      reportsDatagram (settle out).shared.error = false :=
    fun heffect hverdict => settle_error hverdict (by rw [heffect.error]; exact h)
  cases action with
  | enqueue bytes =>
    rw [apply, applyEnqueue, FlowShared.enqueue]
    split
    · exact h
    · exact h
    · split <;> exact h
  | requestFlush =>
    rw [apply, FlowShared.requestFlush]
    split <;> exact h
  | requestShutdown =>
    rw [apply, FlowShared.requestShutdown]
    split <;> exact h
  | requestReset error => exact requestReset_error h error
  | read length =>
    obtain ⟨_, _, _, _, hshared⟩ := read_shared s.shared s.budget length
    rw [apply, applyRead]
    dsimp only
    rw [hshared]
    exact h
  | source offset bytes fin charge => exact applySource_error h offset bytes fin charge
  | pollStart =>
    rw [apply, pollStart]
    split
    · exact stop_error (s := { s with shared := { s.shared with reset := none } }) h
    · split
      · exact stop_error h
      · exact h
  | control frame =>
    obtain ⟨herror, hverdict⟩ := applyControl_error (s := s) frame
    exact settle_error hverdict (by rw [herror]; exact h)
  | receiveError error => exact fail_error hallows.2 h
  | takeFeedback =>
    rw [apply, applyTakeFeedback]
    split <;> exact h
  | takeOutbound =>
    refine hsend takeOutbound_effect ?_
    unfold takeOutbound
    dsimp only
    split <;> rfl
  | cutOutbound maxDatagramSize =>
    exact hsend (cutOutbound_effect maxDatagramSize) (cutOutbound_verdict hoptional maxDatagramSize)
  | sendOutbound => exact hsend sendOutbound_effect (sendOutbound_verdict hoptional)
  | flushOutbound =>
    refine hsend flushOutbound_effect ?_
    unfold flushOutbound
    split <;> rfl
  | replay poll => exact hsend (pollReplay_effect poll) (pollReplay_verdict hoptional hsees hallows.2)
  | terminal => rw [apply, queueTerminalFrames_effect.error]; exact h
  | wire result =>
    obtain ⟨herror, hverdict⟩ := pollWire_error (s := s) result
    exact settle_error hverdict (by rw [herror]; exact h)
  | finish finishes =>
    refine hsend (finishSendIfReady_effect finishes) ?_
    unfold finishSendIfReady
    split
    · dsimp only
      split
      · split <;> rfl
      · rfl
    · rfl
  | _ => exact h

private theorem datagramRefused_queues (hinv : s.sender.Inv) (hretained : s.sender.Retained)
    (hoptional : s.connection.requireAdaptive = false) {chunk : Outbound} (hphase : s.phase = .cut chunk)
    {error : SendDatagramError} (herror : error ≠ .connectionLost) :
    ∃ refused, s.datagramRefused chunk (chunk.offset + chunk.bytes.length) error = (refused, .done true) ∧
      refused.task.datagramEnabled = false ∧
      refused.task.wireQueue.map WireFrame.frame =
        s.task.wireQueue.map WireFrame.frame ++ [.streamData chunk.offset false chunk.bytes] := by
  obtain ⟨replay, hretain⟩ := exists_retain_of_cut hinv hretained hphase
  rw [datagramRefused, if_neg herror, if_neg (by rw [hoptional]; decide), sendStreamData]
  change s.giveUpDatagrams.task.replay.retain chunk.offset chunk.bytes = .ok replay at hretain
  rw [hretain]
  refine ⟨_, rfl, rfl, ?_⟩
  exact List.map_append

structure OptionalInv (s : Flow) : Prop where
  sender : s.sender.Inv
  retained : s.phase ≠ .stopped → s.sender.Retained
  optional : s.connection.requireAdaptive = false
  unreported : reportsDatagram s.shared.error = false

private theorem OptionalInv.refuse (h : s.OptionalInv) {error : SendDatagramError} (hcut : hasCut s.phase = true)
    (herror : error ≠ .connectionLost) : (s.applyOptional (.refuse error)).OptionalInv := by
  obtain ⟨chunk, hphase⟩ := exists_of_hasCut hcut
  have hretained := h.retained (by rw [hphase]; nofun)
  obtain ⟨refused, hrefused, _, _⟩ := datagramRefused_queues h.sender hretained h.optional hphase herror
  have heffect := datagramRefused_effect (s := s) chunk (chunk.offset + chunk.bytes.length) error
  have hsteps : Sender.Steps { SenderGuard.none with stop := False } s.sender
      (s.datagramRefused chunk (chunk.offset + chunk.bytes.length) error).1.sender :=
    datagramRefused_steps hphase fun _ => trivial
  have happly : s.applyOptional (.refuse error) = refused := by
    rw [applyOptional, hphase]
    change settle (s.datagramRefused chunk (chunk.offset + chunk.bytes.length) error) = refused
    rw [hrefused]
    rfl
  rw [happly]
  rw [hrefused] at heffect hsteps
  exact
    { sender := hsteps.inv h.sender
      retained := fun _ =>
        hsteps.keeps (fun _ _ hlast hbefore => hlast.retained id hbefore.placed) h.sender hretained
      optional := heffect.limits.requireAdaptive.trans h.optional
      unreported := by rw [heffect.error]; exact h.unreported }

private theorem OptionalInv.step (h : s.OptionalInv) {action : OptionalAction} (hstep : s.SeeingStep action t) :
    t.OptionalInv := by
  obtain ⟨⟨hallows, rfl⟩, hsees⟩ := hstep
  cases action with
  | act action =>
    have hflow : s.Step action (s.apply action) := ⟨hallows.1, rfl⟩
    exact
      { sender := (apply_steps hallows.1 (inHand_ne_nil h.sender) (meets_none s action)).inv h.sender
        retained := fun hrunning => hflow.retained h.sender hrunning
          (h.retained fun hstopped => hrunning (apply_stopped hallows.1 hstopped))
        optional := (apply_limits hallows.1).requireAdaptive.trans h.optional
        unreported := apply_error hallows hsees h.optional h.unreported }
  | refuse error => exact h.refuse hallows.1 hallows.2.2

/-- In every run of a flow that does not require datagrams, in which the queue may refuse the first send of any
chunk and the tail repairs and datagrams may go off at any time but between the look of a replay and its send, the
task never fails because of a datagram, and a chunk whose datagram is refused goes out on the control stream. -/
theorem optionalRun_unreported (h : Reachable OptionalInitial SeeingStep s) :
    reportsDatagram s.shared.error = false ∧
      ∀ chunk error, s.phase = .cut chunk → error ≠ SendDatagramError.connectionLost →
        ∃ refused, s.datagramRefused chunk (chunk.offset + chunk.bytes.length) error = (refused, .done true) ∧
          refused.task.datagramEnabled = false ∧
          refused.task.wireQueue.map WireFrame.frame =
            s.task.wireQueue.map WireFrame.frame ++ [.streamData chunk.offset false chunk.bytes] := by
  have hinv : s.OptionalInv := h.invariant
    (fun x hstart =>
      { sender := hstart.1.inv
        retained := fun _ => (retained_of_reachable (.start hstart.1)
          (by obtain ⟨_, _, _, _, _, _, rfl, _⟩ := hstart.1; nofun))
        optional := hstart.2
        unreported := by obtain ⟨_, _, _, _, _, _, rfl, _⟩ := hstart.1; rfl })
    (fun _ _ _ hs hstep => hs.step hstep)
  refine ⟨hinv.unreported, fun chunk error hphase herror => ?_⟩
  exact datagramRefused_queues hinv.sender (hinv.retained (by rw [hphase]; nofun)) hinv.optional hphase herror

def sentOnce : List FlowAction :=
  [.enqueue [7], .control (.maxOffset 100)] ++ handOver ++ [.replay ⟨true, true, 0, .ok 0⟩]

def refusedRun : List OptionalAction :=
  sentOnce.map .act ++
    [.act (.replay ⟨true, true, 0, .ok 0⟩), .act (.enqueue [8]), .act .takeOutbound, .act (.cutOutbound none),
      .refuse .tooLarge, .act (.replay ⟨true, true, 1, .error .disabled⟩)]

theorem optionalRun_unreported_refused :
    reportsDatagram (refusedRun.foldl applyOptional (sample true)).shared.error = false := by
  have hrun : Reachable.Permits (fun s action => s.AllowsOptional action ∧ s.SeesDatagrams action) applyOptional
      (sample true) refusedRun := by decide +kernel
  exact (optionalRun_unreported (Reachable.run (fun _ _ h => ⟨⟨h.1, rfl⟩, h.2⟩)
    (.start ⟨sample_initial true, rfl⟩) hrun)).1

def overtakenRun : List OptionalAction :=
  sentOnce.map .act ++
    [.act (.connection ⟨false, [], 512, 1, false, false, 64, 64, 2⟩), .act (.replay ⟨true, true, 0, .ok 0⟩)]

/-- The flow of that run does not require datagrams and fails because they are off. -/
theorem overtakenRun_reported :
    (sample true).OptionalInitial ∧ Reachable.Permits AllowsOptional applyOptional (sample true) overtakenRun ∧
      (overtakenRun.foldl applyOptional (sample true)).phase = .stopped ∧
      (overtakenRun.foldl applyOptional (sample true)).shared.error =
        some (.connectionAborted, .task (.datagram .disabled)) :=
  ⟨⟨sample_initial true, rfl⟩, by decide +kernel, by decide +kernel, by decide +kernel⟩

end Flow

end Quicp
