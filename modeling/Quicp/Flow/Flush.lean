import Quicp.Flow.SenderInv

/-!
# When a flush completes

A flush request completes once the flushed offset has reached the end of the written bytes.
-/

namespace Quicp

def ControlFrame.isStreamData : ControlFrame → Bool
  | .streamData _ _ _ => true
  | _ => false

/-- Once everything is handed over, the end of the written bytes is flushed or waits to be written. -/
structure FlushNote (live : Bool) (nextSendOffset flushedOffset : ℕ) (flushTarget : Option ℕ)
    (pending : List Outbound) (handed : Option ℕ) (waiting : List (ControlFrame × Option ℕ)) : Prop where
  target : ∀ target ∈ flushTarget, target ≤ nextSendOffset
  carried : ∀ item ∈ waiting, item.2.isSome = true → item.1.isStreamData = true
  noted : live = true → pending = [] → handed = none →
    nextSendOffset ≤ flushedOffset ∨ ∃ item ∈ waiting, ∃ offset ∈ item.2, nextSendOffset ≤ offset

namespace FlushNote

variable {live : Bool} {nextSendOffset flushedOffset : ℕ} {flushTarget handed : Option ℕ}
  {pending : List Outbound} {waiting : List (ControlFrame × Option ℕ)}

theorem wait (h : FlushNote live nextSendOffset flushedOffset flushTarget pending handed waiting)
    (item : ControlFrame × Option ℕ) (hitem : item.2.isSome = true → item.1.isStreamData = true) :
    FlushNote live nextSendOffset flushedOffset flushTarget pending handed (waiting ++ [item]) where
  target := h.target
  carried := by
    intro other hother
    rcases List.mem_append.mp hother with hold | hnew
    · exact h.carried other hold
    · rw [List.mem_singleton.mp hnew]
      exact hitem
  noted := by
    intro hlive hpending hhanded
    rcases h.noted hlive hpending hhanded with hflushed | ⟨other, hother, hreaches⟩
    · exact Or.inl hflushed
    · exact Or.inr ⟨other, List.mem_append_left _ hother, hreaches⟩

theorem written {item : ControlFrame × Option ℕ}
    (h : FlushNote live nextSendOffset flushedOffset flushTarget pending handed (item :: waiting)) :
    FlushNote live nextSendOffset (Sender.flushTo flushedOffset item.2) flushTarget pending handed waiting where
  target := h.target
  carried := fun other hother => h.carried other (List.mem_cons_of_mem _ hother)
  noted := by
    intro hlive hpending hhanded
    rcases h.noted hlive hpending hhanded with hflushed | ⟨other, hother, offset, hoffset, hle⟩
    · refine Or.inl (hflushed.trans ?_)
      cases item.2 with
      | none => exact le_rfl
      | some offset => exact le_max_left _ _
    · rcases List.mem_cons.mp hother with rfl | hother
      · rw [Option.mem_def.mp hoffset]
        exact Or.inl (hle.trans (le_max_right _ _))
      · exact Or.inr ⟨other, hother, offset, hoffset, hle⟩

end FlushNote

namespace Sender

variable {x y : Sender}

def Noted (x : Sender) : Prop :=
  FlushNote x.live x.nextSendOffset x.flushedOffset x.flushTarget x.pending x.handed x.waiting

/-- A hand-over that leaves nothing waiting finds a flush request. -/
def flushAsked : SenderGuard :=
  { SenderGuard.none with flush := fun outbound target => outbound = [] → target.isSome = true }

private theorem noted_flush {limit : ℕ} (hinv : x.Inv) (h : x.Noted) (hhanded : x.handed = some limit)
    (hguard : x.outbound = [] → x.flushTarget.isSome = true) :
    FlushNote x.live x.nextSendOffset
      (if x.flushTarget.any (fun target => decide (limit ≥ target)) && decide (x.outbound = []) then limit
        else x.flushedOffset) x.flushTarget x.pending none x.waiting := by
  refine ⟨h.target, h.carried, fun hlive hpending _ => Or.inl ?_⟩
  have hlimit : limit = x.nextSendOffset := (hinv.accounted hlive).handed hpending limit hhanded
  have houtbound : x.outbound = [] := (List.append_eq_nil_iff.mp hpending).2
  obtain ⟨target, htarget⟩ := Option.isSome_iff_exists.mp (hguard houtbound)
  have hle : target ≤ limit := hlimit ▸ h.target target htarget
  rw [if_pos (by simp [htarget, hle, houtbound]), hlimit]

theorem Step.noted (hstep : Step flushAsked x y) (hinv : x.Inv) (h : x.Noted) : y.Noted := by
  unfold Noted at h
  cases hstep with
  | write bytes =>
    refine ⟨fun target htarget => (h.target target htarget).trans (Nat.le_add_right _ _), h.carried, ?_⟩
    intro _ hpending
    simp [pending] at hpending
  | requestFlush =>
    refine { h with target := fun target htarget => ?_ }
    rw [← Option.some.inj htarget]
    refine max_le ?_ le_rfl
    cases hold : x.flushTarget with
    | none => exact Nat.zero_le _
    | some old => exact h.target old hold
  | reset => exact { h with noted := by simp }
  | fail => exact { h with noted := by simp }
  | abandon => exact { h with noted := by simp }
  | abandonReleased ack => exact { h with noted := by simp }
  | release ack =>
    rw [release_eq]
    exact h
  | take chunk rest hhand hhanded houtbound =>
    rw [pending_of_not_inHand hhand, houtbound] at h
    exact h
  | putBack chunk hhand =>
    rw [pending_of_inHand hhand] at h
    exact h
  | split chunk length hhand => exact { h with noted := fun _ hpending => by cases hpending }
  | handDatagram chunk replay record hhand => exact { h with noted := by simp }
  | handStream chunk replay hhand =>
    refine { h.wait (.streamData chunk.offset false chunk.bytes, some chunk.stop) fun _ => rfl with noted := fun hlive hpending _ => Or.inr ?_ }
    refine ⟨_, List.mem_append_right _ List.mem_cons_self, chunk.stop, rfl, Eq.ge ?_⟩
    have houtbound : x.outbound = [] := hpending
    have hlast := (hinv.accounted hlive).last
    rw [pending_of_inHand hhand, houtbound] at hlast
    exact hlast chunk rfl
  | flush limit hhanded hguard => exact noted_flush hinv h hhanded hguard
  | requeue offset bytes => exact h.wait _ fun _ => rfl
  | queueFin finalOffset => exact h.wait _ (by simp)
  | acknowledge contiguous ranges => exact h.wait _ (by simp)
  | sendCredit maximum => exact h.wait _ (by simp)
  | frameWritten frame flushed rest hwaiting =>
    rw [hwaiting] at h
    exact h.written
  | _ => exact h

end Sender

namespace Flow

variable {s t : Flow} {action : FlowAction}

/-- A flush section that finds no chunk waiting finds a flush request. -/
def FlushAsked (s : Flow) : FlowAction → Prop
  | .flushOutbound => s.shared.outbound = [] → s.shared.flushTarget.isSome = true
  | _ => True

instance (s : Flow) (action : FlowAction) : Decidable (s.FlushAsked action) := by
  apply FlowAction.casesOn (motive := fun action => Decidable (s.FlushAsked action)) action <;> intros <;>
    unfold FlushAsked <;> infer_instance

/-- A step of a run whose last hand-overs find a flush request. -/
def AskedStep (s : Flow) (action : FlowAction) (t : Flow) : Prop := s.Step action t ∧ s.FlushAsked action

theorem AskedStep.noted (hstep : s.AskedStep action t) (hinv : s.sender.Inv) (h : s.sender.Noted) :
    t.sender.Noted := by
  obtain ⟨⟨hallows, rfl⟩, hasked⟩ := hstep
  have hsteps : Sender.Steps Sender.flushAsked s.sender (s.apply action).sender :=
    apply_steps hallows (inHand_ne_nil hinv) { meets_none s action with flush := by rintro rfl; exact hasked }
  exact hsteps.keeps (fun _ _ => Sender.Step.noted) hinv h

theorem Initial.noted (h : s.Initial) : s.sender.Noted := by
  obtain ⟨flowId, config, adaptive, connection, budget, early, rfl, _⟩ := h
  exact ⟨nofun, nofun, fun _ _ _ => Or.inl le_rfl⟩

/-- The task is not inside `process_outbound` with a chunk: it neither holds one nor has just handed one
to the datagram queue. -/
def holdsNoChunk (s : Flow) : Prop := s.phase.inHand = none ∧ s.phase.handed = none

/-- No frame with stream data waits for the control stream. -/
def noStreamData (s : Flow) : Prop :=
  ∀ frame ∈ s.task.wireCurrent.toList ++ s.task.wireQueue, frame.frame.isStreamData = false

end Flow

/-- In every run whose last hand-overs find a flush request, a flush completes at once when everything has
been handed over. -/
theorem requestFlush_of_handed_over {s : Flow} (h : Reachable Flow.Initial Flow.AskedStep s) (hlive : s.Live)
    (houtbound : s.shared.outbound = []) (hchunk : s.holdsNoChunk) (hframes : s.noStreamData) :
    s.shared.requestFlush.1 = .ok true := by
  have hboth := h.invariant (P := fun s => s.sender.Inv ∧ s.sender.Noted)
    (fun _ hstart => ⟨hstart.inv, hstart.noted⟩)
    (fun _ _ _ hs hstep => ⟨hstep.1.inv hs.1, hstep.noted hs.1 hs.2⟩)
  have hpending : s.sender.pending = [] := (Sender.pending_of_not_inHand hchunk.1).trans houtbound
  have hflushed : s.shared.nextSendOffset ≤ s.shared.flushedOffset := by
    rcases hboth.2.noted (by simp [Flow.sender, hlive.1, hlive.2]) hpending hchunk.2 with
      hflushed | ⟨item, hitem, offset, hoffset, _⟩
    · exact hflushed
    · obtain ⟨frame, hframe, rfl⟩ := List.mem_map.mp hitem
      have hcarried := hboth.2.carried _ hitem (by rw [Option.mem_def.mp hoffset]; rfl)
      rw [hframes frame hframe] at hcarried
      cases hcarried
  rw [FlowShared.requestFlush, hlive.1]
  simpa using hflushed

theorem requestFlush_of_handed_over_datagram :
    ((Flow.sample true).run ([.enqueue [7], .requestFlush, .control (.maxOffset 100)] ++
      Flow.handOver)).shared.requestFlush.1 = .ok true := by
  have hrun : Reachable.Permits (fun s action => s.Allows action ∧ s.FlushAsked action) Flow.apply
      (Flow.sample true) ([.enqueue [7], .requestFlush, .control (.maxOffset 100)] ++ Flow.handOver) := by
    decide +kernel
  refine requestFlush_of_handed_over
    (Reachable.run (fun _ _ h => ⟨⟨h.1, rfl⟩, h.2⟩) (.start (Flow.sample_initial true)) hrun) ?_ ?_ ?_ ?_
  · exact ⟨by decide +kernel, by decide +kernel⟩
  · decide +kernel
  · exact ⟨by decide +kernel, by decide +kernel⟩
  · unfold Flow.noStreamData
    decide +kernel

/-- A byte that goes out as a datagram before the first flush request leaves the request incomplete although nothing is
left to hand over. -/
theorem requestFlush_after_datagram :
    ∃ s : Flow, Reachable Flow.Initial Flow.Step s ∧ s.Live ∧ s.shared.outbound = [] ∧ s.holdsNoChunk ∧
      s.noStreamData ∧ s.shared.requestFlush.1 = .ok false := by
  have hrun : Reachable.Permits Flow.Allows Flow.apply (Flow.sample true)
      ([.enqueue [7], .control (.maxOffset 100)] ++ Flow.handOver) := by decide +kernel
  refine ⟨_, Reachable.run (fun _ _ h => ⟨h, rfl⟩) (.start (Flow.sample_initial true)) hrun, ?_, ?_, ?_, ?_, ?_⟩
  · exact ⟨by decide +kernel, by decide +kernel⟩
  · decide +kernel
  · exact ⟨by decide +kernel, by decide +kernel⟩
  · unfold Flow.noStreamData
    decide +kernel
  · rfl

end Quicp
