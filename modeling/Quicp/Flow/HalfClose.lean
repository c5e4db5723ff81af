import Quicp.Flow.Accounting

/-!
# Closing the sending half of a flow

The final offset is queued once, when every byte that was accepted has been acknowledged. After that no byte is
accepted, and the shutdown is done only when the frame and all frames before it are written.
-/

namespace Quicp

open Segment

def ControlFrame.isFin : ControlFrame → Bool
  | .fin _ => true
  | _ => false

def AnyContains (segments : List (ℕ × List UInt8)) (i : ℕ) : Prop :=
  ∃ segment ∈ segments, segment.1 ≤ i ∧ i < stop segment

variable {i : ℕ}

theorem AnyContains.mono {segments others : List (ℕ × List UInt8)} (h : AnyContains segments i)
    (hmem : ∀ segment ∈ segments, segment ∈ others) : AnyContains others i := by
  obtain ⟨segment, hsegment, hcontains⟩ := h
  exact ⟨segment, hmem segment hsegment, hcontains⟩

theorem anyContains_append {segments others : List (ℕ × List UInt8)} :
    AnyContains (segments ++ others) i ↔ AnyContains segments i ∨ AnyContains others i := by
  simp only [AnyContains, List.mem_append, or_and_right, exists_or]

theorem ReplayBuffer.represents_of_covered {ack : AckRanges} {entry : ℕ × List UInt8}
    (hwire : stop entry ≤ maxWireOffset) (h : covered ack entry = true) (hstart : entry.1 ≤ i) (hstop : i < stop entry) :
    ack.Represents i := by
  rw [covered, endOf_eq hwire, Bool.or_eq_true, decide_eq_true_eq] at h
  rcases h with hinitial | hrange
  · exact Or.inl (lt_of_lt_of_le hstop hinitial)
  · obtain ⟨range, hmem, hbounds⟩ := List.any_eq_true.mp hrange
    obtain ⟨hlower, hupper⟩ := of_decide_eq_true hbounds
    exact Or.inr ⟨range, hmem, hlower.trans hstart, lt_of_lt_of_le hstop hupper⟩

namespace Sender

variable {guard : SenderGuard} {x y : Sender}

/-- What a sender still holds: the chunks that wait or are in hand and those that are replayed. -/
def held (x : Sender) : List (ℕ × List UInt8) := x.pending.map Outbound.segment ++ x.replay.chunks.entries

/-- Every written byte past the first ones is acknowledged or still held. -/
def Covered (first : ℕ) (acknowledged : ℕ → Prop) (x : Sender) : Prop :=
  ∀ i, first ≤ i → i < x.nextSendOffset → acknowledged i ∨ AnyContains x.held i

/-- The flow goes on without a reset, and acknowledgements release what was acknowledged. -/
def goesOn (acknowledged : ℕ → Prop) : SenderGuard :=
  { SenderGuard.none with
    release := fun ack => ∀ i, ack.Represents i → acknowledged i
    reset := False
    stop := False }

variable {acknowledged : ℕ → Prop} {first : ℕ}

private theorem Covered.release (h : x.Covered first acknowledged)
    (hreplay : x.replay.WellFormed) {ack : AckRanges} (hack : ∀ i, ack.Represents i → acknowledged i) :
    (x.release ack).Covered first acknowledged := by
  rw [release_eq]
  intro i hfirst hlast
  rcases h i hfirst hlast with hknown | ⟨segment, hsegment, hstart, hstop⟩
  · exact Or.inl hknown
  · rcases List.mem_append.mp hsegment with hpending | hentry
    · exact Or.inr ⟨segment, List.mem_append_left _ hpending, hstart, hstop⟩
    · rcases ReplayBuffer.mem_acknowledge_or_covered ack hentry with hkept | hcovered
      · exact Or.inr ⟨segment, List.mem_append_right _ hkept, hstart, hstop⟩
      · exact Or.inl (hack i (ReplayBuffer.represents_of_covered (hreplay.onWire segment hentry) hcovered hstart hstop))

theorem anyContains_split {length : ℕ} {chunk : Outbound} {rest : List Outbound} {i : ℕ}
    (hlength : length < chunk.bytes.length) (h : AnyContains ((chunk :: rest).map Outbound.segment) i) :
    AnyContains ((⟨chunk.offset, chunk.bytes.take length⟩ :: ⟨chunk.offset + length, chunk.bytes.drop length⟩ ::
      rest : List Outbound).map Outbound.segment) i := by
  obtain ⟨segment, hsegment, hstart, hstop⟩ := h
  simp only [List.map_cons, List.mem_cons] at hsegment
  rcases hsegment with rfl | hsegment
  · by_cases hfirst : i < chunk.offset + length
    · refine ⟨(chunk.offset, chunk.bytes.take length), List.mem_cons_self, hstart, ?_⟩
      rw [stop, List.length_take]
      dsimp only
      omega
    · refine ⟨(chunk.offset + length, chunk.bytes.drop length), List.mem_cons_of_mem _ List.mem_cons_self,
        not_lt.mp hfirst, ?_⟩
      have hend : i < chunk.offset + chunk.bytes.length := hstop
      rw [stop, List.length_drop]
      dsimp only
      omega
  · exact ⟨segment, List.mem_cons_of_mem _ (List.mem_cons_of_mem _ hsegment), hstart, hstop⟩

private theorem mem_held_of_retain {chunk : Outbound} {replay : ReplayBuffer} (hplaced : x.Placed)
    (hhand : x.inHand = some chunk) (hreplay : x.replay.retain chunk.offset chunk.bytes = .ok replay) :
    ∀ segment ∈ x.held, segment ∈ x.outbound.map Outbound.segment ++ replay.chunks.entries := by
  intro segment hsegment
  rw [Placed, pending_of_inHand hhand] at hplaced
  have hperm := ReplayBuffer.retain_perm hreplay hplaced.fresh
  rw [held, pending_of_inHand hhand, List.map_cons, List.cons_append, List.mem_cons] at hsegment
  rcases hsegment with rfl | hsegment
  · exact List.mem_append_right _ (hperm.mem_iff.mpr List.mem_cons_self)
  · rcases List.mem_append.mp hsegment with hpending | hentry
    · exact List.mem_append_left _ hpending
    · exact List.mem_append_right _ (hperm.mem_iff.mpr (List.mem_cons_of_mem _ hentry))

theorem Step.covered (hstep : Step (goesOn acknowledged) x y)
    (hplaced : x.Placed) (h : x.Covered first acknowledged) : y.Covered first acknowledged := by
  have hmore : ∀ {others : List (ℕ × List UInt8)}, (∀ segment ∈ x.held, segment ∈ others) → ∀ i, first ≤ i →
      i < x.nextSendOffset → acknowledged i ∨ AnyContains others i :=
    fun hmem i hfirst hlast => (h i hfirst hlast).imp_right (·.mono hmem)
  cases hstep with
  | write bytes hbytes =>
    intro i hfirst hlast
    by_cases hold : i < x.nextSendOffset
    · refine (h i hfirst hold).imp_right (·.mono fun segment hsegment => ?_)
      simp only [held, pending, List.map_append, List.mem_append] at hsegment ⊢
      tauto
    · refine Or.inr ⟨(x.nextSendOffset, bytes), ?_, not_lt.mp hold, hlast⟩
      simp [held, pending, Outbound.segment]
  | reset hguard => exact hguard.elim
  | overdrawn retainedBytes hlive hover hguard => exact hguard.elim
  | fail hguard => exact hguard.elim
  | abandon hguard => exact hguard.elim
  | abandonReleased ack hack hguard => exact hguard.elim
  | release ack hack => exact h.release hplaced.wellFormed hack
  | take chunk rest hhand hhanded houtbound =>
    refine hmore fun segment hsegment => ?_
    rw [held, pending_of_not_inHand hhand, houtbound] at hsegment
    exact hsegment
  | putBack chunk hhand =>
    refine hmore fun segment hsegment => ?_
    rw [held, pending_of_inHand hhand] at hsegment
    exact hsegment
  | split chunk length hhand hpositive hlength =>
    intro i hfirst hlast
    refine (h i hfirst hlast).imp_right fun hcontains => ?_
    rw [held, pending_of_inHand hhand, anyContains_append] at hcontains
    exact anyContains_append.mpr (hcontains.imp_left (anyContains_split hlength))
  | handDatagram chunk replay record hhand hready hoffset hdata hfin hreplay =>
    exact hmore (mem_held_of_retain hplaced hhand hreplay)
  | handStream chunk replay hhand hready hreplay => exact hmore (mem_held_of_retain hplaced hhand hreplay)
  | _ => exact h

/-- Once the final offset is queued every written byte past the first ones is acknowledged. -/
def Finished (first : ℕ) (acknowledged : ℕ → Prop) (x : Sender) : Prop :=
  x.finQueued = true → ∀ i, first ≤ i → i < x.nextSendOffset → acknowledged i

theorem Step.finished (hstep : Step { SenderGuard.none with fin := False } x y) (hended : x.Ended)
    (h : x.Finished first acknowledged) : y.Finished first acknowledged := by
  cases hstep with
  | write bytes hbytes hshutdown =>
    intro hfin
    have htarget := (hended.finished hfin).1
    rw [hshutdown] at htarget
    cases htarget
  | release ack =>
    rw [release_eq]
    exact h
  | queueFin finalOffset hshutdown hhand hhanded houtbound hreplay hfresh hguard => exact hguard.elim
  | _ => exact h

/-- The frames of a sender only grow at the end, the final offset is among them exactly if it was queued, once,
and a sender that is shut down has written it. -/
structure FinFraming (x : Sender) : Prop where
  count : x.allFrames.countP ControlFrame.isFin = if x.finQueued then 1 else 0
  done : x.shutdownDone = true → ∃ frame ∈ x.frames, frame.isFin = true

private theorem FinFraming.wait (h : x.FinFraming) (frame : ControlFrame) (flushed : Option ℕ)
    (hframe : frame.isFin = false) :
    (x.frames ++ (x.waiting ++ [(frame, flushed)]).map Prod.fst).countP ControlFrame.isFin =
      if x.finQueued then 1 else 0 := by
  rw [← h.count, allFrames, List.map_append, ← List.append_assoc, List.countP_append]
  simp [hframe]

theorem Step.finFraming (hstep : Step guard x y) (h : x.FinFraming) : y.FinFraming := by
  cases hstep with
  | release ack =>
    rw [release_eq]
    exact ⟨h.count, h.done⟩
  | handStream chunk replay hhand hready hreplay => exact ⟨h.wait _ _ rfl, h.done⟩
  | requeue offset bytes => exact ⟨h.wait _ _ rfl, h.done⟩
  | queueFin finalOffset hshutdown hhand hhanded houtbound hreplay hfresh =>
    refine ⟨?_, h.done⟩
    have hcount : (x.frames ++ x.waiting.map Prod.fst).countP ControlFrame.isFin = 0 := by
      rw [← allFrames, h.count, hfresh]
      rfl
    rw [allFrames, List.map_append, ← List.append_assoc, List.countP_append, hcount]
    rfl
  | acknowledge contiguous ranges => exact ⟨h.wait _ _ rfl, h.done⟩
  | sendCredit maximum => exact ⟨h.wait _ _ rfl, h.done⟩
  | frameWritten frame flushed rest hwaiting =>
    refine ⟨?_, fun hdone => ?_⟩
    · rw [← h.count, allFrames, allFrames, hwaiting, List.map_cons, List.append_assoc]
      rfl
    · obtain ⟨fin, hfin, hisFin⟩ := h.done hdone
      exact ⟨fin, List.mem_append_left _ hfin, hisFin⟩
  | shutDown hfin hwaiting =>
    refine ⟨h.count, fun _ => ?_⟩
    have hcount := h.count
    rw [hfin, if_pos rfl, allFrames, hwaiting, List.map_nil, List.append_nil] at hcount
    exact List.countP_pos_iff.mp (hcount ▸ Nat.one_pos)
  | _ => exact ⟨h.count, h.done⟩

theorem Step.allFrames_isPrefix (hstep : Step guard x y) : x.allFrames <+: y.allFrames := by
  have hwait : ∀ item : ControlFrame × Option ℕ,
      x.allFrames <+: x.frames ++ (x.waiting ++ [item]).map Prod.fst := by
    intro item
    rw [List.map_append, ← List.append_assoc]
    exact List.prefix_append _ _
  cases hstep with
  | release ack =>
    rw [release_eq]
    exact List.prefix_rfl
  | handStream => exact hwait _
  | requeue => exact hwait _
  | queueFin => exact hwait _
  | acknowledge => exact hwait _
  | sendCredit => exact hwait _
  | frameWritten frame flushed rest hwaiting =>
    rw [allFrames, allFrames, hwaiting, List.map_cons, List.append_assoc]
    exact List.prefix_rfl
  | _ => exact List.prefix_rfl

theorem Steps.allFrames_isPrefix (h : Steps guard x y) : x.allFrames <+: y.allFrames := by
  induction h with
  | refl => exact List.prefix_rfl
  | tail _ hlast ih => exact ih.trans hlast.allFrames_isPrefix

end Sender

theorem Flow.queueTerminalFrames_phase (s : Flow) : s.queueTerminalFrames.phase = s.phase := by
  unfold queueTerminalFrames
  split
  · rfl
  · split
    · split
      · rfl
      · split <;> rfl
    · rfl

/-- A flow, the offset it started at and the acknowledgements it got. -/
structure AckedFlow where
  flow : Flow
  initialOffset : ℕ
  acks : List (ℕ × List Range)

namespace AckedFlow

def ackOf : FlowAction → List (ℕ × List Range)
  | .control (.ack contiguous ranges) => [(contiguous, ranges)]
  | _ => []

structure Step (x : AckedFlow) (action : FlowAction) (y : AckedFlow) : Prop where
  flow : x.flow.Step action y.flow
  unreset : y.flow.shared.locallyReset = false
  initialOffset : y.initialOffset = x.initialOffset
  acks : y.acks = x.acks ++ ackOf action

def Initial (x : AckedFlow) : Prop :=
  x.flow.Initial ∧ x.initialOffset = x.flow.shared.nextSendOffset ∧ x.acks = []

def Acknowledged (x : AckedFlow) (i : ℕ) : Prop := ∃ ack ∈ x.acks, i < ack.1 ∨ Covers ack.2 i

variable {x y : AckedFlow} {action : FlowAction}

theorem Step.acknowledged (hstep : x.Step action y) {i : ℕ} (h : x.Acknowledged i) : y.Acknowledged i := by
  obtain ⟨ack, hack, hcontains⟩ := h
  refine ⟨ack, ?_, hcontains⟩
  rw [hstep.acks]
  exact List.mem_append_left _ hack

theorem Step.release (hstep : x.Step action y) {contiguous : ℕ} {ranges : List Range} {ack : AckRanges}
    (haction : action = .control (.ack contiguous ranges))
    (hack : AckRanges.fromWire contiguous ranges x.flow.connection.maxAckRanges x.flow.shared.nextSendOffset = .ok ack)
    {i : ℕ} (h : ack.Represents i) : y.Acknowledged i := by
  refine ⟨(contiguous, ranges), ?_, (AckRanges.fromWire_represents hack i).mp h⟩
  rw [hstep.acks, haction]
  exact List.mem_append_right _ List.mem_cons_self

structure Inv (x : AckedFlow) : Prop where
  sender : x.flow.sender.Inv
  framing : x.flow.sender.FinFraming
  covered : x.flow.phase ≠ .stopped → x.flow.sender.Covered x.initialOffset x.Acknowledged
  finished : x.flow.sender.Finished x.initialOffset x.Acknowledged

theorem Initial.inv (h : x.Initial) : x.Inv := by
  obtain ⟨hflow, hoffset, _⟩ := h
  have hnone : ∀ i, x.initialOffset ≤ i → ¬i < x.flow.sender.nextSendOffset :=
    fun i hfirst => not_lt.mpr (hoffset.ge.trans hfirst)
  refine ⟨hflow.inv, ?_, fun _ i hfirst hlast => absurd hlast (hnone i hfirst),
    fun _ i hfirst hlast => absurd hlast (hnone i hfirst)⟩
  obtain ⟨_, _, _, _, _, _, hnew, _⟩ := hflow
  rw [hnew]
  exact ⟨rfl, nofun⟩

private theorem Inv.covered_step (h : x.Inv) (hstep : x.Step action y) (hrunning : y.flow.phase ≠ .stopped) :
    y.flow.sender.Covered y.initialOffset y.Acknowledged := by
  obtain ⟨hallows, happly⟩ := hstep.flow
  have hbefore : x.flow.phase ≠ .stopped := fun hstopped =>
    hrunning (happly ▸ Flow.apply_stopped hallows hstopped)
  have hknown : x.flow.sender.Covered y.initialOffset y.Acknowledged := by
    intro i hfirst hlast
    rw [hstep.initialOffset] at hfirst
    exact (h.covered hbefore i hfirst hlast).imp_left hstep.acknowledged
  have hunreset := hstep.unreset
  rw [happly] at hrunning hunreset ⊢
  have hsteps : Sender.Steps (Sender.goesOn y.Acknowledged) x.flow.sender (x.flow.apply action).sender :=
    Flow.apply_steps hallows (Flow.inHand_ne_nil h.sender)
      { Flow.meets_none x.flow action with
        release := fun _ _ _ haction hack _ hrepresents => hstep.release haction hack hrepresents
        reset := by rw [hunreset]; nofun
        stop := hrunning }
  exact hsteps.keeps (fun _ _ hlast hinv => hlast.covered hinv.placed) h.sender hknown

private theorem Inv.finished_step (h : x.Inv) (hstep : x.Step action y) :
    y.flow.sender.Finished y.initialOffset y.Acknowledged := by
  have hsender := hstep.flow.inv h.sender
  by_cases hrunning : y.flow.phase = .stopped
  · have hknown : x.flow.sender.Finished y.initialOffset y.Acknowledged := by
      intro hfin i hfirst hlast
      rw [hstep.initialOffset] at hfirst
      exact hstep.acknowledged (h.finished hfin i hfirst hlast)
    obtain ⟨hallows, happly⟩ := hstep.flow
    rw [happly] at hrunning ⊢
    have hsteps : Sender.Steps { SenderGuard.none with fin := False } x.flow.sender (x.flow.apply action).sender :=
      Flow.apply_steps hallows (Flow.inHand_ne_nil h.sender)
        { Flow.meets_none x.flow action with
          fin := by
            rintro rfl
            rw [Flow.apply, Flow.queueTerminalFrames_phase, hallows] at hrunning
            cases hrunning }
    exact hsteps.keeps (fun _ _ hlast hinv => hlast.finished hinv.ended) h.sender hknown
  · intro hfin i hfirst hlast
    obtain ⟨_, hpending, hreplay⟩ := hsender.ended.finished hfin
    rcases h.covered_step hstep hrunning i hfirst hlast with hknown | ⟨segment, hsegment, _⟩
    · exact hknown
    · rw [Sender.held, hpending, hreplay] at hsegment
      cases hsegment

theorem Inv.step (h : x.Inv) (hstep : x.Step action y) : y.Inv where
  sender := hstep.flow.inv h.sender
  framing := by
    obtain ⟨hallows, happly⟩ := hstep.flow
    rw [happly]
    have hsteps := Flow.apply_steps hallows (Flow.inHand_ne_nil h.sender) (Flow.meets_none x.flow action)
    exact hsteps.keeps (fun _ _ hlast _ => hlast.finFraming) h.sender h.framing
  covered := h.covered_step hstep
  finished := h.finished_step hstep

theorem inv_of_reachable (h : Reachable Initial Step x) : x.Inv :=
  h.invariant (fun _ hstart => hstart.inv) (fun _ _ _ hs hstep => hs.step hstep)

private theorem Inv.finQueued (h : x.Inv) {finalOffset : ℕ} (hframe : .fin finalOffset ∈ x.flow.sender.allFrames) :
    x.flow.sender.finQueued = true := by
  have hcount := h.framing.count
  have hpositive : 0 < x.flow.sender.allFrames.countP ControlFrame.isFin :=
    List.countP_pos_iff.mpr ⟨_, hframe, rfl⟩
  by_contra hnot
  rw [if_neg hnot] at hcount
  omega

private theorem enqueue_of_shutdown {shared : FlowShared} (h : shared.shutdownTarget.isSome = true)
    (bytes : List UInt8) (next : ℕ) : (shared.enqueue bytes).1 ≠ .ok (some next) := by
  unfold FlowShared.enqueue FlowShared.enqueueReady
  cases shared.error with
  | some error => exact nofun
  | none =>
    dsimp only
    rw [if_pos h]
    exact nofun

private theorem exists_cut {frames : List ControlFrame} (h : ∃ frame ∈ frames, frame.isFin = true) :
    ∃ earlier finalOffset, earlier ++ [.fin finalOffset] <+: frames := by
  obtain ⟨frame, hframe, hfin⟩ := h
  obtain ⟨earlier, later, rfl⟩ := List.append_of_mem hframe
  cases frame with
  | fin finalOffset => exact ⟨earlier, finalOffset, later, by rw [List.append_assoc]; rfl⟩
  | _ => cases hfin

/-- In every run without a local reset at most one final offset is queued. It is the number of bytes that were
accepted, with those the flow started at; all of them are acknowledged by the peer's frames and none is accepted
afterwards. Frames are only added at the end of the queue, and the shutdown is done only when the final offset and
every frame before it are written. -/
theorem halfClose_safe (h : Reachable Initial Step x) :
    x.flow.sender.allFrames.countP ControlFrame.isFin ≤ 1 ∧
      (∀ finalOffset, .fin finalOffset ∈ x.flow.sender.allFrames →
        finalOffset = x.flow.history.written.length ∧
          (∀ i, x.initialOffset ≤ i → i < finalOffset → x.Acknowledged i) ∧
          ∀ bytes next, (x.flow.shared.enqueue bytes).1 ≠ .ok (some next)) ∧
      (∀ action y, x.Step action y → x.flow.sender.allFrames <+: y.flow.sender.allFrames) ∧
      (x.flow.shared.shutdownDone = true → ∃ earlier finalOffset,
        earlier ++ [.fin finalOffset] <+: x.flow.sender.allFrames ∧
          earlier ++ [.fin finalOffset] <+: x.flow.history.frames) := by
  have hinv := inv_of_reachable h
  refine ⟨?_, fun finalOffset hframe => ?_, fun action y hstep => ?_, fun hdone => ?_⟩
  · rw [hinv.framing.count]
    split <;> omega
  · have hfin := hinv.finQueued hframe
    have htarget : x.flow.shared.shutdownTarget = some finalOffset := hinv.sender.framed.framed _ hframe
    have hoffset : finalOffset = x.flow.shared.nextSendOffset := hinv.sender.ended.target finalOffset htarget
    refine ⟨hoffset.trans hinv.sender.placed.length, fun i hfirst hlast => ?_, enqueue_of_shutdown (by rw [htarget]; rfl)⟩
    exact hinv.finished hfin i hfirst (hlast.trans_eq hoffset)
  · obtain ⟨hallows, happly⟩ := hstep.flow
    rw [happly]
    exact (Flow.apply_steps hallows (Flow.inHand_ne_nil hinv.sender)
      (Flow.meets_none x.flow action)).allFrames_isPrefix
  · obtain ⟨earlier, finalOffset, hinitial⟩ := exists_cut (hinv.framing.done hdone)
    exact ⟨earlier, finalOffset, hinitial.trans (List.prefix_append _ _), hinitial⟩

def closingRun : List FlowAction :=
  [.enqueue [7], .control (.maxOffset 100), .takeOutbound, .cutOutbound none, .sendOutbound, .wire (.written 5),
    .requestShutdown, .terminal, .control (.ack 1 []), .terminal, .wire (.written 3), .finish true]

def apply (x : AckedFlow) (action : FlowAction) : AckedFlow :=
  ⟨x.flow.apply action, x.initialOffset, x.acks ++ ackOf action⟩

theorem halfClose_safe_byte :
    (closingRun.foldl apply ⟨.sample false, 0, []⟩).flow.history.frames =
        [.streamData 0 false [7], .fin 1] ∧
      (closingRun.foldl apply ⟨.sample false, 0, []⟩).flow.shared.shutdownDone = true ∧
      (closingRun.foldl apply ⟨.sample false, 0, []⟩).Acknowledged 0 := by
  have hrun : Reachable.Permits (fun x action => x.flow.Allows action ∧
      (x.flow.apply action).shared.locallyReset = false) apply ⟨.sample false, 0, []⟩ closingRun := by
    decide +kernel
  have hreached : Reachable Initial Step (closingRun.foldl apply ⟨.sample false, 0, []⟩) :=
    Reachable.run (fun _ _ hallows => ⟨⟨hallows.1, rfl⟩, hallows.2, rfl, rfl⟩)
      (.start ⟨Flow.sample_initial false, rfl, rfl⟩) hrun
  refine ⟨by decide +kernel, by decide +kernel, ?_⟩
  exact ((halfClose_safe hreached).2.1 1 (by decide +kernel)).2.1 0 le_rfl one_pos

end AckedFlow

end Quicp
