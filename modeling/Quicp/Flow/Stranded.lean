import Quicp.Flow.SenderInv

/-!
# No chunk is left without a way to the peer

While the replay timer is armed the replay goes on, so a chunk of the replay buffer may still be on its way as a
datagram.
-/

namespace Quicp

/-- The walk of the replay: with the timer off every chunk is queued, and a walk with stream data has
queued everything up to its cursor, which is behind the chunks not handed over yet. -/
structure Walk (queued : List ℕ) (replay : ReplayBuffer) (timer : Bool) (stage : ReplayStage)
    (datagrams : Bool) (cursor : Option ℕ) (nextSendOffset : ℕ) (pending : List Outbound) : Prop where
  settled : timer = false → ∀ entry ∈ replay.chunks.entries, entry.1 ∈ queued
  swept : stage = .reliableFallback ∨ datagrams = false →
    ∀ key ∈ cursor, ∀ entry ∈ replay.chunks.entries, entry.1 ≤ key → entry.1 ∈ queued
  behind : ∀ key ∈ cursor, key < nextSendOffset ∧ ∀ chunk ∈ pending, key < chunk.offset

namespace Walk

variable {queued : List ℕ} {replay next : ReplayBuffer} {timer datagrams : Bool} {stage : ReplayStage}
  {cursor : Option ℕ} {nextSendOffset : ℕ} {pending others : List Outbound} {chunk : Outbound}

theorem restart (h : Walk queued replay timer stage datagrams cursor nextSendOffset pending)
    (hmem : ∀ entry ∈ next.chunks.entries, entry ∈ replay.chunks.entries) (anyTimer : Bool)
    (htimer : anyTimer = false → timer = false ∨ next.chunks.entries = []) (anyStage : ReplayStage) :
    Walk queued next anyTimer anyStage datagrams none nextSendOffset pending where
  settled := by
    intro hoff entry hentry
    rcases htimer hoff with hidle | hempty
    · exact h.settled hidle entry (hmem entry hentry)
    · rw [hempty] at hentry
      cases hentry
  swept := nofun
  behind := nofun

theorem shrink (h : Walk queued replay timer stage datagrams cursor nextSendOffset pending)
    (hmem : ∀ entry ∈ next.chunks.entries, entry ∈ replay.chunks.entries) :
    Walk queued next timer stage datagrams cursor nextSendOffset pending :=
  { h with
    settled := fun hidle entry hentry => h.settled hidle entry (hmem entry hentry)
    swept := fun hfallback key hkey entry hentry => h.swept hfallback key hkey entry (hmem entry hentry) }

theorem pend (h : Walk queued replay timer stage datagrams cursor nextSendOffset pending) {stop : ℕ}
    (hstop : nextSendOffset ≤ stop)
    (hothers : ∀ chunk ∈ others, nextSendOffset ≤ chunk.offset ∨ ∃ old ∈ pending, old.offset ≤ chunk.offset) :
    Walk queued replay timer stage datagrams cursor stop others :=
  { h with
    behind := by
      intro key hkey
      obtain ⟨hnext, hpending⟩ := h.behind key hkey
      refine ⟨hnext.trans_le hstop, fun chunk hchunk => ?_⟩
      rcases hothers chunk hchunk with hlast | ⟨old, hold, hle⟩
      · exact hnext.trans_le hlast
      · exact (hpending old hold).trans_le hle }

theorem retain (h : Walk queued replay timer stage datagrams cursor nextSendOffset (chunk :: others))
    (hmem : ∀ entry ∈ next.chunks.entries, entry = chunk.segment ∨ entry ∈ replay.chunks.entries)
    (hfresh : ∀ entry ∈ replay.chunks.entries, entry.1 ≠ chunk.offset) :
    Walk (queued.filter (· ≠ chunk.offset)) next true stage datagrams cursor nextSendOffset others where
  settled := nofun
  swept := by
    intro hfallback key hkey entry hentry hle
    rcases hmem entry hentry with rfl | hold
    · exact absurd ((h.behind key hkey).2 chunk List.mem_cons_self) (not_lt.mpr hle)
    · exact List.mem_filter.mpr ⟨h.swept hfallback key hkey entry hold hle, by simpa using hfresh entry hold⟩
  behind := fun key hkey =>
    ⟨(h.behind key hkey).1, fun other hother => (h.behind key hkey).2 other (List.mem_cons_of_mem _ hother)⟩

theorem retainQueued (h : Walk queued replay timer stage datagrams cursor nextSendOffset (chunk :: others))
    (hmem : ∀ entry ∈ next.chunks.entries, entry = chunk.segment ∨ entry ∈ replay.chunks.entries)
    (hfresh : ∀ entry ∈ replay.chunks.entries, entry.1 ≠ chunk.offset) :
    Walk (chunk.offset :: queued.filter (· ≠ chunk.offset)) next timer stage datagrams cursor nextSendOffset
      others where
  settled := by
    intro hidle entry hentry
    rcases hmem entry hentry with rfl | hold
    · exact List.mem_cons_self
    · refine List.mem_cons_of_mem _ (List.mem_filter.mpr ⟨h.settled hidle entry hold, ?_⟩)
      simpa using hfresh entry hold
  swept := fun hfallback key hkey entry hentry hle =>
    List.mem_cons_of_mem _ ((h.retain hmem hfresh).swept hfallback key hkey entry hentry hle)
  behind := (h.retain hmem hfresh).behind

theorem advance (h : Walk queued replay timer stage datagrams cursor nextSendOffset pending)
    (hfallback : stage = .reliableFallback ∨ datagrams = false) {entry : ℕ × List UInt8}
    (hnext : replay.nextChunkAfter cursor = some entry)
    (hbehind : entry.1 < nextSendOffset ∧ ∀ chunk ∈ pending, entry.1 < chunk.offset) :
    Walk (entry.1 :: queued) replay timer stage datagrams (some entry.1) nextSendOffset pending where
  settled := fun hidle other hother => List.mem_cons_of_mem _ (h.settled hidle other hother)
  swept := by
    intro _ key hkey other hother hle
    obtain rfl : entry.1 = key := Option.some.inj hkey
    obtain ⟨_, _, hleast⟩ := OrderedMap.nextAfter_eq_some hnext
    by_cases hpast : ∀ key ∈ cursor, key < other.1
    · rw [le_antisymm hle (hleast other hother hpast)]
      exact List.mem_cons_self
    · push Not at hpast
      obtain ⟨key, hkey, hbefore⟩ := hpast
      exact List.mem_cons_of_mem _ (h.swept hfallback key hkey other hother hbefore)
  behind := by
    intro key hkey
    obtain rfl : entry.1 = key := Option.some.inj hkey
    exact hbehind

end Walk

namespace Sender

variable {guard : SenderGuard} {x y : Sender}

def Walks (x : Sender) : Prop :=
  Walk x.queued x.replay x.timer x.stage x.datagrams x.cursor x.nextSendOffset x.pending

/-- Datagrams are switched off only before the walk has started, or while it uses stream data. -/
def safeSwitch : SenderGuard :=
  { SenderGuard.none with switchOff := fun cursor stage => cursor = none ∨ stage = .reliableFallback }

theorem release_walk (x : Sender) (ack : AckRanges) (hreplay : x.replay.WellFormed) :
    ((x.release ack).cursor = none ∧
      ((x.release ack).timer = false → x.timer = false ∨ (x.replay.acknowledge ack).1.chunks.entries = [])) ∨
    ((x.release ack).cursor = x.cursor ∧ (x.release ack).timer = x.timer ∧ (x.release ack).stage = x.stage) := by
  have hempty := (hreplay.acknowledge ack).1.bytes_eq_zero
  unfold release settleReplay
  dsimp only
  by_cases hreleased : (x.replay.acknowledge ack).2.1 ≠ 0
  · rw [if_pos hreleased]
    by_cases hbytes : (x.replay.acknowledge ack).1.bytes = 0
    · rw [if_pos hbytes]
      exact Or.inl ⟨rfl, fun _ => Or.inr (hempty.mp hbytes)⟩
    · rw [if_neg hbytes]
      refine Or.inl ⟨rfl, fun htimer => Or.inl ?_⟩
      exact (Bool.or_eq_false_iff.mp htimer).1
  · rw [if_neg hreleased]
    by_cases hbytes : (x.replay.acknowledge ack).1.bytes = 0
    · rw [if_pos hbytes]
      exact Or.inl ⟨rfl, fun _ => Or.inr (hempty.mp hbytes)⟩
    · rw [if_neg hbytes]
      exact Or.inr ⟨rfl, rfl, rfl⟩

theorem Placed.behind (h : x.Placed) {entry : ℕ × List UInt8} (hentry : entry ∈ x.replay.chunks.entries) :
    entry.1 < x.nextSendOffset ∧ ∀ chunk ∈ x.pending, entry.1 < chunk.offset := by
  have hlength := List.length_pos_iff.mpr (h.wellFormed.nonempty entry hentry)
  have hstop : entry.1 + entry.2.length ≤ x.nextSendOffset := h.replayed_stop_le hentry
  refine ⟨by omega, fun chunk hchunk => ?_⟩
  have hbefore : entry.1 + entry.2.length ≤ chunk.offset := h.ahead entry hentry chunk hchunk
  omega

theorem Step.walks (hstep : Step safeSwitch x y) (hinv : x.Inv) (h : x.Walks) : y.Walks := by
  unfold Walks at h
  cases hstep with
  | write bytes =>
    refine h.pend (Nat.le_add_right _ _) fun chunk hchunk => ?_
    rw [pending, ← List.append_assoc] at hchunk
    rcases List.mem_append.mp hchunk with hold | hnew
    · exact Or.inr ⟨chunk, hold, le_rfl⟩
    · rw [List.mem_singleton.mp hnew]
      exact Or.inl le_rfl
  | reset =>
    refine h.pend le_rfl fun chunk hchunk => Or.inr ⟨chunk, ?_, le_rfl⟩
    exact ((List.nil_sublist _).append_left _).mem hchunk
  | abandon => exact h.pend le_rfl (List.forall_mem_nil _)
  | abandonReleased ack =>
    exact (h.shrink fun _ => ReplayBuffer.mem_of_mem_acknowledge).pend le_rfl (List.forall_mem_nil _)
  | release ack =>
    have hmem : ∀ entry ∈ (x.replay.acknowledge ack).1.chunks.entries, entry ∈ x.replay.chunks.entries :=
      fun _ => ReplayBuffer.mem_of_mem_acknowledge
    rcases x.release_walk ack hinv.placed.wellFormed with ⟨hcursor, htimer⟩ | ⟨hcursor, htimer, hstage⟩
    · rw [Walks, release_eq]
      dsimp only
      rw [hcursor]
      exact h.restart hmem _ htimer _
    · rw [Walks, release_eq]
      dsimp only
      rw [hcursor, htimer, hstage]
      exact h.shrink hmem
  | switchOff hguard =>
    refine { h with swept := fun _ => ?_ }
    rcases hguard with hcursor | hstage
    · rw [hcursor]
      simp
    · exact h.swept (Or.inl hstage)
  | take chunk rest hhand hhanded houtbound =>
    rw [pending_of_not_inHand hhand, houtbound] at h
    exact h
  | putBack chunk hhand =>
    rw [pending_of_inHand hhand] at h
    exact h
  | split chunk length hhand =>
    rw [pending_of_inHand hhand] at h
    refine h.pend le_rfl fun other hother => Or.inr ?_
    rcases List.mem_cons.mp hother with rfl | hother
    · exact ⟨chunk, List.mem_cons_self, le_rfl⟩
    · rcases List.mem_cons.mp hother with rfl | hother
      · exact ⟨chunk, List.mem_cons_self, Nat.le_add_right _ _⟩
      · exact ⟨other, List.mem_cons_of_mem _ hother, le_rfl⟩
  | handDatagram chunk replay record hhand hready hoffset hdata hfin hreplay =>
    have hmem := hinv.placed.mem_of_retain hhand hreplay
    have hplaced := hinv.placed
    rw [Placed, pending_of_inHand hhand] at hplaced
    rw [pending_of_inHand hhand] at h
    exact h.retain hmem hplaced.fresh
  | handStream chunk replay hhand hready hreplay =>
    have hmem := hinv.placed.mem_of_retain hhand hreplay
    have hplaced := hinv.placed
    rw [Placed, pending_of_inHand hhand] at hplaced
    rw [pending_of_inHand hhand] at h
    exact h.retainQueued hmem hplaced.fresh
  | replayIdle hempty =>
    exact h.restart (fun _ => id) _ (fun _ => Or.inr (hinv.placed.wellFormed.bytes_eq_zero.mp hempty)) _
  | toSource hdatagrams => exact { h with swept := by simp [hdatagrams] }
  | resend offset bytes record htimer hdatagrams hstage hnext =>
    refine { h with swept := by simp [hdatagrams, hstage], behind := fun key hkey => ?_ }
    obtain rfl : offset = key := Option.some.inj hkey
    exact hinv.placed.behind (OrderedMap.nextAfter_eq_some hnext).1
  | toFallback => exact h.restart (fun _ => id) _ Or.inl _
  | requeue offset bytes htimer hfallback hnext =>
    exact h.advance hfallback hnext (hinv.placed.behind (OrderedMap.nextAfter_eq_some hnext).1)
  | fallbackDone htimer hfallback hnext =>
    refine ⟨fun _ entry hentry => ?_, (by simp), (by simp)⟩
    obtain ⟨key, hkey, hle⟩ := OrderedMap.nextAfter_eq_none hnext hentry
    exact h.swept hfallback key hkey entry hentry hle
  | armTimer => exact { h with settled := by simp }
  | _ => exact h

end Sender

namespace Flow

variable {s t : Flow} {action : FlowAction}

/-- A step that switches the flow's datagrams off finds a replay that has not started its walk, or that
walks with stream data. -/
def SwitchesSafely (s t : Flow) : Prop :=
  s.task.datagramEnabled = true → t.task.datagramEnabled = false →
    s.task.replayCursor = none ∨ s.task.replayStage = .reliableFallback

instance (s t : Flow) : Decidable (s.SwitchesSafely t) := by
  unfold SwitchesSafely
  infer_instance

def SafeStep (s : Flow) (action : FlowAction) (t : Flow) : Prop := s.Step action t ∧ s.SwitchesSafely t

theorem SafeStep.walks (hstep : s.SafeStep action t) (hinv : s.sender.Inv) (h : s.sender.Walks) :
    t.sender.Walks := by
  obtain ⟨⟨hallows, rfl⟩, hswitch⟩ := hstep
  have hsteps : Sender.Steps Sender.safeSwitch s.sender (s.apply action).sender :=
    apply_steps hallows (inHand_ne_nil hinv) { meets_none s action with switchOff := hswitch }
  exact hsteps.keeps (fun _ _ => Sender.Step.walks) hinv h

theorem Initial.walks (h : s.Initial) : s.sender.Walks := by
  obtain ⟨flowId, config, adaptive, connection, budget, early, rfl, _⟩ := h
  exact ⟨nofun, nofun, nofun⟩

end Flow

/-- In every run that switches datagrams off safely, a chunk that is still held when the replay timer is
off was queued as stream data since it was retained. -/
theorem queued_of_timer_off {s : Flow} (h : Reachable Flow.Initial Flow.SafeStep s)
    (htimer : s.task.replayTimer = false) :
    ∀ entry ∈ s.task.replay.chunks.entries, entry.1 ∈ s.history.queued := by
  have hboth := h.invariant (P := fun s => s.sender.Inv ∧ s.sender.Walks)
    (fun _ hstart => ⟨hstart.inv, hstart.walks⟩)
    (fun _ _ _ hs hstep => ⟨hstep.1.inv hs.1, hstep.walks hs.1 hs.2⟩)
  exact hboth.2.settled htimer

theorem queued_of_timer_off_stream :
    0 ∈ ((Flow.sample false).run [.enqueue [7], .control (.maxOffset 100), .takeOutbound, .cutOutbound none,
      .sendOutbound]).history.queued := by
  have hrun : Reachable.Permits (fun s action => s.Allows action ∧ s.SwitchesSafely (s.apply action)) Flow.apply
      (Flow.sample false)
      [.enqueue [7], .control (.maxOffset 100), .takeOutbound, .cutOutbound none, .sendOutbound] := by
    decide +kernel
  exact queued_of_timer_off
    (Reachable.run (fun _ _ h => ⟨⟨h.1, rfl⟩, h.2⟩) (.start (Flow.sample_initial false)) hrun)
    (by decide +kernel) (0, [7]) (by decide +kernel)

def strandingRun : List FlowAction :=
  [.enqueue [1], .enqueue [2], .control (.maxOffset 100)] ++ Flow.handOver ++ Flow.handOver ++
    [.replay ⟨true, true, 0, .ok 0⟩, .replay ⟨true, true, 0, .ok 0⟩,
      .connection ((Flow.sample true).connection.disableDatagrams), .replay ⟨false, true, 0, .ok 0⟩,
      .wire (.written 5), .replay ⟨false, true, 0, .ok 0⟩]

/-- The run leaves a live flow with its timer off and a chunk that was never queued. -/
theorem stranded_chunk :
    ∃ s : Flow, Reachable Flow.Initial Flow.Step s ∧ s.Live ∧ s.task.replayTimer = false ∧
      ∃ entry ∈ s.task.replay.chunks.entries, entry.1 ∉ s.history.queued := by
  have hrun : Reachable.Permits Flow.Allows Flow.apply (Flow.sample true) strandingRun := by decide +kernel
  refine ⟨_, Reachable.run (fun _ _ h => ⟨h, rfl⟩) (.start (Flow.sample_initial true)) hrun, ?_, ?_, (0, [1]), ?_, ?_⟩
  · exact ⟨by decide +kernel, by decide +kernel⟩
  · decide +kernel
  · decide +kernel
  · decide +kernel

end Quicp
