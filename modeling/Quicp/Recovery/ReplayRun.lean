import Quicp.Library.Reachable
import Quicp.Library.Segment
import Quicp.Recovery.ReplayBuffer

/-!
# Runs of the replay buffer

The buffer is compared with the set of chunks that were retained and not yet acknowledged in full.
-/

namespace Quicp

open Segment

def AckRanges.Acknowledges (ack : AckRanges) (chunk : ℕ × List UInt8) : Prop :=
  ∀ i, chunk.1 ≤ i → i < stop chunk → ack.Represents i

theorem AckRanges.eq_or_gap (ack : AckRanges) {left right : Range} (hleft : left ∈ ack.ranges)
    (hright : right ∈ ack.ranges) : left = right ∨ left.stop < right.start ∨ right.stop < left.start := by
  by_contra hnot
  obtain ⟨hne, hmeet⟩ := not_or.mp hnot
  have hpair : ack.ranges.Pairwise (fun a b => a.stop < b.start ∨ b.stop < a.start) := ack.separated.imp Or.inl
  have : Std.Symm (fun a b : Range => a.stop < b.start ∨ b.stop < a.start) := ⟨fun _ _ => Or.symm⟩
  exact hmeet (hpair.forall hleft hright hne)

theorem AckRanges.not_represents_stop (ack : AckRanges) {range : Range} (h : range ∈ ack.ranges) :
    ¬ack.Represents range.stop := by
  have habove := ack.above range h
  rintro (hlow | ⟨other, hother, hin⟩)
  · omega
  · have hstart := hin.1
    have hstop := hin.2
    rcases ack.eq_or_gap h hother with rfl | hgap
    · omega
    · omega

namespace ReplayBuffer

theorem covered_iff (ack : AckRanges) {chunk : ℕ × List UInt8} (hne : chunk.2 ≠ [])
    (hwire : chunk.1 + chunk.2.length ≤ maxWireOffset) : covered ack chunk = true ↔ ack.Acknowledges chunk := by
  have hlength := List.length_pos_iff.mpr hne
  rw [covered, endOf_eq hwire]
  simp only [Bool.or_eq_true, decide_eq_true_eq, List.any_eq_true]
  constructor
  · rintro (hlow | ⟨range, hmem, hstart, hstop⟩) i hfrom hto
    · exact Or.inl (hto.trans_le hlow)
    · exact Or.inr ⟨range, hmem, hstart.trans hfrom, hto.trans_le hstop⟩
  · intro hall
    rcases hall chunk.1 le_rfl (by rw [stop]; omega) with hlow | ⟨range, hmem, hin⟩
    · left
      by_contra hpast
      exact ack.not_represents_contiguous (hall _ (by omega) (by rw [stop]; omega))
    · right
      refine ⟨range, hmem, hin.1, ?_⟩
      by_contra hpast
      have hend := hin.2
      exact ack.not_represents_stop hmem (hall _ (by omega) (by rw [stop]; omega))

/-- A buffer for so many bytes: it counts its chunks, no two overlap, and it keeps both limits. -/
structure Sound (capacity : ℕ) (replay : ReplayBuffer) : Prop where
  wellFormed : replay.WellFormed
  apart : replay.chunks.entries.Pairwise Apart
  fits : replay.bytes ≤ capacity
  few : replay.chunks.length ≤ replayChunkLimit capacity
  maxBytes : replay.maxBytes = capacity
  maxChunks : replay.maxChunks = replayChunkLimit capacity

variable {replay next : ReplayBuffer} {capacity offset : ℕ} {bytes : List UInt8}

theorem new_sound (capacity : ℕ) : (ReplayBuffer.new capacity).Sound capacity :=
  ⟨new_wellFormed capacity, List.Pairwise.nil, Nat.zero_le _, Nat.zero_le _, rfl, rfl⟩

theorem Sound.bytes_le_wire (h : replay.Sound capacity) : replay.bytes ≤ maxWireOffset := by
  have hsum := sum_remaining_le 0 h.apart h.wellFormed.onWire
  rw [sum_remaining_of_past (fun _ _ => Nat.zero_le _)] at hsum
  rw [h.wellFormed.counted]
  exact hsum

theorem Sound.overlap_iff (h : replay.Sound capacity) (offset : ℕ) (hbytes : bytes ≠ []) :
    (replay.chunks.lastBelow (offset + bytes.length)).any (fun entry => decide (endOf entry > offset)) = true ↔
      ∃ chunk ∈ replay.chunks.entries, ¬Apart chunk (offset, bytes) := by
  have hlength := List.length_pos_iff.mpr hbytes
  cases hlast : replay.chunks.lastBelow (offset + bytes.length) with
  | none =>
    refine iff_of_false (by simp) ?_
    rintro ⟨chunk, hmem, hmeets⟩
    exact hmeets (Or.inr (OrderedMap.lastBelow_eq_none hlast hmem))
  | some last =>
    obtain ⟨hmem, hbelow, hgreatest⟩ := OrderedMap.lastBelow_eq_some hlast
    rw [Option.any_some, endOf_eq (h.wellFormed.onWire last hmem), decide_eq_true_eq]
    constructor
    · intro hpast
      refine ⟨last, hmem, ?_⟩
      rintro (hend | hend)
      · exact absurd hend (not_le.mpr hpast)
      · exact absurd hend (not_le.mpr hbelow)
    · rintro ⟨chunk, hchunk, hmeets⟩
      obtain ⟨hpast, hstart⟩ := not_or.mp hmeets
      have hle := hgreatest chunk hchunk (not_le.mp hstart)
      by_cases heq : chunk = last
      · rw [← heq]
        exact not_le.mp hpast
      · -- The chunk that meets the new one ends before the last one starts.
        have hpair : Std.Symm (Apart (α := UInt8)) := ⟨fun _ _ => Apart.symm⟩
        have hlastLength := List.length_pos_iff.mpr (h.wellFormed.nonempty last hmem)
        have hapart := h.apart.forall hchunk hmem heq
        simp only [Apart, stop, not_le] at hapart hpast
        omega

theorem Sound.retain_error_iff (h : replay.Sound capacity) :
    (∃ error, replay.retain offset bytes = .error error) ↔
      bytes = [] ∨ maxWireOffset < offset + bytes.length ∨ capacity < replay.bytes + bytes.length ∨
        replayChunkLimit capacity ≤ replay.chunks.length ∨
        ∃ chunk ∈ replay.chunks.entries, ¬Apart chunk (offset, bytes) := by
  by_cases hwire : offset + bytes.length ≤ maxWireOffset
  · have hsum : saturatingAdd replay.bytes bytes.length = replay.bytes + bytes.length := by
      have hbytes := h.bytes_le_wire
      have hword : 2 * maxWireOffset ≤ wordMax := by decide
      rw [saturatingAdd]
      omega
    rw [retain, checkedEnd_of_le hwire, hsum, h.maxBytes, h.maxChunks]
    dsimp only
    by_cases hnil : bytes = []
    · simp [hnil]
    · have hoverlap := h.overlap_iff offset hnil
      split_ifs with hfull hmeets
      · refine iff_of_true ⟨_, rfl⟩ ?_
        obtain hover | hover := hfull.resolve_left hnil
        · exact Or.inr (Or.inr (Or.inl hover))
        · exact Or.inr (Or.inr (Or.inr (Or.inl hover)))
      · exact iff_of_true ⟨_, rfl⟩ (Or.inr (Or.inr (Or.inr (Or.inr (hoverlap.mp hmeets)))))
      · refine iff_of_false (by simp) ?_
        rintro (hbad | hbad | hbad | hbad | hbad)
        · exact hnil hbad
        · omega
        · omega
        · omega
        · exact hmeets (hoverlap.mpr hbad)
  · rw [retain, checkedEnd_of_lt (not_le.mp hwire)]
    exact iff_of_true ⟨_, rfl⟩ (Or.inr (Or.inl (not_le.mp hwire)))

theorem Sound.apart_of_retain (h : replay.Sound capacity) (hretain : replay.retain offset bytes = .ok next) :
    ∀ chunk ∈ replay.chunks.entries, Apart chunk (offset, bytes) := by
  intro chunk hmem
  by_contra hmeets
  obtain ⟨error, herror⟩ := h.retain_error_iff.mpr (Or.inr (Or.inr (Or.inr (Or.inr ⟨chunk, hmem, hmeets⟩))))
  rw [hretain] at herror
  cases herror

theorem Sound.fresh_of_retain (h : replay.Sound capacity) (hretain : replay.retain offset bytes = .ok next) :
    ∀ chunk ∈ replay.chunks.entries, chunk.1 ≠ offset := by
  intro chunk hmem heq
  have hnew := List.length_pos_iff.mpr (retain_eq_ok hretain).1
  have hold := List.length_pos_iff.mpr (h.wellFormed.nonempty chunk hmem)
  have hapart := h.apart_of_retain hretain chunk hmem
  simp only [Apart, stop] at hapart
  omega

theorem Sound.retain (h : replay.Sound capacity) (hretain : replay.retain offset bytes = .ok next) :
    next.Sound capacity := by
  have hfresh := h.fresh_of_retain hretain
  have hperm := retain_perm hretain hfresh
  have hnext := (retain_eq_ok hretain).2.2
  have hroom : ¬(capacity < replay.bytes + bytes.length ∨ replayChunkLimit capacity ≤ replay.chunks.length) := by
    intro hfull
    obtain ⟨error, herror⟩ := h.retain_error_iff.mpr (Or.inr (Or.inr (hfull.imp id Or.inl)))
    rw [hretain] at herror
    cases herror
  refine ⟨h.wellFormed.retain hretain hfresh, ?_, ?_, ?_, ?_, ?_⟩
  · rw [hperm.pairwise_iff Apart.symm, List.pairwise_cons]
    exact ⟨fun chunk hmem => (h.apart_of_retain hretain chunk hmem).symm, h.apart⟩
  · rw [hnext]
    exact not_lt.mp fun hover => hroom (Or.inl hover)
  · rw [OrderedMap.length, hperm.length_eq, List.length_cons]
    exact not_le.mp fun hfull => hroom (Or.inr hfull)
  · rw [hnext]
    exact h.maxBytes
  · rw [hnext]
    exact h.maxChunks

theorem Sound.mem_acknowledge (h : replay.Sound capacity) (ack : AckRanges) (chunk : ℕ × List UInt8) :
    chunk ∈ (replay.acknowledge ack).1.chunks.entries ↔
      chunk ∈ replay.chunks.entries ∧ ¬ack.Acknowledges chunk := by
  have hfilter : (replay.acknowledge ack).1.chunks.entries =
      replay.chunks.entries.filter (fun entry => !covered ack entry) := rfl
  rw [hfilter, List.mem_filter, Bool.not_eq_true', ← Bool.not_eq_true]
  refine and_congr_right fun hmem => not_congr ?_
  exact covered_iff ack (h.wellFormed.nonempty chunk hmem) (h.wellFormed.onWire chunk hmem)

theorem Sound.acknowledge (h : replay.Sound capacity) (ack : AckRanges) :
    (replay.acknowledge ack).1.Sound capacity := by
  obtain ⟨hwellFormed, hbytes, hchunks⟩ := h.wellFormed.acknowledge ack
  have hfits := h.fits
  have hfew := h.few
  exact ⟨hwellFormed, h.apart.filter _, by omega, by omega, h.maxBytes, h.maxChunks⟩

/-- The chunks that calls of `next_chunk_after` visit, each from the offset of the one before. -/
def visit (replay : ReplayBuffer) : ℕ → Option ℕ → List (ℕ × List UInt8)
  | 0, _ => []
  | turns + 1, last =>
    match replay.nextChunkAfter last with
    | none => []
    | some chunk => chunk :: replay.visit turns (some chunk.1)

theorem visit_eq {before after : List (ℕ × List UInt8)} (hsplit : replay.chunks.entries = before ++ after)
    {turns : ℕ} (hturns : after.length ≤ turns) {last : Option ℕ}
    (hbefore : ∀ chunk ∈ before, ∃ key ∈ last, chunk.1 ≤ key) (hafter : ∀ chunk ∈ after, ∀ key ∈ last, key < chunk.1) :
    replay.visit turns last = after := by
  induction turns generalizing before after last with
  | zero => rw [visit, List.length_eq_zero_iff.mp (Nat.le_zero.mp hturns)]
  | succ turns ih =>
    have hnext : replay.nextChunkAfter last = after.head? := replay.chunks.nextAfter_of_split hsplit hbefore hafter
    cases after with
    | nil => rw [visit, hnext, List.head?_nil]
    | cons chunk rest =>
      have hsorted := replay.chunks.sorted
      rw [hsplit, List.pairwise_append, List.pairwise_cons] at hsorted
      have hlater : replay.chunks.entries = (before ++ [chunk]) ++ rest := by rw [hsplit, List.append_cons]
      rw [visit, hnext, List.head?_cons]
      refine congrArg (chunk :: ·) (ih hlater (Nat.le_of_succ_le_succ hturns) ?_ ?_)
      · intro earlier hmem
        refine ⟨chunk.1, rfl, ?_⟩
        rcases List.mem_append.mp hmem with hmem | hmem
        · exact (hsorted.2.2 earlier hmem chunk List.mem_cons_self).le
        · rw [List.mem_singleton.mp hmem]
      · rintro later hmem key ⟨⟩
        exact hsorted.2.1.1 later hmem

theorem visit_all {turns : ℕ} (hturns : replay.chunks.length ≤ turns) :
    replay.visit turns none = replay.chunks.entries :=
  visit_eq (List.nil_append _).symm hturns (fun _ hmem => absurd hmem List.not_mem_nil) (fun _ _ _ hkey => nomatch hkey)

end ReplayBuffer

inductive ReplayAction
  | retain (offset : ℕ) (bytes : List UInt8)
  | acknowledge (ack : AckRanges)

/-- A buffer, and the chunks that were retained and never acknowledged as a whole. -/
structure ReplayRun where
  buffer : ReplayBuffer
  unacknowledged : Set (ℕ × List UInt8)

namespace ReplayRun

def applyBuffer (buffer : ReplayBuffer) : ReplayAction → ReplayBuffer
  | .retain offset bytes =>
    match buffer.retain offset bytes with
    | .ok next => next
    | .error _ => buffer
  | .acknowledge ack => (buffer.acknowledge ack).1

def Step (run : ReplayRun) (action : ReplayAction) (next : ReplayRun) : Prop :=
  next.buffer = applyBuffer run.buffer action ∧
    match action with
    | .retain offset bytes =>
      (∀ buffer, run.buffer.retain offset bytes = .ok buffer →
        next.unacknowledged = insert (offset, bytes) run.unacknowledged) ∧
      ∀ error, run.buffer.retain offset bytes = .error error → next.unacknowledged = run.unacknowledged
    | .acknowledge ack => next.unacknowledged = {chunk ∈ run.unacknowledged | ¬ack.Acknowledges chunk}

def Initial (capacity : ℕ) (run : ReplayRun) : Prop := run.buffer = ReplayBuffer.new capacity ∧ run.unacknowledged = ∅

structure Inv (capacity : ℕ) (run : ReplayRun) : Prop where
  sound : run.buffer.Sound capacity
  holds : ∀ chunk, chunk ∈ run.buffer.chunks.entries ↔ chunk ∈ run.unacknowledged

theorem Inv.step {capacity : ℕ} {run next : ReplayRun} {action : ReplayAction} (h : run.Inv capacity)
    (hstep : Step run action next) : next.Inv capacity := by
  obtain ⟨hbuffer, hset⟩ := hstep
  cases action with
  | acknowledge ack =>
    constructor
    · rw [hbuffer]
      exact h.sound.acknowledge ack
    · intro chunk
      rw [hbuffer, hset, Set.mem_ofPred_eq, ← h.holds chunk]
      exact h.sound.mem_acknowledge ack chunk
  | retain offset bytes =>
    cases hretain : run.buffer.retain offset bytes with
    | error error =>
      have hsame : next.buffer = run.buffer := by rw [hbuffer, applyBuffer, hretain]
      exact ⟨hsame ▸ h.sound, fun chunk => by rw [hsame, hset.2 error hretain, h.holds chunk]⟩
    | ok buffer =>
      have hnext : next.buffer = buffer := by rw [hbuffer, applyBuffer, hretain]
      refine ⟨hnext ▸ h.sound.retain hretain, fun chunk => ?_⟩
      rw [hnext, hset.1 buffer hretain, Set.mem_insert_iff, ← h.holds chunk,
        (ReplayBuffer.retain_perm hretain (h.sound.fresh_of_retain hretain)).mem_iff, List.mem_cons]

theorem inv_of_reachable {capacity : ℕ} {run : ReplayRun} (h : Reachable (Initial capacity) Step run) :
    run.Inv capacity := by
  refine h.invariant (P := fun run => run.Inv capacity) ?_ fun _ _ _ hinv hstep => hinv.step hstep
  rintro ⟨buffer, unacknowledged⟩ ⟨hbuffer, hset⟩
  dsimp only at hbuffer hset
  subst hbuffer hset
  exact ⟨ReplayBuffer.new_sound capacity, fun chunk => by simp [ReplayBuffer.new, OrderedMap.empty]⟩

/-- In every run the replay buffer holds exactly the unacknowledged chunks with their bytes, apart from each other and
within both limits. `retain` fails exactly for the stated reasons and changes nothing then, an acknowledgement takes the
chunks it represents as a whole and counts them, and iteration visits every chunk once in the order of offsets. -/
theorem replay_buffer_exact {capacity : ℕ} {run : ReplayRun} (h : Reachable (Initial capacity) Step run) :
    ((∀ chunk, chunk ∈ run.buffer.chunks.entries ↔ chunk ∈ run.unacknowledged) ∧
      run.buffer.chunks.entries.Pairwise Apart ∧
      run.buffer.bytes = ReplayBuffer.totalBytes run.buffer.chunks.entries ∧ run.buffer.bytes ≤ capacity ∧
      run.buffer.chunks.length ≤ replayChunkLimit capacity) ∧
    (∀ offset bytes,
      ((∃ error, run.buffer.retain offset bytes = .error error) ↔
        bytes = [] ∨ maxWireOffset < offset + bytes.length ∨ capacity < run.buffer.bytes + bytes.length ∨
          replayChunkLimit capacity ≤ run.buffer.chunks.length ∨
          ∃ chunk ∈ run.buffer.chunks.entries, ¬Apart chunk (offset, bytes)) ∧
      ∀ error, run.buffer.retain offset bytes = .error error →
        applyBuffer run.buffer (.retain offset bytes) = run.buffer) ∧
    (∀ ack, (∀ chunk, chunk ∈ (run.buffer.acknowledge ack).1.chunks.entries ↔
        chunk ∈ run.buffer.chunks.entries ∧ ¬ack.Acknowledges chunk) ∧
      (run.buffer.acknowledge ack).1.bytes + (run.buffer.acknowledge ack).2.1 = run.buffer.bytes ∧
      (run.buffer.acknowledge ack).1.chunks.length + (run.buffer.acknowledge ack).2.2 = run.buffer.chunks.length) ∧
    ∀ turns, run.buffer.chunks.length ≤ turns →
      run.buffer.visit turns none = run.buffer.chunks.entries ∧
      (run.buffer.visit turns none).Pairwise (fun left right => left.1 < right.1) := by
  obtain ⟨hsound, hholds⟩ := inv_of_reachable h
  refine ⟨⟨hholds, hsound.apart, hsound.wellFormed.counted, hsound.fits, hsound.few⟩, fun offset bytes =>
    ⟨hsound.retain_error_iff, fun error herror => by rw [applyBuffer, herror]⟩, fun ack =>
    ⟨hsound.mem_acknowledge ack, (hsound.wellFormed.acknowledge ack).2⟩, fun turns hturns => ?_⟩
  rw [ReplayBuffer.visit_all hturns]
  exact ⟨rfl, run.buffer.chunks.sorted⟩

theorem replay_buffer_exact_chunk :
    ((applyBuffer (ReplayBuffer.new 64) (.retain 0 [7, 9])).visit 1 none = [(0, [7, 9])]) ∧
      ∀ ack : AckRanges, ¬ack.Represents 1 →
        (0, [7, 9]) ∈ ((applyBuffer (ReplayBuffer.new 64) (.retain 0 [7, 9])).acknowledge ack).1.chunks.entries := by
  have hstep : Step ⟨ReplayBuffer.new 64, ∅⟩ (.retain 0 [7, 9])
      ⟨applyBuffer (ReplayBuffer.new 64) (.retain 0 [7, 9]), insert (0, [7, 9]) ∅⟩ := ⟨rfl, fun _ _ => rfl, nofun⟩
  have hreached : Reachable (Initial 64) Step _ := .next (.start ⟨rfl, rfl⟩) hstep
  obtain ⟨-, -, hack, hvisit⟩ := replay_buffer_exact hreached
  refine ⟨(hvisit 1 (by decide)).1, fun ack hnot => ((hack ack).1 _).mpr ⟨List.mem_singleton_self _, fun hall => ?_⟩⟩
  exact hnot (hall 1 (by decide) (by decide))

end ReplayRun

end Quicp
