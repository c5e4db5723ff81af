import Quicp.Flow.Placement

/-!
# What counts as retained

The counters of retained bytes and chunks are what waits, what the task has in hand and what the replay buffer holds,
and stay within the limits of the replay buffer.
-/

namespace Quicp

open Segment

def pendingBytes (pending : List Outbound) : ℕ := (pending.map (fun chunk => chunk.bytes.length)).sum

/-- What counts as retained is what waits or is replayed, within the limits. -/
structure Retention (retainedBytes retainedChunks replayLimit chunkLimit : ℕ) (pending : List Outbound)
    (replay : ReplayBuffer) : Prop where
  bytes : retainedBytes = pendingBytes pending + replay.bytes
  chunks : retainedChunks = pending.length + replay.chunks.length
  bytesLimit : retainedBytes ≤ replayLimit
  chunksLimit : retainedChunks ≤ chunkLimit
  limitValid : replayLimit ≤ maxFlowBufferBytes
  maxBytes : replay.maxBytes = replayLimit
  maxChunks : replay.maxChunks = chunkLimit

namespace Retention

variable {retainedBytes retainedChunks replayLimit chunkLimit : ℕ} {pending rest : List Outbound}
  {replay next : ReplayBuffer} {chunk : Outbound}

theorem write (h : Retention retainedBytes retainedChunks replayLimit chunkLimit pending replay) (offset : ℕ)
    {bytes : List UInt8} (hroom : saturatingAdd retainedBytes bytes.length ≤ replayLimit)
    (hchunks : retainedChunks < chunkLimit) :
    Retention (retainedBytes + bytes.length) (retainedChunks + 1) replayLimit chunkLimit
      (pending ++ [⟨offset, bytes⟩]) replay := by
  have hvalid := h.limitValid
  have hsum := h.bytes
  refine { h with bytes := ?_, chunks := ?_, bytesLimit := ?_, chunksLimit := hchunks }
  · simp only [pendingBytes, List.map_append, List.map_cons, List.map_nil, List.sum_append, List.sum_cons,
      List.sum_nil] at hsum ⊢
    omega
  · rw [h.chunks, List.length_append, List.length_singleton]
    omega
  · simp only [saturatingAdd, maxFlowBufferBytes, wordMax] at hroom hvalid ⊢
    omega

theorem split (h : Retention retainedBytes retainedChunks replayLimit chunkLimit (chunk :: rest) replay)
    {length : ℕ} (hlength : length < chunk.bytes.length) (hchunks : retainedChunks < chunkLimit) :
    Retention retainedBytes (retainedChunks + 1) replayLimit chunkLimit
      (⟨chunk.offset, chunk.bytes.take length⟩ :: ⟨chunk.offset + length, chunk.bytes.drop length⟩ :: rest)
      replay := by
  have hsum := h.bytes
  have hcount := h.chunks
  refine { h with bytes := ?_, chunks := ?_, chunksLimit := hchunks }
  · simp only [pendingBytes, List.map_cons, List.sum_cons, List.length_take, List.length_drop] at hsum ⊢
    omega
  · simp only [List.length_cons] at hcount ⊢
    omega

theorem retain (h : Retention retainedBytes retainedChunks replayLimit chunkLimit (chunk :: rest) replay)
    (hreplay : replay.retain chunk.offset chunk.bytes = .ok next)
    (hfresh : ∀ entry ∈ replay.chunks.entries, entry.1 ≠ chunk.offset) :
    Retention retainedBytes retainedChunks replayLimit chunkLimit rest next := by
  have hsum := h.bytes
  have hcount := h.chunks
  have hlength := (ReplayBuffer.retain_perm hreplay hfresh).length_eq
  have hnext := (ReplayBuffer.retain_eq_ok hreplay).2.2
  have hbytes : next.bytes = replay.bytes + chunk.bytes.length := by rw [hnext]
  refine { h with bytes := ?_, chunks := ?_, maxBytes := ?_, maxChunks := ?_ }
  · simp only [pendingBytes, List.map_cons, List.sum_cons] at hsum ⊢
    omega
  · simp only [OrderedMap.length, List.length_cons] at hcount hlength ⊢
    omega
  · rw [hnext]
    exact h.maxBytes
  · rw [hnext]
    exact h.maxChunks

theorem discard (h : Retention retainedBytes retainedChunks replayLimit chunkLimit (pending ++ rest) replay) :
    Retention (retainedBytes - pendingBytes rest) (retainedChunks - rest.length) replayLimit chunkLimit pending
      replay := by
  have hsum := h.bytes
  have hcount := h.chunks
  have hlimits := And.intro h.bytesLimit h.chunksLimit
  rw [pendingBytes, List.map_append, List.sum_append, ← pendingBytes, ← pendingBytes] at hsum
  rw [List.length_append] at hcount
  exact { h with bytes := by omega, chunks := by omega, bytesLimit := by omega, chunksLimit := by omega }

theorem exists_retain (h : Retention retainedBytes retainedChunks replayLimit chunkLimit (chunk :: rest) replay)
    (hbytes : chunk.bytes ≠ []) (hwire : chunk.stop ≤ maxWireOffset)
    (hahead : ∀ entry ∈ replay.chunks.entries, Before entry chunk.segment) :
    ∃ next, replay.retain chunk.offset chunk.bytes = .ok next := by
  have hsum := h.bytes
  have hcount := h.chunks
  have hlimits := And.intro h.bytesLimit h.chunksLimit
  simp only [pendingBytes, List.map_cons, List.sum_cons, List.length_cons] at hsum hcount
  have hroom : replay.bytes + chunk.bytes.length ≤ replay.maxBytes := by
    rw [h.maxBytes]
    omega
  have hchunks : replay.chunks.length < replay.maxChunks := by
    rw [h.maxChunks]
    omega
  exact ⟨_, ReplayBuffer.retain_of_room hbytes hwire hroom hchunks hahead⟩

end Retention

end Quicp
