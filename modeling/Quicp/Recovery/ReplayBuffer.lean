import Quicp.Recovery.AckRanges
import Quicp.Recovery.Reassembler

/-!
# The replay buffer

Chunks that were handed to the network stay here until an acknowledgement covers them.
The buffer is bounded in bytes and in chunks, and its chunks never overlap.
-/

namespace Quicp

structure ReplayBuffer where
  chunks : OrderedMap ℕ (List UInt8)
  bytes : ℕ
  maxBytes : ℕ
  maxChunks : ℕ

namespace ReplayBuffer

def new (maxBytes : ℕ) : ReplayBuffer := ⟨.empty, 0, maxBytes, replayChunkLimit maxBytes⟩

/-- The end of a chunk, with the wire limit in place of an end past it. -/
def endOf (entry : ℕ × List UInt8) : ℕ :=
  match checkedEnd entry.1 entry.2.length with
  | .ok stop => stop
  | .error _ => maxWireOffset

def retain (replay : ReplayBuffer) (offset : ℕ) (bytes : List UInt8) : Except RecoveryError ReplayBuffer :=
  match checkedEnd offset bytes.length with
  | .error error => .error error
  | .ok stop =>
    if bytes = [] ∨ saturatingAdd replay.bytes bytes.length > replay.maxBytes ∨
        replay.chunks.length ≥ replay.maxChunks then .error .capacity
    else if (replay.chunks.lastBelow stop).any (fun entry => decide (endOf entry > offset)) then
      .error .contradictoryOverlap
    else .ok { replay with
      bytes := replay.bytes + bytes.length
      chunks := replay.chunks.insert offset bytes }

def covered (ack : AckRanges) (entry : ℕ × List UInt8) : Bool :=
  decide (endOf entry ≤ ack.contiguous) ||
    ack.ranges.any (fun range => decide (entry.1 ≥ range.start ∧ endOf entry ≤ range.stop))

def totalBytes (entries : List (ℕ × List UInt8)) : ℕ := (entries.map (fun entry => entry.2.length)).sum

/-- `acknowledge`: drop the covered chunks; the bytes and the chunks released. -/
def acknowledge (replay : ReplayBuffer) (ack : AckRanges) : ReplayBuffer × ℕ × ℕ :=
  let chunks := replay.chunks.retain (fun offset bytes => !covered ack (offset, bytes))
  let bytes := replay.bytes - totalBytes (replay.chunks.entries.filter (covered ack))
  ({ replay with chunks := chunks, bytes := bytes }, replay.bytes - bytes, replay.chunks.length - chunks.length)

def nextChunkAfter (replay : ReplayBuffer) (lastOffset : Option ℕ) : Option (ℕ × List UInt8) :=
  replay.chunks.nextAfter lastOffset

structure WellFormed (replay : ReplayBuffer) : Prop where
  counted : replay.bytes = totalBytes replay.chunks.entries
  nonempty : ∀ entry ∈ replay.chunks.entries, entry.2 ≠ []
  onWire : ∀ entry ∈ replay.chunks.entries, entry.1 + entry.2.length ≤ maxWireOffset

variable {replay next : ReplayBuffer} {offset : ℕ} {bytes : List UInt8}

theorem new_wellFormed (maxBytes : ℕ) : (ReplayBuffer.new maxBytes).WellFormed :=
  ⟨rfl, by simp [new, OrderedMap.empty], by simp [new, OrderedMap.empty]⟩

private theorem totalBytes_perm {left right : List (ℕ × List UInt8)} (h : left.Perm right) :
    totalBytes left = totalBytes right := (h.map _).sum_eq

theorem retain_eq_ok (h : replay.retain offset bytes = .ok next) :
    bytes ≠ [] ∧ offset + bytes.length ≤ maxWireOffset ∧
      next = { replay with
        bytes := replay.bytes + bytes.length
        chunks := replay.chunks.insert offset bytes } := by
  unfold retain at h
  cases hend : checkedEnd offset bytes.length with
  | error error => simp [hend] at h
  | ok stop =>
    simp only [hend] at h
    split_ifs at h with hroom hover
    exact ⟨fun hnil => hroom (Or.inl hnil), (checkedEnd_eq_ok hend).2, (Except.ok.inj h).symm⟩

private theorem totalBytes_eq_zero {entries : List (ℕ × List UInt8)} (h : ∀ entry ∈ entries, entry.2 ≠ []) :
    totalBytes entries = 0 ↔ entries = [] := by
  constructor
  · intro hzero
    refine List.eq_nil_iff_forall_not_mem.mpr fun entry hentry => h entry hentry ?_
    exact List.length_eq_zero_iff.mp (List.sum_eq_zero_iff.mp hzero _ (List.mem_map_of_mem hentry))
  · rintro rfl
    rfl

theorem WellFormed.bytes_eq_zero (h : replay.WellFormed) : replay.bytes = 0 ↔ replay.chunks.entries = [] := by
  rw [h.counted]
  exact totalBytes_eq_zero h.nonempty

theorem retain_perm (h : replay.retain offset bytes = .ok next)
    (hfresh : ∀ entry ∈ replay.chunks.entries, entry.1 ≠ offset) :
    next.chunks.entries.Perm ((offset, bytes) :: replay.chunks.entries) := by
  rw [(retain_eq_ok h).2.2]
  exact OrderedMap.insertEntries_perm _ _ _ hfresh

theorem WellFormed.retain (hreplay : replay.WellFormed) (h : replay.retain offset bytes = .ok next)
    (hfresh : ∀ entry ∈ replay.chunks.entries, entry.1 ≠ offset) : next.WellFormed := by
  obtain ⟨hbytes, hwire, hnext⟩ := retain_eq_ok h
  have hperm := retain_perm h hfresh
  refine ⟨?_, fun entry hentry => ?_, fun entry hentry => ?_⟩
  · rw [totalBytes_perm hperm, hnext, totalBytes, List.map_cons, List.sum_cons, add_comm, hreplay.counted]
    rfl
  · rcases List.mem_cons.mp (hperm.mem_iff.mp hentry) with rfl | hold
    · exact hbytes
    · exact hreplay.nonempty entry hold
  · rcases List.mem_cons.mp (hperm.mem_iff.mp hentry) with rfl | hold
    · exact hwire
    · exact hreplay.onWire entry hold

variable {entry : ℕ × List UInt8}

theorem endOf_eq (h : entry.1 + entry.2.length ≤ maxWireOffset) :
    endOf entry = entry.1 + entry.2.length := by
  unfold endOf
  rw [checkedEnd_of_le h]

theorem retain_of_room (hbytes : bytes ≠ []) (hwire : offset + bytes.length ≤ maxWireOffset)
    (hroom : replay.bytes + bytes.length ≤ replay.maxBytes) (hchunks : replay.chunks.length < replay.maxChunks)
    (hpast : ∀ entry ∈ replay.chunks.entries, entry.1 + entry.2.length ≤ offset) :
    replay.retain offset bytes = .ok { replay with
      bytes := replay.bytes + bytes.length
      chunks := replay.chunks.insert offset bytes } := by
  have hfits : ¬(bytes = [] ∨ saturatingAdd replay.bytes bytes.length > replay.maxBytes ∨
      replay.chunks.length ≥ replay.maxChunks) := by
    rw [saturatingAdd]
    rintro (hnil | hover | hfull)
    · exact hbytes hnil
    · omega
    · omega
  have hclear : (replay.chunks.lastBelow (offset + bytes.length)).any
      (fun entry => decide (endOf entry > offset)) = false := by
    cases hlast : replay.chunks.lastBelow (offset + bytes.length) with
    | none => rfl
    | some entry =>
      have hbefore := hpast entry (OrderedMap.lastBelow_eq_some hlast).1
      rw [Option.any_some, endOf_eq (by omega)]
      exact decide_eq_false (not_lt.mpr hbefore)
  unfold retain
  rw [checkedEnd_of_le hwire]
  dsimp only
  rw [if_neg hfits, hclear]
  rfl

private theorem acknowledge_split (replay : ReplayBuffer) (ack : AckRanges) :
    ((replay.acknowledge ack).1.chunks.entries ++ replay.chunks.entries.filter (covered ack)).Perm
      replay.chunks.entries := by
  have hperm := replay.chunks.retain_perm (fun offset bytes => !covered ack (offset, bytes))
  simpa [acknowledge] using hperm

theorem mem_of_mem_acknowledge {ack : AckRanges}
    (h : entry ∈ (replay.acknowledge ack).1.chunks.entries) : entry ∈ replay.chunks.entries :=
  (acknowledge_split replay ack).mem_iff.mp (List.mem_append_left _ h)

theorem mem_acknowledge_or_covered (ack : AckRanges) (h : entry ∈ replay.chunks.entries) :
    entry ∈ (replay.acknowledge ack).1.chunks.entries ∨ covered ack entry = true := by
  rcases List.mem_append.mp ((acknowledge_split replay ack).mem_iff.mpr h) with hkept | hfiltered
  · exact Or.inl hkept
  · exact Or.inr (List.mem_filter.mp hfiltered).2

theorem WellFormed.acknowledge (h : replay.WellFormed) (ack : AckRanges) :
    (replay.acknowledge ack).1.WellFormed ∧
      (replay.acknowledge ack).1.bytes + (replay.acknowledge ack).2.1 = replay.bytes ∧
      (replay.acknowledge ack).1.chunks.length + (replay.acknowledge ack).2.2 = replay.chunks.length := by
  have hsplit := acknowledge_split replay ack
  have hbytes := totalBytes_perm hsplit
  have hlength := hsplit.length_eq
  rw [totalBytes, List.map_append, List.sum_append, ← totalBytes, ← totalBytes, ← h.counted] at hbytes
  rw [List.length_append] at hlength
  have hleft : (replay.acknowledge ack).1.bytes = replay.bytes -
    totalBytes (replay.chunks.entries.filter (covered ack)) := rfl
  have hreleased : (replay.acknowledge ack).2.1 = replay.bytes - (replay.acknowledge ack).1.bytes := rfl
  have hdropped : (replay.acknowledge ack).2.2 =
    replay.chunks.entries.length - (replay.acknowledge ack).1.chunks.entries.length := rfl
  refine ⟨⟨by omega, fun entry hentry => h.nonempty entry (mem_of_mem_acknowledge hentry),
    fun entry hentry => h.onWire entry (mem_of_mem_acknowledge hentry)⟩, by omega, ?_⟩
  simp only [OrderedMap.length]
  omega

theorem WellFormed.released_chunks (h : replay.WellFormed) {ack : AckRanges}
    (hzero : (replay.acknowledge ack).2.1 = 0) : (replay.acknowledge ack).2.2 = 0 := by
  have hsplit := acknowledge_split replay ack
  obtain ⟨hnext, hbytes, hchunks⟩ := h.acknowledge ack
  have htotal := totalBytes_perm hsplit
  rw [totalBytes, List.map_append, List.sum_append, ← totalBytes, ← totalBytes, ← h.counted,
    ← hnext.counted] at htotal
  have hcovered : replay.chunks.entries.filter (covered ack) = [] :=
    (totalBytes_eq_zero fun entry hentry => h.nonempty entry (List.mem_of_mem_filter hentry)).mp (by omega)
  have hlength := hsplit.length_eq
  rw [hcovered, List.append_nil] at hlength
  simp only [OrderedMap.length] at hchunks
  omega

end ReplayBuffer

end Quicp
