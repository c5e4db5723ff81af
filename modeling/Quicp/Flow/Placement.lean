import Quicp.Flow.SenderRuns
import Quicp.Library.Parts

/-!
# Where a sender's bytes are

The chunks that wait, the one in hand, the replay buffer and the records on their way all hold parts of the written
bytes.
-/

namespace Quicp

open Segment

def Outbound.segment (chunk : Outbound) : ℕ × List UInt8 := (chunk.offset, chunk.bytes)

def Outbound.stop (chunk : Outbound) : ℕ := chunk.offset + chunk.bytes.length

/-- Everything that holds bytes holds parts of the written ones, and the chunks follow each other. -/
structure Placement (written : List UInt8) (nextSendOffset : ℕ) (pending : List Outbound)
    (replay : ReplayBuffer) (sources : List SourceRecord) : Prop where
  length : nextSendOffset = written.length
  wellFormed : replay.WellFormed
  parts : ∀ chunk ∈ pending, chunk.bytes ≠ [] ∧ IsPart written chunk.segment
  replayed : ∀ entry ∈ replay.chunks.entries, IsPart written entry
  sourced : ∀ record ∈ sources, record.fin = false ∧ IsPart written (record.offset, record.data)
  ordered : (pending.map Outbound.segment).Pairwise Before
  ahead : ∀ entry ∈ replay.chunks.entries, ∀ chunk ∈ pending, Before entry chunk.segment

namespace Placement

variable {written : List UInt8} {nextSendOffset : ℕ} {pending rest : List Outbound}
  {replay next : ReplayBuffer} {sources : List SourceRecord} {chunk : Outbound}

theorem stop_le (h : Placement written nextSendOffset pending replay sources) (hchunk : chunk ∈ pending) :
    chunk.stop ≤ nextSendOffset := by
  rw [h.length]
  exact (h.parts chunk hchunk).2.stop_le (h.parts chunk hchunk).1

theorem replayed_stop_le (h : Placement written nextSendOffset pending replay sources) {entry : ℕ × List UInt8}
    (hentry : entry ∈ replay.chunks.entries) : Segment.stop entry ≤ nextSendOffset := by
  rw [h.length]
  exact (h.replayed entry hentry).stop_le (h.wellFormed.nonempty entry hentry)

theorem write (h : Placement written nextSendOffset pending replay sources) {bytes : List UInt8}
    (hbytes : bytes ≠ []) :
    Placement (written ++ bytes) (nextSendOffset + bytes.length) (pending ++ [⟨nextSendOffset, bytes⟩]) replay
      sources where
  length := by rw [h.length, List.length_append]
  wellFormed := h.wellFormed
  parts := by
    intro chunk hchunk
    rcases List.mem_append.mp hchunk with hold | hnew
    · exact ⟨(h.parts chunk hold).1, (h.parts chunk hold).2.append bytes⟩
    · rw [List.mem_singleton.mp hnew, h.length]
      exact ⟨hbytes, isPart_append_right written bytes⟩
  replayed := fun entry hentry => (h.replayed entry hentry).append bytes
  sourced := fun record hrecord => ⟨(h.sourced record hrecord).1, (h.sourced record hrecord).2.append bytes⟩
  ordered := by
    rw [List.map_append, List.pairwise_append]
    refine ⟨h.ordered, List.pairwise_singleton _ _, fun left hleft right hright => ?_⟩
    obtain ⟨chunk, hchunk, rfl⟩ := List.mem_map.mp hleft
    rw [List.mem_singleton.mp hright]
    exact h.stop_le hchunk
  ahead := by
    intro entry hentry chunk hchunk
    rcases List.mem_append.mp hchunk with hold | hnew
    · exact h.ahead entry hentry chunk hold
    · rw [List.mem_singleton.mp hnew]
      exact h.replayed_stop_le hentry

theorem sublist (h : Placement written nextSendOffset pending replay sources) (hrest : rest.Sublist pending) :
    Placement written nextSendOffset rest replay sources :=
  { h with
    parts := fun chunk hchunk => h.parts chunk (hrest.mem hchunk)
    ordered := h.ordered.sublist (hrest.map _)
    ahead := fun entry hentry chunk hchunk => h.ahead entry hentry chunk (hrest.mem hchunk) }

theorem acknowledge (h : Placement written nextSendOffset pending replay sources) (ack : AckRanges) :
    Placement written nextSendOffset pending (replay.acknowledge ack).1 sources :=
  { h with
    wellFormed := (h.wellFormed.acknowledge ack).1
    replayed := fun entry hentry => h.replayed entry (ReplayBuffer.mem_of_mem_acknowledge hentry)
    ahead := fun entry hentry => h.ahead entry (ReplayBuffer.mem_of_mem_acknowledge hentry) }

theorem source (h : Placement written nextSendOffset pending replay sources) {record : SourceRecord}
    (hfin : record.fin = false) (hpart : IsPart written (record.offset, record.data)) :
    Placement written nextSendOffset pending replay (sources ++ [record]) :=
  { h with
    sourced := by
      intro other hother
      rcases List.mem_append.mp hother with hold | hnew
      · exact h.sourced other hold
      · rw [List.mem_singleton.mp hnew]
        exact ⟨hfin, hpart⟩ }

theorem split (h : Placement written nextSendOffset (chunk :: rest) replay sources) {length : ℕ}
    (hpositive : 0 < length) (hlength : length < chunk.bytes.length) :
    Placement written nextSendOffset
      (⟨chunk.offset, chunk.bytes.take length⟩ :: ⟨chunk.offset + length, chunk.bytes.drop length⟩ :: rest)
      replay sources := by
  have hpart := (h.parts chunk List.mem_cons_self).2
  have hordered := List.pairwise_cons.mp h.ordered
  have hstop : chunk.offset + length + (chunk.bytes.drop length).length = chunk.stop := by
    rw [List.length_drop, Outbound.stop]
    omega
  refine { h with parts := ?_, ordered := ?_, ahead := ?_ }
  · intro other hother
    rcases List.mem_cons.mp hother with rfl | hother
    · exact ⟨by simpa using ⟨hpositive.ne', List.ne_nil_of_length_pos (by omega)⟩, hpart.take length⟩
    · rcases List.mem_cons.mp hother with rfl | hother
      · exact ⟨by simpa using hlength, hpart.drop length⟩
      · exact h.parts other (List.mem_cons_of_mem _ hother)
  · have htail : ∀ segment ∈ rest.map Outbound.segment, chunk.stop ≤ segment.1 := hordered.1
    refine List.pairwise_cons.mpr ⟨fun segment hsegment => ?_, List.pairwise_cons.mpr ⟨?_, hordered.2⟩⟩
    · have htake : (chunk.bytes.take length).length = length := by rw [List.length_take]; omega
      change chunk.offset + (chunk.bytes.take length).length ≤ segment.1
      rw [htake]
      rcases List.mem_cons.mp hsegment with rfl | hsegment
      · exact le_rfl
      · have := htail segment hsegment
        rw [Outbound.stop] at this
        omega
    · intro segment hsegment
      change chunk.offset + length + (chunk.bytes.drop length).length ≤ segment.1
      rw [hstop]
      exact htail segment hsegment
  · intro entry hentry other hother
    have hchunk : Segment.stop entry ≤ chunk.offset := h.ahead entry hentry chunk List.mem_cons_self
    rcases List.mem_cons.mp hother with rfl | hother
    · exact hchunk
    · rcases List.mem_cons.mp hother with rfl | hother
      · exact hchunk.trans (Nat.le_add_right _ _)
      · exact h.ahead entry hentry other (List.mem_cons_of_mem _ hother)

theorem fresh (h : Placement written nextSendOffset (chunk :: rest) replay sources) :
    ∀ entry ∈ replay.chunks.entries, entry.1 ≠ chunk.offset := by
  intro entry hentry heq
  have hstop : entry.1 + entry.2.length ≤ chunk.offset := h.ahead entry hentry chunk List.mem_cons_self
  have := List.length_pos_iff.mpr (h.wellFormed.nonempty entry hentry)
  omega

theorem retain (h : Placement written nextSendOffset (chunk :: rest) replay sources)
    (hreplay : replay.retain chunk.offset chunk.bytes = .ok next) :
    Placement written nextSendOffset rest next sources := by
  have hmem : ∀ entry ∈ next.chunks.entries, entry = chunk.segment ∨ entry ∈ replay.chunks.entries :=
    fun entry hentry => List.mem_cons.mp ((ReplayBuffer.retain_perm hreplay h.fresh).mem_iff.mp hentry)
  refine { h.sublist (List.sublist_cons_self chunk rest) with
    wellFormed := h.wellFormed.retain hreplay h.fresh, replayed := ?_, ahead := ?_ }
  · intro entry hentry
    rcases hmem entry hentry with rfl | hold
    · exact (h.parts chunk List.mem_cons_self).2
    · exact h.replayed entry hold
  · intro entry hentry other hother
    rcases hmem entry hentry with rfl | hold
    · exact (List.pairwise_cons.mp h.ordered).1 other.segment (List.mem_map_of_mem hother)
    · exact h.ahead entry hold other (List.mem_cons_of_mem _ hother)

end Placement

namespace Sender

variable {guard : SenderGuard} {x y : Sender}

/-- The chunks, the replay buffer and the records of a sender are placed. -/
def Placed (x : Sender) : Prop := Placement x.written x.nextSendOffset x.pending x.replay x.sources

theorem release_eq (x : Sender) (ack : AckRanges) :
    x.release ack = { x with
      replay := (x.replay.acknowledge ack).1
      retainedBytes := (x.release ack).retainedBytes
      retainedChunks := (x.release ack).retainedChunks
      stage := (x.release ack).stage
      cursor := (x.release ack).cursor
      timer := (x.release ack).timer } := by
  unfold release settleReplay
  dsimp only
  split_ifs <;> rfl

theorem pending_of_inHand {chunk : Outbound} (h : x.inHand = some chunk) : x.pending = chunk :: x.outbound := by
  rw [pending, h]
  rfl

theorem pending_of_not_inHand (h : x.inHand = none) : x.pending = x.outbound := by
  rw [pending, h]
  rfl

theorem Step.placed (hstep : Step guard x y) (h : x.Placed) : y.Placed := by
  unfold Placed at h
  cases hstep with
  | write bytes hbytes =>
    have hwrite := h.write hbytes
    rwa [pending, List.append_assoc] at hwrite
  | reset => exact h.sublist ((List.nil_sublist _).append_left _)
  | abandon => exact h.sublist (List.nil_sublist _)
  | abandonReleased ack => exact (h.acknowledge ack).sublist (List.nil_sublist _)
  | release ack =>
    rw [release_eq]
    exact h.acknowledge ack
  | take chunk rest hhand hhanded houtbound =>
    rw [pending_of_not_inHand hhand, houtbound] at h
    exact h
  | putBack chunk hhand =>
    rw [pending_of_inHand hhand] at h
    exact h
  | split chunk length hhand hpositive hlength =>
    rw [pending_of_inHand hhand] at h
    exact h.split hpositive hlength
  | handDatagram chunk replay record hhand hready hoffset hdata hfin hreplay =>
    rw [pending_of_inHand hhand] at h
    refine (h.retain hreplay).source hfin ?_
    rw [hoffset, hdata]
    exact (h.parts chunk List.mem_cons_self).2
  | handStream chunk replay hhand hready hreplay =>
    rw [pending_of_inHand hhand] at h
    exact h.retain hreplay
  | lostSource chunk record hhand hready hoffset hdata hfin =>
    refine h.source hfin ?_
    rw [hoffset, hdata]
    exact (h.parts chunk (by rw [pending_of_inHand hhand]; exact List.mem_cons_self)).2
  | resend offset bytes record htimer hdatagrams hstage hnext hoffset hdata hfin =>
    refine h.source hfin ?_
    rw [hoffset, hdata]
    exact h.replayed _ (OrderedMap.nextAfter_eq_some hnext).1
  | _ => exact h

end Sender

end Quicp
