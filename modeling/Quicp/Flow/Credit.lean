import Quicp.Flow.ReceiveRun
import Quicp.Recovery.AcceptRecord

/-!
# Advertised credit and the storage behind it

A flow advertises one window of bytes past its read position, and its reassembler has that many bytes. The reassembler
also bounds the number of chunks, which the credit does not count.
-/

namespace Quicp

open Segment

variable {s : FlowShared} {budget : RecoveryMemoryBudget} {stream : FirstWriter UInt8}

theorem ReceiveInv.stop_le_credit (h : ReceiveInv s budget stream) {segment : ℕ × List UInt8}
    (hsegment : segment ∈ s.receive.segments) : stop segment ≤ s.maxReceiveOffset := by
  have hnonempty := h.wellFormed.nonempty segment hsegment
  have hlast : (elementAt segment (stop segment - 1)).isSome :=
    (elementAt_isSome_iff _ _).mpr ⟨by omega, by omega⟩
  obtain ⟨a, ha⟩ := Option.isSome_iff_exists.mp hlast
  have hfirst := (firstElement_eq_some_iff h.wellFormed.apart _ _).mpr ⟨segment, hsegment, ha⟩
  have := h.within (stop segment - 1) (Or.inr (by rw [hfirst]; rfl))
  omega

theorem ReceiveInv.next_le_credit (h : ReceiveInv s budget stream) :
    s.receive.nextOffset ≤ s.maxReceiveOffset := by
  by_contra hlt
  have := h.within s.maxReceiveOffset (Or.inl (not_le.mp hlt))
  omega

theorem ReceiveInv.room_of_credit (h : ReceiveInv s budget stream) {clipped : ℕ × List UInt8}
    (hstart : s.receive.nextOffset ≤ clipped.1) (hstop : stop clipped ≤ s.maxReceiveOffset) :
    s.receive.bytes + totalLength (openGaps s.receive.segments clipped) ≤ s.receive.maxBytes := by
  have hsorted := s.receive.segments_sorted
  have hpast : ∀ piece ∈ pieces s.receive.segments clipped, s.receive.nextOffset ≤ piece.1 :=
    fun piece hpiece => hstart.trans (bounds_of_mem_pieces hpiece).1
  have hapart : (s.receive.segments ++ pieces s.receive.segments clipped).Pairwise Apart :=
    List.pairwise_append.mpr ⟨h.wellFormed.apart, pieces_apart, fun segment hsegment piece hpiece =>
      apart_of_mem_pieces hsorted hsegment (h.wellFormed.nonempty segment hsegment) hpiece⟩
  have hlimit : ∀ segment ∈ s.receive.segments ++ pieces s.receive.segments clipped,
      stop segment ≤ s.maxReceiveOffset := by
    intro segment hsegment
    rcases List.mem_append.mp hsegment with hsegment | hpiece
    · exact h.stop_le_credit hsegment
    · exact (bounds_of_mem_pieces hpiece).2.2.trans hstop
  have hsum := sum_remaining_le s.receive.nextOffset hapart hlimit
  rw [List.map_append, List.sum_append, ← h.wellFormed.counted, sum_remaining_of_past hpast,
    sum_length_pieces] at hsum
  have hcredit := h.credit
  rw [h.window, totalLength]
  omega

theorem FlowShared.insertBytes_ok_iff {record : ℕ × List UInt8} {fin : Bool}
    (hcredit : stop record ≤ s.maxReceiveOffset)
    (hvalid : s.received.validateInsert ⟨record.1, stop record⟩ = .ok ()) :
    (s.insertBytes budget record.1 record.2 fin).1 = .ok () ↔
      (s.receive.insertRecord budget record.1 record.2 fin).1 = .ok () := by
  have hwire := (AckRanges.validateInsert_eq_ok.mp hvalid).1.2
  have hend : checkedAdd record.1 record.2.length = some (stop record) :=
    if_pos (hwire.trans (by decide))
  obtain ⟨received, hreceived⟩ := AckRanges.exists_insert_of_valid hvalid
  simp only [FlowShared.insertBytes, FlowShared.insertBytesWithReservation, hend,
    if_neg (not_lt.mpr hcredit), hvalid, Reassembler.insertWithCharge]
  generalize s.receive.insertRecord budget record.1 record.2 fin = out
  obtain ⟨result, receive, after⟩ := out
  cases result with
  | error error => simp
  | ok value => simp [FlowShared.recordReceived, hreceived]

theorem ReceiveInv.maxChunks_lt (h : ReceiveInv s budget stream) : s.receive.maxChunks < wordMax := by
  have hbounded := h.bounded
  have hwindow : maxFlowBufferBytes < wordMax := by decide
  have hword : 8 < wordMax := by decide
  rw [h.chunkLimit]
  unfold replayChunkLimit divCeil
  omega

/-- In every state of every run, a nonempty record within the advertised credit that agrees with the
accepted bytes, respects the final offset and finds room in the acknowledgement ranges and in memory is
accepted exactly when the chunks it adds fit the chunk limit. -/
theorem accepted_within_credit_iff {s : ReceiveRun}
    (h : Reachable ReceiveRun.Initial ReceiveRun.Step s) (record : ℕ × List UInt8) (fin : Bool)
    (hbytes : record.2 ≠ []) (hcredit : stop record ≤ s.shared.maxReceiveOffset)
    (hagrees : ∀ i a b, firstElement s.stream.accepted i = some a → elementAt record i = some b → a = b)
    (hfinal : s.shared.receive.AdmitsEnd (stop record) fin)
    (hvalid : s.shared.received.validateInsert ⟨record.1, stop record⟩ = .ok ())
    (hmemory : s.budget.used + s.shared.receive.memoryNeeded record ≤ s.budget.limit) :
    (s.shared.insertBytes s.budget record.1 record.2 fin).1 = .ok () ↔
      s.shared.receive.newFragments record = 0 ∨
        s.shared.receive.chunks.length + s.shared.receive.newFragments record ≤
          s.shared.receive.maxChunks := by
  have hinv : ReceiveInv s.shared s.budget s.stream := ReceiveRun.inv_of_reachable h
  have hwire := (AckRanges.validateInsert_eq_ok.mp hvalid).1.2
  have hbuffered : s.shared.receive.AgreesWith record :=
    fun i a b hleft hright => hagrees i a b (hinv.refines.buffered i a hleft) hright
  have hroom : s.shared.receive.bytes +
      totalLength (openGaps s.shared.receive.segments (s.shared.receive.unreadPart record)) ≤
        s.shared.receive.maxBytes := by
    refine hinv.room_of_credit (le_max_right _ _) ?_
    rw [s.shared.receive.stop_unreadPart]
    exact max_le hcredit hinv.next_le_credit
  rw [FlowShared.insertBytes_ok_iff hcredit hvalid]
  exact hinv.wellFormed.insertRecord_ok_iff hinv.identity hbytes hwire hbuffered hfinal hinv.maxChunks_lt
    hroom hmemory

theorem accepted_within_credit_iff_first :
    (ReceiveRun.sample.shared.insertBytes ReceiveRun.sample.budget 0 [1, 2] true).1 = .ok () :=
  (accepted_within_credit_iff ReceiveRun.sample_reachable (0, [1, 2]) true (by decide) (by decide)
    (fun i a b hleft _ => by simp [ReceiveRun.sample, FirstWriter.empty, firstElement] at hleft)
    ⟨by decide, by decide⟩ (by decide) (by decide)).mpr (by decide)

/-- Eight one-byte records fill the chunk limit of a small buffer, and the ninth is refused although only eight of 512
bytes are buffered. -/
theorem refused_within_credit :
    ∃ s : ReceiveRun, Reachable ReceiveRun.Initial ReceiveRun.Step s ∧
      stop (8, [(9 : UInt8)]) ≤ s.shared.maxReceiveOffset ∧
      (∀ i a b, firstElement s.stream.accepted i = some a → elementAt (8, [(9 : UInt8)]) i = some b → a = b) ∧
      s.shared.receive.AdmitsEnd 9 false ∧
      s.shared.received.validateInsert ⟨8, 9⟩ = .ok () ∧
      s.budget.used + s.shared.receive.memoryNeeded (8, [9]) ≤ s.budget.limit ∧
      s.shared.receive.bytes = 8 ∧
      (s.shared.insertBytes s.budget 8 [9] false).1 = .err .capacity := by
  have h0 := ReceiveRun.sample_reachable.next
    (show ReceiveRun.Step _ (.insertBytes 0 [1] false) _ from ⟨trivial, rfl⟩)
  have h1 := h0.next (show ReceiveRun.Step _ (.insertBytes 1 [2] false) _ from ⟨trivial, rfl⟩)
  have h2 := h1.next (show ReceiveRun.Step _ (.insertBytes 2 [3] false) _ from ⟨trivial, rfl⟩)
  have h3 := h2.next (show ReceiveRun.Step _ (.insertBytes 3 [4] false) _ from ⟨trivial, rfl⟩)
  have h4 := h3.next (show ReceiveRun.Step _ (.insertBytes 4 [5] false) _ from ⟨trivial, rfl⟩)
  have h5 := h4.next (show ReceiveRun.Step _ (.insertBytes 5 [6] false) _ from ⟨trivial, rfl⟩)
  have h6 := h5.next (show ReceiveRun.Step _ (.insertBytes 6 [7] false) _ from ⟨trivial, rfl⟩)
  have h7 := h6.next (show ReceiveRun.Step _ (.insertBytes 7 [8] false) _ from ⟨trivial, rfl⟩)
  refine ⟨_, h7, by decide, fun i a b hleft hright => ?_, ⟨by decide, by decide⟩, by decide, by decide,
    by decide, by decide⟩
  have hbounds := bounds_of_elementAt hright
  have hi : i = 8 := by
    simp only [stop, List.length_singleton] at hbounds
    omega
  subst hi
  have hopen := hleft.symm.trans (show firstElement _ 8 = none by decide)
  cases hopen

end Quicp
