import Quicp.Recovery.ReassemblerInsert

/-!
# What reading and releasing do to the reassembler

A read copies the run of buffered bytes at the read position, moves the position past it, and keeps every later byte.
-/

namespace Quicp

open Segment

variable {r : Reassembler} {budget : RecoveryMemoryBudget}

/-- What a read does: the output is the run at the read position, which moves past it. -/
structure Consumed (r next : Reassembler) (output : List UInt8) : Prop where
  wellFormed : next.WellFormed
  advanced : next.nextOffset = r.nextOffset + output.length
  copied : ∀ k < output.length, output[k]? = firstElement r.segments (r.nextOffset + k)
  unread : ∀ i, next.nextOffset ≤ i → firstElement next.segments i = firstElement r.segments i
  kept : ∀ i a, firstElement next.segments i = some a → firstElement r.segments i = some a
  acknowledgedOffset : next.acknowledgedOffset = r.acknowledgedOffset
  finalOffset : next.finalOffset = r.finalOffset
  maxBytes : next.maxBytes = r.maxBytes
  maxChunks : next.maxChunks = r.maxChunks
  memoryBudget : next.memoryBudget = r.memoryBudget

theorem Reassembler.WellFormed.consumed_nil (hr : r.WellFormed) : Consumed r r [] :=
  ⟨hr, rfl, by simp, fun _ _ => rfl, fun _ _ h => h, rfl, rfl, rfl, rfl, rfl⟩

theorem Consumed.trans {next last : Reassembler} {output later : List UInt8}
    (h : Consumed r next output) (h' : Consumed next last later) : Consumed r last (output ++ later) where
  wellFormed := h'.wellFormed
  advanced := by rw [h'.advanced, h.advanced, List.length_append, Nat.add_assoc]
  copied := by
    intro k hk
    by_cases hfront : k < output.length
    · rw [List.getElem?_append_left hfront]
      exact h.copied k hfront
    · have hlater : k - output.length < later.length := by
        rw [List.length_append] at hk
        omega
      have hposition : next.nextOffset + (k - output.length) = r.nextOffset + k := by
        rw [h.advanced]
        omega
      rw [List.getElem?_append_right (not_lt.mp hfront), h'.copied _ hlater, hposition]
      exact h.unread _ (by rw [← hposition]; exact Nat.le_add_right _ _)
  unread := by
    intro i hi
    have hnext : next.nextOffset ≤ i := le_trans (by rw [h'.advanced]; exact Nat.le_add_right _ _) hi
    rw [h'.unread i hi, h.unread i hnext]
  kept := fun i a hat => h.kept i a (h'.kept i a hat)
  acknowledgedOffset := h'.acknowledgedOffset.trans h.acknowledgedOffset
  finalOffset := h'.finalOffset.trans h.finalOffset
  maxBytes := h'.maxBytes.trans h.maxBytes
  maxChunks := h'.maxChunks.trans h.maxChunks
  memoryBudget := h'.memoryBudget.trans h.memoryBudget

section Release

variable {kept : OrderedMap ℕ BufferedChunk} {dropped : List (ℕ × BufferedChunk)}

private theorem segments_perm (hperm : (kept.entries ++ dropped).Perm r.chunks.entries) :
    (kept.entries.map chunkSegment ++ dropped.map chunkSegment).Perm r.segments := by
  rw [← List.map_append]
  exact hperm.map _

private theorem mem_of_dropped (hperm : (kept.entries ++ dropped).Perm r.chunks.entries)
    {segment : ℕ × List UInt8} (h : segment ∈ kept.entries.map chunkSegment) : segment ∈ r.segments :=
  (segments_perm hperm).mem_iff.mp (List.mem_append_left _ h)

theorem Reassembler.WellFormed.release (hr : r.WellFormed)
    (hperm : (kept.entries ++ dropped).Perm r.chunks.entries)
    (hbefore : ∀ entry ∈ dropped, stop (chunkSegment entry) ≤ r.nextOffset) :
    Reassembler.WellFormed { r with chunks := kept } where
  apart := by
    have hall := ((segments_perm hperm).pairwise_iff fun h => Apart.symm h).mpr hr.apart
    exact (List.pairwise_append.mp hall).1
  nonempty := fun segment h => hr.nonempty segment (mem_of_dropped hperm h)
  onWire := fun segment h => hr.onWire segment (mem_of_dropped hperm h)
  counted := by
    have hsum := ((segments_perm hperm).map (remaining r.nextOffset)).sum_eq
    have hzero : ((dropped.map chunkSegment).map (remaining r.nextOffset)).sum = 0 := by
      refine List.sum_eq_zero fun count hcount => ?_
      simp only [List.map_map, List.mem_map, Function.comp] at hcount
      obtain ⟨entry, hentry, rfl⟩ := hcount
      exact remaining_eq_zero (hbefore entry hentry)
    rw [List.map_append, List.sum_append, hzero, Nat.add_zero, ← hr.counted] at hsum
    exact hsum.symm
  nextOnWire := hr.nextOnWire
  finalPast := fun finalOffset h =>
    ⟨(hr.finalPast finalOffset h).1,
      fun segment hsegment => (hr.finalPast finalOffset h).2 segment (mem_of_dropped hperm hsegment)⟩

private theorem firstElement_split (hr : r.WellFormed)
    (hperm : (kept.entries ++ dropped).Perm r.chunks.entries) (i : ℕ) :
    firstElement r.segments i = (firstElement (kept.entries.map chunkSegment) i).or
      (firstElement (dropped.map chunkSegment) i) := by
  rw [firstElement_perm (segments_perm hperm).symm hr.apart, firstElement_append]

theorem Reassembler.WellFormed.consumed_release (hr : r.WellFormed)
    (hperm : (kept.entries ++ dropped).Perm r.chunks.entries)
    (hbefore : ∀ entry ∈ dropped, stop (chunkSegment entry) ≤ r.nextOffset) :
    Consumed r { r with chunks := kept } [] where
  wellFormed := hr.release hperm hbefore
  advanced := rfl
  copied := by simp
  unread := by
    intro i hi
    have hnone : firstElement (dropped.map chunkSegment) i = none := by
      rw [firstElement_eq_none_iff]
      intro segment hsegment
      obtain ⟨entry, hentry, rfl⟩ := List.mem_map.mp hsegment
      exact (elementAt_eq_none_iff _ _).mpr (Or.inr ((hbefore entry hentry).trans hi))
    rw [firstElement_split hr hperm, hnone, Option.or_none]
    rfl
  kept := by
    intro i a hat
    have hkept : firstElement (kept.entries.map chunkSegment) i = some a := hat
    rw [firstElement_split hr hperm, hkept, Option.some_or]
  acknowledgedOffset := rfl
  finalOffset := rfl
  maxBytes := rfl
  maxChunks := rfl
  memoryBudget := rfl

theorem Reassembler.charged_split (hperm : (kept.entries ++ dropped).Perm r.chunks.entries) :
    r.charged = Reassembler.charged { r with chunks := kept } +
      (dropped.map (fun entry => entry.2.charge.heldOf r.memoryBudget)).sum := by
  unfold Reassembler.charged
  rw [← (hperm.map _).sum_eq, List.map_append, List.sum_append]

end Release

variable {entry : ℕ × BufferedChunk}

theorem Reassembler.candidate_eq_some (h : r.candidate = some entry) :
    entry ∈ r.chunks.entries ∧ entry.1 ≤ r.nextOffset ∧ r.nextOffset < stop (chunkSegment entry) := by
  obtain ⟨hlast, hpast⟩ := Option.filter_eq_some_iff.mp h
  obtain ⟨hmem, hle, _⟩ := OrderedMap.lastUpTo_eq_some hlast
  refine ⟨hmem, hle, ?_⟩
  cases hend : checkedEnd entry.1 entry.2.bytes.length with
  | error error => simp [hend] at hpast
  | ok last =>
    obtain ⟨rfl, _⟩ := checkedEnd_eq_ok hend
    have hlt : r.nextOffset < entry.1 + entry.2.bytes.length := by simpa [hend] using hpast
    exact hlt

theorem Reassembler.WellFormed.open_of_candidate_none (hr : r.WellFormed) (h : r.candidate = none) :
    firstElement r.segments r.nextOffset = none := by
  rw [firstElement_eq_none_iff]
  intro segment hsegment
  obtain ⟨entry, hentry, rfl⟩ := List.mem_map.mp hsegment
  rw [elementAt_eq_none_iff]
  by_contra hcovers
  obtain ⟨hstart, hstop⟩ := not_or.mp hcovers
  have hkey : entry.1 ≤ r.nextOffset := not_lt.mp hstart
  cases hlast : r.chunks.lastUpTo r.nextOffset with
  | none =>
    have := OrderedMap.lastUpTo_eq_none hlast hentry
    omega
  | some last =>
    obtain ⟨hmem, hle, hgreatest⟩ := OrderedMap.lastUpTo_eq_some hlast
    have hlastSegment : chunkSegment last ∈ r.segments := List.mem_map_of_mem hmem
    have hdone : stop (chunkSegment last) ≤ r.nextOffset := by
      simpa [Reassembler.candidate, hlast, Option.filter_some, checkedEnd_chunk (hr.onWire _ hlastSegment)]
        using h
    exact hstop ((hr.stop_le_stop hentry hmem (hgreatest entry hentry hkey)).trans hdone)

theorem Reassembler.WellFormed.consumed_advance (hr : r.WellFormed) {segment : ℕ × List UInt8} {count : ℕ}
    (hmem : segment ∈ r.segments) (hstart : segment.1 ≤ r.nextOffset)
    (hstop : r.nextOffset + count ≤ stop segment) :
    Consumed r (r.advance count)
      (slice segment.2 (r.nextOffset - segment.1) (r.nextOffset - segment.1 + count)) := by
  have hlength : (slice segment.2 (r.nextOffset - segment.1) (r.nextOffset - segment.1 + count)).length =
      count := by
    simp only [slice, List.length_take, List.length_drop]
    simp only [stop] at hstop
    omega
  have hcounted := sum_remaining_advance hr.apart hmem hstart hstop
  refine ⟨⟨hr.apart, hr.nonempty, hr.onWire, ?_, ?_, ?_⟩, ?_, ?_, fun _ _ => rfl, fun _ _ h => h,
    rfl, rfl, rfl, rfl, rfl⟩
  · change r.bytes - count = (r.segments.map (remaining (r.nextOffset + count))).sum
    rw [hr.counted]
    omega
  · exact hstop.trans (hr.onWire segment hmem)
  · intro finalOffset hfinal
    exact ⟨hstop.trans ((hr.finalPast finalOffset hfinal).2 segment hmem), (hr.finalPast finalOffset hfinal).2⟩
  · rw [hlength]
    rfl
  · intro k hk
    rw [hlength] at hk
    have hin : k < r.nextOffset - segment.1 + count - (r.nextOffset - segment.1) := by omega
    have hat : elementAt segment (r.nextOffset + k) = segment.2[r.nextOffset - segment.1 + k]? := by
      rw [elementAt_of_le (by omega)]
      congr 1
      omega
    rw [slice, List.getElem?_take_of_lt hin, List.getElem?_drop, ← hat]
    cases helement : elementAt segment (r.nextOffset + k) with
    | none =>
      have := (elementAt_eq_none_iff _ _).mp helement
      omega
    | some a => exact ((firstElement_eq_some_iff hr.apart _ a).mpr ⟨segment, hmem, helement⟩).symm

theorem Reassembler.WellFormed.readChunk_consumed (hr : r.WellFormed)
    (hid : budget.identity = r.memoryBudget) (hheld : r.charged ≤ budget.used)
    (hentry : r.candidate = some entry) (room : ℕ) :
    Consumed r (r.readChunk budget room entry).2.1 (r.readChunk budget room entry).1 ∧
      Balanced budget (r.readChunk budget room entry).2.2 r.charged
        (r.readChunk budget room entry).2.1.charged := by
  obtain ⟨hmem, hstart, hpast⟩ := Reassembler.candidate_eq_some hentry
  have hsegment : chunkSegment entry ∈ r.segments := List.mem_map_of_mem hmem
  have hstop : r.nextOffset + r.readCount room entry ≤ stop (chunkSegment entry) := by
    simp only [stop, chunkSegment, Reassembler.readCount] at hpast ⊢
    omega
  have hadvance : Consumed r (r.advance (r.readCount room entry)) (slice entry.2.bytes
      (r.nextOffset - entry.1) (r.nextOffset - entry.1 + r.readCount room entry)) :=
    hr.consumed_advance hsegment hstart hstop
  unfold Reassembler.readChunk
  dsimp only
  split_ifs with hdone
  · have hperm : ((r.chunks.erase entry.1).entries ++ [entry]).Perm
        (r.advance (r.readCount room entry)).chunks.entries := OrderedMap.erase_perm hmem
    have hrelease := hadvance.wellFormed.consumed_release hperm
      (fun other hother => List.mem_singleton.mp hother ▸ hdone.1)
    refine ⟨by simpa using hadvance.trans hrelease, ?_⟩
    have hcharged : r.charged = Reassembler.charged
        { r.advance (r.readCount room entry) with chunks := r.chunks.erase entry.1 } +
          entry.2.charge.heldOf budget.identity := by
      rw [hid]
      exact Reassembler.charged_split hperm
    have hcover : entry.2.charge.heldOf budget.identity ≤ budget.used := by omega
    exact (RecoveryCharge.drop_balanced hcover).of_part hcharged
  · exact ⟨hadvance, Balanced.refl _ _⟩

theorem Reassembler.readChunk_length (r : Reassembler) (budget : RecoveryMemoryBudget)
    (entry : ℕ × BufferedChunk) (room : ℕ) :
    (r.readChunk budget room entry).1.length = r.readCount room entry := by
  simp only [Reassembler.readChunk, Reassembler.readCount, slice, List.length_take, List.length_drop]
  omega

theorem Reassembler.readCount_pos (hentry : r.candidate = some entry)
    {room : ℕ} (hroom : 0 < room) : 0 < r.readCount room entry := by
  obtain ⟨_, hstart, hpast⟩ := Reassembler.candidate_eq_some hentry
  simp only [stop, chunkSegment, Reassembler.readCount] at hpast ⊢
  omega

theorem Reassembler.WellFormed.readLoop_consumed (hr : r.WellFormed)
    (hid : budget.identity = r.memoryBudget) (hheld : r.charged ≤ budget.used) {fuel room : ℕ}
    (hfuel : room ≤ fuel) :
    Consumed r (Reassembler.readLoop fuel room r budget).2.1 (Reassembler.readLoop fuel room r budget).1 ∧
      Balanced budget (Reassembler.readLoop fuel room r budget).2.2 r.charged
        (Reassembler.readLoop fuel room r budget).2.1.charged ∧
      (Reassembler.readLoop fuel room r budget).1.length ≤ room ∧
      ((Reassembler.readLoop fuel room r budget).1.length < room →
        firstElement r.segments (r.nextOffset + (Reassembler.readLoop fuel room r budget).1.length) = none) := by
  induction fuel generalizing r budget room with
  | zero =>
    obtain rfl : room = 0 := by omega
    exact ⟨hr.consumed_nil, Balanced.refl _ _, le_rfl, by simp⟩
  | succ fuel ih =>
    rw [Reassembler.readLoop]
    by_cases hroom : room = 0
    · rw [if_pos hroom]
      exact ⟨hr.consumed_nil, Balanced.refl _ _, Nat.zero_le _, by simp [hroom]⟩
    · rw [if_neg hroom]
      cases hcandidate : r.candidate with
      | none =>
        exact ⟨hr.consumed_nil, Balanced.refl _ _, Nat.zero_le _,
          fun _ => hr.open_of_candidate_none hcandidate⟩
      | some entry =>
        obtain ⟨hconsumed, hbalanced⟩ := hr.readChunk_consumed hid hheld hcandidate room
        have hcopied := r.readChunk_length budget entry room
        have hprogress := Reassembler.readCount_pos hcandidate (Nat.pos_of_ne_zero hroom)
        have hwithin : r.readCount room entry ≤ room := Nat.min_le_right _ _
        have hused := hbalanced.used
        have hfuel' : room - (r.readChunk budget room entry).1.length ≤ fuel := by omega
        obtain ⟨hlater, hlaterBalanced, hfits, hopen⟩ := ih hconsumed.wellFormed
          (hbalanced.identity.trans (hid.trans hconsumed.memoryBudget.symm)) (by omega) hfuel'
        refine ⟨hconsumed.trans hlater, hbalanced.chain hlaterBalanced, ?_, fun hshort => ?_⟩
        · simp only [List.length_append]
          omega
        · simp only [List.length_append] at hshort ⊢
          have hend := hopen (by omega)
          rw [hconsumed.advanced, Nat.add_assoc] at hend
          rw [← hconsumed.unread _ (by rw [hconsumed.advanced]; omega)]
          exact hend

theorem dropCharges_balanced {released : List (ℕ × BufferedChunk)}
    (h : (released.map (fun entry => entry.2.charge.heldOf budget.identity)).sum ≤ budget.used) :
    Balanced budget (dropCharges budget released)
      (released.map (fun entry => entry.2.charge.heldOf budget.identity)).sum 0 := by
  induction released generalizing budget with
  | nil => exact Balanced.refl _ _
  | cons entry rest ih =>
    rw [List.map_cons, List.sum_cons] at h ⊢
    have hdrop : Balanced budget (entry.2.charge.drop budget) (entry.2.charge.heldOf budget.identity) 0 :=
      RecoveryCharge.drop_balanced (by omega)
    have hused := hdrop.used
    have hrest := @ih (entry.2.charge.drop budget) (by rw [hdrop.identity]; omega)
    rw [hdrop.identity] at hrest
    exact hdrop.trans hrest

/-- The reassembler once the peer knows of an acknowledgement. -/
def Reassembler.acknowledgedUpTo (r : Reassembler) (contiguous : ℕ) : Reassembler :=
  { r with acknowledgedOffset := max r.acknowledgedOffset contiguous }

theorem Reassembler.WellFormed.acknowledgeConsumed_consumed (hr : r.WellFormed)
    (hid : budget.identity = r.memoryBudget) (hheld : r.charged ≤ budget.used) (contiguous : ℕ) :
    Consumed (r.acknowledgedUpTo contiguous) (r.acknowledgeConsumed budget contiguous).1 [] ∧
      Balanced budget (r.acknowledgeConsumed budget contiguous).2 r.charged
        (r.acknowledgeConsumed budget contiguous).1.charged := by
  have hknown : (r.acknowledgedUpTo contiguous).WellFormed :=
    ⟨hr.apart, hr.nonempty, hr.onWire, hr.counted, hr.nextOnWire, hr.finalPast⟩
  have hperm : ((r.acknowledgeConsumed budget contiguous).1.chunks.entries ++ r.chunks.entries.filter
      (endsBy (min (max r.acknowledgedOffset contiguous) r.nextOffset))).Perm
      (r.acknowledgedUpTo contiguous).chunks.entries := by
    have hsplit := r.chunks.retain_perm
      (fun offset chunk => !endsBy (min (max r.acknowledgedOffset contiguous) r.nextOffset) (offset, chunk))
    simp only [Bool.not_not] at hsplit
    exact hsplit
  have hcharged : r.charged = (r.acknowledgeConsumed budget contiguous).1.charged +
      ((r.chunks.entries.filter (endsBy (min (max r.acknowledgedOffset contiguous) r.nextOffset))).map
        (fun entry => entry.2.charge.heldOf budget.identity)).sum := by
    rw [hid]
    exact Reassembler.charged_split hperm
  refine ⟨hknown.consumed_release hperm fun entry hentry => ?_,
    (dropCharges_balanced (by omega)).of_part hcharged⟩
  obtain ⟨hmem, hends⟩ := List.mem_filter.mp hentry
  rw [endsBy, checkedEnd_chunk (hr.onWire _ (List.mem_map_of_mem hmem)), decide_eq_true_eq] at hends
  exact hends.trans (min_le_right _ _)

end Quicp
