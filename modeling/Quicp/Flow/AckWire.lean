import Quicp.Flow.ControlStream
import Quicp.Wire.ControlDecode

/-!
# Acknowledgements on the wire

What a receiver has inserted is in normal form, which is the form the decoder asks of the ranges of a frame.
-/

namespace Quicp

def AckRanges.Inserts (ack : AckRanges) (range : Range) (next : AckRanges) : Prop := ack.insert range = .ok next

/-- The acknowledgements of a receiver with so many ranges. -/
abbrev AckRanges.Received (maxRanges : ℕ) : AckRanges → Prop :=
  Reachable (· = AckRanges.new maxRanges) AckRanges.Inserts

/-- The frame that `poll_wire` makes of an acknowledgement. -/
def AckRanges.frame (ack : AckRanges) : ControlFrame := (Flow.ackFrame (ack.contiguous, ack.ranges)).frame

variable {ack : AckRanges}

theorem AckRanges.le_of_represents_lt {bound : ℕ} (h : ∀ i, ack.Represents i → i < bound) :
    ack.contiguous ≤ bound ∧ ∀ range ∈ ack.ranges, range.stop ≤ bound := by
  constructor
  · by_contra hpast
    exact absurd (h bound (Or.inl (by omega))) (lt_irrefl _)
  · intro range hmem
    have hne := (ack.above range hmem).2
    have hlast := h (range.stop - 1) (Or.inr ⟨range, hmem, by constructor <;> omega⟩)
    omega

theorem AckRanges.Received.bounded {maxRanges : ℕ} (h : AckRanges.Received maxRanges ack) :
    ack.maxRanges = maxRanges ∧ ∀ i, ack.Represents i → i < maxWireOffset := by
  refine h.invariant (P := fun ack => ack.maxRanges = maxRanges ∧ ∀ i, ack.Represents i → i < maxWireOffset) ?_ ?_
  · rintro _ rfl
    exact ⟨rfl, by simp [Represents, AckRanges.new, Covers]⟩
  · rintro ack range next ⟨hmax, hwire⟩ hinsert
    obtain ⟨hkept, -, hunion⟩ := AckRanges.insert_spec hinsert
    obtain ⟨⟨-, hstop⟩, -⟩ := AckRanges.validateInsert_eq_ok.mp (AckRanges.validateInsert_of_insert hinsert)
    refine ⟨hkept.trans hmax, fun i hi => ?_⟩
    rcases (hunion i).mp hi with hbefore | hin
    · exact hwire i hbefore
    · exact hin.2.trans_le hstop

private theorem rangesFrom_of_separated {contiguous : ℕ} {ranges : List Range} (hsep : Separated ranges)
    (habove : Above contiguous ranges) (hwire : ∀ range ∈ ranges, range.stop ≤ maxWireOffset) :
    RangesFrom contiguous ranges := by
  induction ranges generalizing contiguous with
  | nil => trivial
  | cons range rest ih =>
    obtain ⟨hnext, hsep⟩ := List.pairwise_cons.mp hsep
    obtain ⟨hfirst, hlater⟩ := List.forall_mem_cons.mp habove
    obtain ⟨hstop, hstops⟩ := List.forall_mem_cons.mp hwire
    refine ⟨⟨hfirst.1.le, hfirst.2, hstop⟩, ih hsep (fun later hmem => ?_) hstops⟩
    exact ⟨hnext later hmem, (hlater later hmem).2⟩

private theorem length_encodeRanges_le (ranges : List Range) :
    (ranges.map (fun range => encodeVarint range.start ++ encodeVarint range.stop)).flatten.length ≤
      16 * ranges.length := by
  induction ranges with
  | nil => exact Nat.le_refl _
  | cons range rest ih =>
    have hstart := length_encodeVarint_le range.start
    have hstop := length_encodeVarint_le range.stop
    simp only [List.map_cons, List.flatten_cons, List.length_append, List.length_cons]
    omega

theorem AckRanges.length_frame_le (hfew : ack.ranges.length ≤ 255) :
    (encodeControl ack.frame).length ≤ 16 * ack.ranges.length + 16 := by
  have hpayload : ack.frame.payload.length ≤ 9 + 16 * ack.ranges.length := by
    have hcontiguous := length_encodeVarint_le ack.contiguous
    have hranges := length_encodeRanges_le ack.ranges
    simp only [frame, Flow.ackFrame, ControlFrame.payload, List.length_append, List.length_cons]
    omega
  have hheader : (encodeVarint ack.frame.payload.length).length ≤ 2 := by
    unfold encodeVarint
    split_ifs with hone htwo
    · exact (BigEndian.encode_length _ _).trans_le (by decide)
    · exact (BigEndian.encode_length _ _).le
    · omega
    · omega
  rw [encodeControl, List.length_cons, List.length_append]
  omega

theorem AckRanges.frame_wellFormed (hfew : ack.ranges.length ≤ 255)
    (hwire : ∀ i, ack.Represents i → i < maxWireOffset) : ack.frame.WellFormed ack.maxRanges := by
  obtain ⟨hcontiguous, hstops⟩ := AckRanges.le_of_represents_lt hwire
  refine ⟨⟨hcontiguous, ack.bounded, hfew, rangesFrom_of_separated ack.separated ack.above hstops⟩, ?_⟩
  have hlength := AckRanges.length_frame_le hfew
  rw [encodeControl, List.length_cons, List.length_append] at hlength
  have hsmall : 16 * 255 + 16 ≤ maxWireOffset := by decide
  omega

/-- Acknowledgements survive the wire: the frame of a receiver fits the limit of a control frame, is decoded to
itself, and the sender accepts it as the same set of offsets. -/
theorem ack_survives_wire {maxRanges sentOffset : ℕ} {ack : AckRanges} (maxStreamPayload : ℕ) (hmax : maxRanges ≤ 255)
    (hack : AckRanges.Received maxRanges ack) (hsent : ∀ i, ack.Represents i → i < sentOffset) :
    (encodeControl ack.frame).length ≤ Flow.controlInputLimit maxStreamPayload maxRanges ∧
      (∀ rest, decodeControl (encodeControl ack.frame ++ rest) maxRanges
        (Flow.controlInputLimit maxStreamPayload maxRanges) = .ok (ack.frame, (encodeControl ack.frame).length)) ∧
      ∃ accepted, AckRanges.fromWire ack.contiguous ack.ranges maxRanges sentOffset = .ok accepted ∧
        ∀ i, accepted.Represents i ↔ ack.Represents i := by
  obtain ⟨rfl, hwire⟩ := hack.bounded
  have hfew : ack.ranges.length ≤ 255 := ack.bounded.trans hmax
  have hfits : (encodeControl ack.frame).length ≤ Flow.controlInputLimit maxStreamPayload ack.maxRanges := by
    have hlength := AckRanges.length_frame_le hfew
    have hbounded := ack.bounded
    unfold Flow.controlInputLimit saturatingAdd saturatingMul wordMax
    omega
  refine ⟨hfits, fun rest => ?_, ?_⟩
  · exact decodeControl_eq_ok.mpr ⟨AckRanges.frame_wellFormed hfew hwire, rfl, hfits, List.prefix_append _ _⟩
  · obtain ⟨hcontiguous, hsents⟩ := AckRanges.le_of_represents_lt hsent
    obtain ⟨-, hstops⟩ := AckRanges.le_of_represents_lt hwire
    obtain ⟨accepted, haccepted⟩ := AckRanges.exists_fromWire hcontiguous ack.bounded
      fun range hmem => ⟨(ack.above range hmem).2, hstops range hmem, hsents range hmem⟩
    exact ⟨accepted, haccepted, AckRanges.fromWire_represents haccepted⟩

theorem ack_survives_wire_gap :
    ∃ ack, AckRanges.Received 2 ack ∧ ack.Represents 3 ∧
      ∃ accepted, AckRanges.fromWire ack.contiguous ack.ranges 2 10 = .ok accepted ∧
        ∀ i, accepted.Represents i ↔ ack.Represents i := by
  obtain ⟨ack, hinsert⟩ := AckRanges.exists_insert_of_valid
    (show (AckRanges.new 2).validateInsert ⟨2, 4⟩ = .ok () by decide +kernel)
  have hunion := (AckRanges.insert_spec hinsert).2.2
  have hrange : ∀ i, ack.Represents i ↔ 2 ≤ i ∧ i < 4 := fun i => by
    rw [hunion i]
    simp [AckRanges.Represents, AckRanges.new, Covers, Range.Contains]
  have hack : AckRanges.Received 2 ack := .next (.start rfl) hinsert
  have hsent : ∀ i, ack.Represents i → i < 10 := fun i hi => by
    have hlt := ((hrange i).mp hi).2
    omega
  exact ⟨ack, hack, (hrange 3).mpr (by decide), (ack_survives_wire 1024 (by decide) hack hsent).2.2⟩

end Quicp
