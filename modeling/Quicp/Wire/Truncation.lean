import Quicp.Wire.ControlDecode

/-!
# Truncated control frames

A control frame is truncated while its header or its declared payload is not there yet. The payload
readers report the same error when they run out inside a payload that is there, and then no bytes
that follow change the answer.
-/

namespace Quicp

variable {input : List UInt8}

theorem decodeVarint_eq_truncated :
    decodeVarint input = .error .truncated ↔
      ∀ first, input.head? = some first → input.length < 2 ^ (first >>> 6).toNat := by
  cases input with
  | nil => simp [decodeVarint]
  | cons first rest =>
    simp only [decodeVarint, Nat.shiftLeft_eq, one_mul, List.head?_cons, Option.some.injEq, forall_eq', List.length_cons]
    split_ifs with hshort hsmall
    · exact iff_of_true rfl hshort
    · exact iff_of_false (by simp) hshort
    · exact iff_of_false (by simp) hshort

theorem length_of_decodeVarint {first : UInt8} {rest : List UInt8} {value length : ℕ}
    (h : decodeVarint (first :: rest) = .ok (value, length)) : length = 2 ^ (first >>> 6).toNat := by
  simp only [decodeVarint, Nat.shiftLeft_eq, one_mul] at h
  split_ifs at h
  exact (Prod.mk.inj (Except.ok.inj h)).2.symm

theorem decodeVarint_cut {value : ℕ} (hvalue : value ≤ maxWireOffset)
    (hstart : input <+: encodeVarint value) (hshort : input.length < (encodeVarint value).length) :
    decodeVarint input = .error .truncated := by
  refine decodeVarint_eq_truncated.mpr fun first hfirst => ?_
  obtain ⟨tail, rfl⟩ := List.head?_eq_some_iff.mp hfirst
  obtain ⟨rest, hrest⟩ := hstart
  have hread := decodeVarint_encodeVarint [] hvalue
  rw [List.append_nil, ← hrest, List.cons_append] at hread
  have hlength := length_of_decodeVarint hread
  rw [← hrest, List.cons_append] at hshort
  rwa [← hlength]

variable {maxAckRanges maxFrameBytes : ℕ}

theorem decodeControl_cut {frame : ControlFrame}
    (hframe : frame.WellFormed maxAckRanges) (hfits : (encodeControl frame).length ≤ maxFrameBytes)
    (hstart : input <+: encodeControl frame) (hshort : input.length < (encodeControl frame).length) :
    decodeControl input maxAckRanges maxFrameBytes = .error .truncated := by
  unfold encodeControl at hstart hfits hshort
  cases input with
  | nil => rfl
  | cons kind tail =>
    obtain ⟨rfl, htail⟩ := List.cons_prefix_cons.mp hstart
    by_cases hheader : tail.length < (encodeVarint frame.payload.length).length
    · have hcut : tail <+: encodeVarint frame.payload.length :=
        List.prefix_of_prefix_length_le htail (List.prefix_append _ _) hheader.le
      have hrange : controlPayloadRange (frame.kind :: tail) maxFrameBytes = .error .truncated := by
        rw [controlPayloadRange, decodeVarint_cut hframe.length hcut hheader]
      rw [decodeControl, hrange]
      rfl
    · obtain ⟨rest, rfl⟩ : encodeVarint frame.payload.length <+: tail :=
        List.prefix_of_prefix_length_le (List.prefix_append _ _) htail (not_lt.mp hheader)
      simp only [List.length_cons, List.length_append] at hfits hshort
      have hrange := controlPayloadRange_eq_ok.mpr ⟨frame.kind, frame.payload.length, rest, rfl, hframe.length, rfl, rfl,
        show 1 + (encodeVarint frame.payload.length).length + frame.payload.length ≤ maxFrameBytes by omega⟩
      have hbeyond : (frame.kind :: (encodeVarint frame.payload.length ++ rest)).length <
          1 + (encodeVarint frame.payload.length).length + frame.payload.length := by
        rw [List.length_cons, List.length_append]
        omega
      simp only [decodeControl, hrange, bind, Except.bind, if_pos hbeyond]
      rfl

/-- The type byte or the length of a frame is not there yet. -/
def HeaderIncomplete (input : List UInt8) : Prop :=
  ∀ first : UInt8, input[1]? = some first → input.length < 1 + 2 ^ (first >>> 6).toNat

/-- The input has a complete frame within the limit, and a field of its type runs past the end of the payload. -/
def RunsOut (input : List UInt8) (maxAckRanges maxFrameBytes : ℕ) : Prop :=
  ∃ kind payload rest, input = kind :: (encodeVarint payload.length ++ (payload ++ rest)) ∧
    payload.length ≤ maxWireOffset ∧ 1 + (encodeVarint payload.length).length + payload.length ≤ maxFrameBytes ∧
    decodePayload kind payload maxAckRanges = .error .truncated

theorem controlPayloadRange_eq_truncated :
    controlPayloadRange input maxFrameBytes = .error .truncated ↔ HeaderIncomplete input := by
  cases input with
  | nil => simp [controlPayloadRange, HeaderIncomplete]
  | cons kind rest =>
    have hheader : HeaderIncomplete (kind :: rest) ↔ decodeVarint rest = .error .truncated := by
      rw [decodeVarint_eq_truncated, HeaderIncomplete]
      simp only [List.getElem?_cons_succ, ← List.head?_eq_getElem?, List.length_cons]
      exact forall₂_congr fun first _ => by omega
    rw [hheader]
    cases hdecode : decodeVarint rest with
    | error error => simp [controlPayloadRange, hdecode]
    | ok decoded =>
      simp only [controlPayloadRange, hdecode]
      split <;> simp

theorem RunsOut.append (h : RunsOut input maxAckRanges maxFrameBytes) (more : List UInt8) :
    RunsOut (input ++ more) maxAckRanges maxFrameBytes := by
  obtain ⟨kind, payload, rest, rfl, hpayload⟩ := h
  exact ⟨kind, payload, rest ++ more, by simp, hpayload⟩

theorem RunsOut.decodeControl (h : RunsOut input maxAckRanges maxFrameBytes) :
    decodeControl input maxAckRanges maxFrameBytes = .error .truncated := by
  obtain ⟨kind, payload, rest, rfl, hwire, hfits, hpayload⟩ := h
  have hrange := controlPayloadRange_eq_ok.mpr ⟨kind, payload.length, payload ++ rest, rfl, hwire, rfl, rfl, hfits⟩
  have hwhole : ¬(kind :: (encodeVarint payload.length ++ (payload ++ rest))).length <
      1 + (encodeVarint payload.length).length + payload.length := by
    simp only [List.length_cons, List.length_append]
    omega
  simp only [Quicp.decodeControl, hrange, bind, Except.bind, if_neg hwhole, drop_take_payload, List.take_left,
    List.headD_cons, hpayload]

end Quicp
