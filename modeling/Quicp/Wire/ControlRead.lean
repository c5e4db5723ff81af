import Quicp.Wire.Truncation

/-!
# Reading one control frame

Before a flow has a task, admission reads its stream frame by frame. It never asks for more bytes than
the frame it is reading has, so what the peer sends behind that frame stays in the stream for the task.
-/

namespace Quicp

/-- `control_frame_read_target`: how many bytes of the frame to have next. -/
def controlFrameReadTarget (input : List UInt8) (maxFrameBytes : ℕ) : Except CodecError ℕ :=
  match controlPayloadRange input maxFrameBytes with
  | .ok (_, stop) => .ok stop
  | .error .truncated =>
    let needed := (input[1]?).elim 2 fun first => 1 + 1 <<< (first >>> 6).toNat
    if needed > maxFrameBytes then .error .limit else .ok needed
  | .error error => .error error

/-- Why admission stops: the frame is not valid in its state, or the stream fails. -/
inductive AdmissionError
  | invalidState
  | read
  deriving DecidableEq, Repr

/-- What an admission read answers, and the bytes of the stream that it leaves. -/
abbrev AdmissionRead (α : Type) := Outcome AdmissionError α × List UInt8

/-- The loop of `read_control_bytes`, on the bytes that it has and those that the peer sends. A stream that ends before
the target fails the read, and slicing at the bytes that it has panics when the target is below them. -/
def readControlBytes (maxFrameBytes : ℕ) : ℕ → List UInt8 → List UInt8 → Option (AdmissionRead (List UInt8))
  | 0, _, _ => none
  | turns + 1, encoded, stream =>
    match controlFrameReadTarget encoded maxFrameBytes with
    | .error _ => some (.err .invalidState, stream)
    | .ok target =>
      if target = encoded.length then some (.ok encoded, stream)
      else if target < encoded.length then some (.panicked, stream)
      else if stream.length < target - encoded.length then some (.err .read, [])
      else readControlBytes maxFrameBytes turns (encoded ++ stream.take (target - encoded.length))
        (stream.drop (target - encoded.length))

def maxOpenFrameBytes : ℕ := maxCanonicalHostBytes + 3

def maxEarlyOpenOverhead : ℕ := 512

def earlyOpenFrameLimit (flowBufferBytes : ℕ) : Option ℕ := checkedAdd flowBufferBytes maxEarlyOpenOverhead

/-- What `read_admission_control` and `read_open_control` share: read the bytes of one frame and decode them. -/
def readFrame (maxAckRanges maxFrameBytes turns : ℕ) (stream : List UInt8)
    (accept : ControlFrame → ℕ → List UInt8 → Outcome AdmissionError α) : Option (AdmissionRead α) :=
  (readControlBytes maxFrameBytes turns [] stream).map fun
    | (.err error, rest) => (.err error, rest)
    | (.panicked, rest) => (.panicked, rest)
    | (.ok encoded, rest) =>
      match decodeControl encoded maxAckRanges maxFrameBytes with
      | .error _ => (.err .invalidState, rest)
      | .ok (frame, consumed) => (accept frame consumed encoded, rest)

/-- `read_admission_control`: the frames of admission; the debug assertion panics. -/
def readAdmissionControl (maxAckRanges turns : ℕ) (stream : List UInt8) : Option (AdmissionRead ControlFrame) :=
  readFrame maxAckRanges (maxOpenFrameBytes + 16) turns stream fun frame consumed encoded =>
    if consumed ≠ encoded.length then .panicked
    else match frame with
      | .capabilities _ | .openRequest _ | .status _ => .ok frame
      | _ => .err .invalidState

/-- `Opening`: an ordinary open, or one with data of the flow. -/
inductive Opening
  | ordinary (request : OpenRequest)
  | early (token : List UInt8) (nonce : UInt64) (request : OpenRequest) (initial : List UInt8)
  deriving DecidableEq, Repr

def readOpenControl (maxAckRanges flowBufferBytes turns : ℕ) (stream : List UInt8) : Option (AdmissionRead Opening) :=
  match earlyOpenFrameLimit flowBufferBytes with
  | none => some (.err .invalidState, stream)
  | some maxFrameBytes =>
    readFrame maxAckRanges maxFrameBytes turns stream fun frame consumed encoded =>
      if consumed ≠ encoded.length then .err .invalidState
      else match frame with
        | .openRequest request => .ok (.ordinary request)
        | .earlyOpen token nonce request initial => .ok (.early token nonce request initial)
        | _ => .err .invalidState

/-- How many bytes the type and the length of a frame take, by the first byte of the length. -/
def headerBytes (first : UInt8) : ℕ := 1 + 2 ^ (first >>> 6).toNat

/-- Where the frame that a stream begins with ends by its header, once the header is complete. The length counts as
declared also when it is longer than it needs to be. -/
def declaredEnd : List UInt8 → Option ℕ
  | _ :: first :: tail =>
    if tail.length + 2 < headerBytes first then none
    else some (headerBytes first + BigEndian.decodeFrom (first &&& 0x3f).toNat (tail.take (headerBytes first - 2)))
  | _ => none

theorem two_le_headerBytes (first : UInt8) : 2 ≤ headerBytes first := by
  have := Nat.one_le_two_pow (n := (first >>> 6).toNat)
  unfold headerBytes
  omega

variable {count : ℕ}

theorem controlFrameReadTarget_header (kind first : UInt8) (tail : List UInt8) (maxFrameBytes : ℕ)
    (hcount : count < headerBytes first) :
    ∃ needed, count < needed ∧ needed ≤ headerBytes first ∧
      controlFrameReadTarget ((kind :: first :: tail).take count) maxFrameBytes =
        if needed > maxFrameBytes then .error .limit else .ok needed := by
  match count with
  | 0 => exact ⟨2, by omega, two_le_headerBytes first, rfl⟩
  | 1 => exact ⟨2, by omega, two_le_headerBytes first, rfl⟩
  | count + 2 =>
    have hpart : HeaderIncomplete ((kind :: first :: tail).take (count + 2)) := by
      intro other hother
      have hsame : first = other := by simpa using hother
      rw [← hsame]
      exact (List.length_take_le _ _).trans_lt hcount
    refine ⟨headerBytes first, hcount, le_rfl, ?_⟩
    rw [controlFrameReadTarget, controlPayloadRange_eq_truncated.mpr hpart]
    simp [headerBytes, Nat.shiftLeft_eq]

theorem length_encodeControl (frame : ControlFrame) :
    (encodeControl frame).length = 1 + (encodeVarint frame.payload.length).length + frame.payload.length := by
  rw [encodeControl, List.length_cons, List.length_append]
  omega

variable {kind : UInt8} {maxFrameBytes : ℕ}

theorem controlFrameReadTarget_whole {length : ℕ} (rest : List UInt8)
    (hlength : length ≤ maxWireOffset) (hfits : 1 + (encodeVarint length).length + length ≤ maxFrameBytes) :
    controlFrameReadTarget (kind :: (encodeVarint length ++ rest)) maxFrameBytes =
      .ok (1 + (encodeVarint length).length + length) := by
  have hrange := controlPayloadRange_eq_ok.mpr ⟨kind, length, rest, rfl, hlength, rfl, rfl, hfits⟩
  rw [controlFrameReadTarget, hrange]

variable {frame : ControlFrame}

theorem controlFrameReadTarget_encodeControl (rest : List UInt8)
    (hframe : frame.payload.length ≤ maxWireOffset) (hfits : (encodeControl frame).length ≤ maxFrameBytes) :
    controlFrameReadTarget (encodeControl frame ++ rest) maxFrameBytes = .ok (encodeControl frame).length := by
  rw [length_encodeControl] at hfits ⊢
  rw [encodeControl, List.cons_append, List.append_assoc]
  exact controlFrameReadTarget_whole (frame.payload ++ rest) hframe hfits

theorem controlFrameReadTarget_beyond {first : UInt8} {tail : List UInt8} {stop : ℕ}
    (hstop : declaredEnd (kind :: first :: tail) = some stop) (hbeyond : maxFrameBytes < stop) :
    ∃ error, controlFrameReadTarget ((kind :: first :: tail).take (headerBytes first)) maxFrameBytes = .error error := by
  obtain ⟨rest, hrest⟩ : ∃ rest, headerBytes first = rest + 2 := Nat.exists_eq_add_of_le' (two_le_headerBytes first)
  have hwidth : 2 ^ (first >>> 6).toNat = rest + 1 := by
    unfold headerBytes at hrest
    omega
  simp only [declaredEnd, hrest, Nat.add_sub_cancel] at hstop
  split_ifs at hstop with hshort
  obtain rfl := Option.some.inj hstop
  have hlength : (tail.take rest).length = rest := List.length_take_of_le (by omega)
  have hdecode : decodeVarint (first :: tail.take rest) =
      if BigEndian.decodeFrom (first &&& 0x3f).toNat (tail.take rest) < varintMinimum (rest + 1) then .error .nonCanonical
      else .ok (BigEndian.decodeFrom (first &&& 0x3f).toNat (tail.take rest), rest + 1) := by
    simp only [decodeVarint, Nat.shiftLeft_eq, one_mul, hwidth, hlength, lt_irrefl, if_false, Nat.add_sub_cancel,
      List.take_take, min_self]
  have hrange : controlPayloadRange (kind :: first :: tail.take rest) maxFrameBytes = .error .nonCanonical ∨
      controlPayloadRange (kind :: first :: tail.take rest) maxFrameBytes = .error .limit := by
    simp only [controlPayloadRange, hdecode]
    split_ifs with hsmall
    · exact Or.inl rfl
    · right
      have hnone : (checkedAdd (1 + (rest + 1)) (BigEndian.decodeFrom (first &&& 0x3f).toNat (tail.take rest))).filter
          (fun stop => decide (stop ≤ maxFrameBytes)) = none := by
        rw [Option.filter_eq_none_iff]
        intro sum hsum
        have hsum := checkedAdd_eq_some hsum
        simp only [decide_eq_true_eq]
        omega
      simp only [hnone]
  rw [hrest, List.take_succ_cons, List.take_succ_cons, controlFrameReadTarget]
  rcases hrange with hrange | hrange
  · exact ⟨_, by rw [hrange]⟩
  · exact ⟨_, by rw [hrange]⟩

theorem exists_encodeVarint_eq_cons {length : ℕ} (hlength : length ≤ maxWireOffset) :
    ∃ first tail, encodeVarint length = first :: tail ∧ headerBytes first = 1 + (encodeVarint length).length := by
  have hread := decodeVarint_encodeVarint [] hlength
  rw [List.append_nil] at hread
  cases hvarint : encodeVarint length with
  | nil => simp [hvarint, decodeVarint] at hread
  | cons first tail =>
    rw [hvarint] at hread
    exact ⟨first, tail, rfl, by rw [headerBytes, ← length_of_decodeVarint hread]⟩

theorem controlFrameReadTarget_part (rest : List UInt8)
    (hframe : frame.payload.length ≤ maxWireOffset) (hfits : (encodeControl frame).length ≤ maxFrameBytes)
    (hcount : count < (encodeControl frame).length) :
    ∃ target, controlFrameReadTarget ((encodeControl frame ++ rest).take count) maxFrameBytes = .ok target ∧
      count < target ∧ target ≤ (encodeControl frame).length := by
  have hlength := length_encodeControl frame
  by_cases hheader : count < 1 + (encodeVarint frame.payload.length).length
  · obtain ⟨first, tail, hvarint, hfirst⟩ := exists_encodeVarint_eq_cons hframe
    obtain ⟨needed, hmore, hwithin, htarget⟩ := controlFrameReadTarget_header frame.kind first
      (tail ++ frame.payload ++ rest) maxFrameBytes (hfirst ▸ hheader)
    refine ⟨needed, ?_, hmore, by omega⟩
    rw [if_neg (by omega)] at htarget
    rw [← htarget, encodeControl, hvarint]
    simp
  · obtain ⟨more, rfl⟩ := Nat.exists_eq_add_of_le (not_lt.mp hheader)
    refine ⟨_, ?_, hcount, le_rfl⟩
    have htake : (encodeControl frame ++ rest).take (1 + (encodeVarint frame.payload.length).length + more) =
        frame.kind :: (encodeVarint frame.payload.length ++ (frame.payload ++ rest).take more) := by
      rw [encodeControl, List.cons_append, List.append_assoc, Nat.add_assoc, Nat.add_comm 1, List.take_succ_cons,
        List.take_length_add_append]
    rw [htake, hlength]
    exact controlFrameReadTarget_whole _ hframe (hlength ▸ hfits)

variable {turns : ℕ}

theorem readControlBytes_turn {target : ℕ} {stream : List UInt8}
    (htarget : controlFrameReadTarget (stream.take count) maxFrameBytes = .ok target) (hmore : count < target)
    (henough : target ≤ stream.length) :
    readControlBytes maxFrameBytes (turns + 1) (stream.take count) (stream.drop count) =
      readControlBytes maxFrameBytes turns (stream.take target) (stream.drop target) := by
  have hlength : (stream.take count).length = count := List.length_take_of_le (by omega)
  have htake : stream.take count ++ (stream.drop count).take (target - count) = stream.take target := by
    rw [← List.take_add, Nat.add_sub_cancel' hmore.le]
  rw [readControlBytes, htarget]
  simp only [hlength, if_neg hmore.ne', if_neg hmore.not_gt, List.length_drop, if_neg (show
    ¬stream.length - count < target - count by omega), htake, List.drop_drop, Nat.add_sub_cancel' hmore.le]

theorem readControlBytes_reaches {bound : ℕ} {stream : List UInt8} (hbound : bound ≤ stream.length)
    (hahead : ∀ count < bound, (∃ error, controlFrameReadTarget (stream.take count) maxFrameBytes = .error error) ∨
      ∃ target, controlFrameReadTarget (stream.take count) maxFrameBytes = .ok target ∧ count < target ∧ target ≤ bound)
    (count turns : ℕ) (hcount : count ≤ bound) (hturns : bound - count < turns) :
    (∃ consumed < bound, (∃ error, controlFrameReadTarget (stream.take consumed) maxFrameBytes = .error error) ∧
      readControlBytes maxFrameBytes turns (stream.take count) (stream.drop count) =
        some (.err .invalidState, stream.drop consumed)) ∨
    ∃ left, readControlBytes maxFrameBytes turns (stream.take count) (stream.drop count) =
      readControlBytes maxFrameBytes (left + 1) (stream.take bound) (stream.drop bound) := by
  induction turns generalizing count with
  | zero => omega
  | succ turns ih =>
    rcases hcount.eq_or_lt with rfl | hlt
    · exact Or.inr ⟨turns, rfl⟩
    · rcases hahead count hlt with ⟨error, herror⟩ | ⟨target, htarget, hmore, hwithin⟩
      · exact Or.inl ⟨count, hlt, ⟨error, herror⟩, by rw [readControlBytes, herror]⟩
      · rw [readControlBytes_turn htarget hmore (hwithin.trans hbound)]
        exact ih target hwithin (by omega)

theorem readControlBytes_frame (rest : List UInt8)
    (hframe : frame.payload.length ≤ maxWireOffset) (hfits : (encodeControl frame).length ≤ maxFrameBytes)
    (hturns : (encodeControl frame).length < turns) :
    readControlBytes maxFrameBytes turns [] (encodeControl frame ++ rest) = some (.ok (encodeControl frame), rest) := by
  have hwhole : (encodeControl frame).length ≤ (encodeControl frame ++ rest).length := by simp
  have hpart : ∀ count < (encodeControl frame).length, _ := fun count hcount =>
    controlFrameReadTarget_part rest hframe hfits hcount
  rcases readControlBytes_reaches hwhole (fun count hcount => Or.inr (hpart count hcount)) 0 turns (Nat.zero_le _)
    hturns with
    ⟨consumed, hconsumed, ⟨error, herror⟩, -⟩ | ⟨left, hread⟩
  · obtain ⟨target, htarget, -⟩ := hpart consumed hconsumed
    rw [herror] at htarget
    cases htarget
  · have htarget := controlFrameReadTarget_encodeControl [] hframe hfits
    rw [List.append_nil] at htarget
    rw [List.take_zero, List.drop_zero, List.take_left, List.drop_left] at hread
    rw [hread, readControlBytes, htarget]
    exact if_pos rfl

theorem readControlBytes_beyond {first : UInt8} {tail : List UInt8} {stop : ℕ}
    (hstop : declaredEnd (kind :: first :: tail) = some stop) (hbeyond : maxFrameBytes < stop)
    (hturns : headerBytes first < turns) :
    ∃ consumed ≤ headerBytes first, readControlBytes maxFrameBytes turns [] (kind :: first :: tail) =
      some (.err .invalidState, (kind :: first :: tail).drop consumed) := by
  have hwhole : headerBytes first ≤ (kind :: first :: tail).length := by
    simp only [declaredEnd] at hstop
    split_ifs at hstop with hshort
    simpa using hshort
  have hahead : ∀ count < headerBytes first,
      (∃ error, controlFrameReadTarget ((kind :: first :: tail).take count) maxFrameBytes = .error error) ∨
      ∃ target, controlFrameReadTarget ((kind :: first :: tail).take count) maxFrameBytes = .ok target ∧
        count < target ∧ target ≤ headerBytes first := by
    intro count hcount
    obtain ⟨needed, hmore, hwithin, htarget⟩ := controlFrameReadTarget_header kind first tail maxFrameBytes hcount
    split_ifs at htarget
    · exact Or.inl ⟨_, htarget⟩
    · exact Or.inr ⟨needed, htarget, hmore, hwithin⟩
  rcases readControlBytes_reaches hwhole hahead 0 turns (Nat.zero_le _) hturns with
    ⟨consumed, hconsumed, -, hread⟩ | ⟨left, hread⟩
  · exact ⟨consumed, hconsumed.le, hread⟩
  · obtain ⟨error, herror⟩ := controlFrameReadTarget_beyond hstop hbeyond
    refine ⟨headerBytes first, le_rfl, hread.trans ?_⟩
    rw [readControlBytes, herror]

/-- Admission reads exactly one frame: each part of a frame within the limit asks for more of it and nothing behind it,
so the loop ends and consumes that frame; a stream that declares a frame beyond the limit costs no more than its header
before the error. -/
theorem admission_reads_one_frame (maxFrameBytes : ℕ) :
    (∀ (frame : ControlFrame) (rest : List UInt8), frame.payload.length ≤ maxWireOffset →
      (encodeControl frame).length ≤ maxFrameBytes →
      (∀ count < (encodeControl frame).length, ∃ target,
        controlFrameReadTarget ((encodeControl frame ++ rest).take count) maxFrameBytes = .ok target ∧
          count < target ∧ target ≤ (encodeControl frame).length) ∧
      ∀ turns > (encodeControl frame).length,
        readControlBytes maxFrameBytes turns [] (encodeControl frame ++ rest) =
          some (.ok (encodeControl frame), rest)) ∧
    ∀ (kind first : UInt8) (tail : List UInt8) (stop : ℕ), declaredEnd (kind :: first :: tail) = some stop →
      maxFrameBytes < stop → ∀ turns > headerBytes first, ∃ consumed ≤ headerBytes first,
        readControlBytes maxFrameBytes turns [] (kind :: first :: tail) =
          some (.err .invalidState, (kind :: first :: tail).drop consumed) := by
  refine ⟨fun frame rest hframe hfits => ⟨fun count hcount => ?_, fun turns hturns => ?_⟩, ?_⟩
  · exact controlFrameReadTarget_part rest hframe hfits hcount
  · exact readControlBytes_frame rest hframe hfits hturns
  · intro kind first tail stop hstop hbeyond turns hturns
    exact readControlBytes_beyond hstop hbeyond hturns

theorem admission_reads_one_frame_credit :
    readControlBytes 16 8 [] (encodeControl (.maxOffset 64) ++ [0xff]) =
      some (.ok (encodeControl (.maxOffset 64)), [0xff]) ∧
    ∃ consumed ≤ 3, readControlBytes 16 8 [] [0x08, 0x40, 0x40, 0x00] =
      some (.err .invalidState, [0x08, 0x40, 0x40, 0x00].drop consumed) :=
  ⟨((admission_reads_one_frame 16).1 (.maxOffset 64) [0xff] (by decide) (by decide)).2 8 (by decide),
    (admission_reads_one_frame 16).2 0x08 0x40 [0x40, 0x00] 67 (by decide) (by decide) 8 (by decide)⟩

end Quicp
