import Quicp.Flow.Effects
import Quicp.Wire.Truncation

/-!
# Reading the control stream

`poll_receive` decodes a bounded batch of frames from its buffer and then reads once. Where the reads
cut the stream does not matter: what is buffered and what is not read yet together are the encodings
of the frames that were not applied yet.
-/

namespace Quicp

def controlDecodeBatch : ℕ := 128

def controlReadChunk : ℕ := 4 * 1024

/-- How the decoding loop of `poll_receive` ends. -/
inductive BatchEnd
  | limit
  | waits
  | failed (error : FlowTaskError)
  | panicked
  deriving DecidableEq, Repr

/-- What the decoding loop leaves, and beside it the frames that it handed to `apply_control`. -/
structure Batch where
  flow : Flow
  input : List UInt8
  handed : List ControlFrame
  ended : BatchEnd

/-- The decoding loop of `poll_receive`; on an error the taken buffer is lost. -/
def decodeBatch (maxInput : ℕ) : ℕ → Flow → List UInt8 → Batch
  | 0, flow, input => ⟨flow, input, [], .limit⟩
  | turns + 1, flow, input =>
    match decodeControl input flow.connection.maxAckRanges maxInput with
    | .error .truncated => ⟨flow, input, [], .waits⟩
    | .error error => ⟨flow, [], [], .failed (.codec error)⟩
    | .ok (frame, consumed) =>
      match flow.applyControl frame with
      | (flow, .failed error) => ⟨flow, [], [frame], .failed error⟩
      | (flow, .panicked) => ⟨flow, [], [frame], .panicked⟩
      | (flow, _) =>
        let later := decodeBatch maxInput turns flow (input.drop consumed)
        { later with handed := frame :: later.handed }

/-- What `poll_receive` works on: the flow, its buffer and its limit, and the bytes that the peer wrote to the stream
and that were not read yet. -/
structure ControlReader where
  flow : Flow
  input : List UInt8
  maxInput : ℕ
  stream : List UInt8

/-- What the stream answers to a read: nothing yet, at most so many bytes, the peer's reset, or an error. -/
inductive ReadAnswer
  | pending
  | bytes (offered : ℕ)
  | reset (error : ApplicationError)
  | failed
  deriving DecidableEq, Repr

/-- What `poll_receive` returns. -/
inductive ReceivePoll
  | ready
  | pending
  | failed (error : FlowTaskError)
  | panicked
  deriving DecidableEq, Repr

/-- What `poll_receive` returns if the loop ends so and nothing is read. -/
def BatchEnd.result : BatchEnd → ReceivePoll
  | .limit => .ready
  | .waits => .pending
  | .failed error => .failed error
  | .panicked => .panicked

namespace ControlReader

def scratchLength (maxInput : ℕ) : ℕ := max 1 (min maxInput controlReadChunk)

/-- The read at the end of `poll_receive`; a read of no bytes is the end of the stream. -/
def readMore (s : ControlReader) (answer : ReadAnswer) : ControlReader × ReceivePoll :=
  let remaining := s.maxInput - s.input.length
  if remaining = 0 then (s, .failed .controlLimit)
  else
    match answer with
    | .pending => (s, .pending)
    | .bytes offered =>
      let read := s.stream.take (min offered (min remaining (scratchLength s.maxInput)))
      if read = [] then
        (s, if s.flow.shared.receive.finalOffset.isSome then .pending else .failed .finishedEarly)
      else ({ s with input := s.input ++ read, stream := s.stream.drop read.length }, .ready)
    | .reset error => (s, .failed (.peerReset error))
    | .failed => (s, .failed .read)

def pollReceive (s : ControlReader) (answer : ReadAnswer) : (ControlReader × List ControlFrame) × ReceivePoll :=
  let batch := decodeBatch s.maxInput controlDecodeBatch s.flow s.input
  let s := { s with flow := batch.flow, input := batch.input }
  match batch.ended with
  | .waits => (((s.readMore answer).1, batch.handed), (s.readMore answer).2)
  | ended => ((s, batch.handed), ended.result)

def batch (s : ControlReader) : Batch := decodeBatch s.maxInput controlDecodeBatch s.flow s.input

def afterBatch (s : ControlReader) : ControlReader := { s with flow := s.batch.flow, input := s.batch.input }

theorem pollReceive_waits {s : ControlReader} (h : s.batch.ended = .waits) (answer : ReadAnswer) :
    s.pollReceive answer = (((s.afterBatch.readMore answer).1, s.batch.handed), (s.afterBatch.readMore answer).2) := by
  unfold batch at h
  simp only [pollReceive, h]
  rfl

theorem pollReceive_ends {s : ControlReader} (h : s.batch.ended ≠ .waits) (answer : ReadAnswer) :
    s.pollReceive answer = ((s.afterBatch, s.batch.handed), s.batch.ended.result) := by
  unfold batch at h
  simp only [pollReceive]
  rfl

end ControlReader

def encodeFrames (frames : List ControlFrame) : List UInt8 := (frames.map encodeControl).flatten

/-- A peer may send the frames to a reader with these limits. -/
def Sendable (maxAckRanges maxInput : ℕ) (frames : List ControlFrame) : Prop :=
  ∀ frame ∈ frames, frame.WellFormed maxAckRanges ∧ (encodeControl frame).length ≤ maxInput

variable {frames : List ControlFrame} {unread : List UInt8}

theorem decodeControl_encodeFrames {input : List UInt8} {maxAckRanges maxInput : ℕ}
    (hframes : Sendable maxAckRanges maxInput frames) (hwire : input ++ unread = encodeFrames frames) :
    (decodeControl input maxAckRanges maxInput = .error .truncated ∧
      ∀ frame, frames.head? = some frame → input.length < (encodeControl frame).length) ∨
    ∃ frame rest, frames = frame :: rest ∧
      decodeControl input maxAckRanges maxInput = .ok (frame, (encodeControl frame).length) ∧
      input.drop (encodeControl frame).length ++ unread = encodeFrames rest := by
  cases frames with
  | nil =>
    obtain ⟨rfl, -⟩ := List.append_eq_nil_iff.mp hwire
    exact Or.inl ⟨rfl, nofun⟩
  | cons frame rest =>
    obtain ⟨hframe, hfits⟩ := hframes frame List.mem_cons_self
    have hsplit : encodeFrames (frame :: rest) = encodeControl frame ++ encodeFrames rest := rfl
    rw [hsplit] at hwire
    have hinput : input <+: encodeControl frame ++ encodeFrames rest := hwire ▸ List.prefix_append _ _
    by_cases hshort : input.length < (encodeControl frame).length
    · have hcut := List.prefix_of_prefix_length_le hinput (List.prefix_append _ _) hshort.le
      refine Or.inl ⟨decodeControl_cut hframe hfits hcut hshort, fun head hhead => ?_⟩
      obtain rfl := Option.some.inj hhead
      exact hshort
    · obtain ⟨tail, rfl⟩ := List.prefix_of_prefix_length_le (List.prefix_append _ _) hinput (not_lt.mp hshort)
      refine Or.inr ⟨frame, rest, rfl, decodeControl_eq_ok.mpr ⟨hframe, rfl, hfits, List.prefix_append _ _⟩, ?_⟩
      rw [List.append_assoc] at hwire
      rw [List.drop_left]
      exact List.append_cancel_left hwire

/-- `apply_control` does not accept the frame, and `poll_receive` returns its verdict. -/
def Rejects (flow : Flow) (frame : ControlFrame) (result : ReceivePoll) : Prop :=
  (∃ error, result = .failed error ∧ (flow.applyControl frame).2 = .failed error) ∨
    result = .panicked ∧ (flow.applyControl frame).2 = .panicked

/-- What a batch makes of a stream of frames: it stops at its limit or in front of a frame that is not complete, or
at a frame that is rejected. -/
inductive BatchMeets (connection : Connection) (frames : List ControlFrame) (unread : List UInt8) (turns : ℕ)
    (batch : Batch) : Prop
  | limit (later : List ControlFrame) (ended : batch.ended = .limit) (split : frames = batch.handed ++ later)
      (full : batch.handed.length = turns) (bytes : batch.input ++ unread = encodeFrames later)
  | waits (later : List ControlFrame) (ended : batch.ended = .waits) (split : frames = batch.handed ++ later)
      (bytes : batch.input ++ unread = encodeFrames later)
      (short : ∀ frame, later.head? = some frame → batch.input.length < (encodeControl frame).length)
  | rejected (flow : Flow) (accepted later : List ControlFrame) (frame : ControlFrame)
      (limits : connection.SameLimits flow.connection) (ended : Rejects flow frame batch.ended.result)
      (split : frames = accepted ++ frame :: later) (handed : batch.handed = accepted ++ [frame])

theorem BatchMeets.cons {connection : Connection} {turns : ℕ}
    {batch : Batch} (h : BatchMeets connection frames unread turns batch) (frame : ControlFrame) :
    BatchMeets connection (frame :: frames) unread (turns + 1) { batch with handed := frame :: batch.handed } := by
  cases h with
  | limit later ended split full bytes =>
    exact .limit later ended (congrArg (frame :: ·) split) (congrArg Nat.succ full) bytes
  | waits later ended split bytes short => exact .waits later ended (congrArg (frame :: ·) split) bytes short
  | rejected flow accepted later other limits ended split handed =>
    exact .rejected flow (frame :: accepted) later other limits ended (congrArg (frame :: ·) split)
      (congrArg (frame :: ·) handed)

theorem decodeBatch_meets {connection : Connection} {maxInput : ℕ}
    (turns : ℕ) {flow : Flow} {input : List UInt8} (hlimits : connection.SameLimits flow.connection)
    (hframes : Sendable connection.maxAckRanges maxInput frames) (hwire : input ++ unread = encodeFrames frames) :
    BatchMeets connection frames unread turns (decodeBatch maxInput turns flow input) := by
  induction turns generalizing flow input frames with
  | zero => exact .limit frames rfl rfl rfl hwire
  | succ turns ih =>
    rw [← hlimits.maxAckRanges] at hframes
    rcases decodeControl_encodeFrames hframes hwire with ⟨hcut, hshort⟩ | ⟨frame, rest, rfl, hdecode, hrest⟩
    · rw [decodeBatch, hcut]
      exact .waits frames rfl rfl hwire hshort
    · have hnext := hlimits.trans (Flow.applyControl_limits (s := flow) frame)
      rw [hlimits.maxAckRanges] at hframes
      have hbatch := (ih hnext (fun other hmem => hframes other (List.mem_cons_of_mem frame hmem)) hrest).cons frame
      rw [decodeBatch, hdecode]
      rcases happly : flow.applyControl frame with ⟨next, verdict⟩
      rw [happly] at hbatch
      cases verdict with
      | next =>
        simp only [happly]
        exact hbatch
      | done progress =>
        simp only [happly]
        exact hbatch
      | failed error =>
        simp only [happly]
        exact .rejected flow [] rest frame hlimits (Or.inl ⟨error, rfl, by rw [happly]⟩) rfl rfl
      | panicked =>
        simp only [happly]
        exact .rejected flow [] rest frame hlimits (Or.inr ⟨rfl, by rw [happly]⟩) rfl rfl

theorem decodeBatch_limits (maxInput turns : ℕ) (flow : Flow) (input : List UInt8) :
    flow.connection.SameLimits (decodeBatch maxInput turns flow input).flow.connection := by
  induction turns generalizing flow input with
  | zero => exact .refl _
  | succ turns ih =>
    rw [decodeBatch]
    split
    · exact .refl _
    · exact .refl _
    · next frame consumed _ =>
      have hsame := Flow.applyControl_limits (s := flow) frame
      split
      · next happly =>
        rw [happly] at hsame
        exact hsame
      · next happly =>
        rw [happly] at hsame
        exact hsame
      · next happly =>
        rw [happly] at hsame
        exact hsame.trans (ih _ _)

theorem decodeBatch_input_length (maxInput turns : ℕ) (flow : Flow) (input : List UInt8) :
    (decodeBatch maxInput turns flow input).input.length ≤ input.length := by
  induction turns generalizing flow input with
  | zero => exact Nat.le_refl _
  | succ turns ih =>
    rw [decodeBatch]
    split
    · exact Nat.le_refl _
    · exact Nat.zero_le _
    · split
      · exact Nat.zero_le _
      · exact Nat.zero_le _
      · exact (ih _ _).trans (List.length_drop.trans_le (Nat.sub_le _ _))

/-- A reader between polls: the frames handed to `apply_control` so far, how often the stream answered with all that
it had, and what the last poll returned. -/
structure PollRun where
  reader : ControlReader
  handed : List ControlFrame
  offers : ℕ
  last : ReceivePoll

namespace PollRun

inductive Action
  | poll (answer : ReadAnswer)
  | others (flow : Flow)

/-- The stream is not holding back: it gives a byte if it has one. -/
def gives (stream : List UInt8) : ReadAnswer → Bool
  | .bytes _ => true
  | _ => stream.isEmpty

def apply (s : PollRun) : Action → PollRun
  | .poll answer =>
    let out := s.reader.pollReceive answer
    ⟨out.1.1, s.handed ++ out.1.2, s.offers + (gives s.reader.stream answer).toNat, out.2⟩
  | .others flow => { s with reader := { s.reader with flow := flow } }

def goesOn : ReceivePoll → Bool
  | .ready | .pending => true
  | _ => false

def Allows (s : PollRun) : Action → Prop
  | .poll .pending => goesOn s.last = true
  | .poll (.bytes offered) => goesOn s.last = true ∧ 1 ≤ offered ∧ s.reader.stream ≠ []
  | .poll _ => False
  | .others flow => s.reader.flow.connection.SameLimits flow.connection

def Step (s : PollRun) (action : Action) (t : PollRun) : Prop := s.Allows action ∧ t = s.apply action

structure Initial (connection : Connection) (frames : List ControlFrame) (s : PollRun) : Prop where
  connected : s.reader.flow.connection = connection
  maxInput : s.reader.maxInput = Flow.controlInputLimit connection.maxStreamPayload connection.maxAckRanges
  input : s.reader.input = []
  stream : s.reader.stream = encodeFrames frames
  handed : s.handed = []
  offers : s.offers = 0
  last : s.last = .ready

/-- A task that goes on has handed over the first frames, and the bytes of the others are buffered or not read. -/
structure Follows (frames : List ControlFrame) (s : PollRun) (later : List ControlFrame) : Prop where
  goesOn : goesOn s.last = true
  split : frames = s.handed ++ later
  bytes : s.reader.input ++ s.reader.stream = encodeFrames later
  waits : s.last = .pending → s.reader.stream = [] → later = []
  offers : later = [] ∨ s.offers + s.reader.stream.length ≤ (encodeFrames frames).length + s.handed.length

structure Inv (connection : Connection) (frames : List ControlFrame) (s : PollRun) : Prop where
  limits : connection.SameLimits s.reader.flow.connection
  maxInput : s.reader.maxInput = Flow.controlInputLimit connection.maxStreamPayload connection.maxAckRanges
  buffered : s.reader.input.length ≤ s.reader.maxInput
  progress : (∃ later, s.Follows frames later) ∨
    ∃ flow accepted frame later, connection.SameLimits flow.connection ∧ Rejects flow frame s.last ∧
      frames = accepted ++ frame :: later ∧ s.handed = accepted ++ [frame]

private theorem controlInputLimit_pos (maxStreamPayload maxAckRanges : ℕ) :
    0 < Flow.controlInputLimit maxStreamPayload maxAckRanges := by
  refine lt_max_of_lt_left ?_
  unfold saturatingAdd wordMax
  omega

section Run

variable {connection : Connection} {frames later after : List ControlFrame} {s : PollRun}

theorem Initial.inv (h : s.Initial connection frames) : s.Inv connection frames := by
  refine ⟨by rw [h.connected]; exact .refl _, h.maxInput, by rw [h.input]; exact Nat.zero_le _, Or.inl ⟨frames, ?_⟩⟩
  exact ⟨by rw [h.last]; rfl, by rw [h.handed]; rfl, by rw [h.input, h.stream]; rfl, by rw [h.last]; nofun,
    Or.inr (by rw [h.offers, h.stream]; omega)⟩

theorem Inv.others (h : s.Inv connection frames) {flow : Flow}
    (hlimits : s.reader.flow.connection.SameLimits flow.connection) :
    (s.apply (.others flow)).Inv connection frames := by
  refine ⟨h.limits.trans hlimits, h.maxInput, h.buffered, ?_⟩
  rcases h.progress with ⟨later, hlater⟩ | hended
  · exact Or.inl ⟨later, hlater.goesOn, hlater.split, hlater.bytes, hlater.waits, hlater.offers⟩
  · exact Or.inr hended

theorem Inv.follows (h : s.Inv connection frames) (hgoes : goesOn s.last = true) :
    ∃ later, s.Follows frames later := by
  rcases h.progress with hlater | ⟨flow, accepted, frame, later, -, hended, -⟩
  · exact hlater
  · rcases hended with ⟨error, hlast, -⟩ | ⟨hlast, -⟩ <;> rw [hlast] at hgoes <;> cases hgoes

private theorem room_of_short {input stream : List UInt8} {maxAckRanges maxInput : ℕ}
    (hsendable : Sendable maxAckRanges maxInput later) (hroom : 0 < maxInput)
    (hbytes : input ++ stream = encodeFrames later)
    (hshort : ∀ frame, later.head? = some frame → input.length < (encodeControl frame).length) :
    input.length < maxInput ∧ (stream = [] → later = []) := by
  cases later with
  | nil =>
    obtain ⟨rfl, -⟩ := List.append_eq_nil_iff.mp hbytes
    exact ⟨hroom, fun _ => rfl⟩
  | cons frame rest =>
    have hcut := hshort frame rfl
    refine ⟨hcut.trans_le (hsendable frame List.mem_cons_self).2, fun hstream => ?_⟩
    rw [hstream, List.append_nil] at hbytes
    rw [hbytes, encodeFrames, List.map_cons, List.flatten_cons, List.length_append] at hcut
    omega

private theorem readMore_bytes {reader : ControlReader} {offered : ℕ} (hroom : reader.input.length < reader.maxInput)
    (hoffered : 1 ≤ offered) (hstream : reader.stream ≠ []) :
    ∃ count, 1 ≤ count ∧ count ≤ reader.stream.length ∧ reader.input.length + count ≤ reader.maxInput ∧
      reader.readMore (.bytes offered) = ({ reader with
        input := reader.input ++ reader.stream.take count
        stream := reader.stream.drop count }, .ready) := by
  have hlength : 0 < reader.stream.length := List.length_pos_iff.mpr hstream
  have hscratch : 1 ≤ ControlReader.scratchLength reader.maxInput := le_max_left _ _
  have hread : (reader.stream.take (min offered (min (reader.maxInput - reader.input.length)
      (ControlReader.scratchLength reader.maxInput)))).length = min (min offered (min
        (reader.maxInput - reader.input.length) (ControlReader.scratchLength reader.maxInput))) reader.stream.length :=
    List.length_take
  generalize hcount : min offered (min (reader.maxInput - reader.input.length)
    (ControlReader.scratchLength reader.maxInput)) = most at hread
  refine ⟨(reader.stream.take most).length, by omega, by omega, by omega, ?_⟩
  have hsome : reader.stream.take most ≠ [] := List.length_pos_iff.mp (by omega)
  rw [ControlReader.readMore, if_neg (by omega), hcount]
  simp only [if_neg hsome]
  rw [hread, ← List.take_eq_take_min]

private theorem Inv.afterBatch (h : s.Inv connection frames) :
    connection.SameLimits s.reader.afterBatch.flow.connection ∧
      s.reader.afterBatch.input.length ≤ s.reader.maxInput :=
  ⟨h.limits.trans (decodeBatch_limits _ _ _ _), (decodeBatch_input_length _ _ _ _).trans h.buffered⟩

private theorem Follows.limit (h : s.Follows frames later) (answer : ReadAnswer)
    (hsplit : later = s.reader.batch.handed ++ after) (hfull : s.reader.batch.handed.length = controlDecodeBatch)
    (hbytes : s.reader.batch.input ++ s.reader.stream = encodeFrames after) :
    Follows frames ⟨s.reader.afterBatch, s.handed ++ s.reader.batch.handed,
      s.offers + (gives s.reader.stream answer).toNat, .ready⟩ after := by
  have hsome : later ≠ [] := fun hnil => by
    rw [hnil, List.nil_eq, List.append_eq_nil_iff] at hsplit
    rw [hsplit.1] at hfull
    cases hfull
  have hoffers := h.offers.resolve_left hsome
  have hoffer : (gives s.reader.stream answer).toNat ≤ 1 := Bool.toNat_le _
  refine ⟨rfl, by rw [List.append_assoc, ← hsplit]; exact h.split, hbytes, nofun, Or.inr ?_⟩
  simp only [ControlReader.afterBatch, List.length_append, hfull]
  unfold controlDecodeBatch
  omega

private theorem Follows.pending (h : s.Follows frames later) (hsplit : later = s.reader.batch.handed ++ after)
    (hbytes : s.reader.batch.input ++ s.reader.stream = encodeFrames after)
    (hend : s.reader.stream = [] → after = []) :
    Follows frames ⟨s.reader.afterBatch, s.handed ++ s.reader.batch.handed,
      s.offers + (gives s.reader.stream .pending).toNat, .pending⟩ after := by
  refine ⟨rfl, by rw [List.append_assoc, ← hsplit]; exact h.split, hbytes, fun _ => hend, ?_⟩
  rcases h.offers with hnil | hoffers
  · rw [hnil, List.nil_eq, List.append_eq_nil_iff] at hsplit
    exact Or.inl hsplit.2
  · by_cases hstream : s.reader.stream = []
    · exact Or.inl (hend hstream)
    · have hnone : gives s.reader.stream .pending = false := List.isEmpty_eq_false_iff.mpr hstream
      rw [hnone]
      right
      simp only [ControlReader.afterBatch, List.length_append, Bool.toNat_false]
      omega

private theorem Follows.read (h : s.Follows frames later) {count : ℕ} (offered : ℕ) (hcount : 1 ≤ count)
    (hmost : count ≤ s.reader.stream.length) (hsplit : later = s.reader.batch.handed ++ after)
    (hbytes : s.reader.batch.input ++ s.reader.stream = encodeFrames after) :
    Follows frames ⟨{ s.reader.afterBatch with
        input := s.reader.afterBatch.input ++ s.reader.stream.take count
        stream := s.reader.stream.drop count },
      s.handed ++ s.reader.batch.handed, s.offers + (gives s.reader.stream (.bytes offered)).toNat, .ready⟩ after := by
  refine ⟨rfl, by rw [List.append_assoc, ← hsplit]; exact h.split, ?_, nofun, ?_⟩
  · rw [List.append_assoc, List.take_append_drop]
    exact hbytes
  · rcases h.offers with hnil | hoffers
    · rw [hnil, List.nil_eq, List.append_eq_nil_iff] at hsplit
      exact Or.inl hsplit.2
    · right
      simp only [gives, Bool.toNat_true, List.length_drop, List.length_append]
      omega

private theorem Inv.waits (h : s.Inv connection frames)
    (hframes : Sendable connection.maxAckRanges s.reader.maxInput frames) (hfollows : s.Follows frames later) {answer : ReadAnswer}
    (hallows : s.Allows (.poll answer)) (hended : s.reader.batch.ended = .waits)
    (hsplit : later = s.reader.batch.handed ++ after)
    (hbytes : s.reader.batch.input ++ s.reader.stream = encodeFrames after)
    (hshort : ∀ frame, after.head? = some frame → s.reader.batch.input.length < (encodeControl frame).length) :
    (s.apply (.poll answer)).Inv connection frames := by
  obtain ⟨hlimits, hbuffered⟩ := h.afterBatch
  have hafter : Sendable connection.maxAckRanges s.reader.maxInput after := fun frame hmem =>
    hframes frame (by rw [hfollows.split, hsplit]; exact List.mem_append_right _ (List.mem_append_right _ hmem))
  have hpositive : 0 < s.reader.maxInput := h.maxInput ▸ controlInputLimit_pos _ _
  obtain ⟨hroom, hend⟩ := room_of_short hafter hpositive hbytes hshort
  have hpoll := ControlReader.pollReceive_waits hended answer
  cases answer with
  | pending =>
    have hread : s.reader.afterBatch.readMore .pending = (s.reader.afterBatch, .pending) := by
      have hremaining : ¬s.reader.afterBatch.maxInput - s.reader.afterBatch.input.length = 0 :=
        Nat.sub_ne_zero_of_lt hroom
      rw [ControlReader.readMore, if_neg hremaining]
    simp only [apply, hpoll, hread]
    exact ⟨hlimits, h.maxInput, hbuffered, Or.inl ⟨after, hfollows.pending hsplit hbytes hend⟩⟩
  | bytes offered =>
    obtain ⟨count, hcount, hmost, hfits, hread⟩ :=
      readMore_bytes (show s.reader.afterBatch.input.length < s.reader.afterBatch.maxInput from hroom) hallows.2.1
        hallows.2.2
    simp only [apply, hpoll, hread]
    refine ⟨hlimits, h.maxInput, ?_, Or.inl ⟨after, hfollows.read offered hcount hmost hsplit hbytes⟩⟩
    rw [List.length_append, List.length_take]
    exact (Nat.add_le_add_left (Nat.min_le_left _ _) _).trans hfits
  | reset error => exact hallows.elim
  | failed => exact hallows.elim

theorem Inv.poll (h : s.Inv connection frames)
    (hframes : Sendable connection.maxAckRanges s.reader.maxInput frames) {answer : ReadAnswer}
    (hallows : s.Allows (.poll answer)) : (s.apply (.poll answer)).Inv connection frames := by
  have hgoes : goesOn s.last = true := by
    cases answer with
    | pending => exact hallows
    | bytes offered => exact hallows.1
    | reset error => exact hallows.elim
    | failed => exact hallows.elim
  obtain ⟨later, hfollows⟩ := h.follows hgoes
  obtain ⟨hlimits, hbuffered⟩ := h.afterBatch
  have hlater : Sendable connection.maxAckRanges s.reader.maxInput later := fun frame hmem =>
    hframes frame (hfollows.split ▸ List.mem_append_right _ hmem)
  have hmeets : BatchMeets connection later s.reader.stream controlDecodeBatch s.reader.batch :=
    decodeBatch_meets controlDecodeBatch h.limits hlater hfollows.bytes
  cases hmeets with
  | limit after ended split full bytes =>
    have hpoll := ControlReader.pollReceive_ends (by rw [ended]; nofun) answer
    simp only [apply, hpoll, ended, BatchEnd.result]
    exact ⟨hlimits, h.maxInput, hbuffered, Or.inl ⟨after, hfollows.limit answer split full bytes⟩⟩
  | waits after ended split bytes short => exact h.waits hframes hfollows hallows ended split bytes short
  | rejected flow accepted after frame limits ended split handed =>
    have hwaits : s.reader.batch.ended ≠ .waits := fun hwaits => by
      rw [hwaits] at ended
      rcases ended with ⟨error, hresult, -⟩ | ⟨hresult, -⟩ <;> cases hresult
    have hpoll := ControlReader.pollReceive_ends hwaits answer
    simp only [apply, hpoll]
    refine ⟨hlimits, h.maxInput, hbuffered, Or.inr ⟨flow, s.handed ++ accepted, frame, after, limits, ended, ?_, ?_⟩⟩
    · rw [List.append_assoc, ← split]
      exact hfollows.split
    · rw [handed, List.append_assoc]

theorem Inv.step {t : PollRun} {action : Action} (h : s.Inv connection frames)
    (hframes : Sendable connection.maxAckRanges
      (Flow.controlInputLimit connection.maxStreamPayload connection.maxAckRanges) frames)
    (hstep : s.Step action t) : t.Inv connection frames := by
  obtain ⟨hallows, rfl⟩ := hstep
  cases action with
  | poll answer => exact h.poll (by rw [h.maxInput]; exact hframes) hallows
  | others flow => exact h.others hallows

end Run

end PollRun

end Quicp
