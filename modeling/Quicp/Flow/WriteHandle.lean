import Quicp.Flow.Shared
import Quicp.Library.Reachable

/-!
# Writing through a flow handle

A handle collects small writes in one buffer and hands the buffer to the flow as one chunk.
-/

namespace Quicp

/-- `io::Error` of a handle. -/
abbrev IoError := IoErrorKind × IoMessage

/-- What the flow answers to a chunk: it took it, has no room, or fails. -/
inductive EnqueueAnswer
  | accepted
  | notReady
  | failed (error : IoError)
  deriving DecidableEq, Repr

/-- The answer of `enqueue` in a state of the flow. -/
def FlowShared.enqueueAnswer (s : FlowShared) (chunk : List UInt8) : EnqueueAnswer :=
  match (s.enqueue chunk).1 with
  | .ok (some _) => .accepted
  | .ok none => .notReady
  | .error error => .failed error

/-- The answer of `can_enqueue` in a state of the flow. -/
def FlowShared.readyAnswer (s : FlowShared) (length : ℕ) : EnqueueAnswer :=
  match s.enqueueReady length with
  | .ok true => .accepted
  | .ok false => .notReady
  | .error error => .failed error

/-- The send buffer of a handle, and the chunks that the flow took from it. -/
structure Writer where
  sendBuffer : List UInt8
  enqueued : List (List UInt8)
  deriving DecidableEq, Repr

/-- The answers during one write: to the attempt that makes room, to `can_enqueue` for a whole buffer, and to the
attempt behind the append. -/
structure WriteAnswers where
  first : List UInt8 → EnqueueAnswer
  canEnqueue : EnqueueAnswer
  last : List UInt8 → EnqueueAnswer

namespace Writer

/-- `poll_send_buffer`: hand the buffer over; a chunk that was not taken is the buffer again. -/
def pollSendBuffer (w : Writer) (enqueue : List UInt8 → EnqueueAnswer) : Poll (Outcome IoError Unit) × Writer :=
  if w.sendBuffer = [] then (.ready (.ok ()), w)
  else match enqueue w.sendBuffer with
    | .accepted => (.ready (.ok ()), ⟨[], w.enqueued ++ [w.sendBuffer]⟩)
    | .notReady => (.pending, w)
    | .failed error => (.ready (.err error), w)

/-- The first part of `poll_buffered_write`: send what a no-delay write must not wait behind, and a full buffer. -/
def makeRoom (w : Writer) (nodelay : Bool) (flowBufferBytes : ℕ) (enqueue : List UInt8 → EnqueueAnswer) :
    Poll (Outcome IoError Unit) × Writer :=
  if (nodelay && !w.sendBuffer.isEmpty) || w.sendBuffer.length == flowBufferBytes then w.pollSendBuffer enqueue
  else (.ready (.ok ()), w)

/-- The last part of `poll_buffered_write`: append the chunk, and send a buffer that must not wait. Only an error of
this attempt is the answer of the write. -/
def appendChunk (w : Writer) (nodelay : Bool) (flowBufferBytes : ℕ) (chunk : List UInt8)
    (enqueue : List UInt8 → EnqueueAnswer) : Poll (Outcome IoError ℕ) × Writer :=
  let w := { w with sendBuffer := w.sendBuffer ++ chunk }
  if nodelay || w.sendBuffer.length == flowBufferBytes then
    match w.pollSendBuffer enqueue with
    | (.ready (.err error), w) => (.ready (.err error), w)
    | (_, w) => (.ready (.ok chunk.length), w)
  else (.ready (.ok chunk.length), w)

def fitting (w : Writer) (flowBufferBytes : ℕ) (buf : List UInt8) : List UInt8 :=
  buf.take (min (flowBufferBytes - w.sendBuffer.length) buf.length)

/-- The middle of `poll_buffered_write`: a delayed write that fills the buffer asks first whether it could be sent. The
subtraction panics on a buffer beyond its size. -/
def writeFitting (w : Writer) (nodelay : Bool) (flowBufferBytes : ℕ) (answers : WriteAnswers) (buf : List UInt8) :
    Poll (Outcome IoError ℕ) × Writer :=
  if flowBufferBytes < w.sendBuffer.length then (.ready .panicked, w)
  else
    let chunk := w.fitting flowBufferBytes buf
    if !nodelay && w.sendBuffer.length + chunk.length == flowBufferBytes then
      match answers.canEnqueue with
      | .failed error => (.ready (.err error), w)
      | .notReady => (.pending, w)
      | .accepted => w.appendChunk nodelay flowBufferBytes chunk answers.last
    else w.appendChunk nodelay flowBufferBytes chunk answers.last

def pollBufferedWrite (w : Writer) (nodelay : Bool) (flowBufferBytes : ℕ) (answers : WriteAnswers) (buf : List UInt8) :
    Poll (Outcome IoError ℕ) × Writer :=
  if buf = [] then (.ready (.ok 0), w)
  else match w.makeRoom nodelay flowBufferBytes answers.first with
    | (.ready (.ok ()), w) => w.writeFitting nodelay flowBufferBytes answers buf
    | (.ready (.err error), w) => (.ready (.err error), w)
    | (.ready .panicked, w) => (.ready .panicked, w)
    | (.pending, w) => (.pending, w)

/-- What `poll_flush` and `poll_shutdown` share: send the buffer, then ask the flow. -/
def pollThen (w : Writer) (enqueue : List UInt8 → EnqueueAnswer) (request : Except IoError Bool) :
    Poll (Outcome IoError Unit) × Writer :=
  match w.pollSendBuffer enqueue with
  | (.ready (.ok ()), w) =>
    match request with
    | .ok true => (.ready (.ok ()), w)
    | .ok false => (.pending, w)
    | .error error => (.ready (.err error), w)
  | stopped => stopped

/-- `poll_flush`, with the answer of `request_flush`. -/
def pollFlush (w : Writer) (enqueue : List UInt8 → EnqueueAnswer) (requestFlush : Except IoError Bool) :
    Poll (Outcome IoError Unit) × Writer := w.pollThen enqueue requestFlush

/-- `poll_shutdown`, with the answer of `request_shutdown`. -/
def pollShutdown (w : Writer) (enqueue : List UInt8 → EnqueueAnswer) (requestShutdown : Except IoError Bool) :
    Poll (Outcome IoError Unit) × Writer := w.pollThen enqueue requestShutdown

/-- The bytes that the flow took, and those that wait behind them. -/
def stream (w : Writer) : List UInt8 := w.enqueued.flatten ++ w.sendBuffer

theorem pollSendBuffer_spec (w : Writer) (enqueue : List UInt8 → EnqueueAnswer) :
    (w.pollSendBuffer enqueue).2.stream = w.stream ∧
      ((w.pollSendBuffer enqueue).1 = .ready (.ok ()) ∧ (w.pollSendBuffer enqueue).2.sendBuffer = [] ∨
      (w.pollSendBuffer enqueue).1 ≠ .ready (.ok ()) ∧ (w.pollSendBuffer enqueue).1 ≠ .ready .panicked ∧
        (w.pollSendBuffer enqueue).2 = w) := by
  unfold pollSendBuffer
  split
  · rename_i hempty
    exact ⟨rfl, Or.inl ⟨rfl, hempty⟩⟩
  · split
    · refine ⟨?_, Or.inl ⟨rfl, rfl⟩⟩
      simp [stream]
    · exact ⟨rfl, Or.inr ⟨nofun, nofun, rfl⟩⟩
    · exact ⟨rfl, Or.inr ⟨nofun, nofun, rfl⟩⟩

variable {w : Writer}

theorem pollSendBuffer_eq_err {enqueue : List UInt8 → EnqueueAnswer} {error : IoError} :
    (w.pollSendBuffer enqueue).1 = .ready (.err error) ↔
      w.sendBuffer ≠ [] ∧ enqueue w.sendBuffer = .failed error := by
  unfold pollSendBuffer
  split
  · rename_i hempty
    simp [hempty]
  · rename_i hne
    cases enqueue w.sendBuffer <;> simp [hne]

/-- The attempt to send the buffer behind an append fails. -/
def SendFails (w : Writer) (nodelay : Bool) (flowBufferBytes : ℕ) (chunk : List UInt8)
    (enqueue : List UInt8 → EnqueueAnswer) : Prop :=
  (nodelay = true ∨ w.sendBuffer.length + chunk.length = flowBufferBytes) ∧ w.sendBuffer ++ chunk ≠ [] ∧
    ∃ error, enqueue (w.sendBuffer ++ chunk) = .failed error

theorem appendChunk_spec (w : Writer) (nodelay : Bool) (flowBufferBytes : ℕ) (chunk : List UInt8)
    (enqueue : List UInt8 → EnqueueAnswer) :
    (w.appendChunk nodelay flowBufferBytes chunk enqueue).2.stream = w.stream ++ chunk ∧
    (w.appendChunk nodelay flowBufferBytes chunk enqueue).2.sendBuffer.length ≤ w.sendBuffer.length + chunk.length ∧
    ((w.appendChunk nodelay flowBufferBytes chunk enqueue).1 = .ready (.ok chunk.length) ∧
        ¬w.SendFails nodelay flowBufferBytes chunk enqueue ∨
      w.SendFails nodelay flowBufferBytes chunk enqueue ∧
        ∃ error, (w.appendChunk nodelay flowBufferBytes chunk enqueue).1 = .ready (.err error)) := by
  have happend : Writer.stream { w with sendBuffer := w.sendBuffer ++ chunk } = w.stream ++ chunk :=
    (List.append_assoc _ _ _).symm
  obtain ⟨hstream, hsent⟩ := pollSendBuffer_spec { w with sendBuffer := w.sendBuffer ++ chunk } enqueue
  simp only [appendChunk, SendFails, List.length_append]
  by_cases hnow : (nodelay || w.sendBuffer.length + chunk.length == flowBufferBytes) = true
  · rw [if_pos hnow]
    rw [Bool.or_eq_true, beq_iff_eq] at hnow
    rcases hpoll : pollSendBuffer { w with sendBuffer := w.sendBuffer ++ chunk } enqueue with ⟨answer, next⟩
    rw [hpoll] at hstream hsent
    have hshort : next.sendBuffer.length ≤ w.sendBuffer.length + chunk.length := by
      rcases hsent with ⟨-, hempty⟩ | ⟨-, -, hsame⟩
      · rw [show next.sendBuffer = [] from hempty]
        exact Nat.zero_le _
      · rw [show next = _ from hsame, List.length_append]
    have hnot : (∀ error, answer ≠ .ready (.err error)) →
        ¬(w.sendBuffer ++ chunk ≠ [] ∧ ∃ error, enqueue (w.sendBuffer ++ chunk) = .failed error) := by
      rintro hanswer ⟨hne, error, hfailed⟩
      exact hanswer error ((congrArg Prod.fst hpoll).symm.trans (pollSendBuffer_eq_err.mpr ⟨hne, hfailed⟩))
    match answer, hpoll, hnot with
    | .pending, _, hnot => exact ⟨hstream.trans happend, hshort, Or.inl ⟨rfl, fun h => hnot nofun h.2⟩⟩
    | .ready (.ok ()), _, hnot => exact ⟨hstream.trans happend, hshort, Or.inl ⟨rfl, fun h => hnot nofun h.2⟩⟩
    | .ready .panicked, _, hnot => exact ⟨hstream.trans happend, hshort, Or.inl ⟨rfl, fun h => hnot nofun h.2⟩⟩
    | .ready (.err error), hpoll, _ =>
      have hfailed := pollSendBuffer_eq_err.mp (congrArg Prod.fst hpoll)
      exact ⟨hstream.trans happend, hshort, Or.inr ⟨⟨hnow, hfailed.1, error, hfailed.2⟩, error, rfl⟩⟩
  · rw [if_neg hnow]
    rw [Bool.or_eq_true, beq_iff_eq] at hnow
    exact ⟨happend, by simp, Or.inl ⟨rfl, fun h => hnow h.1⟩⟩

variable {flowBufferBytes : ℕ}

theorem length_fitting_le (hfits : w.sendBuffer.length ≤ flowBufferBytes)
    (buf : List UInt8) : w.sendBuffer.length + (w.fitting flowBufferBytes buf).length ≤ flowBufferBytes := by
  rw [fitting, List.length_take]
  omega

theorem makeRoom_spec (nodelay : Bool) (enqueue : List UInt8 → EnqueueAnswer)
    (hfits : w.sendBuffer.length ≤ flowBufferBytes) :
    (w.makeRoom nodelay flowBufferBytes enqueue).2.stream = w.stream ∧
    (w.makeRoom nodelay flowBufferBytes enqueue).2.sendBuffer.length ≤ flowBufferBytes ∧
    (w.makeRoom nodelay flowBufferBytes enqueue).1 ≠ .ready .panicked ∧
    ((w.makeRoom nodelay flowBufferBytes enqueue).1 = .ready (.ok ()) →
      (w.makeRoom nodelay flowBufferBytes enqueue).2.sendBuffer.length < flowBufferBytes ∨
        (w.makeRoom nodelay flowBufferBytes enqueue).2.sendBuffer = []) := by
  obtain ⟨hstream, hsent⟩ := pollSendBuffer_spec w enqueue
  unfold makeRoom
  split_ifs with hsend
  · rcases hsent with ⟨hok, hempty⟩ | ⟨hnot, hpanic, hsame⟩
    · exact ⟨hstream, by rw [hempty]; exact Nat.zero_le _, by rw [hok]; nofun, fun _ => Or.inr hempty⟩
    · exact ⟨hstream, by rw [hsame]; exact hfits, hpanic, fun hok => absurd hok hnot⟩
  · rw [Bool.or_eq_true, beq_iff_eq, not_or] at hsend
    exact ⟨rfl, hfits, nofun, fun _ => Or.inl (lt_of_le_of_ne hfits hsend.2)⟩

/-- The flow fails on the attempt behind the append of a write. -/
def AppendFails (w : Writer) (nodelay : Bool) (flowBufferBytes : ℕ) (answers : WriteAnswers) (buf : List UInt8) : Prop :=
  buf ≠ [] ∧ ∃ room, w.makeRoom nodelay flowBufferBytes answers.first = (.ready (.ok ()), room) ∧
    (nodelay = true ∨ answers.canEnqueue = .accepted) ∧
    room.SendFails nodelay flowBufferBytes (room.fitting flowBufferBytes buf) answers.last

/-- What a write did: it took the first bytes, it took none, or it failed behind the append and has bytes of a write that
it reports as failed. -/
def Wrote (w next : Writer) (buf : List UInt8) (answer : Poll (Outcome IoError ℕ)) (fails : Prop) : Prop :=
  ¬fails ∧ (∃ count, answer = .ready (.ok count) ∧ next.stream = w.stream ++ buf.take count) ∨
  ¬fails ∧ (answer = .pending ∨ ∃ error, answer = .ready (.err error)) ∧ next.stream = w.stream ∨
  fails ∧ (∃ error, answer = .ready (.err error)) ∧ ∃ count > 0, next.stream = w.stream ++ buf.take count

theorem writeFitting_spec {buf : List UInt8} (nodelay : Bool)
    (answers : WriteAnswers) (hfits : w.sendBuffer.length ≤ flowBufferBytes)
    (hroom : w.sendBuffer.length < flowBufferBytes ∨ w.sendBuffer = []) (hbuf : buf ≠ []) :
    (w.writeFitting nodelay flowBufferBytes answers buf).2.sendBuffer.length ≤ flowBufferBytes ∧
    Wrote w (w.writeFitting nodelay flowBufferBytes answers buf).2 buf
      (w.writeFitting nodelay flowBufferBytes answers buf).1
      ((nodelay = true ∨ answers.canEnqueue = .accepted) ∧
        w.SendFails nodelay flowBufferBytes (w.fitting flowBufferBytes buf) answers.last) := by
  obtain ⟨hstream, hlength, hanswer⟩ :=
    w.appendChunk_spec nodelay flowBufferBytes (w.fitting flowBufferBytes buf) answers.last
  have hshort := hlength.trans (length_fitting_le hfits buf)
  have hcount : (w.fitting flowBufferBytes buf).length = min (flowBufferBytes - w.sendBuffer.length) buf.length := by
    rw [fitting, List.length_take]
    omega
  have htake : w.fitting flowBufferBytes buf = buf.take (w.fitting flowBufferBytes buf).length := by rw [hcount, fitting]
  have happended : (nodelay = true ∨ answers.canEnqueue = .accepted) ∨
      ¬w.sendBuffer.length + (w.fitting flowBufferBytes buf).length = flowBufferBytes →
      Wrote w (w.appendChunk nodelay flowBufferBytes (w.fitting flowBufferBytes buf) answers.last).2 buf
        (w.appendChunk nodelay flowBufferBytes (w.fitting flowBufferBytes buf) answers.last).1
        ((nodelay = true ∨ answers.canEnqueue = .accepted) ∧
          w.SendFails nodelay flowBufferBytes (w.fitting flowBufferBytes buf) answers.last) := by
    intro hway
    rcases hanswer with ⟨hok, hnot⟩ | ⟨hfails, error, herr⟩
    · exact Or.inl ⟨fun h => hnot h.2, _, hok, hstream.trans (congrArg _ htake)⟩
    · refine Or.inr (Or.inr ⟨⟨?_, hfails⟩, ⟨error, herr⟩, _, ?_, hstream.trans (congrArg _ htake)⟩)
      · rcases hway with hway | hopen
        · exact hway
        · exact Or.inl (hfails.1.resolve_right hopen)
      · have hlengthBuf := List.length_pos_iff.mpr hbuf
        rcases hroom with hroom | hempty
        · omega
        · have hne := List.length_pos_iff.mpr hfails.2.1
          rwa [hempty, List.nil_append] at hne
  unfold writeFitting
  rw [if_neg (not_lt.mpr hfits)]
  dsimp only
  split_ifs with hasks
  · rw [Bool.and_eq_true, Bool.not_eq_true', beq_iff_eq] at hasks
    have hdelayed : ¬nodelay = true := by simp [hasks.1]
    cases hready : answers.canEnqueue with
    | accepted =>
      rw [hready] at happended
      exact ⟨hshort, happended (Or.inl (Or.inr rfl))⟩
    | notReady => exact ⟨hfits, Or.inr (Or.inl ⟨fun h => by simpa [hdelayed] using h.1, Or.inl rfl, rfl⟩)⟩
    | failed error =>
      exact ⟨hfits, Or.inr (Or.inl ⟨fun h => by simpa [hdelayed] using h.1, Or.inr ⟨error, rfl⟩, rfl⟩)⟩
  · refine ⟨hshort, happended ?_⟩
    rw [Bool.and_eq_true, Bool.not_eq_true', beq_iff_eq, not_and] at hasks
    by_cases hdelay : nodelay = true
    · exact Or.inl (Or.inl hdelay)
    · exact Or.inr (hasks (by simpa using hdelay))

theorem pollBufferedWrite_spec (nodelay : Bool) (answers : WriteAnswers)
    (buf : List UInt8) (hfits : w.sendBuffer.length ≤ flowBufferBytes) :
    (w.pollBufferedWrite nodelay flowBufferBytes answers buf).2.sendBuffer.length ≤ flowBufferBytes ∧
    Wrote w (w.pollBufferedWrite nodelay flowBufferBytes answers buf).2 buf
      (w.pollBufferedWrite nodelay flowBufferBytes answers buf).1 (w.AppendFails nodelay flowBufferBytes answers buf) := by
  unfold pollBufferedWrite
  split_ifs with hempty
  · refine ⟨hfits, Or.inl ⟨fun h => h.1 hempty, 0, rfl, ?_⟩⟩
    rw [List.take_zero, List.append_nil]
  · obtain ⟨hstream, hshort, hpanic, hroom⟩ := makeRoom_spec nodelay answers.first hfits
    rcases hmake : w.makeRoom nodelay flowBufferBytes answers.first with ⟨answer, room⟩
    rw [hmake] at hstream hshort hpanic hroom
    have hnot : answer ≠ .ready (.ok ()) → ¬w.AppendFails nodelay flowBufferBytes answers buf := by
      rintro hanswer ⟨-, other, hmade, -⟩
      exact hanswer (congrArg Prod.fst (hmake.symm.trans hmade))
    match answer with
    | .pending => exact ⟨hshort, Or.inr (Or.inl ⟨hnot nofun, Or.inl rfl, hstream⟩)⟩
    | .ready (.err error) => exact ⟨hshort, Or.inr (Or.inl ⟨hnot nofun, Or.inr ⟨error, rfl⟩, hstream⟩)⟩
    | .ready .panicked => exact absurd rfl hpanic
    | .ready (.ok ()) =>
      have hfails : w.AppendFails nodelay flowBufferBytes answers buf ↔
          (nodelay = true ∨ answers.canEnqueue = .accepted) ∧
            room.SendFails nodelay flowBufferBytes (room.fitting flowBufferBytes buf) answers.last := by
        constructor
        · rintro ⟨-, other, hmade, hrest⟩
          obtain rfl : room = other := congrArg Prod.snd (hmake.symm.trans hmade)
          exact hrest
        · exact fun hrest => ⟨hempty, room, hmake, hrest⟩
      obtain ⟨hnext, hwrote⟩ := writeFitting_spec nodelay answers hshort (hroom rfl) hempty
      rw [Wrote, ← hfails, show room.stream = w.stream from hstream] at hwrote
      exact ⟨hnext, hwrote⟩

end Writer

/-- A call on the handle, with the answers that it meets. -/
inductive WriteAction
  | write (buf : List UInt8) (answers : WriteAnswers)
  | sendBuffer (enqueue : List UInt8 → EnqueueAnswer)
  | flush (enqueue : List UInt8 → EnqueueAnswer) (requestFlush : Except IoError Bool)
  | shutdown (enqueue : List UInt8 → EnqueueAnswer) (requestShutdown : Except IoError Bool)
  | setNodelay (nodelay : Bool)

/-- A handle, and the bytes that its writes reported as accepted. -/
structure WriteRun where
  writer : Writer
  nodelay : Bool
  flowBufferBytes : ℕ
  accepted : List UInt8
  deriving DecidableEq, Repr

namespace WriteRun

def acceptedBytes (buf : List UInt8) : Poll (Outcome IoError ℕ) → List UInt8
  | .ready (.ok count) => buf.take count
  | _ => []

def apply (run : WriteRun) : WriteAction → WriteRun
  | .write buf answers =>
    let (answer, writer) := run.writer.pollBufferedWrite run.nodelay run.flowBufferBytes answers buf
    { run with writer := writer, accepted := run.accepted ++ acceptedBytes buf answer }
  | .sendBuffer enqueue => { run with writer := (run.writer.pollSendBuffer enqueue).2 }
  | .flush enqueue requestFlush => { run with writer := (run.writer.pollFlush enqueue requestFlush).2 }
  | .shutdown enqueue requestShutdown => { run with writer := (run.writer.pollShutdown enqueue requestShutdown).2 }
  | .setNodelay nodelay => { run with nodelay := nodelay }

def Initial (run : WriteRun) : Prop := run.writer = ⟨[], []⟩ ∧ run.accepted = []

def Meets (run : WriteRun) : WriteAction → Prop
  | .write buf answers => ¬run.writer.AppendFails run.nodelay run.flowBufferBytes answers buf
  | _ => True

def Step (run : WriteRun) (action : WriteAction) (next : WriteRun) : Prop := run.Meets action ∧ next = run.apply action

structure Inv (run : WriteRun) : Prop where
  stream : run.writer.stream = run.accepted
  fits : run.writer.sendBuffer.length ≤ run.flowBufferBytes

theorem Inv.pollSendBuffer {run : WriteRun} (h : run.Inv) (enqueue : List UInt8 → EnqueueAnswer) :
    Inv { run with writer := (run.writer.pollSendBuffer enqueue).2 } := by
  obtain ⟨hstream, hsent⟩ := run.writer.pollSendBuffer_spec enqueue
  refine ⟨hstream.trans h.stream, ?_⟩
  rcases hsent with ⟨-, hempty⟩ | ⟨-, -, hsame⟩
  · simp [hempty]
  · simp only [hsame]
    exact h.fits

theorem pollThen_writer (w : Writer) (enqueue : List UInt8 → EnqueueAnswer) (request : Except IoError Bool) :
    (w.pollThen enqueue request).2 = (w.pollSendBuffer enqueue).2 := by
  unfold Writer.pollThen
  split
  · rename_i next hpoll
    rw [hpoll]
    split <;> rfl
  · rfl

theorem Inv.step {run next : WriteRun} {action : WriteAction} (h : run.Inv) (hstep : Step run action next) : next.Inv := by
  obtain ⟨hmeets, rfl⟩ := hstep
  cases action with
  | write buf answers =>
    obtain ⟨hfits, hwrote⟩ := Writer.pollBufferedWrite_spec run.nodelay answers buf h.fits
    refine ⟨?_, hfits⟩
    change (run.writer.pollBufferedWrite run.nodelay run.flowBufferBytes answers buf).2.stream = run.accepted ++
      acceptedBytes buf (run.writer.pollBufferedWrite run.nodelay run.flowBufferBytes answers buf).1
    rw [← h.stream]
    rcases hwrote with ⟨-, count, hanswer, hstream⟩ | ⟨-, hanswer | ⟨error, hanswer⟩, hstream⟩ | ⟨hfails, -⟩
    · rw [hanswer]
      exact hstream
    · rw [hanswer]
      exact hstream.trans (List.append_nil _).symm
    · rw [hanswer]
      exact hstream.trans (List.append_nil _).symm
    · exact absurd hfails hmeets
  | sendBuffer enqueue => exact h.pollSendBuffer enqueue
  | flush enqueue requestFlush =>
    simp only [apply, Writer.pollFlush, pollThen_writer]
    exact h.pollSendBuffer enqueue
  | shutdown enqueue requestShutdown =>
    simp only [apply, Writer.pollShutdown, pollThen_writer]
    exact h.pollSendBuffer enqueue
  | setNodelay nodelay => exact ⟨h.stream, h.fits⟩

/-- In every run in which no write meets a failing flow behind its append, the chunks that the flow took and the buffer
are the bytes that the successful writes accepted, and no call panics. A write that meets one returns an error and leaves
bytes behind that no write accepted. -/
theorem write_accepts_only_ok {run : WriteRun} (h : Reachable Initial Step run) :
    run.writer.enqueued.flatten ++ run.writer.sendBuffer = run.accepted ∧
    ∀ buf answers,
      (run.writer.pollBufferedWrite run.nodelay run.flowBufferBytes answers buf).1 ≠ .ready .panicked ∧
      (¬run.Meets (.write buf answers) →
        (∃ error, (run.writer.pollBufferedWrite run.nodelay run.flowBufferBytes answers buf).1 = .ready (.err error)) ∧
        ∃ count, buf.take count ≠ [] ∧ (run.apply (.write buf answers)).writer.enqueued.flatten ++
          (run.apply (.write buf answers)).writer.sendBuffer = run.accepted ++ buf.take count) := by
  have hinv : run.Inv := by
    refine h.invariant (P := Inv) ?_ fun _ _ _ hinv hstep => hinv.step hstep
    rintro ⟨writer, nodelay, flowBufferBytes, accepted⟩ ⟨hwriter, haccepted⟩
    dsimp only at hwriter haccepted
    subst hwriter haccepted
    exact ⟨rfl, Nat.zero_le _⟩
  refine ⟨hinv.stream, fun buf answers => ?_⟩
  obtain ⟨-, hwrote⟩ := Writer.pollBufferedWrite_spec run.nodelay answers buf hinv.fits
  rw [← hinv.stream]
  rcases hwrote with ⟨hnot, count, hanswer, -⟩ | ⟨hnot, hanswer | ⟨error, hanswer⟩, -⟩ |
    ⟨hfails, ⟨error, hanswer⟩, count, hcount, hkept⟩
  · exact ⟨by rw [hanswer]; nofun, fun hmeets => absurd hnot hmeets⟩
  · exact ⟨by rw [hanswer]; nofun, fun hmeets => absurd hnot hmeets⟩
  · exact ⟨by rw [hanswer]; nofun, fun hmeets => absurd hnot hmeets⟩
  · refine ⟨by rw [hanswer]; nofun, fun _ => ⟨⟨error, hanswer⟩, count, fun hnil => ?_, hkept⟩⟩
    rcases List.take_eq_nil_iff.mp hnil with hzero | hempty
    · omega
    · exact hfails.1 hempty

def answersOf (s : FlowShared) (flowBufferBytes : ℕ) : WriteAnswers :=
  ⟨s.enqueueAnswer, s.readyAnswer flowBufferBytes, s.enqueueAnswer⟩

def openFlow : FlowShared := .new .sample 4096 0

def closedFlow : FlowShared := { openFlow.requestShutdown.2 with shutdownDone := true }

def flushedRun : WriteRun :=
  apply (apply ⟨⟨[], []⟩, false, 4, []⟩ (.write [1, 2, 3] (answersOf openFlow 4))) (.flush openFlow.enqueueAnswer (.ok true))

theorem write_accepts_only_ok_flushed :
    flushedRun = ⟨⟨[], [[1, 2, 3]]⟩, false, 4, [1, 2, 3]⟩ ∧
      flushedRun.writer.enqueued.flatten ++ flushedRun.writer.sendBuffer = flushedRun.accepted := by
  have hmeets : Meets ⟨⟨[], []⟩, false, 4, []⟩ (.write [1, 2, 3] (answersOf openFlow 4)) := by
    rintro ⟨-, room, hroom, -, hsend, -⟩
    obtain rfl : ⟨[], []⟩ = room := congrArg Prod.snd hroom
    exact absurd hsend (by decide)
  have hflush : Step (apply ⟨⟨[], []⟩, false, 4, []⟩ (.write [1, 2, 3] (answersOf openFlow 4)))
      (.flush openFlow.enqueueAnswer (.ok true)) flushedRun := ⟨trivial, rfl⟩
  have hreached : Reachable Initial Step flushedRun := .next (.next (.start ⟨rfl, rfl⟩) ⟨hmeets, rfl⟩) hflush
  exact ⟨by decide, (write_accepts_only_ok hreached).1⟩

/-- On a flow whose half-close is done, a no-delay write fails and keeps its byte; then the shutdown of the handle, which
had succeeded, fails. -/
theorem write_failed_keeps_byte :
    (Writer.pollBufferedWrite ⟨[], []⟩ true 4 (answersOf closedFlow 4) [120]).1 =
      .ready (.err (.brokenPipe, .flowShutDown)) ∧
    (apply ⟨⟨[], []⟩, true, 4, []⟩ (.write [120] (answersOf closedFlow 4))) = ⟨⟨[120], []⟩, true, 4, []⟩ ∧
    (Writer.pollShutdown ⟨[], []⟩ closedFlow.enqueueAnswer closedFlow.requestShutdown.1).1 = .ready (.ok ()) ∧
    (Writer.pollShutdown ⟨[120], []⟩ closedFlow.enqueueAnswer closedFlow.requestShutdown.1).1 =
      .ready (.err (.brokenPipe, .flowShutDown)) := by
  decide

end WriteRun

end Quicp
