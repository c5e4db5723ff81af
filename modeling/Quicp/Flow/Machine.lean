import Quicp.Flow.ControlStream
import Quicp.Flow.ReceiveRun

/-!
# Runs of a flow

The application handle, the datagram dispatcher, the connection's driver and the flow task act on a flow in any order.
-/

namespace Quicp

inductive FlowAction
  | enqueue (bytes : List UInt8)
  | requestFlush
  | requestShutdown
  | requestReset (error : ApplicationError)
  | dropHandle
  | read (length : ℕ)
  | source (offset : ℕ) (bytes : List UInt8) (fin : Bool) (charge : RecoveryCharge)
  | useBudget (used : ℕ)
  | connection (next : Connection)
  | pollStart
  | control (frame : ControlFrame)
  | receiveError (error : FlowTaskError)
  | readFeedback (timerReady : Bool)
  | takeFeedback
  | takeOutbound
  | cutOutbound (maxDatagramSize : Option ℕ)
  | sendOutbound
  | flushOutbound
  | replay (poll : Flow.ReplayPoll)
  | terminal
  | wire (result : Flow.WriteResult)
  | finish (finishes : Bool)

namespace Flow

def applyEnqueue (s : Flow) (bytes : List UInt8) : Flow :=
  let out := s.shared.enqueue bytes
  { s with
    shared := out.2
    history := match out.1 with
      | .ok (some _) => { s.history with written := s.history.written ++ bytes }
      | _ => s.history }

def reportsEnd : ReadResult → Bool
  | .ok (some []) => true
  | _ => false

def applyRead (s : Flow) (length : ℕ) : Flow :=
  let out := s.shared.read s.budget length
  { s with
    shared := out.2.1
    budget := out.2.2
    history := { s.history with
      received := s.history.received.deliver out.1.bytes
      ended := s.history.ended || reportsEnd out.1 } }

/-- The dispatcher rejects the flow for this outcome of an insertion. -/
def rejects : Outcome RecoveryError Unit → Bool
  | .err .capacity | .err .rangeCapacity => false
  | .err _ => true
  | _ => false

/-- The body of the loop of `dispatch_reserved_source`. -/
def applySource (s : Flow) (offset : ℕ) (bytes : List UInt8) (fin : Bool) (charge : RecoveryCharge) : Flow :=
  let out := s.shared.insertBytesPrecharged s.budget offset bytes fin charge
  let s := s.afterInsert (offset, bytes) out
  if rejects out.1 then { s with shared := s.shared.rejectProtocol } else s

def applyTakeFeedback (s : Flow) : Flow :=
  match s.phase with
  | .feedback ackDue => s.takeFeedback ackDue
  | _ => s

def apply (s : Flow) : FlowAction → Flow
  | .enqueue bytes => s.applyEnqueue bytes
  | .requestFlush => { s with shared := s.shared.requestFlush.2 }
  | .requestShutdown => { s with shared := s.shared.requestShutdown.2 }
  | .requestReset error => { s with shared := (s.shared.requestReset error).2 }
  | .dropHandle => { s with shared := s.shared.dropHandle }
  | .read length => s.applyRead length
  | .source offset bytes fin charge => s.applySource offset bytes fin charge
  | .useBudget used => { s with budget := { s.budget with used := used } }
  | .connection next => { s with connection := next }
  | .pollStart => s.pollStart
  | .control frame => settle (s.applyControl frame)
  | .receiveError error => s.fail error
  | .readFeedback timerReady => s.readFeedback timerReady
  | .takeFeedback => s.applyTakeFeedback
  | .takeOutbound => settle s.takeOutbound
  | .cutOutbound maxDatagramSize => settle (s.cutOutbound maxDatagramSize)
  | .sendOutbound => settle s.sendOutbound
  | .flushOutbound => settle s.flushOutbound
  | .replay poll => settle (s.pollReplay poll)
  | .terminal => s.queueTerminalFrames
  | .wire result => settle (s.pollWire result)
  | .finish finishes => settle (s.finishSendIfReady finishes)

def run (s : Flow) (actions : List FlowAction) : Flow := actions.foldl apply s

/-- The fields of a frame that was decoded from the wire are varints. -/
def onWire : ControlFrame → Bool
  | .ack contiguous ranges =>
    decide (contiguous ≤ maxWireOffset) && ranges.all (fun range => decide (range.stop ≤ maxWireOffset))
  | .maxOffset maximum => decide (maximum ≤ maxWireOffset)
  | .fin offset => decide (offset ≤ maxWireOffset)
  | .streamData offset _ _ => decide (offset ≤ maxWireOffset)
  | _ => true

/-- What the driver, other flows and the backend may make of the connection: its limits stay, and
datagrams that are off stay off. -/
def connectionMayBecome (current next : Connection) : Bool :=
  decide (next = { current with
    datagramEnabled := next.datagramEnabled
    pending := next.pending
    nextSymbol := next.nextSymbol
    runtimeStopped := next.runtimeStopped }) &&
  (current.datagramEnabled || !next.datagramEnabled) && decide (next.pending.length ≤ next.capacity)

/-- The backend takes at most what is left of a frame, and rejects writes on a finished stream. -/
def mayAnswer (s : Flow) (result : WriteResult) : Bool :=
  match (chooseFrame s.task).wireCurrent with
  | none => true
  | some frame =>
    match result with
    | .failed => true
    | .pending => !s.task.sendFinished
    | .written count => !s.task.sendFinished && decide (count ≤ frame.unsent.length)

/-- The task is inside `queue_pending_feedback`. -/
def inFeedback : TaskPhase → Bool
  | .feedback _ => true
  | _ => false

def hasTaken : TaskPhase → Bool
  | .taken _ => true
  | _ => false

def hasCut : TaskPhase → Bool
  | .cut _ => true
  | _ => false

def hasSent : TaskPhase → Bool
  | .sent _ => true
  | _ => false

variable {phase : TaskPhase}

theorem exists_of_inFeedback (h : inFeedback phase = true) :
    ∃ ackDue, phase = .feedback ackDue := by
  cases phase <;> simp [inFeedback] at h ⊢

theorem exists_of_hasTaken (h : hasTaken phase = true) : ∃ chunk, phase = .taken chunk := by
  cases phase <;> simp [hasTaken] at h ⊢

theorem exists_of_hasCut (h : hasCut phase = true) : ∃ chunk, phase = .cut chunk := by
  cases phase <;> simp [hasCut] at h ⊢

theorem exists_of_hasSent (h : hasSent phase = true) : ∃ stop, phase = .sent stop := by
  cases phase <;> simp [hasSent] at h ⊢

def Allows (s : Flow) : FlowAction → Prop
  | .enqueue bytes => bytes ≠ []
  | .source _ _ _ charge => s.shared.receive.charged + charge.heldOf s.budget.identity ≤ s.budget.used
  | .useBudget used => s.shared.receive.charged ≤ used ∧ used ≤ s.budget.limit
  | .connection next => connectionMayBecome s.connection next = true
  | .pollStart | .receiveError _ | .readFeedback _ | .takeOutbound | .terminal | .finish _ => s.phase = .idle
  | .control frame => s.phase = .idle ∧ onWire frame = true
  | .takeFeedback => inFeedback s.phase = true
  | .cutOutbound _ => hasTaken s.phase = true
  | .sendOutbound => hasCut s.phase = true
  | .flushOutbound => hasSent s.phase = true
  | .replay poll => s.phase = .idle ∧ (s.connection.datagramEnabled = true → poll.enabled = true)
  | .wire result => s.phase = .idle ∧ s.mayAnswer result = true
  | _ => True

instance (s : Flow) (action : FlowAction) : Decidable (s.Allows action) := by
  cases action <;> unfold Allows <;> infer_instance

def Step (s : Flow) (action : FlowAction) (t : Flow) : Prop := s.Allows action ∧ t = s.apply action

def new (flowId : ℕ) (config : FlowConfig) (adaptive : Bool) (connection : Connection)
    (budget : RecoveryMemoryBudget) (early : List UInt8) : Flow where
  flowId := flowId
  shared := .new config budget.identity early.length
  task := .new config adaptive
  phase := .idle
  connection := connection
  budget := budget
  history :=
    { written := early
      sources := if early = [] then [] else [⟨flowId, 0, false, early⟩]
      queued := []
      frames := []
      received := .empty
      ended := false }

def Initial (s : Flow) : Prop :=
  ∃ flowId config adaptive connection budget early, s = .new flowId config adaptive connection budget early ∧
    connection.maxAckRanges = config.maxAckRanges ∧ budget.used ≤ budget.limit

def Live (s : Flow) : Prop := s.shared.error = none ∧ s.shared.taskStopped = false

def sample (adaptive : Bool) : Flow :=
  .new 0 .sample adaptive ⟨adaptive, [], 512, 0, false, false, 64, 64, 2⟩ .sample []

theorem sample_initial (adaptive : Bool) : (sample adaptive).Initial :=
  ⟨_, _, _, _, _, _, rfl, rfl, by decide⟩

/-- The actions of `process_outbound` that hand the next waiting chunk over as a datagram. -/
def handOver : List FlowAction := [.takeOutbound, .cutOutbound none, .sendOutbound, .flushOutbound]

end Flow

end Quicp
