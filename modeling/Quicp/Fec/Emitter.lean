import Quicp.Fec.Decoder
import Quicp.Recovery.Connection

/-!
# Datagrams that a connection sends

Sources and repairs go through the datagram queue of the connection. The driver takes the oldest one and hands it to
the backend.
-/

namespace Quicp

def OutboundDatagram.bytes : OutboundDatagram → List UInt8
  | .source _ bytes => bytes
  | .repair bytes => bytes

def repairSeed (firstSymbolId : UInt32) : UInt32 := firstSymbolId

/-- The part of `ConnectionRecovery` that sends datagrams, with its driver: the datagram that the driver is
sending, whether it still runs, and everything that the backend took. `maxSpan` is the negotiated one. -/
structure Emitter where
  connection : Connection
  sources : List (UInt32 × List UInt8)
  nextRepair : UInt32
  maxSpan : ℕ
  sending : Option OutboundDatagram
  running : Bool
  emitted : List (List UInt8)
  deriving DecidableEq, Repr

namespace Emitter

/-- The loop of `send_tail_repairs`; it returns how many repairs were queued. -/
def queueRepairs (first : UInt32) (payloads : List (List UInt8)) :
    ℕ → Emitter → Outcome SendDatagramError ℕ × Emitter
  | 0, e => (.ok 0, e)
  | limit + 1, e =>
    let repairId := e.nextRepair
    let seed := repairSeed first
    let e := { e with nextRepair := repairId + 1 }
    match repairSymbol first repairId seed payloads with
    | .error _ => (.panicked, e)
    | .ok coded =>
      if payloads.length > u16Max ∨ coded.length > u16Max then (.panicked, e)
      else
        match encodeRepair ⟨repairId, first, payloads.length, coded.length, seed, coded⟩ with
        | .error _ => (.panicked, e)
        | .ok encoded =>
          if !e.connection.datagramEnabled then (.err .disabled, e)
          else if e.connection.pending.length = e.connection.capacity then (.ok 0, e)
          else
            let pending := e.connection.pending ++ [.repair encoded]
            match queueRepairs first payloads limit { e with connection := { e.connection with pending := pending } } with
            | (.ok sent, e) => (.ok (sent + 1), e)
            | failed => failed

def sendTailRepairs (e : Emitter) (limit : ℕ) : Outcome SendDatagramError ℕ × Emitter :=
  if !e.connection.datagramEnabled then (.err .disabled, e)
  else
    let limit := min limit (e.connection.capacity - e.connection.pending.length)
    if limit = 0 then (.ok 0, e)
    else if e.sources.length < 2 then (.ok 0, e)
    else
      let window := e.sources.drop (e.sources.length - min e.maxSpan e.sources.length)
      match window with
      | [] => (.panicked, e)
      | (first, _) :: _ => queueRepairs first (window.map Prod.snd) limit e

def recordSent (e : Emitter) : OutboundDatagram → Emitter
  | .repair _ => e
  | .source symbolId bytes =>
    if !e.connection.datagramEnabled then e
    else
      let sources := e.sources ++ [(symbolId, bytes)]
      { e with sources := if sources.length > e.maxSpan then sources.tail else sources }

def disableDatagrams (e : Emitter) : Emitter :=
  { e with connection := e.connection.disableDatagrams, sources := [] }

/-- `handle_send_error`; the driver stops in any case. -/
def handleSendError (e : Emitter) (error : SendDatagramError) : Emitter :=
  let e := { e with sending := none, running := false }
  match error with
  | .unsupportedByPeer | .disabled | .tooLarge => if e.connection.requireAdaptive then e else e.disableDatagrams
  | .connectionLost => e

inductive Action
  | sendSource (record : SourceRecord)
  | sendTailRepairs (limit : ℕ)
  | take
  | sent
  | failed (error : SendDatagramError)
  | disable
  deriving DecidableEq, Repr

def apply (e : Emitter) : Action → Emitter
  | .sendSource record => { e with connection := (e.connection.sendSource record).2 }
  | .sendTailRepairs limit => (e.sendTailRepairs limit).2
  | .take => { e with sending := e.connection.pending.head?, connection := e.connection.takeDatagram }
  | .sent =>
    match e.sending with
    | none => e
    | some datagram => ({ e with sending := none, emitted := e.emitted ++ [datagram.bytes] }).recordSent datagram
  | .failed error => e.handleSendError error
  | .disable => e.disableDatagrams

def Allows (e : Emitter) : Action → Prop
  | .take => e.running = true ∧ e.sending = none ∧ e.connection.pending ≠ []
  | .sent | .failed _ => e.running = true ∧ e.sending ≠ none
  | _ => True

def Step (e : Emitter) (action : Action) (f : Emitter) : Prop := e.Allows action ∧ f = e.apply action

structure Initial (e : Emitter) : Prop where
  pending : e.connection.pending = []
  nextSymbol : e.connection.nextSymbol = 0
  sources : e.sources = []
  nextRepair : e.nextRepair = 0
  sending : e.sending = none
  running : e.running = true
  emitted : e.emitted = []

end Emitter

end Quicp
