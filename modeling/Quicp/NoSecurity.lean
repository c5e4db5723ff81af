import Quicp.Library.BigEndian
import Quicp.Recovery.Arithmetic

/-!
# The plaintext handshake

A session collects the bytes of one message until its header says that it is complete, and takes the token and the
transport parameters of the peer from it.
-/

namespace Quicp

namespace NoSecurity

def magic : List UInt8 := [0x51, 0x50, 0x43, 0x53]

def clientHello : UInt8 := 1

def serverHello : UInt8 := 2

def clientConfirm : UInt8 := 3

def maxProfileToken : ℕ := 32

def maxHandshakeMessage : ℕ := 65575

def quicpProfile : List UInt8 := [0x71, 0x75, 0x69, 0x63, 0x70]

inductive Side
  | client
  | server
  deriving DecidableEq, Repr

inductive Stage
  | new
  | serverKeysReady
  | awaitingConfirm
  | helloSent
  | established
  deriving DecidableEq, Repr

/-- A `TransportError` with the code of a protocol violation and its reason. -/
inductive TransportError
  | protocolError (reason : String)
  deriving DecidableEq, Repr

/-- The reading and writing of `TransportParameters`. -/
structure ParamsCodec (Params : Type) where
  read : Side → List UInt8 → Option Params
  write : Params → List UInt8

/-- `NoSecuritySession`, without its header keys; the parameters it remembers for later sessions stand behind a lock. -/
structure NoSecuritySession (Params : Type) where
  side : Side
  profileToken : List UInt8
  params : Params
  stage : Stage
  peerToken : Option (List UInt8)
  peerParams : Option Params
  input : List UInt8
  rememberedParams : Option (Option Params)
  deriving DecidableEq

namespace NoSecuritySession

variable {Params : Type} (codec : ParamsCodec Params)

def new (side : Side) (profileToken : List UInt8) (params : Params) (rememberedParams : Option (Option Params)) :
    NoSecuritySession Params where
  side := side
  profileToken := profileToken
  params := params
  stage := .new
  peerToken := none
  peerParams := rememberedParams.join
  input := []
  rememberedParams := rememberedParams

/-- `message`; it panics for a token or parameters that are not short. -/
def message (kind : UInt8) (token : List UInt8) (params : Params) : Option (List UInt8) :=
  if token.length > 255 ∨ (codec.write params).length > 65535 then none
  else
    some (magic ++ [kind, UInt8.ofNat token.length] ++ BigEndian.encode 2 (codec.write params).length ++ token ++
      codec.write params)

def messageLen (header : List UInt8) : ℕ :=
  8 + (header.getD 5 0).toNat + BigEndian.decodeFrom 0 ((header.drop 6).take 2)

/-- `read_message`: a complete message is taken out of the input. -/
def readMessage (session : NoSecuritySession Params) (expectedKind : UInt8) :
    Except TransportError (Option (List UInt8 × Params) × NoSecuritySession Params) :=
  if session.input.length < 8 then .ok (none, session)
  else if session.input.take 4 ≠ magic ∨ session.input.getD 4 0 ≠ expectedKind then
    .error (.protocolError "invalid QUICP plaintext handshake")
  else
    let tokenLen := (session.input.getD 5 0).toNat
    if tokenLen = 0 ∨ tokenLen > maxProfileToken then .error (.protocolError "invalid QUICP profile token length")
    else if session.input.length < messageLen session.input then .ok (none, session)
    else if session.input.length ≠ messageLen session.input then
      .error (.protocolError "unexpected QUICP plaintext handshake data")
    else
      match codec.read session.side (session.input.drop (8 + tokenLen)) with
      | none => .error (.protocolError "invalid QUICP transport parameters")
      | some params => .ok (some ((session.input.take (8 + tokenLen)).drop 8, params), { session with input := [] })

def validatePeerToken (session : NoSecuritySession Params) (token : List UInt8) : Except TransportError Unit :=
  if token ≠ quicpProfile ∨ session.side = .client ∧ token ≠ session.profileToken then
    .error (.protocolError "unsupported QUICP profile token")
  else .ok ()

/-- `incoming_message_len`: the length that the header asks for, once it is there. -/
def incomingMessageLen (session : NoSecuritySession Params) (buf : List UInt8) : Except TransportError (Option ℕ) :=
  match checkedAdd session.input.length buf.length with
  | none => .error (.protocolError "QUICP plaintext handshake is too large")
  | some total =>
    if total > maxHandshakeMessage then .error (.protocolError "QUICP plaintext handshake is too large")
    else if total < 8 then .ok none
    else
      let retained := min session.input.length 8
      let header := session.input.take retained ++ if retained < 8 then buf.take (8 - retained) else []
      let tokenLen := (header.getD 5 0).toNat
      if tokenLen = 0 ∨ tokenLen > maxProfileToken then .error (.protocolError "invalid QUICP profile token length")
      else .ok (some (messageLen header))

/-- The kind of message that a session reads, if it reads one. -/
def expectedKind (session : NoSecuritySession Params) : Option UInt8 :=
  match session.side, session.stage with
  | .client, .helloSent => some serverHello
  | .server, .new => some clientHello
  | .server, .awaitingConfirm => some clientConfirm
  | _, _ => none

def received (session : NoSecuritySession Params) (token : List UInt8) (params : Params) : NoSecuritySession Params :=
  match session.side, session.stage with
  | .client, .helloSent => { session with
      peerToken := some token
      peerParams := some params
      rememberedParams := session.rememberedParams.map fun _ => some params }
  | .server, .new => { session with peerToken := some token, peerParams := some params }
  | .server, .awaitingConfirm => { session with stage := .established }
  -- The source has `unreachable!` here: in the other stages no message was read.
  | _, _ => session

/-- `read_handshake`: whether the session is established, and the session behind the chunk. -/
def readHandshake (session : NoSecuritySession Params) (buf : List UInt8) :
    Except TransportError (Bool × NoSecuritySession Params) := do
  let messageLen ← session.incomingMessageLen buf
  if messageLen.any fun messageLen => session.input.length + buf.length > messageLen then
    throw (.protocolError "unexpected QUICP plaintext handshake data")
  let session := { session with input := session.input ++ buf }
  match session.expectedKind with
  | none => throw (.protocolError "unexpected QUICP plaintext handshake state")
  | some kind =>
    match ← session.readMessage codec kind with
    | (none, session) => return (false, session)
    | (some (token, params), session) =>
      session.validatePeerToken token
      let session := session.received token params
      return (session.stage = .established, session)

def deliver (session : NoSecuritySession Params) :
    List (List UInt8) → Except TransportError (NoSecuritySession Params)
  | [] => .ok session
  | chunk :: rest => do
    let (_, session) ← session.readHandshake codec chunk
    session.deliver rest

/-- The header of a message of a kind: magic, kind and a token of an admitted length. -/
structure Header (kind : UInt8) (bytes : List UInt8) : Prop where
  magic : bytes.take 4 = magic
  kind : bytes.getD 4 0 = kind
  tokenPositive : (bytes.getD 5 0).toNat ≠ 0
  tokenLen : (bytes.getD 5 0).toNat ≤ maxProfileToken

structure Starts (session : NoSecuritySession Params) (kind : UInt8) (bytes : List UInt8) : Prop where
  reads : session.expectedKind = some kind
  bounded : bytes.length ≤ maxHandshakeMessage
  header : 8 ≤ bytes.length → Header kind bytes ∧ bytes.length ≤ messageLen bytes

/-- What a complete message says, when the session accepts it. -/
def content (session : NoSecuritySession Params) (bytes : List UInt8) : Option (List UInt8 × Params) :=
  let tokenLen := (bytes.getD 5 0).toNat
  match codec.read session.side (bytes.drop (8 + tokenLen)) with
  | none => none
  | some params =>
    let token := (bytes.take (8 + tokenLen)).drop 8
    match session.validatePeerToken token with
    | .error _ => none
    | .ok () => some (token, params)

/-- The bytes are a complete message that leads the session to the next one. -/
def Completes (session : NoSecuritySession Params) (bytes : List UInt8) (next : NoSecuritySession Params) : Prop :=
  ∃ kind token params, session.Starts kind bytes ∧ 8 ≤ bytes.length ∧ bytes.length = messageLen bytes ∧
    session.content codec bytes = some (token, params) ∧ next = { session with input := [] }.received token params

theorem getD_take_eight (bytes : List UInt8) {index : ℕ} (h : index < 8) :
    (bytes.take 8).getD index 0 = bytes.getD index 0 := by
  rw [List.getD_eq_getElem?_getD, List.getD_eq_getElem?_getD, List.getElem?_take_of_lt h]

variable {session : NoSecuritySession Params} {buf : List UInt8}

variable {kind : UInt8}

variable {bytes : List UInt8}

theorem Header.congr {other : List UInt8} (h : Header kind bytes)
    (hsame : bytes.take 8 = other.take 8) : Header kind other where
  magic := by
    have hfour : ∀ bytes : List UInt8, bytes.take 4 = (bytes.take 8).take 4 := fun bytes => by rw [List.take_take]; rfl
    rw [hfour other, ← hsame, ← hfour]
    exact h.magic
  kind := by
    rw [← getD_take_eight other (by decide), ← hsame, getD_take_eight bytes (by decide)]
    exact h.kind
  tokenPositive := by
    rw [← getD_take_eight other (by decide), ← hsame, getD_take_eight bytes (by decide)]
    exact h.tokenPositive
  tokenLen := by
    rw [← getD_take_eight other (by decide), ← hsame, getD_take_eight bytes (by decide)]
    exact h.tokenLen

variable {more : List UInt8}

variable {next : NoSecuritySession Params}

theorem Completes.input {codec : ParamsCodec Params}
    (h : session.Completes codec bytes next) : next.input = [] := by
  obtain ⟨_, token, params, _, _, _, _, rfl⟩ := h
  unfold received
  split <;> rfl

structure Splits (bytes : List UInt8) (chunks : List (List UInt8)) : Prop where
  flatten : chunks.flatten = bytes
  nonempty : ∀ chunk ∈ chunks, chunk ≠ []

theorem Splits.tail {chunk : List UInt8} {rest : List (List UInt8)} (h : Splits bytes (chunk :: rest)) :
    bytes = chunk ++ rest.flatten ∧ Splits rest.flatten rest ∧ (rest ≠ [] → rest.flatten ≠ []) := by
  refine ⟨h.flatten.symm, ⟨rfl, fun other hother => h.nonempty other (List.mem_cons_of_mem _ hother)⟩, ?_⟩
  intro hrest hflatten
  cases rest with
  | nil => exact hrest rfl
  | cons other rest =>
    have hother := h.nonempty other (by simp)
    rw [List.flatten_cons, List.append_eq_nil_iff] at hflatten
    exact hother hflatten.1

variable {chunks : List (List UInt8)}

/-- Both deliveries end in an error, or both succeed with the same session. -/
def Agree : Except TransportError (NoSecuritySession Params) → Except TransportError (NoSecuritySession Params) → Prop
  | .ok session, .ok other => session.stage = other.stage ∧ session.peerToken = other.peerToken ∧
      session.peerParams = other.peerParams ∧ session.input = other.input
  | .error _, .error _ => True
  | _, _ => False

theorem Completes.expectedKind {codec : ParamsCodec Params}
    (h : session.Completes codec bytes next) (hhello : session.expectedKind ≠ some serverHello)
    (hhello' : session.expectedKind ≠ some clientHello) : next.expectedKind = none := by
  obtain ⟨kind, token, params, _, _, _, _, rfl⟩ := h
  obtain ⟨side, profileToken, own, stage, peerToken, peerParams, input, rememberedParams⟩ := session
  cases side <;> cases stage <;> first | rfl | exact absurd rfl hhello | exact absurd rfl hhello'

end NoSecuritySession

end NoSecurity

end Quicp
