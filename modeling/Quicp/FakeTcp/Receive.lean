import Quicp.FakeTcp.Polls
import Quicp.Library.Region

/-!
# Receiving in batches

A poll reads batches of raw packets into one buffer and copies the payloads of the accepted ones into the buffers of
the caller, payloads of one length as a group.
-/

namespace Quicp

open Buffer (writeAt)

structure DecodedRawPacket where
  batchIndex : ℕ
  payloadOffset : ℕ
  payloadLength : ℕ
  deriving DecidableEq

/-- `FakeTcpSocket`, as far as it receives without a ring. -/
structure FakeTcpSocket where
  tuple : FourTuple
  inbound : FakeTcpCarrier
  receiveBuffer : Region UInt8
  receiveBatchCount : ℕ
  receiveBatchIndex : ℕ
  receiveBatchLengths : List ℕ
  receivePending : Option DecodedRawPacket
  decodeRejects : ℕ

/-- `get` of a range of a buffer. -/
def getRange (buffer : Region UInt8) (start stop : ℕ) : Option (List UInt8) :=
  if start ≤ stop ∧ stop ≤ buffer.size then some (buffer.read start (stop - start)) else none

/-- `copy_from_slice` into a buffer from an offset on, which panics behind its end. -/
def copyInto (buffer : List UInt8) (start : ℕ) (payload : List UInt8) : Option (List UInt8) :=
  if start + payload.length ≤ buffer.length then some (writeAt buffer start payload) else none

/-- What one turn of the loop of a poll gets from the socket: a result of `poll_read_ready`, or the result of
`receive_batch`. -/
inductive BatchAnswer
  | notReady
  | unready (error : SocketError)
  | batch (packets : { packets : List (List UInt8) // packets.length ≤ recvBatchSize })
  | failed (error : SocketError)
  | wouldBlock

def BatchAnswer.packets : BatchAnswer → List (List UInt8)
  | .batch packets => packets.val
  | _ => []

def BatchAnswer.fails : BatchAnswer → Bool
  | .unready _ => true
  | .failed _ => true
  | _ => false

namespace FakeTcpSocket

/-- The receiving side of `bind`. -/
def bind (tuple : FourTuple) (inbound : FakeTcpCarrier) : FakeTcpSocket where
  tuple := tuple
  inbound := inbound
  receiveBuffer := ⟨rawPacketBufferBytes * recvBatchSize, fun _ => 0⟩
  receiveBatchCount := 0
  receiveBatchIndex := 0
  receiveBatchLengths := List.replicate recvBatchSize 0
  receivePending := none
  decodeRejects := 0

def reject (socket : FakeTcpSocket) : FakeTcpSocket :=
  { socket with decodeRejects := saturatingAdd socket.decodeRejects 1 }

/-- The loop of `next_decoded_packet` over what is left of the batch. -/
def scanBatch : ℕ → FakeTcpSocket → ℕ → Outcome SocketError (Option DecodedRawPacket) × FakeTcpSocket × ℕ
  | 0, socket, budget => (.ok none, socket, budget)
  | left + 1, socket, budget =>
    let batchIndex := socket.receiveBatchIndex
    let socket := { socket with receiveBatchIndex := batchIndex + 1 }
    match socket.receiveBatchLengths[batchIndex]? with
    | none => (.panicked, socket, budget)
    | some length =>
      let start := batchIndex * rawPacketBufferBytes
      match checkedAdd start length with
      | none => (.err (.custom .invalidData "raw packet length overflow"), socket, budget)
      | some stop =>
        match getRange socket.receiveBuffer start stop with
        | none => (.err (.custom .invalidData "raw packet exceeds receive storage"), socket, budget)
        | some packet =>
          match socket.inbound.decodeDatagramBorrowed packet with
          | (.panicked, inbound) => (.panicked, { socket with inbound := inbound }, budget)
          | (.err _, inbound) =>
            let socket := { socket with inbound := inbound }.reject
            -- The budget goes down with every rejected packet.
            if budget - 1 = 0 then (.ok none, socket, budget - 1) else scanBatch left socket (budget - 1)
          | (.ok decoded, inbound) =>
            let payloadLength := decoded.payload.length
            (.ok (some ⟨batchIndex, length - payloadLength, payloadLength⟩), { socket with inbound := inbound }, budget)

def nextDecodedPacket (socket : FakeTcpSocket) (budget : ℕ) :
    Outcome SocketError (Option DecodedRawPacket) × FakeTcpSocket × ℕ :=
  if budget = 0 then (.ok none, socket, budget)
  else
    match socket.receivePending with
    | some packet => (.ok (some packet), { socket with receivePending := none }, budget)
    | none => scanBatch (socket.receiveBatchCount - socket.receiveBatchIndex) socket budget

def decodedPayload (socket : FakeTcpSocket) (packet : DecodedRawPacket) : Outcome SocketError (List UInt8) :=
  match checkedAdd (packet.batchIndex * rawPacketBufferBytes) packet.payloadOffset with
  | none => .err (.custom .invalidData "raw payload offset overflow")
  | some payloadStart =>
    match checkedAdd payloadStart packet.payloadLength with
    | none => .err (.custom .invalidData "raw payload length overflow")
    | some payloadEnd =>
      match getRange socket.receiveBuffer payloadStart payloadEnd with
      | none => .err (.custom .invalidData "raw payload exceeds receive storage")
      | some payload => .ok payload

def copyPayload (socket : FakeTcpSocket) (packet : DecodedRawPacket) (buffer : List UInt8) (start : ℕ) :
    Outcome SocketError (List UInt8) :=
  match socket.decodedPayload packet with
  | .err error => .err error
  | .panicked => .panicked
  | .ok payload =>
    match copyInto buffer start payload with
    | none => .panicked
    | some buffer => .ok buffer

/-- What the inner loop of `poll_recv` works on. -/
structure OpenGroup where
  socket : FakeTcpSocket
  budget : ℕ
  buffer : List UInt8
  groupCount : ℕ

/-- The inner loop of `poll_recv`: more payloads of the length of the first, as long as there is room. -/
def fillGroup (stride : ℕ) : ℕ → OpenGroup → Outcome SocketError Unit × OpenGroup
  | 0, group => (.ok (), group)
  | room + 1, group =>
    match group.socket.nextDecodedPacket group.budget with
    | (.panicked, socket, budget) => (.panicked, { group with socket := socket, budget := budget })
    | (.err error, socket, budget) => (.err error, { group with socket := socket, budget := budget })
    | (.ok none, socket, budget) => (.ok (), { group with socket := socket, budget := budget })
    | (.ok (some next), socket, budget) =>
      if next.payloadLength ≠ stride then
        (.ok (), { group with socket := { socket with receivePending := some next }, budget := budget })
      else
        match socket.copyPayload next group.buffer (group.groupCount * stride) with
        | .err error => (.err error, { group with socket := socket, budget := budget })
        | .panicked => (.panicked, { group with socket := socket, budget := budget })
        | .ok buffer => fillGroup stride room ⟨socket, budget, buffer, group.groupCount + 1⟩

def startGroup (socket : FakeTcpSocket) (budget : ℕ) (first : DecodedRawPacket) (buffer : List UInt8) :
    Outcome SocketError Unit × OpenGroup :=
  let stride := first.payloadLength
  let maxGroup := min (max (buffer.length / max stride 1) 1) groSegments
  match socket.copyPayload first buffer 0 with
  | .err error => (.err error, ⟨socket, budget, buffer, 0⟩)
  | .panicked => (.panicked, ⟨socket, budget, buffer, 0⟩)
  | .ok buffer => fillGroup stride (maxGroup - 1) ⟨socket, budget, buffer, 1⟩

theorem scanBatch_budget (left : ℕ) (socket : FakeTcpSocket) {budget : ℕ} (h : 0 < budget) :
    (scanBatch left socket budget).2.2 ≤ budget ∧
      ∀ packet, (scanBatch left socket budget).1 = .ok (some packet) → 0 < (scanBatch left socket budget).2.2 := by
  fun_induction scanBatch left socket budget <;> grind -linarith

theorem nextDecodedPacket_budget (socket : FakeTcpSocket) (budget : ℕ) :
    (socket.nextDecodedPacket budget).2.2 ≤ budget ∧
      ∀ packet, (socket.nextDecodedPacket budget).1 = .ok (some packet) → 0 < (socket.nextDecodedPacket budget).2.2 := by
  fun_cases nextDecodedPacket socket budget with
  | case1 => exact ⟨Nat.le_refl _, nofun⟩
  | case2 hspent => exact ⟨Nat.le_refl _, fun _ _ => Nat.pos_of_ne_zero hspent⟩
  | case3 hspent => exact scanBatch_budget _ _ (Nat.pos_of_ne_zero hspent)

theorem nextDecodedPacket_found {socket next : FakeTcpSocket} {budget left : ℕ} {packet : DecodedRawPacket}
    (h : socket.nextDecodedPacket budget = (.ok (some packet), next, left)) : left ≤ budget ∧ 0 < left := by
  have hbudget := socket.nextDecodedPacket_budget budget
  rw [h] at hbudget
  exact ⟨hbudget.1, hbudget.2 packet rfl⟩

theorem fillGroup_budget (stride room : ℕ) (group : OpenGroup) :
    (fillGroup stride room group).2.budget ≤ group.budget := by
  fun_induction fillGroup stride room group <;> grind -linarith [nextDecodedPacket_budget]

theorem startGroup_budget (socket : FakeTcpSocket) (budget : ℕ) (first : DecodedRawPacket) (buffer : List UInt8) :
    (socket.startGroup budget first buffer).2.budget ≤ budget := by
  fun_cases startGroup socket budget first buffer <;> grind -linarith [fillGroup_budget]

/-- The loop of `poll_recv` over the slots. -/
def fillSlots (filling : Filling FakeTcpSocket) : Outcome SocketError Unit × Filling FakeTcpSocket :=
  match hrest : filling.rest with
  | [] => (.ok (), filling)
  | slot :: rest =>
    match hnext : filling.source.nextDecodedPacket filling.budget with
    | (.panicked, socket, budget) => (.panicked, { filling with source := socket, budget := budget })
    | (.err error, socket, budget) => (.err error, { filling with source := socket, budget := budget })
    | (.ok none, socket, budget) => (.ok (), { filling with source := socket, budget := budget })
    | (.ok (some first), socket, budget) =>
      if first.payloadLength > slot.buffer.length then
        fillSlots { filling with source := socket.reject, budget := budget - 1 }
      else
        match hgroup : socket.startGroup budget first slot.buffer with
        | (.panicked, group) =>
          (.panicked, ⟨group.socket, group.budget, filling.filled, ⟨group.buffer, slot.info⟩ :: rest⟩)
        | (.err error, group) =>
          (.err error, ⟨group.socket, group.budget, filling.filled, ⟨group.buffer, slot.info⟩ :: rest⟩)
        | (.ok (), group) =>
          let info := groupInfo socket.tuple group.groupCount first.payloadLength
          fillSlots ⟨group.socket, group.budget, filling.filled ++ [⟨group.buffer, info⟩], rest⟩
termination_by filling.rest.length + filling.budget
decreasing_by
  all_goals
    obtain ⟨hle, hpos⟩ := nextDecodedPacket_found hnext
    have hgrouped := socket.startGroup_budget budget first slot.buffer
    simp only [hrest, List.length_cons]
    grind -linarith

/-- The packets of a batch are written side by side into the storage, each as far as its place reaches. -/
def storePackets : ℕ → Region UInt8 → List (List UInt8) → Region UInt8
  | _, storage, [] => storage
  | index, storage, packet :: rest =>
    storePackets (index + 1) (storage.write (index * rawPacketBufferBytes) (packet.take rawPacketBufferBytes)) rest

/-- The length of a packet of a batch; one that was truncated counts as empty. -/
def storedLength (packet : List UInt8) : ℕ := if packet.length > rawPacketBufferBytes then 0 else packet.length

/-- `receive_batch` on the packets that `recvmmsg` brings. -/
def receiveBatch (socket : FakeTcpSocket) (packets : List (List UInt8)) : FakeTcpSocket :=
  { socket with
    receiveBuffer := storePackets 0 socket.receiveBuffer packets
    receiveBatchLengths := packets.map storedLength ++ socket.receiveBatchLengths.drop packets.length }

/-- What `poll_recv` does with the answer of the socket. -/
def ask : BatchAnswer → FakeTcpSocket → Reply FakeTcpSocket
  | .notReady, _ => .notReady
  | .unready error, _ => .failed error
  | .failed error, _ => .failed error
  | .wouldBlock, socket => .nothing socket
  | .batch packets, socket =>
    let socket := socket.receiveBatch packets.val
    if packets.val.length > 0 then .more { socket with receiveBatchCount := packets.val.length } else .nothing socket

/-- `poll_recv` without a ring. -/
def pollRecv : PollParts FakeTcpSocket BatchAnswer where
  fill := fillSlots
  reset := fun socket => { socket with receiveBatchCount := 0, receiveBatchIndex := 0 }
  ask := ask

end FakeTcpSocket

end Quicp
