import Quicp.Library.Reachable
import Quicp.Recovery.Arithmetic

/-!
# The packet ring

A ring has a fixed number of buffers. Each of them has one owner: the free list, the queue, a write lease, a read
lease or a `pop_into` in progress.
-/

namespace Quicp

/-- One of the buffers that are allocated when a ring is made, and what is in it. -/
structure Slot where
  number : ℕ
  bytes : List UInt8
  deriving DecidableEq

structure PacketPool where
  queued : List Slot
  free : List Slot
  deriving DecidableEq

structure PacketRing where
  pool : PacketPool
  slotCapacity : ℕ
  deriving DecidableEq

inductive RingError
  | zeroCapacity
  | zeroSlotCapacity
  | capacityOverflow
  | tooLarge (len max : ℕ)
  | bufferTooSmall (required capacity : ℕ)
  | full
  deriving DecidableEq, Repr

/-- A callback that writes into its slice; without a result it unwinds. -/
def WriteCallback : Type :=
  { f : List UInt8 → Option (List UInt8) //
    ∀ output written, f output = some written → written.length = output.length }

/-- `copy_from_slice`, which panics when the lengths differ. -/
def copyFromSlice (packet : List UInt8) : WriteCallback where
  val output := if packet.length = output.length then some packet else none
  property := by
    intro output written h
    dsimp only at h
    split_ifs at h with hlength
    exact Option.some.inj h ▸ hlength

namespace PacketRing

/-- `PacketRing::new`; a vector takes three words. -/
def new (capacity slotCapacity : ℕ) : Except RingError PacketRing :=
  if capacity = 0 then .error .zeroCapacity
  else if slotCapacity = 0 then .error .zeroSlotCapacity
  else if checkedMul capacity slotCapacity = none then .error .capacityOverflow
  else if checkedMul capacity 24 = none then .error .capacityOverflow
  else .ok ⟨⟨[], (List.range capacity).map fun number => ⟨number, []⟩⟩, slotCapacity⟩

/-- `PacketRing::write`: the last free buffer. -/
def write (ring : PacketRing) : Option (Slot × PacketRing) :=
  match ring.pool.free.getLast? with
  | none => none
  | some packet => some (packet, { ring with pool := { ring.pool with free := ring.pool.free.dropLast } })

def pushBack (ring : PacketRing) (packet : Slot) : PacketRing :=
  { ring with pool := { ring.pool with queued := ring.pool.queued ++ [packet] } }

def recycle (ring : PacketRing) (packet : Slot) : PacketRing :=
  { ring with pool := { ring.pool with free := ring.pool.free ++ [{ packet with bytes := [] }] } }

/-- `PacketRing::read`: the oldest packet. -/
def read (ring : PacketRing) : Option (Slot × PacketRing) :=
  match ring.pool.queued with
  | [] => none
  | packet :: queued => some (packet, { ring with pool := { ring.pool with queued } })

/-- The part of `PacketRing::pop_into` under the lock. -/
def popFront (ring : PacketRing) (capacity : ℕ) : Except RingError (Option (Slot × PacketRing)) :=
  match ring.pool.queued with
  | [] => .ok none
  | packet :: queued =>
    if packet.bytes.length > capacity then .error (.bufferTooSmall packet.bytes.length capacity)
    else .ok (some (packet, { ring with pool := { ring.pool with queued } }))

end PacketRing

/-- `WritePacket`; a `push_copy` in progress is one with the packet it copies. -/
structure WritePacket where
  packet : Slot
  copying : Option (List UInt8)
  deriving DecidableEq

/-- `WritePacket::consume`: the packet to queue; without one the buffer is recycled when the lease is dropped. -/
def WritePacket.consume (lease : WritePacket) (slotCapacity len : ℕ) (f : WriteCallback) : Option Slot :=
  match f.val (List.replicate (min len slotCapacity) 0) with
  | none => none
  | some written => if len ≤ slotCapacity then some { lease.packet with bytes := written } else none

/-- A `pop_into` that has taken its packet and has not copied it yet. -/
structure PopInto where
  packet : Slot
  output : List UInt8
  deriving DecidableEq

namespace RingRun

structure State where
  ring : PacketRing
  writing : List WritePacket
  reading : List Slot
  popping : List PopInto
  committed : List (List UInt8)
  handed : List (List UInt8)

inductive Action
  | pushCopy (packet : List UInt8)
  | copy (lease : WritePacket) (packet : List UInt8)
  | write
  | consume (lease : WritePacket) (len : ℕ) (f : WriteCallback)
  | dropWrite (lease : WritePacket)
  | read
  | dropRead (packet : Slot)
  | popInto (output : List UInt8)
  | copyOut (lease : PopInto)

inductive Response
  | failed (error : RingError)
  | nothing
  | reserved
  | queued
  | recycled
  | taken (packet : List UInt8)
  | copied (length : ℕ) (output : List UInt8)
  | panicked
  deriving DecidableEq

/-- A write lease ends with its packet queued or its buffer recycled. -/
def settle (s : State) (lease : WritePacket) : Option Slot → Response × State
  | some packet =>
    (.queued, { s with
      ring := s.ring.pushBack packet
      writing := s.writing.erase lease
      committed := s.committed ++ [packet.bytes] })
  | none => (.recycled, { s with ring := s.ring.recycle lease.packet, writing := s.writing.erase lease })

def step (s : State) : Action → Option (Response × State)
  | .pushCopy packet =>
    if packet.length > s.ring.slotCapacity then some (.failed (.tooLarge packet.length s.ring.slotCapacity), s)
    else
      match s.ring.write with
      | none => some (.failed .full, s)
      | some (slot, ring) => some (.reserved, { s with ring, writing := s.writing ++ [⟨slot, some packet⟩] })
  | .copy lease packet =>
    if lease ∈ s.writing ∧ lease.copying = some packet then
      some (settle s lease (lease.consume s.ring.slotCapacity packet.length (copyFromSlice packet)))
    else none
  | .write =>
    match s.ring.write with
    | none => some (.nothing, s)
    | some (slot, ring) => some (.reserved, { s with ring, writing := s.writing ++ [⟨slot, none⟩] })
  | .consume lease len f =>
    if lease ∈ s.writing ∧ lease.copying = none then some (settle s lease (lease.consume s.ring.slotCapacity len f))
    else none
  | .dropWrite lease => if lease ∈ s.writing ∧ lease.copying = none then some (settle s lease none) else none
  | .read =>
    match s.ring.read with
    | none => some (.nothing, s)
    | some (packet, ring) =>
      some (.taken packet.bytes, { s with
        ring := ring
        reading := s.reading ++ [packet]
        handed := s.handed ++ [packet.bytes] })
  | .dropRead packet =>
    if packet ∈ s.reading then
      some (.recycled, { s with ring := s.ring.recycle packet, reading := s.reading.erase packet })
    else none
  | .popInto output =>
    match s.ring.popFront output.length with
    | .error error => some (.failed error, s)
    | .ok none => some (.nothing, s)
    | .ok (some (packet, ring)) =>
      some (.taken packet.bytes, { s with
        ring := ring
        popping := s.popping ++ [⟨packet, output⟩]
        handed := s.handed ++ [packet.bytes] })
  | .copyOut lease =>
    if lease ∈ s.popping then
      -- A slice that is too short would panic, and the buffer would not come back.
      if lease.packet.bytes.length > lease.output.length then
        some (.panicked, { s with popping := s.popping.erase lease })
      else
        some (.copied lease.packet.bytes.length
            (lease.packet.bytes ++ lease.output.drop lease.packet.bytes.length), { s with
          ring := s.ring.recycle lease.packet
          popping := s.popping.erase lease })
    else none

def Step (s : State) (action : Action) (t : State) : Prop := ∃ response, step s action = some (response, t)

def start (ring : PacketRing) : State := ⟨ring, [], [], [], [], []⟩

def numbers {α : Type*} (number : α → ℕ) (items : List α) : Multiset ℕ := items.map number

def owned (s : State) : Multiset ℕ :=
  numbers Slot.number s.ring.pool.free + numbers Slot.number s.ring.pool.queued +
    numbers (fun lease => lease.packet.number) s.writing + numbers Slot.number s.reading +
      numbers (fun lease => lease.packet.number) s.popping

/-- What a producer writes with an action: the packet it copies, or what its callback leaves in the slice. -/
def Writes (slotCapacity : ℕ) (bytes : List UInt8) : Action → Prop
  | .copy _ packet => packet = bytes
  | .consume _ len f => len ≤ slotCapacity ∧ f.val (List.replicate len 0) = some bytes
  | _ => False

inductive Moves (s : State) (action : Action) : Response → State → Prop
  | stay {response : Response} (h : response = .nothing ∨ ∃ error, response = .failed error) :
      Moves s action response s
  | reserve {free : List Slot} {packet : Slot} (copying : Option (List UInt8))
      (h : s.ring.pool.free = free ++ [packet]) :
      Moves s action .reserved { s with
        ring := { s.ring with pool := { s.ring.pool with free } }
        writing := s.writing ++ [⟨packet, copying⟩] }
  | commit {lease : WritePacket} {bytes : List UInt8} (hmem : lease ∈ s.writing)
      (hlength : bytes.length ≤ s.ring.slotCapacity) (hwrites : Writes s.ring.slotCapacity bytes action) :
      Moves s action .queued { s with
        ring := s.ring.pushBack { lease.packet with bytes }
        writing := s.writing.erase lease
        committed := s.committed ++ [bytes] }
  | cancel {lease : WritePacket} (hmem : lease ∈ s.writing) :
      Moves s action .recycled { s with ring := s.ring.recycle lease.packet, writing := s.writing.erase lease }
  | lend {packet : Slot} {queued : List Slot} (h : s.ring.pool.queued = packet :: queued) :
      Moves s action (.taken packet.bytes) { s with
        ring := { s.ring with pool := { s.ring.pool with queued } }
        reading := s.reading ++ [packet]
        handed := s.handed ++ [packet.bytes] }
  | release {packet : Slot} (hmem : packet ∈ s.reading) :
      Moves s action .recycled { s with ring := s.ring.recycle packet, reading := s.reading.erase packet }
  | pop {packet : Slot} {queued : List Slot} {output : List UInt8} (h : s.ring.pool.queued = packet :: queued)
      (hfits : packet.bytes.length ≤ output.length) :
      Moves s action (.taken packet.bytes) { s with
        ring := { s.ring with pool := { s.ring.pool with queued } }
        popping := s.popping ++ [⟨packet, output⟩]
        handed := s.handed ++ [packet.bytes] }
  | finish {lease : PopInto} (hmem : lease ∈ s.popping) (haction : action = .copyOut lease) :
      Moves s action
        (.copied lease.packet.bytes.length (lease.packet.bytes ++ lease.output.drop lease.packet.bytes.length))
        { s with ring := s.ring.recycle lease.packet, popping := s.popping.erase lease }
  | lose {lease : PopInto} (hmem : lease ∈ s.popping) (hlong : lease.output.length < lease.packet.bytes.length) :
      Moves s action .panicked { s with popping := s.popping.erase lease }

variable {s t : State} {action : Action} {response : Response}

section Numbers

variable {α : Type*} (number : α → ℕ)

end Numbers

/-- What is handed out and what is queued is what was committed, in order. -/
def InOrder (s : State) : Prop := s.handed ++ s.ring.pool.queued.map Slot.bytes = s.committed

end RingRun

end Quicp
