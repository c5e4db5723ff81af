import Quicp.FakeTcp.ReceiveLossless

/-!
# Receiving from the ring

With a ring a poll copies the payloads of the accepted packets straight from the frames of the kernel into the buffers
of the caller.
-/

namespace Quicp

open Buffer (writeAt)

def packetRingFrameSize : ℕ := 2048

inductive RingPayloadCopy
  | skipped
  | copied (length : ℕ)
  | pending (length : ℕ)

/-- A frame of the ring that belongs to the user: its memory, the fields of its header, whether the kernel kept the
whole packet for the socket, and what a read of the socket brings for it. -/
structure RingFrame where
  memory : List UInt8
  mac : ℕ
  snaplen : ℕ
  len : ℕ
  copy : Bool
  read : Except SocketError (List UInt8)

namespace RingFrame

def copiedLen (frame : RingFrame) : Option ℕ := if frame.copy ∧ frame.snaplen < frame.len then some frame.len else none

def front (frame : RingFrame) : List UInt8 := (frame.memory.drop frame.mac).take frame.snaplen

def packet (frame : RingFrame) : List UInt8 :=
  match frame.copiedLen, frame.read with
  | some _, .ok packet => packet
  | _, _ => frame.front

/-- The kernel fills frames within their memory, and the socket has the packets that it kept. -/
structure Sound (frame : RingFrame) : Prop where
  within : frame.mac + frame.snaplen ≤ packetRingFrameSize
  kept : ∀ length, frame.copiedLen = some length → ∃ packet, frame.read = .ok packet ∧ packet.length = length

end RingFrame

/-- What receiving from the ring works on. The ring is given by what its looks at the next frame find. Whether a group
was given up is only noted here. -/
structure RingReceiver where
  tuple : FourTuple
  inbound : FakeTcpCarrier
  receiveBuffer : Region UInt8
  receiveDirectPending : Option ℕ
  decodeRejects : ℕ
  looks : List (Option RingFrame)
  abandoned : Bool

/-- `copy_next_ring_payload` and the taking of a pending payload: how it ends, the buffer of the group and the
receiver. -/
abbrev RingCopy := Outcome SocketError (Option RingPayloadCopy) × List UInt8 × RingReceiver

namespace RingReceiver

/-- The receiving side of `bind` with a ring. -/
def bind (tuple : FourTuple) (inbound : FakeTcpCarrier) (looks : List (Option RingFrame)) : RingReceiver where
  tuple := tuple
  inbound := inbound
  receiveBuffer := ⟨rawPacketBufferBytes * recvBatchSize, fun _ => 0⟩
  receiveDirectPending := none
  decodeRejects := 0
  looks := looks
  abandoned := false

def skip (receiver : RingReceiver) (target : List UInt8) : RingCopy :=
  (.ok (some .skipped), target, { receiver with decodeRejects := saturatingAdd receiver.decodeRejects 1 })

/-- A decoded payload is copied into the target, or to the front of the receive buffer if it has another length than
the group. -/
def placePayload (receiver : RingReceiver) (target : List UInt8) (offset : ℕ) (stride : Option ℕ)
    (payload : List UInt8) : RingCopy :=
  if stride.all (· == payload.length) then
    match checkedAdd offset payload.length with
    | none => (.err (.custom .invalidData "QUICP payload offset overflow"), target, receiver)
    | some _ =>
      match copyInto target offset payload with
      | none => receiver.skip target
      | some target => (.ok (some (.copied payload.length)), target, receiver)
  else if payload.length > target.length then receiver.skip target
  else if payload.length > receiver.receiveBuffer.size then (.panicked, target, receiver)
  else
    (.ok (some (.pending payload.length)), target,
      { receiver with receiveBuffer := receiver.receiveBuffer.write 0 payload })

/-- A packet is decoded and its payload is copied; one that is longer than the room is skipped. -/
def placePacket (receiver : RingReceiver) (target : List UInt8) (offset : ℕ) (stride : Option ℕ) (packet : List UInt8)
    (room : ℕ) : RingCopy :=
  match receiver.inbound.decodeDatagramBorrowed packet with
  | (.panicked, inbound) => (.panicked, target, { receiver with inbound := inbound })
  | (.err _, inbound) => { receiver with inbound := inbound }.skip target
  | (.ok decoded, inbound) =>
    let receiver := { receiver with inbound := inbound }
    if decoded.payload.length > room then receiver.skip target
    else receiver.placePayload target offset stride decoded.payload

def copyNextRingPayload (receiver : RingReceiver) (target : List UInt8) (offset : ℕ) (stride : Option ℕ) : RingCopy :=
  match receiver.looks with
  | [] => (.ok none, target, receiver)
  | none :: looks => (.ok none, target, { receiver with looks := looks })
  | some frame :: looks =>
    let receiver := { receiver with looks := looks }
    if frame.mac + frame.snaplen > packetRingFrameSize then
      (.err (.custom .invalidData "packet ring packet exceeds frame"), target, receiver)
    else
      match frame.copiedLen with
      | none => receiver.placePacket target offset stride frame.front rawPacketBufferBytes
      | some expectedLen =>
        match frame.read with
        | .error error => (.err error, target, receiver)
        | .ok packet =>
          let received := packet.take rawPacketBufferBytes
          let receiver := { receiver with receiveBuffer := receiver.receiveBuffer.write 0 received }
          if received.length ≠ expectedLen then receiver.skip target
          else receiver.placePacket target offset stride received received.length

end RingReceiver

/-- What the inner loop of `poll_recv_ring_inner` works on. -/
structure RingGroup where
  receiver : RingReceiver
  budget : ℕ
  buffer : List UInt8
  stride : Option ℕ
  groupCount : ℕ

namespace RingGroup

/-- The payload that was kept, or the next one of the ring. -/
def nextPayload (group : RingGroup) : RingCopy :=
  match group.receiver.receiveDirectPending with
  | none => group.receiver.copyNextRingPayload group.buffer (group.groupCount * group.stride.getD 0) group.stride
  | some length =>
    let receiver := { group.receiver with receiveDirectPending := none }
    if (group.groupCount + 1) * length > group.buffer.length then receiver.skip group.buffer
    else
      match getRange receiver.receiveBuffer 0 length with
      | none => (.panicked, group.buffer, receiver)
      | some payload =>
        (.ok (some (.copied length)), writeAt group.buffer (group.groupCount * length) payload, receiver)

def nextEnd (group : RingGroup) : Option ℕ :=
  match group.stride with
  | none => some 0
  | some stride => (checkedAdd group.groupCount 1).bind fun count => checkedMul count stride

/-- The inner loop of `poll_recv_ring_inner`. -/
def fill (group : RingGroup) : Outcome SocketError Unit × RingGroup :=
  if group.groupCount ≥ groSegments then (.ok (), group)
  else
    match group.nextEnd with
    | none => (.err (.custom .invalidData "QUICP receive group length overflow"), group)
    | some stop =>
      if stop > group.buffer.length then (.ok (), group)
      else
        match group.nextPayload with
        | (.panicked, buffer, receiver) => (.panicked, { group with buffer := buffer, receiver := receiver })
        | (.err error, buffer, receiver) => (.err error, { group with buffer := buffer, receiver := receiver })
        | (.ok none, buffer, receiver) => (.ok (), { group with buffer := buffer, receiver := receiver })
        | (.ok (some .skipped), buffer, receiver) =>
          let group := { group with buffer := buffer, receiver := receiver, budget := group.budget - 1 }
          if group.budget = 0 then (.ok (), group) else fill group
        | (.ok (some (.copied length)), buffer, receiver) =>
          fill ⟨receiver, group.budget, buffer, some (group.stride.getD length), group.groupCount + 1⟩
        | (.ok (some (.pending length)), buffer, receiver) =>
          (.ok (), { group with buffer := buffer, receiver := { receiver with receiveDirectPending := some length } })
termination_by group.budget + (groSegments - group.groupCount)
decreasing_by
  all_goals grind -linarith

end RingGroup

/-- What a turn of the loop of a poll gets from the socket: a result of `poll_read_ready`, or whether the ring has a
frame of the user. -/
inductive RingAnswer
  | notReady
  | unready (error : SocketError)
  | ready
  | failed (error : SocketError)
  | wouldBlock

def RingAnswer.fails : RingAnswer → Bool
  | .unready _ | .failed _ => true
  | _ => false

namespace RingReceiver

/-- The loop of `poll_recv_ring_inner` over the slots. -/
def fillSlots (receiver : RingReceiver) (budget : ℕ) (filled : List ReceiveSlot) :
    List ReceiveSlot → Outcome SocketError Unit × Filling RingReceiver
  | [] => (.ok (), ⟨receiver, budget, filled, []⟩)
  | slot :: rest =>
    match RingGroup.fill ⟨receiver, budget, slot.buffer, none, 0⟩ with
    | (.panicked, group) => (.panicked, ⟨group.receiver, group.budget, filled, ⟨group.buffer, slot.info⟩ :: rest⟩)
    | (.err error, group) => (.err error, ⟨group.receiver, group.budget, filled, ⟨group.buffer, slot.info⟩ :: rest⟩)
    | (.ok (), group) =>
      if group.budget = 0 then
        -- Nothing is said about a group that was begun.
        (.ok (), ⟨{ group.receiver with abandoned := group.stride.isSome }, 0, filled,
          ⟨group.buffer, slot.info⟩ :: rest⟩)
      else
        match group.stride with
        | none => (.ok (), ⟨group.receiver, group.budget, filled, ⟨group.buffer, slot.info⟩ :: rest⟩)
        | some stride =>
          let info := groupInfo group.receiver.tuple group.groupCount stride
          fillSlots group.receiver group.budget (filled ++ [⟨group.buffer, info⟩]) rest

/-- What `poll_recv_ring_inner` does with the answer of the socket. -/
def ask : RingAnswer → RingReceiver → Reply RingReceiver
  | .notReady, _ => .notReady
  | .unready error, _ => .failed error
  | .failed error, _ => .failed error
  | .ready, receiver => .more receiver
  | .wouldBlock, receiver => .nothing receiver

variable (accept : List UInt8 → Option (List UInt8)) (limit : ℕ)

def queued (receiver : RingReceiver) : List (List UInt8) :=
  receiver.receiveDirectPending.toList.map (receiver.receiveBuffer.read 0) ++
    receiver.looks.filterMap fun look => look.bind fun frame => accept frame.packet

/-- The storage has room for a packet, a payload that is kept is not empty and lies in it, the frames are sound, the
carrier accepts what is to be accepted, with payloads up to the limit, and no group was given up. -/
structure Stored (receiver : RingReceiver) : Prop where
  storage : receiver.receiveBuffer.size = rawPacketBufferBytes * recvBatchSize
  pending : ∀ length ∈ receiver.receiveDirectPending, 0 < length ∧ length ≤ receiver.receiveBuffer.size
  frames : ∀ frame, some frame ∈ receiver.looks → frame.Sound
  accepts : receiver.inbound.acceptedPayload = accept
  short : ∀ payload ∈ receiver.queued accept, payload.length ≤ limit
  kept : receiver.abandoned = false

/-- What the next payload comes to: nothing, a packet that is refused, a payload in the buffer of the group, or one at
the front of the receive buffer. -/
inductive Takes (queue : List (List UInt8)) (target : List UInt8) (offset : ℕ) (stride : Option ℕ) : RingCopy → Prop
  | nothing {receiver : RingReceiver} (stored : receiver.Stored accept limit)
      (taken : receiver.receiveDirectPending = none) (queued : queue = receiver.queued accept) :
      Takes queue target offset stride (.ok none, target, receiver)
  | skipped {receiver : RingReceiver} (stored : receiver.Stored accept limit)
      (taken : receiver.receiveDirectPending = none) (queued : queue = receiver.queued accept) :
      Takes queue target offset stride (.ok (some .skipped), target, receiver)
  | copied {receiver : RingReceiver} {payload : List UInt8} {length : ℕ} (stored : receiver.Stored accept limit)
      (taken : receiver.receiveDirectPending = none) (queued : queue = payload :: receiver.queued accept)
      (length_eq : payload.length = length) (positive : 0 < length) (same : ∀ other ∈ stride, other = length)
      (room : offset + length ≤ target.length) :
      Takes queue target offset stride (.ok (some (.copied length)), writeAt target offset payload, receiver)
  | pending {receiver : RingReceiver} {length : ℕ}
      (stored : { receiver with receiveDirectPending := some length }.Stored accept limit)
      (queued : queue = { receiver with receiveDirectPending := some length }.queued accept) :
      Takes queue target offset stride (.ok (some (.pending length)), target, receiver)

variable {accept limit} {receiver : RingReceiver} {target : List UInt8} {offset : ℕ} {stride : Option ℕ}

structure Room (limit : ℕ) (target : List UInt8) (offset : ℕ) (stride : Option ℕ) : Prop where
  packet : limit ≤ rawPacketBufferBytes
  buffer : limit ≤ target.length
  word : offset + rawPacketBufferBytes ≤ wordMax
  empty : stride = none → offset = 0
  next : ∀ length ∈ stride, offset + length ≤ target.length

theorem placePayload_takes (h : receiver.Stored accept limit) (hnone : receiver.receiveDirectPending = none)
    (hroom : Room limit target offset stride) {payload : List UInt8} (hpayload : payload ≠ [])
    (hshort : payload.length ≤ limit) :
    Takes accept limit (payload :: receiver.queued accept) target offset stride
      (receiver.placePayload target offset stride payload) := by
  have hpositive := List.length_pos_iff.mpr hpayload
  have hpacket := hshort.trans hroom.packet
  unfold placePayload
  split_ifs with hsame hlong hlarge
  · have hlength : ∀ other ∈ stride, other = payload.length := by simpa [Option.all_eq_true] using hsame
    have hfits : offset + payload.length ≤ target.length := by
      cases stride with
      | none =>
        rw [hroom.empty rfl, Nat.zero_add]
        exact hshort.trans hroom.buffer
      | some length => exact hlength length rfl ▸ hroom.next length rfl
    have hadd : checkedAdd offset payload.length = some (offset + payload.length) :=
      if_pos ((Nat.add_le_add_left hpacket _).trans hroom.word)
    simp only [hadd, copyInto, if_pos hfits]
    exact .copied h hnone rfl rfl hpositive hlength hfits
  · exact absurd (hshort.trans hroom.buffer) (not_le.mpr hlong)
  · have hsize : rawPacketBufferBytes ≤ rawPacketBufferBytes * recvBatchSize := by decide
    exact absurd (hpacket.trans (hsize.trans_eq h.storage.symm)) (not_le.mpr hlarge)
  · have hread : (receiver.receiveBuffer.write 0 payload).read 0 payload.length = payload := Region.read_write
    have hqueued : payload :: receiver.queued accept = { receiver with
        receiveBuffer := receiver.receiveBuffer.write 0 payload
        receiveDirectPending := some payload.length }.queued accept := by
      rw [queued, queued, hnone]
      exact congrArg (· :: _) hread.symm
    refine .pending ⟨h.storage, ?_, h.frames, h.accepts, ?_, h.kept⟩ hqueued
    · rintro _ ⟨⟩
      exact ⟨hpositive, not_lt.mp hlarge⟩
    · rw [← hqueued]
      exact List.forall_mem_cons.mpr ⟨hshort, h.short⟩

theorem placePacket_takes (h : receiver.Stored accept limit) (hnone : receiver.receiveDirectPending = none)
    (hroom : Room limit target offset stride) {packet : List UInt8} {room : ℕ}
    (hpacket : ∀ payload ∈ accept packet, payload.length ≤ limit ∧ payload.length ≤ room) :
    Takes accept limit ((accept packet).toList ++ receiver.queued accept) target offset stride
      (receiver.placePacket target offset stride packet room) := by
  unfold placePacket
  obtain ⟨decoded, inbound, hdecode, haccepted, haccepts⟩ | ⟨error, hdecode, hrefused⟩ :=
    receiver.inbound.decodeDatagramBorrowed_accepted packet
  · obtain ⟨hpayload, _⟩ := receiver.inbound.acceptedPayload_suffix haccepted
    rw [h.accepts] at haccepted haccepts
    obtain ⟨hshort, hfits⟩ := hpacket _ haccepted
    have hstored : { receiver with inbound := inbound }.Stored accept limit :=
      ⟨h.storage, h.pending, h.frames, haccepts, h.short, h.kept⟩
    simp only [hdecode, if_neg (not_lt.mpr hfits), haccepted]
    exact placePayload_takes hstored hnone hroom hpayload hshort
  · rw [h.accepts] at hrefused
    simp only [hdecode, hrefused]
    exact .skipped ⟨h.storage, h.pending, h.frames, h.accepts, h.short, h.kept⟩ hnone rfl

theorem copyNextRingPayload_takes (h : receiver.Stored accept limit) (hnone : receiver.receiveDirectPending = none)
    (hroom : Room limit target offset stride) :
    Takes accept limit (receiver.queued accept) target offset stride
      (receiver.copyNextRingPayload target offset stride) := by
  unfold copyNextRingPayload
  cases hlooks : receiver.looks with
  | nil => exact .nothing h hnone rfl
  | cons look looks =>
    have hqueued : receiver.queued accept =
        (look.bind fun frame => accept frame.packet).toList ++ { receiver with looks := looks }.queued accept := by
      rw [queued, queued, hnone, hlooks, List.filterMap_cons]
      cases look.bind fun frame => accept frame.packet <;> rfl
    have hstored : { receiver with looks := looks }.Stored accept limit :=
      ⟨h.storage, h.pending, fun frame hframe => h.frames frame (hlooks ▸ List.mem_cons_of_mem _ hframe), h.accepts,
        fun payload hpayload => h.short payload (hqueued ▸ List.mem_append_right _ hpayload), h.kept⟩
    cases look with
    | none => exact .nothing hstored hnone hqueued
    | some frame =>
      rw [Option.bind_some] at hqueued
      obtain ⟨hwithin, hkept⟩ := h.frames frame (hlooks ▸ List.mem_cons_self)
      have hshort : ∀ payload ∈ accept frame.packet, payload.length ≤ limit := fun payload hpayload =>
        h.short payload (hqueued ▸ List.mem_append_left _ (Option.mem_toList.mpr hpayload))
      have hlong : ∀ payload ∈ accept frame.packet, payload.length ≤ rawPacketBufferBytes := fun payload hpayload =>
        (hshort payload hpayload).trans hroom.packet
      rw [hqueued]
      simp only [if_neg (not_lt.mpr hwithin)]
      cases hcopied : frame.copiedLen with
      | none =>
        have hpacket : frame.packet = frame.front := by rw [RingFrame.packet, hcopied]
        rw [hpacket] at hshort hlong ⊢
        exact placePacket_takes hstored hnone hroom fun payload hpayload => ⟨hshort payload hpayload, hlong payload hpayload⟩
      | some length =>
        obtain ⟨packet, hread, hlength⟩ := hkept length hcopied
        have hpacket : frame.packet = packet := by rw [RingFrame.packet, hcopied, hread]
        rw [hpacket] at hshort ⊢
        -- Without a payload that is kept, reading the packet overwrites nothing.
        have hsame : { receiver with looks := looks }.queued accept = { receiver with
            receiveBuffer := receiver.receiveBuffer.write 0 (packet.take rawPacketBufferBytes)
            looks := looks }.queued accept := by
          rw [queued, queued, hnone]
          rfl
        have hstored' : Stored accept limit { receiver with
            receiveBuffer := receiver.receiveBuffer.write 0 (packet.take rawPacketBufferBytes)
            looks := looks } := ⟨h.storage, h.pending, hstored.frames, h.accepts, hsame ▸ hstored.short, h.kept⟩
        simp only [hread]
        split_ifs with hcut
        · -- The packet is longer than the storage, and so than any that is accepted.
          have hrefused : accept packet = none := by
            refine Option.eq_none_iff_forall_not_mem.mpr fun payload hpayload => ?_
            rw [← h.accepts] at hpayload
            have hle := receiver.inbound.length_of_acceptedPayload hpayload
            rw [List.length_take, min_eq_right hle] at hcut
            exact hcut hlength
          rw [hrefused]
          exact .skipped ⟨h.storage, h.pending, hstored.frames, h.accepts, hstored'.short, h.kept⟩ hnone hsame
        · have hwhole : packet.take rawPacketBufferBytes = packet := by
            rw [List.length_take] at hcut
            exact List.take_of_length_le (by omega)
          rw [hwhole] at hstored' hsame ⊢
          rw [hsame]
          refine placePacket_takes hstored' hnone hroom fun payload hpayload => ⟨hshort payload hpayload, ?_⟩
          rw [← h.accepts] at hpayload
          exact (receiver.inbound.acceptedPayload_suffix hpayload).2.length_le

/-- A group has the first of the payloads that were to be handed out, and its receiver has the others. -/
structure Collects (accept : List UInt8 → Option (List UInt8)) (limit : ℕ) (queue payloads : List (List UInt8))
    (group : RingGroup) : Prop where
  grouped : Grouped group.buffer (group.stride.getD 0) payloads
  groupCount : group.groupCount = payloads.length
  stride : ∀ length ∈ group.stride, 0 < length ∧ length ≤ limit
  empty : group.stride = none → payloads = []
  stored : group.receiver.Stored accept limit
  queued : queue = payloads ++ group.receiver.queued accept

variable {group : RingGroup} {queue payloads : List (List UInt8)}

theorem nextPayload_takes (h : Collects accept limit queue payloads group)
    (hroom : Room limit group.buffer (group.groupCount * group.stride.getD 0) group.stride)
    (hpending : group.receiver.receiveDirectPending = none ∨ group.stride = none) :
    Takes accept limit (group.receiver.queued accept) group.buffer (group.groupCount * group.stride.getD 0) group.stride
      group.nextPayload := by
  unfold RingGroup.nextPayload
  cases hkept : group.receiver.receiveDirectPending with
  | none => exact copyNextRingPayload_takes h.stored hkept hroom
  | some length =>
    have hstride : group.stride = none := hpending.resolve_left (by simp [hkept])
    have hcount : group.groupCount = 0 := by rw [h.groupCount, h.empty hstride]; rfl
    obtain ⟨hpositive, hlength⟩ := h.stored.pending length hkept
    have hqueued : group.receiver.queued accept = group.receiver.receiveBuffer.read 0 length ::
        { group.receiver with receiveDirectPending := none }.queued accept := by
      rw [queued, hkept]
      rfl
    have hshort := h.stored.short _ (hqueued ▸ List.mem_cons_self)
    rw [Region.length_read] at hshort
    have hfits := hshort.trans hroom.buffer
    have hrange : getRange group.receiver.receiveBuffer 0 length = some (group.receiver.receiveBuffer.read 0 length) :=
      if_pos ⟨Nat.zero_le _, hlength⟩
    simp only [hcount, hstride, Nat.zero_add, Nat.one_mul, Nat.zero_mul, if_neg (not_lt.mpr hfits), hrange]
    refine .copied ⟨h.stored.storage, nofun, h.stored.frames, h.stored.accepts, ?_, h.stored.kept⟩ rfl hqueued
      Region.length_read hpositive nofun (by omega)
    exact fun payload hpayload => h.stored.short payload (hqueued ▸ List.mem_cons_of_mem _ hpayload)

theorem nextEnd_room (h : Collects accept limit queue payloads group) (hlimit : limit ≤ rawPacketBufferBytes)
    (hbuffer : limit ≤ group.buffer.length) (hfull : ¬group.groupCount ≥ groSegments) :
    ∃ stop, group.nextEnd = some stop ∧ (¬stop > group.buffer.length →
      Room limit group.buffer (group.groupCount * group.stride.getD 0) group.stride) := by
  have hword : groSegments * rawPacketBufferBytes ≤ wordMax := by decide
  have hcount : group.groupCount + 1 ≤ groSegments := Nat.lt_of_not_ge hfull
  unfold RingGroup.nextEnd
  cases hstride : group.stride with
  | none =>
    refine ⟨0, rfl, fun _ => ⟨hlimit, hbuffer, ?_, fun _ => Nat.mul_zero _, nofun⟩⟩
    rw [Option.getD_none, Nat.mul_zero, Nat.zero_add]
    exact (Nat.le_mul_of_pos_left _ (by decide)).trans hword
  | some stride =>
    have hshort := (h.stride stride hstride).2.trans hlimit
    have hstop := (Nat.mul_le_mul hcount hshort).trans hword
    have hoffset := (Nat.mul_le_mul_right rawPacketBufferBytes hcount).trans hword
    have hsmall := Nat.mul_le_mul_left group.groupCount hshort
    have hadd : checkedAdd group.groupCount 1 = some (group.groupCount + 1) := if_pos (hcount.trans (by decide))
    refine ⟨(group.groupCount + 1) * stride, by rw [hadd]; exact if_pos hstop, fun hroom => ⟨hlimit, hbuffer, ?_, nofun, ?_⟩⟩
    · rw [Nat.succ_mul] at hoffset
      rw [Option.getD_some]
      omega
    · rintro _ ⟨⟩
      rw [Nat.succ_mul] at hroom
      exact not_lt.mp hroom

theorem Collects.copied (h : Collects accept limit queue payloads group) {receiver : RingReceiver} {payload : List UInt8}
    (stored : receiver.Stored accept limit) (queued : group.receiver.queued accept = payload :: receiver.queued accept)
    (positive : 0 < payload.length) (same : ∀ other ∈ group.stride, other = payload.length)
    (room : group.groupCount * group.stride.getD 0 + payload.length ≤ group.buffer.length) :
    Collects accept limit queue (payloads ++ [payload])
      ⟨receiver, group.budget, writeAt group.buffer (group.groupCount * group.stride.getD 0) payload,
        some (group.stride.getD payload.length), group.groupCount + 1⟩ := by
  have hgroup : group.stride.getD payload.length = payload.length ∧
      group.groupCount * group.stride.getD 0 = payloads.length * payload.length ∧
        Grouped group.buffer payload.length payloads := by
    cases hstride : group.stride with
    | none =>
      obtain rfl := h.empty hstride
      exact ⟨rfl, by simp, Grouped.nil _ _⟩
    | some stride =>
      obtain rfl := same stride hstride
      have hgrouped := h.grouped
      rw [hstride] at hgrouped
      exact ⟨rfl, by rw [h.groupCount]; rfl, hgrouped⟩
  obtain ⟨hstride, hoffset, hgrouped⟩ := hgroup
  rw [hoffset] at room ⊢
  rw [hstride]
  refine ⟨hgrouped.append rfl (by rwa [Nat.succ_mul]), ?_, ?_, nofun, stored, ?_⟩
  · rw [List.length_append, h.groupCount]
    rfl
  · rintro _ ⟨⟩
    exact ⟨positive, h.stored.short payload (queued ▸ List.mem_cons_self)⟩
  · rw [h.queued, queued, List.append_assoc]
    rfl

theorem fill_collects (h : Collects accept limit queue payloads group) (hlimit : limit ≤ rawPacketBufferBytes)
    (hbuffer : limit ≤ group.buffer.length)
    (hpending : group.receiver.receiveDirectPending = none ∨ group.stride = none) :
    ∃ payloads group', group.fill = (.ok (), group') ∧ limit ≤ group'.buffer.length ∧
      Collects accept limit queue payloads group' := by
  have htakes : ∀ {group : RingGroup} {payloads : List (List UInt8)} {stop : ℕ} {copy : RingCopy},
      Collects accept limit queue payloads group → limit ≤ group.buffer.length →
        (group.receiver.receiveDirectPending = none ∨ group.stride = none) → ¬group.groupCount ≥ groSegments →
          group.nextEnd = some stop → ¬stop > group.buffer.length → group.nextPayload = copy →
            Takes accept limit (group.receiver.queued accept) group.buffer (group.groupCount * group.stride.getD 0)
              group.stride copy := by
    rintro group payloads stop copy h hbuffer hpending hfull hend hstop rfl
    obtain ⟨_, hend', hroom⟩ := nextEnd_room h hlimit hbuffer hfull
    cases hend.symm.trans hend'
    exact nextPayload_takes h (hroom hstop) hpending
  fun_induction RingGroup.fill group generalizing payloads with
  | case1 group hfull => exact ⟨payloads, _, rfl, hbuffer, h⟩
  | case2 group hfull hend =>
    obtain ⟨_, hend', _⟩ := nextEnd_room h hlimit hbuffer hfull
    cases hend.symm.trans hend'
  | case3 group hfull stop hend hstop => exact ⟨payloads, _, rfl, hbuffer, h⟩
  | case4 group hfull stop hend hstop buffer receiver hnext =>
    cases htakes h hbuffer hpending hfull hend hstop hnext
  | case5 group hfull stop hend hstop error buffer receiver hnext =>
    cases htakes h hbuffer hpending hfull hend hstop hnext
  | case6 group hfull stop hend hstop buffer receiver hnext =>
    cases htakes h hbuffer hpending hfull hend hstop hnext with
    | nothing stored taken queued =>
      exact ⟨payloads, _, rfl, hbuffer, h.grouped, h.groupCount, h.stride, h.empty, stored,
        h.queued.trans (congrArg _ queued)⟩
  | case7 group hfull stop hend hstop buffer receiver hnext hspent =>
    cases htakes h hbuffer hpending hfull hend hstop hnext with
    | skipped stored taken queued =>
      exact ⟨payloads, _, rfl, hbuffer, h.grouped, h.groupCount, h.stride, h.empty, stored,
        h.queued.trans (congrArg _ queued)⟩
  | case8 group hfull stop hend hstop buffer receiver hnext next hspent =>
    next ih =>
    cases htakes h hbuffer hpending hfull hend hstop hnext with
    | skipped stored taken queued =>
      exact ih ⟨h.grouped, h.groupCount, h.stride, h.empty, stored, h.queued.trans (congrArg _ queued)⟩ hbuffer
        (.inl taken)
  | case9 group hfull stop hend hstop length buffer receiver hnext ih =>
    cases htakes h hbuffer hpending hfull hend hstop hnext with
    | @copied receiver payload length stored taken queued hlength positive same room =>
      subst hlength
      exact ih (h.copied stored queued positive same room) ((Buffer.length_writeAt room).symm ▸ hbuffer) (.inl taken)
  | case10 group hfull stop hend hstop length buffer receiver hnext =>
    cases htakes h hbuffer hpending hfull hend hstop hnext with
    | pending stored queued =>
      exact ⟨payloads, _, rfl, hbuffer, h.grouped, h.groupCount, h.stride, h.empty, stored,
        h.queued.trans (congrArg _ queued)⟩

/-- The account of receiving from the ring. Nothing arrives but what the looks find. -/
def account (accept : List UInt8 → Option (List UInt8)) (limit : ℕ) : PayloadAccount RingReceiver RingAnswer where
  sound := Stored accept limit
  lost receiver := receiver.abandoned = true
  idle _ := True
  queued := queued accept
  expects answer := answer.fails = false
  brings _ := []

theorem fillSlots_fills (hlimit : limit ≤ rawPacketBufferBytes) {slots : List ReceiveSlot} (budget : ℕ)
    (filled : List ReceiveSlot) (h : receiver.Stored accept limit) (hroom : ∀ slot ∈ slots, limit ≤ slot.buffer.length) :
    ∃ after, receiver.fillSlots budget filled slots = (.ok (), after) ∧
      (¬after.source.abandoned = true → (account accept limit).Fills limit ⟨receiver, budget, filled, slots⟩ after) ∧
        (after.source.abandoned = true → after.rest ≠ [] ∧ after.budget = 0) := by
  induction slots generalizing receiver budget filled with
  | nil => exact ⟨_, rfl, fun _ => ⟨h, nofun, rfl, .inl rfl⟩, fun hlost => absurd (h.kept.symm.trans hlost) nofun⟩
  | cons slot rest ih =>
    obtain ⟨hslot, hrest⟩ := List.forall_mem_cons.mp hroom
    have hstart : Collects accept limit (receiver.queued accept) [] ⟨receiver, budget, slot.buffer, none, 0⟩ :=
      ⟨Grouped.nil _ _, rfl, nofun, fun _ => rfl, h, rfl⟩
    obtain ⟨payloads, group, hfill, hbuffer, hcollects⟩ := fill_collects hstart hlimit hslot (.inr rfl)
    have hleft : ∀ other ∈ (⟨group.buffer, slot.info⟩ : ReceiveSlot) :: rest, limit ≤ other.buffer.length :=
      List.forall_mem_cons.mpr ⟨hbuffer, hrest⟩
    unfold fillSlots
    simp only [hfill]
    cases hstride : group.stride with
    | none =>
      have hqueued := hcollects.queued
      rw [hcollects.empty hstride, List.nil_append] at hqueued
      have hstored : { group.receiver with abandoned := false }.Stored accept limit := { hcollects.stored with kept := rfl }
      split_ifs with hspent
      · exact ⟨_, rfl, fun _ => ⟨hstored, hleft, congrArg _ hqueued, .inr (.inl rfl)⟩, nofun⟩
      · exact ⟨_, rfl, fun _ => ⟨hcollects.stored, hleft, congrArg _ hqueued, .inr (.inr trivial)⟩,
          fun hlost => absurd (hcollects.stored.kept.symm.trans hlost) nofun⟩
    | some stride =>
      split_ifs with hspent
      · exact ⟨_, rfl, fun hkept => absurd rfl hkept, fun _ => ⟨List.cons_ne_nil _ _, rfl⟩⟩
      · obtain ⟨after, hafter, hfills, hlost⟩ := ih group.budget
          (filled ++ [⟨group.buffer, groupInfo group.receiver.tuple group.groupCount stride⟩]) hcollects.stored hrest
        refine ⟨after, hafter, fun hkept => ?_, hlost⟩
        obtain ⟨hsound, hroom', hpieces', hreason⟩ := hfills hkept
        refine ⟨hsound, hroom', Eq.trans ?_ hpieces', hreason⟩
        have hgrouped := hcollects.grouped
        rw [hstride, Option.getD_some] at hgrouped
        have hpieces : ReceiveSlot.pieces ⟨group.buffer, groupInfo group.receiver.tuple group.groupCount stride⟩ =
            payloads :=
          hgrouped.pieces_eq (hcollects.stride stride hstride).1 (by rw [← hcollects.groupCount]; rfl) rfl
        simp only [Filling.pieces, List.flatMap_append, List.flatMap_singleton, hpieces, List.append_assoc]
        exact congrArg _ hcollects.queued

/-- Every packet of the ring was consumed and no payload of one is kept. -/
def Drained (receiver : RingReceiver) : Prop :=
  (∀ look ∈ receiver.looks, look = none) ∧ receiver.receiveDirectPending = none

theorem Drained.queued_eq (h : receiver.Drained) : receiver.queued accept = [] := by
  rw [queued, h.2]
  refine List.filterMap_eq_nil_iff.mpr fun look hlook => ?_
  rw [h.1 look hlook]
  rfl

end RingReceiver

end Quicp
