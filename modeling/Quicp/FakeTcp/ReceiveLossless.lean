import Quicp.FakeTcp.Receive

/-!
# Batched receive loses nothing

What a socket still has to hand out is the payload that was put back and the accepted payloads in the rest of its
batch.
-/

namespace Quicp

open Buffer (writeAt)

namespace FakeTcpSocket

def packetAt (socket : FakeTcpSocket) (index : ℕ) : List UInt8 :=
  socket.receiveBuffer.read (index * rawPacketBufferBytes) (socket.receiveBatchLengths.getD index 0)

def payloadAt (socket : FakeTcpSocket) (packet : DecodedRawPacket) : List UInt8 :=
  socket.receiveBuffer.read (packet.batchIndex * rawPacketBufferBytes + packet.payloadOffset) packet.payloadLength

def Drained (socket : FakeTcpSocket) : Prop :=
  socket.receivePending = none ∧ socket.receiveBatchCount ≤ socket.receiveBatchIndex

/-- The decoded packet lies in its place and has a payload. -/
structure Holds (packet : DecodedRawPacket) : Prop where
  index : packet.batchIndex < recvBatchSize
  stop : packet.payloadOffset + packet.payloadLength ≤ rawPacketBufferBytes
  payload : 0 < packet.payloadLength

section Socket

variable (accept : List UInt8 → Option (List UInt8)) (limit : ℕ)

def queued (socket : FakeTcpSocket) : List (List UInt8) :=
  socket.receivePending.toList.map socket.payloadAt ++
    (List.range' socket.receiveBatchIndex (socket.receiveBatchCount - socket.receiveBatchIndex)).filterMap
      fun index => accept (socket.packetAt index)

/-- The storage has a place for every packet of a batch, every packet lies in its place, and the carrier accepts what
is to be accepted, with payloads up to the limit. -/
structure Stored (socket : FakeTcpSocket) : Prop where
  storage : socket.receiveBuffer.size = rawPacketBufferBytes * recvBatchSize
  lengths : socket.receiveBatchLengths.length = recvBatchSize
  fits : ∀ length ∈ socket.receiveBatchLengths, length ≤ rawPacketBufferBytes
  count : socket.receiveBatchCount ≤ recvBatchSize
  pending : ∀ packet ∈ socket.receivePending, Holds packet
  accepts : socket.inbound.acceptedPayload = accept
  short : ∀ payload ∈ socket.queued accept, payload.length ≤ limit

end Socket

variable {accept : List UInt8 → Option (List UInt8)} {limit : ℕ} {socket : FakeTcpSocket}

theorem stored_bind (tuple : FourTuple) (inbound : FakeTcpCarrier) :
    (bind tuple inbound).Stored inbound.acceptedPayload limit where
  storage := rfl
  lengths := rfl
  fits := by simp [bind]
  count := Nat.zero_le _
  pending := nofun
  accepts := rfl
  short := nofun

theorem Drained.queued_eq (h : socket.Drained) : socket.queued accept = [] := by
  rw [queued, h.1, Nat.sub_eq_zero_of_le h.2]
  rfl

variable {index : ℕ}

theorem place_le {stop : ℕ} (hindex : index < recvBatchSize) (hstop : stop ≤ rawPacketBufferBytes) :
    index * rawPacketBufferBytes + stop ≤ rawPacketBufferBytes * recvBatchSize := by
  have hplace := Nat.mul_le_mul_right rawPacketBufferBytes (Nat.succ_le_of_lt hindex)
  rw [Nat.succ_mul, Nat.mul_comm recvBatchSize] at hplace
  omega

variable {length start : ℕ}

theorem getRange_place (h : start + length ≤ rawPacketBufferBytes * recvBatchSize)
    {buffer : Region UInt8} (hbuffer : buffer.size = rawPacketBufferBytes * recvBatchSize) :
    checkedAdd start length = some (start + length) ∧
      getRange buffer start (start + length) = some (buffer.read start length) := by
  refine ⟨if_pos (h.trans (by decide)), ?_⟩
  rw [getRange, if_pos ⟨Nat.le_add_right _ _, hbuffer ▸ h⟩, Nat.add_sub_cancel_left]

variable {buffer : List UInt8}

theorem decodedPayload_eq {packet : DecodedRawPacket} {stop : ℕ} {payload : List UInt8}
    (hstart : checkedAdd (packet.batchIndex * rawPacketBufferBytes) packet.payloadOffset = some start)
    (hstop : checkedAdd start packet.payloadLength = some stop)
    (hrange : getRange socket.receiveBuffer start stop = some payload) : socket.decodedPayload packet = .ok payload := by
  rw [decodedPayload]
  simp only [hstart, hstop, hrange]

theorem copyPayload_eq (h : socket.receiveBuffer.size = rawPacketBufferBytes * recvBatchSize) {packet : DecodedRawPacket}
    (hholds : Holds packet) (hroom : start + packet.payloadLength ≤ buffer.length) :
    socket.copyPayload packet buffer start = .ok (writeAt buffer start (socket.payloadAt packet)) := by
  have hplace := place_le hholds.index hholds.stop
  rw [← Nat.add_assoc] at hplace
  obtain ⟨hstart, _⟩ := getRange_place ((Nat.le_add_right _ _).trans hplace) h
  obtain ⟨hstop, hrange⟩ := getRange_place hplace h
  rw [copyPayload, decodedPayload_eq hstart hstop hrange]
  simp only [copyInto, Region.length_read, if_pos hroom]
  rfl

theorem packetAt_eq (h : socket.Stored accept limit) (hindex : index < recvBatchSize) :
    ∃ length, socket.receiveBatchLengths[index]? = some length ∧ length ≤ rawPacketBufferBytes ∧
      socket.packetAt index = socket.receiveBuffer.read (index * rawPacketBufferBytes) length ∧
      checkedAdd (index * rawPacketBufferBytes) length = some (index * rawPacketBufferBytes + length) ∧
      getRange socket.receiveBuffer (index * rawPacketBufferBytes) (index * rawPacketBufferBytes + length) =
        some (socket.packetAt index) := by
  have hwithin : index < socket.receiveBatchLengths.length := h.lengths ▸ hindex
  have hget := List.getElem?_eq_getElem hwithin
  have hfits := h.fits _ (List.getElem_mem hwithin)
  obtain ⟨hstop, hrange⟩ := getRange_place (place_le hindex hfits) h.storage
  refine ⟨_, hget, hfits, ?_, hstop, hrange.trans ?_⟩
  all_goals rw [packetAt, List.getD_eq_getElem?_getD, hget, Option.getD_some]

/-- What the search for the next packet comes to: the first payload that is still to be handed out, or none because
the budget is spent or nothing is left. -/
inductive Advances (accept : List UInt8 → Option (List UInt8)) (limit : ℕ) (socket : FakeTcpSocket) :
    Outcome SocketError (Option DecodedRawPacket) × FakeTcpSocket × ℕ → Prop
  | found {packet : DecodedRawPacket} {socket' : FakeTcpSocket} {budget : ℕ} (stored : socket'.Stored accept limit)
      (holds : Holds packet) (pending : socket'.receivePending = none)
      (queued : socket.queued accept = socket'.payloadAt packet :: socket'.queued accept) :
      Advances accept limit socket (.ok (some packet), socket', budget)
  | stopped {socket' : FakeTcpSocket} {budget : ℕ} (stored : socket'.Stored accept limit)
      (queued : socket.queued accept = socket'.queued accept) (reason : budget = 0 ∨ socket'.Drained) :
      Advances accept limit socket (.ok none, socket', budget)

theorem queued_next (hpending : socket.receivePending = none)
    (hindex : socket.receiveBatchIndex < socket.receiveBatchCount) :
    socket.queued accept = (accept (socket.packetAt socket.receiveBatchIndex)).toList ++
      { socket with receiveBatchIndex := socket.receiveBatchIndex + 1 }.queued accept := by
  have hleft : socket.receiveBatchCount - socket.receiveBatchIndex =
      (socket.receiveBatchCount - (socket.receiveBatchIndex + 1)) + 1 := by omega
  rw [queued, queued, hpending, hleft, List.range'_succ, List.filterMap_cons]
  cases accept (socket.packetAt socket.receiveBatchIndex) <;> rfl

theorem payloadAt_of_suffix {payload : List UInt8} (h : payload <:+ socket.packetAt index)
    (hpacket : socket.packetAt index = socket.receiveBuffer.read (index * rawPacketBufferBytes) length) :
    payload.length ≤ length ∧ socket.payloadAt ⟨index, length - payload.length, payload.length⟩ = payload := by
  rw [hpacket] at h
  have hle := h.length_le
  have hdrop := List.suffix_iff_eq_drop.mp h
  rw [Region.length_read] at hle hdrop
  rw [Region.drop_read, Nat.sub_sub_self hle] at hdrop
  exact ⟨hle, hdrop.symm⟩

theorem scanBatch_advances {left : ℕ} (h : socket.Stored accept limit) (hpending : socket.receivePending = none)
    (hleft : left = socket.receiveBatchCount - socket.receiveBatchIndex) (budget : ℕ) :
    Advances accept limit socket (scanBatch left socket budget) := by
  induction left generalizing socket budget with
  | zero => exact .stopped h rfl (.inr ⟨hpending, Nat.le_of_sub_eq_zero hleft.symm⟩)
  | succ left ih =>
    have hindex : socket.receiveBatchIndex < socket.receiveBatchCount := by omega
    obtain ⟨length, hget, hfits, hpacket, hstop, hrange⟩ := packetAt_eq h (hindex.trans_le h.count)
    have hqueued : socket.queued accept = _ := queued_next hpending hindex
    have hnext : ∀ payload ∈ { socket with receiveBatchIndex := socket.receiveBatchIndex + 1 }.queued accept,
        payload.length ≤ limit := fun payload hpayload => h.short payload (hqueued ▸ List.mem_append_right _ hpayload)
    rw [scanBatch]
    simp only [hget, hstop, hrange]
    obtain ⟨decoded, inbound, hdecode, haccepted, haccepts⟩ | ⟨error, hdecode, hrefused⟩ :=
      socket.inbound.decodeDatagramBorrowed_accepted (socket.packetAt socket.receiveBatchIndex)
    · obtain ⟨hpayload, hsuffix⟩ := socket.inbound.acceptedPayload_suffix haccepted
      obtain ⟨hlength, hpayloadAt⟩ := payloadAt_of_suffix hsuffix hpacket
      simp only [hdecode]
      refine .found ⟨h.storage, h.lengths, h.fits, h.count, h.pending, haccepts.trans h.accepts, hnext⟩
        ⟨hindex.trans_le h.count, by dsimp only; omega, List.length_pos_iff.mpr hpayload⟩ hpending ?_
      rw [hqueued, ← h.accepts, haccepted]
      exact congrArg (· :: _) hpayloadAt.symm
    · rw [← h.accepts, hrefused] at hqueued
      have hstored : FakeTcpSocket.Stored accept limit
          { socket with receiveBatchIndex := socket.receiveBatchIndex + 1 }.reject :=
        ⟨h.storage, h.lengths, h.fits, h.count, h.pending, h.accepts, hnext⟩
      rw [h.accepts] at hqueued
      simp only [hdecode]
      split_ifs with hspent
      · exact .stopped hstored hqueued (.inl hspent)
      · have hleft' : left = socket.receiveBatchCount - (socket.receiveBatchIndex + 1) := by omega
        have hadvances := ih hstored hpending hleft' (budget - 1)
        generalize scanBatch left _ (budget - 1) = result at hadvances
        cases hadvances with
        | found stored holds pending queued => exact .found stored holds pending (hqueued.trans queued)
        | stopped stored queued reason => exact .stopped stored (hqueued.trans queued) reason

theorem nextDecodedPacket_advances (h : socket.Stored accept limit) (budget : ℕ) :
    Advances accept limit socket (socket.nextDecodedPacket budget) := by
  unfold nextDecodedPacket
  split_ifs with hspent
  · exact .stopped h rfl (.inl hspent)
  · cases hpending : socket.receivePending with
    | none => exact scanBatch_advances h hpending rfl budget
    | some packet =>
      have hqueued : socket.queued accept =
          socket.payloadAt packet :: { socket with receivePending := none }.queued accept := by
        rw [queued, hpending]
        rfl
      exact .found ⟨h.storage, h.lengths, h.fits, h.count, nofun, h.accepts,
        fun payload hpayload => h.short payload (hqueued ▸ List.mem_cons_of_mem _ hpayload)⟩
        (h.pending packet hpending) rfl hqueued

/-- A group has the first of the payloads that were to be handed out, and its socket has the others. -/
structure Collects (accept : List UInt8 → Option (List UInt8)) (limit : ℕ) (queue : List (List UInt8)) (stride : ℕ)
    (payloads : List (List UInt8)) (group : OpenGroup) : Prop where
  grouped : Grouped group.buffer stride payloads
  groupCount : group.groupCount = payloads.length
  stored : group.socket.Stored accept limit
  queued : queue = payloads ++ group.socket.queued accept

theorem fillGroup_collects {stride room : ℕ} {queue payloads : List (List UInt8)} {group : OpenGroup}
    (h : Collects accept limit queue stride payloads group)
    (hroom : (payloads.length + room) * stride ≤ group.buffer.length) :
    ∃ payloads group', fillGroup stride room group = (.ok (), group') ∧
      Collects accept limit queue stride payloads group' := by
  induction room generalizing payloads group with
  | zero => exact ⟨payloads, group, rfl, h⟩
  | succ room ih =>
    have hadvances := nextDecodedPacket_advances h.stored group.budget
    rw [fillGroup]
    generalize group.socket.nextDecodedPacket group.budget = result at hadvances
    cases hadvances with
    | stopped stored queued reason =>
      exact ⟨payloads, _, rfl, h.grouped, h.groupCount, stored, h.queued.trans (congrArg _ queued)⟩
    | @found next socket' budget stored holds pending queued =>
      dsimp only
      by_cases hstride : next.payloadLength ≠ stride
      · rw [if_pos hstride]
        -- The payload of another length is the first of the next group.
        have hagain : { socket' with receivePending := some next }.queued accept = group.socket.queued accept := by
          rw [queued, FakeTcpSocket.queued, FakeTcpSocket.queued, pending]
          rfl
        refine ⟨payloads, _, rfl, h.grouped, h.groupCount,
          ⟨stored.storage, stored.lengths, stored.fits, stored.count, ?_, stored.accepts, ?_⟩, hagain ▸ h.queued⟩
        · rintro packet ⟨⟩
          exact holds
        · rw [hagain]
          exact h.stored.short
      · rw [if_neg hstride]
        push Not at hstride
        have hnext : (payloads.length + 1) * stride ≤ group.buffer.length :=
          (Nat.mul_le_mul_right _ (by omega)).trans hroom
        have hstop : group.groupCount * stride + next.payloadLength ≤ group.buffer.length := by
          rwa [h.groupCount, hstride, ← Nat.succ_mul]
        rw [copyPayload_eq stored.storage holds hstop]
        dsimp only
        have hlength : (socket'.payloadAt next).length = stride := Region.length_read.trans hstride
        have hcollects : Collects accept limit queue stride (payloads ++ [socket'.payloadAt next])
            ⟨socket', budget, writeAt group.buffer (group.groupCount * stride) (socket'.payloadAt next),
              group.groupCount + 1⟩ := by
          refine ⟨?_, by rw [List.length_append, h.groupCount]; rfl, stored, ?_⟩
          · rw [h.groupCount]
            exact h.grouped.append hlength hnext
          · rw [h.queued, queued, List.append_assoc]
            rfl
        refine ih hcollects ?_
        rw [List.length_append, List.length_singleton, Nat.add_assoc, Nat.add_comm 1 room,
          Buffer.length_writeAt (by omega)]
        exact hroom

theorem startGroup_collects (h : socket.Stored accept limit) {first : DecodedRawPacket} (hholds : Holds first)
    {queue : List (List UInt8)} (hqueued : queue = socket.payloadAt first :: socket.queued accept)
    (hroom : first.payloadLength ≤ buffer.length) (budget : ℕ) :
    ∃ payloads group, socket.startGroup budget first buffer = (.ok (), group) ∧
      Collects accept limit queue first.payloadLength payloads group := by
  have hlength : (socket.payloadAt first).length = first.payloadLength := Region.length_read
  have hstop : 0 + first.payloadLength ≤ buffer.length := by omega
  have hgrouped := (Grouped.nil buffer first.payloadLength).append hlength (by simpa using hroom)
  rw [List.length_nil, Nat.zero_mul, List.nil_append] at hgrouped
  have hcollects : Collects accept limit queue first.payloadLength [socket.payloadAt first]
      ⟨socket, budget, writeAt buffer 0 (socket.payloadAt first), 1⟩ := ⟨hgrouped, rfl, h, hqueued⟩
  have hdiv : 1 ≤ buffer.length / first.payloadLength := (Nat.one_le_div_iff hholds.payload).mpr hroom
  have hmax : max first.payloadLength 1 = first.payloadLength := max_eq_left hholds.payload
  rw [startGroup, copyPayload_eq h.storage hholds hstop]
  refine fillGroup_collects hcollects ?_
  dsimp only
  rw [Buffer.length_writeAt (by rwa [hlength]), hmax, max_eq_left hdiv]
  refine (Nat.mul_le_mul_right _ ?_).trans (Nat.div_mul_le_self buffer.length first.payloadLength)
  rw [List.length_singleton]
  omega

def account (accept : List UInt8 → Option (List UInt8)) (limit : ℕ) : PayloadAccount FakeTcpSocket BatchAnswer where
  sound := Stored accept limit
  lost := fun _ => False
  idle := Drained
  queued := queued accept
  expects answer := answer.fails = false ∧ ∀ payload ∈ answer.packets.filterMap accept, payload.length ≤ limit
  brings answer := answer.packets.filterMap accept

theorem startGroup_of_next (h : socket.Stored accept limit) {budget budget' : ℕ} {first : DecodedRawPacket}
    {socket' : FakeTcpSocket} (hnext : socket.nextDecodedPacket budget = (.ok (some first), socket', budget'))
    (hbuffer : limit ≤ buffer.length) :
    first.payloadLength ≤ buffer.length ∧ 0 < first.payloadLength ∧
      ∃ payloads group, socket'.startGroup budget' first buffer = (.ok (), group) ∧
        Collects accept limit (socket.queued accept) first.payloadLength payloads group := by
  have hadvances := nextDecodedPacket_advances h budget
  rw [hnext] at hadvances
  cases hadvances with
  | found stored holds pending queued =>
    have hfits := (h.short _ (queued ▸ List.mem_cons_self)).trans hbuffer
    rw [payloadAt, Region.length_read] at hfits
    exact ⟨hfits, holds.payload, startGroup_collects stored holds queued hfits budget'⟩

theorem fillSlots_fills (filling : Filling FakeTcpSocket) (h : filling.source.Stored accept limit)
    (hroom : ∀ slot ∈ filling.rest, limit ≤ slot.buffer.length) :
    ∃ after, fillSlots filling = (.ok (), after) ∧ (account accept limit).Fills limit filling after := by
  fun_induction fillSlots filling with
  | case1 filling hrest => exact ⟨_, rfl, h, hroom, rfl, .inl hrest⟩
  | case2 filling slot rest hrest socket budget hnext => cases hnext ▸ nextDecodedPacket_advances h filling.budget
  | case3 filling slot rest hrest error socket budget hnext =>
    cases hnext ▸ nextDecodedPacket_advances h filling.budget
  | case4 filling slot rest hrest socket budget hnext =>
    cases hnext ▸ nextDecodedPacket_advances h filling.budget with
    | stopped stored queued reason => exact ⟨_, rfl, stored, hroom, congrArg _ queued, .inr reason⟩
  | case5 filling slot rest hrest first socket budget hnext hlong ih =>
    exact absurd (startGroup_of_next h hnext (hroom slot (by simp [hrest]))).1 (not_le.mpr hlong)
  | case6 filling slot rest hrest first socket budget hnext hlong group hgroup =>
    obtain ⟨_, _, _, _, hstarted, _⟩ := startGroup_of_next h hnext (hroom slot (by simp [hrest]))
    cases hgroup.symm.trans hstarted
  | case7 filling slot rest hrest first socket budget hnext hlong error group hgroup =>
    obtain ⟨_, _, _, _, hstarted, _⟩ := startGroup_of_next h hnext (hroom slot (by simp [hrest]))
    cases hgroup.symm.trans hstarted
  | case8 filling slot rest hrest first socket budget hnext hlong group hgroup info ih =>
    obtain ⟨_, hstride, payloads, _, hstarted, hcollects⟩ :=
      startGroup_of_next h hnext (hroom slot (by simp [hrest]))
    cases hgroup.symm.trans hstarted
    obtain ⟨after, hafter, hfills⟩ := ih hcollects.stored fun slot hslot => hroom slot (by simp [hrest, hslot])
    refine ⟨after, hafter, hfills.sound, hfills.room, Eq.trans ?_ hfills.pieces, hfills.reason⟩
    have hpieces : ReceiveSlot.pieces ⟨group.buffer, info⟩ = payloads :=
      hcollects.grouped.pieces_eq hstride (by rw [← hcollects.groupCount]; rfl) rfl
    simp only [Filling.pieces, List.flatMap_append, List.flatMap_singleton, hpieces, List.append_assoc]
    exact congrArg _ hcollects.queued

variable {packets : List (List UInt8)}

theorem read_storePackets {storage : Region UInt8}
    (h : start + length ≤ index * rawPacketBufferBytes) :
    (storePackets index storage packets).read start length = storage.read start length := by
  induction packets generalizing index storage with
  | nil => rfl
  | cons packet rest ih =>
    have hnext := Nat.mul_le_mul_right rawPacketBufferBytes (Nat.le_succ index)
    rw [storePackets, ih (h.trans hnext), Region.read_write_apart (.inl h)]

theorem size_storePackets (index : ℕ) (storage : Region UInt8) (packets : List (List UInt8)) :
    (storePackets index storage packets).size = storage.size := by
  induction packets generalizing index storage with
  | nil => rfl
  | cons packet rest ih => rw [storePackets, ih, Region.size_write]

/-- What is read back of a packet of a batch: nothing of one that was truncated. -/
def clipped (packet : List UInt8) : List UInt8 := if packet.length > rawPacketBufferBytes then [] else packet

theorem storePackets_getElem (index : ℕ) (storage : Region UInt8) {i : ℕ}
    (hi : i < packets.length) :
    (storePackets index storage packets).read ((index + i) * rawPacketBufferBytes) (storedLength packets[i]) =
      clipped packets[i] := by
  induction packets generalizing index storage i with
  | nil => exact absurd hi (Nat.not_lt_zero i)
  | cons packet rest ih =>
    cases i with
    | succ i =>
      have hlater := ih (index + 1) (storage.write (index * rawPacketBufferBytes) (packet.take rawPacketBufferBytes))
        (Nat.lt_of_succ_lt_succ hi)
      rw [Nat.add_assoc, Nat.add_comm 1 i] at hlater
      exact hlater
    | zero =>
      rw [List.getElem_cons_zero, Nat.add_zero, storePackets, storedLength, clipped]
      split_ifs with hlong
      · rfl
      · -- The later packets are written behind this one.
        rw [List.take_of_length_le (not_lt.mp hlong), read_storePackets (by rw [Nat.succ_mul]; omega), Region.read_write]

theorem acceptedPayload_clipped (carrier : FakeTcpCarrier) (packet : List UInt8) :
    carrier.acceptedPayload (clipped packet) = carrier.acceptedPayload packet := by
  unfold clipped
  split_ifs with hlong
  · have hempty : carrier.acceptedPayload [] = none := by
      refine Option.eq_none_iff_forall_not_mem.mpr fun payload hpayload => ?_
      obtain ⟨hne, hsuffix⟩ := carrier.acceptedPayload_suffix hpayload
      exact hne (List.suffix_nil.mp hsuffix)
    have hrefused : carrier.acceptedPayload packet = none := by
      refine Option.eq_none_iff_forall_not_mem.mpr fun payload hpayload => ?_
      exact absurd (carrier.length_of_acceptedPayload hpayload) (not_le.mpr hlong)
    rw [hempty, hrefused]
  · rfl

theorem receiveBatch_stored (h : socket.Stored accept limit) (hpending : socket.receivePending = none)
    (hindex : socket.receiveBatchIndex = 0) (hpackets : packets.length ≤ recvBatchSize)
    (hshort : ∀ payload ∈ packets.filterMap accept, payload.length ≤ limit) {next : FakeTcpSocket}
    (hnext : next = { socket.receiveBatch packets with receiveBatchCount := packets.length }) :
    next.Stored accept limit ∧ next.queued accept = packets.filterMap accept := by
  have hpacketAt : (List.range' 0 packets.length).map next.packetAt = packets.map clipped := by
    refine List.ext_getElem (by simp) fun i hi _ => ?_
    rw [List.length_map, List.length_range'] at hi
    have hget := storePackets_getElem 0 socket.receiveBuffer hi
    have hlength : next.receiveBatchLengths.getD i 0 = storedLength packets[i] := by
      rw [hnext]
      change (packets.map storedLength ++ _).getD i 0 = _
      rw [List.getD_eq_getElem?_getD, List.getElem?_append_left (by simpa using hi), List.getElem?_map,
        List.getElem?_eq_getElem hi]
      rfl
    rw [List.getElem_map, List.getElem_map, List.getElem_range', Nat.zero_add, Nat.one_mul, packetAt, hlength, hnext,
      ← hget, Nat.zero_add]
    rfl
  have hqueued : next.queued accept = packets.filterMap accept := by
    have hsame : accept ∘ clipped = accept := by
      rw [← h.accepts]
      exact funext (acceptedPayload_clipped _)
    have hnone : next.receivePending = none := hnext ▸ hpending
    have hfirst : next.receiveBatchIndex = 0 := hnext ▸ hindex
    have hcount : next.receiveBatchCount = packets.length := hnext ▸ rfl
    have hread := congrArg (List.filterMap accept) hpacketAt
    rw [List.filterMap_map, List.filterMap_map, hsame] at hread
    rw [queued, hnone, hfirst, hcount]
    exact hread
  refine ⟨?_, hqueued⟩
  rw [← hqueued] at hshort
  subst hnext
  refine ⟨(size_storePackets ..).trans h.storage, ?_, ?_, hpackets, h.pending, h.accepts, hshort⟩
  · change (packets.map storedLength ++ socket.receiveBatchLengths.drop packets.length).length = _
    rw [List.length_append, List.length_map, List.length_drop, h.lengths]
    omega
  · intro length hlength
    rcases List.mem_append.mp hlength with hnew | hold
    · obtain ⟨packet, _, rfl⟩ := List.mem_map.mp hnew
      unfold storedLength
      split_ifs
      · exact Nat.zero_le _
      · omega
    · exact h.fits length (List.mem_of_mem_drop hold)

theorem reset_stored (h : socket.Stored accept limit) (hdrained : socket.Drained) :
    (pollRecv.reset socket).Stored accept limit ∧ (pollRecv.reset socket).queued accept = [] := by
  have hreset : (pollRecv.reset socket).Drained := ⟨hdrained.1, Nat.le_refl 0⟩
  refine ⟨⟨h.storage, h.lengths, h.fits, Nat.zero_le _, h.pending, h.accepts, ?_⟩, hreset.queued_eq⟩
  rw [hreset.queued_eq]
  exact List.forall_mem_nil _

theorem kept_pollRecv : (account accept limit).Kept limit pollRecv where
  fill := by
    intro filling hsound hroom
    obtain ⟨after, hfill, hfills⟩ := fillSlots_fills filling hsound hroom
    exact ⟨after, hfill, fun _ => hfills, False.elim⟩
  reset := by
    intro socket hstored hdrained
    obtain ⟨hreset, hqueued⟩ := reset_stored hstored hdrained
    exact ⟨hreset, hqueued.trans hdrained.queued_eq.symm⟩
  ask := by
    rintro socket answer hstored hdrained ⟨hfails, hshort⟩
    obtain ⟨hreset, hqueued⟩ := reset_stored hstored hdrained
    have hnone : (account accept limit).queued socket = [] := hdrained.queued_eq
    cases answer with
    | notReady => rfl
    | unready error => cases hfails
    | failed error => cases hfails
    | wouldBlock => exact ⟨hreset, by rw [hnone]; exact hqueued⟩
    | batch packets =>
      obtain ⟨hread, hbrought⟩ := receiveBatch_stored hreset hdrained.1 rfl packets.property hshort rfl
      have hadds : (account accept limit).Adds socket (.batch packets) (.more _) := ⟨hread, by rw [hnone]; exact hbrought⟩
      change (account accept limit).Adds _ _ (if packets.val.length > 0 then _ else _)
      split_ifs with hsome
      · exact hadds
      · have hempty : packets.val.length = 0 := by omega
        rw [hempty] at hadds
        exact hadds

def arrivals (answers : List BatchAnswer) : List (List UInt8) := answers.flatMap BatchAnswer.packets

theorem receiveAll_pieces {tuple : FourTuple} {inbound : FakeTcpCarrier} {answers : List BatchAnswer}
    {calls : List PollCall} (hanswers : ∀ answer ∈ answers, answer.fails = false)
    (hlimit : ∀ payload ∈ inbound.acceptedPayloads (arrivals answers), payload.length ≤ limit)
    (hbufs : ∀ call ∈ calls, ∀ buffer ∈ call.bufs, limit ≤ buffer.length)
    (hread : (pollRecv.receiveAll (bind tuple inbound) answers calls).unread = [])
    (hprocessed : (pollRecv.receiveAll (bind tuple inbound) answers calls).source.Drained) :
    (pollRecv.receiveAll (bind tuple inbound) answers calls).pieces = inbound.acceptedPayloads (arrivals answers) := by
  have hbrings : answers.flatMap (account inbound.acceptedPayload limit).brings =
      inbound.acceptedPayloads (arrivals answers) := by
    rw [FakeTcpCarrier.acceptedPayloads, arrivals, List.filterMap_flatMap]
    rfl
  have hexpects : ∀ answer ∈ answers, (account inbound.acceptedPayload limit).expects answer := fun answer hanswer =>
    ⟨hanswers answer hanswer, fun payload hpayload => hlimit payload
      (hbrings ▸ List.mem_flatMap.mpr ⟨answer, hanswer, hpayload⟩)⟩
  have hpieces := kept_pollRecv.receiveAll hexpects (stored_bind tuple inbound) hbufs (fun _ _ => id)
  have hqueued : (account inbound.acceptedPayload limit).queued _ = [] := hprocessed.queued_eq
  have hstart : (account inbound.acceptedPayload limit).queued (bind tuple inbound) = [] := rfl
  dsimp only at hpieces
  rw [hbrings, hread, hqueued, hstart] at hpieces
  simpa using hpieces.symm

/-- Once every packet that arrived has been processed, the pieces that the polls report are the accepted payloads,
each once and in the order of arrival. -/
theorem receive_reports_accepted (tuple : FourTuple) (inbound : FakeTcpCarrier) (answers : List BatchAnswer)
    (calls : List PollCall) (hanswers : ∀ answer ∈ answers, answer.fails = false) (limit : ℕ)
    (hlimit : ∀ payload ∈ inbound.acceptedPayloads (arrivals answers), payload.length ≤ limit)
    (hbufs : ∀ call ∈ calls, ∀ buffer ∈ call.bufs, limit ≤ buffer.length)
    (hread : (pollRecv.receiveAll (bind tuple inbound) answers calls).unread = [])
    (hprocessed : (pollRecv.receiveAll (bind tuple inbound) answers calls).source.Drained) :
    (pollRecv.receiveAll (bind tuple inbound) answers calls).pieces = inbound.acceptedPayloads (arrivals answers) :=
  receiveAll_pieces hanswers hlimit hbufs hread hprocessed

def receiver : FakeTcpCarrier :=
  .fromParts .sample 5129 .disabled 7 1400 1500 FourTuple.sample_prefix

def oneBytePacket : List UInt8 :=
  PacketFields.packet ⟨receiver.tuple.destination, receiver.tuple.source, 100, 0, TcpFlags.ack.bitor .psh, 65535,
    .default, [1]⟩

/-- The batch of the packet, and a poll with two buffers of one byte. -/
def oneBatch : List BatchAnswer := [.batch ⟨[[], oneBytePacket], by decide⟩]

def onePoll : List PollCall := [⟨[[0], [0]], List.replicate 2 (groupInfo receiver.tuple 0 0)⟩]

theorem receive_reports_accepted_byte :
    (pollRecv.receiveAll (bind receiver.tuple receiver) oneBatch onePoll).pieces = [[1]] := by
  have haccepted : receiver.acceptedPayloads (arrivals oneBatch) = [[1]] := by decide +kernel
  have hrun : (pollRecv.receiveAll (bind receiver.tuple receiver) oneBatch onePoll).unread.isEmpty = true ∧
      (pollRecv.receiveAll (bind receiver.tuple receiver) oneBatch onePoll).source.Drained := by
    unfold Drained
    decide +kernel
  rw [receive_reports_accepted receiver.tuple receiver oneBatch onePoll (by simp [oneBatch, BatchAnswer.fails]) 1
    (by simp [haccepted]) (by simp [onePoll]) (List.isEmpty_iff.mp hrun.1) hrun.2, haccepted]

end FakeTcpSocket

end Quicp
