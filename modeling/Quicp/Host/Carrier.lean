import Quicp.FakeTcp.Checksum
import Quicp.PacketRing

/-!
# The host carrier

The host puts datagrams into the ingress ring and takes them from the egress ring, the endpoint does the opposite, and
each direction has one place for a waker.
-/

namespace Quicp

inductive HostDatagramError
  | unavailable
  | zeroCapacity
  | zeroMtu
  | budgetOverflow
  | packetOutsideMtu (len mtu : ℕ)
  | peerMismatch (expected actual : SocketAddr)
  | queueFull
  | bufferTooSmall (required capacity : ℕ)

def HostDatagramError.fromRing : RingError → HostDatagramError
  | .full => .queueFull
  | .tooLarge len max => .packetOutsideMtu len max
  | .bufferTooSmall required capacity => .bufferTooSmall required capacity
  | .zeroCapacity | .zeroSlotCapacity | .capacityOverflow => .budgetOverflow

/-- The errors of the endpoint's side; `other` carries the text of an error of the ring. -/
inductive HostIoError
  | networkDown
  | invalidInput (message : String)
  | other (error : RingError)

structure Transmit where
  destination : SocketAddr
  srcIp : Option IpAddr
  contents : List UInt8
  segmentSize : Option ℕ

namespace HostCarrier

/-- Where a call of `ingress_datagram_from` is. -/
inductive IngressCall
  | unused
  | checked (packet : List UInt8)
  | leased (packet : Slot)
  | pushed
  | done (result : Except HostDatagramError Unit)

/-- Where the endpoint is with its latest `poll_recv`. -/
inductive Receiver
  | returned (result : Except HostIoError ℕ)
  | popping (capacity : ℕ)
  | recycling (packet : Slot)
  | registering (capacity : ℕ)
  | checking (capacity : ℕ)
  | loading
  | pending

/-- Where a sender is with its latest `poll_send`. -/
inductive Sender
  | returned (result : Except HostIoError Unit)
  | pushing (packet : List UInt8)
  | leased (packet : Slot)
  | registering (packet : List UInt8)
  | retrying (packet : List UInt8)
  | loading
  | pending

/-- Where a call of `poll_egress_datagram_into` is. -/
inductive EgressCall
  | unused
  | popping (capacity : ℕ)
  | recycling (packet : Slot)
  | waking (length : ℕ)
  | done (result : Except HostDatagramError (Option ℕ))

/-- Where the `mark_unavailable` is that has set the flag. -/
inductive Marker
  | unmarked
  | swapped
  | receiverWoken
  | marked
  deriving DecidableEq

structure State where
  localAddr : SocketAddr
  peer : SocketAddr
  mtu : ℕ
  ingress : PacketRing
  egress : PacketRing
  unavailable : Bool
  recvWaker : Bool
  sendWaker : Option ℕ
  calls : ℕ → IngressCall
  receiver : Receiver
  senders : ℕ → Sender
  pops : ℕ → EgressCall
  marker : Marker
  accepted : List (List UInt8)
  returned : List (List UInt8)
  queuedBy : List ℕ
  recvWoken : Bool
  sendWoken : ℕ → Bool
  freed : ℕ → Bool

/-- What can happen next: a call begins, or one goes on. A `poll_recv` is given the lengths of its buffers and the number
of its metadata slots. -/
inductive Action
  | ingressFrom (call : ℕ) (source : SocketAddr) (packet : List UInt8)
  | ingressStep (call : ℕ)
  | pollRecv (bufs : List ℕ) (slots : ℕ)
  | recvStep
  | pollSend (sender : ℕ) (transmit : Transmit)
  | sendStep (sender : ℕ)
  | pollEgress (call capacity : ℕ)
  | egressStep (call : ℕ)
  | markUnavailable
  | markStep

open Function (update)

def start (localAddr peer : SocketAddr) (mtu : ℕ) (ring : PacketRing) : State where
  localAddr := localAddr
  peer := peer
  mtu := mtu
  ingress := ring
  egress := ring
  unavailable := false
  recvWaker := false
  sendWaker := none
  calls _ := .unused
  receiver := .returned (.ok 0)
  senders _ := .returned (.ok ())
  pops _ := .unused
  marker := .unmarked
  accepted := []
  returned := []
  queuedBy := []
  recvWoken := false
  sendWoken _ := false
  freed _ := false

def new (localAddr peer : SocketAddr) (packetCapacity mtu : ℕ) : Except HostDatagramError State :=
  if packetCapacity = 0 then .error .zeroCapacity
  else if mtu = 0 then .error .zeroMtu
  else match PacketRing.new packetCapacity mtu with
    | .error error => .error (.fromRing error)
    | .ok ring => .ok (start localAddr peer mtu ring)

/-- `PacketRing::push_copy` up to the lock under which the packet is queued. -/
def lease (ring : PacketRing) (packet : List UInt8) : Except RingError (Slot × PacketRing) :=
  if packet.length > ring.slotCapacity then .error (.tooLarge packet.length ring.slotCapacity)
  else match ring.write with
    | none => .error .full
    | some (slot, ring) => .ok ({ slot with bytes := packet }, ring)

/-- The checks of `ingress_datagram_from`. -/
def checkIngress (s : State) (source : SocketAddr) (packet : List UInt8) : IngressCall :=
  if s.unavailable then .done (.error .unavailable)
  else if source ≠ s.peer then .done (.error (.peerMismatch s.peer source))
  else if packet.length = 0 ∨ packet.length > s.mtu then .done (.error (.packetOutsideMtu packet.length s.mtu))
  else .checked packet

/-- The next step of `ingress_datagram_from`. -/
def ingressStep (s : State) (call : ℕ) : State :=
  match s.calls call with
  | .checked packet =>
    match lease s.ingress packet with
    | .error error => { s with calls := update s.calls call (.done (.error (.fromRing error))) }
    | .ok (slot, ring) => { s with ingress := ring, calls := update s.calls call (.leased slot) }
  | .leased packet =>
    { s with
      ingress := s.ingress.pushBack packet
      calls := update s.calls call .pushed
      accepted := s.accepted ++ [packet.bytes]
      queuedBy := s.queuedBy ++ [call] }
  | .pushed =>
    { s with
      recvWaker := false
      recvWoken := s.recvWoken || s.recvWaker
      calls := update s.calls call (.done (.ok ())) }
  | _ => s

/-- The checks of `poll_recv`. -/
def checkRecv (s : State) (bufs : List ℕ) (slots : ℕ) : Receiver :=
  if s.unavailable then .returned (.error .networkDown)
  else match bufs, slots with
    | capacity :: _, _ + 1 => .popping capacity
    | _, _ => .returned (.error (.invalidInput "host datagram receive requires one buffer and one metadata slot"))

/-- The next step of `poll_recv`. -/
def recvStep (s : State) : State :=
  match s.receiver with
  | .popping capacity =>
    match s.ingress.popFront capacity with
    | .error (.bufferTooSmall required capacity) =>
      { s with receiver := .returned (.error (.invalidInput
          s!"host receive buffer {capacity} is smaller than {required}")) }
    | .error error => { s with receiver := .returned (.error (.other error)) }
    | .ok none => { s with receiver := .registering capacity }
    | .ok (some (packet, ring)) =>
      { s with ingress := ring, receiver := .recycling packet, queuedBy := s.queuedBy.tail }
  | .recycling packet =>
    { s with
      ingress := s.ingress.recycle packet
      receiver := .returned (.ok packet.bytes.length)
      returned := s.returned ++ [packet.bytes] }
  | .registering capacity => { s with recvWaker := true, recvWoken := false, receiver := .checking capacity }
  | .checking capacity =>
    { s with receiver := if s.ingress.pool.queued.isEmpty then .loading else .popping capacity }
  | .loading => { s with receiver := if s.unavailable then .returned (.error .networkDown) else .pending }
  | _ => s

/-- The checks of `poll_send`. -/
def checkSend (s : State) (transmit : Transmit) : Sender :=
  if s.unavailable then .returned (.error .networkDown)
  else if transmit.destination ≠ s.peer ∨ transmit.srcIp.any (· ≠ s.localAddr.ip) then
    .returned (.error (.invalidInput "host datagram destination or source does not match socket"))
  else if transmit.segmentSize.isSome then
    .returned (.error (.invalidInput "host datagram socket does not support segmented sends"))
  else if transmit.contents.length = 0 ∨ transmit.contents.length > s.mtu then
    .returned (.error (.invalidInput "host datagram exceeds the configured MTU"))
  else .pushing transmit.contents

/-- The next step of `poll_send`. -/
def sendStep (s : State) (sender : ℕ) : State :=
  match s.senders sender with
  | .pushing packet =>
    match lease s.egress packet with
    | .error .full => { s with senders := update s.senders sender (.registering packet) }
    | .error error => { s with senders := update s.senders sender (.returned (.error (.other error))) }
    | .ok (slot, ring) => { s with egress := ring, senders := update s.senders sender (.leased slot) }
  | .leased packet =>
    { s with egress := s.egress.pushBack packet, senders := update s.senders sender (.returned (.ok ())) }
  | .registering packet =>
    { s with
      sendWaker := some sender
      sendWoken := update s.sendWoken sender false
      freed := update s.freed sender false
      senders := update s.senders sender (.retrying packet) }
  | .retrying packet =>
    match lease s.egress packet with
    | .error .full => { s with senders := update s.senders sender .loading }
    | .error error => { s with senders := update s.senders sender (.returned (.error (.other error))) }
    | .ok (slot, ring) => { s with egress := ring, senders := update s.senders sender (.leased slot) }
  | .loading =>
    let result := if s.unavailable then .returned (.error .networkDown) else .pending
    { s with senders := update s.senders sender result }
  | _ => s

/-- Whether the latest poll of a sender returned `Pending`. -/
def Sender.isPending : Sender → Bool
  | .pending => true
  | _ => false

/-- The waker of the senders is taken and woken, and the call that does it completes. -/
def wakeSender (s : State) : State :=
  { s with
    sendWaker := none
    sendWoken := fun sender => s.sendWoken sender || s.sendWaker == some sender
    freed := fun sender => s.freed sender || (s.senders sender).isPending }

/-- The next step of `poll_egress_datagram_into`. -/
def egressStep (s : State) (call : ℕ) : State :=
  match s.pops call with
  | .popping capacity =>
    match s.egress.popFront capacity with
    | .error error => { s with pops := update s.pops call (.done (.error (.fromRing error))) }
    | .ok none => { s with pops := update s.pops call (.done (.ok none)) }
    | .ok (some (packet, ring)) => { s with egress := ring, pops := update s.pops call (.recycling packet) }
  | .recycling packet =>
    { s with egress := s.egress.recycle packet, pops := update s.pops call (.waking packet.bytes.length) }
  | .waking length => { wakeSender s with pops := update s.pops call (.done (.ok (some length))) }
  | _ => s

/-- The next step of the `mark_unavailable` that has set the flag. -/
def markStep (s : State) : State :=
  match s.marker with
  | .swapped => { s with recvWaker := false, recvWoken := s.recvWoken || s.recvWaker, marker := .receiverWoken }
  | .receiverWoken => { wakeSender s with marker := .marked }
  | _ => s

def apply (s : State) : Action → State
  | .ingressFrom call source packet => { s with calls := update s.calls call (checkIngress s source packet) }
  | .ingressStep call => ingressStep s call
  | .pollRecv bufs slots => { s with receiver := checkRecv s bufs slots }
  | .recvStep => recvStep s
  | .pollSend sender transmit => { s with senders := update s.senders sender (checkSend s transmit) }
  | .sendStep sender => sendStep s sender
  | .pollEgress call capacity =>
    { s with pops := update s.pops call (if s.unavailable then .done (.error .unavailable) else .popping capacity) }
  | .egressStep call => egressStep s call
  | .markUnavailable => if s.unavailable then s else { s with unavailable := true, marker := .swapped }
  | .markStep => markStep s

def Allows (s : State) : Action → Prop
  | .ingressFrom call _ _ => (s.calls call matches .unused)
  | .pollRecv _ _ => (s.receiver matches .returned _ | .pending)
  | .pollSend sender _ => (s.senders sender matches .returned _ | .pending)
  | .pollEgress call _ => (s.pops call matches .unused)
  | _ => True

instance (s : State) (action : Action) : Decidable (Allows s action) := by
  unfold Allows
  split <;> infer_instance

def Step (s : State) (action : Action) (t : State) : Prop := Allows s action ∧ t = apply s action

def Starts (s : State) : Prop := ∃ localAddr peer packetCapacity mtu, new localAddr peer packetCapacity mtu = .ok s

/-- Whether the endpoint has found its queue empty after it registered, and relies on a wake. -/
def Receiver.relies : Receiver → Bool
  | .loading | .pending => true
  | _ => false

def Receiver.registered : Receiver → Bool
  | .checking _ | .loading | .pending => true
  | _ => false

theorem Receiver.registered_of_relies {receiver : Receiver} (h : receiver.relies = true) : receiver.registered = true := by
  cases receiver <;> first | rfl | cases h

/-- The datagram that the endpoint has taken from its queue. -/
def Receiver.inHand : Receiver → List (List UInt8)
  | .recycling packet => [packet.bytes]
  | _ => []

structure Inv (s : State) : Prop where
  waker : s.receiver.registered = true → s.recvWoken = false → s.recvWaker = true
  queue : s.receiver.relies = true → s.recvWoken = false → ∀ call ∈ s.queuedBy, s.calls call = .pushed
  marks : s.receiver = .pending → s.recvWoken = false → s.unavailable = true → s.marker = .swapped
  order : s.accepted = s.returned ++ s.receiver.inHand ++ s.ingress.pool.queued.map Slot.bytes
  counts : s.queuedBy.length = s.ingress.pool.queued.length

variable {s t : State} {action : Action}

theorem exists_start_of_starts (h : Starts s) : ∃ localAddr peer mtu free slotCapacity,
    s = start localAddr peer mtu ⟨⟨[], free⟩, slotCapacity⟩ := by
  obtain ⟨localAddr, peer, packetCapacity, mtu, hnew⟩ := h
  unfold new PacketRing.new at hnew
  split_ifs at hnew
  exact ⟨localAddr, peer, mtu, _, _, (Except.ok.inj hnew).symm⟩

theorem inv_of_starts (h : Starts s) : Inv s := by
  obtain ⟨localAddr, peer, mtu, free, slotCapacity, rfl⟩ := exists_start_of_starts h
  constructor <;> simp [start, Receiver.registered, Receiver.relies, Receiver.inHand]

theorem queued_of_lease {ring after : PacketRing} {packet : List UInt8} {slot : Slot}
    (h : lease ring packet = .ok (slot, after)) : after.pool.queued = ring.pool.queued := by
  unfold lease PacketRing.write at h
  grind -linarith

theorem Inv.ingressStep (h : Inv s) (call : ℕ) : Inv (ingressStep s call) := by
  obtain ⟨waker, queue, marks, order, counts⟩ := h
  unfold HostCarrier.ingressStep
  cases hcall : s.calls call with
  | checked packet =>
    dsimp only
    cases hlease : lease s.ingress packet with
    | error error => constructor <;> grind -linarith [Function.update_apply]
    | ok leased =>
      have hqueued := queued_of_lease hlease
      constructor <;> grind -linarith [Function.update_apply]
  | leased packet =>
    constructor <;> grind -linarith [Function.update_apply, PacketRing.pushBack]
  | pushed =>
    have hregistered := @Receiver.registered_of_relies s.receiver
    constructor <;> grind -linarith [Function.update_apply, Receiver.registered]
  | _ => exact ⟨waker, queue, marks, order, counts⟩

theorem Inv.recvStep (h : Inv s) : Inv (recvStep s) := by
  obtain ⟨waker, queue, marks, order, counts⟩ := h
  unfold HostCarrier.recvStep
  cases hreceiver : s.receiver with
  | popping capacity =>
    dsimp only
    unfold PacketRing.popFront
    cases hqueued : s.ingress.pool.queued with
    | nil => constructor <;> grind -linarith [Receiver.relies, Receiver.registered, Receiver.inHand]
    | cons packet rest =>
      dsimp only
      split_ifs <;> constructor <;> grind -linarith [Receiver.relies, Receiver.registered, Receiver.inHand]
  | recycling packet =>
    constructor <;> grind -linarith [Receiver.relies, Receiver.registered, Receiver.inHand, PacketRing.recycle]
  | registering capacity =>
    constructor <;> grind -linarith [Receiver.relies, Receiver.registered, Receiver.inHand]
  | checking capacity =>
    -- Nothing is queued here, so what is queued from now on belongs to calls that still wake.
    constructor <;> grind -linarith [Receiver.relies, Receiver.registered, Receiver.inHand]
  | loading =>
    constructor <;> grind -linarith [Receiver.relies, Receiver.registered, Receiver.inHand]
  | _ => exact ⟨waker, queue, marks, order, counts⟩

theorem Inv.step (h : Inv s) (hstep : Step s action t) : Inv t := by
  obtain ⟨hallows, rfl⟩ := hstep
  cases action with
  | ingressStep call => exact h.ingressStep call
  | recvStep => exact h.recvStep
  | ingressFrom call source packet =>
    obtain ⟨waker, queue, marks, order, counts⟩ := h
    unfold Allows at hallows
    unfold apply
    constructor <;> grind -linarith [Function.update_apply]
  | pollRecv bufs slots =>
    obtain ⟨waker, queue, marks, order, counts⟩ := h
    unfold Allows at hallows
    unfold apply checkRecv
    constructor <;> grind -linarith [Receiver.relies, Receiver.registered, Receiver.inHand]
  | pollSend sender transmit => exact ⟨h.waker, h.queue, h.marks, h.order, h.counts⟩
  | pollEgress call capacity => exact ⟨h.waker, h.queue, h.marks, h.order, h.counts⟩
  | sendStep sender =>
    obtain ⟨waker, queue, marks, order, counts⟩ := h
    unfold apply HostCarrier.sendStep
    constructor <;> grind -linarith
  | egressStep call =>
    obtain ⟨waker, queue, marks, order, counts⟩ := h
    unfold apply HostCarrier.egressStep
    constructor <;> grind -linarith [wakeSender]
  | markUnavailable =>
    obtain ⟨waker, queue, marks, order, counts⟩ := h
    constructor <;> grind -linarith [apply]
  | markStep =>
    obtain ⟨waker, queue, marks, order, counts⟩ := h
    unfold apply HostCarrier.markStep
    have hregistered := @Receiver.registered_of_relies s.receiver
    constructor <;> grind -linarith [wakeSender, Receiver.registered]

/-- In every interleaving: while the endpoint's latest poll is pending and it was not woken since it registered, no
datagram of a completed call is in its queue and no call that marked the path has completed. It gets the datagrams in
the order in which they were queued, and one that does not fit its buffer stays at the head of the queue. -/
theorem receiver_not_missed (h : Reachable Starts Step s) :
    (s.receiver = .pending → s.recvWoken = false → (∀ call ∈ s.queuedBy, ∀ result, s.calls call ≠ .done result) ∧
      (s.unavailable = true → s.marker = .swapped)) ∧
    s.queuedBy.length = s.ingress.pool.queued.length ∧ s.returned <+: s.accepted ∧
    ∀ capacity packet rest, s.receiver = .popping capacity → s.ingress.pool.queued = packet :: rest →
      capacity < packet.bytes.length → apply s .recvStep = { s with receiver := .returned (.error (.invalidInput
        s!"host receive buffer {capacity} is smaller than {packet.bytes.length}")) } := by
  have hinv : Inv s := Reachable.invariant (P := Inv) (fun _ => inv_of_starts) (fun _ _ _ hs hstep => hs.step hstep) h
  refine ⟨fun hpending hwoken => ⟨fun call hcall result hdone => ?_, hinv.marks hpending hwoken⟩, hinv.counts, ?_, ?_⟩
  · have hrelies : s.receiver.relies = true := by rw [hpending]; rfl
    cases hdone.symm.trans (hinv.queue hrelies hwoken call hcall)
  · rw [hinv.order, List.append_assoc]
    exact List.prefix_append _ _
  · intro capacity packet rest hpopping hqueued hsmall
    simp only [apply, HostCarrier.recvStep, hpopping, PacketRing.popFront, hqueued, gt_iff_lt, hsmall, if_true]

/-- A socket whose rings have one buffer of two bytes each. -/
def small : State :=
  start (.v4 (hostOctets 1) 1) (.v4 (hostOctets 2) 2) 2 ⟨⟨[], [⟨0, []⟩]⟩, 2⟩

theorem starts_small : Starts small := ⟨_, _, 1, 2, rfl⟩

theorem receiver_not_missed_queued :
    let s := [.pollRecv [2] 1, .recvStep, .recvStep, .recvStep, .recvStep, .ingressFrom 0 small.peer [7],
      .ingressStep 0, .ingressStep 0].foldl apply small
    s.queuedBy = [0] ∧ ∀ call ∈ s.queuedBy, ∀ result, s.calls call ≠ .done result := by
  intro s
  have hstart : Reachable Starts Step small := .start starts_small
  have hrun : Reachable Starts Step s := hstart.run (fun _ _ hallows => ⟨hallows, rfl⟩) (by decide)
  exact ⟨rfl, ((receiver_not_missed hrun).1 rfl rfl).1⟩

/-- Whether a sender registered in its latest poll and found no slot since. -/
def Sender.waits : Sender → Bool
  | .retrying _ | .loading | .pending => true
  | _ => false

/-- A sender that registers takes the place of no other one that waits. -/
def Alone (s : State) : Action → Prop
  | .sendStep sender => (s.senders sender matches .registering _) →
      ∀ other ∈ s.sendWaker, other = sender ∨ (s.senders other).waits = false
  | _ => True

instance (s : State) (action : Action) : Decidable (Alone s action) := by
  unfold Alone
  split <;> infer_instance

/-- A sender that waits and was not woken is in the place, so a call that freed a slot has woken it. -/
structure SendInv (s : State) : Prop where
  waker : ∀ sender, (s.senders sender).waits = true → s.sendWoken sender = false → s.sendWaker = some sender
  woken : ∀ sender, (s.senders sender).waits = true → s.freed sender = true → s.sendWoken sender = true

theorem SendInv.wakeSender (h : SendInv s) : SendInv (wakeSender s) := by
  obtain ⟨waker, woken⟩ := h
  unfold HostCarrier.wakeSender
  constructor <;> grind -linarith [Sender.waits, Sender.isPending]

theorem SendInv.sendStep {sender : ℕ} (h : SendInv s) (halone : Alone s (.sendStep sender)) :
    SendInv (sendStep s sender) := by
  obtain ⟨waker, woken⟩ := h
  unfold Alone at halone
  fun_cases HostCarrier.sendStep s sender <;> constructor <;> grind -linarith [Function.update_apply, Sender.waits]

theorem SendInv.step (h : SendInv s) (hstep : Step s action t) (halone : Alone s action) : SendInv t := by
  obtain ⟨hallows, rfl⟩ := hstep
  have hwake := h.wakeSender
  unfold apply
  cases action with
  | sendStep sender => exact h.sendStep halone
  | pollSend sender transmit =>
    obtain ⟨waker, woken⟩ := h
    unfold checkSend
    constructor <;> grind -linarith [Function.update_apply, Sender.waits]
  | egressStep call =>
    dsimp only
    fun_cases HostCarrier.egressStep s call
    case case5 => exact ⟨hwake.waker, hwake.woken⟩
    all_goals exact ⟨h.waker, h.woken⟩
  | markStep =>
    dsimp only
    fun_cases HostCarrier.markStep s
    case case2 => exact ⟨hwake.waker, hwake.woken⟩
    all_goals exact ⟨h.waker, h.woken⟩
  | ingressStep call =>
    dsimp only
    fun_cases HostCarrier.ingressStep s call <;> exact ⟨h.waker, h.woken⟩
  | recvStep =>
    dsimp only
    fun_cases HostCarrier.recvStep s <;> exact ⟨h.waker, h.woken⟩
  | markUnavailable =>
    dsimp only
    split_ifs <;> exact ⟨h.waker, h.woken⟩
  | _ => exact ⟨h.waker, h.woken⟩

/-- As long as no sender registers over another one that waits: a sender whose latest poll is pending, and for which a
call completed since that freed a slot or marked the path, was woken since it registered. -/
theorem sender_woken (h : Reachable Starts (fun s action t => Step s action t ∧ Alone s action) s) {sender : ℕ}
    (hpending : s.senders sender = .pending) (hfreed : s.freed sender = true) : s.sendWoken sender = true := by
  have hinv : SendInv s := by
    refine Reachable.invariant (fun u hu => ?_) (fun _ _ _ hu hstep => hu.step hstep.1 hstep.2) h
    obtain ⟨localAddr, peer, mtu, free, slotCapacity, rfl⟩ := exists_start_of_starts hu
    constructor <;> simp [start, Sender.waits]
  exact hinv.woken sender (hpending ▸ rfl) hfreed

def filled : List Action :=
  [.pollSend 0 ⟨small.peer, none, [7], none⟩, .sendStep 0, .sendStep 0]

def blocked (sender : ℕ) : List Action :=
  [.pollSend sender ⟨small.peer, none, [8], none⟩, .sendStep sender, .sendStep sender, .sendStep sender, .sendStep sender]

def popped : List Action := [.pollEgress 0 2, .egressStep 0, .egressStep 0, .egressStep 0]

theorem sender_woken_alone : let s := (filled ++ blocked 1 ++ popped).foldl apply small
    s.senders 1 = .pending ∧ s.freed 1 = true ∧ s.sendWoken 1 = true := by
  intro s
  have hstart : Reachable Starts (fun s action t => Step s action t ∧ Alone s action) small := .start starts_small
  have hstep : ∀ s action, Allows s action ∧ Alone s action → Step s action (apply s action) ∧ Alone s action :=
    fun _ _ hallows => ⟨⟨hallows.1, rfl⟩, hallows.2⟩
  have hrun : Reachable Starts (fun s action t => Step s action t ∧ Alone s action) s := hstart.run hstep (by decide)
  exact ⟨rfl, rfl, sender_woken hrun rfl rfl⟩

/-- Two senders wait, and the second has taken the place of the first: the call that frees a slot wakes only the second. -/
theorem sender_not_woken : let actions := filled ++ blocked 1 ++ blocked 2 ++ popped
    let s := actions.foldl apply small
    Starts small ∧ Reachable.Permits Allows apply small actions ∧ s.senders 1 = .pending ∧ s.senders 2 = .pending ∧
      s.freed 1 = true ∧ s.sendWoken 1 = false ∧ s.sendWoken 2 = true :=
  ⟨starts_small, by decide, rfl, rfl, rfl, rfl, rfl⟩

end HostCarrier

end Quicp
