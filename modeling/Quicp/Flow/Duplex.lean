import Quicp.Flow.ReceiverInv
import Quicp.Flow.SenderInv

/-!
# A flow and its peer

Two ends of a flow run beside each other. Each end writes a control stream that the other reads frame by frame, in
order.
-/

namespace Quicp

open Segment

/-- The two ends of a flow, and how many frames of the other's control stream each has read. -/
structure Duplex where
  near : Flow
  far : Flow
  nearRead : ℕ
  farRead : ℕ

inductive Side
  | near
  | far
  deriving DecidableEq, Repr

/-- What may happen at an end: an action of its own, the next frame of the control stream, or a record. -/
inductive DuplexAction
  | act (action : FlowAction)
  | frame
  | source (record : SourceRecord) (charge : RecoveryCharge)

def FlowAction.isLocal : FlowAction → Bool
  | .control _ | .source _ _ _ _ => false
  | _ => true

namespace Duplex

def swap (d : Duplex) : Duplex := ⟨d.far, d.near, d.farRead, d.nearRead⟩

/-- The next frame for the near end on the control stream. -/
def nextFrame (d : Duplex) : Option ControlFrame := d.far.history.frames[d.nearRead]?

def applyNear (d : Duplex) : DuplexAction → Duplex
  | .act action => { d with near := d.near.apply action }
  | .frame =>
    match d.nextFrame with
    | none => d
    | some frame => { d with near := d.near.apply (.control frame), nearRead := d.nearRead + 1 }
  | .source record charge =>
    { d with near := d.near.apply (.source record.offset record.data record.fin charge) }

def AllowsNear (d : Duplex) : DuplexAction → Prop
  | .act action => action.isLocal = true ∧ d.near.Allows action
  | .frame => d.nextFrame.any (fun frame => decide (d.near.Allows (.control frame))) = true
  | .source record charge => record ∈ d.far.history.sources ∧
      d.near.Allows (.source record.offset record.data record.fin charge)

instance (d : Duplex) (action : DuplexAction) : Decidable (d.AllowsNear action) := by
  cases action <;> unfold AllowsNear <;> infer_instance

def apply (d : Duplex) : Side × DuplexAction → Duplex
  | (.near, action) => d.applyNear action
  | (.far, action) => (d.swap.applyNear action).swap

def Allows (d : Duplex) : Side × DuplexAction → Prop
  | (.near, action) => d.AllowsNear action
  | (.far, action) => d.swap.AllowsNear action

instance (d : Duplex) (label : Side × DuplexAction) : Decidable (d.Allows label) := by
  obtain ⟨side, action⟩ := label
  cases side <;> unfold Allows <;> infer_instance

def Step (d : Duplex) (label : Side × DuplexAction) (e : Duplex) : Prop := d.Allows label ∧ e = d.apply label

def Initial (d : Duplex) : Prop :=
  d.near.Initial ∧ d.far.Initial ∧ d.near.flowId = d.far.flowId ∧
    d.near.connection.maxAckRanges = d.far.connection.maxAckRanges ∧
    d.near.connection.maxSymbol = d.far.connection.maxSymbol ∧ d.nearRead = 0 ∧ d.farRead = 0

end Duplex

/-- What a sender keeps growing, with the peer's credit up to a bound. -/
structure Sender.Grows (bound : ℕ) (x y : Sender) : Prop where
  written : x.written <+: y.written
  shutdown : ∀ finalOffset, x.shutdownTarget = some finalOffset → y.shutdownTarget = some finalOffset
  credit : x.credit ≤ y.credit
  peerMaxOffset : x.peerMaxOffset ≤ bound → y.peerMaxOffset ≤ bound

def SenderGuard.creditUpTo (bound : ℕ) : SenderGuard := { SenderGuard.none with peerCredit := (· ≤ bound) }

theorem Sender.Step.grows {bound : ℕ} {x y : Sender} (hstep : Sender.Step (.creditUpTo bound) x y) :
    Sender.Grows bound x y := by
  have hsame : Sender.Grows bound x x := ⟨List.prefix_rfl, fun _ => id, le_rfl, id⟩
  cases hstep with
  | write bytes => exact { hsame with written := List.prefix_append _ _ }
  | requestShutdown => exact { hsame with shutdown := fun finalOffset htarget => by rw [htarget]; rfl }
  | credit maximum hmaximum => exact { hsame with credit := hmaximum }
  | peerCredit maximum hmaximum hwire hguard => exact { hsame with peerMaxOffset := fun _ => hguard }
  | release ack =>
    rw [Sender.release_eq]
    exact ⟨List.prefix_rfl, fun _ => id, le_rfl, id⟩
  | _ => exact ⟨List.prefix_rfl, fun _ => id, le_rfl, id⟩

theorem Sender.Steps.grows {bound : ℕ} {x y : Sender} (hsteps : Sender.Steps (.creditUpTo bound) x y) :
    Sender.Grows bound x y := by
  induction hsteps with
  | refl => exact ⟨List.prefix_rfl, fun _ => id, le_rfl, id⟩
  | tail _ hlast ih =>
    have hgrows := hlast.grows
    exact ⟨ih.written.trans hgrows.written, fun finalOffset h => hgrows.shutdown _ (ih.shutdown _ h),
      ih.credit.trans hgrows.credit, fun h => hgrows.peerMaxOffset (ih.peerMaxOffset h)⟩

/-- What an end gets is true to what its peer has written, shut down and given as credit. -/
structure FlowAction.TrueTo (action : FlowAction) (peer : Flow) : Prop where
  offers : ∀ record last, action.offers record last → last = false ∧ IsPart peer.history.written record
  ends : ∀ finalOffset, action.ends finalOffset → peer.shared.shutdownTarget = some finalOffset
  credit : ∀ maximum, action = .control (.maxOffset maximum) → maximum ≤ peer.shared.maxReceiveOffset

/-- What one end has received from another is true to it, and its credit covers what the other may send. -/
structure Link (x y : Flow) : Prop where
  parts : ∀ record ∈ y.history.received.accepted, IsPart x.history.written record
  final : ∀ finalOffset, y.shared.receive.finalOffset = some finalOffset →
    x.shared.shutdownTarget = some finalOffset
  credit : x.shared.peerMaxOffset ≤ y.shared.maxReceiveOffset

namespace FlowAction

variable {action : FlowAction} {peer : Flow}

theorem trueTo_of_isLocal (h : action.isLocal = true) (peer : Flow) : action.TrueTo peer := by
  cases action with
  | control frame => cases h
  | source offset bytes last charge => cases h
  | _ => exact ⟨nofun, nofun, nofun⟩

theorem trueTo_of_frame (hinv : peer.sender.Inv) {frame : ControlFrame} (hframe : frame ∈ peer.history.frames) :
    (FlowAction.control frame).TrueTo peer := by
  have htrue := hinv.framed.framed frame (List.mem_append_left _ hframe)
  cases frame with
  | streamData offset last data =>
    refine ⟨?_, nofun, nofun⟩
    rintro record fin ⟨rfl, rfl⟩
    exact ⟨htrue.1, htrue.2.2.1⟩
  | fin finalOffset =>
    refine ⟨nofun, ?_, nofun⟩
    rintro offset rfl
    exact htrue
  | maxOffset maximum =>
    refine ⟨nofun, nofun, ?_⟩
    rintro offered ⟨⟩
    exact htrue
  | _ => exact ⟨nofun, nofun, nofun⟩

theorem trueTo_of_source (hinv : peer.sender.Inv) {record : SourceRecord} (hrecord : record ∈ peer.history.sources)
    (charge : RecoveryCharge) :
    (FlowAction.source record.offset record.data record.fin charge).TrueTo peer := by
  refine ⟨?_, nofun, nofun⟩
  rintro other last ⟨rfl, rfl⟩
  exact hinv.placed.sourced record hrecord

end FlowAction

namespace Link

variable {x y t : Flow} {action : FlowAction}

theorem sender (h : Link x y) (hgrows : Sender.Grows y.shared.maxReceiveOffset x.sender t.sender) : Link t y where
  parts := by
    intro record hrecord
    obtain ⟨more, hmore⟩ := hgrows.written
    have hpart := (h.parts record hrecord).append more
    rwa [show x.history.written ++ more = t.history.written from hmore] at hpart
  final := fun finalOffset hfinal => hgrows.shutdown finalOffset (h.final finalOffset hfinal)
  credit := hgrows.peerMaxOffset h.credit

theorem receiver (h : Link x y) (htrue : action.TrueTo x)
    (hgrows : Receiver.Grows action.offers action.ends y.receiver t.receiver)
    (hcredit : y.shared.maxReceiveOffset ≤ t.shared.maxReceiveOffset) : Link x t where
  parts := by
    intro record hrecord
    rcases hgrows.accepted record hrecord with hold | ⟨last, hoffer⟩
    · exact h.parts record hold
    · exact (htrue.offers record last hoffer).2
  final := by
    intro finalOffset hfinal
    rcases hgrows.final finalOffset hfinal with hold | hends | ⟨record, hoffer, _⟩
    · exact h.final finalOffset hold
    · exact htrue.ends finalOffset hends
    · exact absurd (htrue.offers record true hoffer).1 Bool.true_eq_false_eq_False
  credit := h.credit.trans hcredit

end Link

structure Duplex.Inv (d : Duplex) : Prop where
  nearSender : d.near.sender.Inv
  farSender : d.far.sender.Inv
  nearReceiver : d.near.receiver.Inv
  farReceiver : d.far.receiver.Inv
  forward : Link d.near d.far
  backward : Link d.far d.near

namespace Duplex

variable {d e : Duplex}

theorem Inv.swap (h : d.Inv) : d.swap.Inv :=
  ⟨h.farSender, h.nearSender, h.farReceiver, h.nearReceiver, h.backward, h.forward⟩

theorem Inv.act (h : d.Inv) {action : FlowAction} (hallows : d.near.Allows action) (htrue : action.TrueTo d.far)
    (nearRead : ℕ) : Inv { d with near := d.near.apply action, nearRead := nearRead } := by
  have hsteps : Sender.Steps (.creditUpTo d.far.shared.maxReceiveOffset) d.near.sender
      (d.near.apply action).sender :=
    Flow.apply_steps hallows (Flow.inHand_ne_nil h.nearSender)
      { Flow.meets_none d.near action with peerCredit := htrue.credit }
  have hgrows := hsteps.grows
  obtain ⟨hreceiver, hreceives⟩ := (Flow.apply_receiver hallows).inv h.nearReceiver
  exact ⟨hsteps.inv h.nearSender, h.farSender, hreceiver, h.farReceiver, h.forward.sender hgrows,
    h.backward.receiver htrue hreceives hgrows.credit⟩

theorem Inv.applyNear (h : d.Inv) {action : DuplexAction} (hallows : d.AllowsNear action) :
    (d.applyNear action).Inv := by
  cases action with
  | act action => exact h.act hallows.2 (FlowAction.trueTo_of_isLocal hallows.1 d.far) d.nearRead
  | frame =>
    unfold AllowsNear at hallows
    unfold Duplex.applyNear
    cases hframe : d.nextFrame with
    | none =>
      rw [hframe] at hallows
      cases hallows
    | some frame =>
      rw [hframe] at hallows
      have hmem : frame ∈ d.far.history.frames := List.mem_of_getElem? hframe
      exact h.act (of_decide_eq_true hallows) (FlowAction.trueTo_of_frame h.farSender hmem) _
  | source record charge =>
    exact h.act hallows.2 (FlowAction.trueTo_of_source h.farSender hallows.1 charge) d.nearRead

theorem Inv.step (h : d.Inv) {label : Side × DuplexAction} (hstep : d.Step label e) : e.Inv := by
  obtain ⟨hallows, rfl⟩ := hstep
  obtain ⟨side, action⟩ := label
  cases side with
  | near => exact h.applyNear hallows
  | far => exact (h.swap.applyNear hallows).swap

theorem Initial.inv (h : d.Initial) : d.Inv := by
  obtain ⟨hnear, hfar, _⟩ := h
  have hreceiver : ∀ {s : Flow}, s.Initial → s.receiver.Inv := by
    rintro s ⟨flowId, config, adaptive, connection, budget, early, rfl, _⟩
    exact ⟨FlowShared.new_receiveInv config early.length, nofun⟩
  have hlink : ∀ {s t : Flow}, s.Initial → t.Initial → Link s t := by
    rintro s t ⟨_, _, _, _, _, _, rfl, _⟩ ⟨_, _, _, _, _, _, rfl, _⟩
    exact ⟨nofun, nofun, Nat.zero_le _⟩
  exact ⟨hnear.inv, hfar.inv, hreceiver hnear, hreceiver hfar, hlink hnear hfar, hlink hfar hnear⟩

theorem inv_of_reachable (h : Reachable Initial Step d) : d.Inv :=
  h.invariant (fun _ => Initial.inv) (fun _ _ _ hs hstep => hs.step hstep)

def sample : Duplex := ⟨.sample true, .sample true, 0, 0⟩

theorem sample_initial : sample.Initial :=
  ⟨Flow.sample_initial true, Flow.sample_initial true, rfl, rfl, rfl, rfl, rfl⟩

def acts (side : Side) (actions : List FlowAction) : List (Side × DuplexAction) :=
  actions.map fun action => (side, .act action)

def feedback (writer reader : Side) : List (Side × DuplexAction) :=
  acts writer [.readFeedback true, .takeFeedback, .wire (.written 4)] ++ [(reader, .frame)]

end Duplex

end Quicp
