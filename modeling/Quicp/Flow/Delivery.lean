import Quicp.Flow.Duplex

/-!
# Ordered delivery

Whatever is lost, duplicated or reordered on the way, what one end reads is the front of what
the other end has written, and the end of the stream is reported only after all of it.
-/

namespace Quicp

open Segment

/-- What one end has read from the other is the front of what that one has written; the end of the stream
was reported only if the other asked for a shutdown and all that it has written was read. -/
def Delivers (x y : Flow) : Prop :=
  y.history.received.delivered <+: x.history.written ∧
    (y.history.ended = true →
      x.shared.shutdownTarget.isSome = true ∧ y.history.received.delivered = x.history.written)

theorem Link.delivers {x y : Flow} (h : Link x y) (hsender : x.sender.Inv) (hreceiver : y.receiver.Inv) :
    Delivers x y := by
  have hinitial : y.history.received.delivered <+: x.history.written :=
    hreceiver.receive.refines.faithful.delivered_prefix h.parts
  refine ⟨hinitial, fun hended => ?_⟩
  obtain ⟨finalOffset, hfinal, hread⟩ := hreceiver.ended hended
  have htarget := h.final finalOffset hfinal
  have hwritten : finalOffset = x.history.written.length :=
    (hsender.ended.target finalOffset htarget).trans hsender.placed.length
  have hdelivered : y.history.received.delivered.length = y.shared.receive.nextOffset :=
    hreceiver.receive.refines.position
  refine ⟨by rw [htarget]; rfl, hinitial.eq_of_length_le ?_⟩
  rw [hdelivered, ← hwritten]
  exact hread

/-- In every run of two ends, in either direction, the bytes that were read are the front of the bytes that
were written, and the end is reported only after all of them. -/
theorem ordered_delivery {d : Duplex} (h : Reachable Duplex.Initial Duplex.Step d) :
    Delivers d.near d.far ∧ Delivers d.far d.near := by
  have hinv := Duplex.inv_of_reachable h
  exact ⟨hinv.forward.delivers hinv.nearSender hinv.farReceiver,
    hinv.backward.delivers hinv.farSender hinv.nearReceiver⟩

def deliveringRun : List (Side × DuplexAction) :=
  Duplex.feedback .far .near ++ Duplex.acts .near (.enqueue [7, 8] :: Flow.handOver) ++
    Duplex.acts .far [.useBudget 2] ++ [(.far, .source ⟨0, 0, false, [7, 8]⟩ ⟨0, 2⟩)] ++
    Duplex.acts .far [.read 2] ++ Duplex.acts .near [.requestShutdown] ++ Duplex.feedback .far .near ++
    Duplex.acts .near [.terminal, .wire (.written 3)] ++ [(.far, .frame)] ++ Duplex.acts .far [.read 1]

theorem ordered_delivery_whole :
    ∃ d : Duplex, d.far.history.ended = true ∧ d.far.history.received.delivered = [7, 8] ∧
      Delivers d.near d.far ∧ Delivers d.far d.near := by
  have hrun : Reachable.Permits Duplex.Allows Duplex.apply Duplex.sample deliveringRun := by decide +kernel
  exact ⟨_, by decide +kernel, by decide +kernel,
    ordered_delivery (Reachable.run (fun _ _ h => ⟨h, rfl⟩) (.start Duplex.sample_initial) hrun)⟩

end Quicp
