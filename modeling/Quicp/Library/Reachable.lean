import Mathlib

/-!
# States reached by labelled steps

A run starts in an initial state and takes finitely many labelled steps. An invariant is proved once for a single step
and then holds in every state of every run.
-/

variable {State Label : Type*}

/-- The states of all finite runs of a labelled step relation. -/
inductive Reachable (initial : State → Prop) (step : State → Label → State → Prop) : State → Prop
  | start {s : State} : initial s → Reachable initial step s
  | next {s t : State} {label : Label} : Reachable initial step s → step s label t → Reachable initial step t

namespace Reachable

variable {initial : State → Prop} {step : State → Label → State → Prop}

theorem invariant {P : State → Prop} (hstart : ∀ s, initial s → P s)
    (hstep : ∀ s label t, P s → step s label t → P t) {s : State} (h : Reachable initial step s) :
    P s := by
  induction h with
  | start hs => exact hstart _ hs
  | next _ hs ih => exact hstep _ _ _ ih hs

def Permits (allows : State → Label → Prop) (apply : State → Label → State) : State → List Label → Prop
  | _, [] => True
  | s, label :: rest => allows s label ∧ Permits allows apply (apply s label) rest

instance Permits.decidable (allows : State → Label → Prop) (apply : State → Label → State)
    [∀ s label, Decidable (allows s label)] (s : State) (labels : List Label) :
    Decidable (Permits allows apply s labels) :=
  match labels with
  | [] => isTrue trivial
  | label :: rest =>
    have := Permits.decidable allows apply (apply s label) rest
    inferInstanceAs (Decidable (_ ∧ _))

theorem run {allows : State → Label → Prop} {apply : State → Label → State}
    (hstep : ∀ s label, allows s label → step s label (apply s label)) {s : State}
    (h : Reachable initial step s) {labels : List Label} (hlabels : Permits allows apply s labels) :
    Reachable initial step (labels.foldl apply s) := by
  induction labels generalizing s with
  | nil => exact h
  | cons label rest ih => exact ih (h.next (hstep s label hlabels.1)) hlabels.2

end Reachable
