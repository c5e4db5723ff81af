import Quicp.Flow.Constants
import Quicp.Flow.Delivery
import Quicp.Flow.FlowControl
import Quicp.Flow.HalfClose

/-!
# Agreement on credit

The receiver of a direction advertises maxima that never shrink, and the sender sends nothing past one that it has
read.
-/

namespace Quicp

open Segment

def ControlFrame.offer : ControlFrame → Option ℕ
  | .maxOffset maximum => some maximum
  | _ => none

namespace Sender

variable {guard : SenderGuard} {x y : Sender} {first : ℕ} {early : List SourceRecord}

/-- The credits that the sender has advertised or is about to. -/
def offers (x : Sender) : List ℕ := x.allFrames.filterMap ControlFrame.offer

/-- The credits that a sender advertises never shrink, and it stands by the last one. -/
structure Offering (x : Sender) : Prop where
  sorted : x.offers.Pairwise (· ≤ ·)
  pending : ∀ offered ∈ x.offers, ∀ maximum ∈ x.pendingCredit, offered ≤ maximum
  standing : ∀ offered ∈ x.offers, offered ≤ x.credit
  onWire : x.credit ≤ maxWireOffset

private theorem offers_wait (x : Sender) (frame : ControlFrame) (flushed : Option ℕ) :
    (x.frames ++ (x.waiting ++ [(frame, flushed)]).map Prod.fst).filterMap ControlFrame.offer =
      x.offers ++ frame.offer.toList := by
  rw [offers, allFrames, List.map_append, ← List.append_assoc, List.filterMap_append]
  rfl

private theorem Offering.wait (h : x.Offering) {frame : ControlFrame} (flushed : Option ℕ) (hframe : frame.offer = none)
    {next : Sender} (hframes : next.allFrames = x.frames ++ (x.waiting ++ [(frame, flushed)]).map Prod.fst)
    (hpending : next.pendingCredit = x.pendingCredit) (hcredit : next.credit = x.credit) : next.Offering := by
  have hoffers : next.offers = x.offers := by
    rw [offers, hframes, offers_wait, hframe]
    exact List.append_nil _
  exact
    { sorted := hoffers ▸ h.sorted
      pending := by rw [hoffers, hpending]; exact h.pending
      standing := by rw [hoffers, hcredit]; exact h.standing
      onWire := hcredit ▸ h.onWire }

theorem Step.offering (hstep : Step guard x y) (hframed : x.Framed) (h : x.Offering) : y.Offering := by
  cases hstep with
  | credit maximum hmaximum hwire =>
    exact ⟨h.sorted, h.pending, fun offered hoffered => (h.standing offered hoffered).trans hmaximum,
      hwire.trans (max_le h.onWire le_rfl)⟩
  | offerCredit =>
    refine ⟨h.sorted, fun offered hoffered maximum hmaximum => ?_, h.standing, h.onWire⟩
    cases hmaximum
    exact h.standing offered hoffered
  | release ack =>
    rw [release_eq]
    exact ⟨h.sorted, h.pending, h.standing, h.onWire⟩
  | handStream => exact h.wait _ rfl rfl rfl rfl
  | requeue => exact h.wait _ rfl rfl rfl rfl
  | queueFin => exact h.wait _ rfl rfl rfl rfl
  | acknowledge => exact h.wait _ rfl rfl rfl rfl
  | sendCredit maximum hcredit =>
    have hoffers : offers { x with waiting := x.waiting ++ [(.maxOffset maximum, none)], pendingCredit := none } =
        x.offers ++ [maximum] := offers_wait x (.maxOffset maximum) none
    have hlast := fun offered hoffered => h.pending offered hoffered maximum hcredit
    refine ⟨?_, nofun, fun offered hoffered => ?_, h.onWire⟩
    · rw [hoffers, List.pairwise_append]
      refine ⟨h.sorted, List.pairwise_singleton _ _, fun offered hoffered last hmem => ?_⟩
      rw [List.mem_singleton.mp hmem]
      exact hlast offered hoffered
    · rw [hoffers, List.mem_append, List.mem_singleton] at hoffered
      rcases hoffered with hold | rfl
      · exact h.standing offered hold
      · exact hframed.offered offered hcredit
  | frameWritten frame flushed rest hwaiting =>
    have hframes : allFrames { x with
        waiting := rest, frames := x.frames ++ [frame], flushedOffset := flushTo x.flushedOffset flushed } =
        x.allFrames := by
      rw [allFrames, allFrames, hwaiting, List.map_cons, List.append_assoc]
      rfl
    exact ⟨by rw [offers, hframes]; exact h.sorted, by rw [offers, hframes]; exact h.pending,
      by rw [offers, hframes]; exact h.standing, h.onWire⟩
  | _ => exact ⟨h.sorted, h.pending, h.standing, h.onWire⟩

/-- Every record but the first ones carries bytes within the peer's credit. -/
def SentWithin (early : List SourceRecord) (x : Sender) : Prop :=
  ∀ record ∈ x.sources, record ∈ early ∨
    record.data ≠ [] ∧ record.offset + record.data.length ≤ x.peerMaxOffset

private theorem SentWithin.add (h : x.SentWithin early) {record : SourceRecord} (segment : ℕ × List UInt8)
    (hoffset : record.offset = segment.1) (hdata : record.data = segment.2) (hbytes : segment.2 ≠ [])
    (hcredit : stop segment ≤ x.peerMaxOffset) : ∀ other ∈ x.sources ++ [record], other ∈ early ∨
      other.data ≠ [] ∧ other.offset + other.data.length ≤ x.peerMaxOffset := by
  intro other hother
  rcases List.mem_append.mp hother with hold | hnew
  · exact h other hold
  · rw [List.mem_singleton.mp hnew, hoffset, hdata]
    exact Or.inr ⟨hbytes, hcredit⟩

theorem Step.sentWithin (hstep : Step guard x y) (hplaced : x.Placed) (hframed : x.Framed)
    (h : x.SentWithin early) : y.SentWithin early := by
  have hchunk : ∀ {chunk : Outbound}, x.inHand = some chunk → x.ready = true →
      chunk.bytes ≠ [] ∧ chunk.stop ≤ x.peerMaxOffset := fun {chunk} hhand hready =>
    ⟨(hplaced.parts chunk (by rw [pending_of_inHand hhand]; exact List.mem_cons_self)).1,
      hframed.ready chunk (readyChunk_of_ready hready hhand)⟩
  cases hstep with
  | peerCredit maximum hmaximum =>
    exact fun record hrecord => (h record hrecord).imp_right fun hwithin => ⟨hwithin.1, hwithin.2.trans hmaximum⟩
  | release ack =>
    rw [release_eq]
    exact h
  | handDatagram chunk replay record hhand hready hoffset hdata =>
    exact h.add chunk.segment hoffset hdata (hchunk hhand hready).1 (hchunk hhand hready).2
  | lostSource chunk record hhand hready hoffset hdata =>
    exact h.add chunk.segment hoffset hdata (hchunk hhand hready).1 (hchunk hhand hready).2
  | resend offset bytes record htimer hdatagrams hstage hnext hoffset hdata =>
    have hentry := (OrderedMap.nextAfter_eq_some hnext).1
    exact h.add (offset, bytes) hoffset hdata (hplaced.wellFormed.nonempty _ hentry)
      (hframed.within _ hentry)
  | _ => exact h

/-- Every written byte past the first ones is within the peer's credit or still waits. -/
def WaitsBeyond (first : ℕ) (x : Sender) : Prop :=
  ∀ i, first ≤ i → i < x.nextSendOffset → i < x.peerMaxOffset ∨ AnyContains (x.pending.map Outbound.segment) i

def undisturbed : SenderGuard := { SenderGuard.none with reset := False, stop := False }

theorem Step.waitsBeyond (hstep : Step undisturbed x y) (hframed : x.Framed) (h : x.WaitsBeyond first) :
    y.WaitsBeyond first := by
  have hhanded : ∀ {chunk : Outbound}, x.inHand = some chunk → x.ready = true → ∀ i, first ≤ i →
      i < x.nextSendOffset → i < x.peerMaxOffset ∨ AnyContains (x.outbound.map Outbound.segment) i := by
    intro chunk hhand hready i hfirst hlast
    rcases h i hfirst hlast with hsent | ⟨segment, hsegment, hstart, hstop⟩
    · exact Or.inl hsent
    · rw [pending_of_inHand hhand, List.map_cons, List.mem_cons] at hsegment
      rcases hsegment with rfl | hrest
      · exact Or.inl (hstop.trans_le (hframed.ready chunk (readyChunk_of_ready hready hhand)))
      · exact Or.inr ⟨segment, hrest, hstart, hstop⟩
  cases hstep with
  | write bytes =>
    intro i hfirst hlast
    by_cases hold : i < x.nextSendOffset
    · refine (h i hfirst hold).imp_right (·.mono fun segment hsegment => ?_)
      simp only [pending, List.map_append, List.mem_append] at hsegment ⊢
      tauto
    · refine Or.inr ⟨(x.nextSendOffset, bytes), ?_, not_lt.mp hold, hlast⟩
      simp [pending, Outbound.segment]
  | reset hguard => exact hguard.elim
  | overdrawn retainedBytes hlive hover hguard => exact hguard.elim
  | fail hguard => exact hguard.elim
  | abandon hguard => exact hguard.elim
  | abandonReleased ack hack hguard => exact hguard.elim
  | peerCredit maximum hmaximum =>
    exact fun i hfirst hlast => (h i hfirst hlast).imp_left hmaximum.trans_lt'
  | release ack hack =>
    rw [release_eq]
    exact h
  | take chunk rest hhand hhandedNone houtbound =>
    intro i hfirst hlast
    have hbefore := h i hfirst hlast
    rw [pending_of_not_inHand hhand, houtbound] at hbefore
    exact hbefore
  | putBack chunk hhand =>
    intro i hfirst hlast
    have hbefore := h i hfirst hlast
    rw [pending_of_inHand hhand] at hbefore
    exact hbefore
  | split chunk length hhand hpositive hlength =>
    intro i hfirst hlast
    refine (h i hfirst hlast).imp_right fun hcontains => ?_
    rw [pending_of_inHand hhand] at hcontains
    exact anyContains_split hlength hcontains
  | handDatagram chunk replay record hhand hready => exact hhanded hhand hready
  | handStream chunk replay hhand hready => exact hhanded hhand hready
  | _ => exact h

/-- The final offset is within the peer's credit or the first bytes. -/
def FinWithin (first : ℕ) (x : Sender) : Prop :=
  ∀ finalOffset, .fin finalOffset ∈ x.allFrames → finalOffset ≤ max first x.peerMaxOffset

private theorem FinWithin.wait (h : x.FinWithin first) {frame : ControlFrame} (flushed : Option ℕ)
    (hframe : frame.isFin = false) (finalOffset : ℕ)
    (hmem : .fin finalOffset ∈ x.frames ++ (x.waiting ++ [(frame, flushed)]).map Prod.fst) :
    finalOffset ≤ max first x.peerMaxOffset := by
  rcases mem_allFrames_wait x frame flushed _ hmem with rfl | hold
  · cases hframe
  · exact h finalOffset hold

theorem Step.finWithin (hstep : Step guard x y) (hended : x.Ended) (hwaits : guard.fin → x.WaitsBeyond first)
    (h : x.FinWithin first) : y.FinWithin first := by
  cases hstep with
  | peerCredit maximum hmaximum =>
    exact fun finalOffset hmem => (h finalOffset hmem).trans (max_le_max_left first hmaximum)
  | release ack =>
    rw [release_eq]
    exact h
  | handStream => exact h.wait _ rfl
  | requeue => exact h.wait _ rfl
  | queueFin finalOffset hshutdown hhand hhandedNone houtbound hreplay hfresh hguard =>
    intro other hmem
    rcases mem_allFrames_wait x _ _ _ hmem with hnew | hold
    · cases hnew
      rw [hended.target finalOffset hshutdown]
      by_contra hbeyond
      rw [not_le] at hbeyond
      rcases hwaits hguard (max first x.peerMaxOffset) (le_max_left _ _) hbeyond with hsent | hcontains
      · exact absurd hsent (not_lt.mpr (le_max_right _ _))
      · obtain ⟨segment, hsegment, _⟩ := hcontains
        rw [pending, hhand, houtbound] at hsegment
        cases hsegment
    · exact h other hold
  | acknowledge => exact h.wait _ rfl
  | sendCredit => exact h.wait _ rfl
  | frameWritten frame flushed rest hwaiting =>
    exact fun finalOffset hmem => h finalOffset (mem_allFrames_written hwaiting hmem)
  | _ => exact h

end Sender

namespace Sender

variable {guard : SenderGuard} {x y : Sender} {frames : List ControlFrame}

def Heard (frames : List ControlFrame) (x : Sender) : Prop :=
  x.peerMaxOffset = 0 ∨ .maxOffset x.peerMaxOffset ∈ frames

def heardIn (frames : List ControlFrame) : SenderGuard :=
  { SenderGuard.none with peerCredit := fun maximum => .maxOffset maximum ∈ frames }

theorem Step.heard (hstep : Step (heardIn frames) x y) (h : x.Heard frames) : y.Heard frames := by
  cases hstep with
  | peerCredit maximum hmaximum hwire hguard => exact Or.inr hguard
  | release ack =>
    rw [release_eq]
    exact h
  | _ => exact h

theorem Steps.frames_prefix (h : Steps guard x y) : x.frames <+: y.frames := by
  induction h with
  | refl => exact List.prefix_rfl
  | tail _ hlast ih =>
    refine ih.trans ?_
    cases hlast with
    | release ack =>
      rw [release_eq]
    | frameWritten => exact List.prefix_append _ _
    | _ => exact List.prefix_rfl

theorem Steps.credit_le (h : Steps guard x y) : x.credit ≤ y.credit := by
  induction h with
  | refl => exact le_rfl
  | tail _ hlast ih =>
    refine ih.trans ?_
    cases hlast with
    | credit maximum hmaximum => exact hmaximum
    | release ack =>
      rw [release_eq]
    | _ => exact le_rfl

end Sender

/-- Two ends agree on the credit of one direction: the first has sent its first records and what a maximum of the
second allowed that it has read. -/
structure Agreement (early : List SourceRecord) (first window : ℕ) (x y : Flow) (read : ℕ) : Prop where
  offering : y.sender.Offering
  heard : x.sender.Heard (y.history.frames.take read)
  sent : x.sender.SentWithin early
  waits : x.shared.locallyReset = false → x.phase ≠ .stopped → x.sender.WaitsBeyond first
  fin : x.shared.locallyReset = false → x.sender.FinWithin first
  fixed : y.shared.receiveWindow = window
  opened : window ≤ y.shared.maxReceiveOffset

namespace Agreement

variable {early : List SourceRecord} {first window read : ℕ} {x y : Flow} {action : FlowAction}

theorem receiver (h : Agreement early first window x y read) (hallows : y.Allows action) (hinv : y.sender.Inv) :
    Agreement early first window x (y.apply action) read := by
  have hsteps : Sender.Steps .none y.sender (y.apply action).sender :=
    Flow.apply_steps hallows (Flow.inHand_ne_nil hinv) (Flow.meets_none y action)
  exact
    { h with
      offering := hsteps.keeps (fun _ _ hlast hbefore => hlast.offering hbefore.framed) hinv h.offering
      heard := h.heard.imp_right fun hmem => (hsteps.frames_prefix.take read).subset hmem
      fixed := (Flow.apply_keeps y action).window.trans h.fixed
      opened := h.opened.trans hsteps.credit_le }

private theorem waits_step (h : Agreement early first window x y read) (hallows : x.Allows action)
    (hinv : x.sender.Inv) (hunreset : (x.apply action).shared.locallyReset = false)
    (hrunning : (x.apply action).phase ≠ .stopped) :
    (x.apply action).sender.WaitsBeyond first ∧ (x.apply action).sender.FinWithin first := by
  have hbefore := (Flow.apply_keeps x action).unreset hunreset
  have hwaits := h.waits hbefore fun hstopped => hrunning (Flow.apply_stopped hallows hstopped)
  have hsteps : Sender.Steps Sender.undisturbed x.sender (x.apply action).sender :=
    Flow.apply_steps hallows (Flow.inHand_ne_nil hinv)
      { Flow.meets_none x action with
        reset := by rw [hunreset]; nofun
        stop := hrunning }
  exact hsteps.keeps (P := fun z => z.WaitsBeyond first ∧ z.FinWithin first)
    (fun _ _ hlast hz hkept => ⟨hlast.waitsBeyond hz.framed hkept.1, hlast.finWithin hz.ended (fun _ => hkept.1) hkept.2⟩)
    hinv ⟨hwaits, h.fin hbefore⟩

private theorem fin_step (h : Agreement early first window x y read) (hallows : x.Allows action)
    (hinv : x.sender.Inv) (hunreset : (x.apply action).shared.locallyReset = false) :
    (x.apply action).sender.FinWithin first := by
  by_cases hrunning : (x.apply action).phase = .stopped
  · have hsteps : Sender.Steps { SenderGuard.none with fin := False } x.sender (x.apply action).sender :=
      Flow.apply_steps hallows (Flow.inHand_ne_nil hinv)
        { Flow.meets_none x action with
          fin := by
            rintro rfl
            rw [Flow.apply, Flow.queueTerminalFrames_phase, hallows] at hrunning
            cases hrunning }
    exact hsteps.keeps (fun _ _ hlast hz => hlast.finWithin hz.ended False.elim) hinv
      (h.fin ((Flow.apply_keeps x action).unreset hunreset))
  · exact (h.waits_step hallows hinv hunreset hrunning).2

theorem sender (h : Agreement early first window x y read) (hallows : x.Allows action) (hinv : x.sender.Inv)
    {further : ℕ} (hread : read ≤ further)
    (hcredit : ∀ maximum, action = .control (.maxOffset maximum) → .maxOffset maximum ∈ y.history.frames.take further) :
    Agreement early first window (x.apply action) y further := by
  have hsteps : Sender.Steps (Sender.heardIn (y.history.frames.take further)) x.sender (x.apply action).sender :=
    Flow.apply_steps hallows (Flow.inHand_ne_nil hinv) { Flow.meets_none x action with peerCredit := hcredit }
  have hheard : x.sender.Heard (y.history.frames.take further) :=
    h.heard.imp_right fun hmem => (List.take_prefix_take_left hread).subset hmem
  exact
    { h with
      heard := hsteps.keeps (fun _ _ hlast _ => hlast.heard) hinv hheard
      sent := hsteps.keeps (fun _ _ hlast hz => hlast.sentWithin hz.placed hz.framed) hinv h.sent
      waits := fun hunreset hrunning => (h.waits_step hallows hinv hunreset hrunning).1
      fin := fun hunreset => h.fin_step hallows hinv hunreset }

end Agreement

namespace Duplex

variable {d e start : Duplex}

theorem exists_action {action : DuplexAction} (hallows : d.AllowsNear action) :
    ∃ flowAction further, d.near.Allows flowAction ∧ d.nearRead ≤ further ∧
      d.applyNear action = { d with near := d.near.apply flowAction, nearRead := further } ∧
      ∀ maximum, flowAction = .control (.maxOffset maximum) → .maxOffset maximum ∈ d.far.history.frames.take further := by
  cases action with
  | act action =>
    refine ⟨action, d.nearRead, hallows.2, le_rfl, rfl, ?_⟩
    rintro maximum rfl
    cases hallows.1
  | source record charge => exact ⟨_, d.nearRead, hallows.2, le_rfl, rfl, nofun⟩
  | frame =>
    unfold AllowsNear at hallows
    unfold Duplex.applyNear
    cases hframe : d.nextFrame with
    | none =>
      rw [hframe] at hallows
      cases hallows
    | some frame =>
      rw [hframe] at hallows
      refine ⟨.control frame, d.nearRead + 1, of_decide_eq_true hallows, Nat.le_succ _, rfl, ?_⟩
      rintro maximum ⟨⟩
      rw [List.take_add_one]
      exact List.mem_append_right _ (by rw [show d.far.history.frames[d.nearRead]? = _ from hframe]; exact List.mem_cons_self)

variable {early : List SourceRecord} {first window : ℕ}

private theorem Step.agreement {label : Side × DuplexAction}
    (hstep : d.Step label e) (hinv : d.Inv) (h : Agreement early first window d.near d.far d.nearRead) :
    Agreement early first window e.near e.far e.nearRead := by
  obtain ⟨hallows, rfl⟩ := hstep
  obtain ⟨side, action⟩ := label
  cases side with
  | near =>
    obtain ⟨flowAction, further, hflow, hread, happly, hcredit⟩ := exists_action hallows
    rw [apply, happly]
    exact h.sender hflow hinv.nearSender hread hcredit
  | far =>
    obtain ⟨flowAction, further, hflow, _, happly, _⟩ := exists_action (d := d.swap) hallows
    rw [apply, happly]
    exact h.receiver hflow hinv.farSender

private theorem Initial.agreement (h : start.Initial) :
    Agreement start.near.history.sources start.near.history.written.length start.far.shared.receiveWindow
      start.near start.far start.nearRead := by
  obtain ⟨⟨_, _, _, _, _, early, hnear, _⟩, ⟨_, config, _, _, _, _, hfar, _⟩, _⟩ := h
  rw [hnear, hfar]
  refine ⟨⟨List.Pairwise.nil, nofun, nofun, ?_⟩, Or.inl rfl, fun _ => Or.inl, ?_, nofun, rfl, le_rfl⟩
  · exact config.reassemblyValid.2.trans (by decide)
  · exact fun _ _ i hfirst hlast => absurd hlast (not_lt.mpr hfirst)

private theorem Initial.early_le (h : start.Initial) {record : SourceRecord} (hrecord : record ∈ start.near.history.sources) :
    record.offset + record.data.length ≤ start.near.history.written.length := by
  obtain ⟨⟨flowId, _, _, _, _, early, hnear, _⟩, _⟩ := h
  rw [hnear] at hrecord ⊢
  change record ∈ (if early = [] then [] else [⟨flowId, 0, false, early⟩]) at hrecord
  split_ifs at hrecord
  · cases hrecord
  · rw [List.mem_singleton.mp hrecord]
    exact (Nat.zero_add _).le

private theorem agreement_of_reachable (hstart : start.Initial) (h : Reachable (· = start) Step d) :
    d.Inv ∧ Agreement start.near.history.sources start.near.history.written.length start.far.shared.receiveWindow
      d.near d.far d.nearRead := by
  refine h.invariant (P := fun d : Duplex => d.Inv ∧ Agreement start.near.history.sources
    start.near.history.written.length start.far.shared.receiveWindow d.near d.far d.nearRead) ?_ ?_
  · rintro _ rfl
    exact ⟨hstart.inv, hstart.agreement⟩
  · exact fun _ _ _ hs hstep => ⟨hs.1.step hstep, hstep.agreement hs.1 hs.2⟩

private theorem advertised
    (h : Agreement early first window d.near d.far d.nearRead) {offset : ℕ} {bytes : List UInt8} (hbytes : bytes ≠ [])
    (hcredit : offset + bytes.length ≤ d.near.shared.peerMaxOffset) :
    ∃ maximum, .maxOffset maximum ∈ d.far.history.frames ∧ offset + bytes.length ≤ maximum := by
  rcases h.heard with hzero | hmem
  · have hpositive := List.length_pos_iff.mpr hbytes
    change d.near.shared.peerMaxOffset = 0 at hzero
    omega
  · exact ⟨_, List.mem_of_mem_take hmem, hcredit⟩

private theorem peerMaxOffset_le_next {maximum : ℕ}
    (h : Agreement early first window d.near d.far d.nearRead) (hnext : d.nextFrame = some (.maxOffset maximum)) :
    d.near.shared.peerMaxOffset ≤ maximum := by
  rcases h.heard with hzero | hmem
  · exact (show d.near.shared.peerMaxOffset = 0 from hzero) ▸ Nat.zero_le maximum
  · have hsorted := List.pairwise_filterMap.mp h.offering.sorted
    have hframes : d.far.history.frames.Pairwise _ := (List.pairwise_append.mp hsorted).1
    rw [← List.take_append_drop d.nearRead d.far.history.frames, List.pairwise_append] at hframes
    have hlater : .maxOffset maximum ∈ d.far.history.frames.drop d.nearRead := by
      refine List.mem_of_getElem? (i := 0) ?_
      rw [List.getElem?_drop]
      exact hnext
    exact hframes.2.2 _ hmem _ hlater _ rfl _ rfl

/-- In every run of two ends, whatever they write, read, send, replay, lose and reorder, the near end sends nothing
past a maximum that the far end has advertised, but for the data that opened the flow; the far end never answers with a
flow control error; the maxima never shrink and the near end takes each of them; the bytes that the far end has
accepted and not read fit its buffer; and its credit stays on the wire. A final offset is within the credit unless the
near end was reset. -/
theorem flowControl_agreement (hstart : start.Initial)
    (hearly : start.near.history.written.length ≤ start.far.shared.receiveWindow) (h : Reachable (· = start) Step d) :
    (∀ record ∈ d.near.history.sources, record ∈ start.near.history.sources ∨
      ∃ maximum, .maxOffset maximum ∈ d.far.history.frames ∧ record.offset + record.data.length ≤ maximum) ∧
    (∀ offset last data, .streamData offset last data ∈ d.near.sender.allFrames →
      ∃ maximum, .maxOffset maximum ∈ d.far.history.frames ∧ offset + data.length ≤ maximum) ∧
    (∀ record ∈ d.near.history.sources, ∀ charge, (d.far.shared.insertBytesPrecharged d.far.budget record.offset
      record.data record.fin charge).1 ≠ .err .flowControl) ∧
    (∀ frame ∈ d.near.history.frames, (frame.isFin = true → d.near.shared.locallyReset = false) →
      (d.far.applyControl frame).2 ≠ .failed (.recovery .flowControl)) ∧
    (d.far.sender.allFrames.filterMap ControlFrame.offer).Pairwise (· ≤ ·) ∧
    (∀ maximum, d.nextFrame = some (.maxOffset maximum) →
      (d.near.applyControl (.maxOffset maximum)).2 = .done true) ∧
    (coveredFrom d.far.shared.receive.nextOffset d.far.history.received.accepted).ncard ≤
      start.far.shared.receiveWindow ∧
    d.far.shared.maxReceiveOffset ≤ maxWireOffset := by
  obtain ⟨hinv, hagree⟩ := agreement_of_reachable hstart h
  have hcredit : d.near.shared.peerMaxOffset ≤ d.far.shared.maxReceiveOffset := hinv.forward.credit
  have hopened := hearly.trans hagree.opened
  have hframes := hinv.nearSender.framed.framed
  refine ⟨fun record hrecord => ?_, fun offset last data hframe => ?_, fun record hrecord charge => ?_,
    fun frame hframe hunreset => ?_, hagree.offering.sorted, fun maximum hnext => ?_, ?_, hagree.offering.onWire⟩
  · exact (hagree.sent record hrecord).imp_right fun hwithin => advertised hagree hwithin.1 hwithin.2
  · obtain ⟨_, hbytes, _, hwithin⟩ := hframes _ hframe
    exact advertised hagree hbytes hwithin
  · refine FlowShared.insertBytes_ne_flowControl ?_ _ _ _
    rcases hagree.sent record hrecord with hfirst | ⟨_, hwithin⟩
    · exact (hstart.early_le hfirst).trans hopened
    · exact hwithin.trans hcredit
  · refine Flow.applyControl_ne_flowControl ?_ ?_
    · rintro offset last data rfl
      exact (hframes _ (List.mem_append_left _ hframe)).2.2.2.trans hcredit
    · rintro finalOffset rfl
      exact (hagree.fin (hunreset rfl) finalOffset (List.mem_append_left _ hframe)).trans (max_le hopened hcredit)
  · rw [Flow.applyControl, if_neg (not_lt.mpr (peerMaxOffset_le_next hagree hnext))]
  · have hreceive := hinv.farReceiver.receive
    rw [← hagree.fixed]
    exact (hreceive.refines.bytes_eq_ncard hreceive.wellFormed).ge.trans hreceive.bytes_le_window

theorem flowControl_agreement_delivering :
    (∃ maximum, .maxOffset maximum ∈ (deliveringRun.foldl apply sample).far.history.frames ∧ 2 ≤ maximum) ∧
      ((deliveringRun.foldl apply sample).far.applyControl (.fin 2)).2 ≠ .failed (.recovery .flowControl) := by
  have hrun : Reachable.Permits Allows apply sample deliveringRun := by decide +kernel
  have hreached : Reachable (· = sample) Step (deliveringRun.foldl apply sample) :=
    Reachable.run (fun _ _ h => ⟨h, rfl⟩) (show Reachable (· = sample) Step sample from .start rfl) hrun
  have hagree := flowControl_agreement sample_initial (by decide) hreached
  have hrecord : ⟨0, 0, false, [7, 8]⟩ ∈ (deliveringRun.foldl apply sample).near.history.sources := by decide +kernel
  exact ⟨(hagree.1 _ hrecord).resolve_left nofun,
    hagree.2.2.2.1 (.fin 2) (by decide +kernel) (fun _ => by decide +kernel)⟩

end Duplex

end Quicp
