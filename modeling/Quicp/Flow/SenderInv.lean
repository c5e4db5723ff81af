import Quicp.Flow.Retention

/-!
# What every sender keeps

Each group of facts is about a few fields of the sender, so that a step which leaves them alone keeps the group as it
is.
-/

namespace Quicp

open Segment

/-- A frame is true to what was written, to the peer's credit, to the final offset and to the credit
given out. -/
def FrameTrue (written : List UInt8) (peerMaxOffset : ℕ) (shutdownTarget : Option ℕ) (credit : ℕ) :
    ControlFrame → Prop
  | .streamData offset last data =>
    last = false ∧ data ≠ [] ∧ IsPart written (offset, data) ∧ offset + data.length ≤ peerMaxOffset
  | .fin finalOffset => shutdownTarget = some finalOffset
  | .maxOffset maximum => maximum ≤ credit
  | _ => True

theorem FrameTrue.mono {written longer : List UInt8} {peerMaxOffset peerMaximum credit maximum : ℕ}
    {shutdownTarget target : Option ℕ} {frame : ControlFrame}
    (h : FrameTrue written peerMaxOffset shutdownTarget credit frame) (hwritten : written <+: longer)
    (hpeer : peerMaxOffset ≤ peerMaximum)
    (htarget : ∀ finalOffset, shutdownTarget = some finalOffset → target = some finalOffset)
    (hcredit : credit ≤ maximum) : FrameTrue longer peerMaximum target maximum frame := by
  obtain ⟨more, rfl⟩ := hwritten
  cases frame with
  | streamData offset last data => exact ⟨h.1, h.2.1, h.2.2.1.append more, h.2.2.2.trans hpeer⟩
  | fin finalOffset => exact htarget finalOffset h
  | maxOffset offered => exact le_trans h hcredit
  | _ => exact trivial

/-- The frames of a sender are true, and what it may send next is within the peer's credit. -/
structure Framing (written : List UInt8) (peerMaxOffset : ℕ) (shutdownTarget : Option ℕ) (credit : ℕ)
    (pendingCredit : Option ℕ) (frames : List ControlFrame) (ready : Option Outbound)
    (replay : ReplayBuffer) : Prop where
  framed : ∀ frame ∈ frames, FrameTrue written peerMaxOffset shutdownTarget credit frame
  offered : ∀ maximum ∈ pendingCredit, maximum ≤ credit
  onWire : peerMaxOffset ≤ maxWireOffset
  ready : ∀ chunk ∈ ready, chunk.stop ≤ peerMaxOffset
  within : ∀ entry ∈ replay.chunks.entries, Segment.stop entry ≤ peerMaxOffset

namespace Framing

variable {written longer : List UInt8} {peerMaxOffset peerMaximum credit maximum : ℕ}
  {shutdownTarget target pendingCredit : Option ℕ} {frames : List ControlFrame}
  {ready : Option Outbound} {replay next : ReplayBuffer} {chunk : Outbound}

theorem mono (h : Framing written peerMaxOffset shutdownTarget credit pendingCredit frames ready replay)
    (hwritten : written <+: longer) (hpeer : peerMaxOffset ≤ peerMaximum) (hwire : peerMaximum ≤ maxWireOffset)
    (htarget : ∀ finalOffset, shutdownTarget = some finalOffset → target = some finalOffset)
    (hcredit : credit ≤ maximum) :
    Framing longer peerMaximum target maximum pendingCredit frames ready replay where
  framed := fun frame hframe => (h.framed frame hframe).mono hwritten hpeer htarget hcredit
  offered := fun offered hoffered => (h.offered offered hoffered).trans hcredit
  onWire := hwire
  ready := fun chunk hchunk => (h.ready chunk hchunk).trans hpeer
  within := fun entry hentry => (h.within entry hentry).trans hpeer

theorem addFrame (h : Framing written peerMaxOffset shutdownTarget credit pendingCredit frames ready replay)
    (frame : ControlFrame) (hframe : FrameTrue written peerMaxOffset shutdownTarget credit frame) {others : List ControlFrame}
    (hothers : ∀ other ∈ others, other = frame ∨ other ∈ frames) :
    Framing written peerMaxOffset shutdownTarget credit pendingCredit others ready replay :=
  { h with
    framed := by
      intro other hother
      rcases hothers other hother with rfl | hold
      · exact hframe
      · exact h.framed other hold }

theorem retain (h : Framing written peerMaxOffset shutdownTarget credit pendingCredit frames (some chunk) replay)
    (hmem : ∀ entry ∈ next.chunks.entries, entry = chunk.segment ∨ entry ∈ replay.chunks.entries) :
    Framing written peerMaxOffset shutdownTarget credit pendingCredit frames none next :=
  { h with
    ready := by simp
    within := by
      intro entry hentry
      rcases hmem entry hentry with rfl | hold
      · exact h.ready chunk rfl
      · exact h.within entry hold }

theorem notReady (h : Framing written peerMaxOffset shutdownTarget credit pendingCredit frames ready replay) :
    Framing written peerMaxOffset shutdownTarget credit pendingCredit frames none replay :=
  { h with ready := by simp }

theorem makeReady (h : Framing written peerMaxOffset shutdownTarget credit pendingCredit frames ready replay)
    (hcredit : chunk.stop ≤ peerMaxOffset) :
    Framing written peerMaxOffset shutdownTarget credit pendingCredit frames (some chunk) replay :=
  { h with ready := fun _ hother => Option.some.inj hother ▸ hcredit }

theorem acknowledge (h : Framing written peerMaxOffset shutdownTarget credit pendingCredit frames ready replay)
    (ack : AckRanges) :
    Framing written peerMaxOffset shutdownTarget credit pendingCredit frames ready (replay.acknowledge ack).1 :=
  { h with within := fun entry hentry => h.within entry (ReplayBuffer.mem_of_mem_acknowledge hentry) }

end Framing

/-- The final offset is the end of the written bytes, and once it is queued nothing is left to send. -/
structure Ending (nextSendOffset : ℕ) (shutdownTarget : Option ℕ) (finQueued : Bool) (pending : List Outbound)
    (replay : ReplayBuffer) : Prop where
  target : ∀ finalOffset ∈ shutdownTarget, finalOffset = nextSendOffset
  finished : finQueued = true → shutdownTarget.isSome ∧ pending = [] ∧ replay.chunks.entries = []

theorem Ending.keep {nextSendOffset : ℕ} {shutdownTarget : Option ℕ} {finQueued : Bool}
    {pending others : List Outbound} {replay next : ReplayBuffer}
    (h : Ending nextSendOffset shutdownTarget finQueued pending replay)
    (hnothing : pending = [] → replay.chunks.entries = [] → others = [] ∧ next.chunks.entries = []) :
    Ending nextSendOffset shutdownTarget finQueued others next :=
  ⟨h.target, fun hfin => ⟨(h.finished hfin).1, hnothing (h.finished hfin).2.1 (h.finished hfin).2.2⟩⟩

theorem ReplayBuffer.acknowledge_of_empty {replay : ReplayBuffer} (ack : AckRanges)
    (h : replay.chunks.entries = []) : (replay.acknowledge ack).1.chunks.entries = [] :=
  List.eq_nil_iff_forall_not_mem.mpr fun entry hentry => by
    have hold := mem_of_mem_acknowledge hentry
    rw [h] at hold
    cases hold

/-- What counts as retained is what waits or is replayed, within the limits; the last chunk to be handed
over ends where the written bytes end. -/
structure Account (nextSendOffset retainedBytes retainedChunks replayLimit chunkLimit : ℕ)
    (pending : List Outbound) (handed : Option ℕ) (replay : ReplayBuffer) : Prop where
  bytes : retainedBytes = pendingBytes pending + replay.bytes
  chunks : retainedChunks = pending.length + replay.chunks.length
  bytesLimit : retainedBytes ≤ replayLimit
  chunksLimit : retainedChunks ≤ chunkLimit
  limitValid : replayLimit ≤ maxFlowBufferBytes
  maxBytes : replay.maxBytes = replayLimit
  maxChunks : replay.maxChunks = chunkLimit
  last : ∀ chunk ∈ pending.getLast?, chunk.stop = nextSendOffset
  handed : pending = [] → ∀ stop ∈ handed, stop = nextSendOffset

namespace Account

variable {nextSendOffset retainedBytes retainedChunks replayLimit chunkLimit : ℕ} {pending rest : List Outbound}
  {handed : Option ℕ} {replay next : ReplayBuffer} {chunk : Outbound}

theorem retention
    (h : Account nextSendOffset retainedBytes retainedChunks replayLimit chunkLimit pending handed replay) :
    Retention retainedBytes retainedChunks replayLimit chunkLimit pending replay :=
  ⟨h.bytes, h.chunks, h.bytesLimit, h.chunksLimit, h.limitValid, h.maxBytes, h.maxChunks⟩

theorem write
    (h : Account nextSendOffset retainedBytes retainedChunks replayLimit chunkLimit pending handed replay)
    {bytes : List UInt8} (hroom : saturatingAdd retainedBytes bytes.length ≤ replayLimit)
    (hchunks : retainedChunks < chunkLimit) :
    Account (nextSendOffset + bytes.length) (retainedBytes + bytes.length) (retainedChunks + 1) replayLimit
      chunkLimit (pending ++ [⟨nextSendOffset, bytes⟩]) handed replay := by
  refine { h.retention.write nextSendOffset hroom hchunks with last := ?_, handed := ?_ }
  · simp [Outbound.stop]
  · simp

theorem split
    (h : Account nextSendOffset retainedBytes retainedChunks replayLimit chunkLimit (chunk :: rest) handed replay)
    {length : ℕ} (hlength : length < chunk.bytes.length) (hchunks : retainedChunks < chunkLimit) :
    Account nextSendOffset retainedBytes (retainedChunks + 1) replayLimit chunkLimit
      (⟨chunk.offset, chunk.bytes.take length⟩ :: ⟨chunk.offset + length, chunk.bytes.drop length⟩ :: rest)
      handed replay := by
  refine { h.retention.split hlength hchunks with last := ?_, handed := by simp }
  have hlast := h.last
  cases rest with
  | nil =>
    have hstop : chunk.offset + chunk.bytes.length = nextSendOffset := hlast chunk rfl
    simp only [List.getLast?_cons_cons, List.getLast?_singleton, Option.mem_some_iff, forall_eq',
      Outbound.stop, List.length_drop]
    omega
  | cons second rest =>
    rw [List.getLast?_cons_cons] at hlast
    rw [List.getLast?_cons_cons, List.getLast?_cons_cons]
    exact hlast

theorem retain
    (h : Account nextSendOffset retainedBytes retainedChunks replayLimit chunkLimit (chunk :: rest) handed replay)
    (hreplay : replay.retain chunk.offset chunk.bytes = .ok next)
    (hfresh : ∀ entry ∈ replay.chunks.entries, entry.1 ≠ chunk.offset) :
    Account nextSendOffset retainedBytes retainedChunks replayLimit chunkLimit rest (some chunk.stop) next := by
  refine { h.retention.retain hreplay hfresh with last := ?_, handed := ?_ }
  · intro last hlast
    refine h.last last ?_
    cases rest with
    | nil => cases hlast
    | cons second rest => rwa [List.getLast?_cons_cons]
  · rintro rfl stop hstop
    rw [← Option.some.inj hstop]
    exact h.last chunk rfl

theorem noteHanded
    (h : Account nextSendOffset retainedBytes retainedChunks replayLimit chunkLimit pending handed replay) :
    Account nextSendOffset retainedBytes retainedChunks replayLimit chunkLimit pending none replay :=
  { h with handed := by simp }

end Account

namespace Sender

variable {guard : SenderGuard} {x y : Sender}

def readyChunk (x : Sender) : Option Outbound := if x.ready then x.inHand else none

def allFrames (x : Sender) : List ControlFrame := x.frames ++ x.waiting.map Prod.fst

/-- The frames of a sender are true, and what is ready is within the peer's credit. -/
def Framed (x : Sender) : Prop :=
  Framing x.written x.peerMaxOffset x.shutdownTarget x.credit x.pendingCredit x.allFrames x.readyChunk x.replay

theorem readyChunk_of_ready {chunk : Outbound} (hready : x.ready = true) (hhand : x.inHand = some chunk) :
    x.readyChunk = some chunk := by
  rw [readyChunk, if_pos hready, hhand]

theorem Placed.mem_of_retain {chunk : Outbound} {replay : ReplayBuffer} (h : x.Placed)
    (hhand : x.inHand = some chunk) (hreplay : x.replay.retain chunk.offset chunk.bytes = .ok replay) :
    ∀ entry ∈ replay.chunks.entries, entry = chunk.segment ∨ entry ∈ x.replay.chunks.entries := by
  intro entry hentry
  rw [Placed, pending_of_inHand hhand] at h
  exact List.mem_cons.mp ((ReplayBuffer.retain_perm hreplay h.fresh).mem_iff.mp hentry)

theorem mem_allFrames_wait (x : Sender) (frame : ControlFrame) (flushed : Option ℕ) :
    ∀ other ∈ x.frames ++ (x.waiting ++ [(frame, flushed)]).map Prod.fst, other = frame ∨ other ∈ x.allFrames := by
  intro other h
  simp only [List.map_append, List.map_cons, List.map_nil, List.mem_append, List.mem_singleton] at h
  simp only [allFrames, List.mem_append]
  tauto

theorem mem_allFrames_written {frame other : ControlFrame} {flushed : Option ℕ}
    {rest : List (ControlFrame × Option ℕ)} (hwaiting : x.waiting = (frame, flushed) :: rest)
    (h : other ∈ (x.frames ++ [frame]) ++ rest.map Prod.fst) : other ∈ x.allFrames := by
  rw [allFrames, hwaiting]
  simpa using h

theorem Step.framed (hstep : Step guard x y) (hplaced : x.Placed) (h : x.Framed) : y.Framed := by
  unfold Framed at h
  cases hstep with
  | write bytes => exact h.mono (List.prefix_append _ _) le_rfl h.onWire (fun _ => id) le_rfl
  | requestShutdown =>
    refine h.mono List.prefix_rfl le_rfl h.onWire (fun finalOffset htarget => ?_) le_rfl
    rw [htarget]
    rfl
  | credit maximum hmaximum => exact h.mono List.prefix_rfl le_rfl h.onWire (fun _ => id) hmaximum
  | offerCredit => exact { h with offered := by simp }
  | peerCredit maximum hmaximum hwire =>
    exact h.mono List.prefix_rfl hmaximum hwire (fun _ => id) le_rfl
  | abandon => exact h.notReady
  | abandonReleased ack => exact (h.acknowledge ack).notReady
  | release ack =>
    rw [release_eq]
    exact h.acknowledge ack
  | take => exact h.notReady
  | putBack chunk hhand => exact h.notReady
  | cut chunk hhand hcredit =>
    have hready := readyChunk_of_ready (x := { x with ready := true }) rfl hhand
    rw [Framed, hready]
    exact h.makeReady hcredit
  | split chunk length hhand hpositive hlength hcredit =>
    refine h.makeReady ?_
    rw [Outbound.stop, List.length_take, min_eq_left hlength.le]
    exact hcredit
  | handDatagram chunk replay record hhand hready hoffset hdata hfin hreplay =>
    rw [readyChunk_of_ready hready hhand] at h
    exact h.retain (hplaced.mem_of_retain hhand hreplay)
  | handStream chunk replay hhand hready hreplay =>
    rw [readyChunk_of_ready hready hhand] at h
    have hchunk := hplaced.parts chunk (by rw [pending_of_inHand hhand]; exact List.mem_cons_self)
    refine (h.retain (hplaced.mem_of_retain hhand hreplay)).addFrame _ ?_ (mem_allFrames_wait x _ _)
    exact ⟨rfl, hchunk.1, hchunk.2, h.ready chunk rfl⟩
  | requeue offset bytes htimer hfallback hnext =>
    have hentry := (OrderedMap.nextAfter_eq_some hnext).1
    refine h.addFrame _ ?_ (mem_allFrames_wait x _ _)
    exact ⟨rfl, hplaced.wellFormed.nonempty _ hentry, hplaced.replayed _ hentry, h.within _ hentry⟩
  | queueFin finalOffset hshutdown => exact h.addFrame (.fin finalOffset) hshutdown (mem_allFrames_wait x _ _)
  | acknowledge contiguous ranges => exact h.addFrame (.ack contiguous ranges) trivial (mem_allFrames_wait x _ _)
  | sendCredit maximum hcredit =>
    exact { h.addFrame (.maxOffset maximum) (h.offered maximum hcredit) (mem_allFrames_wait x _ _) with offered := by simp }
  | frameWritten frame flushed rest hwaiting =>
    exact { h with framed := fun other hother => h.framed other (mem_allFrames_written hwaiting hother) }
  | _ => exact h

def Ended (x : Sender) : Prop := Ending x.nextSendOffset x.shutdownTarget x.finQueued x.pending x.replay

theorem Step.ended (hstep : Step guard x y) (hplaced : x.Placed) (h : x.Ended) : y.Ended := by
  unfold Ended at h
  cases hstep with
  | write bytes hbytes hshutdown =>
    refine ⟨by simp [hshutdown], fun hfin => ?_⟩
    have hsome := (h.finished hfin).1
    rw [hshutdown] at hsome
    cases hsome
  | requestShutdown =>
    refine ⟨fun finalOffset hfinal => ?_, fun hfin => ⟨rfl, (h.finished hfin).2⟩⟩
    cases htarget : x.shutdownTarget with
    | none =>
      simp only [htarget, Option.getD_none, Option.mem_some_iff] at hfinal
      exact hfinal.symm
    | some target =>
      simp only [htarget, Option.getD_some, Option.mem_some_iff] at hfinal
      exact hfinal ▸ h.target target htarget
  | reset =>
    refine h.keep fun hpending hreplay => ⟨?_, hreplay⟩
    exact List.append_eq_nil_iff.mpr ⟨(List.append_eq_nil_iff.mp hpending).1, rfl⟩
  | abandon => exact h.keep fun _ hreplay => ⟨rfl, hreplay⟩
  | abandonReleased ack => exact h.keep fun _ hreplay => ⟨rfl, ReplayBuffer.acknowledge_of_empty ack hreplay⟩
  | release ack =>
    rw [release_eq]
    exact h.keep fun hpending hreplay => ⟨hpending, ReplayBuffer.acknowledge_of_empty ack hreplay⟩
  | take chunk rest hhand hhanded houtbound =>
    rw [pending_of_not_inHand hhand, houtbound] at h
    exact h
  | putBack chunk hhand =>
    rw [pending_of_inHand hhand] at h
    exact h
  | split chunk length hhand =>
    rw [pending_of_inHand hhand] at h
    exact h.keep fun hpending => by cases hpending
  | handDatagram chunk replay record hhand =>
    rw [pending_of_inHand hhand] at h
    exact h.keep fun hpending => by cases hpending
  | handStream chunk replay hhand =>
    rw [pending_of_inHand hhand] at h
    exact h.keep fun hpending => by cases hpending
  | queueFin finalOffset hshutdown hhand hhanded houtbound hreplay =>
    refine ⟨h.target, fun _ => ⟨by rw [hshutdown]; rfl, ?_, hplaced.wellFormed.bytes_eq_zero.mp hreplay⟩⟩
    exact (pending_of_not_inHand hhand).trans houtbound
  | _ => exact h

/-- What counts as retained is true while the flow lives. -/
def Accounted (x : Sender) : Prop :=
  x.live = true → Account x.nextSendOffset x.retainedBytes x.retainedChunks x.replayLimit x.chunkLimit
    x.pending x.handed x.replay

/-- The counters of a sender are what waits or is replayed. -/
def Retained (x : Sender) : Prop :=
  Retention x.retainedBytes x.retainedChunks x.replayLimit x.chunkLimit x.pending x.replay

private theorem Retained.release (h : x.Retained) (hreplay : x.replay.WellFormed) (ack : AckRanges) :
    Retention (x.release ack).retainedBytes (x.release ack).retainedChunks x.replayLimit x.chunkLimit x.pending
      (x.replay.acknowledge ack).1 := by
  obtain ⟨hnext, hbytes, hchunks⟩ := hreplay.acknowledge ack
  have hsum := h.bytes
  have hcount := h.chunks
  have hlimits := And.intro h.bytesLimit h.chunksLimit
  have hretained : (x.release ack).retainedBytes = x.retainedBytes - (x.replay.acknowledge ack).2.1 ∧
      (x.release ack).retainedChunks = x.retainedChunks - (x.replay.acknowledge ack).2.2 := by
    by_cases hzero : (x.replay.acknowledge ack).2.1 = 0
    · unfold Sender.release settleReplay
      dsimp only
      rw [if_neg (not_not.mpr hzero), hzero, hreplay.released_chunks hzero]
      split_ifs <;> exact ⟨rfl, rfl⟩
    · unfold Sender.release settleReplay
      dsimp only
      rw [if_pos hzero]
      split_ifs <;> exact ⟨rfl, rfl⟩
  exact { h with
    bytes := by omega
    chunks := by omega
    bytesLimit := by omega
    chunksLimit := by omega
    maxBytes := h.maxBytes
    maxChunks := h.maxChunks }

theorem Retained.covers (h : x.Retained) :
    (x.outbound.map (fun item => item.bytes.length)).sum ≤ x.retainedBytes ∧ x.outbound.length ≤ x.retainedChunks := by
  have hbytes := h.bytes
  have hchunks := h.chunks
  simp only [pendingBytes, pending, List.map_append, List.sum_append, List.length_append] at hbytes hchunks
  omega

theorem Step.retained (hstep : Step guard x y) (hrunning : ¬guard.stop) (hplaced : x.Placed) (h : x.Retained) :
    y.Retained := by
  unfold Retained at h
  cases hstep with
  | write bytes hbytes hshutdown hroom hchunks =>
    have hwrite := h.write x.nextSendOffset hroom hchunks
    rwa [pending, List.append_assoc] at hwrite
  | reset =>
    have hdiscard : Retention _ _ _ _ x.inHand.toList x.replay := h.discard
    rw [Retained, pending, List.append_nil]
    exact hdiscard
  | overdrawn retainedBytes hbefore hover =>
    have hcovers := Retained.covers h
    omega
  | abandon hstop => exact absurd hstop hrunning
  | abandonReleased ack hack hstop => exact absurd hstop hrunning
  | release ack =>
    rw [release_eq]
    exact Retained.release h hplaced.wellFormed ack
  | take chunk rest hhand hhanded houtbound =>
    rw [pending_of_not_inHand hhand, houtbound] at h
    exact h
  | putBack chunk hhand =>
    rw [pending_of_inHand hhand] at h
    exact h
  | split chunk length hhand hpositive hlength hcredit hchunks =>
    rw [pending_of_inHand hhand] at h
    exact h.split hlength hchunks
  | handDatagram chunk replay record hhand hready hoffset hdata hfin hreplay =>
    rw [Placed, pending_of_inHand hhand] at hplaced
    rw [pending_of_inHand hhand] at h
    exact h.retain hreplay hplaced.fresh
  | handStream chunk replay hhand hready hreplay =>
    rw [Placed, pending_of_inHand hhand] at hplaced
    rw [pending_of_inHand hhand] at h
    exact h.retain hreplay hplaced.fresh
  | _ => exact h

theorem Step.accounted (hstep : Step guard x y) (hplaced : x.Placed) (h : x.Accounted) : y.Accounted := by
  intro hlive
  cases hstep with
  | write bytes hbytes hshutdown hroom hchunks =>
    have hwrite := (h hlive).write hroom hchunks
    rwa [pending, List.append_assoc] at hwrite
  | reset => cases hlive
  | overdrawn retainedBytes hbefore hover =>
    have hcovers : _ ∧ _ := Retained.covers (x := x) (h hbefore).retention
    omega
  | fail => cases hlive
  | abandon => cases hlive
  | abandonReleased ack => cases hlive
  | release ack =>
    rw [release_eq] at hlive ⊢
    exact { Retained.release (h hlive).retention hplaced.wellFormed ack with
      last := (h hlive).last, handed := (h hlive).handed }
  | take chunk rest hhand hhanded houtbound =>
    have hcount := h hlive
    rw [pending_of_not_inHand hhand, houtbound] at hcount
    exact hcount
  | putBack chunk hhand =>
    have hcount := h hlive
    rw [pending_of_inHand hhand] at hcount
    exact hcount
  | split chunk length hhand hpositive hlength hcredit hchunks =>
    have hcount := h hlive
    rw [pending_of_inHand hhand] at hcount
    exact hcount.split hlength hchunks
  | handDatagram chunk replay record hhand hready hoffset hdata hfin hreplay =>
    have hcount := h hlive
    rw [Placed, pending_of_inHand hhand] at hplaced
    rw [pending_of_inHand hhand] at hcount
    exact hcount.retain hreplay hplaced.fresh
  | handStream chunk replay hhand hready hreplay =>
    have hcount := h hlive
    rw [Placed, pending_of_inHand hhand] at hplaced
    rw [pending_of_inHand hhand] at hcount
    exact (hcount.retain hreplay hplaced.fresh).noteHanded
  | flush => exact (h hlive).noteHanded
  | _ => exact h hlive

structure Inv (x : Sender) : Prop where
  placed : x.Placed
  framed : x.Framed
  ended : x.Ended
  accounted : x.Accounted

theorem Step.inv (hstep : Step guard x y) (h : x.Inv) : y.Inv where
  placed := hstep.placed h.placed
  framed := hstep.framed h.placed h.framed
  ended := hstep.ended h.placed h.ended
  accounted := hstep.accounted h.placed h.accounted

theorem Steps.inv (h : Steps guard x y) (hinv : x.Inv) : y.Inv := by
  induction h with
  | refl => exact hinv
  | tail _ hlast ih => exact hlast.inv ih

theorem Steps.keeps {P : Sender → Prop} (hstep : ∀ x y, Step guard x y → x.Inv → P x → P y)
    (h : Steps guard x y) (hinv : x.Inv) (hx : P x) : P y := by
  induction h with
  | refl => exact hx
  | tail hfirst hlast ih => exact hstep _ _ hlast (Steps.inv hfirst hinv) ih

end Sender

namespace Flow

variable {s t : Flow} {action : FlowAction}

theorem inHand_ne_nil (h : s.sender.Inv) : ∀ chunk ∈ s.sender.inHand, chunk.bytes ≠ [] := by
  intro chunk hchunk
  refine (h.placed.parts chunk ?_).1
  rw [Sender.pending_of_inHand hchunk]
  exact List.mem_cons_self

theorem Initial.inv (h : s.Initial) : s.sender.Inv := by
  obtain ⟨flowId, config, adaptive, connection, budget, early, rfl, _⟩ := h
  refine ⟨?_, ?_, ?_, fun _ => ?_⟩
  · refine ⟨rfl, ReplayBuffer.new_wellFormed _, List.forall_mem_nil _, List.forall_mem_nil _, fun record hrecord => ?_, .nil, List.forall_mem_nil _⟩
    by_cases hearly : early = []
    · simp [new, sender, hearly] at hrecord
    · simp only [new, sender, if_neg hearly, List.mem_singleton] at hrecord
      subst hrecord
      exact ⟨rfl, isPart_self early⟩
  · exact ⟨List.forall_mem_nil _, fun _ heq => (by cases heq), Nat.zero_le _, fun _ heq => (by cases heq), List.forall_mem_nil _⟩
  · exact ⟨fun _ heq => (by cases heq), fun heq => by cases heq⟩
  · exact ⟨rfl, rfl, Nat.zero_le _, Nat.zero_le _, config.replayValid.2, rfl, rfl, fun _ heq => (by cases heq),
      fun _ _ heq => by cases heq⟩

theorem Step.inv (hstep : s.Step action t) (h : s.sender.Inv) : t.sender.Inv := by
  obtain ⟨hallows, rfl⟩ := hstep
  have hsteps : Sender.Steps .none s.sender (s.apply action).sender :=
    apply_steps hallows (inHand_ne_nil h) (meets_none s action)
  exact hsteps.inv h

theorem inv_of_reachable (h : Reachable Initial Step s) : s.sender.Inv :=
  h.invariant (fun _ => Initial.inv) (fun _ _ _ hinv hstep => hstep.inv hinv)

end Flow

end Quicp
