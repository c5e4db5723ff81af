import Quicp.Flow.HalfClose

/-!
# What a completed flush means

The flushed offset moves when a chunk was handed to the datagram queue and when a frame was written.
-/

namespace Quicp

open Segment

def ControlFrame.streamSegment : ControlFrame → Option (ℕ × List UInt8)
  | .streamData offset _ data => some (offset, data)
  | _ => none

def streamSegments (frames : List ControlFrame) : List (ℕ × List UInt8) :=
  frames.filterMap ControlFrame.streamSegment

def recordSegments (records : List SourceRecord) : List (ℕ × List UInt8) :=
  records.map fun record => (record.offset, record.data)

/-- Frames that are written one after the other: each flushes only what is in the segments before it or in itself. -/
def Carries (segments : List (ℕ × List UInt8)) : List (ControlFrame × Option ℕ) → Prop
  | [] => True
  | (frame, flushed) :: rest =>
    (∀ limit ∈ flushed, ∀ i < limit, AnyContains (segments ++ streamSegments [frame]) i) ∧
      Carries (segments ++ streamSegments [frame]) rest

namespace Carries

variable {segments others : List (ℕ × List UInt8)} {waiting : List (ControlFrame × Option ℕ)}

theorem mono (h : Carries segments waiting) (hmem : segments ⊆ others) : Carries others waiting := by
  induction waiting generalizing segments others with
  | nil => trivial
  | cons item rest ih =>
    have hmore : segments ++ streamSegments [item.1] ⊆ others ++ streamSegments [item.1] :=
      List.append_subset.mpr ⟨List.subset_append_of_subset_left _ hmem, List.subset_append_right _ _⟩
    exact ⟨fun limit hlimit i hi => (h.1 limit hlimit i hi).mono fun _ => (hmore ·), ih h.2 hmore⟩

theorem wait (h : Carries segments waiting) {frame : ControlFrame} {flushed : Option ℕ}
    (hflushed : ∀ limit ∈ flushed, ∀ i < limit,
      AnyContains (segments ++ streamSegments (waiting.map Prod.fst ++ [frame])) i) :
    Carries segments (waiting ++ [(frame, flushed)]) := by
  induction waiting generalizing segments with
  | nil => exact ⟨hflushed, trivial⟩
  | cons item rest ih =>
    refine ⟨h.1, ih h.2 fun limit hlimit i hi => ?_⟩
    have hsame : segments ++ streamSegments ((item :: rest).map Prod.fst ++ [frame]) =
        segments ++ streamSegments [item.1] ++ streamSegments (rest.map Prod.fst ++ [frame]) := by
      rw [List.append_assoc, streamSegments, streamSegments, streamSegments, ← List.filterMap_append]
      rfl
    exact hsame ▸ hflushed limit hlimit i hi

end Carries

namespace Sender

variable {guard : SenderGuard} {x y : Sender} {offset : ℕ}

/-- Nothing that is still to be handed over or noted lies below an offset. -/
structure Below (offset : ℕ) (x : Sender) : Prop where
  written : offset ≤ x.nextSendOffset
  pending : ∀ chunk ∈ x.pending, offset ≤ chunk.offset
  handed : ∀ limit ∈ x.handed, offset ≤ limit

private theorem Below.pending_le (h : x.Below offset) {chunks : List Outbound} (hchunks : chunks ⊆ x.pending) :
    ∀ chunk ∈ chunks, offset ≤ chunk.offset :=
  fun chunk hchunk => h.pending chunk (hchunks hchunk)

theorem Step.below (hstep : Step guard x y) (h : x.Below offset) : y.Below offset := by
  have htail : ∀ {chunk : Outbound}, x.inHand = some chunk → ∀ other ∈ x.outbound, offset ≤ other.offset :=
    fun hhand => h.pending_le (by rw [pending_of_inHand hhand]; exact List.subset_cons_self _ _)
  cases hstep with
  | write bytes =>
    refine ⟨h.written.trans (Nat.le_add_right _ _), fun chunk hchunk => ?_, h.handed⟩
    rw [pending, ← List.append_assoc] at hchunk
    rcases List.mem_append.mp hchunk with hold | hnew
    · exact h.pending chunk hold
    · rw [List.mem_singleton.mp hnew]
      exact h.written
  | reset => exact ⟨h.written, h.pending_le (List.append_subset.mpr ⟨List.subset_append_left _ _, List.nil_subset _⟩), h.handed⟩
  | abandon => exact ⟨h.written, List.forall_mem_nil _, fun _ heq => by cases heq⟩
  | abandonReleased => exact ⟨h.written, List.forall_mem_nil _, fun _ heq => by cases heq⟩
  | release ack =>
    rw [release_eq]
    exact ⟨h.written, h.pending, h.handed⟩
  | take chunk rest hhand hhanded houtbound =>
    refine ⟨h.written, ?_, h.handed⟩
    have hpending := h.pending
    rwa [pending_of_not_inHand hhand, houtbound] at hpending
  | putBack chunk hhand =>
    refine ⟨h.written, ?_, h.handed⟩
    have hpending := h.pending
    rwa [pending_of_inHand hhand] at hpending
  | split chunk length hhand =>
    have hchunk := h.pending chunk (by rw [pending_of_inHand hhand]; exact List.mem_cons_self)
    refine ⟨h.written, fun other hother => ?_, h.handed⟩
    rcases List.mem_cons.mp hother with rfl | hother
    · exact hchunk
    · rcases List.mem_cons.mp hother with rfl | hother
      · exact hchunk.trans (Nat.le_add_right _ _)
      · exact htail hhand other hother
  | handDatagram chunk replay record hhand =>
    have hchunk := h.pending chunk (by rw [pending_of_inHand hhand]; exact List.mem_cons_self)
    refine ⟨h.written, htail hhand, fun limit hlimit => ?_⟩
    cases hlimit
    exact hchunk.trans (Nat.le_add_right _ _)
  | handStream chunk replay hhand => exact ⟨h.written, htail hhand, fun _ heq => by cases heq⟩
  | flush => exact ⟨h.written, h.pending, (by simp)⟩
  | _ => exact ⟨h.written, h.pending, h.handed⟩

/-- What is flushed, about to be noted or about to be written lies below what is to come. -/
structure Ahead (x : Sender) : Prop where
  flushed : x.Below x.flushedOffset
  handed : ∀ limit ∈ x.handed, x.Below limit
  waiting : ∀ item ∈ x.waiting, ∀ limit ∈ item.2, x.Below limit
  replayed : ∀ entry ∈ x.replay.chunks.entries, ∀ limit ∈ x.handed, stop entry ≤ limit

private theorem Placed.stop_le_rest (h : x.Placed) {chunk : Outbound} (hhand : x.inHand = some chunk) :
    chunk.stop ≤ x.nextSendOffset ∧ ∀ other ∈ x.outbound, chunk.stop ≤ other.offset := by
  rw [Placed, pending_of_inHand hhand] at h
  refine ⟨h.stop_le List.mem_cons_self, fun other hother => ?_⟩
  exact (List.pairwise_cons.mp h.ordered).1 other.segment (List.mem_map_of_mem hother)

private theorem Ahead.keep (h : x.Ahead) (hbelow : ∀ offset, x.Below offset → y.Below offset)
    (hflushed : y.flushedOffset = x.flushedOffset) (hhanded : ∀ limit ∈ y.handed, limit ∈ x.handed)
    (hwaiting : ∀ item ∈ y.waiting, item.2.isSome = true → item ∈ x.waiting)
    (hreplay : ∀ entry ∈ y.replay.chunks.entries, entry ∈ x.replay.chunks.entries) : y.Ahead where
  flushed := by rw [hflushed]; exact hbelow _ h.flushed
  handed := fun limit hlimit => hbelow limit (h.handed limit (hhanded limit hlimit))
  waiting := fun item hitem limit hlimit =>
    hbelow limit (h.waiting item (hwaiting item hitem (Option.isSome_iff_exists.mpr ⟨limit, hlimit⟩)) limit hlimit)
  replayed := fun entry hentry limit hlimit => h.replayed entry (hreplay entry hentry) limit (hhanded limit hlimit)

private theorem mem_waiting_of_isSome {waiting : List (ControlFrame × Option ℕ)} {frame : ControlFrame}
    {item : ControlFrame × Option ℕ} (hitem : item ∈ waiting ++ [(frame, none)]) (hsome : item.2.isSome = true) :
    item ∈ waiting := by
  rcases List.mem_append.mp hitem with hold | hnew
  · exact hold
  · rw [List.mem_singleton.mp hnew] at hsome
    cases hsome

theorem Step.ahead (hstep : Step guard x y) (hplaced : x.Placed) (h : x.Ahead) : y.Ahead := by
  have hbelow : ∀ offset, x.Below offset → y.Below offset := fun _ => hstep.below
  cases hstep with
  | abandon => exact h.keep hbelow rfl nofun (fun _ hitem _ => hitem) (fun _ => id)
  | abandonReleased ack =>
    exact h.keep hbelow rfl nofun (fun _ hitem _ => hitem) (fun _ => ReplayBuffer.mem_of_mem_acknowledge)
  | release ack =>
    rw [release_eq] at hbelow ⊢
    exact h.keep hbelow rfl (fun _ => id) (fun _ hitem _ => hitem) (fun _ => ReplayBuffer.mem_of_mem_acknowledge)
  | handDatagram chunk replay record hhand hready hoffset hdata hfin hreplay =>
    obtain ⟨hwritten, hrest⟩ := hplaced.stop_le_rest hhand
    refine ⟨hbelow _ h.flushed, fun limit hlimit => ?_, fun item hitem limit hlimit =>
      hbelow limit (h.waiting item hitem limit hlimit), fun entry hentry limit hlimit => ?_⟩
    · cases hlimit
      refine ⟨hwritten, hrest, fun other hother => ?_⟩
      cases hother
      exact le_rfl
    · cases hlimit
      rcases hplaced.mem_of_retain hhand hreplay entry hentry with rfl | hold
      · exact le_rfl
      · have hbefore := hplaced.ahead entry hold chunk (by rw [pending_of_inHand hhand]; exact List.mem_cons_self)
        exact hbefore.trans (Nat.le_add_right _ _)
  | handStream chunk replay hhand hready hreplay =>
    obtain ⟨hwritten, hrest⟩ := hplaced.stop_le_rest hhand
    refine ⟨hbelow _ h.flushed, nofun, fun item hitem limit hlimit => ?_, nofun⟩
    rcases List.mem_append.mp hitem with hold | hnew
    · exact hbelow limit (h.waiting item hold limit hlimit)
    · rw [List.mem_singleton.mp hnew] at hlimit
      cases hlimit
      exact ⟨hwritten, hrest, nofun⟩
  | flush limit hhanded hguard =>
    refine ⟨hbelow _ ?_, nofun, fun item hitem other hother => hbelow other (h.waiting item hitem other hother), nofun⟩
    dsimp only
    split
    · exact h.handed limit hhanded
    · exact h.flushed
  | requeue entryOffset bytes htimer hfallback hnext =>
    have hentry := (OrderedMap.nextAfter_eq_some hnext).1
    refine ⟨hbelow _ h.flushed, fun limit hlimit => hbelow limit (h.handed limit hlimit),
      fun item hitem limit hlimit => ?_, h.replayed⟩
    rcases List.mem_append.mp hitem with hold | hnew
    · exact hbelow limit (h.waiting item hold limit hlimit)
    · rw [List.mem_singleton.mp hnew] at hlimit
      cases hlimit
      exact ⟨hplaced.replayed_stop_le hentry, fun chunk hchunk => hplaced.ahead _ hentry chunk hchunk,
        fun limit hlimit => h.replayed _ hentry limit hlimit⟩
  | queueFin => exact h.keep hbelow rfl (fun _ => id) (fun _ => mem_waiting_of_isSome) (fun _ => id)
  | acknowledge => exact h.keep hbelow rfl (fun _ => id) (fun _ => mem_waiting_of_isSome) (fun _ => id)
  | sendCredit => exact h.keep hbelow rfl (fun _ => id) (fun _ => mem_waiting_of_isSome) (fun _ => id)
  | frameWritten frame flushed rest hwaiting =>
    refine ⟨hbelow _ ?_, fun limit hlimit => hbelow limit (h.handed limit hlimit), fun item hitem limit hlimit => ?_,
      h.replayed⟩
    · cases flushed with
      | none => exact h.flushed
      | some limit =>
        have hlimit := h.waiting (frame, some limit) (by rw [hwaiting]; exact List.mem_cons_self) limit rfl
        exact ⟨max_le h.flushed.written hlimit.written,
          fun chunk hchunk => max_le (h.flushed.pending chunk hchunk) (hlimit.pending chunk hchunk),
          fun other hother => max_le (h.flushed.handed other hother) (hlimit.handed other hother)⟩
    · exact hbelow limit (h.waiting item (by rw [hwaiting]; exact List.mem_cons_of_mem _ hitem) limit hlimit)
  | _ => exact h.keep hbelow rfl (fun _ => id) (fun _ hitem _ => hitem) (fun _ => id)

theorem Step.flushedOffset_le (hstep : Step guard x y) (h : x.Ahead) : x.flushedOffset ≤ y.flushedOffset := by
  cases hstep with
  | release ack =>
    rw [release_eq]
  | flush limit hhanded hguard =>
    dsimp only
    split
    · exact h.flushed.handed limit hhanded
    · exact le_rfl
  | frameWritten frame flushed rest hwaiting =>
    cases flushed with
    | none => exact le_rfl
    | some limit => exact le_max_left _ _
  | _ => exact le_rfl

/-- A byte is in a record, or in a frame of stream data of a sender that has given up datagrams. -/
def Out (x : Sender) (i : ℕ) : Prop :=
  AnyContains (recordSegments x.sources) i ∨ x.datagrams = false ∧ AnyContains (streamSegments x.allFrames) i

/-- Every written byte is out or waits; what was handed over as a datagram is in records; what is flushed, or will be
when a frame is written, is in records and frames that are written by then. -/
structure FlushedOut (x : Sender) : Prop where
  covered : ∀ i < x.nextSendOffset, x.Out i ∨ AnyContains (x.pending.map Outbound.segment) i
  handed : ∀ limit ∈ x.handed, ∀ i < limit, AnyContains (recordSegments x.sources) i
  waiting : Carries (recordSegments x.sources ++ streamSegments x.frames) x.waiting
  flushed : ∀ i < x.flushedOffset, AnyContains (recordSegments x.sources ++ streamSegments x.frames) i

private theorem FlushedOut.addSource (h : x.FlushedOut) (record : SourceRecord) :
    FlushedOut { x with sources := x.sources ++ [record] } := by
  have hrecords : recordSegments x.sources ⊆ recordSegments (x.sources ++ [record]) := by
    rw [recordSegments, recordSegments, List.map_append]
    exact List.subset_append_left _ _
  have hall : recordSegments x.sources ++ streamSegments x.frames ⊆
      recordSegments (x.sources ++ [record]) ++ streamSegments x.frames :=
    List.append_subset.mpr ⟨List.subset_append_of_subset_left _ hrecords, List.subset_append_right _ _⟩
  exact
    { covered := fun i hi => (h.covered i hi).imp_left (Or.imp_left (·.mono fun _ => (hrecords ·)))
      handed := fun limit hlimit i hi => (h.handed limit hlimit i hi).mono fun _ => (hrecords ·)
      waiting := h.waiting.mono hall
      flushed := fun i hi => (h.flushed i hi).mono fun _ => (hall ·) }

private theorem FlushedOut.wait (h : x.FlushedOut) (frame : ControlFrame) (flushed : Option ℕ)
    (hflushed : ∀ limit ∈ flushed, ∀ i < limit,
      AnyContains (recordSegments x.sources ++ streamSegments (x.allFrames ++ [frame])) i) :
    FlushedOut { x with waiting := x.waiting ++ [(frame, flushed)] } := by
  have hframes : allFrames { x with waiting := x.waiting ++ [(frame, flushed)] } = x.allFrames ++ [frame] := by
    rw [allFrames, allFrames, List.map_append, ← List.append_assoc]
    rfl
  refine ⟨fun i hi => (h.covered i hi).imp_left (Or.imp_right fun hout => ⟨hout.1, ?_⟩), h.handed,
    h.waiting.wait fun limit hlimit i hi => ?_, h.flushed⟩
  · rw [hframes, streamSegments, List.filterMap_append]
    exact anyContains_append.mpr (Or.inl hout.2)
  · have hout := hflushed limit hlimit i hi
    rwa [allFrames, List.append_assoc, streamSegments, List.filterMap_append, ← List.append_assoc] at hout

private theorem FlushedOut.frameWritten (h : x.FlushedOut) {frame : ControlFrame} {flushed : Option ℕ}
    {rest : List (ControlFrame × Option ℕ)} (hwaiting : x.waiting = (frame, flushed) :: rest) :
    FlushedOut { x with
      waiting := rest, frames := x.frames ++ [frame], flushedOffset := flushTo x.flushedOffset flushed } := by
  have hcarries := h.waiting
  rw [hwaiting] at hcarries
  have hsegments : recordSegments x.sources ++ streamSegments (x.frames ++ [frame]) =
      recordSegments x.sources ++ streamSegments x.frames ++ streamSegments [frame] := by
    rw [streamSegments, List.filterMap_append, ← List.append_assoc]
    rfl
  have hframes : allFrames { x with
      waiting := rest, frames := x.frames ++ [frame], flushedOffset := flushTo x.flushedOffset flushed } =
      x.allFrames := by
    rw [allFrames, allFrames, hwaiting, List.map_cons, List.append_assoc]
    rfl
  refine ⟨?_, h.handed, ?_, fun i hi => ?_⟩
  · intro i hi
    rw [Out, hframes]
    exact h.covered i hi
  · dsimp only
    rw [hsegments]
    exact hcarries.2
  · dsimp only
    rw [hsegments]
    have hold : i < x.flushedOffset →
        AnyContains (recordSegments x.sources ++ streamSegments x.frames ++ streamSegments [frame]) i :=
      fun hbefore => anyContains_append.mpr (Or.inl (h.flushed i hbefore))
    cases flushed with
    | none => exact hold hi
    | some limit => exact (lt_max_iff.mp hi).elim hold (hcarries.1 limit rfl i)

private theorem FlushedOut.giveUp (h : x.FlushedOut) : FlushedOut { x with datagrams := false } :=
  { h with covered := fun i hi => (h.covered i hi).imp_left (Or.imp_right fun hout => ⟨rfl, hout.2⟩) }

private theorem FlushedOut.out (h : x.FlushedOut) {i : ℕ} (hwritten : i < x.nextSendOffset)
    (hpending : ∀ chunk ∈ x.pending, i < chunk.offset) : x.Out i := by
  rcases h.covered i hwritten with hout | ⟨segment, hsegment, hstart, _⟩
  · exact hout
  · obtain ⟨chunk, hchunk, rfl⟩ := List.mem_map.mp hsegment
    exact absurd (hpending chunk hchunk) (not_lt.mpr hstart)

private theorem Out.contains {i : ℕ} (h : x.Out i) (frame : ControlFrame) :
    AnyContains (recordSegments x.sources ++ streamSegments (x.allFrames ++ [frame])) i := by
  rw [streamSegments, List.filterMap_append]
  rcases h with hrecord | ⟨_, hframe⟩
  · exact anyContains_append.mpr (Or.inl hrecord)
  · exact anyContains_append.mpr (Or.inr (anyContains_append.mpr (Or.inl hframe)))

private theorem FlushedOut.handOver (h : x.FlushedOut) (hplaced : x.Placed) {chunk : Outbound}
    (hhand : x.inHand = some chunk) {i : ℕ} (hi : i < chunk.stop) : x.Out i ∨ AnyContains [chunk.segment] i := by
  by_cases hinside : chunk.offset ≤ i
  · exact Or.inr ⟨chunk.segment, List.mem_cons_self, hinside, hi⟩
  · obtain ⟨hwritten, hrest⟩ := hplaced.stop_le_rest hhand
    refine Or.inl (h.out (hi.trans_le hwritten) fun other hother => ?_)
    rw [pending_of_inHand hhand] at hother
    rcases List.mem_cons.mp hother with rfl | hother
    · exact not_le.mp hinside
    · exact hi.trans_le (hrest other hother)

private theorem FlushedOut.leave (h : x.FlushedOut) {chunk : Outbound} (hhand : x.inHand = some chunk)
    (hout : ∀ i, AnyContains [chunk.segment] i → x.Out i) :
    ∀ i < x.nextSendOffset, x.Out i ∨ AnyContains (x.outbound.map Outbound.segment) i := by
  intro i hi
  rcases h.covered i hi with hbefore | hcontains
  · exact Or.inl hbefore
  · rw [pending_of_inHand hhand] at hcontains
    have hsplit : AnyContains ([chunk.segment] ++ x.outbound.map Outbound.segment) i := hcontains
    exact (anyContains_append.mp hsplit).imp_left (hout i)

theorem Step.flushedOut (hstep : Step guard x y) (hplaced : x.Placed) (h : x.live = true → x.FlushedOut)
    (hlive : y.live = true) : y.FlushedOut := by
  cases hstep with
  | write bytes =>
    refine { h hlive with covered := fun i hi => ?_ }
    by_cases hold : i < x.nextSendOffset
    · refine ((h hlive).covered i hold).imp_right (·.mono fun segment hsegment => ?_)
      simp only [pending, List.map_append, List.mem_append] at hsegment ⊢
      tauto
    · refine Or.inr ⟨(x.nextSendOffset, bytes), ?_, not_lt.mp hold, hi⟩
      simp [pending, Outbound.segment]
  | reset => cases hlive
  | fail => cases hlive
  | abandon => cases hlive
  | abandonReleased => cases hlive
  | release ack =>
    rw [release_eq] at hlive ⊢
    exact ⟨(h hlive).covered, (h hlive).handed, (h hlive).waiting, (h hlive).flushed⟩
  | switchOff => exact (h hlive).giveUp
  | take chunk rest hhand hhanded houtbound =>
    refine { h hlive with covered := ?_ }
    have hcovered := (h hlive).covered
    rwa [pending_of_not_inHand hhand, houtbound] at hcovered
  | putBack chunk hhand =>
    refine { h hlive with covered := ?_ }
    have hcovered := (h hlive).covered
    rwa [pending_of_inHand hhand] at hcovered
  | split chunk length hhand hpositive hlength =>
    refine { h hlive with covered := fun i hi => ?_ }
    have hcovered := (h hlive).covered i hi
    rw [pending_of_inHand hhand] at hcovered
    exact hcovered.imp_right (anyContains_split hlength)
  | handDatagram chunk replay record hhand hready hoffset hdata hfin hreplay hdatagrams =>
    have hadded := (h hlive).addSource record
    have hsegment : recordSegments [record] = [chunk.segment] := by
      rw [recordSegments, List.map_singleton, hoffset, hdata]
      rfl
    have hrecords : recordSegments (x.sources ++ [record]) = recordSegments x.sources ++ [chunk.segment] := by
      rw [recordSegments, List.map_append, ← recordSegments, ← recordSegments, hsegment]
    refine ⟨hadded.leave hhand fun i hcontains => Or.inl ?_, fun limit hlimit i hi => ?_, hadded.waiting, hadded.flushed⟩
    · rw [hrecords]
      exact anyContains_append.mpr (Or.inr hcontains)
    · cases hlimit
      rw [hrecords]
      refine anyContains_append.mpr (((h hlive).handOver hplaced hhand hi).imp_left fun hout => ?_)
      exact hout.resolve_right fun hoff => Bool.false_ne_true (hoff.1.symm.trans hdatagrams)
  | handStream chunk replay hhand hready hreplay hdatagrams =>
    have hadded := (h hlive).wait (.streamData chunk.offset false chunk.bytes) (some chunk.stop) (by
      rintro limit ⟨⟩ i hi
      rcases (h hlive).handOver hplaced hhand hi with hout | hcontains
      · exact hout.contains _
      · rw [streamSegments, List.filterMap_append]
        exact anyContains_append.mpr (Or.inr (anyContains_append.mpr (Or.inr hcontains))))
    refine ⟨hadded.leave hhand fun i hcontains => Or.inr ⟨hdatagrams, ?_⟩, fun _ heq => (by cases heq), hadded.waiting, hadded.flushed⟩
    have hframes : allFrames { x with waiting := x.waiting ++ [(.streamData chunk.offset false chunk.bytes, some chunk.stop)] } =
        x.allFrames ++ [.streamData chunk.offset false chunk.bytes] := by
      rw [allFrames, allFrames, List.map_append, ← List.append_assoc]
      rfl
    rw [hframes, streamSegments, List.filterMap_append]
    exact anyContains_append.mpr (Or.inr hcontains)
  | lostSource chunk record => exact (h hlive).addSource record
  | flush limit hhanded hguard =>
    refine ⟨(h hlive).covered, (by simp), (h hlive).waiting, fun i hi => ?_⟩
    dsimp only at hi
    split at hi
    · exact anyContains_append.mpr (Or.inl ((h hlive).handed limit hhanded i hi))
    · exact (h hlive).flushed i hi
  | resend entryOffset bytes record =>
    have hadded := (h hlive).addSource record
    exact ⟨hadded.covered, hadded.handed, hadded.waiting, hadded.flushed⟩
  | requeue entryOffset bytes htimer hfallback hnext =>
    have hentry := (OrderedMap.nextAfter_eq_some hnext).1
    have hadded := (h hlive).wait (.streamData entryOffset false bytes) (some (entryOffset + bytes.length)) (by
      rintro limit ⟨⟩ i hi
      refine ((h hlive).out (hi.trans_le (hplaced.replayed_stop_le hentry)) fun chunk hchunk => ?_).contains _
      exact hi.trans_le (hplaced.ahead _ hentry chunk hchunk))
    exact ⟨hadded.covered, hadded.handed, hadded.waiting, hadded.flushed⟩
  | fallbackDone =>
    have hoff := (h hlive).giveUp
    exact ⟨hoff.covered, hoff.handed, hoff.waiting, hoff.flushed⟩
  | queueFin finalOffset =>
    have hadded := (h hlive).wait (.fin finalOffset) none (by simp)
    exact ⟨hadded.covered, hadded.handed, hadded.waiting, hadded.flushed⟩
  | acknowledge contiguous ranges => exact (h hlive).wait (.ack contiguous ranges) none (by simp)
  | sendCredit maximum =>
    have hadded := (h hlive).wait (.maxOffset maximum) none (by simp)
    exact ⟨hadded.covered, hadded.handed, hadded.waiting, hadded.flushed⟩
  | frameWritten frame flushed rest hwaiting => exact (h hlive).frameWritten hwaiting
  | _ => exact ⟨(h hlive).covered, (h hlive).handed, (h hlive).waiting, (h hlive).flushed⟩

end Sender

namespace Flow

variable {s : Flow}

/-- The byte at an offset is in a record that the datagram queue took, or in a stream data frame that was written. -/
def WentOut (s : Flow) (i : ℕ) : Prop :=
  ∃ a, s.history.written[i]? = some a ∧
    ((∃ record ∈ s.history.sources, elementAt (record.offset, record.data) i = some a) ∨
      ∃ offset last data, .streamData offset last data ∈ s.history.frames ∧ elementAt (offset, data) i = some a)

private theorem wentOut_of_contains (hinv : s.sender.Inv) {i : ℕ}
    (h : AnyContains (recordSegments s.history.sources ++ streamSegments s.history.frames) i) : s.WentOut i := by
  obtain ⟨segment, hsegment, hstart, hstop⟩ := h
  obtain ⟨a, ha⟩ := Option.isSome_iff_exists.mp ((elementAt_isSome_iff segment i).mpr ⟨hstart, hstop⟩)
  rcases List.mem_append.mp hsegment with hrecord | hframe
  · obtain ⟨record, hmem, rfl⟩ := List.mem_map.mp hrecord
    exact ⟨a, (hinv.placed.sourced record hmem).2 i a ha, Or.inl ⟨record, hmem, ha⟩⟩
  · obtain ⟨frame, hmem, hcarries⟩ := List.mem_filterMap.mp hframe
    cases frame with
    | streamData offset last data =>
      cases hcarries
      have htrue := hinv.framed.framed _ (List.mem_append_left _ hmem)
      exact ⟨a, htrue.2.2.1 i a ha, Or.inr ⟨offset, last, data, hmem, ha⟩⟩
    | _ => cases hcarries

private theorem Initial.flushedOut (h : s.Initial) : s.sender.Ahead ∧ s.sender.FlushedOut := by
  obtain ⟨flowId, config, adaptive, connection, budget, early, rfl, _⟩ := h
  have hfirst : ∀ i < early.length,
      AnyContains (recordSegments (if early = [] then [] else [⟨flowId, 0, false, early⟩])) i := by
    intro i hi
    rw [if_neg (List.ne_nil_of_length_pos (Nat.zero_lt_of_lt hi))]
    exact ⟨(0, early), List.mem_cons_self, Nat.zero_le i, by rw [Segment.stop, Nat.zero_add]; exact hi⟩
  have hbelow : (Flow.new flowId config adaptive connection budget early).sender.Below early.length :=
    ⟨le_rfl, List.forall_mem_nil _, fun _ heq => (by cases heq)⟩
  exact ⟨⟨hbelow, fun _ heq => (by cases heq), List.forall_mem_nil _, List.forall_mem_nil _⟩,
    fun i hi => Or.inl (Or.inl (hfirst i hi)), fun _ heq => (by cases heq), trivial,
    fun i hi => anyContains_append.mpr (Or.inl (hfirst i hi))⟩

private theorem flush_of_reachable (h : Reachable Initial Step s) :
    s.sender.Ahead ∧ (s.sender.live = true → s.sender.FlushedOut) := by
  have hinv : s.sender.Inv ∧ s.sender.Ahead ∧ (s.sender.live = true → s.sender.FlushedOut) := by
    refine h.invariant (P := fun s : Flow => s.sender.Inv ∧ s.sender.Ahead ∧ (s.sender.live = true → s.sender.FlushedOut))
      (fun x hstart => ⟨hstart.inv, hstart.flushedOut.1, fun _ => hstart.flushedOut.2⟩) (fun x action y hx hstep => ?_)
    obtain ⟨hallows, rfl⟩ := hstep
    have hsteps := apply_steps hallows (inHand_ne_nil hx.1) (meets_none x action)
    refine ⟨hsteps.inv hx.1, ?_, ?_⟩
    · exact hsteps.keeps (fun _ _ hlast hz => hlast.ahead hz.placed) hx.1 hx.2.1
    · exact hsteps.keeps (fun _ _ hlast hz => hlast.flushedOut hz.placed) hx.1 hx.2.2
  exact hinv.2

/-- In every state of every run of a live flow each byte below the flushed offset is in a record that the datagram
queue took or in a stream data frame that was written whole, with the value that was written. The flushed offset never
moves back, and a flush is done only if all bytes that were accepted went out in this way. -/
theorem flush_sound (h : Reachable Initial Step s) (hlive : s.Live) :
    (∀ i < s.shared.flushedOffset, s.WentOut i) ∧
      (∀ action t, s.Step action t → s.shared.flushedOffset ≤ t.shared.flushedOffset) ∧
      (s.shared.requestFlush.1 = .ok true → ∀ i < s.history.written.length, s.WentOut i) := by
  have hinv := inv_of_reachable h
  obtain ⟨hahead, hflushed⟩ := flush_of_reachable h
  have hout : ∀ i < s.shared.flushedOffset, s.WentOut i := fun i hi =>
    wentOut_of_contains hinv ((hflushed (by rw [sender, hlive.1, hlive.2]; rfl)).flushed i hi)
  refine ⟨hout, ?_, fun hdone i hi => hout i ?_⟩
  · rintro action t ⟨hallows, rfl⟩
    have hsteps := apply_steps hallows (inHand_ne_nil hinv) (meets_none s action)
    have hmoves := hsteps.keeps (P := fun z => z.Ahead ∧ s.shared.flushedOffset ≤ z.flushedOffset)
      (fun _ _ hlast hz hkept => ⟨hlast.ahead hz.placed hkept.1, hkept.2.trans (hlast.flushedOffset_le hkept.1)⟩)
      hinv ⟨hahead, le_rfl⟩
    exact hmoves.2
  · rw [FlowShared.requestFlush, hlive.1] at hdone
    have hreached : s.shared.flushedOffset ≥ s.shared.nextSendOffset := of_decide_eq_true (Except.ok.inj hdone)
    exact hi.trans_le (hinv.placed.length.ge.trans hreached)

def flushedRun : List FlowAction :=
  [.enqueue [7], .requestFlush, .control (.maxOffset 100)] ++ handOver

theorem flush_sound_byte :
    ((sample true).run flushedRun).shared.requestFlush.1 = .ok true ∧ ((sample true).run flushedRun).WentOut 0 := by
  have hrun : Reachable.Permits Allows apply (sample true) flushedRun := by decide +kernel
  have hdone : ((sample true).run flushedRun).shared.requestFlush.1 = .ok true := by decide +kernel
  have hsound := flush_sound (Reachable.run (fun _ _ h => ⟨h, rfl⟩) (.start (sample_initial true)) hrun)
    ⟨by decide +kernel, by decide +kernel⟩
  exact ⟨hdone, hsound.2.2 hdone 0 (by decide +kernel)⟩

end Flow

end Quicp
