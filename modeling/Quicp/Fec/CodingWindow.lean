import Quicp.Fec.Emitter
import Quicp.Fec.Honest
import Quicp.Library.Reachable

/-!
# The coding window of a connection

Flows queue sources, the driver records those that went out, and repairs are made of the recorded ones, each under a
lock of its own. The steps here are those between two locks.
-/

namespace Quicp

def sourcesOf (datagrams : List OutboundDatagram) : List (UInt32 × List UInt8) :=
  datagrams.filterMap fun
    | .source symbolId bytes => some (symbolId, bytes)
    | .repair _ => none

theorem sourcesOf_append (datagrams later : List OutboundDatagram) :
    sourcesOf (datagrams ++ later) = sourcesOf datagrams ++ sourcesOf later := List.filterMap_append ..

/-- The sources whose identifiers follow one another and wrap around. -/
def Consecutive (sources : List (UInt32 × List UInt8)) : Prop :=
  (sources.map Prod.fst).IsChain fun id next => next = id + 1

instance (sources : List (UInt32 × List UInt8)) : Decidable (Consecutive sources) :=
  inferInstanceAs (Decidable (List.IsChain _ _))

theorem Consecutive.part {sources part : List (UInt32 × List UInt8)} (h : Consecutive sources)
    (hpart : part <:+: sources) : Consecutive part := List.IsChain.infix h (hpart.map _)

theorem Consecutive.eq_spanIds {first : UInt32} {bytes : List UInt8} {later : List (UInt32 × List UInt8)}
    (h : Consecutive ((first, bytes) :: later)) :
    ((first, bytes) :: later).map Prod.fst = spanIds (later.length + 1) first := by
  induction later generalizing first bytes with
  | nil => rfl
  | cons next rest ih =>
    obtain ⟨hnext, hrest⟩ := List.isChain_cons_cons.mp h
    rw [List.map_cons, ih hrest, List.length_cons, hnext]
    rfl

/-- The sources that `send_tail_repairs` combines. -/
def Emitter.repairWindow (e : Emitter) : List (UInt32 × List UInt8) :=
  e.sources.drop (e.sources.length - min e.maxSpan e.sources.length)

def repairOf (repairId : UInt32) : List (UInt32 × List UInt8) → Option (List UInt8)
  | [] => none
  | (first, bytes) :: later =>
    let payloads := bytes :: later.map Prod.snd
    match repairSymbol first repairId (repairSeed first) payloads with
    | .error _ => none
    | .ok coded =>
      if payloads.length > u16Max ∨ coded.length > u16Max then none
      else
        match encodeRepair ⟨repairId, first, payloads.length, coded.length, repairSeed first, coded⟩ with
        | .error _ => none
        | .ok encoded => some encoded

/-- A sender between two locks: the datagram that went out and is not recorded yet, the windows that
producers of repairs copied, the repairs that they made of them, and all datagrams that went out. -/
structure CodingRun where
  emitter : Emitter
  recording : Option OutboundDatagram
  windows : List (List (UInt32 × List UInt8))
  made : List (List UInt8)
  done : List OutboundDatagram
  deriving DecidableEq, Repr

namespace CodingRun

inductive Action
  | sendSource (record : SourceRecord)
  | readWindow
  | makeRepair (window : List (UInt32 × List UInt8))
  | pushRepair (encoded : List UInt8)
  | take
  | sent
  | record
  | failed (error : SendDatagramError)
  | stop
  | disable
  deriving DecidableEq, Repr

def apply (r : CodingRun) : Action → CodingRun
  | .sendSource record => { r with emitter := r.emitter.apply (.sendSource record) }
  | .readWindow => { r with windows := r.emitter.repairWindow :: r.windows }
  | .makeRepair window =>
    { r with
      emitter := { r.emitter with nextRepair := r.emitter.nextRepair + 1 }
      made := (repairOf r.emitter.nextRepair window).toList ++ r.made }
  | .pushRepair encoded =>
    if r.emitter.connection.datagramEnabled = true ∧
        r.emitter.connection.pending.length ≠ r.emitter.connection.capacity then
      { r with emitter := { r.emitter with connection :=
        { r.emitter.connection with pending := r.emitter.connection.pending ++ [.repair encoded] } } }
    else r
  | .take => { r with emitter := r.emitter.apply .take }
  | .sent =>
    match r.emitter.sending with
    | none => r
    | some datagram =>
      { r with
        emitter := { r.emitter with sending := none, emitted := r.emitter.emitted ++ [datagram.bytes] }
        recording := some datagram
        done := r.done ++ [datagram] }
  | .record =>
    match r.recording with
    | none => r
    | some datagram => { r with emitter := r.emitter.recordSent datagram, recording := none }
  | .failed error => { r with emitter := r.emitter.handleSendError error }
  | .stop => { r with emitter := { r.emitter with sending := none, running := false } }
  | .disable => { r with emitter := r.emitter.disableDatagrams }

def Allows (r : CodingRun) : Action → Prop
  | .sendSource record => record.data ≠ [] ∧ record.offset + record.data.length ≤ maxWireOffset ∧
      record.data.length ≤ r.emitter.connection.maxSourcePayload none
  | .readWindow => 2 ≤ r.emitter.sources.length
  | .makeRepair window => window ∈ r.windows
  | .pushRepair encoded => encoded ∈ r.made
  | .take => r.emitter.running = true ∧ r.emitter.sending = none ∧ r.recording = none ∧
      r.emitter.connection.pending ≠ []
  | .sent | .failed _ => r.emitter.running = true ∧ r.recording = none ∧ r.emitter.sending ≠ none
  | .record => r.emitter.running = true ∧ r.recording ≠ none
  | _ => True

instance (r : CodingRun) (action : Action) : Decidable (r.Allows action) := by
  cases action <;> unfold Allows <;> infer_instance

def Step (r : CodingRun) (action : Action) (s : CodingRun) : Prop := r.Allows action ∧ s = r.apply action

structure Initial (r : CodingRun) : Prop where
  emitter : r.emitter.Initial
  recording : r.recording = none
  windows : r.windows = []
  made : r.made = []
  done : r.done = []

theorem queueRepairs_succ (first : UInt32) (bytes : List UInt8) (later : List (UInt32 × List UInt8)) (limit : ℕ)
    (e : Emitter) : (Emitter.queueRepairs first (bytes :: later.map Prod.snd) (limit + 1) e).2 =
      match repairOf e.nextRepair ((first, bytes) :: later) with
      | none => { e with nextRepair := e.nextRepair + 1 }
      | some encoded =>
        if e.connection.datagramEnabled = true ∧ e.connection.pending.length ≠ e.connection.capacity then
          (Emitter.queueRepairs first (bytes :: later.map Prod.snd) limit
            { e with
              nextRepair := e.nextRepair + 1
              connection := { e.connection with pending := e.connection.pending ++ [.repair encoded] } }).2
        else { e with nextRepair := e.nextRepair + 1 } := by
  rw [Emitter.queueRepairs, repairOf]
  dsimp only
  cases repairSymbol first e.nextRepair (repairSeed first) (bytes :: later.map Prod.snd) with
  | error error => rfl
  | ok coded =>
    dsimp only
    by_cases hwide : (bytes :: later.map Prod.snd).length > u16Max ∨ coded.length > u16Max
    · rw [if_pos hwide, if_pos hwide]
    rw [if_neg hwide, if_neg hwide]
    cases encodeRepair ⟨e.nextRepair, first, (bytes :: later.map Prod.snd).length, coded.length,
      repairSeed first, coded⟩ with
    | error error => rfl
    | ok encoded =>
      dsimp only
      cases henabled : e.connection.datagramEnabled with
      | false => rfl
      | true =>
        by_cases hfull : e.connection.pending.length = e.connection.capacity
        · simp [hfull]
        · simp only [Bool.not_true, Bool.false_eq_true, if_false, hfull, ne_eq, not_false_eq_true,
            and_self, if_true]
          split <;> simp_all

theorem queueRepairs_run {first : UInt32} {bytes : List UInt8} {later : List (UInt32 × List UInt8)} (limit : ℕ)
    {r : CodingRun} (hwindow : (first, bytes) :: later ∈ r.windows) :
    ∃ actions, Reachable.Permits Allows apply r actions ∧ (actions.foldl apply r).emitter =
      (Emitter.queueRepairs first (bytes :: later.map Prod.snd) limit r.emitter).2 := by
  induction limit generalizing r with
  | zero => exact ⟨[], trivial, rfl⟩
  | succ limit ih =>
    rw [queueRepairs_succ]
    cases hrepair : repairOf r.emitter.nextRepair ((first, bytes) :: later) with
    | none => exact ⟨[.makeRepair _], ⟨hwindow, trivial⟩, rfl⟩
    | some encoded =>
      dsimp only
      split_ifs with hroom
      · have hmade : encoded ∈ (r.apply (.makeRepair ((first, bytes) :: later))).made := by
          rw [apply, hrepair]
          exact List.mem_cons_self
        have hpush : ((r.apply (.makeRepair ((first, bytes) :: later))).apply (.pushRepair encoded)) = _ := if_pos hroom
        have hkept : (first, bytes) :: later ∈
            ((r.apply (.makeRepair ((first, bytes) :: later))).apply (.pushRepair encoded)).windows := by
          rw [hpush]
          exact hwindow
        obtain ⟨actions, hactions, hrun⟩ := ih hkept
        refine ⟨.makeRepair _ :: .pushRepair encoded :: actions, ⟨hwindow, hmade, hactions⟩, hrun.trans ?_⟩
        rw [hpush]
        rfl
      · exact ⟨[.makeRepair _], ⟨hwindow, trivial⟩, rfl⟩

/-- A whole call of `send_tail_repairs` is a run of the locked steps. -/
theorem sendTailRepairs_run (r : CodingRun) (limit : ℕ) :
    ∃ actions, Reachable.Permits Allows apply r actions ∧
      (actions.foldl apply r).emitter = (r.emitter.sendTailRepairs limit).2 := by
  unfold Emitter.sendTailRepairs
  dsimp only
  split_ifs with hoff hlimit hfew
  · exact ⟨[], trivial, rfl⟩
  · exact ⟨[], trivial, rfl⟩
  · exact ⟨[], trivial, rfl⟩
  · rw [← Emitter.repairWindow]
    cases hwindow : r.emitter.repairWindow with
    | nil => exact ⟨[], trivial, rfl⟩
    | cons source later =>
      have hmem : source :: later ∈ (r.apply .readWindow).windows := by
        rw [← hwindow]
        exact List.mem_cons_self
      obtain ⟨actions, hactions, hrun⟩ := queueRepairs_run (min limit _) hmem
      exact ⟨.readWindow :: actions, ⟨not_lt.mp hfew, hactions⟩, hrun⟩

def symbolLimit (r : CodingRun) : ℕ := min r.emitter.connection.maxSymbolBytes r.emitter.connection.maxSymbol

/-- The datagrams that went out and those that wait to, in their order. -/
def datagrams (r : CodingRun) : List OutboundDatagram :=
  r.done ++ (r.emitter.sending.toList ++ r.emitter.connection.pending)

/-- The sources that are recorded and those that the driver still records, in their order. -/
def line (r : CodingRun) : List (UInt32 × List UInt8) :=
  r.emitter.sources ++ sourcesOf (r.recording.toList ++ (r.emitter.sending.toList ++ r.emitter.connection.pending))

end CodingRun

/-- Sources that went out one after another, as many as a repair may cover. -/
structure CodingBlock (maxSpan : ℕ) (sent window : List (UInt32 × List UInt8)) : Prop where
  two_le : 2 ≤ window.length
  le_span : window.length ≤ maxSpan
  sent : window <:+: sent
  consecutive : Consecutive window

def RepairOfBlock (maxSpan : ℕ) (sent : List (UInt32 × List UInt8)) (encoded : List UInt8) : Prop :=
  ∃ repairId window, CodingBlock maxSpan sent window ∧ repairOf repairId window = some encoded

theorem CodingBlock.append {maxSpan : ℕ} {sent window : List (UInt32 × List UInt8)}
    (h : CodingBlock maxSpan sent window) (later : List (UInt32 × List UInt8)) :
    CodingBlock maxSpan (sent ++ later) window :=
  { h with sent := h.sent.trans (List.prefix_append ..).isInfix }

theorem RepairOfBlock.append {maxSpan : ℕ} {sent : List (UInt32 × List UInt8)} {encoded : List UInt8}
    (h : RepairOfBlock maxSpan sent encoded) (later : List (UInt32 × List UInt8)) :
    RepairOfBlock maxSpan (sent ++ later) encoded := by
  obtain ⟨repairId, window, hblock, hrepair⟩ := h
  exact ⟨repairId, window, hblock.append later, hrepair⟩

namespace CodingRun

structure Inv (r : CodingRun) : Prop where
  ordered : r.emitter.running = true → r.emitter.connection.datagramEnabled = true →
    Consecutive (r.line ++ [(r.emitter.connection.nextSymbol, [])])
  settled : Consecutive r.emitter.sources
  off : r.emitter.connection.datagramEnabled = false → r.emitter.sources = []
  recent : r.emitter.sources ++ sourcesOf r.recording.toList <:+ sourcesOf r.done
  spanned : r.emitter.sources.length ≤ r.emitter.maxSpan
  sized : ∀ source ∈ sourcesOf r.datagrams, source.2.length ≤ r.symbolLimit
  windows : ∀ window ∈ r.windows, CodingBlock r.emitter.maxSpan (sourcesOf r.done) window
  made : ∀ encoded ∈ r.made, RepairOfBlock r.emitter.maxSpan (sourcesOf r.done) encoded
  queued : ∀ encoded, .repair encoded ∈ r.datagrams → RepairOfBlock r.emitter.maxSpan (sourcesOf r.done) encoded

variable {r : CodingRun}

theorem Initial.inv (h : r.Initial) : r.Inv := by
  have hline : r.line = [] := by
    simp [line, h.emitter.sources, h.recording, h.emitter.sending, h.emitter.pending, sourcesOf]
  have hdatagrams : r.datagrams = [] := by simp [datagrams, h.done, h.emitter.sending, h.emitter.pending]
  refine ⟨fun _ _ => ?_, ?_, fun _ => h.emitter.sources, ?_, ?_, ?_, ?_, ?_, ?_⟩
  · rw [hline]
    exact List.isChain_singleton _
  · rw [h.emitter.sources]
    exact List.isChain_nil
  · simp [h.emitter.sources, h.recording, sourcesOf]
  · simp [h.emitter.sources]
  · simp [hdatagrams, sourcesOf]
  · simp [h.windows]
  · simp [h.made]
  · simp [hdatagrams]

theorem Inv.of_subset {s : CodingRun} (h : r.Inv) (hspan : s.emitter.maxSpan = r.emitter.maxSpan)
    (hlimit : s.symbolLimit = r.symbolLimit) (hdone : s.done = r.done) (hwindows : s.windows = r.windows)
    (hmade : s.made = r.made) (hdatagrams : s.datagrams ⊆ r.datagrams)
    (hordered : s.emitter.running = true → s.emitter.connection.datagramEnabled = true →
      Consecutive (s.line ++ [(s.emitter.connection.nextSymbol, [])]))
    (hsettled : Consecutive s.emitter.sources)
    (hoff : s.emitter.connection.datagramEnabled = false → s.emitter.sources = [])
    (hrecent : s.emitter.sources ++ sourcesOf s.recording.toList <:+ sourcesOf r.done)
    (hspanned : s.emitter.sources.length ≤ r.emitter.maxSpan) : s.Inv where
  ordered := hordered
  settled := hsettled
  off := hoff
  recent := by rwa [hdone]
  spanned := by rwa [hspan]
  sized := by
    intro source hsource
    rw [hlimit]
    exact h.sized source (List.filterMap_subset _ hdatagrams hsource)
  windows := by
    rw [hwindows, hspan, hdone]
    exact h.windows
  made := by
    rw [hmade, hspan, hdone]
    exact h.made
  queued := by
    rw [hspan, hdone]
    exact fun encoded hmem => h.queued encoded (hdatagrams hmem)

theorem Inv.halt (h : r.Inv) :
    Inv { r with emitter := { r.emitter with sending := none, running := false } } :=
  h.of_subset rfl rfl rfl rfl rfl
    (List.append_subset.mpr ⟨List.subset_append_left .., fun _ hmem =>
      List.mem_append_right _ (List.mem_append_right _ hmem)⟩)
    (fun hrunning => nomatch hrunning) h.settled h.off h.recent h.spanned

theorem Inv.disable (h : r.Inv) : Inv { r with emitter := r.emitter.disableDatagrams } := by
  refine h.of_subset rfl rfl rfl rfl rfl ?_ (fun _ henabled => nomatch henabled) List.isChain_nil
    (fun _ => rfl) ?_ (Nat.zero_le _)
  · intro datagram hmem
    rcases List.mem_append.mp hmem with hdone | hwaiting
    · exact List.mem_append_left _ hdone
    · rw [Emitter.disableDatagrams, Connection.disableDatagrams, List.append_nil] at hwaiting
      exact List.mem_append_right _ (List.mem_append_left _ hwaiting)
  · exact (List.suffix_append ..).trans h.recent

theorem Inv.failed (h : r.Inv) (error : SendDatagramError) : (r.apply (.failed error)).Inv := by
  have hhalt := h.halt
  unfold apply Emitter.handleSendError
  cases error with
  | connectionLost => exact hhalt
  | unsupportedByPeer | disabled | tooLarge =>
    dsimp only
    split_ifs
    · exact hhalt
    · exact hhalt.disable

theorem Inv.push (h : r.Inv) (datagram : OutboundDatagram) (next : UInt32)
    (hnext : r.emitter.running = true → r.emitter.connection.datagramEnabled = true →
      Consecutive (r.line ++ sourcesOf [datagram] ++ [(next, [])]))
    (hsized : ∀ source ∈ sourcesOf [datagram], source.2.length ≤ r.symbolLimit)
    (hrepair : ∀ encoded, .repair encoded = datagram →
      RepairOfBlock r.emitter.maxSpan (sourcesOf r.done) encoded) :
    Inv { r with emitter := { r.emitter with connection := { r.emitter.connection with
      nextSymbol := next, pending := r.emitter.connection.pending ++ [datagram] } } } := by
  have hdatagrams : r.done ++ (r.emitter.sending.toList ++ (r.emitter.connection.pending ++ [datagram])) =
      r.datagrams ++ [datagram] := by simp [datagrams]
  refine ⟨fun hrunning henabled => ?_, h.settled, h.off, h.recent, h.spanned, ?_, h.windows, h.made, ?_⟩
  · have hline := hnext hrunning henabled
    simpa only [line, sourcesOf_append, List.append_assoc] using hline
  · intro source hsource
    rw [datagrams, hdatagrams, sourcesOf_append] at hsource
    rcases List.mem_append.mp hsource with hold | hnew
    · exact h.sized source hold
    · exact hsized source hnew
  · intro encoded hmem
    rw [datagrams, hdatagrams] at hmem
    rcases List.mem_append.mp hmem with hold | hnew
    · exact h.queued encoded hold
    · exact hrepair encoded (List.mem_singleton.mp hnew)

theorem Inv.sendSource (h : r.Inv) {record : SourceRecord}
    (hallows : r.Allows (.sendSource record)) : (r.apply (.sendSource record)).Inv := by
  obtain ⟨hdata, hrange, hsize⟩ := hallows
  have hencode : encodeSource r.emitter.connection.nextSymbol [record] = .ok _ :=
    encodeSource_eq_ok.mpr ⟨⟨by simp, by simp, by simpa using ⟨hdata, hrange⟩⟩, rfl⟩
  unfold apply Emitter.apply Connection.sendSource
  dsimp only
  rw [hencode]
  split_ifs
  · exact h
  · exact h
  refine h.push (.source r.emitter.connection.nextSymbol _) _ (fun hrunning henabled => ?_) ?_ nofun
  · have hline := h.ordered hrunning henabled
    simp only [Consecutive, List.map_append, List.map_cons, List.map_nil, sourcesOf, List.filterMap_cons,
      List.filterMap_nil, List.append_assoc, List.cons_append, List.nil_append] at hline ⊢
    exact List.isChain_append_cons_cons.mpr ⟨hline, rfl, List.isChain_singleton _⟩
  · intro source hsource
    obtain rfl := List.mem_singleton.mp hsource
    have hlength := record.length_encoded_le
    have hpos := List.length_pos_of_ne_nil hdata
    simp only [Connection.maxSourcePayload, singleSourceMaxOverhead] at hsize
    simp only [symbolLimit, List.map_cons, List.map_nil, List.flatten_cons, List.flatten_nil, List.append_nil,
      List.length_cons, List.length_append, BigEndian.encode_length]
    omega

theorem Inv.readWindow (h : r.Inv) (hallows : 2 ≤ r.emitter.sources.length) :
    (r.apply .readWindow).Inv := by
  have hsuffix : r.emitter.repairWindow <:+ r.emitter.sources := List.drop_suffix ..
  have hspan := h.spanned
  have hlength : r.emitter.repairWindow.length = r.emitter.sources.length := by
    rw [Emitter.repairWindow, List.length_drop]
    omega
  have hblock : CodingBlock r.emitter.maxSpan (sourcesOf r.done) r.emitter.repairWindow :=
    { two_le := hlength ▸ hallows
      le_span := hlength ▸ hspan
      sent := hsuffix.isInfix.trans ((List.prefix_append ..).isInfix.trans h.recent.isInfix)
      consecutive := h.settled.part hsuffix.isInfix }
  exact { h with windows := List.forall_mem_cons.mpr ⟨hblock, h.windows⟩ }

theorem Inv.makeRepair (h : r.Inv) {window : List (UInt32 × List UInt8)}
    (hallows : window ∈ r.windows) : (r.apply (.makeRepair window)).Inv := by
  refine { h with made := fun encoded hmem => ?_ }
  rcases List.mem_append.mp hmem with hnew | hold
  · exact ⟨_, window, h.windows window hallows, Option.mem_toList.mp hnew⟩
  · exact h.made encoded hold

theorem Inv.pushRepair (h : r.Inv) {encoded : List UInt8} (hallows : encoded ∈ r.made) :
    (r.apply (.pushRepair encoded)).Inv := by
  rw [apply]
  split_ifs
  · refine h.push (.repair encoded) _ (fun hrunning henabled => ?_) nofun ?_
    · simpa [sourcesOf] using h.ordered hrunning henabled
    · rintro _ ⟨⟩
      exact h.made encoded hallows
  · exact h

theorem Inv.take (h : r.Inv) (hallows : r.Allows .take) : (r.apply .take).Inv := by
  obtain ⟨_, hsending, hrecording, hpending⟩ := hallows
  obtain ⟨datagram, later, hqueue⟩ := List.exists_cons_of_ne_nil hpending
  have hwaiting : (r.apply .take).emitter.sending.toList ++ (r.apply .take).emitter.connection.pending =
      r.emitter.sending.toList ++ r.emitter.connection.pending := by
    simp [apply, Emitter.apply, Connection.takeDatagram, hqueue, hsending]
  have hline : (r.apply .take).line = r.line := by
    rw [line, hwaiting]
    rfl
  have hdatagrams : (r.apply .take).datagrams = r.datagrams := by
    rw [datagrams, hwaiting]
    rfl
  refine h.of_subset rfl rfl rfl rfl rfl (hdatagrams ▸ List.Subset.refl _) ?_ h.settled h.off h.recent h.spanned
  rw [hline]
  exact h.ordered

theorem Inv.sent (h : r.Inv) (hallows : r.Allows .sent) : (r.apply .sent).Inv := by
  obtain ⟨_, hrecording, hsending⟩ := hallows
  obtain ⟨datagram, hdatagram⟩ := Option.ne_none_iff_exists'.mp hsending
  rw [apply, hdatagram]
  have hdone : sourcesOf (r.done ++ [datagram]) = sourcesOf r.done ++ sourcesOf [datagram] := sourcesOf_append ..
  have hdatagrams : r.done ++ [datagram] ++ ([] ++ r.emitter.connection.pending) = r.datagrams := by
    simp [datagrams, hdatagram]
  have hline : r.emitter.sources ++ sourcesOf ([datagram] ++ ([] ++ r.emitter.connection.pending)) = r.line := by
    simp [line, hrecording, hdatagram]
  refine ⟨?_, h.settled, h.off, ?_, h.spanned, ?_, ?_, ?_, ?_⟩
  · rw [line]
    exact fun hrunning henabled => hline ▸ h.ordered hrunning henabled
  · have hrecent := h.recent
    rw [hrecording, Option.toList_none, sourcesOf, List.filterMap_nil, List.append_nil] at hrecent
    obtain ⟨earlier, hearlier⟩ := hrecent
    exact ⟨earlier, by rw [hdone, ← hearlier, List.append_assoc]; rfl⟩
  · rw [datagrams]
    exact hdatagrams ▸ h.sized
  · rw [hdone]
    exact fun window hmem => (h.windows window hmem).append _
  · rw [hdone]
    exact fun encoded hmem => (h.made encoded hmem).append _
  · rw [datagrams, hdone]
    exact fun encoded hmem => (h.queued encoded (hdatagrams ▸ hmem)).append _

theorem Inv.keep (h : r.Inv) (hrunning : r.emitter.running = true)
    (henabled : r.emitter.connection.datagramEnabled = true) {datagram : OutboundDatagram}
    (hdatagram : r.recording = some datagram) {kept : List (UInt32 × List UInt8)}
    (hkept : kept <:+ r.emitter.sources ++ sourcesOf [datagram]) (hlength : kept.length ≤ r.emitter.maxSpan) :
    Inv { r with emitter := { r.emitter with sources := kept }, recording := none } := by
  obtain ⟨earlier, hearlier⟩ := hkept
  have hline : r.line = earlier ++ (kept ++ sourcesOf (r.emitter.sending.toList ++ r.emitter.connection.pending)) := by
    rw [line, hdatagram, Option.toList_some, sourcesOf_append, ← List.append_assoc, ← hearlier, List.append_assoc]
  have hordered := h.ordered hrunning henabled
  rw [hline, List.append_assoc] at hordered
  have hlater := hordered.part (List.suffix_append ..).isInfix
  refine h.of_subset rfl rfl rfl rfl rfl (List.Subset.refl _) (fun _ _ => hlater) ?_ ?_ ?_ hlength
  · rw [List.append_assoc] at hlater
    exact hlater.part (List.prefix_append ..).isInfix
  · exact fun hoff => absurd (hoff.symm.trans henabled) (by decide)
  · have hrecent := h.recent
    rw [hdatagram, Option.toList_some, ← hearlier] at hrecent
    simpa [sourcesOf] using (List.suffix_append ..).trans hrecent

theorem Inv.record (h : r.Inv) (hallows : r.Allows .record) : (r.apply .record).Inv := by
  obtain ⟨hrunning, hrecording⟩ := hallows
  obtain ⟨datagram, hdatagram⟩ := Option.ne_none_iff_exists'.mp hrecording
  rw [apply, hdatagram]
  cases henabled : r.emitter.connection.datagramEnabled with
  | false =>
    have hsame : r.emitter.recordSent datagram = r.emitter := by
      cases datagram <;> simp [Emitter.recordSent, henabled]
    dsimp only
    rw [hsame]
    refine h.of_subset rfl rfl rfl rfl rfl (List.Subset.refl _) (fun _ hon => ?_) h.settled h.off ?_ h.spanned
    · exact absurd (henabled.symm.trans hon) (by decide)
    · simp [h.off henabled, sourcesOf]
  | true =>
    cases datagram with
    | repair encoded =>
      have hkept : r.emitter.sources <:+ r.emitter.sources ++ sourcesOf [.repair encoded] := by simp [sourcesOf]
      exact h.keep hrunning henabled hdatagram hkept h.spanned
    | source symbolId bytes =>
      have hspan := h.spanned
      have hlength : (r.emitter.sources ++ [(symbolId, bytes)]).length = r.emitter.sources.length + 1 :=
        List.length_append ..
      simp only [Emitter.recordSent, henabled, Bool.not_true, Bool.false_eq_true, if_false]
      split_ifs with hfull
      · exact h.keep hrunning henabled hdatagram (List.tail_suffix _) (by rw [List.length_tail]; omega)
      · exact h.keep hrunning henabled hdatagram List.suffix_rfl (not_lt.mp hfull)

theorem Inv.step {s : CodingRun} {action : Action} (h : r.Inv) (hstep : r.Step action s) : s.Inv := by
  obtain ⟨hallows, rfl⟩ := hstep
  cases action with
  | sendSource record => exact h.sendSource hallows
  | readWindow => exact h.readWindow hallows
  | makeRepair window => exact h.makeRepair hallows
  | pushRepair encoded => exact h.pushRepair hallows
  | take => exact h.take hallows
  | sent => exact h.sent hallows
  | record => exact h.record hallows
  | failed error => exact h.failed error
  | stop => exact h.halt
  | disable => exact h.disable

end CodingRun

def symbolOf (sources : List (UInt32 × List UInt8)) (id : UInt32) : List UInt8 := (sources.lookup id).getD []

theorem map_symbolOf {sources : List (UInt32 × List UInt8)} (h : (sources.map Prod.fst).Nodup) :
    (sources.map Prod.fst).map (fun id => (id, symbolOf sources id)) = sources := by
  rw [List.map_map]
  refine (List.map_congr_left fun source hsource => ?_).trans (List.map_id _)
  obtain ⟨earlier, later, rfl⟩ := List.append_of_mem hsource
  rw [List.map_append, List.map_cons] at h
  have hlookup : (earlier ++ source :: later).lookup source.1 = some source.2 := by
    refine List.lookup_eq_some_iff.mpr ⟨earlier, later, rfl, fun other hother => bne_iff_ne.mpr fun heq => ?_⟩
    exact List.disjoint_of_nodup_append h (List.mem_map_of_mem hother) (heq ▸ List.mem_cons_self)
  simp only [Function.comp_apply, symbolOf, hlookup, Option.getD_some, id_eq, Prod.mk.eta]

theorem repairOf_eq_some {repairId : UInt32} {window : List (UInt32 × List UInt8)} {encoded : List UInt8}
    (h : repairOf repairId window = some encoded) (hconsecutive : Consecutive window) :
    ∃ frame : RepairDatagram, frame.span = window.length ∧
      window.map Prod.fst = spanIds frame.span frame.firstSymbolId ∧
      repairSymbol frame.firstSymbolId frame.repairId frame.seed (window.map Prod.snd) = .ok frame.coded ∧
      ∀ maxSymbolBytes, frame.coded.length ≤ maxSymbolBytes → decodeRepair encoded maxSymbolBytes = .ok frame := by
  cases window with
  | nil => cases h
  | cons source later =>
    obtain ⟨first, bytes⟩ := source
    unfold repairOf at h
    dsimp only at h
    split at h
    · cases h
    · rename_i coded hcoded
      split_ifs at h with hwide
      split at h
      · cases h
      · rename_i bytes' hencode
        obtain rfl := Option.some.inj h
        rw [not_or, not_lt, not_lt] at hwide
        refine ⟨_, ?_, ?_, hcoded, fun maxSymbolBytes hsize => decodeRepair_encodeRepair hencode hsize ?_⟩
        · simp
        · simpa using hconsecutive.eq_spanIds
        · exact Nat.lt_succ_of_le hwide.2

theorem length_le_of_repairSymbol {first repairId seed : UInt32} {sources : List (List UInt8)} {coded : List UInt8}
    (h : repairSymbol first repairId seed sources = .ok coded) : sources.length ≤ maxRepairSpan := by
  unfold repairSymbol at h
  split_ifs at h with hspan
  exact not_lt.mp (not_or.mp hspan).2

/-- The repair is the combination of the symbols of its span, padded to the longest. -/
structure RepairDatagram.Combines (frame : RepairDatagram) (symbol : UInt32 → List UInt8) : Prop where
  fits : ∀ id ∈ spanIds frame.span frame.firstSymbolId, (symbol id).length ≤ frame.coded.length
  coded : ∀ i, (Gf256.ofBytes frame.coded).getD i 0 =
    SparseRow.value (spanTerms frame.repairId frame.seed frame.span frame.firstSymbolId)
      (fun id => (symbolData symbol id).getD i 0)

namespace CodingRun

/-- The window of sent sources is consecutive in every run. Every repair that went out decodes, covers two
sources up to the negotiated span, and combines the sources that went out with its identifiers. Whatever a
decoder knows of the symbols, its row for the repair is a true equation. -/
theorem codingWindow_agreement {r : CodingRun} (h : Reachable Initial Step r) :
    Consecutive r.emitter.sources ∧ ∀ encoded, .repair encoded ∈ r.done →
      ∃ (frame : RepairDatagram) (symbol : UInt32 → List UInt8),
        (∀ maxSymbolBytes, r.symbolLimit ≤ maxSymbolBytes → decodeRepair encoded maxSymbolBytes = .ok frame) ∧
        2 ≤ frame.span ∧ frame.span ≤ r.emitter.maxSpan ∧
        (spanIds frame.span frame.firstSymbolId).map (fun id => (id, symbol id)) <:+: sourcesOf r.done ∧
        frame.Combines symbol ∧
        ∀ (d : Decoder) (all : UInt32 → List UInt8) (row : Row) (work workBudget spent : ℕ),
          (∀ id ∈ spanIds frame.span frame.firstSymbolId, all id = symbol id) →
          (∀ source ∈ d.known.queue, source.bytes = all source.symbolId) →
          d.repairRow frame.firstSymbolId frame.span frame.repairId frame.seed frame.coded work workBudget =
            .ok (row, spent) →
          TrueRow (symbolData all) r.symbolLimit row := by
  have hinv : r.Inv := h.invariant (P := Inv) (fun _ hinitial => hinitial.inv) (fun _ _ _ hs hstep => hs.step hstep)
  refine ⟨hinv.settled, fun encoded hmem => ?_⟩
  obtain ⟨repairId, window, hblock, hrepair⟩ := hinv.queued encoded (List.mem_append_left _ hmem)
  obtain ⟨frame, hspan, hids, hcoded, hdecode⟩ := repairOf_eq_some hrepair hblock.consecutive
  have hwide : frame.span ≤ maxRepairSpan := by
    rw [hspan, ← List.length_map Prod.snd]
    exact length_le_of_repairSymbol hcoded
  obtain ⟨symbol, rfl⟩ : ∃ symbol : UInt32 → List UInt8,
      (spanIds frame.span frame.firstSymbolId).map (fun id => (id, symbol id)) = window :=
    ⟨symbolOf window, hids ▸ map_symbolOf (hids ▸ nodup_spanIds hwide _)⟩
  rw [List.map_map] at hcoded
  have hbounded : ∀ id ∈ spanIds frame.span frame.firstSymbolId, (symbol id).length ≤ r.symbolLimit := by
    intro id hid
    have hsent := hblock.sent.subset (List.mem_map_of_mem hid)
    exact hinv.sized (id, symbol id) (by rw [datagrams, sourcesOf_append]; exact List.mem_append_left _ hsent)
  obtain ⟨_, _, _, hsize, hfits, hvalue⟩ := repairSymbol_eq_ok hbounded hcoded
  refine ⟨frame, symbol, fun maxSymbolBytes hlimit => hdecode _ (hsize.trans hlimit), hspan ▸ hblock.two_le,
    hspan ▸ hblock.le_span, hblock.sent, ⟨hfits, hvalue⟩, ?_⟩
  intro d all row work workBudget spent hall hknown hrow
  have hcodedAll : repairSymbol frame.firstSymbolId frame.repairId frame.seed
      ((spanIds frame.span frame.firstSymbolId).map all) = .ok frame.coded := by
    rw [List.map_congr_left hall]
    exact hcoded
  have hfitsAll : ∀ id ∈ spanIds frame.span frame.firstSymbolId, ∀ source, d.known.find id = some source →
      source.bytes.length ≤ frame.coded.length := by
    intro id hid source hfind
    rw [bytes_of_find hknown hfind, hall id hid]
    exact hfits id hid
  rw [Decoder.repairRow_eq hfitsAll] at hrow
  obtain rfl := eq_of_metered hrow
  exact trueRow_pendingRow hknown (fun id hid => hall id hid ▸ hbounded id hid) hcodedAll

def sample : CodingRun where
  emitter :=
    { connection := ⟨true, [], 3, 0, false, false, 64, 64, 1⟩
      sources := []
      nextRepair := 0
      maxSpan := 4
      sending := none
      running := true
      emitted := [] }
  recording := none
  windows := []
  made := []
  done := []

def pairSent : CodingRun :=
  [.sendSource ⟨4, 0, false, [7]⟩, .sendSource ⟨8, 0, true, [9]⟩, .take, .sent, .record, .take, .sent, .record,
    .readWindow].foldl apply sample

def pairRepaired : CodingRun :=
  [.makeRepair pairSent.emitter.repairWindow,
    .pushRepair ((repairOf 0 pairSent.emitter.repairWindow).getD []), .take, .sent].foldl apply pairSent

theorem codingWindow_agreement_pair : ∃ encoded, .repair encoded ∈ pairRepaired.done ∧
    ∃ (frame : RepairDatagram) (symbol : UInt32 → List UInt8), decodeRepair encoded 64 = .ok frame ∧
      2 ≤ frame.span ∧ frame.span ≤ 4 ∧ frame.Combines symbol := by
  have hstart : Reachable Initial Step sample := .start ⟨⟨rfl, rfl, rfl, rfl, rfl, rfl, rfl⟩, rfl, rfl, rfl, rfl⟩
  have hsent : Reachable Initial Step pairSent :=
    hstart.run (fun _ _ hallows => ⟨hallows, rfl⟩) (by decide +kernel)
  have hrepaired : Reachable Initial Step pairRepaired :=
    hsent.run (fun _ _ hallows => ⟨hallows, rfl⟩) (by decide +kernel)
  have hmem : .repair ((repairOf 0 pairSent.emitter.repairWindow).getD []) ∈ pairRepaired.done := by decide +kernel
  have hspan : pairRepaired.emitter.maxSpan = 4 := by decide +kernel
  have hlimit : pairRepaired.symbolLimit ≤ 64 := by decide +kernel
  obtain ⟨frame, symbol, hdecode, htwo, hwide, _, hcombines, _⟩ := (codingWindow_agreement hrepaired).2 _ hmem
  exact ⟨_, hmem, frame, symbol, hdecode 64 hlimit, htwo, hspan ▸ hwide, hcombines⟩

end CodingRun

end Quicp
