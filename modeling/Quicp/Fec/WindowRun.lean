import Quicp.Fec.AtRest
import Quicp.Fec.Completeness

/-!
# The window of the decoder over whole runs

Sources and repairs arrive with any bytes and budgets. Between two of them the items of the batch that was just
returned may be committed, in any order, or dropped.
-/

namespace Quicp

theorem keptByElimination_bounded (maxSymbolBytes : ℕ) : KeptByElimination fun row =>
    SparseRow.WellFormed row.coefficients ∧ row.data.length ≤ maxSymbolBytes where
  wellFormed _ h := h.1
  scaled row factor h hfactor := by
    refine ⟨h.1.scale hfactor, ?_⟩
    rw [Row.scaled, List.length_map]
    exact h.2
  plus row source factor h hsource hfactor := by
    refine ⟨h.1.addScaled hsource.1 hfactor, ?_⟩
    rw [Row.plus, PaddedVector.length_addScaled, PaddedVector.length_grow]
    exact max_le h.2 hsource.2

theorem length_eliminate (turns : ℕ) (done rest : List Row) :
    (eliminate turns done rest).1.length = done.length + rest.length := by
  induction turns generalizing done rest with
  | zero => exact List.length_append
  | succ turns ih =>
    rw [eliminate]
    cases hchoose : choosePivot rest with
    | none => exact List.length_append
    | some chosen =>
      obtain ⟨row, others⟩ := chosen
      have hlength := (choosePivot_eq_some hchoose).2.length_eq
      rw [List.length_cons] at hlength
      dsimp only
      rw [ih, List.length_append, List.length_map, List.length_map, List.length_singleton]
      omega

theorem length_keptRows_le (rows : List Row) : (keptRows rows).length ≤ rows.length := by
  have hlength := length_eliminate rows.length [] rows
  rw [List.length_nil, Nat.zero_add] at hlength
  exact (List.length_filter_le _ _).trans hlength.le

namespace Window

theorem contents_eq_rtake {maxSymbols : ℕ} {w : Window} (h : w.known.length ≤ maxSymbols) :
    w.contents = (w.contents ++ []).rtake maxSymbols := by
  rw [List.append_nil, List.rtake, contents, List.length_map, Nat.sub_eq_zero_of_le h, List.drop_zero]

end Window

namespace Decoder

variable {d next : Decoder} {id : UInt32} {bytes : List UInt8}

theorem Inserted.moves (h : d.Inserted next id bytes) : d.known.window.Moves d.maxSymbols next.known.window := by
  obtain ⟨retainedBytes, hinsert | ⟨storage, hreuse⟩⟩ := h.entered
  · rw [hinsert]
    exact .inserts _
  · exact .reuses hreuse

theorem Inserted.contents (h : d.Inserted next id bytes) (hroom : d.known.queue.length ≤ d.maxSymbols) :
    next.known.window.contents = (d.known.window.contents ++ [(id, bytes)]).rtake d.maxSymbols := by
  obtain ⟨retainedBytes, hinsert | ⟨storage, hreuse⟩⟩ := h.entered
  · rw [hinsert]
    exact Window.contents_of_known (Window.known_insertKnown _ _ _)
  · exact Window.contents_of_known (Window.known_reused hroom hreuse)

theorem Inserted.length_le (h : d.Inserted next id bytes) (hroom : d.known.queue.length ≤ d.maxSymbols) :
    next.known.queue.length ≤ next.maxSymbols := by
  have hlength := congrArg List.length (h.contents hroom)
  rw [Window.contents, List.length_map, List.rtake, List.length_drop] at hlength
  rw [h.maxSymbols]
  change next.known.window.known.length ≤ _
  omega

theorem Inserted.mem_or_eq (h : d.Inserted next id bytes) {other : UInt32} (hother : other ∈ next.known.ids) :
    other ∈ d.known.ids ∨ other = id := by
  obtain ⟨source, hsource, rfl⟩ := KnownSources.mem_ids.mp hother
  rcases h.sources source hsource with hold | ⟨hid, _⟩
  · exact Or.inl (KnownSources.mem_ids.mpr ⟨source, hold, rfl⟩)
  · exact Or.inr hid

/-- What an answered call puts into the window: its source, unless the call was refused or the source is known. -/
def accepted {α : Type} (d : Decoder) (id : UInt32) (bytes : List UInt8) :
    Outcome FecError α → List (UInt32 × List UInt8)
  | .err _ => []
  | _ => if id ∈ d.known.ids then [] else [(id, bytes)]

variable {outcome : Outcome FecError RecoveredBatch}

theorem accepted_of_returned {items : List RecoveredSource}
    (h : Returned items outcome) (d : Decoder) (id : UInt32) (bytes : List UInt8) :
    d.accepted id bytes outcome = if id ∈ d.known.ids then [] else [(id, bytes)] := by
  rcases h with rfl | ⟨batch, rfl, _⟩ <;> rfl

/-- The window took in what entered behind the others, lost its oldest sources and was moved as the code does. -/
def Fifo (d next : Decoder) (entering : List (UInt32 × List UInt8)) : Prop :=
  d.known.window.Moves d.maxSymbols next.known.window ∧
    next.known.window.contents = (d.known.window.contents ++ entering).rtake d.maxSymbols

theorem fifo_stays (hroom : d.known.queue.length ≤ d.maxSymbols) (hknown : next.known = d.known) : d.Fifo next [] := by
  rw [Fifo, hknown]
  exact ⟨.stays, Window.contents_eq_rtake hroom⟩

theorem Inserted.fifo (h : d.Inserted next id bytes) (hroom : d.known.queue.length ≤ d.maxSymbols) :
    d.Fifo next [(id, bytes)] :=
  ⟨h.moves, h.contents hroom⟩

variable {budget after : RecoveryMemoryBudget} {workBudget : ℕ}

theorem SourceResult.fifo (h : SourceResult d budget id bytes workBudget outcome next after)
    (hroom : d.known.queue.length ≤ d.maxSymbols) : d.Fifo next (d.accepted id bytes outcome) := by
  cases h with
  | duplicate hknown hreturned =>
    rw [accepted_of_returned hreturned, if_pos hknown]
    exact fifo_stays hroom rfl
  | alone fresh hrows hnext hinserted hreturned =>
    rw [accepted_of_returned hreturned, if_neg fresh]
    exact hinserted.fifo hroom
  | solved fresh hrows hsolved hinserted hreturned =>
    rw [accepted_of_returned hreturned, if_neg fresh]
    exact hinserted.fifo hroom
  | _ => exact fifo_stays hroom rfl

theorem RepairResult.known_eq {firstSymbolId repairId seed : UInt32} {span : ℕ} {coded : List UInt8}
    (h : RepairResult d budget firstSymbolId span repairId seed coded workBudget outcome next after) :
    next.known = d.known := by
  cases h <;> rfl

theorem addRepair_of_long {coded : List UInt8} (h : d.maxSymbolBytes < coded.length) (budget : RecoveryMemoryBudget)
    (firstSymbolId : UInt32) (span : ℕ) (repairId seed : UInt32) (workBudget : ℕ) :
    ∃ error, d.addRepair budget firstSymbolId span repairId seed coded workBudget = (.err error, d, budget) := by
  unfold addRepair
  by_cases hspan : span = 0 ∨ span > maxRepairSpan
  · rw [if_pos hspan]
    exact ⟨_, rfl⟩
  · rw [if_neg hspan, if_pos (Or.inr h)]
    exact ⟨_, rfl⟩

theorem CommitResult.fifo {charge : RecoveryCharge} {outcome : Outcome FecError Unit}
    (h : CommitResult d budget id bytes charge outcome next after)
    (hroom : d.known.queue.length ≤ d.maxSymbols) : d.Fifo next (d.accepted id bytes outcome) := by
  cases h with
  | duplicate hknown =>
    rw [accepted, if_pos hknown]
    · exact fifo_stays hroom rfl
    · rintro _ ⟨⟩
  | inserted fresh hrows hinserted =>
    rw [accepted, if_neg fresh]
    · exact hinserted.fifo hroom
    · rintro _ ⟨⟩
  | _ => exact fifo_stays hroom rfl

end Decoder

/-- A decoder and the items of the batch that was just returned. -/
structure WindowRun where
  decoder : Decoder
  batch : List RecoveredSource
  deriving DecidableEq

namespace WindowRun

inductive Action
  | addSource (budget : RecoveryMemoryBudget) (storage : Storage) (id : UInt32) (source : List UInt8) (workBudget : ℕ)
  | addRepair (budget : RecoveryMemoryBudget) (firstSymbolId : UInt32) (span : ℕ) (repairId seed : UInt32)
      (coded : List UInt8) (workBudget : ℕ)
  | commit (budget : RecoveryMemoryBudget) (storage : Storage) (item : RecoveredSource) (charge : RecoveryCharge)

def window (s : WindowRun) : Window := s.decoder.known.window

def itemsOf : Outcome FecError RecoveredBatch → List RecoveredSource
  | .ok batch => batch.items
  | _ => []

def apply (s : WindowRun) : Action → WindowRun
  | .addSource budget storage id source workBudget =>
    ⟨(s.decoder.addSource budget storage id source workBudget).2.1,
      itemsOf (s.decoder.addSource budget storage id source workBudget).1⟩
  | .addRepair budget firstSymbolId span repairId seed coded workBudget =>
    ⟨(s.decoder.addRepair budget firstSymbolId span repairId seed coded workBudget).2.1,
      itemsOf (s.decoder.addRepair budget firstSymbolId span repairId seed coded workBudget).1⟩
  | .commit budget storage item charge =>
    ⟨(s.decoder.commitRecoveredPrecharged budget storage item.symbolId item.bytes charge).2.1, s.batch⟩

def entering (s : WindowRun) : Action → List (UInt32 × List UInt8)
  | .addSource budget storage id source workBudget =>
    s.decoder.accepted id source (s.decoder.addSource budget storage id source workBudget).1
  | .addRepair .. => []
  | .commit budget storage item charge =>
    s.decoder.accepted item.symbolId item.bytes
      (s.decoder.commitRecoveredPrecharged budget storage item.symbolId item.bytes charge).1

def Allows (s : WindowRun) : Action → Prop
  | .commit _ _ item _ => item ∈ s.batch
  | _ => True

instance (s : WindowRun) (action : Action) : Decidable (s.Allows action) :=
  match action with
  | .addSource .. => isTrue trivial
  | .addRepair .. => isTrue trivial
  | .commit _ _ item _ => inferInstanceAs (Decidable (item ∈ s.batch))

def Step (s : WindowRun) (action : Action) (t : WindowRun) : Prop := s.Allows action ∧ t = s.apply action

def Initial (maxSymbols maxRows maxSymbolBytes : ℕ) (s : WindowRun) : Prop :=
  ∃ memoryBudget, s = ⟨Decoder.withBudget maxSymbols maxRows maxSymbolBytes memoryBudget, []⟩

/-- The queue, its index and the rows fit together and keep within the bounds. -/
structure Sound (maxSymbols maxRows maxSymbolBytes : ℕ) (s : WindowRun) : Prop where
  indexed : s.window.knownIds = (s.window.known.map KnownSource.symbolId).toFinset
  distinct : (s.window.known.map KnownSource.symbolId).Nodup
  room : s.window.known.length ≤ maxSymbols
  unknown : ∀ row ∈ s.decoder.rows, ∀ id ∈ row.coefficients.map Prod.fst, id ∉ s.window.knownIds
  rows : s.decoder.rows.length ≤ maxRows
  data : ∀ row ∈ s.decoder.rows, row.data.length ≤ maxSymbolBytes

structure Inv (maxSymbols maxRows maxSymbolBytes : ℕ) (s : WindowRun) : Prop where
  maxSymbols_eq : s.decoder.maxSymbols = maxSymbols
  maxRows_eq : s.decoder.maxRows = maxRows
  maxSymbolBytes_eq : s.decoder.maxSymbolBytes = maxSymbolBytes
  atRest : s.decoder.AtRest
  room : s.decoder.known.queue.length ≤ s.decoder.maxSymbols
  apart : ∀ row ∈ s.decoder.rows, ∀ id ∈ row.coefficients.map Prod.fst,
    id ∉ s.decoder.known.ids ∧ id ∉ s.batch.map RecoveredSource.symbolId
  rows : s.decoder.rows.length ≤ s.decoder.maxRows
  data : ∀ row ∈ s.decoder.rows, row.data.length ≤ s.decoder.maxSymbolBytes

variable {maxSymbols maxRows maxSymbolBytes : ℕ} {s : WindowRun}

theorem Inv.sound (h : s.Inv maxSymbols maxRows maxSymbolBytes) : s.Sound maxSymbols maxRows maxSymbolBytes where
  indexed := s.decoder.known.indexed
  distinct := s.decoder.known.distinct
  room := h.maxSymbols_eq ▸ h.room
  unknown row hrow id hid := (h.apart row hrow id hid).1
  rows := h.maxRows_eq ▸ h.rows
  data row hrow := h.maxSymbolBytes_eq ▸ h.data row hrow

variable {outcome : Outcome FecError RecoveredBatch}

theorem itemsOf_subset {items : List RecoveredSource}
    (h : Decoder.Returned items outcome) : itemsOf outcome ⊆ items := by
  rcases h with rfl | ⟨batch, rfl, rfl⟩
  · exact List.nil_subset _
  · exact List.Subset.refl _

theorem apart_keptRows {rows : List Row} {items : List RecoveredSource} {p : UInt32 → Prop}
    (hwell : ∀ row ∈ rows, SparseRow.WellFormed row.coefficients)
    (hp : ∀ row ∈ rows, ∀ id ∈ row.coefficients.map Prod.fst, p id)
    (hitems : ∀ item ∈ items, ∃ row ∈ (eliminate rows.length [] rows).1, row.solvedId = some item.symbolId)
    (hreturned : Decoder.Returned items outcome) :
    ∀ row ∈ keptRows rows, ∀ id ∈ row.coefficients.map Prod.fst,
      p id ∧ id ∉ (itemsOf outcome).map RecoveredSource.symbolId := by
  intro row hrow id hid
  obtain ⟨hpid, hunsolved⟩ := unknowns_keptRows hwell hp row hrow id hid
  refine ⟨hpid, fun hmem => hunsolved ?_⟩
  obtain ⟨item, hitem, rfl⟩ := List.mem_map.mp hmem
  exact mem_solvedIds.mpr (hitems item (itemsOf_subset hreturned hitem))

theorem data_keptRows {rows : List Row} {bound : ℕ}
    (h : ∀ row ∈ rows, SparseRow.WellFormed row.coefficients ∧ row.data.length ≤ bound) :
    ∀ row ∈ keptRows rows, row.data.length ≤ bound := fun row hrow =>
  ((keptByElimination_bounded bound).eliminate rows.length (List.forall_mem_nil _) h row
    (List.mem_of_mem_filter hrow)).2

theorem Inv.unanswered (h : s.Inv maxSymbols maxRows maxSymbolBytes) :
    Inv maxSymbols maxRows maxSymbolBytes ⟨s.decoder, []⟩ :=
  { h with apart := fun row hrow id hid => ⟨(h.apart row hrow id hid).1, List.not_mem_nil⟩ }

variable {next : Decoder}

theorem Inv.inserted (h : s.Inv maxSymbols maxRows maxSymbolBytes) {id : UInt32} {bytes : List UInt8}
    {batch : List RecoveredSource} (hinserted : s.decoder.Inserted next id bytes) (hrest : next.AtRest)
    (hrows : next.rows.length ≤ s.decoder.rows.length)
    (hdata : ∀ row ∈ next.rows, row.data.length ≤ s.decoder.maxSymbolBytes)
    (hapart : ∀ row ∈ next.rows, ∀ other ∈ row.coefficients.map Prod.fst,
      (other ∉ s.decoder.known.ids ∧ other ≠ id) ∧ other ∉ batch.map RecoveredSource.symbolId) :
    Inv maxSymbols maxRows maxSymbolBytes ⟨next, batch⟩ where
  maxSymbols_eq := hinserted.maxSymbols.trans h.maxSymbols_eq
  maxRows_eq := hinserted.maxRows.trans h.maxRows_eq
  maxSymbolBytes_eq := hinserted.maxSymbolBytes.trans h.maxSymbolBytes_eq
  atRest := hrest
  room := hinserted.length_le h.room
  apart row hrow other hother := by
    obtain ⟨⟨hunknown, hne⟩, hbatch⟩ := hapart row hrow other hother
    exact ⟨fun hmem => (hinserted.mem_or_eq hmem).elim hunknown hne, hbatch⟩
  rows := by
    change next.rows.length ≤ next.maxRows
    rw [hinserted.maxRows]
    exact hrows.trans h.rows
  data row hrow := by
    change row.data.length ≤ next.maxSymbolBytes
    rw [hinserted.maxSymbolBytes]
    exact hdata row hrow

variable {after budget : RecoveryMemoryBudget}

theorem Inv.addSource (h : s.Inv maxSymbols maxRows maxSymbolBytes) {id : UInt32}
    {source : List UInt8} {workBudget : ℕ}
    (hresult : Decoder.SourceResult s.decoder budget id source workBudget outcome next after) :
    Inv maxSymbols maxRows maxSymbolBytes ⟨next, itemsOf outcome⟩ := by
  have hrest := h.atRest.addSource hresult
  cases hresult with
  | duplicate hknown hreturned =>
    rw [List.subset_nil.mp (itemsOf_subset hreturned)]
    exact h.unanswered
  | alone fresh hrows hnext hinserted hreturned =>
    refine h.inserted hinserted hrest ?_ ?_ ?_ <;> simp [hnext]
  | solved fresh hrows hsolved hinserted hreturned =>
    obtain ⟨rows, ⟨hlength, hfrom⟩, hkept, hitems⟩ := Decoder.sourceRows_eq_ok hsolved
    have hwell : ∀ row ∈ rows, SparseRow.WellFormed row.coefficients := by
      intro row hrow
      obtain ⟨original, hmem, hsubstituted⟩ := hfrom row hrow
      exact (h.atRest.wellFormed original hmem).sublist hsubstituted.sublist
    refine h.inserted hinserted hrest ?_ ?_ ?_
    · rw [hkept, ← hlength]
      exact length_keptRows_le rows
    · rw [hkept]
      refine data_keptRows fun row hrow => ⟨hwell row hrow, ?_⟩
      obtain ⟨original, hmem, hsubstituted⟩ := hfrom row hrow
      exact hsubstituted.length.trans_le (h.data original hmem)
    · rw [hkept]
      refine apart_keptRows hwell (fun row hrow other hother => ?_) hitems hreturned
      obtain ⟨original, hmem, hsubstituted⟩ := hfrom row hrow
      refine ⟨(h.apart original hmem other ((hsubstituted.sublist.map _).subset hother)).1, ?_⟩
      rintro rfl
      exact hsubstituted.absent (h.atRest.wellFormed original hmem) hother
  | _ => exact h.unanswered

theorem Inv.addRepair (h : s.Inv maxSymbols maxRows maxSymbolBytes)
    {firstSymbolId repairId seed : UInt32} {span : ℕ} {coded : List UInt8} {workBudget : ℕ}
    (hresult : Decoder.RepairResult s.decoder budget firstSymbolId span repairId seed coded workBudget outcome next after)
    (hsize : coded.length ≤ s.decoder.maxSymbolBytes) : Inv maxSymbols maxRows maxSymbolBytes ⟨next, itemsOf outcome⟩ := by
  have hrest := h.atRest.addRepair hresult
  cases hresult with
  | solved hspan hroom hsolved hreturned =>
    rcases Decoder.repairRows_eq_ok hsolved with ⟨rfl, rfl⟩ | ⟨row, hterms, hlength, hkept, hitems⟩
    · rw [List.subset_nil.mp (itemsOf_subset hreturned)]
      exact { h.unanswered with atRest := hrest }
    · have hrow : SparseRow.WellFormed row.coefficients := by
        rw [hterms]
        exact wellFormed_unknownTerms s.decoder.known hspan firstSymbolId repairId seed
      have hwell : ∀ other ∈ s.decoder.rows ++ [row], SparseRow.WellFormed other.coefficients :=
        List.forall_mem_append.mpr ⟨h.atRest.wellFormed, List.forall_mem_singleton.mpr hrow⟩
      refine ⟨h.maxSymbols_eq, h.maxRows_eq, h.maxSymbolBytes_eq, hrest, h.room, ?_, ?_, ?_⟩
      · dsimp only
        rw [hkept]
        refine apart_keptRows hwell (List.forall_mem_append.mpr ⟨fun other hother id hid => (h.apart other hother id hid).1,
          List.forall_mem_singleton.mpr fun id hid => ?_⟩) hitems hreturned
        rw [hterms] at hid
        exact Decoder.not_mem_pendingRow hid
      · dsimp only
        rw [hkept]
        refine (length_keptRows_le _).trans ?_
        rw [List.length_append, List.length_singleton]
        exact lt_of_le_of_ne h.rows hroom
      · dsimp only
        rw [hkept]
        exact data_keptRows (List.forall_mem_append.mpr ⟨fun other hother => ⟨h.atRest.wellFormed other hother,
          h.data other hother⟩, List.forall_mem_singleton.mpr ⟨hrow, hlength.trans_le hsize⟩⟩)
  | _ => exact h.unanswered

theorem Inv.commit (h : s.Inv maxSymbols maxRows maxSymbolBytes)
    {item : RecoveredSource} (hitem : item ∈ s.batch) {charge : RecoveryCharge} {outcome : Outcome FecError Unit}
    (hresult : Decoder.CommitResult s.decoder budget item.symbolId item.bytes charge outcome next after) :
    Inv maxSymbols maxRows maxSymbolBytes ⟨next, s.batch⟩ := by
  have hrest := h.atRest.commit hresult
  cases hresult with
  | inserted fresh hrows hinserted =>
    refine h.inserted hinserted hrest (by rw [hrows]) (by rw [hrows]; exact h.data) ?_
    rw [hrows]
    intro row hrow id hid
    obtain ⟨hunknown, hbatch⟩ := h.apart row hrow id hid
    refine ⟨⟨hunknown, ?_⟩, hbatch⟩
    rintro rfl
    exact hbatch (List.mem_map_of_mem hitem)
  | _ => exact h

theorem Inv.step (h : s.Inv maxSymbols maxRows maxSymbolBytes) {action : Action} {t : WindowRun}
    (hstep : s.Step action t) :
    t.Inv maxSymbols maxRows maxSymbolBytes ∧ s.decoder.Fifo t.decoder (s.entering action) := by
  obtain ⟨hallows, rfl⟩ := hstep
  cases action with
  | addSource budget storage id source workBudget =>
    have hresult := s.decoder.addSource_result budget storage id source workBudget
    exact ⟨h.addSource hresult, hresult.fifo h.room⟩
  | addRepair budget firstSymbolId span repairId seed coded workBudget =>
    have hresult := s.decoder.addRepair_result budget firstSymbolId span repairId seed coded workBudget
    refine ⟨?_, Decoder.fifo_stays h.room hresult.known_eq⟩
    by_cases hsize : coded.length ≤ s.decoder.maxSymbolBytes
    · exact h.addRepair hresult hsize
    · obtain ⟨error, herror⟩ := Decoder.addRepair_of_long (not_le.mp hsize) budget firstSymbolId span repairId seed workBudget
      rw [apply, herror]
      exact h.unanswered
  | commit budget storage item charge =>
    have hresult := s.decoder.commitRecoveredPrecharged_result budget storage item.symbolId item.bytes charge
    exact ⟨h.commit hallows hresult, hresult.fifo h.room⟩

theorem Initial.inv (h : Initial maxSymbols maxRows maxSymbolBytes s) : s.Inv maxSymbols maxRows maxSymbolBytes := by
  obtain ⟨memoryBudget, rfl⟩ := h
  refine ⟨rfl, rfl, rfl, ⟨List.forall_mem_nil _, [], rfl, .nil, List.forall_mem_nil _⟩, Nat.zero_le _,
    List.forall_mem_nil _, Nat.zero_le _, List.forall_mem_nil _⟩

/-- In every run the index is that of the queue, whose identifiers are distinct and within the bound, and the rows
have no known identifier and keep within their bounds. Every step moves the two containers as the code does, so that
what it accepts enters behind the others and what leaves is the oldest; and a reuse of the oldest buffer that succeeds
leaves the identifiers, bytes and order that evicting and inserting would leave. -/
theorem window_faithful (h : Reachable (Initial maxSymbols maxRows maxSymbolBytes) Step s) :
    s.Sound maxSymbols maxRows maxSymbolBytes ∧
      (∀ action t, s.Step action t → s.window.Moves maxSymbols t.window ∧
        t.window.contents = (s.window.contents ++ s.entering action).rtake maxSymbols) ∧
      ∀ storage id source retainedBytes, id ∉ s.window.knownIds →
        let reused := s.window.tryReuseOldestSource maxSymbols storage id source
        let inserted := s.window.insertKnown maxSymbols ⟨id, source, retainedBytes⟩
        (reused.1 = true → reused.2.contents = inserted.contents ∧ reused.2.knownIds = inserted.knownIds) ∧
          (reused.1 = false → reused.2 = s.window) := by
  have hinv : s.Inv maxSymbols maxRows maxSymbolBytes :=
    h.invariant (fun _ hs => hs.inv) (fun _ _ _ hs hstep => (hs.step hstep).1)
  have hmax := hinv.maxSymbols_eq
  subst hmax
  refine ⟨hinv.sound, fun action t hstep => (hinv.step hstep).2, fun storage id source retainedBytes fresh => ?_⟩
  exact s.decoder.reuse_as_insert hinv.room storage id source fresh retainedBytes

theorem window_faithful_evicts :
    let symbol := Session.symbolOf ⟨4, 0, false, [7]⟩
    let budget : RecoveryMemoryBudget := ⟨0, 0, 1000000, by decide, false⟩
    let storage : Storage := ⟨false, false, 0, true, 11⟩
    let start : WindowRun := ⟨Decoder.withBudget 1 512 1200 0, []⟩
    let actions := [Action.addRepair budget 10 2 100 7 [69, 0, 0, 0, 225, 195, 43, 0, 0, 195, 115] 20000,
      .addSource budget storage 11 (symbol 11) 20000, .commit budget storage (recoveredOf symbol 10) ⟨0, 64⟩]
    let s := actions.foldl apply start
    let third := Action.addSource budget storage 12 (symbol 12) 20000
    s.window.contents = [(10, symbol 10)] ∧ (s.apply third).window.contents = [(12, symbol 12)] ∧
      s.Sound 1 512 1200 ∧ (s.apply third).window.contents = (s.window.contents ++ s.entering third).rtake 1 ∧
      (s.window.tryReuseOldestSource 1 storage 12 (symbol 12)).1 = true ∧
      (s.window.tryReuseOldestSource 1 storage 12 (symbol 12)).2.knownIds =
        (s.window.insertKnown 1 ⟨12, symbol 12, 11⟩).knownIds := by
  intro symbol budget storage start actions s third
  have hpermits : Reachable.Permits Allows apply start actions := by decide +kernel
  have hreachable : Reachable (Initial 1 512 1200) Step s :=
    Reachable.run (fun _ _ h => ⟨h, rfl⟩) (.start ⟨0, rfl⟩) hpermits
  obtain ⟨hsound, hstep, hreuse⟩ := window_faithful hreachable
  have hsuccess : (s.window.tryReuseOldestSource 1 storage 12 (symbol 12)).1 = true := by decide +kernel
  exact ⟨by decide +kernel, by decide +kernel, hsound, (hstep third _ ⟨trivial, rfl⟩).2, hsuccess,
    ((hreuse storage 12 (symbol 12) 11 (by decide +kernel)).1 hsuccess).2⟩

end WindowRun

end Quicp
