import Quicp.Fec.Decoder

/-!
# The window of the decoder as the code keeps it

The code keeps a queue of sources and, beside it, an index of their identifiers, and updates the two by hand: a new
source is pushed and the oldest ones are popped, or the oldest source is taken out and its buffer either goes back or
is pushed again with the new bytes.
-/

namespace Quicp

/-- The fields `known` and `known_ids` of the decoder. -/
structure Window where
  known : List KnownSource
  knownIds : Finset UInt32
  deriving DecidableEq

namespace Window

/-- The loop of `insert_known`; `turns` bounds its rounds. -/
def evict (maxSymbols : ℕ) : ℕ → Window → Window
  | 0, w => w
  | turns + 1, w =>
    if w.known.length > maxSymbols then
      match w.known with
      | [] => evict maxSymbols turns w
      | oldest :: rest => evict maxSymbols turns ⟨rest, w.knownIds.erase oldest.symbolId⟩
    else w

/-- `insert_known` without the release of memory. -/
def insertKnown (maxSymbols : ℕ) (w : Window) (source : KnownSource) : Window :=
  evict maxSymbols (w.known.length + 1) ⟨w.known ++ [source], insert source.symbolId w.knownIds⟩

/-- `try_reuse_oldest_source` without the release of memory. -/
def tryReuseOldestSource (maxSymbols : ℕ) (w : Window) (storage : Storage) (symbolId : UInt32)
    (source : List UInt8) : Bool × Window :=
  if w.known.length < maxSymbols then (false, w)
  else
    match w.known with
    | [] => (false, w)
    | oldest :: rest =>
      let ids := w.knownIds.erase oldest.symbolId
      if oldest.retainedBytes < source.length then (false, ⟨oldest :: rest, insert oldest.symbolId ids⟩)
      else if !storage.oldestIntoMut then
        (false, ⟨⟨oldest.symbolId, oldest.bytes, oldest.retainedBytes⟩ :: rest, insert oldest.symbolId ids⟩)
      else (true, ⟨rest ++ [⟨symbolId, source, storage.oldestCapacity⟩], insert symbolId ids⟩)

/-- The identifiers and bytes of the sources, oldest first. -/
def contents (w : Window) : List (UInt32 × List UInt8) :=
  w.known.map fun source => (source.symbolId, source.bytes)

inductive Moves (maxSymbols : ℕ) (w : Window) : Window → Prop
  | stays : Moves maxSymbols w w
  | inserts (source : KnownSource) : Moves maxSymbols w (w.insertKnown maxSymbols source)
  | reuses {next : Window} {storage : Storage} {symbolId : UInt32} {source : List UInt8}
      (h : w.tryReuseOldestSource maxSymbols storage symbolId source = (true, next)) : Moves maxSymbols w next

private theorem known_evict {maxSymbols turns : ℕ} {w : Window} (h : w.known.length ≤ turns) :
    (w.evict maxSymbols turns).known = w.known.rtake maxSymbols := by
  induction turns generalizing w with
  | zero =>
    rw [evict, List.eq_nil_of_length_eq_zero (Nat.le_zero.mp h), List.rtake_nil]
  | succ turns ih =>
    rw [evict]
    split_ifs with hlong
    · split
      · next hnil => exact absurd hlong (by simp [hnil])
      · next oldest rest hknown =>
        rw [hknown, List.length_cons] at h hlong
        rw [ih (Nat.le_of_succ_le_succ h), hknown, List.rtake, List.rtake, List.length_cons,
          show rest.length + 1 - maxSymbols = rest.length - maxSymbols + 1 by omega, List.drop_succ_cons]
    · rw [List.rtake, Nat.sub_eq_zero_of_le (not_lt.mp hlong), List.drop_zero]

theorem known_insertKnown (maxSymbols : ℕ) (w : Window) (source : KnownSource) :
    (w.insertKnown maxSymbols source).known = (w.known ++ [source]).rtake maxSymbols :=
  known_evict (by simp)

theorem known_reused {maxSymbols : ℕ} {w next : Window} {storage : Storage} {symbolId : UInt32}
    {source : List UInt8} (hlength : w.known.length ≤ maxSymbols)
    (h : w.tryReuseOldestSource maxSymbols storage symbolId source = (true, next)) :
    next.known = (w.known ++ [KnownSource.mk symbolId source storage.oldestCapacity]).rtake maxSymbols := by
  unfold tryReuseOldestSource at h
  by_cases hroom : w.known.length < maxSymbols
  · rw [if_pos hroom] at h
    cases h
  · rw [if_neg hroom] at h
    split at h
    · cases h
    · next oldest rest hknown =>
      dsimp only at h
      split_ifs at h
      · cases h
      · cases h
      · cases h
        rw [hknown, List.length_cons] at hlength hroom
        rw [List.rtake, hknown, List.length_append, List.length_cons, List.length_singleton,
          show rest.length + 1 + 1 - maxSymbols = 1 by omega, List.cons_append, List.drop_succ_cons, List.drop_zero]

theorem contents_of_known {maxSymbols : ℕ} {w next : Window} {source : KnownSource}
    (h : next.known = (w.known ++ [source]).rtake maxSymbols) :
    next.contents = (w.contents ++ [(source.symbolId, source.bytes)]).rtake maxSymbols := by
  rw [contents, h, contents, List.rtake, List.rtake, List.map_drop, List.map_append]
  simp

end Window

namespace KnownSources

def window (known : KnownSources) : Window := ⟨known.queue, known.ids⟩

private theorem window_evict {maxSymbols turns : ℕ} (known : KnownSources) :
    (known.evict maxSymbols turns).window = known.window.evict maxSymbols turns := by
  induction turns generalizing known with
  | zero => rfl
  | succ turns ih =>
    rw [evict, Window.evict]
    by_cases hlong : known.queue.length > maxSymbols
    · rw [if_pos hlong, if_pos (show known.window.known.length > maxSymbols from hlong)]
      cases hpop : known.popFront with
      | none =>
        have hnil := popFront_eq_none hpop
        rw [hnil] at hlong
        cases hlong
      | some popped =>
        obtain ⟨oldest, rest⟩ := popped
        obtain ⟨hqueue, hids⟩ := popFront_eq_some hpop
        have hknown : known.window.known = oldest :: rest.queue := hqueue
        simp only [hknown]
        rw [ih rest, window, hids]
        rfl
    · rw [if_neg hlong, if_neg (show ¬known.window.known.length > maxSymbols from hlong)]

theorem ids_eq_of_contents {known known' : KnownSources} (h : known.window.contents = known'.window.contents) :
    known.ids = known'.ids := by
  have hids := congrArg (List.map Prod.fst) h
  rw [Window.contents, Window.contents, List.map_map, List.map_map] at hids
  rw [known.indexed, known'.indexed]
  exact congrArg List.toFinset hids

end KnownSources

namespace Decoder

theorem window_insertKnown (d : Decoder) (budget : RecoveryMemoryBudget) (source : KnownSource)
    (fresh : source.symbolId ∉ d.known.ids) (released : ℕ) :
    (d.insertKnown budget source fresh released).1.known.window =
      d.known.window.insertKnown d.maxSymbols source := by
  rw [insertKnown, KnownSources.window_evict, Window.insertKnown, KnownSources.pushBack, List.length_append]
  rfl

theorem window_tryReuseOldestSource (d : Decoder) (budget : RecoveryMemoryBudget) (storage : Storage)
    (symbolId : UInt32) (source : List UInt8) (fresh : symbolId ∉ d.known.ids) :
    d.known.window.tryReuseOldestSource d.maxSymbols storage symbolId source =
      ((d.tryReuseOldestSource budget storage symbolId source fresh).1,
        (d.tryReuseOldestSource budget storage symbolId source fresh).2.1.known.window) := by
  symm
  unfold tryReuseOldestSource Window.tryReuseOldestSource
  by_cases hroom : d.known.queue.length < d.maxSymbols
  · rw [if_pos hroom, if_pos (show d.known.window.known.length < d.maxSymbols from hroom)]
  · rw [if_neg hroom, if_neg (show ¬d.known.window.known.length < d.maxSymbols from hroom)]
    split
    · next hpop =>
      have hnil : d.known.window.known = [] := KnownSources.popFront_eq_none hpop
      simp only [hnil]
    · next oldest rest hpop =>
      obtain ⟨hqueue, hids⟩ := KnownSources.popFront_eq_some hpop
      have hknown : d.known.window.known = oldest :: rest.queue := hqueue
      have herase : d.known.window.knownIds.erase oldest.symbolId = rest.ids := hids.symm
      simp only [hknown, herase]
      split_ifs <;> rfl

theorem reuse_as_insert (d : Decoder) (hroom : d.known.queue.length ≤ d.maxSymbols) (storage : Storage)
    (symbolId : UInt32) (source : List UInt8) (fresh : symbolId ∉ d.known.ids) (retainedBytes : ℕ) :
    let reused := d.known.window.tryReuseOldestSource d.maxSymbols storage symbolId source
    let inserted := d.known.window.insertKnown d.maxSymbols ⟨symbolId, source, retainedBytes⟩
    (reused.1 = true → reused.2.contents = inserted.contents ∧ reused.2.knownIds = inserted.knownIds) ∧
      (reused.1 = false → reused.2 = d.known.window) := by
  intro reused inserted
  -- The budget plays no part in what happens to the containers.
  let budget : RecoveryMemoryBudget := ⟨0, 0, 0, Nat.zero_le _, false⟩
  have hreused : reused = _ := d.window_tryReuseOldestSource budget storage symbolId source fresh
  have hinserted : inserted = _ := (d.window_insertKnown budget ⟨symbolId, source, retainedBytes⟩ fresh 0).symm
  refine ⟨fun hsuccess => ?_, fun hfailure => ?_⟩
  · have hcontents : reused.2.contents = inserted.contents := by
      rw [Window.contents_of_known (Window.known_reused hroom (Prod.ext hsuccess rfl)),
        Window.contents_of_known (Window.known_insertKnown _ _ ⟨symbolId, source, retainedBytes⟩)]
    refine ⟨hcontents, ?_⟩
    rw [hreused, hinserted] at hcontents ⊢
    exact KnownSources.ids_eq_of_contents hcontents
  · rw [hreused] at hfailure ⊢
    exact congrArg (fun result => result.1.known.window) (tryReuseOldestSource_eq_false hfailure)

end Decoder

end Quicp
