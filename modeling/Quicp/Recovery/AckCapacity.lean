import Quicp.Library.RunCount
import Quicp.Recovery.AckInsert

/-!
# What a full range list refuses

A list that is full takes a range only when that range meets a recorded one. A range that extends the
contiguous prefix needs no entry either, but the check does not look at the prefix: such a range is
refused unless it reaches as far as the first recorded range.
-/

namespace Quicp

namespace AckVec

/-- The offsets that the fields represent, together with those of a range. -/
def unionWith (ack : AckVec) (range : Range) : Set ℕ := {i | ack.Represents i ∨ range.Contains i}

/-- The list is full, and the range extends the prefix without reaching a recorded range. -/
def Extends (ack : AckVec) (range : Range) : Prop :=
  ack.ranges.length = ack.maxRanges ∧ range.start ≤ ack.contiguous ∧ ack.contiguous < range.stop ∧
    ∀ current ∈ ack.ranges, range.stop < current.start

theorem runCount_normal {contiguous : ℕ} {ranges : List Range} (hsep : Separated ranges)
    (habove : Above contiguous ranges) : runCount {i | i < contiguous ∨ Covers ranges i} = ranges.length := by
  induction ranges with
  | nil =>
    have hnone : runStarts {i | i < contiguous ∨ Covers [] i} = ∅ := by
      ext i
      simp only [runStarts, Covers, List.not_mem_nil, false_and, exists_false, or_false, Set.mem_ofPred_eq,
        Set.mem_empty_iff_false, iff_false]
      omega
    rw [runCount, hnone, Set.encard_empty]
    rfl
  | cons range rest ih =>
    obtain ⟨hapart, hsep⟩ := List.pairwise_cons.mp hsep
    obtain ⟨hfirst, hrest⟩ := List.forall_mem_cons.mp habove
    have hsplit : {i | i < contiguous ∨ Covers (range :: rest) i} =
        {i | i < contiguous ∨ Covers rest i} ∪ Set.Ico range.start range.stop := by
      ext i
      simp only [Set.mem_ofPred_eq, Set.mem_union, Set.mem_Ico, covers_cons]
      rw [or_left_comm, or_comm]
      rfl
    have hfree : ∀ i, range.start ≤ i + 1 → i ≤ range.stop → i ∉ {i | i < contiguous ∨ Covers rest i} := by
      rintro i hlow hhigh (hin | ⟨later, hmem, hin⟩)
      · omega
      · have := hapart later hmem
        have := hin.1
        omega
    rw [hsplit, runCount_union_apart (by omega) hfirst.2 hfree, ih hsep hrest, List.length_cons]
    rfl

theorem unionWith_eq (ack : AckVec) (range : Range) :
    ack.unionWith range = {i | ack.Represents i} ∪ Set.Ico range.start range.stop := rfl

variable {ack : AckRanges} {range : Range}

theorem runCount_ofAck (ack : AckRanges) : runCount {i | (ofAck ack).Represents i} = ack.ranges.length :=
  runCount_normal ack.separated ack.above

theorem runCount_le_of_insert {next : AckRanges} (h : ack.insert range = .ok next) :
    runCount ((ofAck ack).unionWith range) ≤ ack.maxRanges := by
  obtain ⟨hmax, -, hunion⟩ := AckRanges.insert_spec h
  have hsame : (ofAck ack).unionWith range = {i | (ofAck next).Represents i} := Set.ext fun i => (hunion i).symm
  rw [hsame, runCount_ofAck, ← hmax]
  exact_mod_cast next.bounded

theorem insert_eq_rangeCapacity (hvalid : range.start < range.stop) (hwire : range.stop ≤ maxWireOffset) :
    ack.insert range = .error .rangeCapacity ↔ ack.contiguous < range.stop ∧ ack.ranges.length = ack.maxRanges ∧
      ∀ current ∈ ack.ranges, current.stop < max range.start ack.contiguous ∨ range.stop < current.start := by
  have hbounded := ack.bounded
  have hrefused : ack.validateInsert range = .error .rangeCapacity ↔ ¬ack.validateInsert range = .ok () := by
    rcases ack.validateInsert_of_valid range hvalid hwire with h | h <;> simp [h]
  rw [AckRanges.insert_eq_error_iff, hrefused, AckRanges.validateInsert_eq_ok]
  constructor
  · intro hnot
    refine ⟨?_, ?_, fun current hmem => ?_⟩
    · exact not_le.mp fun hbelow => hnot ⟨⟨hvalid, hwire⟩, Or.inl hbelow⟩
    · exact hbounded.antisymm (not_lt.mp fun hroom => hnot ⟨⟨hvalid, hwire⟩, Or.inr (Or.inl hroom)⟩)
    · by_contra hmeets
      exact hnot ⟨⟨hvalid, hwire⟩, Or.inr (Or.inr ⟨current, hmem, by omega, by omega⟩)⟩
  · rintro ⟨hpast, hfull, hapart⟩ ⟨-, hbelow | hroom | ⟨current, hmem, hmeets⟩⟩
    · omega
    · omega
    · have := hapart current hmem
      omega

theorem runCount_union_of_apart (hvalid : range.start < range.stop) (hpast : ack.contiguous < range.start)
    (hapart : ∀ current ∈ ack.ranges, current.stop < range.start ∨ range.stop < current.start) :
    runCount ((ofAck ack).unionWith range) = ack.ranges.length + 1 := by
  rw [unionWith_eq, runCount_union_apart (by omega) hvalid, runCount_ofAck]
  rintro i hlow hhigh (hin | ⟨current, hmem, hin⟩)
  · exact absurd hin (by change ¬i < ack.contiguous; omega)
  · have hcurrent := hapart current hmem
    have hstart := hin.1
    have hstop := hin.2
    omega

theorem runCount_union_of_extends (h : (ofAck ack).Extends range) :
    runCount ((ofAck ack).unionWith range) = ack.ranges.length := by
  obtain ⟨-, hstart, -, hshort⟩ := h
  have hbelow : ∀ i < ack.contiguous, i ∈ {i | (ofAck ack).Represents i} := fun i hi => Or.inl hi
  rw [unionWith_eq, runCount_union_extends hbelow hstart, runCount_ofAck]
  rintro i hlow hhigh (hin | ⟨current, hmem, hin⟩)
  · exact absurd hin (by change ¬i < ack.contiguous; omega)
  · have := hshort current hmem
    have := hin.1
    omega

theorem insert_of_extends (hvalid : range.start < range.stop) (hwire : range.stop ≤ maxWireOffset)
    (h : (ofAck ack).Extends range) : ack.insert range = .error .rangeCapacity :=
  (insert_eq_rangeCapacity hvalid hwire).mpr ⟨h.2.2.1, h.1, fun current hmem => Or.inr (h.2.2.2 current hmem)⟩

theorem apart_of_refused (hvalid : range.start < range.stop) (hwire : range.stop ≤ maxWireOffset)
    (hnot : ¬(ofAck ack).Extends range) (h : ack.insert range = .error .rangeCapacity) :
    ack.contiguous < range.start ∧ ack.ranges.length = ack.maxRanges ∧
      ∀ current ∈ ack.ranges, current.stop < range.start ∨ range.stop < current.start := by
  obtain ⟨hpast, hfull, hapart⟩ := (insert_eq_rangeCapacity hvalid hwire).mp h
  have hstart : ack.contiguous < range.start := by
    by_contra hlow
    refine hnot ⟨hfull, not_lt.mp hlow, hpast, fun current hmem => ?_⟩
    have := ack.above current hmem
    have := hapart current hmem
    omega
  refine ⟨hstart, hfull, fun current hmem => ?_⟩
  have := hapart current hmem
  omega

theorem exists_insert_of_ne (hvalid : range.start < range.stop) (hwire : range.stop ≤ maxWireOffset)
    (h : ack.insert range ≠ .error .rangeCapacity) : ∃ next, ack.insert range = .ok next := by
  rcases ack.validateInsert_of_valid range hvalid hwire with hok | hrefused
  · exact AckRanges.exists_insert_of_valid hok
  · exact absurd (AckRanges.insert_eq_error_iff.mpr hrefused) h

/-- After any insertions a valid range is refused for the capacity exactly when the union with it needs more ranges than
allowed, unless the range extends the prefix of a full list without reaching an entry: that one is refused although it
needs none, and it is the only one that starts within the prefix or right behind it and is refused. -/
theorem range_capacity_iff (maxRanges : ℕ) (history : List Range) (range : Range) (hvalid : range.start < range.stop)
    (hwire : range.stop ≤ maxWireOffset) :
    ((((insertAll maxRanges history).insert range).1 = .error .rangeCapacity ↔
        maxRanges < runCount ((insertAll maxRanges history).unionWith range)) ↔
      ¬(insertAll maxRanges history).Extends range) ∧
    (range.start ≤ (insertAll maxRanges history).contiguous →
      (((insertAll maxRanges history).insert range).1 = .error .rangeCapacity ↔
        (insertAll maxRanges history).Extends range)) := by
  obtain ⟨ack, hack, rfl⟩ := exists_ofAck_insertAll maxRanges history
  have hresult : ((ofAck ack).insert range).1 = .error .rangeCapacity ↔ ack.insert range = .error .rangeCapacity := by
    rw [insert_ofAck]
    cases ack.insert range <;> simp
  rw [hack, hresult]
  refine ⟨⟨fun hiff hextends => ?_, fun hnot => ⟨fun hrefused => ?_, fun hmore => ?_⟩⟩, fun hlow => ⟨fun hrefused => ?_,
    insert_of_extends hvalid hwire⟩⟩
  · have hmore := hiff.mp (insert_of_extends hvalid hwire hextends)
    rw [runCount_union_of_extends hextends] at hmore
    exact absurd (Nat.cast_lt.mp hmore) (not_lt.mpr ack.bounded)
  · obtain ⟨hstart, hfull, hapart⟩ := apart_of_refused hvalid hwire hnot hrefused
    rw [runCount_union_of_apart hvalid hstart hapart, hfull]
    exact_mod_cast Nat.lt_succ_self ack.maxRanges
  · by_contra haccepted
    obtain ⟨next, hnext⟩ := exists_insert_of_ne hvalid hwire haccepted
    exact absurd hmore (not_lt.mpr (runCount_le_of_insert hnext))
  · by_contra hnot
    have := (apart_of_refused hvalid hwire hnot hrefused).1
    exact absurd hlow (not_le.mpr this)

theorem range_capacity_iff_apart :
    ¬(insertAll 1 [⟨4, 8⟩]).Extends ⟨12, 16⟩ ∧
      (((insertAll 1 [⟨4, 8⟩]).insert ⟨12, 16⟩).1 = .error .rangeCapacity ↔
        (1 : ℕ) < runCount ((insertAll 1 [⟨4, 8⟩]).unionWith ⟨12, 16⟩)) := by
  have hnot : ¬(insertAll 1 [⟨4, 8⟩]).Extends ⟨12, 16⟩ := fun h => absurd h.2.1 (by decide)
  exact ⟨hnot, (range_capacity_iff 1 [⟨4, 8⟩] ⟨12, 16⟩ (by decide) (by decide)).1.mpr hnot⟩

/-- With one entry allowed and the range from 4 to 8 recorded, the first two offsets are refused, although the union
needs one range only. -/
theorem range_capacity_refuses_extension :
    ((insertAll 1 [⟨4, 8⟩]).insert ⟨0, 2⟩).1 = .error .rangeCapacity ∧
      (0 : ℕ) ≤ (insertAll 1 [⟨4, 8⟩]).contiguous ∧
      runCount ((insertAll 1 [⟨4, 8⟩]).unionWith ⟨0, 2⟩) = 1 := by
  refine ⟨by decide, Nat.zero_le _, ?_⟩
  have hunion : (insertAll 1 [⟨4, 8⟩]).unionWith ⟨0, 2⟩ = {i | i < 2 ∨ Covers [⟨4, 8⟩] i} := by
    have hack : insertAll 1 [⟨4, 8⟩] = ⟨0, [⟨4, 8⟩], 1⟩ := by decide
    ext i
    simp only [unionWith, hack, Represents, Covers, Range.Contains, List.mem_singleton, exists_eq_left, Set.mem_ofPred_eq]
    omega
  rw [hunion, runCount_normal (List.pairwise_singleton _ _) (by simp [Above])]
  rfl

end AckVec

end Quicp
