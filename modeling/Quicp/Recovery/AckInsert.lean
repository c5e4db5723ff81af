import Quicp.Library.PartitionPoint
import Quicp.Recovery.AckRanges

/-!
# Inserting into the range vector

The code keeps the later ranges in one vector and edits it by index: a binary search finds the first range that can
meet the new one, a loop merges, and the merged range replaces those it took.
-/

namespace Quicp

/-- The fields of `AckRanges` as the code stores them, in no particular form. -/
structure AckVec where
  contiguous : ℕ
  ranges : List Range
  maxRanges : ℕ
  deriving DecidableEq, Repr

namespace AckVec

def new (maxRanges : ℕ) : AckVec := ⟨0, [], maxRanges⟩

def Represents (ack : AckVec) (i : ℕ) : Prop := i < ack.contiguous ∨ Covers ack.ranges i

/-- The normal form: nonempty ranges in increasing order above the prefix, an offset missing between neighbours, and no
more of them than allowed. -/
structure Normal (ack : AckVec) : Prop where
  separated : Separated ack.ranges
  above : Above ack.contiguous ack.ranges
  bounded : ack.ranges.length ≤ ack.maxRanges

def validateInsert (ack : AckVec) (range : Range) : Except RecoveryError Unit :=
  match validateRange range with
  | .error error => .error error
  | .ok () =>
    if range.stop ≤ ack.contiguous ∨ ack.ranges.length < ack.maxRanges then .ok ()
    else if ack.ranges.any (fun current =>
      decide (current.stop ≥ max range.start ack.contiguous) && decide (current.start ≤ range.stop)) then .ok ()
    else .error .rangeCapacity

/-- The merging loop of `insert` from the index `last` on. -/
def mergeLoop (ranges : List Range) : ℕ → ℕ → Range → ℕ × Range
  | 0, last, merged => (last, merged)
  | turns + 1, last, merged =>
    match ranges[last]? with
    | none => (last, merged)
    | some current =>
      if current.start ≤ merged.stop then
        mergeLoop ranges turns (last + 1) ⟨min merged.start current.start, max merged.stop current.stop⟩
      else (last, merged)

/-- The vector after the merge: the merged range is inserted, or replaces the ranges from `first` up to `last`. -/
def replaceMerged (ranges : List Range) (merged : Range) : List Range :=
  let first := partitionPoint (fun current => decide (current.stop < merged.start)) ranges
  let (last, merged) := mergeLoop ranges ranges.length first merged
  if first = last then ranges.insertIdx first merged
  else (ranges.set first merged).take (first + 1) ++ (ranges.set first merged).drop last

/-- `AckRanges::insert`: what it returns and the fields it leaves. -/
def insert (ack : AckVec) (range : Range) : Except RecoveryError Unit × AckVec :=
  match ack.validateInsert range with
  | .error error => (.error error, ack)
  | .ok () =>
    if range.stop ≤ ack.contiguous then (.ok (), ack)
    else
      let ranges := replaceMerged ack.ranges ⟨max range.start ack.contiguous, range.stop⟩
      let (contiguous, ranges) := advance ack.contiguous ranges
      (.ok (), ⟨contiguous, ranges, ack.maxRanges⟩)

/-- The fields after a sequence of insertions, whatever each of them returned. -/
def insertAll (maxRanges : ℕ) (history : List Range) : AckVec :=
  history.foldl (fun ack range => (ack.insert range).2) (new maxRanges)

theorem mergeLoop_eq (before after : List Range) (merged : Range) {turns : ℕ} (hturns : after.length ≤ turns) :
    ∃ taken, after = taken ++ (absorb merged after).2 ∧
      mergeLoop (before ++ after) turns before.length merged = (before.length + taken.length, (absorb merged after).1) := by
  induction after generalizing before merged turns with
  | nil =>
    refine ⟨[], rfl, ?_⟩
    cases turns <;> simp [mergeLoop, absorb]
  | cons current rest ih =>
    cases turns with
    | zero => simp at hturns
    | succ turns =>
      have hcurrent : (before ++ current :: rest)[before.length]? = some current := by simp
      by_cases hmeets : current.start ≤ merged.stop
      · -- The loop goes on behind the range that it took.
        obtain ⟨taken, htaken, hloop⟩ := ih (before ++ [current])
          ⟨min merged.start current.start, max merged.stop current.stop⟩ (Nat.le_of_succ_le_succ hturns)
        refine ⟨current :: taken, ?_, ?_⟩
        · rw [absorb, if_pos hmeets, List.cons_append, ← htaken]
        · rw [List.append_assoc, List.singleton_append, List.length_append, List.length_singleton] at hloop
          simp only [mergeLoop, hcurrent, if_pos hmeets, hloop, absorb, List.length_cons]
          rw [Nat.add_assoc, Nat.add_comm 1]
      · refine ⟨[], ?_, ?_⟩
        · rw [absorb, if_neg hmeets, List.nil_append]
        · simp [mergeLoop, if_neg hmeets, absorb]

theorem partitioned_of_separated {ranges : List Range} (bound : ℕ) (hsep : Separated ranges)
    (hnonempty : ∀ range ∈ ranges, range.start < range.stop) :
    Partitioned (fun current : Range => decide (current.stop < bound)) ranges := by
  refine hsep.imp_of_mem fun {left right} _ hright hapart => ?_
  have := hnonempty right hright
  simp only [decide_eq_true_eq]
  omega

private theorem insertIdx_length_append (before after : List Range) (item : Range) :
    (before ++ after).insertIdx before.length item = before ++ item :: after := by
  induction before with
  | nil => rfl
  | cons first rest ih => simpa using ih

theorem replaceMerged_eq {ranges : List Range} (merged : Range) (hsep : Separated ranges)
    (hnonempty : ∀ range ∈ ranges, range.start < range.stop) :
    replaceMerged ranges merged = mergeRange merged ranges := by
  set ends := fun current : Range => decide (current.stop < merged.start) with hends
  have hfirst := (partitioned_of_separated merged.start hsep hnonempty).partitionPoint_eq
  have hsplit : ranges.takeWhile ends ++ ranges.dropWhile ends = ranges := List.takeWhile_append_dropWhile
  obtain ⟨taken, htaken, hloop⟩ := mergeLoop_eq (ranges.takeWhile ends) (ranges.dropWhile ends) merged
    (List.dropWhile_suffix ends).length_le
  rw [hsplit] at hloop
  have hmerge : mergeRange merged ranges = ranges.takeWhile ends ++
      (absorb merged (ranges.dropWhile ends)).1 :: (absorb merged (ranges.dropWhile ends)).2 := rfl
  generalize ranges.takeWhile ends = before at *
  generalize absorb merged (ranges.dropWhile ends) = absorbed at *
  rw [htaken] at hsplit
  simp only [replaceMerged, hfirst, hloop]
  rw [hmerge, ← hsplit]
  cases taken with
  | nil => simp [insertIdx_length_append]
  | cons current others =>
    rw [if_neg (by simp)]
    simp [List.take_length_add_append]

def ofAck (ack : AckRanges) : AckVec := ⟨ack.contiguous, ack.ranges, ack.maxRanges⟩

theorem ofAck_normal (ack : AckRanges) : (ofAck ack).Normal := ⟨ack.separated, ack.above, ack.bounded⟩

theorem insert_ofAck (ack : AckRanges) (range : Range) :
    (ofAck ack).insert range = match ack.insert range with
      | .ok next => (.ok (), ofAck next)
      | .error error => (.error error, ofAck ack) := by
  have hvalidate : (ofAck ack).validateInsert range = ack.validateInsert range := rfl
  cases hinsert : ack.insert range with
  | error error => simp only [insert, hvalidate, AckRanges.insert_eq_error_iff.mp hinsert]
  | ok next =>
    obtain ⟨hmax, hfields⟩ := AckRanges.insert_fields hinsert
    simp only [insert, hvalidate, AckRanges.validateInsert_of_insert hinsert]
    have hreplace := replaceMerged_eq (ack.clip range) ack.separated (fun current h => (ack.above current h).2)
    rcases hfields with ⟨hbelow, hcontiguous, hranges⟩ | ⟨hpast, hcontiguous, hranges⟩
    · rw [if_pos (show range.stop ≤ (ofAck ack).contiguous from hbelow), ofAck, ofAck, hcontiguous, hranges, hmax]
    · rw [AckRanges.mergeInsert, ← hreplace] at hcontiguous hranges
      rw [if_neg (show ¬range.stop ≤ (ofAck ack).contiguous from hpast), ofAck, ofAck, hmax, hcontiguous, hranges]
      rfl

theorem exists_ofAck_insertAll (maxRanges : ℕ) (history : List Range) :
    ∃ ack : AckRanges, insertAll maxRanges history = ofAck ack ∧ ack.maxRanges = maxRanges := by
  induction history using List.reverseRecOn with
  | nil => exact ⟨AckRanges.new maxRanges, rfl, rfl⟩
  | append_singleton earlier range ih =>
    obtain ⟨ack, hack, hmax⟩ := ih
    rw [insertAll] at hack ⊢
    rw [List.foldl_append, List.foldl_cons, List.foldl_nil, hack, insert_ofAck]
    cases hinsert : ack.insert range with
    | error error => exact ⟨ack, rfl, hmax⟩
    | ok next => exact ⟨next, rfl, (AckRanges.insert_spec hinsert).1.trans hmax⟩

/-- `AckRanges` is a normalised set: after any insertions its fields are in normal form with the capacity of the start,
a further insertion that returns `Ok` takes the union, and one that fails changes nothing. -/
theorem ack_ranges_normalised_set (maxRanges : ℕ) (history : List Range) :
    (insertAll maxRanges history).Normal ∧ (insertAll maxRanges history).maxRanges = maxRanges ∧
    ∀ range : Range,
      ((insertAll maxRanges history).insert range).2 = insertAll maxRanges (history ++ [range]) ∧
      (((insertAll maxRanges history).insert range).1 = .ok () → ∀ i,
        ((insertAll maxRanges history).insert range).2.Represents i ↔
          (insertAll maxRanges history).Represents i ∨ range.Contains i) ∧
      ∀ error, ((insertAll maxRanges history).insert range).1 = .error error →
        ((insertAll maxRanges history).insert range).2 = insertAll maxRanges history := by
  obtain ⟨ack, hack, hmax⟩ := exists_ofAck_insertAll maxRanges history
  have hnext : ∀ range, insertAll maxRanges (history ++ [range]) = ((insertAll maxRanges history).insert range).2 :=
    fun range => by simp only [insertAll, List.foldl_append, List.foldl_cons, List.foldl_nil]
  refine ⟨hack ▸ ofAck_normal ack, hack ▸ hmax, fun range => ⟨(hnext range).symm, ?_⟩⟩
  rw [hack, insert_ofAck]
  cases hinsert : ack.insert range with
  | error error => exact ⟨nofun, fun _ _ => rfl⟩
  | ok next => exact ⟨fun _ => (AckRanges.insert_spec hinsert).2.2, nofun⟩

theorem ack_ranges_normalised_set_full :
    (∀ i, ((insertAll 1 [⟨4, 8⟩]).insert ⟨0, 4⟩).2.Represents i ↔
      (insertAll 1 [⟨4, 8⟩]).Represents i ∨ (Range.mk 0 4).Contains i) ∧
    ((insertAll 1 [⟨4, 8⟩]).insert ⟨12, 16⟩).2 = insertAll 1 [⟨4, 8⟩] :=
  ⟨((ack_ranges_normalised_set 1 [⟨4, 8⟩]).2.2 ⟨0, 4⟩).2.1 (by decide),
    ((ack_ranges_normalised_set 1 [⟨4, 8⟩]).2.2 ⟨12, 16⟩).2.2 .rangeCapacity (by decide)⟩

end AckVec

end Quicp
