import Quicp.Recovery.Arithmetic

/-!
# Logical acknowledgement ranges

`AckRanges` keeps one contiguous prefix and a bounded list of later ranges. Its value always is in normal form: the
ranges lie above the prefix, are nonempty, and neither overlap nor touch.
-/

namespace Quicp

/-- Ranges in increasing order with a gap between neighbours. -/
def Separated (ranges : List Range) : Prop :=
  ranges.Pairwise (fun left right => left.stop < right.start)

/-- Nonempty ranges that all start past the contiguous prefix. -/
def Above (contiguous : ℕ) (ranges : List Range) : Prop :=
  ∀ range ∈ ranges, contiguous < range.start ∧ range.start < range.stop

def Covers (ranges : List Range) (i : ℕ) : Prop := ∃ range ∈ ranges, range.Contains i

/-- `AckRanges`: a contiguous prefix and at most `maxRanges` separated ranges above it. -/
structure AckRanges where
  contiguous : ℕ
  ranges : List Range
  maxRanges : ℕ
  separated : Separated ranges
  above : Above contiguous ranges
  bounded : ranges.length ≤ maxRanges

def AckRanges.Represents (ack : AckRanges) (i : ℕ) : Prop :=
  i < ack.contiguous ∨ Covers ack.ranges i

def AckRanges.new (maxRanges : ℕ) : AckRanges where
  contiguous := 0
  ranges := []
  maxRanges := maxRanges
  separated := List.Pairwise.nil
  above := by simp [Above]
  bounded := Nat.zero_le _

/-- A recorded range overlaps or touches the new range clipped to the prefix. -/
def AckRanges.touches (ack : AckRanges) (range : Range) : Bool :=
  ack.ranges.any (fun current =>
    decide (current.stop ≥ max range.start ack.contiguous) && decide (current.start ≤ range.stop))

/-- `validate_insert`: a full range list only takes what it can merge. -/
def AckRanges.validateInsert (ack : AckRanges) (range : Range) : Except RecoveryError Unit :=
  match validateRange range with
  | .error error => .error error
  | .ok () =>
    if range.stop ≤ ack.contiguous ∨ ack.ranges.length < ack.maxRanges then .ok ()
    else if ack.touches range then .ok ()
    else .error .rangeCapacity

/-- The merging loop: absorb every following range that starts within the merged one. -/
def absorb (merged : Range) : List Range → Range × List Range
  | [] => (merged, [])
  | current :: rest =>
    if current.start ≤ merged.stop then
      absorb ⟨min merged.start current.start, max merged.stop current.stop⟩ rest
    else (merged, current :: rest)

/-- The closing loop: move every leading range that reaches the prefix into it. -/
def advance (contiguous : ℕ) : List Range → ℕ × List Range
  | [] => (contiguous, [])
  | first :: rest =>
    if first.start ≤ contiguous then advance (max contiguous first.stop) rest
    else (contiguous, first :: rest)

/-- The range list after merging a range: those before it, the merged one, those after it. -/
def mergeRange (merged : Range) (ranges : List Range) : List Range :=
  let ends := fun current : Range => decide (current.stop < merged.start)
  let absorbed := absorb merged (ranges.dropWhile ends)
  ranges.takeWhile ends ++ absorbed.1 :: absorbed.2

/-- What the merging loop leaves: a range that took the absorbed ones, and a tail past it. -/
structure Absorbed (merged : Range) (ranges : List Range) (result : Range × List Range) : Prop where
  nonempty : result.1.start < result.1.stop
  lower : ∀ bound, bound ≤ merged.start → (∀ range ∈ ranges, bound ≤ range.start) →
    bound ≤ result.1.start
  past : ∀ range ∈ result.2, result.1.stop < range.start
  tail : result.2 <:+ ranges
  covers : ∀ i, (result.1.Contains i ∨ Covers result.2 i) ↔ (merged.Contains i ∨ Covers ranges i)

private theorem hull_contains {left right : Range} (hmeet : right.start ≤ left.stop)
    (hmeet' : left.start ≤ right.stop) (i : ℕ) :
    (Range.mk (min left.start right.start) (max left.stop right.stop)).Contains i ↔
      left.Contains i ∨ right.Contains i := by
  unfold Range.Contains
  dsimp only
  omega

theorem covers_cons (first : Range) (rest : List Range) (i : ℕ) :
    Covers (first :: rest) i ↔ first.Contains i ∨ Covers rest i := by
  simp [Covers]

theorem covers_append (left right : List Range) (i : ℕ) :
    Covers (left ++ right) i ↔ Covers left i ∨ Covers right i := by
  simp only [Covers, List.mem_append, or_and_right, exists_or]

variable {ranges : List Range}

theorem absorb_spec (merged : Range) (hmerged : merged.start < merged.stop)
    (hsep : Separated ranges) (hnonempty : ∀ range ∈ ranges, range.start < range.stop)
    (hreach : ∀ range ∈ ranges, merged.start ≤ range.stop) :
    Absorbed merged ranges (absorb merged ranges) := by
  induction ranges generalizing merged with
  | nil => exact ⟨hmerged, fun _ h _ => h, by simp [absorb], List.suffix_refl _, by simp [absorb]⟩
  | cons current rest ih =>
    have hrest := List.pairwise_cons.mp hsep
    have hmeet := hreach current List.mem_cons_self
    by_cases hstart : current.start ≤ merged.stop
    · simp only [absorb, if_pos hstart]
      have hgrown := ih ⟨min merged.start current.start, max merged.stop current.stop⟩ (by simp; omega)
        hrest.2 (fun range h => hnonempty range (List.mem_cons_of_mem _ h))
        (fun range h => by have := hreach range (List.mem_cons_of_mem _ h); simp; omega)
      refine ⟨hgrown.nonempty, fun bound hbound hall => ?_, hgrown.past,
        hgrown.tail.trans (List.suffix_cons _ _), fun i => ?_⟩
      · exact hgrown.lower bound (le_min hbound (hall current List.mem_cons_self))
          (fun range h => hall range (List.mem_cons_of_mem _ h))
      · rw [hgrown.covers i, hull_contains hstart hmeet, covers_cons, or_assoc]
    · simp only [absorb, if_neg hstart]
      refine ⟨hmerged, fun _ h _ => h, fun range hrange => ?_, List.suffix_refl _, fun i => Iff.rfl⟩
      change merged.stop < range.start
      have hcurrent := hnonempty current List.mem_cons_self
      rcases List.mem_cons.mp hrange with rfl | hrange
      · omega
      · have := hrest.1 range hrange
        omega

private theorem dropWhile_reaches (bound : ℕ) (hsep : Separated ranges)
    (hnonempty : ∀ range ∈ ranges, range.start < range.stop) :
    ∀ range ∈ ranges.dropWhile (fun current => decide (current.stop < bound)), bound ≤ range.stop := by
  induction ranges with
  | nil => simp
  | cons current rest ih =>
    have hrest := List.pairwise_cons.mp hsep
    intro range hrange
    rw [List.dropWhile_cons] at hrange
    split_ifs at hrange with hends
    · exact ih hrest.2 (fun other h => hnonempty other (List.mem_cons_of_mem _ h)) range hrange
    · simp only [decide_eq_true_eq, not_lt] at hends
      rcases List.mem_cons.mp hrange with rfl | hrange
      · exact hends
      · have := hrest.1 range hrange
        have := hnonempty range (List.mem_cons_of_mem _ hrange)
        omega

theorem mergeRange_spec {merged : Range} (hmerged : merged.start < merged.stop)
    (hsep : Separated ranges) (hnonempty : ∀ range ∈ ranges, range.start < range.stop) :
    Separated (mergeRange merged ranges) ∧
      (∀ range ∈ mergeRange merged ranges, range.start < range.stop) ∧
      (∀ i, Covers (mergeRange merged ranges) i ↔ merged.Contains i ∨ Covers ranges i) := by
  set ends := fun current : Range => decide (current.stop < merged.start) with hends
  have hsplit : ranges.takeWhile ends ++ ranges.dropWhile ends = ranges :=
    List.takeWhile_append_dropWhile
  have hparts : Separated (ranges.takeWhile ends ++ ranges.dropWhile ends) := hsplit.symm ▸ hsep
  obtain ⟨hbefore, hafter, hacross⟩ := List.pairwise_append.mp hparts
  have hmem : ∀ range ∈ ranges.dropWhile ends, range ∈ ranges :=
    fun range h => (List.dropWhile_suffix ends).mem h
  have habsorbed := absorb_spec merged hmerged hafter (fun range h => hnonempty range (hmem range h))
    (dropWhile_reaches merged.start hsep hnonempty)
  have hearly : ∀ range ∈ ranges.takeWhile ends, range.stop < merged.start :=
    fun range h => by simpa [hends] using List.mem_takeWhile_imp h
  refine ⟨List.pairwise_append.mpr ⟨hbefore, List.pairwise_cons.mpr ⟨habsorbed.past,
    hafter.sublist habsorbed.tail.sublist⟩, fun left hleft right hright => ?_⟩, fun range hrange => ?_,
    fun i => ?_⟩
  · rcases List.mem_cons.mp hright with rfl | hright
    · exact habsorbed.lower (left.stop + 1) (hearly left hleft) (fun range h => hacross left hleft range h)
    · exact hacross left hleft right (habsorbed.tail.mem hright)
  · rcases List.mem_append.mp hrange with h | h
    · exact hnonempty range ((List.takeWhile_prefix ends).mem h)
    · rcases List.mem_cons.mp h with rfl | h
      · exact habsorbed.nonempty
      · exact hnonempty range (hmem range (habsorbed.tail.mem h))
  · have hcovers := habsorbed.covers i
    have hwhole := covers_append (ranges.takeWhile ends) (ranges.dropWhile ends) i
    rw [hsplit] at hwhole
    change Covers (ranges.takeWhile ends ++ _ :: _) i ↔ _
    rw [covers_append, covers_cons, hcovers, hwhole, or_left_comm]

private theorem absorb_length (merged : Range) (ranges : List Range) :
    (absorb merged ranges).2.length ≤ ranges.length := by
  induction ranges generalizing merged with
  | nil => simp [absorb]
  | cons current rest ih =>
    simp only [absorb]
    split_ifs
    · exact (ih _).trans (Nat.le_succ _)
    · exact Nat.le_refl _

theorem mergeRange_length (merged : Range) (ranges : List Range) :
    (mergeRange merged ranges).length ≤ ranges.length + 1 := by
  have hsplit := congrArg List.length
    (List.takeWhile_append_dropWhile (p := fun current : Range => decide (current.stop < merged.start))
      (l := ranges))
  have htail := absorb_length merged
    (ranges.dropWhile (fun current : Range => decide (current.stop < merged.start)))
  simp only [mergeRange, List.length_append, List.length_cons] at hsplit ⊢
  omega

theorem mergeRange_length_of_touching {merged current : Range}
    (hsep : Separated ranges) (hnonempty : ∀ range ∈ ranges, range.start < range.stop)
    (hmem : current ∈ ranges) (hstop : merged.start ≤ current.stop) (hstart : current.start ≤ merged.stop) :
    (mergeRange merged ranges).length ≤ ranges.length := by
  set ends := fun current : Range => decide (current.stop < merged.start) with hends
  have hsplit := congrArg List.length (List.takeWhile_append_dropWhile (p := ends) (l := ranges))
  have hdrop : current ∈ ranges.dropWhile ends := by
    have hwhole : current ∈ ranges.takeWhile ends ++ ranges.dropWhile ends := by
      rwa [List.takeWhile_append_dropWhile]
    rcases List.mem_append.mp hwhole with h | h
    · have : current.stop < merged.start := by simpa [hends] using List.mem_takeWhile_imp h
      omega
    · exact h
  cases hlist : ranges.dropWhile ends with
  | nil => simp [hlist] at hdrop
  | cons first rest =>
    have hpair : Separated (first :: rest) := hlist ▸ hsep.sublist (List.dropWhile_sublist ends)
    have hfirst : first.start ≤ merged.stop := by
      rcases List.mem_cons.mp (hlist ▸ hdrop) with rfl | h
      · exact hstart
      · have := (List.pairwise_cons.mp hpair).1 current h
        have := hnonempty first ((List.dropWhile_suffix ends).mem (hlist ▸ List.mem_cons_self))
        omega
    have htail := absorb_length ⟨min merged.start first.start, max merged.stop first.stop⟩ rest
    change (ranges.takeWhile ends ++ (absorb merged (ranges.dropWhile ends)).1 ::
      (absorb merged (ranges.dropWhile ends)).2).length ≤ _
    rw [hlist, List.length_append, List.length_cons] at hsplit
    rw [hlist, List.length_append, List.length_cons]
    simp only [absorb, if_pos hfirst]
    omega

theorem advance_spec (contiguous : ℕ) (hsep : Separated ranges)
    (hnonempty : ∀ range ∈ ranges, range.start < range.stop) :
    contiguous ≤ (advance contiguous ranges).1 ∧ (advance contiguous ranges).2 <:+ ranges ∧
      Above (advance contiguous ranges).1 (advance contiguous ranges).2 ∧
      (∀ i, (i < (advance contiguous ranges).1 ∨ Covers (advance contiguous ranges).2 i) ↔
        (i < contiguous ∨ Covers ranges i)) := by
  induction ranges generalizing contiguous with
  | nil => exact ⟨le_rfl, List.suffix_refl _, by simp [advance, Above], fun i => Iff.rfl⟩
  | cons first rest ih =>
    have hrest := List.pairwise_cons.mp hsep
    have hfirst := hnonempty first List.mem_cons_self
    by_cases hstart : first.start ≤ contiguous
    · simp only [advance, if_pos hstart]
      obtain ⟨hle, hsuffix, habove, hcovers⟩ := ih (max contiguous first.stop) hrest.2
        (fun range h => hnonempty range (List.mem_cons_of_mem _ h))
      refine ⟨le_trans (le_max_left _ _) hle, hsuffix.trans (List.suffix_cons _ _), habove, fun i => ?_⟩
      rw [hcovers i, covers_cons, ← or_assoc]
      refine or_congr_left ?_
      unfold Range.Contains
      omega
    · rw [advance, if_neg hstart]
      refine ⟨le_rfl, List.suffix_refl _, fun range hrange => ?_, fun i => Iff.rfl⟩
      refine ⟨?_, hnonempty range hrange⟩
      change contiguous < range.start
      rcases List.mem_cons.mp hrange with rfl | hrange
      · omega
      · have := hrest.1 range hrange
        omega

private theorem advance_length (contiguous : ℕ) (ranges : List Range) :
    (advance contiguous ranges).2.length ≤ ranges.length := by
  induction ranges generalizing contiguous with
  | nil => exact Nat.le_refl _
  | cons first rest ih =>
    simp only [advance]
    split_ifs
    · exact (ih _).trans (Nat.le_succ _)
    · exact Nat.le_refl _

variable {ack : AckRanges} {range : Range}

theorem AckRanges.validateInsert_eq_ok :
    ack.validateInsert range = .ok () ↔
      (range.start < range.stop ∧ range.stop ≤ maxWireOffset) ∧
        (range.stop ≤ ack.contiguous ∨ ack.ranges.length < ack.maxRanges ∨
          ∃ current ∈ ack.ranges,
            max range.start ack.contiguous ≤ current.stop ∧ current.start ≤ range.stop) := by
  rw [← validateRange_eq_ok]
  unfold validateInsert touches
  cases validateRange range with
  | error error => simp
  | ok value =>
    split_ifs with hroom htouch
    · simp only [true_iff, true_and]
      rcases hroom with h | h
      · exact Or.inl h
      · exact Or.inr (Or.inl h)
    · simp only [true_iff, true_and]
      obtain ⟨current, hmem, hcurrent⟩ := List.any_eq_true.mp htouch
      exact Or.inr (Or.inr ⟨current, hmem, by simpa using hcurrent⟩)
    · simp only [true_and, false_iff, not_or] at hroom ⊢
      refine ⟨hroom.1, hroom.2, ?_⟩
      rintro ⟨current, hmem, hcurrent⟩
      exact htouch (List.any_eq_true.mpr ⟨current, hmem, by simpa using hcurrent⟩)

theorem AckRanges.validateInsert_of_valid (ack : AckRanges) (range : Range)
    (hnonempty : range.start < range.stop) (hwire : range.stop ≤ maxWireOffset) :
    ack.validateInsert range = .ok () ∨ ack.validateInsert range = .error .rangeCapacity := by
  unfold validateInsert
  rw [validateRange_eq_ok.mpr ⟨hnonempty, hwire⟩]
  dsimp only
  split
  · exact Or.inl rfl
  · split
    · exact Or.inl rfl
    · exact Or.inr rfl

def AckRanges.clip (ack : AckRanges) (range : Range) : Range :=
  ⟨max range.start ack.contiguous, range.stop⟩

/-- The list after merging a validated range that extends past the prefix. -/
def AckRanges.mergeInsert (ack : AckRanges) (range : Range) : ℕ × List Range :=
  advance ack.contiguous (mergeRange (ack.clip range) ack.ranges)

theorem AckRanges.mergeInsert_normal
    (hvalid : ack.validateInsert range = .ok ()) (hpast : ¬range.stop ≤ ack.contiguous) :
    Separated (ack.mergeInsert range).2 ∧ Above (ack.mergeInsert range).1 (ack.mergeInsert range).2 ∧
      (ack.mergeInsert range).2.length ≤ ack.maxRanges := by
  obtain ⟨⟨hnonempty, _⟩, hroom⟩ := AckRanges.validateInsert_eq_ok.mp hvalid
  have hclip : (ack.clip range).start < (ack.clip range).stop := by
    simp only [AckRanges.clip]
    omega
  have hranges : ∀ current ∈ ack.ranges, current.start < current.stop :=
    fun current h => (ack.above current h).2
  obtain ⟨hsep, hfull, _⟩ := mergeRange_spec hclip ack.separated hranges
  obtain ⟨_, hsuffix, habove, _⟩ := advance_spec ack.contiguous hsep hfull
  have hlength : (mergeRange (ack.clip range) ack.ranges).length ≤ ack.maxRanges := by
    rcases hroom with h | h | ⟨current, hmem, hstop, hstart⟩
    · exact absurd h hpast
    · exact (mergeRange_length _ _).trans h
    · have htouch : (ack.clip range).start ≤ current.stop := hstop
      exact (mergeRange_length_of_touching ack.separated hranges hmem htouch hstart).trans ack.bounded
  exact ⟨hsep.sublist hsuffix.sublist, habove, hsuffix.length_le.trans hlength⟩

def AckRanges.insert (ack : AckRanges) (range : Range) : Except RecoveryError AckRanges :=
  match hvalid : ack.validateInsert range with
  | .error error => .error error
  | .ok () =>
    if hpast : range.stop ≤ ack.contiguous then .ok ack
    else .ok {
      contiguous := (ack.mergeInsert range).1
      ranges := (ack.mergeInsert range).2
      maxRanges := ack.maxRanges
      separated := (AckRanges.mergeInsert_normal hvalid hpast).1
      above := (AckRanges.mergeInsert_normal hvalid hpast).2.1
      bounded := (AckRanges.mergeInsert_normal hvalid hpast).2.2 }

theorem AckRanges.insert_eq_error_iff {error : RecoveryError} :
    ack.insert range = .error error ↔ ack.validateInsert range = .error error := by
  unfold insert
  split
  · simp_all
  · split_ifs <;> simp_all

theorem AckRanges.exists_insert_of_valid
    (h : ack.validateInsert range = .ok ()) : ∃ next, ack.insert range = .ok next := by
  cases hinsert : ack.insert range with
  | error error =>
    rw [AckRanges.insert_eq_error_iff, h] at hinsert
    cases hinsert
  | ok next => exact ⟨next, rfl⟩

variable {next : AckRanges}

theorem AckRanges.validateInsert_of_insert (h : ack.insert range = .ok next) :
    ack.validateInsert range = .ok () := by
  cases hvalid : ack.validateInsert range with
  | error error =>
    rw [AckRanges.insert_eq_error_iff.mpr hvalid] at h
    cases h
  | ok value => rfl

theorem AckRanges.insert_fields (h : ack.insert range = .ok next) :
    next.maxRanges = ack.maxRanges ∧
      (range.stop ≤ ack.contiguous ∧ next.contiguous = ack.contiguous ∧ next.ranges = ack.ranges ∨
      ¬range.stop ≤ ack.contiguous ∧ next.contiguous = (ack.mergeInsert range).1 ∧
        next.ranges = (ack.mergeInsert range).2) := by
  unfold insert at h
  split at h
  · cases h
  · split_ifs at h with hpast
    · cases h
      exact ⟨rfl, Or.inl ⟨hpast, rfl, rfl⟩⟩
    · cases h
      exact ⟨rfl, Or.inr ⟨hpast, rfl, rfl⟩⟩

theorem AckRanges.insert_length (h : ack.insert range = .ok next) :
    next.ranges.length ≤ ack.ranges.length + 1 := by
  obtain ⟨-, ⟨-, -, hranges⟩ | ⟨-, -, hranges⟩⟩ := insert_fields h
  · rw [hranges]
    exact Nat.le_succ _
  · rw [hranges]
    exact (advance_length _ _).trans (mergeRange_length _ _)

theorem AckRanges.insert_spec (h : ack.insert range = .ok next) :
    next.maxRanges = ack.maxRanges ∧ ack.contiguous ≤ next.contiguous ∧
      (∀ i, next.Represents i ↔ ack.Represents i ∨ range.Contains i) := by
  obtain ⟨⟨hnonempty, _⟩, _⟩ := AckRanges.validateInsert_eq_ok.mp (validateInsert_of_insert h)
  obtain ⟨hmax, hfields⟩ := insert_fields h
  refine ⟨hmax, ?_⟩
  unfold Represents
  rcases hfields with ⟨hpast, hcontiguous, hranges⟩ | ⟨hpast, hcontiguous, hranges⟩
  · rw [hcontiguous, hranges]
    refine ⟨le_rfl, fun i => ⟨Or.inl, ?_⟩⟩
    rintro (hin | hin)
    · exact hin
    · exact Or.inl (lt_of_lt_of_le hin.2 hpast)
  · have hclip : (ack.clip range).start < (ack.clip range).stop := by
      simp only [AckRanges.clip]
      omega
    obtain ⟨hsep, hfull, hmerge⟩ := mergeRange_spec hclip ack.separated
      (fun current hcurrent => (ack.above current hcurrent).2)
    obtain ⟨hle, _, _, hcovers⟩ := advance_spec ack.contiguous hsep hfull
    rw [hcontiguous, hranges]
    refine ⟨hle, fun i => ?_⟩
    have hunclip : i < ack.contiguous ∨ (ack.clip range).Contains i ↔ i < ack.contiguous ∨ range.Contains i := by
      unfold Range.Contains clip
      dsimp only
      omega
    rw [mergeInsert, hcovers i, hmerge i, ← or_assoc, hunclip, or_assoc, or_assoc, or_comm (a := range.Contains i)]

theorem AckRanges.not_represents_contiguous (ack : AckRanges) : ¬ack.Represents ack.contiguous := by
  rintro (h | ⟨range, hmem, hcontains⟩)
  · omega
  · have := (ack.above range hmem).1
    have := hcontains.1
    omega

/-- `AckRanges::from_wire`: rebuild an acknowledgement from a peer frame. -/
def AckRanges.fromWire (contiguous : ℕ) (ranges : List Range) (maxRanges sentOffset : ℕ) :
    Except RecoveryError AckRanges :=
  if contiguous > sentOffset ∨ ranges.length > maxRanges then .error .invalidRange
  else ranges.foldlM
    (fun ack range => if range.stop > sentOffset then .error .invalidRange else ack.insert range)
    { AckRanges.new maxRanges with contiguous := contiguous, above := by simp [AckRanges.new, Above] }

variable {sentOffset : ℕ}

private theorem AckRanges.insertAll_spec {start : AckRanges}
    (h : ranges.foldlM (fun ack range => if range.stop > sentOffset then .error .invalidRange else ack.insert range)
      start = .ok ack) (i : ℕ) : ack.Represents i ↔ start.Represents i ∨ Covers ranges i := by
  induction ranges generalizing start with
  | nil =>
    cases h
    simp [Covers]
  | cons range rest ih =>
    rw [List.foldlM_cons] at h
    by_cases hbeyond : range.stop > sentOffset
    · rw [if_pos hbeyond] at h
      cases h
    · rw [if_neg hbeyond] at h
      cases hinsert : start.insert range with
      | error error =>
        rw [hinsert] at h
        cases h
      | ok next =>
        rw [hinsert] at h
        rw [ih h, (insert_spec hinsert).2.2 i, covers_cons, or_assoc]

theorem AckRanges.fromWire_represents {contiguous maxRanges : ℕ}
    (h : fromWire contiguous ranges maxRanges sentOffset = .ok ack) (i : ℕ) :
    ack.Represents i ↔ i < contiguous ∨ Covers ranges i := by
  unfold fromWire at h
  split at h
  · cases h
  · rw [insertAll_spec h]
    simp [Represents, AckRanges.new, Covers]

private theorem AckRanges.exists_insertAll {start : AckRanges}
    (hroom : start.ranges.length + ranges.length ≤ start.maxRanges)
    (hvalid : ∀ range ∈ ranges, range.start < range.stop ∧ range.stop ≤ maxWireOffset ∧ range.stop ≤ sentOffset) :
    ∃ ack, ranges.foldlM (fun ack range =>
      if range.stop > sentOffset then .error .invalidRange else ack.insert range) start = .ok ack := by
  induction ranges generalizing start with
  | nil => exact ⟨start, rfl⟩
  | cons range rest ih =>
    obtain ⟨⟨hne, hwire, hsent⟩, hrest⟩ := List.forall_mem_cons.mp hvalid
    rw [List.length_cons] at hroom
    obtain ⟨next, hnext⟩ := exists_insert_of_valid
      (validateInsert_eq_ok.mpr ⟨⟨hne, hwire⟩, Or.inr (Or.inl (show start.ranges.length < start.maxRanges by omega))⟩)
    have hlength := insert_length hnext
    have hnextRoom : next.ranges.length + rest.length ≤ next.maxRanges := by
      rw [(insert_spec hnext).1]
      omega
    obtain ⟨ack, hack⟩ := ih hnextRoom hrest
    refine ⟨ack, ?_⟩
    rw [List.foldlM_cons, if_neg (not_lt.mpr hsent), hnext]
    exact hack

theorem AckRanges.exists_fromWire {contiguous maxRanges : ℕ}
    (hcontiguous : contiguous ≤ sentOffset) (hlength : ranges.length ≤ maxRanges)
    (hvalid : ∀ range ∈ ranges, range.start < range.stop ∧ range.stop ≤ maxWireOffset ∧ range.stop ≤ sentOffset) :
    ∃ ack, fromWire contiguous ranges maxRanges sentOffset = .ok ack := by
  rw [fromWire, if_neg (by omega)]
  exact exists_insertAll (by simpa [AckRanges.new] using hlength) hvalid

end Quicp
