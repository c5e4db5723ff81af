import Mathlib

/-!
# Segments of a sequence placed at absolute positions

A segment is a start position and the elements from there on. A list of segments read from the front gives the first
writer of each position.
-/

namespace Segment

variable {α : Type*}

def stop (segment : ℕ × List α) : ℕ := segment.1 + segment.2.length

def elementAt (segment : ℕ × List α) (i : ℕ) : Option α :=
  if segment.1 ≤ i then segment.2[i - segment.1]? else none

/-- The element of the first segment that covers a position. -/
def firstElement (segments : List (ℕ × List α)) (i : ℕ) : Option α :=
  segments.findSome? (fun segment => elementAt segment i)

def Apart (left right : ℕ × List α) : Prop := stop left ≤ right.1 ∨ stop right ≤ left.1

def remaining (bound : ℕ) (segment : ℕ × List α) : ℕ := stop segment - max segment.1 bound

theorem elementAt_isSome_iff (segment : ℕ × List α) (i : ℕ) :
    (elementAt segment i).isSome ↔ segment.1 ≤ i ∧ i < stop segment := by
  unfold elementAt stop
  split_ifs with h
  · rw [Option.isSome_iff_exists]
    simp only [List.getElem?_eq_some_iff, h, true_and]
    constructor
    · rintro ⟨_, hlt, _⟩
      omega
    · intro hlt
      exact ⟨_, by omega, rfl⟩
  · simp [h]

theorem elementAt_eq_none_iff (segment : ℕ × List α) (i : ℕ) :
    elementAt segment i = none ↔ i < segment.1 ∨ stop segment ≤ i := by
  rw [← Option.not_isSome_iff_eq_none, elementAt_isSome_iff]
  omega

variable {a : α} {i : ℕ} {segment : ℕ × List α}

theorem bounds_of_elementAt (h : elementAt segment i = some a) : segment.1 ≤ i ∧ i < stop segment :=
  (elementAt_isSome_iff segment i).mp (by rw [h]; rfl)

theorem elementAt_of_le (h : segment.1 ≤ i) :
    elementAt segment i = segment.2[i - segment.1]? := if_pos h

variable {bound : ℕ}

theorem elementAt_drop (segment : ℕ × List α) (h : segment.1 ≤ bound) (i : ℕ) :
    elementAt (bound, segment.2.drop (bound - segment.1)) i =
      if bound ≤ i then elementAt segment i else none := by
  unfold elementAt
  dsimp only
  by_cases hi : bound ≤ i
  · rw [if_pos hi, if_pos hi, if_pos (h.trans hi), List.getElem?_drop]
    congr 1
    omega
  · rw [if_neg hi, if_neg hi]

theorem firstElement_append (earlier later : List (ℕ × List α)) (i : ℕ) :
    firstElement (earlier ++ later) i = (firstElement earlier i).or (firstElement later i) :=
  List.findSome?_append

theorem firstElement_append_singleton (earlier : List (ℕ × List α)) (segment : ℕ × List α) (i : ℕ) :
    firstElement (earlier ++ [segment]) i = (firstElement earlier i).or (elementAt segment i) := by
  rw [firstElement_append]
  congr 1
  unfold firstElement
  simp [List.findSome?_cons]
  cases elementAt segment i <;> rfl

theorem firstElement_eq_none_iff (segments : List (ℕ × List α)) (i : ℕ) :
    firstElement segments i = none ↔ ∀ segment ∈ segments, elementAt segment i = none :=
  List.findSome?_eq_none_iff

variable {segments : List (ℕ × List α)}

theorem exists_of_firstElement
    (h : firstElement segments i = some a) : ∃ segment ∈ segments, elementAt segment i = some a :=
  List.exists_of_findSome?_eq_some h

private theorem Apart.not_both {left right : ℕ × List α} (h : Apart left right) {b : α}
    (hleft : elementAt left i = some a) (hright : elementAt right i = some b) : False := by
  have hl := bounds_of_elementAt hleft
  have hr := bounds_of_elementAt hright
  rcases h with h | h <;> omega

theorem Apart.symm {left right : ℕ × List α} (h : Apart left right) : Apart right left := Or.symm h

instance : Std.Symm (Apart (α := α)) := ⟨fun _ _ => Apart.symm⟩

theorem firstElement_eq_some_iff (h : segments.Pairwise Apart)
    (i : ℕ) (a : α) :
    firstElement segments i = some a ↔ ∃ segment ∈ segments, elementAt segment i = some a := by
  refine ⟨exists_of_firstElement, ?_⟩
  rintro ⟨segment, hmem, hat⟩
  induction segments with
  | nil => simp at hmem
  | cons first rest ih =>
    have hrest := List.pairwise_cons.mp h
    rcases List.mem_cons.mp hmem with rfl | hmem
    · simp [firstElement, hat]
    · cases hfirst : elementAt first i with
      | none => simpa [firstElement, hfirst] using ih hrest.2 hmem
      | some b => exact ((hrest.1 segment hmem).not_both hfirst hat).elim

theorem firstElement_perm {left right : List (ℕ × List α)} (hperm : left.Perm right)
    (h : left.Pairwise Apart) (i : ℕ) : firstElement left i = firstElement right i := by
  have hright : right.Pairwise Apart := (hperm.pairwise_iff (fun h => Apart.symm h)).mp h
  apply Option.ext
  intro a
  rw [firstElement_eq_some_iff h, firstElement_eq_some_iff hright]
  simp only [hperm.mem_iff]

/-- The positions at or past a bound that some segment covers. -/
def coveredFrom (bound : ℕ) (segments : List (ℕ × List α)) : Set ℕ :=
  {i | bound ≤ i ∧ (firstElement segments i).isSome}

private theorem coveredFrom_cons (bound : ℕ) (first : ℕ × List α) (rest : List (ℕ × List α)) :
    coveredFrom bound (first :: rest) =
      Set.Ico (max first.1 bound) (stop first) ∪ coveredFrom bound rest := by
  ext i
  have hfirst := elementAt_isSome_iff first i
  have hcons : firstElement (first :: rest) i = (elementAt first i).or (firstElement rest i) := by
    cases hf : elementAt first i <;> simp [firstElement, hf]
  simp only [coveredFrom, Set.mem_ofPred_eq, Set.mem_union, Set.mem_Ico, hcons, Option.isSome_or,
    Bool.or_eq_true, hfirst]
  constructor
  · rintro ⟨hbound, hin | hin⟩
    · exact Or.inl ⟨by omega, hin.2⟩
    · exact Or.inr ⟨hbound, hin⟩
  · rintro (⟨hlow, hhigh⟩ | ⟨hbound, hin⟩)
    · exact ⟨by omega, Or.inl ⟨by omega, hhigh⟩⟩
    · exact ⟨hbound, Or.inr hin⟩

theorem coveredFrom_finite (bound : ℕ) (segments : List (ℕ × List α)) :
    (coveredFrom bound segments).Finite := by
  induction segments with
  | nil => simp [coveredFrom, firstElement]
  | cons first rest ih =>
    rw [coveredFrom_cons]
    exact (Set.finite_Ico _ _).union ih

theorem ncard_coveredFrom (bound : ℕ) (h : segments.Pairwise Apart) :
    (coveredFrom bound segments).ncard = (segments.map (remaining bound)).sum := by
  induction segments with
  | nil => simp [coveredFrom, firstElement]
  | cons first rest ih =>
    have hrest := List.pairwise_cons.mp h
    have hdisjoint : Disjoint (Set.Ico (max first.1 bound) (stop first)) (coveredFrom bound rest) := by
      rw [Set.disjoint_left]
      rintro i ⟨hlow, hhigh⟩ ⟨_, hin⟩
      obtain ⟨a, ha⟩ := Option.isSome_iff_exists.mp hin
      obtain ⟨segment, hmem, hat⟩ := exists_of_firstElement ha
      have hbounds := bounds_of_elementAt hat
      rcases hrest.1 segment hmem with hapart | hapart
      · omega
      · have := le_max_left first.1 bound
        omega
    rw [coveredFrom_cons, Set.ncard_union_eq hdisjoint (Set.finite_Ico _ _) (coveredFrom_finite _ _),
      ih hrest.2, List.map_cons, List.sum_cons]
    congr 1
    simp [remaining, Set.ncard_eq_toFinset_card']

theorem sum_remaining_le (bound : ℕ) {limit : ℕ} (h : segments.Pairwise Apart)
    (hlimit : ∀ segment ∈ segments, stop segment ≤ limit) :
    (segments.map (remaining bound)).sum ≤ limit - bound := by
  have hsubset : coveredFrom bound segments ⊆ Set.Ico bound limit := by
    rintro i ⟨hbound, hin⟩
    obtain ⟨a, ha⟩ := Option.isSome_iff_exists.mp hin
    obtain ⟨segment, hmem, hat⟩ := exists_of_firstElement ha
    exact ⟨hbound, (bounds_of_elementAt hat).2.trans_le (hlimit segment hmem)⟩
  calc (segments.map (remaining bound)).sum = (coveredFrom bound segments).ncard :=
        (ncard_coveredFrom bound h).symm
    _ ≤ (Set.Ico bound limit).ncard := Set.ncard_le_ncard hsubset (Set.finite_Ico _ _)
    _ = limit - bound := by simp [Set.ncard_eq_toFinset_card']

theorem sum_remaining_of_past (h : ∀ segment ∈ segments, bound ≤ segment.1) :
    (segments.map (remaining bound)).sum = (segments.map (fun segment => segment.2.length)).sum := by
  congr 1
  refine List.map_congr_left fun segment hsegment => ?_
  have := h segment hsegment
  simp only [remaining, stop]
  omega

theorem remaining_eq_zero (h : stop segment ≤ bound) :
    remaining bound segment = 0 := by
  simp only [remaining]
  omega

theorem sum_remaining_advance {count : ℕ}
    (h : segments.Pairwise Apart) (hmem : segment ∈ segments) (hstart : segment.1 ≤ bound)
    (hstop : bound + count ≤ stop segment) :
    (segments.map (remaining (bound + count))).sum + count = (segments.map (remaining bound)).sum := by
  have hsame : ∀ other, Apart segment other → remaining (bound + count) other = remaining bound other := by
    intro other hother
    have hlength : other.1 ≤ stop other := Nat.le_add_right _ _
    simp only [remaining]
    rcases hother with hother | hother <;> omega
  induction segments with
  | nil => simp at hmem
  | cons first rest ih =>
    have hrest := List.pairwise_cons.mp h
    simp only [List.map_cons, List.sum_cons]
    rcases List.mem_cons.mp hmem with rfl | hmem
    · have htail : rest.map (remaining (bound + count)) = rest.map (remaining bound) :=
        List.map_congr_left fun other hother => hsame other (hrest.1 other hother)
      rw [htail]
      simp only [remaining]
      omega
    · have htail := ih hrest.2 hmem
      have hfirst := hsame first (hrest.1 segment hmem).symm
      omega

theorem exists_open (segments : List (ℕ × List α)) (start : ℕ) :
    ∃ n, (firstElement segments (start + n)).isNone := by
  by_contra hall
  refine Set.Ici_infinite start ((coveredFrom_finite start segments).subset fun i hi => ⟨hi, ?_⟩)
  obtain ⟨n, rfl⟩ := Nat.exists_eq_add_of_le (Set.mem_Ici.mp hi)
  exact Option.isSome_iff_ne_none.mpr fun hnone => hall ⟨n, by rw [hnone]; rfl⟩

/-- The length of the unbroken run of covered positions from a start. -/
def runLength (segments : List (ℕ × List α)) (start : ℕ) : ℕ := Nat.find (exists_open segments start)

theorem eq_min_runLength {start length room : ℕ} (hroom : length ≤ room)
    (hcovered : ∀ k < length, firstElement segments (start + k) ≠ none)
    (hopen : length < room → firstElement segments (start + length) = none) :
    length = min room (runLength segments start) := by
  have hle : length ≤ runLength segments start :=
    (Nat.le_find_iff _ _).mpr fun k hk hnone => hcovered k hk (Option.isNone_iff_eq_none.mp hnone)
  by_cases hlt : length < room
  · have hrun : runLength segments start ≤ length := Nat.find_min' _ (by rw [hopen hlt]; rfl)
    omega
  · omega

end Segment
