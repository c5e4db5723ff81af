import Mathlib

/-!
# Finite maps as key-sorted entry lists

The map keeps its entries in strictly increasing key order, so iteration, the last entry below a key and the first
entry above a key are list operations.
-/

/-- A finite map, kept as its entries in strictly increasing key order. -/
structure OrderedMap (K V : Type*) [LinearOrder K] where
  entries : List (K × V)
  sorted : entries.Pairwise (fun a b => a.1 < b.1)

namespace OrderedMap

variable {K V : Type*} [LinearOrder K]

def empty : OrderedMap K V := ⟨[], List.Pairwise.nil⟩

/-- Put an entry at its place in a sorted list, replacing the entry of an equal key. -/
def insertEntries (key : K) (value : V) : List (K × V) → List (K × V)
  | [] => [(key, value)]
  | entry :: rest =>
    if entry.1 < key then entry :: insertEntries key value rest
    else if entry.1 = key then (key, value) :: rest
    else (key, value) :: entry :: rest

variable {entries : List (K × V)} {entry : K × V}

theorem mem_of_mem_insertEntries {key : K} {value : V}
    (h : entry ∈ insertEntries key value entries) : entry = (key, value) ∨ entry ∈ entries := by
  induction entries with
  | nil => simpa [insertEntries] using h
  | cons first rest ih =>
    simp only [insertEntries] at h
    split_ifs at h with hlt heq
    · rcases List.mem_cons.mp h with rfl | h
      · exact Or.inr List.mem_cons_self
      · exact (ih h).imp id (List.mem_cons_of_mem _)
    · rcases List.mem_cons.mp h with rfl | h
      · exact Or.inl rfl
      · exact Or.inr (List.mem_cons_of_mem _ h)
    · exact List.mem_cons.mp h

theorem insertEntries_sorted (key : K) (value : V)
    (h : entries.Pairwise (fun a b => a.1 < b.1)) :
    (insertEntries key value entries).Pairwise (fun a b => a.1 < b.1) := by
  induction entries with
  | nil => exact List.pairwise_singleton _ _
  | cons first rest ih =>
    have hrest := List.pairwise_cons.mp h
    simp only [insertEntries]
    split_ifs with hlt heq
    · refine List.pairwise_cons.mpr ⟨fun entry hentry => ?_, ih hrest.2⟩
      rcases mem_of_mem_insertEntries hentry with rfl | hentry
      · exact hlt
      · exact hrest.1 entry hentry
    · exact List.pairwise_cons.mpr ⟨fun entry hentry => heq ▸ hrest.1 entry hentry, hrest.2⟩
    · have hkey : key < first.1 := lt_of_le_of_ne (not_lt.mp hlt) (Ne.symm heq)
      refine List.pairwise_cons.mpr ⟨fun entry hentry => ?_, h⟩
      rcases List.mem_cons.mp hentry with rfl | hentry
      · exact hkey
      · exact hkey.trans (hrest.1 entry hentry)

theorem insertEntries_perm (key : K) (value : V) (entries : List (K × V))
    (hfresh : ∀ entry ∈ entries, entry.1 ≠ key) :
    (insertEntries key value entries).Perm ((key, value) :: entries) := by
  induction entries with
  | nil => exact List.Perm.refl _
  | cons first rest ih =>
    simp only [insertEntries]
    split_ifs with hlt heq
    · have hrest := ih (fun entry hentry => hfresh entry (List.mem_cons_of_mem _ hentry))
      exact (hrest.cons first).trans (List.Perm.swap _ _ _)
    · exact absurd heq (hfresh first List.mem_cons_self)
    · exact List.Perm.refl _

def insert (map : OrderedMap K V) (key : K) (value : V) : OrderedMap K V :=
  ⟨insertEntries key value map.entries, insertEntries_sorted key value map.sorted⟩

def retain (map : OrderedMap K V) (keep : K → V → Bool) : OrderedMap K V :=
  ⟨map.entries.filter (fun entry => keep entry.1 entry.2), map.sorted.filter _⟩

def erase (map : OrderedMap K V) (key : K) : OrderedMap K V :=
  map.retain (fun other _ => decide (other ≠ key))

def length (map : OrderedMap K V) : ℕ := map.entries.length

def below (map : OrderedMap K V) (bound : K) : List (K × V) :=
  map.entries.filter (fun entry => decide (entry.1 < bound))

/-- The entry with the greatest key strictly below a bound. -/
def lastBelow (map : OrderedMap K V) (bound : K) : Option (K × V) := (map.below bound).getLast?

def lastUpTo (map : OrderedMap K V) (bound : K) : Option (K × V) :=
  (map.entries.filter (fun entry => decide (entry.1 ≤ bound))).getLast?

/-- The entry with the least key strictly above an optional bound. -/
def nextAfter (map : OrderedMap K V) : Option K → Option (K × V)
  | none => map.entries.head?
  | some bound => (map.entries.filter (fun entry => decide (bound < entry.1))).head?

variable {map : OrderedMap K V}

theorem eq_of_key_eq {left right : K × V} (hleft : left ∈ map.entries)
    (hright : right ∈ map.entries) (h : left.1 = right.1) : left = right := by
  by_contra hne
  have hkeys : map.entries.Pairwise (fun a b => a.1 ≠ b.1) := map.sorted.imp ne_of_lt
  have : Std.Symm (fun a b : K × V => a.1 ≠ b.1) := ⟨fun _ _ => Ne.symm⟩
  exact hkeys.forall hleft hright hne h

theorem retain_perm (map : OrderedMap K V) (keep : K → V → Bool) :
    ((map.retain keep).entries ++ map.entries.filter (fun entry => !keep entry.1 entry.2)).Perm
      map.entries :=
  List.filter_append_perm _ _

private theorem filter_key_singleton (hsorted : entries.Pairwise (fun a b => a.1 < b.1)) (h : entry ∈ entries) :
    entries.filter (fun other => decide (other.1 = entry.1)) = [entry] := by
  induction entries with
  | nil => simp at h
  | cons first rest ih =>
    have hrest := List.pairwise_cons.mp hsorted
    rcases List.mem_cons.mp h with rfl | h
    · have hnone : rest.filter (fun other => decide (other.1 = entry.1)) = [] := by
        rw [List.filter_eq_nil_iff]
        intro other hother
        simpa using (hrest.1 other hother).ne'
      simp [hnone]
    · have hne : ¬first.1 = entry.1 := (hrest.1 entry h).ne
      simp [hne, ih hrest.2 h]

theorem erase_perm (h : entry ∈ map.entries) :
    ((map.erase entry.1).entries ++ [entry]).Perm map.entries := by
  have hdropped := filter_key_singleton map.sorted h
  have hperm := map.retain_perm (fun other _ => decide (other ≠ entry.1))
  simp only [decide_not, Bool.not_not, hdropped] at hperm
  simpa [erase] using hperm

theorem mem_insert {key : K} {value : V}
    (hfresh : ∀ entry ∈ map.entries, entry.1 ≠ key) :
    entry ∈ (map.insert key value).entries ↔ entry = (key, value) ∨ entry ∈ map.entries := by
  rw [insert, (insertEntries_perm key value map.entries hfresh).mem_iff, List.mem_cons]

variable {last : K × V}

private theorem getLast?_filter_greatest (hsorted : entries.Pairwise (fun a b => a.1 < b.1)) (test : K × V → Bool)
    (h : (entries.filter test).getLast? = some last) :
    last ∈ entries ∧ test last = true ∧ ∀ entry ∈ entries, test entry = true → entry.1 ≤ last.1 := by
  obtain ⟨front, hfront⟩ := List.getLast?_eq_some_iff.mp h
  have hlast : last ∈ entries.filter test := by simp [hfront]
  refine ⟨(List.mem_filter.mp hlast).1, (List.mem_filter.mp hlast).2, fun entry hentry htest => ?_⟩
  have hmem : entry ∈ front ++ [last] := hfront ▸ List.mem_filter.mpr ⟨hentry, htest⟩
  rcases List.mem_append.mp hmem with hin | hin
  · have hpair := hsorted.filter test
    rw [hfront] at hpair
    exact le_of_lt ((List.pairwise_append.mp hpair).2.2 entry hin last (List.mem_singleton_self _))
  · exact le_of_eq (congrArg Prod.fst (List.mem_singleton.mp hin))

variable {bound : K}

theorem lastBelow_eq_some (h : map.lastBelow bound = some last) :
    last ∈ map.entries ∧ last.1 < bound ∧ ∀ entry ∈ map.entries, entry.1 < bound → entry.1 ≤ last.1 := by
  simpa using getLast?_filter_greatest map.sorted (fun entry => decide (entry.1 < bound)) h

theorem lastBelow_eq_none (h : map.lastBelow bound = none)
    (hentry : entry ∈ map.entries) : bound ≤ entry.1 := by
  rw [lastBelow, List.getLast?_eq_none_iff, below, List.filter_eq_nil_iff] at h
  simpa using h entry hentry

theorem lastUpTo_eq_some (h : map.lastUpTo bound = some last) :
    last ∈ map.entries ∧ last.1 ≤ bound ∧ ∀ entry ∈ map.entries, entry.1 ≤ bound → entry.1 ≤ last.1 := by
  simpa using getLast?_filter_greatest map.sorted (fun entry => decide (entry.1 ≤ bound)) h

theorem lastUpTo_eq_none (h : map.lastUpTo bound = none)
    (hentry : entry ∈ map.entries) : bound < entry.1 := by
  rw [lastUpTo, List.getLast?_eq_none_iff, List.filter_eq_nil_iff] at h
  simpa using h entry hentry

theorem nextAfter_eq_some {bound : Option K} {next : K × V}
    (h : map.nextAfter bound = some next) :
    next ∈ map.entries ∧ (∀ key ∈ bound, key < next.1) ∧
      ∀ entry ∈ map.entries, (∀ key ∈ bound, key < entry.1) → next.1 ≤ entry.1 := by
  have hleast : ∀ list : List (K × V), list.Pairwise (fun left right => left.1 < right.1) →
      list.head? = some next → ∀ entry ∈ list, next.1 ≤ entry.1 := by
    intro list hsorted hhead entry hentry
    obtain ⟨rest, rfl⟩ := List.head?_eq_some_iff.mp hhead
    rcases List.mem_cons.mp hentry with rfl | hrest
    · exact le_rfl
    · exact ((List.pairwise_cons.mp hsorted).1 entry hrest).le
  cases bound with
  | none =>
    exact ⟨List.mem_of_mem_head? h, by simp, fun entry hentry _ => hleast _ map.sorted h entry hentry⟩
  | some key =>
    have hmem := List.mem_filter.mp (List.mem_of_mem_head? h)
    refine ⟨hmem.1, by simpa using hmem.2, fun entry hentry hafter => ?_⟩
    exact hleast _ (map.sorted.filter _) h entry (List.mem_filter.mpr ⟨hentry, by simpa using hafter⟩)

theorem nextAfter_eq_none {bound : Option K} (h : map.nextAfter bound = none)
    (hentry : entry ∈ map.entries) : ∃ key ∈ bound, entry.1 ≤ key := by
  cases bound with
  | none =>
    rw [nextAfter, List.head?_eq_none_iff] at h
    simp [h] at hentry
  | some key =>
    rw [nextAfter, List.head?_eq_none_iff, List.filter_eq_nil_iff] at h
    exact ⟨key, rfl, by simpa using h entry hentry⟩

theorem nextAfter_of_split {before after : List (K × V)} (hsplit : map.entries = before ++ after)
    {bound : Option K} (hbefore : ∀ entry ∈ before, ∃ key ∈ bound, entry.1 ≤ key)
    (hafter : ∀ entry ∈ after, ∀ key ∈ bound, key < entry.1) : map.nextAfter bound = after.head? := by
  cases bound with
  | none =>
    have hnil : before = [] := List.eq_nil_iff_forall_not_mem.mpr fun entry hmem => by simpa using hbefore entry hmem
    rw [nextAfter, hsplit, hnil, List.nil_append]
  | some key =>
    have hlow : before.filter (fun entry => decide (key < entry.1)) = [] :=
      List.filter_eq_nil_iff.mpr fun entry hmem => by simpa using hbefore entry hmem
    have hhigh : after.filter (fun entry => decide (key < entry.1)) = after :=
      List.filter_eq_self.mpr fun entry hmem => by simpa using hafter entry hmem key rfl
    rw [nextAfter, hsplit, List.filter_append, hlow, hhigh, List.nil_append]

end OrderedMap
