import Mathlib

/-!
# The total weight of a list

Items that hold something are kept in a list. Replacing or removing the item at an index moves
the total by the weight of that item alone.
-/

variable {α : Type*} {items : List α} {index : ℕ} {item : α}

def totalWeight (weight : α → ℕ) (items : List α) : ℕ := (items.map weight).sum

@[simp] theorem totalWeight_nil (weight : α → ℕ) : totalWeight weight [] = 0 := rfl

@[simp] theorem totalWeight_cons (weight : α → ℕ) (item : α) (items : List α) :
    totalWeight weight (item :: items) = weight item + totalWeight weight items := List.sum_cons

theorem totalWeight_eraseIdx (weight : α → ℕ) (h : items[index]? = some item) :
    totalWeight weight (items.eraseIdx index) + weight item = totalWeight weight items := by
  induction items generalizing index with
  | nil => cases h
  | cons first rest ih =>
    cases index with
    | zero =>
      cases h
      exact Nat.add_comm _ _
    | succ index =>
      have hrest := ih (List.getElem?_cons_succ ▸ h)
      rw [List.eraseIdx_cons_succ, totalWeight_cons, totalWeight_cons]
      omega

theorem totalWeight_set (weight : α → ℕ) (h : items[index]? = some item) (item' : α) :
    totalWeight weight (items.set index item') + weight item = totalWeight weight items + weight item' := by
  induction items generalizing index with
  | nil => cases h
  | cons first rest ih =>
    cases index with
    | zero =>
      cases h
      rw [List.set_cons_zero, totalWeight_cons, totalWeight_cons]
      omega
    | succ index =>
      have hrest := ih (List.getElem?_cons_succ ▸ h)
      rw [List.set_cons_succ, totalWeight_cons, totalWeight_cons]
      omega

theorem weight_le_totalWeight (weight : α → ℕ) (h : items[index]? = some item) : weight item ≤ totalWeight weight items := by
  have := totalWeight_eraseIdx weight h
  omega

theorem forall_mem_set (index : ℕ) {P : α → Prop} (h : ∀ other ∈ items, P other) {item' : α} (hitem : P item') :
    ∀ other ∈ items.set index item', P other := by
  intro other hother
  rcases List.mem_or_eq_of_mem_set hother with hold | rfl
  · exact h other hold
  · exact hitem

theorem forall_mem_eraseIdx (index : ℕ) {P : α → Prop} (h : ∀ other ∈ items, P other) :
    ∀ other ∈ items.eraseIdx index, P other :=
  fun other hother => h other ((List.eraseIdx_sublist items index).subset hother)
