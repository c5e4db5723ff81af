import Mathlib

/-!
# Cutting a list into pieces of one size

The pieces of a list have a given size, the last one possibly less. Parts of the size that are joined
are the pieces of the whole again.
-/

namespace Cut

variable {α : Type*}

def count (size length : ℕ) : ℕ := (length + size - 1) / size

def piece (size : ℕ) (items : List α) (index : ℕ) : List α := (items.drop (index * size)).take size

def pieces (size : ℕ) (items : List α) : List (List α) := (List.range (count size items.length)).map (piece size items)

theorem pieces_append {size : ℕ} (hsize : 0 < size) {part : List α} (hpart : part.length = size) (rest : List α) :
    pieces size (part ++ rest) = part :: pieces size rest := by
  have hcount : count size (part ++ rest).length = count size rest.length + 1 := by
    rw [List.length_append, hpart, count, count, ← Nat.add_div_right _ hsize]
    congr 1
    omega
  have hfirst : piece size (part ++ rest) 0 = part := by
    rw [piece, Nat.zero_mul, List.drop_zero, List.take_left' hpart]
  have hlater : piece size (part ++ rest) ∘ Nat.succ = piece size rest := by
    funext index
    have hdrop : (index + 1) * size = part.length + index * size := by rw [hpart, Nat.succ_mul, Nat.add_comm]
    rw [Function.comp_apply, piece, piece, hdrop, ← List.drop_drop, List.drop_left]
  rw [pieces, hcount, List.range_succ_eq_map, List.map_cons, hfirst, List.map_map, hlater, pieces]

theorem pieces_flatten {size : ℕ} (hsize : 0 < size) {parts : List (List α)} (h : ∀ part ∈ parts, part.length = size) :
    pieces size parts.flatten = parts := by
  induction parts with
  | nil =>
    have hcount : count size 0 = 0 := by
      rw [count, Nat.zero_add]
      exact Nat.div_eq_of_lt (by omega)
    rw [List.flatten_nil, pieces, List.length_nil, hcount]
    rfl
  | cons part rest ih =>
    rw [List.flatten_cons, pieces_append hsize (h part List.mem_cons_self)]
    rw [ih fun other hother => h other (List.mem_cons_of_mem _ hother)]

end Cut
