import Mathlib

/-!
# Regions of storage

A region has a size and an item at every place. A range of it is read and written as a list.
-/

structure Region (α : Type*) where
  size : ℕ
  item : ℕ → α

namespace Region

variable {α : Type*}

def read (region : Region α) (start length : ℕ) : List α := (List.range length).map fun i => region.item (start + i)

def write (region : Region α) (start : ℕ) (items : List α) : Region α :=
  { region with item := fun i => if start ≤ i then items.getD (i - start) (region.item i) else region.item i }

variable {region : Region α} {start length place : ℕ} {items : List α}

theorem size_write : (region.write start items).size = region.size := rfl

@[simp] theorem length_read : (region.read start length).length = length := by simp [read]

theorem read_write : (region.write start items).read start items.length = items := by
  refine List.ext_getElem (by simp) fun i hi hi' => ?_
  simp [read, write, hi']

theorem read_write_apart (h : start + length ≤ place ∨ place + items.length ≤ start) :
    (region.write place items).read start length = region.read start length := by
  refine List.map_congr_left fun i hi => ?_
  have hlt := List.mem_range.mp hi
  simp only [write]
  split_ifs with hle
  · exact List.getD_eq_default _ _ (by omega)
  · rfl

theorem drop_read (count : ℕ) :
    (region.read start length).drop count = region.read (start + count) (length - count) := by
  refine List.ext_getElem (by simp) fun i hi hi' => ?_
  simp [read, Nat.add_assoc]

end Region
