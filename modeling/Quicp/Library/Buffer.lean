import Mathlib

/-!
# Writes into a buffer

A write replaces as many elements of a buffer as it brings. Writes that all agree with a target
and together cover it turn any buffer of its length into the target, in whatever order they come.
-/

namespace Buffer

variable {α : Type*}

/-- The buffer with the items written from the offset on. -/
def writeAt (buffer : List α) (offset : ℕ) (items : List α) : List α :=
  buffer.take offset ++ items ++ buffer.drop (offset + items.length)

def writeAll (buffer : List α) (writes : List (ℕ × List α)) : List α :=
  writes.foldl (fun buffer write => writeAt buffer write.1 write.2) buffer

variable {buffer items : List α} {offset : ℕ}

theorem length_writeAt (h : offset + items.length ≤ buffer.length) :
    (writeAt buffer offset items).length = buffer.length := by
  rw [writeAt, List.length_append, List.length_append, List.length_take, List.length_drop]
  omega

theorem take_writeAt (h : offset ≤ buffer.length) :
    (writeAt buffer offset items).take (offset + items.length) = buffer.take offset ++ items := by
  refine List.take_left' ?_
  rw [List.length_append, List.length_take_of_le h]

theorem writeAt_nil (buffer : List α) (offset : ℕ) : writeAt buffer offset [] = buffer := by
  rw [writeAt, List.append_nil, List.length_nil, Nat.add_zero, List.take_append_drop]

private theorem getElem?_writeAt (h : offset ≤ buffer.length) (i : ℕ) :
    (writeAt buffer offset items)[i]? =
      if offset ≤ i ∧ i < offset + items.length then items[i - offset]? else buffer[i]? := by
  have htake : (buffer.take offset).length = offset := List.length_take_of_le h
  rw [writeAt, List.append_assoc, List.getElem?_append, htake]
  split_ifs with hbefore hwithin hwithin
  · omega
  · exact List.getElem?_take_of_lt hbefore
  · exact List.getElem?_append_left (by omega)
  · rw [List.getElem?_append_right (by omega), List.getElem?_drop]
    congr 1
    omega

def Agrees (target : List α) (write : ℕ × List α) : Prop :=
  write.1 ≤ target.length ∧ (target.drop write.1).take write.2.length = write.2

variable {target : List α}

theorem Agrees.le {write : ℕ × List α} (h : Agrees target write) :
    write.1 + write.2.length ≤ target.length := by
  have hlength := congrArg List.length h.2
  rw [List.length_take, List.length_drop] at hlength
  have hstart := h.1
  omega

theorem agrees_middle {first : List α} (h : offset = first.length) (items rest : List α) :
    Agrees (first ++ (items ++ rest)) (offset, items) := by
  refine ⟨by simp [h], ?_⟩
  rw [h, List.drop_left, List.take_left]

theorem Agrees.append {write : ℕ × List α} (h : Agrees target write) (rest : List α) :
    Agrees (target ++ rest) write := by
  have hle := h.le
  refine ⟨by rw [List.length_append]; omega, ?_⟩
  rw [List.drop_append_of_le_length h.1, List.take_append_of_le_length (by rw [List.length_drop]; omega)]
  exact h.2

private theorem getElem?_writeAll {writes : List (ℕ × List α)}
    (hlength : buffer.length = target.length) (hagrees : ∀ write ∈ writes, Agrees target write) {i : ℕ}
    (hi : buffer[i]? = target[i]? ∨ ∃ write ∈ writes, write.1 ≤ i ∧ i < write.1 + write.2.length) :
    (writeAll buffer writes)[i]? = target[i]? := by
  induction writes generalizing buffer with
  | nil => exact hi.resolve_right (by simp)
  | cons write rest ih =>
    have hfirst : Agrees target write := hagrees write List.mem_cons_self
    have hwithin : write.1 + write.2.length ≤ buffer.length := hlength ▸ hfirst.le
    refine ih ((length_writeAt hwithin).trans hlength) (fun later hlater => hagrees later (List.mem_cons_of_mem _ hlater)) ?_
    by_cases hcovered : write.1 ≤ i ∧ i < write.1 + write.2.length
    · left
      rw [getElem?_writeAt (by omega), if_pos hcovered, ← hfirst.2, List.getElem?_take_of_lt (by omega),
        List.getElem?_drop]
      congr 1
      omega
    · rcases hi with hsame | ⟨other, hother, hcovers⟩
      · left
        rw [getElem?_writeAt (by omega), if_neg hcovered, hsame]
      · rcases List.mem_cons.mp hother with rfl | hlater
        · exact absurd hcovers hcovered
        · exact Or.inr ⟨other, hlater, hcovers⟩

theorem writeAll_eq {writes : List (ℕ × List α)} (hlength : buffer.length = target.length)
    (hagrees : ∀ write ∈ writes, Agrees target write)
    (hcovers : ∀ i < target.length, ∃ write ∈ writes, write.1 ≤ i ∧ i < write.1 + write.2.length) :
    writeAll buffer writes = target := by
  refine List.ext_getElem? fun i => getElem?_writeAll hlength hagrees ?_
  rcases Nat.lt_or_ge i target.length with hi | hi
  · exact Or.inr (hcovers i hi)
  · left
    rw [List.getElem?_eq_none (by omega), List.getElem?_eq_none hi]

end Buffer
