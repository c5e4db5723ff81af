import Quicp.Library.Segment

/-!
# A stream assembled from records, first writer wins

The abstract store keeps every accepted record in order and what was delivered so far.
Each position belongs to the first accepted record that covers it, so later records
cannot change a delivered position.
-/

/-- The accepted records in order, and the elements delivered from position zero on. -/
structure FirstWriter (α : Type*) where
  accepted : List (ℕ × List α)
  delivered : List α

namespace FirstWriter

open Segment

variable {α : Type*} {map : FirstWriter α}

def empty : FirstWriter α := ⟨[], []⟩

def write (map : FirstWriter α) (record : ℕ × List α) : FirstWriter α :=
  { map with accepted := map.accepted ++ [record] }

def deliver (map : FirstWriter α) (output : List α) : FirstWriter α :=
  { map with delivered := map.delivered ++ output }

/-- Every delivered element is the first writer's at its position. -/
def Faithful (map : FirstWriter α) : Prop :=
  ∀ i < map.delivered.length, map.delivered[i]? = firstElement map.accepted i

theorem Faithful.firstElement_write (h : map.Faithful) (record : ℕ × List α) {i : ℕ}
    (hi : i < map.delivered.length) :
    firstElement (map.write record).accepted i = firstElement map.accepted i := by
  have hsome : firstElement map.accepted i = some (map.delivered.get ⟨i, hi⟩) := by
    rw [← h i hi]
    exact List.getElem?_eq_getElem hi
  rw [write, firstElement_append_singleton, hsome, Option.some_or]

theorem Faithful.write (h : map.Faithful) (record : ℕ × List α) : (map.write record).Faithful := by
  intro i hi
  rw [h.firstElement_write record hi]
  exact h i hi

theorem Faithful.deliver (h : map.Faithful) {output : List α}
    (houtput : ∀ k < output.length,
      output[k]? = firstElement map.accepted (map.delivered.length + k)) : (map.deliver output).Faithful := by
  intro i hi
  simp only [FirstWriter.deliver, List.length_append] at hi ⊢
  by_cases hfront : i < map.delivered.length
  · rw [List.getElem?_append_left hfront]
    exact h i hfront
  · rw [List.getElem?_append_right (not_lt.mp hfront), houtput _ (by omega)]
    congr 1
    omega

end FirstWriter
