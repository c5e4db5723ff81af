import Mathlib

/-!
# Vectors padded with zeros

Lists of different lengths stand for vectors that continue with zeros. Adding a multiple of
a shorter list, scaling and growing act on every position of the padded vectors.
-/

variable {K : Type*}

namespace PaddedVector

section Operations

variable [CommRing K]

/-- Add the multiple of a list to the positions that both have. -/
def addScaled (factor : K) : List K → List K → List K
  | first :: target, added :: source => (first + added * factor) :: addScaled factor target source
  | target, _ => target

/-- Grow a list with zeros to a length that it does not reach. -/
def grow (length : ℕ) (data : List K) : List K := data ++ List.replicate (length - data.length) 0

@[simp] theorem length_addScaled (factor : K) (target source : List K) :
    (addScaled factor target source).length = target.length := by
  induction target generalizing source with
  | nil => simp [addScaled]
  | cons first target ih =>
    cases source with
    | nil => rfl
    | cons added source => simp [addScaled, ih]

theorem getD_addScaled {factor : K} {target source : List K} (h : source.length ≤ target.length) (i : ℕ) :
    (addScaled factor target source).getD i 0 = target.getD i 0 + source.getD i 0 * factor := by
  induction target generalizing source i with
  | nil =>
    have hnil : source = [] := List.eq_nil_of_length_eq_zero (Nat.le_zero.mp h)
    simp [hnil, addScaled]
  | cons first target ih =>
    cases source with
    | nil => simp [addScaled]
    | cons added source =>
      cases i with
      | zero => simp [addScaled]
      | succ i =>
        simp only [addScaled, List.getD_cons_succ]
        exact ih (Nat.le_of_succ_le_succ h) i

theorem getD_map_mul (factor : K) (data : List K) (i : ℕ) :
    (data.map (· * factor)).getD i 0 = data.getD i 0 * factor := by
  have h := List.getD_map (l := data) (n := i) (d := (0 : K)) (fun value => value * factor)
  rwa [zero_mul] at h

theorem getD_grow (length : ℕ) (data : List K) (i : ℕ) : (grow length data).getD i 0 = data.getD i 0 := by
  unfold grow
  by_cases hi : i < data.length
  · rw [List.getD_append _ _ _ _ hi]
  · have hle : data.length ≤ i := not_lt.mp hi
    rw [List.getD_append_right _ _ _ _ hle, List.getD_eq_default _ _ hle]
    by_cases hin : i - data.length < length - data.length
    · rw [List.getD_eq_getElem _ _ (by simpa using hin), List.getElem_replicate]
    · rw [List.getD_eq_default _ _ (by simpa using hin)]

theorem length_grow (length : ℕ) (data : List K) : (grow length data).length = max data.length length := by
  rw [grow, List.length_append, List.length_replicate]
  omega

end Operations

theorem eq_append_replicate [Zero K] {data short : List K} (hlength : short.length ≤ data.length)
    (h : ∀ i, data.getD i 0 = short.getD i 0) :
    data = short ++ List.replicate (data.length - short.length) 0 := by
  apply List.ext_getElem
  · simp only [List.length_append, List.length_replicate]
    omega
  · intro i hi hi'
    have hposition := h i
    rw [List.getD_eq_getElem _ _ hi] at hposition
    rw [hposition]
    by_cases hshort : i < short.length
    · rw [List.getD_eq_getElem _ _ hshort, List.getElem_append_left hshort]
    · have hle : short.length ≤ i := not_lt.mp hshort
      rw [List.getD_eq_default _ _ hle, List.getElem_append_right hle, List.getElem_replicate]

end PaddedVector
