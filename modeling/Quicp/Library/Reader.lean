import Mathlib

/-!
# Canonical readers

A reader takes a value off the front of its input and returns what it leaves. It is canonical
if it accepts exactly the inputs that begin with the encoding of an admitted value, so that a
decoder put together from canonical readers can be inverted field by field.
-/

universe u v

namespace Reader

variable {ε : Type u} {σ α β : Type v}

variable {next : α → Except ε β} {result : β}

theorem bind_eq_ok {first : Except ε α} :
    (first >>= next) = .ok result ↔ ∃ value, first = .ok value ∧ next value = .ok result := by
  cases first <;> simp [bind, Except.bind]

variable {error : ε}

theorem throwIf_eq_ok {failed : Prop} [Decidable failed] {rest : Except ε β}
    :
    (if failed then throw error >>= next else rest) = .ok result ↔ ¬failed ∧ rest = .ok result := by
  by_cases h : failed
  · simp [h, throw, throwThe, MonadExceptOf.throw, bind, Except.bind]
  · simp [h]

/-- The reader accepts exactly the encodings of admitted values and leaves what follows them. -/
def Canonical (read : List σ → Except ε (α × List σ)) (Admitted : α → Prop) (encode : α → List σ) : Prop :=
  ∀ input value rest, read input = .ok (value, rest) ↔ Admitted value ∧ input = encode value ++ rest

variable {read : List σ → Except ε (α × List σ)} {Admitted : α → Prop} {encode : α → List σ}

theorem Canonical.read_encode (h : Canonical read Admitted encode) {value : α} (hvalue : Admitted value)
    (rest : List σ) : read (encode value ++ rest) = .ok (value, rest) :=
  (h _ _ _).mpr ⟨hvalue, rfl⟩

theorem Canonical.bind_eq_ok (h : Canonical read Admitted encode) {next : α × List σ → Except ε β}
    {input : List σ} :
    (read input >>= next) = .ok result ↔
      ∃ value rest, Admitted value ∧ input = encode value ++ rest ∧ next (value, rest) = .ok result := by
  rw [Reader.bind_eq_ok]
  constructor
  · rintro ⟨⟨value, rest⟩, hread, hnext⟩
    obtain ⟨hvalue, hinput⟩ := (h _ _ _).mp hread
    exact ⟨value, rest, hvalue, hinput, hnext⟩
  · rintro ⟨value, rest, hvalue, hinput, hnext⟩
    exact ⟨(value, rest), (h _ _ _).mpr ⟨hvalue, hinput⟩, hnext⟩

end Reader
