import Quicp.Recovery.Arithmetic

/-!
# The shared recovery memory budget

One budget is shared by every component of an endpoint through an `Arc`; `identity` stands for the allocation that
`Arc::ptr_eq` compares.
-/

namespace Quicp

/-- `RecoveryMemoryBudget`: the bytes reserved so far and their limit, which is made from a `u32`, and whether
the debug assertion of a release has failed. -/
structure RecoveryMemoryBudget where
  identity : ℕ
  used : ℕ
  limit : ℕ
  bounded : limit ≤ u32Max
  underflowed : Bool
  deriving DecidableEq

theorem mebibyte_bounded : 2 ^ 20 ≤ u32Max := by decide

def RecoveryMemoryBudget.sample : RecoveryMemoryBudget := ⟨0, 0, 4096, by decide, false⟩

/-- `try_reserve`: add the bytes if the count stays within the limit. -/
def RecoveryMemoryBudget.tryReserve (budget : RecoveryMemoryBudget) (bytes : ℕ) :
    Option RecoveryMemoryBudget :=
  ((checkedAdd budget.used bytes).filter (fun next => decide (next ≤ budget.limit))).map
    (fun next => { budget with used := next })

/-- `release`: subtract the bytes; the atomic subtraction wraps below zero, which fails the assertion after it. -/
def RecoveryMemoryBudget.release (budget : RecoveryMemoryBudget) (bytes : ℕ) : RecoveryMemoryBudget :=
  { budget with
    used := if bytes ≤ budget.used then budget.used - bytes else budget.used + (wordMax + 1) - bytes
    underflowed := budget.underflowed || !decide (bytes ≤ budget.used) }

/-- `RecoveryCharge`: bytes reserved against the budget with this identity. -/
structure RecoveryCharge where
  budget : ℕ
  bytes : ℕ
  deriving DecidableEq, Repr

def RecoveryCharge.reserve (budget : RecoveryMemoryBudget) (bytes : ℕ) :
    Except RecoveryError (RecoveryCharge × RecoveryMemoryBudget) :=
  match budget.tryReserve bytes with
  | some next => .ok (⟨budget.identity, bytes⟩, next)
  | none => .error .capacity

/-- `belongs_to`: the charge was made against the budget with this identity. -/
def RecoveryCharge.belongsTo (charge : RecoveryCharge) (budget : ℕ) : Bool :=
  charge.budget == budget

/-- `grow`: raise a charge of this budget to at least the given size. -/
def RecoveryCharge.grow (charge : RecoveryCharge) (budget : RecoveryMemoryBudget) (bytes : ℕ) :
    Except RecoveryError (RecoveryCharge × RecoveryMemoryBudget) :=
  if bytes ≤ charge.bytes then .ok (charge, budget)
  else
    match budget.tryReserve (bytes - charge.bytes) with
    | some next => .ok ({ charge with bytes := bytes }, next)
    | none => .error .capacity

/-- `split`: move part of a charge into a new one. -/
def RecoveryCharge.split (charge : RecoveryCharge) (bytes : ℕ) :
    Except RecoveryError (RecoveryCharge × RecoveryCharge) :=
  if bytes > charge.bytes then .error .capacity
  else .ok ({ charge with bytes := charge.bytes - bytes }, ⟨charge.budget, bytes⟩)

/-- `shrink`: give back all but the given bytes; a size above the charge panics. -/
def RecoveryCharge.shrink (charge : RecoveryCharge) (budget : RecoveryMemoryBudget) (bytes : ℕ) :
    Option (RecoveryCharge × RecoveryMemoryBudget) :=
  if bytes ≤ charge.bytes then some ({ charge with bytes := bytes }, budget.release (charge.bytes - bytes)) else none

/-- `transfer`: part of a charge becomes the property of something else, without a release. -/
def RecoveryCharge.transfer (charge : RecoveryCharge) (bytes : ℕ) : Except RecoveryError RecoveryCharge :=
  if bytes > charge.bytes then .error .capacity else .ok { charge with bytes := charge.bytes - bytes }

/-- Dropping a charge releases its bytes to the budget it was made against. -/
def RecoveryCharge.drop (charge : RecoveryCharge) (budget : RecoveryMemoryBudget) :
    RecoveryMemoryBudget :=
  if charge.belongsTo budget.identity then budget.release charge.bytes else budget

/-- The bytes a charge holds of the budget with this identity. -/
def RecoveryCharge.heldOf (charge : RecoveryCharge) (budget : ℕ) : ℕ :=
  if charge.belongsTo budget then charge.bytes else 0

variable {charge : RecoveryCharge}

theorem RecoveryCharge.heldOf_own {budget : ℕ}
    (h : charge.belongsTo budget = true) : charge.heldOf budget = charge.bytes := if_pos h

@[simp] theorem RecoveryCharge.heldOf_empty (own budget : ℕ) : RecoveryCharge.heldOf ⟨own, 0⟩ budget = 0 := by
  simp [heldOf]

@[simp] theorem RecoveryCharge.drop_empty (own : ℕ) (budget : RecoveryMemoryBudget) :
    RecoveryCharge.drop ⟨own, 0⟩ budget = budget := by
  simp [drop, RecoveryMemoryBudget.release]

theorem RecoveryMemoryBudget.tryReserve_eq (budget : RecoveryMemoryBudget) (bytes : ℕ) :
    budget.tryReserve bytes =
      if budget.used + bytes ≤ budget.limit then some { budget with used := budget.used + bytes }
      else none := by
  unfold tryReserve checkedAdd
  by_cases hfit : budget.used + bytes ≤ budget.limit
  · have hword : budget.used + bytes ≤ wordMax := hfit.trans (budget.bounded.trans (by decide))
    simp [hfit, hword, Option.filter_some]
  · by_cases hword : budget.used + bytes ≤ wordMax <;> simp [hfit, hword, Option.filter_some]

variable {budget : RecoveryMemoryBudget} {bytes : ℕ}

theorem RecoveryMemoryBudget.release_of_le (h : bytes ≤ budget.used) :
    budget.release bytes = { budget with used := budget.used - bytes } := by
  simp [release, h]

theorem RecoveryMemoryBudget.release_used
    (h : bytes ≤ budget.used) : (budget.release bytes).used = budget.used - bytes := if_pos h

variable {next : RecoveryMemoryBudget}

theorem RecoveryMemoryBudget.tryReserve_eq_some (h : budget.tryReserve bytes = some next) :
    next = { budget with used := budget.used + bytes } ∧ budget.used + bytes ≤ budget.limit := by
  unfold tryReserve checkedAdd at h
  split_ifs at h with hword
  · rw [Option.filter_some] at h
    split_ifs at h with hfit
    · exact ⟨(Option.some.inj h).symm, by simpa using hfit⟩
    · cases h
  · cases h

theorem RecoveryCharge.reserve_eq_ok (h : RecoveryCharge.reserve budget bytes = .ok (charge, next)) :
    charge = ⟨budget.identity, bytes⟩ ∧ next = { budget with used := budget.used + bytes } ∧
      budget.used + bytes ≤ budget.limit := by
  unfold reserve at h
  cases hreserve : budget.tryReserve bytes with
  | none => simp [hreserve] at h
  | some after =>
    simp only [hreserve, Except.ok.injEq, Prod.mk.injEq] at h
    obtain ⟨rfl, rfl⟩ := h
    exact ⟨rfl, RecoveryMemoryBudget.tryReserve_eq_some hreserve⟩

theorem RecoveryCharge.reserve_zero (h : budget.used ≤ budget.limit) :
    RecoveryCharge.reserve budget 0 = .ok (⟨budget.identity, 0⟩, budget) := by
  rw [reserve, RecoveryMemoryBudget.tryReserve_eq, if_pos (show budget.used + 0 ≤ budget.limit from h)]
  rfl

theorem RecoveryCharge.grow_eq_ok {grown : RecoveryCharge}
    (h : charge.grow budget bytes = .ok (grown, next)) :
    grown = { charge with bytes := max charge.bytes bytes } ∧
      next = { budget with used := budget.used + (grown.bytes - charge.bytes) } ∧
      (next.used ≤ budget.used ∨ next.used ≤ budget.limit) := by
  unfold grow at h
  split_ifs at h with hle
  · cases h
    rw [max_eq_left hle]
    simp
  · cases hreserve : budget.tryReserve (bytes - charge.bytes) with
    | none => simp [hreserve] at h
    | some after =>
      simp only [hreserve, Except.ok.injEq, Prod.mk.injEq] at h
      obtain ⟨rfl, rfl⟩ := h
      obtain ⟨rfl, hfit⟩ := RecoveryMemoryBudget.tryReserve_eq_some hreserve
      rw [max_eq_right (le_of_not_ge hle)]
      exact ⟨rfl, rfl, Or.inr hfit⟩

theorem RecoveryCharge.transfer_of_le (h : bytes ≤ charge.bytes) :
    charge.transfer bytes = .ok ⟨charge.budget, charge.bytes - bytes⟩ := if_neg (not_lt.mpr h)

theorem RecoveryCharge.shrink_of_le (h : bytes ≤ charge.bytes)
    (budget : RecoveryMemoryBudget) :
    charge.shrink budget bytes = some (⟨charge.budget, bytes⟩, budget.release (charge.bytes - bytes)) := if_pos h

theorem RecoveryCharge.split_of_le (h : bytes ≤ charge.bytes) :
    charge.split bytes = .ok (⟨charge.budget, charge.bytes - bytes⟩, ⟨charge.budget, bytes⟩) := by
  unfold split
  rw [if_neg (by omega)]

theorem RecoveryCharge.drop_eq (h : charge.heldOf budget.identity ≤ budget.used) :
    charge.drop budget = { budget with used := budget.used - charge.heldOf budget.identity } := by
  unfold drop heldOf at *
  split_ifs at * with hown
  · exact RecoveryMemoryBudget.release_of_le h
  · rfl

/-- A call gave some bytes back to the budget and took others, and stayed within the limit. -/
structure Balanced (before after : RecoveryMemoryBudget) (given taken : ℕ) : Prop where
  identity : after.identity = before.identity
  limit : after.limit = before.limit
  used : after.used + given = before.used + taken
  within : before.used ≤ before.limit → after.used ≤ after.limit
  sound : after.underflowed = before.underflowed

theorem Balanced.refl (budget : RecoveryMemoryBudget) (bytes : ℕ) : Balanced budget budget bytes bytes :=
  ⟨rfl, rfl, rfl, id, rfl⟩

variable {given taken : ℕ}

theorem Balanced.trans {first second third : RecoveryMemoryBudget} {given' taken' : ℕ}
    (h : Balanced first second given taken) (h' : Balanced second third given' taken') :
    Balanced first third (given + given') (taken + taken') where
  identity := h'.identity.trans h.identity
  limit := h'.limit.trans h.limit
  used := by
    have := h.used
    have := h'.used
    omega
  within := fun hle => h'.within (h.within hle)
  sound := h'.sound.trans h.sound

theorem Balanced.chain {first second third : RecoveryMemoryBudget} {between : ℕ}
    (h : Balanced first second given between) (h' : Balanced second third between taken) :
    Balanced first third given taken where
  identity := h'.identity.trans h.identity
  limit := h'.limit.trans h.limit
  used := by
    have := h.used
    have := h'.used
    omega
  within := fun hle => h'.within (h.within hle)
  sound := h'.sound.trans h.sound

theorem Balanced.congr {before after : RecoveryMemoryBudget} {given' taken' : ℕ}
    (h : Balanced before after given taken) (hsum : given + taken' = given' + taken) :
    Balanced before after given' taken' where
  identity := h.identity
  limit := h.limit
  used := by
    have := h.used
    omega
  within := h.within
  sound := h.sound

theorem Balanced.of_part {before after : RecoveryMemoryBudget} {part : ℕ}
    (h : Balanced before after part 0) (hsplit : given = taken + part) :
    Balanced before after given taken :=
  h.congr (by omega)

theorem RecoveryMemoryBudget.release_balanced (h : bytes ≤ budget.used) :
    Balanced budget (budget.release bytes) bytes 0 := by
  rw [RecoveryMemoryBudget.release_of_le h]
  refine ⟨rfl, rfl, ?_, ?_, rfl⟩ <;> dsimp only <;> omega

theorem RecoveryCharge.grow_balanced {grown : RecoveryCharge}
    (h : charge.grow budget bytes = .ok (grown, next)) : Balanced budget next charge.bytes grown.bytes := by
  obtain ⟨rfl, rfl, hwithin⟩ := RecoveryCharge.grow_eq_ok h
  refine ⟨rfl, rfl, ?_, fun hle => ?_, rfl⟩
  · dsimp only
    omega
  · exact hwithin.elim (fun hkept => hkept.trans hle) id

theorem RecoveryCharge.drop_balanced (h : charge.heldOf budget.identity ≤ budget.used) :
    Balanced budget (charge.drop budget) (charge.heldOf budget.identity) 0 := by
  rw [RecoveryCharge.drop_eq h]
  refine ⟨rfl, rfl, ?_, ?_, rfl⟩ <;> dsimp only <;> omega

theorem RecoveryCharge.drop_own_balanced
    (hown : charge.budget = budget.identity) (h : charge.bytes ≤ budget.used) :
    Balanced budget (charge.drop budget) charge.bytes 0 := by
  have hheld : charge.heldOf budget.identity = charge.bytes :=
    RecoveryCharge.heldOf_own (by rw [belongsTo, hown, beq_self_eq_true])
  rw [← hheld] at h ⊢
  exact RecoveryCharge.drop_balanced h

theorem RecoveryCharge.reserve_balanced (h : RecoveryCharge.reserve budget bytes = .ok (charge, next)) :
    Balanced budget next 0 bytes := by
  obtain ⟨_, rfl, hfit⟩ := RecoveryCharge.reserve_eq_ok h
  exact ⟨rfl, rfl, rfl, fun _ => hfit, rfl⟩

end Quicp
