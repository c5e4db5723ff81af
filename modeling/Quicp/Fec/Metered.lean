import Quicp.Fec.Rows

/-!
# The work of elimination

A loop that spends a unit for every item either runs to its end and returns what it computes without a budget, or
fails because the units it needs are more than the budget.
-/

namespace Quicp

def spendMany (count work budget : ℕ) : Except FecError ℕ :=
  if count = 0 then .ok work
  else if saturatingAdd work count > budget then .error .workBudget else .ok (saturatingAdd work count)

/-- A computation that spends several units and returns its result with the work done. -/
def metered {α : Type} (count work budget : ℕ) (result : α) : Except FecError (α × ℕ) :=
  (spendMany count work budget).map (fun work => (result, work))

theorem spendMany_cases (count work budget : ℕ) :
    spendMany count work budget = .error .workBudget ∨ ∃ spent, spendMany count work budget = .ok spent := by
  unfold spendMany
  split_ifs <;> simp

theorem eq_of_metered {α : Type} {count work budget spent : ℕ} {result out : α}
    (h : metered count work budget result = .ok (out, spent)) : result = out := by
  unfold metered at h
  rcases spendMany_cases count work budget with hfail | ⟨done, hdone⟩
  · rw [hfail] at h
    cases h
  · rw [hdone] at h
    exact (Prod.mk.inj (Except.ok.inj h)).1

theorem spend_eq_spendMany (work budget : ℕ) : spend work budget = spendMany 1 work budget := rfl

theorem spendMany_bind (count later work budget : ℕ) :
    ((spendMany count work budget).bind fun work => spendMany later work budget) =
      spendMany (count + later) work budget := by
  unfold spendMany saturatingAdd
  by_cases hcount : count = 0
  · simp [hcount, Except.bind]
  · by_cases hlater : later = 0
    · simp only [hlater, add_zero, if_true]
      split_ifs <;> rfl
    · have hsum : count + later ≠ 0 := by omega
      rw [if_neg hcount, if_neg hsum]
      by_cases hfirst : min (work + count) wordMax > budget
      · rw [if_pos hfirst, if_pos (by omega)]
        rfl
      · rw [if_neg hfirst]
        simp only [Except.bind, if_neg hlater]
        have hmin : min (min (work + count) wordMax + later) wordMax = min (work + (count + later)) wordMax := by
          omega
        rw [hmin]

theorem metered_bind {α β : Type} {count later work budget : ℕ} {first : α} {second : β}
    {next : α × ℕ → Except FecError (β × ℕ)}
    (h : ∀ work, next (first, work) = metered later work budget second) :
    (metered count work budget first).bind next = metered (count + later) work budget second := by
  unfold metered at *
  rw [← spendMany_bind]
  cases spendMany count work budget with
  | error error => rfl
  | ok spent =>
    simp only [Except.map, Except.bind]
    exact h spent

theorem metered_map {α β : Type} (f : α → β) (count work budget : ℕ) (result : α) :
    ((metered count work budget result).bind fun out => .ok (f out.1, out.2)) =
      metered count work budget (f result) := by
  unfold metered
  cases spendMany count work budget <;> rfl

theorem spendMap_eq {α β : Type} (f : α → β) (budget : ℕ) (items : List α) (work : ℕ) :
    spendMap f budget items work = metered items.length work budget (items.map f) := by
  induction items generalizing work with
  | nil => rfl
  | cons item rest ih =>
    have hloop : spendMap f budget (item :: rest) work =
        (metered 1 work budget ()).bind fun out => (spendMap f budget rest out.2).bind fun later =>
          .ok (f item :: later.1, later.2) := by
      rw [spendMap, spend_eq_spendMany, metered]
      cases spendMany 1 work budget <;> rfl
    rw [hloop, List.length_cons, Nat.add_comm]
    refine metered_bind fun work => ?_
    rw [ih]
    exact metered_map (fun later => f item :: later) ..

theorem spendFold_eq {α β : Type} (f : β → α → β) (budget : ℕ) (items : List α) (state : β) (work : ℕ) :
    spendFold f budget items state work = metered items.length work budget (items.foldl f state) := by
  induction items generalizing state work with
  | nil => rfl
  | cons item rest ih =>
    have hloop : spendFold f budget (item :: rest) state work =
        (metered 1 work budget ()).bind fun out => spendFold f budget rest (f state item) out.2 := by
      rw [spendFold, spend_eq_spendMany, metered]
      cases spendMany 1 work budget <;> rfl
    rw [hloop, List.length_cons, Nat.add_comm]
    exact metered_bind fun work => ih _ _

theorem spendZip_eq (factor : Gf256) (budget : ℕ) {target source : List Gf256}
    (h : source.length ≤ target.length) (work : ℕ) :
    spendZip factor budget target source work =
      metered source.length work budget (PaddedVector.addScaled factor target source) := by
  induction target generalizing source work with
  | nil =>
    have hnil : source = [] := List.eq_nil_of_length_eq_zero (Nat.le_zero.mp h)
    rw [hnil]
    rfl
  | cons first target ih =>
    cases source with
    | nil => rfl
    | cons added source =>
      have hloop : spendZip factor budget (first :: target) (added :: source) work =
          (metered 1 work budget ()).bind fun out => (spendZip factor budget target source out.2).bind fun later =>
            .ok ((first + added * factor) :: later.1, later.2) := by
        rw [spendZip, spend_eq_spendMany, metered]
        cases spendMany 1 work budget <;> rfl
      rw [hloop, List.length_cons, Nat.add_comm]
      refine metered_bind fun work => ?_
      rw [ih (Nat.le_of_succ_le_succ h)]
      exact metered_map (fun later => (first + added * factor) :: later) ..

def Row.size (row : Row) : ℕ := row.coefficients.length + row.data.length

def Row.scaled (row : Row) (factor : Gf256) : Row :=
  ⟨SparseRow.scale factor row.coefficients, row.data.map (· * factor)⟩

def Row.plus (row source : Row) (factor : Gf256) : Row :=
  ⟨SparseRow.addScaled factor source.coefficients row.coefficients,
    PaddedVector.addScaled factor (PaddedVector.grow source.data.length row.data) source.data⟩

def Row.factor? (row : Row) (id : UInt32) : Option Gf256 :=
  (row.coefficients.find? (fun term => term.1 == id)).map Prod.snd

/-- A row with an identifier cleared by the row that has it as its pivot. -/
def clearedBy (pivotId : UInt32) (source row : Row) : Row :=
  match row.factor? pivotId with
  | none => row
  | some factor => row.plus source factor

def clearWork (pivotId : UInt32) (source row : Row) : ℕ := if (row.factor? pivotId).isSome then source.size else 0

/-- The row that is chosen as the next pivot, and the others. -/
def choosePivot (rest : List Row) : Option (Row × List Row) := (candidate rest).bind (swapFront rest)

def Row.normalized (row : Row) : Row := row.scaled ((row.coefficients.head?.map Prod.snd).getD 0)⁻¹

def eliminate : ℕ → List Row → List Row → List Row × ℕ
  | 0, done, rest => (done ++ rest, 0)
  | turns + 1, done, rest =>
    match choosePivot rest with
    | none => (done ++ rest, 0)
    | some (row, others) =>
      let later := eliminate turns (done.map (clearedBy row.leading row.normalized) ++ [row.normalized])
        (others.map (clearedBy row.leading row.normalized))
      (later.1, row.size + (((done ++ others).map (clearWork row.leading row.normalized)).sum + later.2))

theorem scaleRow_eq (row : Row) (factor : Gf256) (work budget : ℕ) :
    scaleRow row factor work budget = metered row.size work budget (row.scaled factor) := by
  have hloop : scaleRow row factor work budget =
      (spendMap (fun term => (term.1, term.2 * factor)) budget row.coefficients work).bind fun out =>
        (spendMap (· * factor) budget row.data out.2).bind fun later => .ok (⟨out.1, later.1⟩, later.2) := rfl
  rw [hloop, spendMap_eq]
  refine metered_bind fun work => ?_
  rw [spendMap_eq]
  exact metered_map (fun data => (⟨_, data⟩ : Row)) ..

theorem subtractRow_eq (row source : Row) (factor : Gf256) (work budget : ℕ) :
    subtractRow row source factor work budget = metered source.size work budget (row.plus source factor) := by
  have hloop : subtractRow row source factor work budget =
      (spendFold (fun terms term => SparseRow.addTerm term.1 (term.2 * factor) terms) budget
        source.coefficients row.coefficients work).bind fun out =>
          (spendZip factor budget (PaddedVector.grow source.data.length row.data) source.data out.2).bind
            fun later => .ok (⟨out.1, later.1⟩, later.2) := rfl
  have hlong : source.data.length ≤ (PaddedVector.grow source.data.length row.data).length := by
    rw [PaddedVector.length_grow]
    exact le_max_right _ _
  rw [hloop, spendFold_eq]
  refine metered_bind fun work => ?_
  rw [spendZip_eq factor budget hlong]
  exact metered_map (fun data => (⟨_, data⟩ : Row)) ..

theorem xorScaled_eq {target source : List Gf256} (h : source.length ≤ target.length) (factor : Gf256)
    (work budget : ℕ) : xorScaled target source factor work budget =
      metered source.length work budget (PaddedVector.addScaled factor target source) := by
  rw [xorScaled, if_neg (not_lt.mpr h), spendZip_eq factor budget h]

theorem clearRow_eq (pivotId : UInt32) (source : Row) (budget : ℕ) (row : Row) (work : ℕ) :
    clearRow pivotId source budget row work =
      metered (clearWork pivotId source row) work budget (clearedBy pivotId source row) := by
  unfold clearRow clearWork clearedBy Row.factor?
  cases hfind : row.coefficients.find? (fun term => term.1 == pivotId) with
  | none => rfl
  | some term => exact subtractRow_eq row source term.2 work budget

theorem clearRows_eq (pivotId : UInt32) (source : Row) (budget : ℕ) (rows : List Row) (work : ℕ) :
    clearRows pivotId source budget rows work =
      metered (rows.map (clearWork pivotId source)).sum work budget (rows.map (clearedBy pivotId source)) := by
  induction rows generalizing work with
  | nil => rfl
  | cons row rest ih =>
    have hloop : clearRows pivotId source budget (row :: rest) work =
        (clearRow pivotId source budget row work).bind fun out =>
          (clearRows pivotId source budget rest out.2).bind fun later => .ok (out.1 :: later.1, later.2) := rfl
    rw [hloop, clearRow_eq, List.map_cons, List.sum_cons]
    refine metered_bind fun work => ?_
    rw [ih]
    exact metered_map (fun later => clearedBy pivotId source row :: later) ..

theorem reduceLoop_eq (budget turns : ℕ) (done rest : List Row) (work : ℕ) :
    reduceLoop budget turns done rest work =
      metered (eliminate turns done rest).2 work budget (eliminate turns done rest).1 := by
  induction turns generalizing done rest work with
  | zero => rfl
  | succ turns ih =>
    cases hchoose : choosePivot rest with
    | none =>
      rw [choosePivot] at hchoose
      rw [reduceLoop, eliminate, choosePivot, hchoose]
      rfl
    | some chosen =>
      obtain ⟨row, others⟩ := chosen
      have hloop : reduceLoop budget (turns + 1) done rest work =
          (scaleRow row ((row.coefficients.head?.map Prod.snd).getD 0)⁻¹ work budget).bind fun scaled =>
            (clearRows row.leading scaled.1 budget done scaled.2).bind fun cleared =>
              (clearRows row.leading scaled.1 budget others cleared.2).bind fun later =>
                reduceLoop budget turns (cleared.1 ++ [scaled.1]) later.1 later.2 := by
        rw [choosePivot] at hchoose
        rw [reduceLoop, hchoose]
        rfl
      rw [hloop, scaleRow_eq, eliminate, hchoose]
      refine metered_bind fun work => ?_
      rw [clearRows_eq, List.map_append, List.sum_append, Nat.add_assoc]
      refine metered_bind fun work => ?_
      rw [clearRows_eq]
      exact metered_bind fun work => ih _ _ _

end Quicp
