import Mathlib.Algebra.BigOperators.Group.Finset.Basic
import Mathlib.Algebra.Order.BigOperators.Group.Finset
import Mathlib.Algebra.BigOperators.Ring.Finset
import Mathlib.Algebra.Order.Ring.Nat
import Mathlib.Logic.Function.Basic

/-!
# Records numbered by a counter

A table of records keyed by an identifier, together with the counter that hands identifiers out.
A record is created at the counter, which then moves on, so an identifier is never given twice;
records may be replaced or erased afterwards.

That no record lies at or above the counter is a field of the structure, not a hypothesis of the
lemmas: a table in which it fails cannot be built. It is what makes the sum over all records a
sum over a finite range.

## Main definitions

* `IdStore` — the table
* `IdStore.push`, `replace`, `erase` — the three ways it changes
* `IdStore.sumBy`, `sum` — the sum of a quantity over the records present

## Main results

* `IdStore.sumBy_push`, `sumBy_replace`, `sumBy_eq_add_erase` — how each change moves a sum
* `IdStore.sumBy_congr`, `sumBy_le_sumBy`, `le_sum` — comparing sums record by record
-/

/-- Records keyed by identifiers below `next`. -/
structure IdStore (α : Type) where
  /-- The identifier the next record will get. -/
  next : ℕ
  /-- The record stored under an identifier. -/
  get? : ℕ → Option α
  /-- Identifiers not handed out yet hold nothing. -/
  fresh : ∀ i, next ≤ i → get? i = none

namespace IdStore

variable {α M : Type} {s : IdStore α} {i j : ℕ} {a b : α}

/-- No record, and the counter at zero. -/
def empty : IdStore α := ⟨0, fun _ => none, fun _ _ => rfl⟩

/-- Store `a` under the next identifier. -/
def push (s : IdStore α) (a : α) : IdStore α where
  next := s.next + 1
  get? := Function.update s.get? s.next (some a)
  fresh i hi := by
    rw [Function.update_of_ne (by omega)]
    exact s.fresh i (by omega)

/-- Put `a` in place of the record under `i`; nothing happens where there is none. -/
def replace (s : IdStore α) (i : ℕ) (a : α) : IdStore α where
  next := s.next
  get? := Function.update s.get? i ((s.get? i).map fun _ => a)
  fresh j hj := by
    by_cases h : j = i
    · subst h; simp [s.fresh j hj]
    · rw [Function.update_of_ne h]; exact s.fresh j hj

/-- Remove the record under `i`. -/
def erase (s : IdStore α) (i : ℕ) : IdStore α where
  next := s.next
  get? := Function.update s.get? i none
  fresh j hj := by
    by_cases h : j = i
    · subst h; simp
    · rw [Function.update_of_ne h]; exact s.fresh j hj

theorem lt_next (h : s.get? i = some a) : i < s.next := by
  by_contra hi
  rw [s.fresh i (by omega)] at h
  cases h

@[simp] theorem next_empty : (empty : IdStore α).next = 0 := rfl
@[simp] theorem get?_empty (i : ℕ) : (empty : IdStore α).get? i = none := rfl
@[simp] theorem next_push (s : IdStore α) (a : α) : (s.push a).next = s.next + 1 := rfl
@[simp] theorem next_replace (s : IdStore α) (i : ℕ) (a : α) : (s.replace i a).next = s.next := rfl
@[simp] theorem next_erase (s : IdStore α) (i : ℕ) : (s.erase i).next = s.next := rfl

theorem get?_push (s : IdStore α) (a : α) (j : ℕ) :
    (s.push a).get? j = if j = s.next then some a else s.get? j :=
  Function.update_apply _ _ _ _

theorem get?_replace (h : s.get? i = some a) (b : α) (j : ℕ) :
    (s.replace i b).get? j = if j = i then some b else s.get? j := by
  simp [replace, Function.update_apply, h]

theorem get?_erase (s : IdStore α) (i j : ℕ) :
    (s.erase i).get? j = if j = i then none else s.get? j :=
  Function.update_apply _ _ _ _

/-- Whatever holds of the stored record holds after a replacement that keeps it. -/
theorem forall_replace {P : ℕ → α → Prop} (h : s.get? i = some a)
    (hall : ∀ j c, s.get? j = some c → P j c) (hb : P i b) :
    ∀ j c, (s.replace i b).get? j = some c → P j c := by
  intro j c hj
  rw [get?_replace h] at hj
  split at hj
  case isTrue e => cases hj; subst e; exact hb
  case isFalse => exact hall j c hj

theorem forall_erase {P : ℕ → α → Prop} (hall : ∀ j c, s.get? j = some c → P j c) :
    ∀ j c, (s.erase i).get? j = some c → P j c := by
  intro j c hj
  rw [get?_erase] at hj
  split at hj
  case isTrue => cases hj
  case isFalse => exact hall j c hj

theorem forall_push {P : ℕ → α → Prop} (hall : ∀ j c, s.get? j = some c → P j c)
    (ha : P s.next a) : ∀ j c, (s.push a).get? j = some c → P j c := by
  intro j c hj
  rw [get?_push] at hj
  split at hj
  case isTrue e => cases hj; subst e; exact ha
  case isFalse => exact hall j c hj

/-- The records present. -/
def values (s : IdStore α) : List α := (List.range s.next).filterMap s.get?

theorem mem_values : a ∈ s.values ↔ ∃ i, s.get? i = some a := by
  simp only [values, List.mem_filterMap, List.mem_range]
  exact ⟨fun ⟨i, _, h⟩ => ⟨i, h⟩, fun ⟨i, h⟩ => ⟨i, lt_next h, h⟩⟩

/-! ### Sums over the records present -/

section Sum

variable [AddCommMonoid M]

/-- The sum of `f` over the records present and their identifiers. -/
def sumBy (s : IdStore α) (f : ℕ → α → M) : M :=
  ∑ i ∈ Finset.range s.next, (s.get? i).elim 0 (f i)

/-- The sum of `f` over the records present. -/
def sum (s : IdStore α) (f : α → M) : M := s.sumBy fun _ => f

@[simp] theorem sumBy_empty (f : ℕ → α → M) : (empty : IdStore α).sumBy f = 0 := rfl

@[simp] theorem sum_empty (f : α → M) : (empty : IdStore α).sum f = 0 := rfl

theorem sumBy_push (s : IdStore α) (a : α) (f : ℕ → α → M) :
    (s.push a).sumBy f = s.sumBy f + f s.next a := by
  have hold : ∀ i ∈ Finset.range s.next,
      ((s.push a).get? i).elim 0 (f i) = (s.get? i).elim 0 (f i) := by
    intro i hi
    rw [get?_push, if_neg (Finset.mem_range.mp hi).ne]
  rw [sumBy, next_push, Finset.sum_range_succ, Finset.sum_congr rfl hold, get?_push, if_pos rfl]
  rfl

theorem sum_push (s : IdStore α) (a : α) (f : α → M) : (s.push a).sum f = s.sum f + f a :=
  sumBy_push s a fun _ => f

/-- Splitting one record off a sum. -/
theorem sumBy_eq_add_erase (h : s.get? i = some a) (f : ℕ → α → M) :
    s.sumBy f = (s.erase i).sumBy f + f i a := by
  have hi : i ∈ Finset.range s.next := Finset.mem_range.mpr (lt_next h)
  have hrest : ∑ j ∈ (Finset.range s.next).erase i, ((s.erase i).get? j).elim 0 (f j)
      = ∑ j ∈ (Finset.range s.next).erase i, (s.get? j).elim 0 (f j) := by
    refine Finset.sum_congr rfl fun j hj => ?_
    rw [get?_erase, if_neg (Finset.ne_of_mem_erase hj)]
  rw [sumBy, sumBy, next_erase, ← Finset.sum_erase_add _ _ hi,
    ← Finset.sum_erase_add (Finset.range s.next) (fun j => ((s.erase i).get? j).elim 0 (f j)) hi,
    hrest, get?_erase, if_pos rfl, h]
  simp

theorem sum_eq_add_erase (h : s.get? i = some a) (f : α → M) :
    s.sum f = (s.erase i).sum f + f a :=
  sumBy_eq_add_erase h fun _ => f

theorem erase_replace (s : IdStore α) (i : ℕ) (b : α) : (s.replace i b).erase i = s.erase i := by
  simp [erase, replace]

theorem sumBy_replace (h : s.get? i = some a) (b : α) (f : ℕ → α → M) :
    (s.replace i b).sumBy f + f i a = s.sumBy f + f i b := by
  have hb : (s.replace i b).get? i = some b := by rw [get?_replace h, if_pos rfl]
  rw [sumBy_eq_add_erase hb, sumBy_eq_add_erase h, erase_replace]
  exact add_right_comm _ _ _

theorem sum_replace (h : s.get? i = some a) (b : α) (f : α → M) :
    (s.replace i b).sum f + f a = s.sum f + f b :=
  sumBy_replace h b fun _ => f

theorem sumBy_congr {f g : ℕ → α → M} (h : ∀ i a, s.get? i = some a → f i a = g i a) :
    s.sumBy f = s.sumBy g := by
  refine Finset.sum_congr rfl fun i _ => ?_
  cases hi : s.get? i with
  | none => rfl
  | some a => exact h i a hi

theorem sum_congr {f g : α → M} (h : ∀ i a, s.get? i = some a → f a = g a) :
    s.sum f = s.sum g :=
  sumBy_congr h

theorem sumBy_add (s : IdStore α) (f g : ℕ → α → M) :
    s.sumBy (fun i a => f i a + g i a) = s.sumBy f + s.sumBy g := by
  rw [sumBy, sumBy, sumBy, ← Finset.sum_add_distrib]
  refine Finset.sum_congr rfl fun i _ => ?_
  cases s.get? i with
  | none => simp
  | some a => rfl

theorem sum_add (s : IdStore α) (f g : α → M) :
    s.sum (fun a => f a + g a) = s.sum f + s.sum g :=
  sumBy_add s (fun _ => f) fun _ => g

theorem sumBy_eq_zero {f : ℕ → α → M} (h : ∀ i a, s.get? i = some a → f i a = 0) :
    s.sumBy f = 0 := by
  refine Finset.sum_eq_zero fun i _ => ?_
  cases hi : s.get? i with
  | none => rfl
  | some a => exact h i a hi

theorem sum_eq_zero {f : α → M} (h : ∀ i a, s.get? i = some a → f a = 0) : s.sum f = 0 :=
  sumBy_eq_zero h

end Sum

theorem sumBy_le_sumBy {f g : ℕ → α → ℕ} (h : ∀ i a, s.get? i = some a → f i a ≤ g i a) :
    s.sumBy f ≤ s.sumBy g := by
  refine Finset.sum_le_sum fun i _ => ?_
  cases hi : s.get? i with
  | none => exact le_rfl
  | some a => exact h i a hi

theorem sum_le_sum {f g : α → ℕ} (h : ∀ i a, s.get? i = some a → f a ≤ g a) :
    s.sum f ≤ s.sum g :=
  sumBy_le_sumBy h

theorem mul_sumBy (s : IdStore α) (c : ℕ) (f : ℕ → α → ℕ) :
    (s.sumBy fun i a => c * f i a) = c * s.sumBy f := by
  rw [sumBy, sumBy, Finset.mul_sum]
  refine Finset.sum_congr rfl fun i _ => ?_
  cases s.get? i with
  | none => rfl
  | some a => rfl

/-- One record's share is at most the whole. -/
theorem le_sum (h : s.get? i = some a) (f : α → ℕ) : f a ≤ s.sum f := by
  rw [sum_eq_add_erase h]
  exact Nat.le_add_left _ _

/-- Bounded shares bound the sum by the number of identifiers handed out. -/
theorem sum_le_mul {f : α → ℕ} {c : ℕ} (h : ∀ i a, s.get? i = some a → f a ≤ c) :
    s.sum f ≤ s.next * c := by
  have key := Finset.sum_le_card_nsmul (Finset.range s.next) (fun i => (s.get? i).elim 0 f) c ?_
  · simpa [sum, sumBy] using key
  · intro i _
    cases hi : s.get? i with
    | none => exact Nat.zero_le _
    | some a => exact h i a hi

end IdStore
