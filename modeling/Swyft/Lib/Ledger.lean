import Mathlib.Algebra.BigOperators.Group.Finset.Basic
import Mathlib.Algebra.Order.BigOperators.Group.Finset
import Mathlib.Algebra.BigOperators.Ring.Finset
import Mathlib.Algebra.Order.Ring.Nat
import Mathlib.Logic.Function.Basic

/-!
# Amounts by key

A ledger holds an amount under every key, zero under all but finitely many. It is what a history of
credits and debits adds up to, and the place to sum a quantity over all keys ever credited.

Finitely supported functions are Mathlib's `Finsupp`, whose updates do not compute; here the keys
are carried along as a finite set, so a ledger can be evaluated. The set may hold keys whose amount
has gone back to zero: sums are taken of quantities that vanish there.

## Main definitions

* `Ledger` — amounts by key
* `Ledger.set`, `credit`, `debit` — changing the amount under one key
* `Ledger.sumBy` — the sum of a quantity over all keys

## Main results

* `Ledger.sumBy_set`, `sumBy_update` — how a change under one key moves a sum
* `Ledger.sumBy_congr`, `sumBy_le_sumBy`, `le_sumBy` — comparing sums key by key
-/

/-- Amounts by key. -/
structure Ledger (κ : Type) where
  keys : Finset κ
  amount : κ → ℕ
  /-- Only the keys carried along may have an amount. -/
  absent : ∀ k, k ∉ keys → amount k = 0

namespace Ledger

variable {κ M : Type} {s : Ledger κ} {k : κ} {n : ℕ}

/-- Nothing under any key. -/
def empty : Ledger κ := ⟨∅, fun _ => 0, fun _ _ => rfl⟩

@[simp] theorem amount_empty (k : κ) : (empty : Ledger κ).amount k = 0 := rfl

/-! ### Sums over all keys -/

section Sum

variable [AddCommMonoid M]

/-- The sum of `f` over all keys and their amounts. -/
def sumBy (s : Ledger κ) (f : κ → ℕ → M) : M := ∑ k ∈ s.keys, f k (s.amount k)

@[simp] theorem sumBy_empty (f : κ → ℕ → M) : (empty : Ledger κ).sumBy f = 0 := rfl

theorem sumBy_congr {f g : κ → ℕ → M} (h : ∀ k, f k (s.amount k) = g k (s.amount k)) :
    s.sumBy f = s.sumBy g :=
  Finset.sum_congr rfl fun k _ => h k

theorem sumBy_add (s : Ledger κ) (f g : κ → ℕ → M) :
    s.sumBy (fun k n => f k n + g k n) = s.sumBy f + s.sumBy g :=
  Finset.sum_add_distrib

theorem sumBy_eq_zero {f : κ → ℕ → M} (h : ∀ k, f k (s.amount k) = 0) : s.sumBy f = 0 :=
  Finset.sum_eq_zero fun k _ => h k

end Sum

theorem sumBy_le_sumBy {f g : κ → ℕ → ℕ} (h : ∀ k, f k (s.amount k) ≤ g k (s.amount k)) :
    s.sumBy f ≤ s.sumBy g :=
  Finset.sum_le_sum fun k _ => h k

theorem mul_sumBy (s : Ledger κ) (c : ℕ) (f : κ → ℕ → ℕ) :
    (s.sumBy fun k n => c * f k n) = c * s.sumBy f :=
  (Finset.mul_sum _ _ _).symm

/-! ### Changing one amount -/

variable [DecidableEq κ]

/-- Put `n` under `k`. -/
def set (s : Ledger κ) (k : κ) (n : ℕ) : Ledger κ where
  keys := insert k s.keys
  amount := Function.update s.amount k n
  absent j hj := by
    rw [Finset.mem_insert, not_or] at hj
    rw [Function.update_of_ne hj.1]
    exact s.absent j hj.2

def credit (s : Ledger κ) (k : κ) (n : ℕ) : Ledger κ := s.set k (s.amount k + n)

/-- Take `n` from `k`, or what there is. -/
def debit (s : Ledger κ) (k : κ) (n : ℕ) : Ledger κ := s.set k (s.amount k - n)

theorem amount_set (s : Ledger κ) (k : κ) (n : ℕ) (j : κ) :
    (s.set k n).amount j = if j = k then n else s.amount j :=
  Function.update_apply _ _ _ _

@[simp] theorem amount_set_self (s : Ledger κ) (k : κ) (n : ℕ) : (s.set k n).amount k = n := by
  rw [amount_set, if_pos rfl]

section Sum

variable [AddCommMonoid M]

/-- A key not carried along adds nothing. -/
theorem sum_insert_keys {f : κ → ℕ → M} (hf : f k 0 = 0) :
    ∑ j ∈ insert k s.keys, f j (s.amount j) = s.sumBy f := by
  by_cases hk : k ∈ s.keys
  · rw [Finset.insert_eq_of_mem hk, sumBy]
  · rw [Finset.sum_insert hk, s.absent k hk, hf, zero_add, sumBy]

/-- **A change under one key.** -/
theorem sumBy_set {f : κ → ℕ → M} (hf : f k 0 = 0) :
    (s.set k n).sumBy f + f k (s.amount k) = s.sumBy f + f k n := by
  have hk : k ∈ insert k s.keys := Finset.mem_insert_self k s.keys
  have hrest : ∑ j ∈ (insert k s.keys).erase k, f j ((s.set k n).amount j)
      = ∑ j ∈ (insert k s.keys).erase k, f j (s.amount j) := by
    refine Finset.sum_congr rfl fun j hj => ?_
    rw [amount_set, if_neg (Finset.ne_of_mem_erase hj)]
  have hset : (s.set k n).sumBy f
      = ∑ j ∈ (insert k s.keys).erase k, f j (s.amount j) + f k n := by
    show ∑ j ∈ insert k s.keys, f j ((s.set k n).amount j) = _
    rw [← Finset.sum_erase_add _ _ hk, hrest, amount_set_self]
  rw [hset, ← sum_insert_keys hf, ← Finset.sum_erase_add _ _ hk]
  exact add_right_comm _ _ _

/-- A change of what one key is counted for. -/
theorem sumBy_update {f g : κ → ℕ → M} (hf : f k 0 = 0) (hg : g k 0 = 0)
    (h : ∀ j n, j ≠ k → g j n = f j n) :
    s.sumBy g + f k (s.amount k) = s.sumBy f + g k (s.amount k) := by
  have hk : k ∈ insert k s.keys := Finset.mem_insert_self k s.keys
  have hrest : ∑ j ∈ (insert k s.keys).erase k, g j (s.amount j)
      = ∑ j ∈ (insert k s.keys).erase k, f j (s.amount j) :=
    Finset.sum_congr rfl fun j hj => h j _ (Finset.ne_of_mem_erase hj)
  rw [← sum_insert_keys hg, ← sum_insert_keys hf, ← Finset.sum_erase_add _ _ hk,
    ← Finset.sum_erase_add (insert k s.keys) (fun j => f j (s.amount j)) hk, hrest]
  exact add_right_comm _ _ _

end Sum

/-- One key's share is at most the whole. -/
theorem le_sumBy {f : κ → ℕ → ℕ} (hf : f k 0 = 0) : f k (s.amount k) ≤ s.sumBy f := by
  have h := sumBy_set (s := s) (n := 0) hf
  rw [hf, Nat.add_zero] at h
  omega

/-- What a credit adds to a quantity linear in the amount. -/
theorem sumBy_credit {f : κ → ℕ → ℕ} (hf : f k 0 = 0) (hadd : ∀ m n, f k (m + n) = f k m + f k n) :
    (s.credit k n).sumBy f = s.sumBy f + f k n := by
  have h := sumBy_set (s := s) (n := s.amount k + n) hf
  rw [hadd] at h
  rw [credit]
  omega

/-- What a covered debit takes from it. -/
theorem sumBy_debit {f : κ → ℕ → ℕ} (hf : f k 0 = 0) (hadd : ∀ m n, f k (m + n) = f k m + f k n)
    (h : n ≤ s.amount k) : (s.debit k n).sumBy f + f k n = s.sumBy f := by
  have hset := sumBy_set (s := s) (n := s.amount k - n) hf
  have hsplit : f k (s.amount k) = f k (s.amount k - n) + f k n := by
    rw [← hadd, Nat.sub_add_cancel h]
  rw [debit]
  omega

end Ledger
