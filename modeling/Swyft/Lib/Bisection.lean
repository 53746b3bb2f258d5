import Mathlib.Order.Bounds.Basic
import Mathlib.Algebra.Order.Ring.Int
import Mathlib.Tactic.Common

/-!
# Bisection over the integers

The search for the last integer of an interval that passes a test, halving the interval and keeping
the half that the middle points to. It finds the last one whenever the test, once failed, stays
failed.

## Main results

* `Bisection.search_isGreatest` — what the search finds
-/

namespace Bisection

/-- Halve `[lo, hi]` for a number of rounds, keeping the half in which the test turns. -/
def search (test : ℤ → Prop) [DecidablePred test] : (rounds : ℕ) → (lo hi : ℤ) → ℤ
  | 0, lo, _ => lo
  | rounds + 1, lo, hi =>
    if lo < hi then
      let mid := lo + (hi - lo + 1) / 2
      if test mid then search test rounds mid hi else search test rounds lo (mid - 1)
    else lo

variable {test : ℤ → Prop} [DecidablePred test]

/-- **Bisection** finds the last integer of the interval that passes, if the first one passes, every
integer before one that passes does, and there are as many rounds as the interval is long. -/
theorem search_isGreatest :
    ∀ {rounds : ℕ} {lo hi : ℤ}, (∀ s t, lo ≤ s → s ≤ t → t ≤ hi → test t → test s) →
      lo ≤ hi → test lo → (hi - lo).toNat ≤ rounds →
      IsGreatest {t | (lo ≤ t ∧ t ≤ hi) ∧ test t} (search test rounds lo hi) := by
  intro rounds
  induction rounds with
  | zero =>
    intro lo hi _ hle hlo hrounds
    obtain rfl : lo = hi := by omega
    exact ⟨⟨⟨le_rfl, le_rfl⟩, hlo⟩, fun t ht => ht.1.2⟩
  | succ rounds ih =>
    intro lo hi hdown hle hlo hrounds
    rw [search]
    split
    case isFalse hge =>
      obtain rfl : lo = hi := by omega
      exact ⟨⟨⟨le_rfl, le_rfl⟩, hlo⟩, fun t ht => ht.1.2⟩
    case isTrue hlt =>
      generalize hmid : lo + (hi - lo + 1) / 2 = mid
      show IsGreatest _ (if test mid then search test rounds mid hi
        else search test rounds lo (mid - 1))
      split
      case isTrue hpass =>
        -- the last one is at or above the middle
        have hhigh := ih (fun s t hs => hdown s t (by omega)) (by omega) hpass
          (show (hi - mid).toNat ≤ rounds by omega)
        refine ⟨⟨⟨?_, hhigh.1.1.2⟩, hhigh.1.2⟩, ?_⟩
        · have := hhigh.1.1.1
          omega
        · rintro t ⟨⟨-, hthi⟩, ht⟩
          rcases le_or_gt mid t with h | h
          · exact hhigh.2 ⟨⟨h, hthi⟩, ht⟩
          · exact h.le.trans hhigh.1.1.1
      case isFalse hfail =>
        -- nothing from the middle on passes
        have hlow := ih (fun s t hs hst ht => hdown s t hs hst (by omega)) (by omega) hlo
          (show (mid - 1 - lo).toNat ≤ rounds by omega)
        refine ⟨⟨⟨hlow.1.1.1, ?_⟩, hlow.1.2⟩, ?_⟩
        · have := hlow.1.1.2
          omega
        · rintro t ⟨⟨hlot, hthi⟩, ht⟩
          refine hlow.2 ⟨⟨hlot, ?_⟩, ht⟩
          by_contra hgt
          exact hfail (hdown mid t (by omega) (by omega) hthi ht)

end Bisection
