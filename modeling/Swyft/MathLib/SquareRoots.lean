import Swyft.MathLib.Ticks
import Swyft.PoolContract.TickPrices
import Swyft.Lib.Loops

/-!
# Two integer square roots

`integer_sqrt` of `packages/contract/contracts/math-lib` halves an interval, `isqrt` of
`packages/contract/contracts/pool` is Newton's iteration. Here both are run with the operators of
`u128` and without a bound on their rounds: below the largest number they come to their end, nothing
overflows and nothing is divided by zero, and what they return is the same root.

## Main definitions

* `integerSqrtRound`, `isqrtRound` — a round of either loop
* `IntegerSqrtReturns`, `IsqrtReturns` — the functions return a number
* `IsRoot` — the square root, rounded down

## Main results

* `integerSqrtRound_advances`, `isqrtRound_advances` — what a round does
* `square_roots` — what the functions return
-/

namespace Swyft.MathLib

open Checked Loops

/-- The square root of a number, rounded down. -/
def IsRoot (n r : ℕ) : Prop := r * r ≤ n ∧ n < (r + 1) * (r + 1)

instance (n r : ℕ) : Decidable (IsRoot n r) := inferInstanceAs (Decidable (_ ∧ _))

theorem isRoot_iff {n r : ℕ} : IsRoot n r ↔ r = n.sqrt := Nat.eq_sqrt.symm

/-! ### Halving an interval -/

/-- The variables of the loop of `integer_sqrt`. -/
structure SqrtBounds where
  low : ℕ
  high : ℕ
  result : ℕ
  deriving DecidableEq, Repr

/-- A round of the loop of `integer_sqrt`. A square that does not fit counts as the largest
number. -/
def integerSqrtRound (n : ℕ) (s : SqrtBounds) : Res (SqrtBounds ⊕ ℕ) :=
  if s.low ≤ s.high then do
    let sum ← addU128 s.low s.high
    let mid ← divU128 sum 2
    let midSquared := satMul 128 mid mid
    if midSquared = n then pure (.inr mid)
    else if midSquared < n then do
      let low ← addU128 mid 1
      pure (.inl ⟨low, s.high, mid⟩)
    else do
      let high ← subU128 mid 1
      pure (.inl ⟨s.low, high, s.result⟩)
  else pure (.inr s.result)

/-- `integer_sqrt(n)` returns `r`. -/
def IntegerSqrtReturns (n r : ℕ) : Prop :=
  if n = 0 then r = 0
  else if n = 1 then r = 1
  else Ends (integerSqrtRound n) ⟨1, n, 0⟩ r

/-- Between rounds: the root is between the result and the upper bound. -/
structure Halved (n : ℕ) (s : SqrtBounds) : Prop where
  pos : 0 < s.low
  close : s.low ≤ s.high + 1
  fits : s.low + s.high < 2 ^ 128
  below : (s.low - 1) * (s.low - 1) ≤ n
  above : n < (s.high + 1) * (s.high + 1)
  result : s.result = s.low - 1

theorem Halved.start {n : ℕ} (hn : n < u128Max) : Halved n ⟨1, n, 0⟩ where
  pos := Nat.one_pos
  close := Nat.succ_le_succ (Nat.zero_le n)
  fits := by
    have hmax : u128Max = 2 ^ 128 - 1 := rfl
    show 1 + n < 2 ^ 128
    omega
  below := Nat.zero_le n
  above := by
    show n < (n + 1) * (n + 1)
    nlinarith
  result := rfl

/-- Where the bounds have met, the result is the root. -/
theorem Halved.isRoot {n : ℕ} {s : SqrtBounds} (hs : Halved n s) (hmet : ¬ s.low ≤ s.high) :
    IsRoot n s.result := by
  have hclose := hs.close
  have habove := hs.above
  obtain hlow : s.low = s.high + 1 := by omega
  rw [hs.result]
  refine ⟨hs.below, ?_⟩
  rw [hlow, Nat.add_sub_cancel]
  exact habove

/-- The root is at or above a number between the bounds. -/
theorem Halved.raise {n mid : ℕ} {s : SqrtBounds} (hs : Halved n s) (hhigh : mid ≤ s.high)
    (hfits : mid + 1 + s.high < 2 ^ 128) (hbelow : mid * mid ≤ n) :
    Halved n ⟨mid + 1, s.high, mid⟩ where
  pos := Nat.succ_pos mid
  close := Nat.succ_le_succ hhigh
  fits := hfits
  below := hbelow
  above := hs.above
  result := rfl

/-- The root is below a number between the bounds. -/
theorem Halved.lower {n mid : ℕ} {s : SqrtBounds} (hs : Halved n s) (hlow : s.low ≤ mid)
    (hhigh : mid ≤ s.high) (habove : n < mid * mid) : Halved n ⟨s.low, mid - 1, s.result⟩ := by
  have hpos := hs.pos
  have hfits := hs.fits
  refine ⟨hpos, ?_, ?_, hs.below, ?_, hs.result⟩
  · show s.low ≤ mid - 1 + 1
    omega
  · show s.low + (mid - 1) < 2 ^ 128
    omega
  · show n < (mid - 1 + 1) * (mid - 1 + 1)
    rwa [Nat.sub_add_cancel (by omega)]

theorem integerSqrtRound_advances {n : ℕ} (hn : n < u128Max) {s : SqrtBounds} (hs : Halved n s) :
    ∃ next, integerSqrtRound n s = .ok next ∧
      Advances (Halved n) (fun s => s.high + 1 - s.low) (IsRoot n) s next := by
  have hpos := hs.pos
  have hfits := hs.fits
  rw [integerSqrtRound]
  split
  case isFalse hmet => exact ⟨.inr s.result, rfl, hs.isRoot hmet⟩
  case isTrue hle =>
    have hadd : addU128 s.low s.high = .ok (s.low + s.high) := fitU_of_lt hfits
    have hdiv : divU128 (s.low + s.high) 2 = .ok ((s.low + s.high) / 2) := divU_of_pos (by decide)
    rw [hadd, ok_bind, hdiv, ok_bind]
    have hmid : s.low ≤ (s.low + s.high) / 2 ∧ (s.low + s.high) / 2 ≤ s.high ∧
        s.low + s.high ≤ 2 * ((s.low + s.high) / 2) + 1 := by omega
    generalize (s.low + s.high) / 2 = mid at hmid
    obtain ⟨hlow, hhigh, hup⟩ := hmid
    simp only [satMul_self_eq_iff hn, satMul_self_lt_iff hn]
    split
    case isTrue heq =>
      subst heq
      refine ⟨.inr mid, rfl, le_rfl, ?_⟩
      nlinarith
    case isFalse hne =>
      split
      case isTrue hlt =>
        -- the square of the middle fits, so that it is not the last number of its type
        have hsmall := lt_of_mul_self_lt hn hlt
        have hmax : u128Max = 2 ^ 128 - 1 := rfl
        have hnext : addU128 mid 1 = .ok (mid + 1) := fitU_of_lt (by omega)
        rw [hnext, ok_bind]
        refine ⟨.inl ⟨mid + 1, s.high, mid⟩, rfl, hs.raise hhigh (by omega) hlt.le, ?_⟩
        show s.high + 1 - (mid + 1) < s.high + 1 - s.low
        omega
      case isFalse hge =>
        have hprev : subU128 mid 1 = .ok (mid - 1) := subU_of_le (by omega)
        rw [hprev, ok_bind]
        refine ⟨.inl ⟨s.low, mid - 1, s.result⟩, rfl, hs.lower hlow hhigh (by omega), ?_⟩
        show mid - 1 + 1 - s.low < s.high + 1 - s.low
        omega

/-! ### Newton's iteration -/

/-- The variables of the loop of `isqrt`. -/
structure Estimates where
  x : ℕ
  y : ℕ
  deriving DecidableEq, Repr

/-- The next estimate, with the operators of `u128`. -/
def nextEstimate (n x : ℕ) : Res ℕ := do
  let quotient ← divU128 n x
  let sum ← addU128 x quotient
  divU128 sum 2

/-- A round of the loop of `isqrt`. -/
def isqrtRound (n : ℕ) (s : Estimates) : Res (Estimates ⊕ ℕ) :=
  if s.y < s.x then do
    let y ← nextEstimate n s.y
    pure (.inl ⟨s.y, y⟩)
  else pure (.inr s.x)

/-- `isqrt(n)` returns `r`. -/
def IsqrtReturns (n r : ℕ) : Prop :=
  if n = 0 then r = 0
  else ∃ sum y, addU128 n 1 = .ok sum ∧ divU128 sum 2 = .ok y ∧ Ends (isqrtRound n) ⟨n, y⟩ r

/-- Between rounds: the estimate is at or above the root, and the other one is the next. -/
structure Estimated (n : ℕ) (s : Estimates) : Prop where
  root : n.sqrt ≤ s.x
  fits : s.x ≤ n
  next : s.y = Newton.step n s.x

theorem nextEstimate_eq {n x : ℕ} (hn : n < u128Max) (hpos : 0 < x) (hle : x ≤ n) :
    nextEstimate n x = .ok (Newton.step n x) := by
  have hmax : u128Max = 2 ^ 128 - 1 := rfl
  have hquotient : 0 < n / x := Nat.div_pos hle hpos
  have hsum : x + n / x ≤ n + 1 := by
    have hmul := Nat.div_mul_le_self n x
    obtain ⟨a, rfl⟩ : ∃ a, x = a + 1 := ⟨x - 1, by omega⟩
    obtain ⟨b, hb⟩ : ∃ b, n / (a + 1) = b + 1 := ⟨n / (a + 1) - 1, by omega⟩
    rw [hb] at hmul ⊢
    nlinarith [Nat.zero_le (a * b)]
  have hadd : addU128 x (n / x) = .ok (x + n / x) := fitU_of_lt (by omega)
  have hhalf : divU128 (x + n / x) 2 = .ok (Newton.step n x) := divU_of_pos (by decide)
  rw [nextEstimate, divU128, divU_of_pos hpos, ok_bind, hadd, ok_bind, hhalf]

theorem isqrtRound_advances {n : ℕ} (hn : n < u128Max) (hpos : 0 < n) {s : Estimates}
    (hs : Estimated n s) :
    ∃ next, isqrtRound n s = .ok next ∧ Advances (Estimated n) (·.x) (IsRoot n) s next := by
  have hroot : 0 < n.sqrt := Nat.sqrt_pos.mpr hpos
  have hx : 0 < s.x := hroot.trans_le hs.root
  have hstep : n.sqrt ≤ s.y := by
    rw [hs.next]
    exact Newton.sqrt_le_step hx
  rw [isqrtRound]
  split
  case isTrue hlt =>
    have hfits : s.y ≤ n := hlt.le.trans hs.fits
    rw [nextEstimate_eq hn (hroot.trans_le hstep) hfits, ok_bind]
    exact ⟨.inl ⟨s.y, Newton.step n s.y⟩, rfl, ⟨hstep, hfits, rfl⟩, hlt⟩
  case isFalse hstop =>
    refine ⟨.inr s.x, rfl, isRoot_iff.mpr ?_⟩
    rw [hs.next] at hstop
    exact Newton.eq_sqrt_of_le_step hx hs.root (not_lt.mp hstop)

/-! ### Both -/

theorem exists_integerSqrtReturns {n : ℕ} (hn : n < u128Max) :
    ∃ r, IntegerSqrtReturns n r ∧ IsRoot n r := by
  by_cases hzero : n = 0
  · exact ⟨0, by rw [IntegerSqrtReturns, if_pos hzero], by rw [hzero]; decide⟩
  by_cases hone : n = 1
  · exact ⟨1, by rw [IntegerSqrtReturns, if_neg hzero, if_pos hone], by rw [hone]; decide⟩
  obtain ⟨r, hends, hr⟩ := exists_ends (fun s : SqrtBounds => s.high + 1 - s.low)
    (fun s hs => integerSqrtRound_advances hn hs) (Halved.start hn)
  exact ⟨r, by rwa [IntegerSqrtReturns, if_neg hzero, if_neg hone], hr⟩

theorem exists_isqrtReturns {n : ℕ} (hn : n < u128Max) : ∃ r, IsqrtReturns n r ∧ IsRoot n r := by
  have hmax : u128Max = 2 ^ 128 - 1 := rfl
  by_cases hzero : n = 0
  · exact ⟨0, by rw [IsqrtReturns, if_pos hzero], by rw [hzero]; decide⟩
  have hpos : 0 < n := Nat.pos_of_ne_zero hzero
  have hfirst : (n + 1) / 2 = Newton.step n n := by rw [Newton.step, Nat.div_self hpos]
  obtain ⟨r, hends, hr⟩ := exists_ends (fun s : Estimates => s.x)
    (fun s hs => isqrtRound_advances hn hpos hs)
    (show Estimated n ⟨n, (n + 1) / 2⟩ from ⟨Nat.sqrt_le_self n, le_rfl, hfirst⟩)
  refine ⟨r, ?_, hr⟩
  rw [IsqrtReturns, if_neg hzero]
  exact ⟨n + 1, (n + 1) / 2, fitU_of_lt (by omega), divU_of_pos (by decide), hends⟩

/-- A function that is left with a number is left with no other. -/
theorem IntegerSqrtReturns.unique {n r r' : ℕ} (h : IntegerSqrtReturns n r)
    (h' : IntegerSqrtReturns n r') : r = r' := by
  rw [IntegerSqrtReturns] at h h'
  split_ifs at h h'
  · exact h.trans h'.symm
  · exact h.trans h'.symm
  · exact h.unique h'

theorem IsqrtReturns.unique {n r r' : ℕ} (h : IsqrtReturns n r) (h' : IsqrtReturns n r') :
    r = r' := by
  rw [IsqrtReturns] at h h'
  split_ifs at h h'
  · exact h.trans h'.symm
  · obtain ⟨sum, y, hsum, hy, hends⟩ := h
    obtain ⟨sum', y', hsum', hy', hends'⟩ := h'
    obtain rfl : sum = sum' := Except.ok.inj (hsum.symm.trans hsum')
    obtain rfl : y = y' := Except.ok.inj (hy.symm.trans hy')
    exact hends.unique hends'

/-- **Two integer square roots.** Of every number below the largest one, both functions come to
their end without an overflow or a division by zero and return the root, which is one number; so do
their forms that count rounds. -/
theorem square_roots {n : ℕ} (hn : n < u128Max) :
    ∃ r, IntegerSqrtReturns n r ∧ IsqrtReturns n r ∧ (r * r ≤ n ∧ n < (r + 1) * (r + 1)) ∧
      (∀ r', IntegerSqrtReturns n r' ∨ IsqrtReturns n r' ∨
        (r' * r' ≤ n ∧ n < (r' + 1) * (r' + 1)) → r' = r) ∧
      integerSqrt n = .ok r ∧ PoolContract.isqrt n = r := by
  obtain ⟨r, hbisection, hroot⟩ := exists_integerSqrtReturns hn
  obtain ⟨r', hnewton, hroot'⟩ := exists_isqrtReturns hn
  obtain rfl : r = n.sqrt := isRoot_iff.mp hroot
  obtain rfl : r' = n.sqrt := isRoot_iff.mp hroot'
  refine ⟨n.sqrt, hbisection, hnewton, hroot, fun r hr => ?_, integerSqrt_eq hn,
    PoolContract.isqrt_eq n⟩
  rcases hr with hr | hr | hr
  · exact hr.unique hbisection
  · exact hr.unique hnewton
  · exact isRoot_iff.mp hr

/-- Just below the largest number, whose half is squared far beyond what fits. -/
theorem square_roots_of_next_to_largest :
    u128Max - 1 < u128Max ∧ IntegerSqrtReturns (u128Max - 1) (2 ^ 64 - 1) ∧
      IsqrtReturns (u128Max - 1) (2 ^ 64 - 1) := by
  obtain ⟨r, hbisection, hnewton, -, hunique, -⟩ :=
    square_roots (show u128Max - 1 < u128Max by decide)
  obtain rfl : 2 ^ 64 - 1 = r := hunique (2 ^ 64 - 1) (.inr (.inr (by decide)))
  exact ⟨by decide, hbisection, hnewton⟩

end Swyft.MathLib
