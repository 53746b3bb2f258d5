import Swyft.ClPool.ActiveLiquidity

/-!
# The ladder of initialised ticks

A swap that no price limit holds back meets the initialised ticks ahead of its tick one by one, in
order. This file turns the search of the bitmap into that list.

## Main definitions

* `Initialised` — a tick that bounds some position
* `Ladder` — the initialised ticks ahead of a tick, in the order a swap meets them
* `noLimit` — the price limit that never binds

## Main results

* `tickToSqrtPrice_lt` — a higher tick has a higher price, unless it has none
* `Ladder.found` — a round looks for the first tick of the ladder
* `Ladder.tail` — and the next one for the rest of it
-/

namespace Swyft.ClPool

open Checked

variable {p : Pool} {zeroForOne : Bool}

/-! ### Initialised ticks -/

/-- Some liquidity starts or ends at the tick. -/
def Initialised (p : Pool) (t : ℤ) : Prop := 0 < (readTick p.ticks t).liquidityGross

instance (p : Pool) (t : ℤ) : Decidable (Initialised p t) :=
  inferInstanceAs (Decidable (0 < _))

theorem TicksAgree.initialised_iff (h : TicksAgree p) {t : ℤ} :
    Initialised p t ↔ 0 < startingAt p.positions t + endingAt p.positions t := by
  rw [Initialised, h.gross]

/-- The ends of the positions' ranges. -/
def boundaries (p : Pool) : List ℤ := p.positions.values.flatMap fun q => [q.tickLower, q.tickUpper]

theorem TicksAgree.mem_boundaries (h : TicksAgree p)
    (hwf : ∀ i q, p.positions.get? i = some q → q.Wf p.tickSpacing) {t : ℤ}
    (ht : Initialised p t) : t ∈ boundaries p := by
  by_contra hnot
  have hsum := h.initialised_iff.mp ht
  rw [← boundaryLiquidity_eq hwf] at hsum
  refine hsum.ne' (IdStore.sum_eq_zero fun i q hq => if_neg fun hend => hnot ?_)
  exact List.mem_flatMap.mpr ⟨q, IdStore.mem_values.mpr ⟨i, hq⟩, by simpa [eq_comm] using hend⟩

/-- Only usable ticks are initialised. -/
theorem TicksAgree.initialised_valid (h : TicksAgree p)
    (hwf : ∀ i q, p.positions.get? i = some q → q.Wf p.tickSpacing) {t : ℤ}
    (ht : Initialised p t) : ValidTick t p.tickSpacing := by
  obtain ⟨q, hq, hend⟩ := List.mem_flatMap.mp (h.mem_boundaries hwf ht)
  obtain ⟨i, hi⟩ := IdStore.mem_values.mp hq
  simp only [List.mem_cons, List.not_mem_nil, or_false] at hend
  rcases hend with rfl | rfl
  · exact (hwf i q hi).validLower
  · exact (hwf i q hi).validUpper

/-- A higher tick has a higher price, unless its price is zero. -/
theorem tickToSqrtPrice_lt {s t : ℤ} (h : s < t) (hpos : 0 < tickToSqrtPrice t) :
    tickToSqrtPrice s < tickToSqrtPrice t := by
  have hQ : (20000 : ℕ) ≤ Q96 := by norm_num [Q96]
  have hstep : ∀ n m : ℕ, n < m → n * Q96 / 20000 < m * Q96 / 20000 := by
    intro n m hnm
    have hmul : n * Q96 + 20000 ≤ m * Q96 :=
      calc n * Q96 + 20000 ≤ n * Q96 + Q96 := by omega
        _ = (n + 1) * Q96 := by ring
        _ ≤ m * Q96 := Nat.mul_le_mul_right _ hnm
    omega
  simp only [tickToSqrtPrice, satSub] at hpos ⊢
  split_ifs at hpos ⊢ with ht hs hs
  · have := hstep s.toNat t.toNat (by omega)
    omega
  · omega
  · have := hstep 0 (-s).toNat (by omega)
    rw [Nat.zero_mul, Nat.zero_div] at this
    exact (Nat.sub_lt Q96_pos this).trans_le (Nat.le_add_right _ _)
  · have := hstep (-t).toNat (-s).toNat (by omega)
    omega

/-! ### The ladder -/

/-- Ahead of a tick in the direction of a swap. -/
def AheadOf (zeroForOne : Bool) (k t : ℤ) : Prop := if zeroForOne then t < k else k < t

instance (zeroForOne : Bool) (k t : ℤ) : Decidable (AheadOf zeroForOne k t) := by
  unfold AheadOf
  infer_instance

/-- The initialised ticks ahead of `k`, in the order a swap meets them. -/
structure Ladder (p : Pool) (zeroForOne : Bool) (k : ℤ) (ts : List ℤ) : Prop where
  sorted : ts.Pairwise (AheadOf zeroForOne)
  mem : ∀ t, t ∈ ts ↔ Initialised p t ∧ AheadOf zeroForOne k t

theorem AheadOf.trans {a b c : ℤ} (h : AheadOf zeroForOne a b) (h' : AheadOf zeroForOne b c) :
    AheadOf zeroForOne a c := by
  cases zeroForOne <;> simp only [AheadOf, if_true, Bool.false_eq_true, if_false] at * <;> omega

theorem AheadOf.ne {a b : ℤ} (h : AheadOf zeroForOne a b) : a ≠ b := by
  cases zeroForOne <;> simp only [AheadOf, if_true, Bool.false_eq_true, if_false] at h <;> omega

/-- What is left of the ladder is the ladder ahead of its first tick. -/
theorem Ladder.tail {k t : ℤ} {ts : List ℤ} (h : Ladder p zeroForOne k (t :: ts)) :
    Ladder p zeroForOne t ts := by
  obtain ⟨hhead, htail⟩ := List.pairwise_cons.mp h.sorted
  obtain ⟨-, hk⟩ := (h.mem t).mp (by simp)
  refine ⟨htail, fun t' => ⟨fun ht' => ?_, fun ⟨hinit, hahead⟩ => ?_⟩⟩
  · exact ⟨((h.mem t').mp (by simp [ht'])).1, hhead t' ht'⟩
  · rcases List.mem_cons.mp ((h.mem t').mpr ⟨hinit, hk.trans hahead⟩) with rfl | ht'
    · exact absurd rfl hahead.ne
    · exact ht'

section Search

variable {k t : ℤ} {ts : List ℤ}

/-- A tick of the ladder is marked in the bitmap. -/
theorem TicksAgree.marked_of_initialised (h : TicksAgree p)
    (hwf : ∀ i q, p.positions.get? i = some q → q.Wf p.tickSpacing) (ht : Initialised p t) :
    ∃ c, t = c * p.tickSpacing ∧ marked p.bitmap c = true := by
  obtain ⟨c, hc⟩ := (h.initialised_valid hwf ht).dvd
  have hc : t = c * p.tickSpacing := by rw [hc, mul_comm]
  exact ⟨c, hc, (h.mark c).mpr (by rw [← hc]; exact h.initialised_iff.mp ht)⟩

/-- The word of an initialised tick is far inside the range of the search. -/
theorem TicksAgree.word_bounds (h : TicksAgree p) (hs : 0 < p.tickSpacing)
    (hwf : ∀ i q, p.positions.get? i = some q → q.Wf p.tickSpacing) {c : ℤ}
    (ht : Initialised p (c * p.tickSpacing)) : -2 ^ 31 ≤ c / 128 ∧ c / 128 < 2 ^ 31 := by
  obtain ⟨hlo, hhi, -⟩ := h.initialised_valid hwf ht
  simp only [minTick, maxTick] at hlo hhi
  have h1 : c ≤ 887272 := by
    by_contra hgt
    have : (887273 : ℤ) * 1 ≤ c * p.tickSpacing := mul_le_mul (by omega) hs (by decide) (by omega)
    omega
  have h2 : -887272 ≤ c := by
    by_contra hlt
    have : (887273 : ℤ) * 1 ≤ -c * p.tickSpacing := mul_le_mul (by omega) hs (by decide) (by omega)
    rw [neg_mul] at this
    omega
  omega

/-- A tick that is found is initialised and lies ahead. -/
theorem TicksAgree.found_ahead (h : TicksAgree p) (hs : 0 < p.tickSpacing) {start next : ℤ}
    (hstart : searchFrom zeroForOne k = .ok start)
    (hfound : nextInitializedTick p.bitmap start p.tickSpacing zeroForOne = .ok (next, true)) :
    Initialised p next ∧ AheadOf zeroForOne k next := by
  refine ⟨h.initialised_iff.mpr (h.found_pos hs hfound), ?_⟩
  cases zeroForOne with
  | true =>
    simp only [searchFrom, if_true, fitI32_eq_ok] at hstart
    obtain ⟨-, rfl⟩ := hstart
    obtain ⟨c, hc⟩ := nextInitializedTick_down h.words hs hfound
    have hle : next ≤ k - 1 := by
      rw [hc.tick_eq]
      exact le_trans (mul_le_mul_of_nonneg_right hc.inBound hs.le) (Int.ediv_mul_le _ hs.ne')
    simp only [AheadOf, if_true]
    omega
  | false =>
    simp only [searchFrom, Bool.false_eq_true, if_false, pure_eq_ok] at hstart
    subst hstart
    obtain ⟨c, hc⟩ := nextInitializedTick_up h.words hs hfound
    simp only [AheadOf, Bool.false_eq_true, if_false, hc.tick_eq]
    exact Int.lt_mul_of_ediv_lt hs hc.inBound

/-- **A round looks for the first tick of the ladder.** -/
theorem Ladder.found (hl : Ladder p zeroForOne k (t :: ts)) (h : TicksAgree p)
    (hs : 0 < p.tickSpacing) (hwf : ∀ i q, p.positions.get? i = some q → q.Wf p.tickSpacing)
    {start next : ℤ} {initialized : Bool} (hstart : searchFrom zeroForOne k = .ok start)
    (hfound : nextInitializedTick p.bitmap start p.tickSpacing zeroForOne
      = .ok (next, initialized)) :
    next = t ∧ initialized = true := by
  obtain ⟨hinit, hahead⟩ := (hl.mem t).mp (by simp)
  obtain ⟨c, hc, hmark⟩ := h.marked_of_initialised hwf hinit
  obtain ⟨hlow, hhigh⟩ := h.word_bounds hs hwf (hc ▸ hinit)
  -- the tick found is on the ladder, and none before it is
  have hfirst : ∀ next, Initialised p next → AheadOf zeroForOne k next →
      ¬ AheadOf zeroForOne t next → next = t := by
    intro next hi hk hnot
    rcases List.mem_cons.mp ((hl.mem next).mpr ⟨hi, hk⟩) with rfl | hmem
    · rfl
    · exact absurd ((List.pairwise_cons.mp hl.sorted).1 next hmem) hnot
  have hnext : initialized = true → Initialised p next ∧ AheadOf zeroForOne k next := by
    rintro rfl
    exact h.found_ahead hs hstart hfound
  cases zeroForOne with
  | true =>
    simp only [searchFrom, if_true, fitI32_eq_ok] at hstart
    obtain ⟨-, rfl⟩ := hstart
    simp only [AheadOf, if_true] at hahead hfirst hnext
    have hcle : c ≤ (k - 1) / p.tickSpacing := Int.le_ediv_of_mul_le hs (by omega)
    cases initialized with
    | false =>
      rw [nextInitializedTick_down_none hs hfound hcle hlow] at hmark
      cases hmark
    | true =>
      obtain ⟨c', hc'⟩ := nextInitializedTick_down h.words hs hfound
      obtain ⟨hinit', hlt'⟩ := hnext rfl
      refine ⟨hfirst next hinit' hlt' ?_, rfl⟩
      intro hlt
      rw [hc'.highest c ?_ hcle] at hmark
      · cases hmark
      · rw [hc'.tick_eq, hc] at hlt
        exact lt_of_mul_lt_mul_right hlt hs.le
  | false =>
    simp only [searchFrom, Bool.false_eq_true, if_false, pure_eq_ok] at hstart
    subst hstart
    simp only [AheadOf, Bool.false_eq_true, if_false] at hahead hfirst hnext
    have hclt : k / p.tickSpacing < c := Int.ediv_lt_of_lt_mul hs (by omega)
    cases initialized with
    | false =>
      rw [nextInitializedTick_up_none hs hfound hclt hhigh] at hmark
      cases hmark
    | true =>
      obtain ⟨c', hc'⟩ := nextInitializedTick_up h.words hs hfound
      obtain ⟨hinit', hlt'⟩ := hnext rfl
      refine ⟨hfirst next hinit' hlt' ?_, rfl⟩
      intro hgt
      rw [hc'.lowest c ?_ hclt] at hmark
      · cases hmark
      · rw [hc'.tick_eq, hc] at hgt
        exact lt_of_mul_lt_mul_right hgt hs.le

end Search

/-! ### No limit -/

/-- The price limit that never binds: zero on the way down, the largest price on the way up. -/
def noLimit (zeroForOne : Bool) : ℕ := if zeroForOne then 0 else u128Max

theorem tickToSqrtPrice_lt_max {t : ℤ} (h : t ≤ maxTick) : tickToSqrtPrice t < u128Max := by
  have hmax : tickToSqrtPrice maxTick < u128Max := by decide
  exact lt_of_le_of_lt (tickToSqrtPrice_mono h) hmax

theorem swapTarget_noLimit {t : ℤ} (h : t ≤ maxTick) :
    swapTarget zeroForOne (noLimit zeroForOne) t true = tickToSqrtPrice t := by
  have hlt := tickToSqrtPrice_lt_max h
  cases zeroForOne
  · simp [swapTarget, noLimit, not_le.mpr hlt]
  · simp only [swapTarget, noLimit, if_true, true_and, Nat.le_zero]
    split_ifs <;> simp_all

theorem not_atLimit_noLimit {price : ℕ} (hpos : 0 < price) (hlt : price < u128Max) :
    ¬ atLimit zeroForOne price (noLimit zeroForOne) := by
  cases zeroForOne <;> simp [atLimit, noLimit] <;> omega

/-- The price a partial step works with, when nothing overflows. -/
def insidePrice (zeroForOne : Bool) (sqrtPrice liquidity amountIn : ℕ) : ℕ :=
  if zeroForOne then liquidity * sqrtPrice / (liquidity + amountIn * sqrtPrice / Q96)
  else sqrtPrice + amountIn * Q96 / liquidity

theorem nextSqrtPriceFromInput_eq {sqrtPrice liquidity amountIn next : ℕ} (hl : liquidity ≠ 0)
    (h : nextSqrtPriceFromInput sqrtPrice liquidity amountIn zeroForOne = .ok next) :
    next = insidePrice zeroForOne sqrtPrice liquidity amountIn := by
  simp only [nextSqrtPriceFromInput, if_neg hl] at h
  cases zeroForOne
  · simp only [Bool.false_eq_true, if_false, bind_eq_ok, mulU128_eq_ok, divU128_eq_ok,
      addU128_eq_ok] at h
    obtain ⟨_, ⟨-, rfl⟩, _, ⟨-, rfl⟩, -, rfl⟩ := h
    rfl
  · simp only [if_true, bind_eq_ok, mulU128_eq_ok, addU128_eq_ok] at h
    obtain ⟨_, ⟨-, rfl⟩, _, ⟨-, rfl⟩, h⟩ := h
    rw [if_neg (Nat.add_pos_left (Nat.pos_of_ne_zero hl) _).ne'] at h
    simp only [bind_eq_ok, mulU128_eq_ok, divU128_eq_ok] at h
    obtain ⟨_, ⟨-, rfl⟩, -, rfl⟩ := h
    rfl

/-- What a round pays that uses up an input of `amountIn` on the way. -/
def paidInside (zeroForOne : Bool) (st : SwapState) (amountIn : ℕ) : ℕ :=
  amountPaid zeroForOne st.sqrtPrice (insidePrice zeroForOne st.sqrtPrice st.liquidity amountIn)
    st.liquidity

/-- A round whose input does not reach the target. -/
theorem swapStep_inside {limit : ℕ} {st st' : SwapState} {next : ℤ} {initialized goesOn : Bool}
    {target : ℕ} (hl : st.liquidity ≠ 0)
    (hfound : findTarget p zeroForOne limit st = .ok (next, initialized, target))
    (hshort : st.amountRemaining
      < amountConsumed zeroForOne st.sqrtPrice target st.liquidity)
    (h : swapStep p zeroForOne limit st = .ok (st', goesOn)) :
    st'.amountOut = st.amountOut + paidInside zeroForOne st st.amountRemaining ∧
      goesOn = false := by
  cases swapStep_cases h with
  | stop found move _ =>
    rw [hfound] at found
    cases found
    have := (fullMove_eq_ok.mp move).2.1
    omega
  | cross found move _ _ _ =>
    rw [hfound] at found
    cases found
    have := (fullMove_eq_ok.mp move).2.1
    omega
  | within _ _ move =>
    obtain ⟨next, hnext, -, d0, d1, -, rfl⟩ := partialMove_eq_ok.mp move
    rw [nextSqrtPriceFromInput_eq hl hnext]
    exact ⟨rfl, rfl⟩

/-! ### The stored liquidity fits its word -/

theorem swapLoop_liquidity_lt {limit rounds : ℕ} {st final : SwapState}
    (h : swapLoop p zeroForOne limit rounds st = .ok final) (hl : st.liquidity < 2 ^ 128) :
    final.liquidity < 2 ^ 128 := by
  refine swapLoop_preserves (I := fun st => st.liquidity < 2 ^ 128)
    (fun st st' goesOn hround hI => ?_) h hl
  cases hround with
  | stop _ move _ =>
    obtain ⟨-, -, d0, d1, -, rfl⟩ := fullMove_eq_ok.mp move
    exact hI
  | within _ _ move =>
    obtain ⟨next, -, -, d0, d1, -, rfl⟩ := partialMove_eq_ok.mp move
    exact hI
  | cross _ move _ _ crossing =>
    obtain ⟨-, -, d0, d1, -, rfl⟩ := fullMove_eq_ok.mp move
    rw [crossNext_eq_ok crossing]
    cases zeroForOne <;> simp only [if_true, Bool.false_eq_true, if_false, satSub, satAdd] <;> omega

theorem liquidity_lt_step {w w' : World} {e : Event} (hw : w.pool.liquidity < 2 ^ 128)
    (hs : Step w e w') : w'.pool.liquidity < 2 ^ 128 := by
  cases Step.cases hs with
  | add h =>
    have hact := h.active
    rw [activeAfterAdd] at hact
    split at hact
    case isTrue => exact (addU128_eq_ok.mp hact).2 ▸ (addU128_eq_ok.mp hact).1
    case isFalse => exact pure_eq_ok.mp hact ▸ hw
  | remove h =>
    rw [h.active, activeAfterRemove]
    unfold satSub
    split <;> omega
  | swap h =>
    obtain ⟨net, -, -, -, hloop, -⟩ := computeSwap_eq_ok.mp h.computed
    obtain ⟨fg0, fg1, -, -, hpool⟩ := settlePool_eq_ok.mp h.settled
    rw [h.world, hpool]
    exact swapLoop_liquidity_lt hloop hw
  | collect h => rw [h.world]; exact hw
  | transferNft _ h => exact hw
  | closeLedger => exact hw

/-- The pool's liquidity is a 128-bit word. -/
theorem Reachable.liquidity_lt {w : World} (h : Reachable w) : w.pool.liquidity < 2 ^ 128 := by
  refine h.invariant (I := fun w => w.pool.liquidity < 2 ^ 128) (fun w hg => ?_)
    fun _ _ _ hw hs => liquidity_lt_step hw hs
  obtain ⟨self, tokens, oracle, now, token0, token1, feeTier, sqrtPriceX96, nftContract, hg⟩ := hg
  obtain ⟨-, rfl⟩ := genesis_eq_ok hg
  exact Nat.two_pow_pos 128

end Swyft.ClPool
