import Swyft.ClPool.Exit
import Swyft.ClPool.FeeShares
import Swyft.ClPool.Withdrawal

/-!
# Solvency

The pool is solvent when its balances cover the principal of every position at the current price.
Each entry point moves tokens by a formula of its own; what has to match is the change of the sum
over all positions of `amounts_for_liquidity`.

* `add_liquidity` charges the new position's principal, to the unit.
* `remove_liquidity` pays the principal of the part removed. For token 0 that is a difference of two
  floors, and the parts may be worth more than the whole.
* `swap` moves the price, and with it the token 1 principal of the positions it passes. The token 0
  principal does not depend on the price at all, so token 0 paid out by a swap is paid by nobody.
  A step inside a segment pays without moving the price, so what it pays is not backed either.
* `collect` pays fees, which the account of the fees covers along fair runs.

`BackedCall` asks that none of these loses anything. A removal of a whole position always passes, so
a solvent pool can be emptied in any order.

## Main results

* `Step.accounted` — the account of one backed step
* `solvent_of_backed_run` — solvency along runs that are fair and backed
-/

namespace Swyft.ClPool

open Checked Floors

/-! ### Backed calls -/

/-- The principal of all positions at a price. -/
def Pool.principalsAt (p : Pool) (price : ℕ) (k : Asset) : ℕ :=
  p.positions.sum fun q => q.principalAt q.liquidity price k

/-- The principal of all positions at the current price. -/
def Pool.principals (p : Pool) : Asset → ℕ := p.principalsAt p.sqrtPriceX96

/-- A round that pays out no token 0, no more token 1 than the positions' principal falls by, and
that takes in at least what it rises by. -/
def BackedRound (p : Pool) (zeroForOne : Bool) (limit : ℕ) (st : SwapState) : Prop :=
  match swapStep p zeroForOne limit st with
  | .ok (st', _) =>
    if zeroForOne then
      st'.amountOut + p.principalsAt st'.sqrtPrice .one
        ≤ st.amountOut + p.principalsAt st.sqrtPrice .one
    else
      st'.amountOut = st.amountOut ∧
        st'.amountRemaining + p.principalsAt st'.sqrtPrice .one
          ≤ st.amountRemaining + p.principalsAt st.sqrtPrice .one
  | .error _ => True

/-- A removal whose two parts lose no more at the upper price than they do at the lower. -/
def BackedRemoval (p : Pool) (id liquidity : ℕ) : Prop :=
  ∀ q ∈ p.positions.get? id,
    lost (q.liquidity * Q96) (tickToSqrtPrice q.tickUpper)
        ([liquidity, q.liquidity - liquidity].map (· * Q96))
      ≤ lost (q.liquidity * Q96) (tickToSqrtPrice q.tickLower)
        ([liquidity, q.liquidity - liquidity].map (· * Q96))

/-- A call that leaves the principal as well backed as it was. -/
def BackedCall (w : World) : Call → Prop
  | .removeLiquidity _ id liquidity => BackedRemoval w.pool id liquidity
  | .swap _ zeroForOne amountIn limit =>
    ∀ st ∈ swapRounds w.pool zeroForOne amountIn limit, BackedRound w.pool zeroForOne limit st
  | _ => True

/-- A step that keeps the fees' account and the principal's. -/
def BackedStep (a : Audit) (e : Event) (a' : Audit) : Prop :=
  Fires Audit.exec a e a' ∧ FairCall a e.1 ∧ BackedCall a.world e.1

/-- A run all of whose calls are fair and backed. -/
abbrev BackedRun := Trace BackedStep

instance (p : Pool) (zeroForOne : Bool) (limit : ℕ) (st : SwapState) :
    Decidable (BackedRound p zeroForOne limit st) := by
  unfold BackedRound
  split <;> infer_instance

instance (p : Pool) (id liquidity : ℕ) : Decidable (BackedRemoval p id liquidity) :=
  inferInstanceAs (Decidable (∀ q ∈ p.positions.get? id, _))

instance (w : World) : (c : Call) → Decidable (BackedCall w c)
  | .removeLiquidity _ id liquidity =>
    inferInstanceAs (Decidable (BackedRemoval w.pool id liquidity))
  | .swap _ zeroForOne amountIn limit =>
    inferInstanceAs (Decidable (∀ st ∈ swapRounds w.pool zeroForOne amountIn limit, _))
  | .addLiquidity .. | .collect .. | .transferNft .. | .closeLedger .. => instDecidableTrue

/-- The pool's balances cover the principal of every position. -/
def Solvent (w : World) : Prop := Covers w (w.pool.principals .zero) (w.pool.principals .one)

instance (w : World) : Decidable (Solvent w) := inferInstanceAs (Decidable (Covers _ _ _))

/-! ### The account of one step -/

/-- What amounts of the two tokens come to in the token at `t`. -/
def Pool.worth (p : Pool) (t : Address) (amounts : Asset → ℕ) : ℕ :=
  inToken p t (amounts .zero) (amounts .one)

theorem worth_add (p : Pool) (t : Address) (f g : Asset → ℕ) :
    p.worth t (fun k => f k + g k) = p.worth t f + p.worth t g :=
  inToken_add p t _ _ _ _

theorem worth_zero (p : Pool) (t : Address) : p.worth t (fun _ => 0) = 0 := by
  rw [Pool.worth, inToken]
  split_ifs <;> rfl

theorem worth_mono {p : Pool} {t : Address} {f g : Asset → ℕ} (h : ∀ k, f k ≤ g k) :
    p.worth t f ≤ p.worth t g :=
  inToken_mono (h _) (h _)

/-- Between two states, what the pool's balances gain covers what its positions gain, with the
fees retained on one side and those paid out on the other. -/
def Accounted (w : World) (e : Event) (w' : World) : Prop :=
  ∀ t, w.pool.worth t w'.pool.principals + w.pool.worth t (fun k => feeRetained k e)
      + w.tokens t w.self
    ≤ w.pool.worth t w.pool.principals + w.pool.worth t (fun k => feePaidTo (fun _ => True) k e)
      + w'.tokens t w.self

/-- Flows that match the change of the principal account for it. -/
theorem accounted_of_flows {w w' : World} {e : Event} (received sent : Asset → ℕ)
    (hbalance : ∀ t, w'.tokens t w.self + w.pool.worth t sent
      = w.tokens t w.self + w.pool.worth t received)
    (hflow : ∀ k, w'.pool.principals k + feeRetained k e + sent k
      ≤ w.pool.principals k + feePaidTo (fun _ => True) k e + received k) : Accounted w e w' := by
  intro t
  have hworth : w.pool.worth t _ ≤ w.pool.worth t _ := worth_mono hflow
  simp only [worth_add] at hworth
  have := hbalance t
  omega

section Step

variable {w w' : World}

/-- Adding charges the principal of the new position. -/
theorem Added.accounted {owner : Address} {tickLower tickUpper : ℤ} {liquidity : U128}
    {id amount0 amount1 : ℕ}
    (h : Added w owner tickLower tickUpper liquidity w' id amount0 amount1) :
    Accounted w (.addLiquidity owner tickLower tickUpper liquidity, .added id amount0 amount1)
      w' := by
  obtain ⟨hsmall0, hsmall1⟩ := amounts_lt h.amounts
  obtain ⟨-, -, -, -, h0, h1⟩ := amountsForLiquidity_eq_ok.mp h.amounts
  have hreceived := transferBoth_received (lt_trans hsmall0 (by decide))
    (lt_trans hsmall1 (by decide)) h.transfers h.signed
  refine accounted_of_flows (fun k => k.pick amount0 amount1) (fun _ => 0) (fun t => ?_) fun k => ?_
  · rw [hreceived t]
    simp [Pool.worth, inToken, Asset.pick]
  · have hsum : w'.pool.principals k = w.pool.principals k + k.pick amount0 amount1 := by
      rw [h.world]
      simp only [Pool.principals, Pool.principalsAt]
      rw [IdStore.sum_push]
      refine congrArg (_ + ·) ?_
      cases k with
      | zero => exact h0.symm
      | one => exact h1.symm
    rw [hsum]
    show w.pool.principals k + k.pick amount0 amount1 + 0 + 0
      ≤ w.pool.principals k + 0 + k.pick amount0 amount1
    omega

theorem sum_map_pair (f : ℕ → ℕ) (x y : ℕ) : ([x, y].map f).sum = f x + f y := by
  simp

/-- Two parts of a position's liquidity are worth at most the whole. -/
theorem BackedRemoval.split_le {id l : ℕ} {q : Position} {tickSpacing : ℤ} (price : ℕ)
    (hB : BackedRemoval w.pool id l) (hq : w.pool.positions.get? id = some q)
    (hwf : q.Wf tickSpacing) (hle : l ≤ q.liquidity) (k : Asset) :
    q.principalAt l price k + q.principalAt (q.liquidity - l) price k
      ≤ q.principalAt q.liquidity price k := by
  have hparts : [l, q.liquidity - l].sum ≤ q.liquidity := by
    simp only [List.sum_cons, List.sum_nil]
    omega
  cases k with
  | zero =>
    have hsum := (sum_principal0_le_iff hwf.priced hwf.price_le hparts).mpr (hB q hq)
    rwa [sum_map_pair] at hsum
  | one =>
    have hsum : ([l, q.liquidity - l].map fun l => principal1 l (tickToSqrtPrice q.tickLower)
        (tickToSqrtPrice q.tickUpper) price).sum ≤ _ := sum_principal1_le hparts
    rwa [sum_map_pair] at hsum

/-- A backed removal pays no more than the principal falls by. -/
theorem Removed.accounted {owner : Address} {id : ℕ} {liquidity : U128} {position : Position}
    {amount0 amount1 : ℕ} (hw : Wf w) (hB : BackedRemoval w.pool id liquidity)
    (h : Removed w owner id liquidity position w' amount0 amount1) :
    Accounted w (.removeLiquidity owner id liquidity, .removed amount0 amount1) w' := by
  obtain ⟨-, h0, h1⟩ := h.amounts_eq
  have hamount : ∀ k : Asset, k.pick amount0 amount1
      = position.principalAt liquidity w.pool.sqrtPriceX96 k := by
    intro k
    cases k with
    | zero => exact h0
    | one => exact h1
  have hsplit := hB.split_le w.pool.sqrtPriceX96 h.found (hw.positions _ _ h.found) h.le
  refine accounted_of_flows (fun _ => 0) (fun k => k.pick amount0 amount1) (fun t => ?_) fun k => ?_
  · have hpaid := h.balance t
    simpa [Pool.worth, inToken, Asset.pick] using hpaid
  · have hprice : w'.pool.sqrtPriceX96 = w.pool.sqrtPriceX96 := by rw [h.world]
    have hsum : w'.pool.principals k + k.pick amount0 amount1 ≤ w.pool.principals k := by
      rw [hamount]
      simp only [Pool.principals, Pool.principalsAt, hprice]
      obtain ⟨-, hpos, -⟩ | ⟨-, hpos, -⟩ := shrinkPosition_cases h.shrunk
      · have herase := IdStore.sum_eq_add_erase h.found
          fun q => q.principalAt q.liquidity w.pool.sqrtPriceX96 k
        have := hsplit k
        rw [hpos]
        omega
      · have hreplace : (w.pool.positions.replace id
              { position with owner, liquidity := position.liquidity - liquidity }).sum
                (fun q => q.principalAt q.liquidity w.pool.sqrtPriceX96 k)
              + position.principalAt position.liquidity w.pool.sqrtPriceX96 k
            = w.pool.positions.sum (fun q => q.principalAt q.liquidity w.pool.sqrtPriceX96 k)
              + position.principalAt (position.liquidity - liquidity) w.pool.sqrtPriceX96 k := by
          have hsum := IdStore.sum_replace h.found
            { position with owner, liquidity := position.liquidity - liquidity }
            fun q => q.principalAt q.liquidity w.pool.sqrtPriceX96 k
          cases k <;> exact hsum
        have := hsplit k
        rw [hpos]
        omega
    show w'.pool.principals k + 0 + k.pick amount0 amount1 ≤ w.pool.principals k + 0 + 0
    omega

/-- A `collect` pays fees and leaves the principal alone. -/
theorem Collected.accounted {owner : Address} {id fee0 fee1 : ℕ} {position : Position} (hw : Wf w)
    (h : Collected w owner id position w' fee0 fee1) :
    Accounted w (.collect owner id, .collected fee0 fee1) w' := by
  refine accounted_of_flows (fun _ => 0) (fun k => k.pick fee0 fee1) (fun t => ?_) fun k => ?_
  · have hpaid := h.balance hw t
    simpa [Pool.worth, inToken, Asset.pick] using hpaid
  · have hsum : w'.pool.principals k = w.pool.principals k := by
      have hreplace : (w.pool.positions.replace id (position.collected owner
            (w.pool.inside0 position) (w.pool.inside1 position))).sum
              (fun q => q.principalAt q.liquidity w.pool.sqrtPriceX96 k)
            + position.principalAt position.liquidity w.pool.sqrtPriceX96 k
          = w.pool.positions.sum (fun q => q.principalAt q.liquidity w.pool.sqrtPriceX96 k)
            + position.principalAt position.liquidity w.pool.sqrtPriceX96 k := by
        have hsum := IdStore.sum_replace h.found
          (position.collected owner (w.pool.inside0 position) (w.pool.inside1 position))
          fun q => q.principalAt q.liquidity w.pool.sqrtPriceX96 k
        cases k <;> exact hsum
      rw [h.world]
      exact Nat.add_right_cancel hreplace
    rw [hsum]
    show w.pool.principals k + 0 + k.pick fee0 fee1
      ≤ w.pool.principals k + (if True then k.pick fee0 fee1 else 0) + 0
    rw [if_pos trivial]
    omega

/-- The rounds so far of a backed swap: what is paid and consumed matches the principal. -/
structure LoopBacked (p : Pool) (zeroForOne : Bool) (net : ℕ) (st : SwapState) : Prop where
  remaining : st.amountRemaining ≤ net
  down : zeroForOne = true →
    st.amountOut + p.principalsAt st.sqrtPrice .one ≤ p.principals .one
  up : zeroForOne = false → st.amountOut = 0 ∧
    st.amountRemaining + p.principalsAt st.sqrtPrice .one ≤ net + p.principals .one

theorem LoopBacked.round {p : Pool} {zeroForOne goesOn : Bool} {limit net : ℕ}
    {st st' : SwapState} (hC : BackedRound p zeroForOne limit st)
    (hstep : swapStep p zeroForOne limit st = .ok (st', goesOn))
    (h : LoopBacked p zeroForOne net st) : LoopBacked p zeroForOne net st' := by
  have htaken := (swapStep_accounts hstep).taken
  have hremaining := h.remaining
  simp only [BackedRound, hstep] at hC
  refine ⟨by omega, fun hz => ?_, fun hz => ?_⟩
  · rw [if_pos hz] at hC
    exact le_trans hC (h.down hz)
  · rw [if_neg (by simp [hz])] at hC
    obtain ⟨hout, hup⟩ := h.up hz
    exact ⟨hC.1.trans hout, le_trans hC.2 hup⟩

/-- The token 0 principal does not depend on the price. -/
theorem principalsAt_zero (p : Pool) (price price' : ℕ) :
    p.principalsAt price .zero = p.principalsAt price' .zero := rfl

/-- What a backed swap moves. -/
theorem Swapped.backed {sender : Address} {zeroForOne : Bool} {amountIn limit : ℕ}
    {outcome : SwapOutcome}
    (hB : ∀ st ∈ swapRounds w.pool zeroForOne amountIn limit,
      BackedRound w.pool zeroForOne limit st)
    (h : Swapped w sender zeroForOne amountIn limit w' outcome) :
    w'.pool.principals .zero = w.pool.principals .zero ∧
      (zeroForOne = true →
        outcome.final.amountOut + w'.pool.principals .one ≤ w.pool.principals .one) ∧
      (zeroForOne = false → outcome.final.amountOut = 0 ∧
        w'.pool.principals .one ≤ outcome.tradedBase + w.pool.principals .one) ∧
      outcome.inputPaid = outcome.tradedBase + outcome.feeOnTraded := by
  obtain ⟨net, hnet, -, -, hloop, hle, htraded, -, -, hpaid⟩ := computeSwap_eq_ok.mp h.computed
  simp only [swapRounds, hnet] at hB
  have hstart : LoopBacked w.pool zeroForOne net (swapStart w.pool net) :=
    ⟨le_rfl, fun _ => (Nat.zero_add _).le, fun _ => ⟨rfl, le_rfl⟩⟩
  have hfinal := swapLoop_invariant (I := LoopBacked w.pool zeroForOne net)
    (fun st st' goesOn hC _ hstep hI => hI.round hC hstep) hB hloop hstart
  obtain ⟨_, _, -, -, hpool⟩ := settlePool_eq_ok.mp h.settled
  have hprincipals : w'.pool.principals = w.pool.principalsAt outcome.final.sqrtPrice := by
    rw [hpool]
    rfl
  rw [hprincipals]
  refine ⟨principalsAt_zero _ _ _, hfinal.down, fun hz => ?_, hpaid⟩
  obtain ⟨hout, hup⟩ := hfinal.up hz
  exact ⟨hout, by omega⟩

/-- A backed swap, with the fee it retains on the side. -/
theorem Swapped.accounted {sender : Address} {zeroForOne : Bool} {amountIn limit : U128}
    {delta0 delta1 : ℤ} {outcome : SwapOutcome}
    (hB : ∀ st ∈ swapRounds w.pool zeroForOne amountIn limit,
      BackedRound w.pool zeroForOne limit st)
    (h : Swapped w sender zeroForOne amountIn limit w' outcome) :
    Accounted w (.swap sender zeroForOne amountIn limit, .swapped delta0 delta1 outcome) w' := by
  obtain ⟨hzero, hdown, hup, hpaid⟩ := h.backed hB
  have hbalance := transferSwap_balance h.signed h.transfers
  cases zeroForOne with
  | true =>
    refine accounted_of_flows (fun k => k.pick outcome.inputPaid 0)
      (fun k => k.pick 0 outcome.final.amountOut) hbalance fun k => ?_
    cases k with
    | zero =>
      show w'.pool.principals .zero + outcome.feeOnTraded + 0
        ≤ w.pool.principals .zero + 0 + outcome.inputPaid
      omega
    | one =>
      have := hdown rfl
      show w'.pool.principals .one + 0 + outcome.final.amountOut
        ≤ w.pool.principals .one + 0 + 0
      omega
  | false =>
    obtain ⟨hout, hup⟩ := hup rfl
    refine accounted_of_flows (fun k => k.pick 0 outcome.inputPaid)
      (fun k => k.pick outcome.final.amountOut 0) hbalance fun k => ?_
    cases k with
    | zero =>
      show w'.pool.principals .zero + 0 + outcome.final.amountOut
        ≤ w.pool.principals .zero + 0 + 0
      omega
    | one =>
      show w'.pool.principals .one + outcome.feeOnTraded + 0
        ≤ w.pool.principals .one + 0 + outcome.inputPaid
      omega

/-- **One backed step.** -/
theorem Step.accounted {e : Event} (hw : Wf w) (hB : BackedCall w e.1) (hs : Step w e w') :
    Accounted w e w' := by
  cases Step.cases hs with
  | add h => exact h.accounted
  | remove h => exact h.accounted hw hB
  | swap h => exact h.accounted hB
  | collect h => exact h.accounted hw
  | transferNft _ h => exact fun t => le_rfl
  | closeLedger => exact fun t => le_rfl

/-- The tokens and the pool's own address never change. -/
theorem Step.frame {e : Event} (hs : Step w e w') :
    w'.self = w.self ∧ w'.pool.worth = w.pool.worth := by
  cases Step.cases hs with
  | add h => rw [h.world]; exact ⟨rfl, rfl⟩
  | remove h => rw [h.world]; exact ⟨rfl, rfl⟩
  | swap h =>
    obtain ⟨_, _, -, -, hpool⟩ := settlePool_eq_ok.mp h.settled
    rw [h.world, hpool]
    exact ⟨rfl, rfl⟩
  | collect h => rw [h.world]; exact ⟨rfl, rfl⟩
  | transferNft => exact ⟨rfl, rfl⟩
  | closeLedger => exact ⟨rfl, rfl⟩

end Step

/-! ### Runs -/

/-- The account of a list of events. -/
theorem Run.accounted {w w' : World} {es : List Event} (hw : Wf w)
    (h : Trace (fun w (e : Event) w' => Step w e w' ∧ BackedCall w e.1) w es w') (t : Address) :
    w'.self = w.self ∧ w'.pool.worth = w.pool.worth ∧
      w.pool.worth t w'.pool.principals + w.pool.worth t (fun k => feesRetained k es)
          + w.tokens t w.self
        ≤ w.pool.worth t w.pool.principals + w.pool.worth t (fun k => feesPaid k es)
          + w'.tokens t w.self := by
  induction h with
  | nil => exact ⟨rfl, rfl, le_rfl⟩
  | @cons w v u e es hstep _ ih =>
    obtain ⟨hself, hworth⟩ := hstep.1.frame
    have hone := hstep.1.accounted hw hstep.2 t
    obtain ⟨hself', hworth', hrest⟩ := ih (hw.step hstep.1)
    rw [hself, hworth] at hrest
    refine ⟨hself'.trans hself, hworth'.trans hworth, ?_⟩
    have hretained : w.pool.worth t (fun k => feesRetained k (e :: es))
        = w.pool.worth t (fun k => feeRetained k e) + w.pool.worth t fun k => feesRetained k es :=
      worth_add _ _ _ _
    have hpaid : w.pool.worth t (fun k => feesPaid k (e :: es))
        = w.pool.worth t (fun k => feePaidTo (fun _ => True) k e)
          + w.pool.worth t fun k => feesPaid k es :=
      worth_add _ _ _ _
    omega

theorem BackedRun.fair {a a' : Audit} {es : List Event} (h : BackedRun a es a') :
    FairRun a es a' :=
  h.mono fun _ _ _ hs => ⟨hs.1, hs.2.1⟩

theorem BackedRun.run {a a' : Audit} {es : List Event} (h : BackedRun a es a') :
    Trace (fun w (e : Event) w' => Step w e w' ∧ BackedCall w e.1) a.world es a'.world := by
  induction h with
  | nil => exact .nil _
  | cons hstep _ ih => exact .cons ⟨(fires_iff.mp hstep.1).1, hstep.2.2⟩ ih

/-! ### Emptying the pool -/

/-- A removal of everything a position holds. -/
def FullRemoval (w : World) : Call → Prop
  | .removeLiquidity _ id liquidity =>
    ∃ q, w.pool.positions.get? id = some q ∧ (liquidity : ℕ) = q.liquidity
  | _ => False

/-- Any number of positions closed, in any order. -/
abbrev Emptying := Trace fun w (e : Event) w' => Step w e w' ∧ FullRemoval w e.1

/-- Nothing is lost when the whole is one part. -/
theorem lost_whole (l d : ℕ) (hd : 0 < d) : lost (l * Q96) d ([l, l - l].map (· * Q96)) = 0 := by
  rw [lost, List.map_map, sum_map_pair, sum_map_pair, Function.comp_apply, Function.comp_apply,
    Nat.sub_self, Nat.zero_mul, Nat.zero_mod, Nat.add_zero, Nat.add_zero, Nat.sub_self,
    Nat.zero_add]
  exact Nat.div_eq_of_lt (Nat.mod_lt _ hd)

/-- Closing a position is always backed. -/
theorem FullRemoval.backed {w : World} {c : Call} (hw : Wf w) (h : FullRemoval w c) :
    BackedCall w c := by
  cases c with
  | removeLiquidity owner id liquidity =>
    obtain ⟨q, hq, hl⟩ := h
    intro q' hq'
    obtain rfl : q = q' := Option.some.inj (hq.symm.trans hq')
    have hwf := hw.positions _ _ hq
    rw [hl, lost_whole _ _ hwf.priced, lost_whole _ _ (lt_of_lt_of_le hwf.priced hwf.price_le)]
  | _ => exact h.elim

/-- Closing a position keeps the pool solvent. -/
theorem Solvent.close {w w' : World} {e : Event} (hw : Wf w) (h : Solvent w) (hs : Step w e w')
    (hfull : FullRemoval w e.1) : Solvent w' := by
  have hacc := hs.accounted hw (hfull.backed hw)
  obtain ⟨hself, hworth⟩ := hs.frame
  cases Step.cases hs with
  | remove hr =>
    intro t
    have ht := hacc t
    have hbal := h t
    show w'.pool.worth t w'.pool.principals ≤ w'.tokens t w'.self
    have hbal : w.pool.worth t w.pool.principals ≤ w.tokens t w.self := hbal
    simp only [feePaidTo, feeRetained, worth_zero] at ht
    rw [hself, hworth]
    omega
  | _ => exact hfull.elim

/-- Only the owner of the position's NFT gets as far as a transfer. -/
theorem owner_of_transfer_refused {w : World} {owner : Address} {i l : ℕ} {q : Position}
    (hq : w.pool.positions.get? i = some q)
    (he : removeLiquidity w owner i l = .error .transfer) :
    owner ≠ w.self ∧ ∃ m, w.nft.getPosition q.nftId = some m ∧ m.owner = owner := by
  rw [removeLiquidity] at he
  obtain he | ⟨_, hauth, he⟩ := bind_eq_error.mp he
  · cases (require_eq_error.mp he).2
  obtain he | ⟨_, -, he⟩ := bind_eq_error.mp he
  · cases (require_eq_error.mp he).2
  rw [hq, getOr, ok_bind] at he
  obtain he | ⟨_, howner, -⟩ := bind_eq_error.mp he
  · rw [requirePositionOwner] at he
    obtain he | ⟨_, -, he⟩ := bind_eq_error.mp he
    · cases hm : w.nft.getPosition q.nftId with
      | none => rw [hm] at he; cases he
      | some m => rw [hm] at he; cases he
    · cases (require_eq_error.mp he).2
  · obtain ⟨m, hm, rfl, -⟩ := requirePositionOwner_eq_ok.mp howner
    exact ⟨(require_eq_ok.mp hauth), m, hm, rfl⟩

/-- A solvent pool never refuses a withdrawal for want of tokens. -/
theorem Solvent.removeLiquidity_ne {w : World} (hr : Reachable w) (h : Solvent w) {i : ℕ}
    {q : Position} (hq : w.pool.positions.get? i = some q) (owner : Address) :
    removeLiquidity w owner i q.liquidity ≠ .error .transfer := by
  intro he
  obtain ⟨hs, m, hm, rfl⟩ := owner_of_transfer_refused hq he
  have hpos := (hr.wf.positions _ _ hq).positive
  by_cases hfit : PrincipalFits w.pool q q.liquidity
  · have hamounts := amounts_of_fits hr.wf hq le_rfl hfit
    obtain ⟨hsmall0, hsmall1⟩ := amounts_lt hamounts
    obtain ⟨after, heq⟩ := removeLiquidity_eq hr hq hm hs hpos le_rfl hamounts
    have hle : ∀ k, principalOf w q q.liquidity k ≤ w.pool.principals k := fun k =>
      IdStore.le_sum hq fun q => q.principalAt q.liquidity w.pool.sqrtPriceX96 k
    obtain ⟨tokens, htokens⟩ := (transferBoth_ok_iff (lt_trans hsmall0 (by decide))
      (lt_trans hsmall1 (by decide)) hs.symm).mpr fun t =>
        le_trans (inToken_mono (hle .zero) (hle .one)) (h t)
    rw [heq, htokens, ok_bind] at he
    exact pure_ne_error he
  · rw [removeLiquidity_overflows hr hq hm hs hpos le_rfl hfit] at he
    cases he

/-- The calls of a run that is fair and backed: a swap down to its limit, a `collect`, and a partial
removal. -/
def backedCalls : List Call :=
  [.addLiquidity ⟨7⟩ (-120) 120 1000000000,
    .swap ⟨9⟩ true 100000000 78871635782950148074373002560, .addLiquidity ⟨8⟩ 60 120 5000,
    .collect ⟨7⟩ 0, .removeLiquidity ⟨7⟩ 0 400000000]

end Swyft.ClPool
