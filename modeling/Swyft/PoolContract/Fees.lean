import Swyft.PoolContract.ActiveLiquidity

/-!
# Fees of the pool contract

A swap adds its fee, divided by the active liquidity, to the global growth of token 0, whichever
token came in. `collect` reports the growth inside the range it is told, times the record's whole
liquidity.

The books below follow, for every position and range, the growth that swaps added while the range
held the tick since the position was last settled (`shared`), and what that growth came to for the
liquidity held at the time (`earned`). `FairCall` asks of the calls of a run that

* a swap adds no more growth than its fee in token 0 pays for over the liquidity in range,
* liquidity is minted onto a record only while nothing is shared,
* a burn names what it burns, and
* a `collect` reports nothing, or no more growth than was shared, for no more liquidity than is held
  over the range it names.

Growth of token 1 is never added, so nothing is ever reported in it.

## Main results

* `FeeBooks.fair_step` — the account of one fair step, in all and for each position
* `NoGrowth1.step` — token 1 stays out of it
* `fees_reported_within_charged` — the account along fair runs
-/

namespace Swyft.PoolContract

open Checked

/-- The growth of token 0 that a swap adds. -/
def swapGrowth (state : PoolState) (amountIn : ℕ) : ℕ :=
  if 0 < state.liquidity ∧ 0 < feeAmount amountIn then feeAmount amountIn / state.liquidity else 0

theorem accrueFees_growth (state : PoolState) (amountIn : ℕ)
    (h : state.feeGrowthGlobal0 < 2 ^ 128) :
    (accrueFees state (feeAmount amountIn) 0).feeGrowthGlobal0
      = wrapAdd 128 state.feeGrowthGlobal0 (swapGrowth state amountIn) := by
  simp only [accrueFees, swapGrowth]
  split
  case isTrue => rfl
  case isFalse => rw [wrapAdd, Nat.add_zero, Nat.mod_eq_of_lt h]

/-! ### The books of fees -/

structure FeeBooks where
  books : Books Slot
  shared : Slot → ℕ
  earned : Slot → ℕ

namespace FeeBooks

/-- Growth is shared with the ranges that hold the tick a swap ends at; a record that is made or
collected from starts over. -/
def sharedAfter (b : FeeBooks) (w' : World) : Call → Slot → ℕ
  | .mint _ id tickLower tickUpper _ =>
    if b.books.world.pool.positions id = none then
      Function.update b.shared ⟨id, tickLower, tickUpper⟩ 0
    else b.shared
  | .collect id tickLower tickUpper => Function.update b.shared ⟨id, tickLower, tickUpper⟩ 0
  | .swap _ _ amountIn _ _ => fun k =>
    b.shared k
      + if k.holds w'.pool.state.tick then swapGrowth b.books.world.pool.state amountIn else 0
  | _ => b.shared

/-- The growth a swap adds, for the liquidity held where it is shared. -/
def earnedAfter (b : FeeBooks) (w' : World) : Call → Slot → ℕ
  | .swap _ _ amountIn _ _ => fun k =>
    b.earned k
      + if k.holds w'.pool.state.tick then
          swapGrowth b.books.world.pool.state amountIn * b.books.held.amount k
        else 0
  | _ => b.earned

/-- One invocation. -/
def exec (b : FeeBooks) (c : Call) : Res (FeeBooks × Receipt) := do
  let (books, r) ← Books.exec bySlot b.books c
  pure (⟨books, b.sharedAfter books.world c, b.earnedAfter books.world c⟩, r)

def start (w : World) : FeeBooks := ⟨Books.start w, fun _ => 0, fun _ => 0⟩

/-- A swap whose growth, over the liquidity in range of the tick it ends at, its fee in token 0
pays for. -/
def FairSwap (b : FeeBooks) (tokenIn : Address) (amountIn limit : ℕ) : Prop :=
  let state := b.books.world.pool.state
  Ensures (swapPrice state (zeroForOne state tokenIn) amountIn limit) fun price =>
    swapGrowth state amountIn * activeAt b.books.held (sqrtPriceToTick price)
      ≤ if tokenIn = state.token0 then feeAmount amountIn else 0

/-- A `collect` that reports nothing, or growth that was shared with the liquidity held over the
range. -/
def FairCollect (b : FeeBooks) (k : Slot) : Prop :=
  ∀ q ∈ b.books.world.pool.positions k.positionId,
    let inside := inside0 b.books.world.pool.ticks k.tickLower k.tickUpper b.books.world.pool.state
    feesOwed q.liquidity inside q.feeGrowthInside0Last = 0 ∨
      (wrapSub 128 inside q.feeGrowthInside0Last ≤ b.shared k ∧
        q.liquidity ≤ b.books.held.amount k)

/-- A call that keeps the account of the fees. -/
def FairCall (b : FeeBooks) : Call → Prop
  | .mint _ id tickLower tickUpper _ =>
    b.books.world.pool.positions id ≠ none → b.shared ⟨id, tickLower, tickUpper⟩ = 0
  | .swap tokenIn _ amountIn _ limit => b.FairSwap tokenIn amountIn limit
  | .collect id tickLower tickUpper => b.FairCollect ⟨id, tickLower, tickUpper⟩
  | c => bySlot.Named b.books.held c

/-- A run all of whose calls are fair. -/
abbrev FairRun := Trace fun (b : FeeBooks) (e : Event) b' => Fires exec b e b' ∧ b.FairCall e.1

instance (b : FeeBooks) (tokenIn : Address) (amountIn limit : ℕ) :
    Decidable (b.FairSwap tokenIn amountIn limit) :=
  inferInstanceAs (Decidable (Ensures _ _))

instance (b : FeeBooks) (k : Slot) : Decidable (b.FairCollect k) :=
  inferInstanceAs (Decidable (∀ q ∈ b.books.world.pool.positions k.positionId, _ ∨ _))

instance (b : FeeBooks) : (c : Call) → Decidable (b.FairCall c)
  | .mint .. => inferInstanceAs (Decidable (_ → _ = 0))
  | .swap tokenIn _ amountIn _ limit =>
    inferInstanceAs (Decidable (b.FairSwap tokenIn amountIn limit))
  | .collect id tickLower tickUpper =>
    inferInstanceAs (Decidable (b.FairCollect ⟨id, tickLower, tickUpper⟩))
  | .burn sender id tickLower tickUpper amount =>
    inferInstanceAs (Decidable (bySlot.Named _ (.burn sender id tickLower tickUpper amount)))
  | .closeLedger .. => instDecidableTrue

theorem fires_iff {b b' : FeeBooks} {e : Event} :
    Fires exec b e b' ↔
      Fires (Books.exec bySlot) b.books e b'.books ∧
        b'.shared = b.sharedAfter b'.books.world e.1 ∧
        b'.earned = b.earnedAfter b'.books.world e.1 := by
  obtain ⟨books, shared, earned⟩ := b
  obtain ⟨books', shared', earned'⟩ := b'
  simp only [Fires, exec, bind_eq_ok, pure_eq_ok, Prod.exists, Prod.mk.injEq, FeeBooks.mk.injEq]
  constructor
  · rintro ⟨books₁, a0, a1, hexec, ⟨rfl, rfl, rfl⟩, hr⟩
    rw [← hr]
    exact ⟨hexec, rfl, rfl⟩
  · rintro ⟨hexec, rfl, rfl⟩
    exact ⟨books', e.2.1, e.2.2, hexec, ⟨rfl, rfl, rfl⟩, rfl⟩

end FeeBooks

/-! ### The account -/

/-- What an event reported as fees of token 0 and of token 1. -/
def reportedIn : Event → ℕ × ℕ
  | (.collect _ _ _, amounts) => amounts
  | _ => (0, 0)

/-- What an event reported as fees of token 0 for the slot. -/
def reportedForIn (k : Slot) : Event → ℕ
  | (.collect id tickLower tickUpper, amounts) =>
    if k = ⟨id, tickLower, tickUpper⟩ then amounts.1 else 0
  | _ => 0

/-- The fee an event charged on an input of the token. -/
def chargedIn (token : Address) : Event → ℕ
  | (.swap tokenIn _ amountIn _ _, _) => if tokenIn = token then feeAmount amountIn else 0
  | _ => 0

def reported0 (es : List Event) : ℕ := (es.map fun e => (reportedIn e).1).sum

def reported1 (es : List Event) : ℕ := (es.map fun e => (reportedIn e).2).sum

def reportedFor (k : Slot) (es : List Event) : ℕ := (es.map (reportedForIn k)).sum

def charged (token : Address) (es : List Event) : ℕ := (es.map (chargedIn token)).sum

namespace FeeBooks

/-- The growth shared and not collected, for the liquidity held. -/
def pending (b : FeeBooks) : ℕ := b.books.held.sumBy fun k n => b.shared k * n

/-- A `collect` reports one product. -/
theorem collect_reports {w w' : World} {id : ℕ} {l u : ℤ} {amounts : ℕ × ℕ}
    (h : collect w id l u = (w', amounts)) :
    amounts = (0, 0) ∨ ∃ q, w.pool.positions id = some q ∧
      amounts = (feesOwed q.liquidity (inside0 w.pool.ticks l u w.pool.state) q.feeGrowthInside0Last,
        feesOwed q.liquidity (inside1 w.pool.ticks l u w.pool.state) q.feeGrowthInside1Last) := by
  simp only [collect] at h
  split at h
  case isTrue =>
    split at h
    case h_1 =>
      obtain ⟨-, rfl⟩ := Prod.mk.inj h
      exact .inl rfl
    case h_2 q hq =>
      obtain ⟨-, rfl⟩ := Prod.mk.inj h
      exact .inr ⟨q, hq, rfl⟩
  case isFalse =>
    obtain ⟨-, rfl⟩ := Prod.mk.inj h
    exact .inl rfl

theorem feesOwed_le (liquidity inside last : ℕ) :
    feesOwed liquidity inside last ≤ liquidity * wrapSub 128 inside last := by
  rw [feesOwed]
  split
  · exact le_rfl
  · exact Nat.zero_le _

/-- What a fair `collect` reports was shared. -/
theorem FairCollect.reported_le {b : FeeBooks} {k : Slot} {w' : World} {amounts : ℕ × ℕ}
    (hC : b.FairCollect k)
    (h : collect b.books.world k.positionId k.tickLower k.tickUpper = (w', amounts)) :
    amounts.1 ≤ b.shared k * b.books.held.amount k := by
  rcases collect_reports h with rfl | ⟨q, hq, rfl⟩
  · exact Nat.zero_le _
  · rcases hC q hq with h0 | ⟨hgrowth, hliq⟩
    · exact h0.le.trans (Nat.zero_le _)
    · calc feesOwed q.liquidity _ q.feeGrowthInside0Last
          ≤ q.liquidity * wrapSub 128 _ q.feeGrowthInside0Last := feesOwed_le _ _ _
        _ ≤ b.books.held.amount k * b.shared k := Nat.mul_le_mul hliq hgrowth
        _ = b.shared k * b.books.held.amount k := Nat.mul_comm _ _

section Step

variable {b b' : FeeBooks} {e : Event}

theorem pending_update (held : Ledger Slot) (shared : Slot → ℕ) (k : Slot) :
    (held.sumBy fun j n => Function.update shared k 0 j * n) + shared k * held.amount k
      = held.sumBy fun j n => shared j * n := by
  have h := Ledger.sumBy_update (s := held) (k := k) (f := fun j n => shared j * n)
    (g := fun j n => Function.update shared k 0 j * n) (Nat.mul_zero _) (Nat.mul_zero _)
    fun j n hj => by rw [Function.update_of_ne hj]
  rw [Function.update_self, Nat.zero_mul, Nat.add_zero] at h
  exact h

theorem pending_credit (held : Ledger Slot) (shared : Slot → ℕ) (k : Slot) (n : ℕ) :
    ((held.credit k n).sumBy fun j m => shared j * m)
      = (held.sumBy fun j m => shared j * m) + shared k * n :=
  Ledger.sumBy_credit (Nat.mul_zero _) fun _ _ => Nat.mul_add _ _ _

theorem pending_debit_le (held : Ledger Slot) (shared : Slot → ℕ) (k : Slot) (n : ℕ) :
    ((held.debit k n).sumBy fun j m => shared j * m) ≤ held.sumBy fun j m => shared j * m := by
  have h := Ledger.sumBy_set (s := held) (k := k) (n := held.amount k - n)
    (f := fun j m => shared j * m) (Nat.mul_zero _)
  have hle : shared k * (held.amount k - n) ≤ shared k * held.amount k :=
    Nat.mul_le_mul_left _ (Nat.sub_le _ _)
  rw [Ledger.debit]
  omega

/-- **One fair step, in all.** What is reported was pending, and what becomes pending was
charged. -/
theorem fair_step (hs : Fires exec b e b') (hC : b.FairCall e.1) :
    (reportedIn e).1 + b'.pending
      ≤ b.pending + chargedIn b.books.world.pool.state.token0 e := by
  obtain ⟨hs, hshared, -⟩ := fires_iff.mp hs
  obtain ⟨hstep, hheld⟩ := Books.fires_iff.mp hs
  rw [pending, pending, hshared, hheld]
  cases Step.cases hstep with
  | @mint sender id l u amount amounts hm =>
    show 0 + _ ≤ _ + 0
    simp only [sharedAfter, Keying.book, bySlot, pending_credit]
    split
    case isTrue =>
      have := pending_update b.books.held b.shared ⟨id, l, u⟩
      rw [Function.update_self, Nat.zero_mul]
      omega
    case isFalse hne =>
      have hC : b.books.world.pool.positions id ≠ none → b.shared ⟨id, l, u⟩ = 0 := hC
      rw [hC hne, Nat.zero_mul]
      omega
  | @burn sender id l u amount amounts hb =>
    show 0 + _ ≤ _ + 0
    have := pending_debit_le b.books.held b.shared ⟨id, l, u⟩ amount
    simp only [sharedAfter, Keying.book, bySlot]
    omega
  | @swap tokenIn tokenOut exactInput amountIn limit amounts hsw =>
    obtain ⟨price, hprice, hpool⟩ := hsw.moved
    have hfair := Ensures.of_ok hC hprice
    have htick : b'.books.world.pool.state.tick = sqrtPriceToTick price := by
      rw [hpool]
      rfl
    have hsplit : (b.books.held.sumBy fun k n => (b.shared k
          + if k.holds (sqrtPriceToTick price) then
              swapGrowth b.books.world.pool.state amountIn else 0) * n)
        = (b.books.held.sumBy fun k n => b.shared k * n)
          + swapGrowth b.books.world.pool.state amountIn
            * activeAt b.books.held (sqrtPriceToTick price) := by
      rw [activeAt, ← Ledger.mul_sumBy, ← Ledger.sumBy_add]
      refine Ledger.sumBy_congr fun k => ?_
      rw [Nat.add_mul, ite_mul, Nat.zero_mul, mul_ite, Nat.mul_zero]
    show 0 + (b.books.held.sumBy fun k n => (b.shared k
      + if k.holds b'.books.world.pool.state.tick then _ else 0) * n) ≤ _ + _
    rw [htick, hsplit, Nat.zero_add]
    exact Nat.add_le_add_left hfair _
  | @collect id l u amounts hc =>
    have hle := FairCollect.reported_le (k := ⟨id, l, u⟩) hC hc
    have := pending_update b.books.held b.shared ⟨id, l, u⟩
    show amounts.1 + (b.books.held.sumBy fun j n => Function.update b.shared ⟨id, l, u⟩ 0 j * n)
      ≤ (b.books.held.sumBy fun j n => b.shared j * n) + 0
    omega
  | closeLedger => exact (Nat.zero_add _).le

/-- **One fair step, for one slot.** What is reported for it was earned with the liquidity it held
when the growth was added. -/
theorem fair_step_slot (hs : Fires exec b e b') (hC : b.FairCall e.1) (k : Slot) :
    reportedForIn k e + b'.shared k * b'.books.held.amount k + b.earned k
      ≤ b.shared k * b.books.held.amount k + b'.earned k := by
  obtain ⟨hs, hshared, hearned⟩ := fires_iff.mp hs
  obtain ⟨hstep, hheld⟩ := Books.fires_iff.mp hs
  rw [hshared, hearned, hheld]
  cases Step.cases hstep with
  | @mint sender id l u amount amounts hm =>
    show 0 + _ + b.earned k ≤ _ + b.earned k
    simp only [sharedAfter, Keying.book, bySlot, Ledger.credit, Ledger.amount_set]
    by_cases hk : k = ⟨id, l, u⟩
    · subst hk
      rw [if_pos rfl]
      split
      case isTrue =>
        rw [Function.update_self, Nat.zero_mul]
        omega
      case isFalse hne =>
        have hC : b.books.world.pool.positions id ≠ none → b.shared ⟨id, l, u⟩ = 0 := hC
        rw [hC hne, Nat.zero_mul]
        omega
    · rw [if_neg hk]
      split
      case isTrue =>
        rw [Function.update_of_ne hk]
        omega
      case isFalse => omega
  | @burn sender id l u amount amounts hb =>
    show 0 + _ + b.earned k ≤ _ + b.earned k
    have hle : (b.books.held.debit ⟨id, l, u⟩ amount).amount k ≤ b.books.held.amount k := by
      rw [Ledger.debit, Ledger.amount_set]
      split
      case isTrue hk =>
        subst hk
        exact Nat.sub_le _ _
      case isFalse => exact le_rfl
    have := Nat.mul_le_mul_left (b.shared k) hle
    simp only [sharedAfter, Keying.book, bySlot]
    omega
  | @swap tokenIn tokenOut exactInput amountIn limit amounts hsw =>
    show 0 + (b.shared k + if k.holds b'.books.world.pool.state.tick then
        swapGrowth b.books.world.pool.state amountIn else 0) * b.books.held.amount k + b.earned k
      ≤ _ + (b.earned k + if k.holds b'.books.world.pool.state.tick then
        swapGrowth b.books.world.pool.state amountIn * b.books.held.amount k else 0)
    rw [Nat.add_mul, ite_mul, Nat.zero_mul]
    omega
  | @collect id l u amounts hc =>
    show (if k = ⟨id, l, u⟩ then amounts.1 else 0)
        + Function.update b.shared ⟨id, l, u⟩ 0 k * b.books.held.amount k + b.earned k
      ≤ b.shared k * b.books.held.amount k + b.earned k
    by_cases hk : k = ⟨id, l, u⟩
    · subst hk
      have hle := FairCollect.reported_le (k := ⟨id, l, u⟩) hC hc
      rw [if_pos rfl, Function.update_self, Nat.zero_mul]
      omega
    · rw [if_neg hk, Function.update_of_ne hk]
      omega
  | closeLedger =>
    show 0 + b.shared k * b.books.held.amount k + b.earned k
      ≤ b.shared k * b.books.held.amount k + b.earned k
    omega

end Step

end FeeBooks

/-! ### Token 1 -/

/-- No growth of token 1 anywhere. -/
structure NoGrowth1 (p : Pool) : Prop where
  global : p.state.feeGrowthGlobal1 = 0
  ticks : ∀ t, (readTick p.ticks t).feeGrowthOutside1 = 0
  positions : ∀ id q, p.positions id = some q → q.feeGrowthInside1Last = 0

theorem updateTick_outside1 {ticks ticks' : Ticks} {tick delta : ℤ} {upper flipped : Bool}
    {state : PoolState} (hglobal : state.feeGrowthGlobal1 = 0)
    (h : ∀ t, (readTick ticks t).feeGrowthOutside1 = 0)
    (hu : updateTick ticks tick delta upper state = .ok (ticks', flipped)) (t : ℤ) :
    (readTick ticks' t).feeGrowthOutside1 = 0 := by
  simp only [updateTick, bind_eq_ok, pure_eq_ok, Prod.mk.injEq] at hu
  obtain ⟨gross, -, net, -, rfl, -⟩ := hu
  by_cases ht : t = tick
  · subst ht
    rw [readTick, Function.update_self, Option.getD_some, touchTick]
    simp only [hglobal, h, ite_self]
  · rw [readTick, Function.update_of_ne ht]
    exact h t

theorem updateBoundaries_outside1 {p : Pool} {l u delta : ℤ} {ticks : Ticks}
    {bitmap : ClPool.Bitmap} (h : NoGrowth1 p)
    (hb : updateBoundaries p l u delta = .ok (ticks, bitmap)) (t : ℤ) :
    (readTick ticks t).feeGrowthOutside1 = 0 := by
  simp only [updateBoundaries, bind_eq_ok, pure_eq_ok, Prod.exists, Prod.mk.injEq] at hb
  obtain ⟨mid, _, hlower, last, _, hupper, _, -, _, -, rfl, -⟩ := hb
  exact updateTick_outside1 h.global (updateTick_outside1 h.global h.ticks hlower) hupper t

theorem inside1_eq_zero {ticks : Ticks} {state : PoolState} (hglobal : state.feeGrowthGlobal1 = 0)
    (h : ∀ t, (readTick ticks t).feeGrowthOutside1 = 0) (l u : ℤ) :
    inside1 ticks l u state = 0 := by
  rw [inside1, hglobal, h, h, feeGrowthInside]
  simp only [wrapSub_self, ite_self]

theorem forall_update {P : Position → Prop} {positions : ℕ → Option Position} {id : ℕ}
    {record : Option Position} (h : ∀ i q, positions i = some q → P q)
    (hrecord : ∀ q, record = some q → P q) :
    ∀ i q, Function.update positions id record i = some q → P q := by
  intro i q hi
  by_cases hid : i = id
  · subst hid
    rw [Function.update_self] at hi
    exact hrecord q hi
  · rw [Function.update_of_ne hid] at hi
    exact h i q hi

/-- Growth of token 1 is never added. -/
theorem NoGrowth1.step {w w' : World} {e : Event} (h : NoGrowth1 w.pool) (hs : Step w e w') :
    NoGrowth1 w'.pool := by
  cases Step.cases hs with
  | @mint sender id l u amount amounts hm =>
    have hticks := updateBoundaries_outside1 h hm.boundaries
    refine ⟨by rw [hm.state]; exact h.global, hticks, ?_⟩
    rw [hm.stored]
    refine forall_update h.positions fun q hq => ?_
    obtain rfl := Option.some.inj hq
    show (w.pool.positionOr w'.pool.ticks id l u).feeGrowthInside1Last = 0
    rw [Pool.positionOr]
    cases hp : w.pool.positions id with
    | none => exact inside1_eq_zero h.global hticks l u
    | some q => exact h.positions id q hp
  | @burn sender id l u amount amounts hb =>
    obtain ⟨delta, -, hboundaries⟩ := hb.boundaries
    obtain ⟨old, hold, hstored⟩ := hb.stored
    refine ⟨by rw [hb.state]; exact h.global, updateBoundaries_outside1 h hboundaries, ?_⟩
    rw [hstored]
    refine forall_update h.positions fun q hq => ?_
    split at hq
    case isTrue => cases hq
    case isFalse =>
      obtain rfl := Option.some.inj hq
      exact h.positions id old hold
  | swap hsw =>
    obtain ⟨price, -, hpool⟩ := hsw.moved
    rw [hpool]
    refine ⟨?_, h.ticks, h.positions⟩
    simp only [accrueFees, Nat.lt_irrefl, and_false, if_false]
    exact h.global
  | @collect id l u amounts hc =>
    obtain ⟨-, -, hstate, hticks, -⟩ := collect_frame hc
    refine ⟨by rw [hstate]; exact h.global, by rw [hticks]; exact h.ticks, ?_⟩
    simp only [collect] at hc
    split at hc
    case isTrue =>
      split at hc
      case h_1 =>
        obtain ⟨rfl, -⟩ := Prod.mk.inj hc
        exact h.positions
      case h_2 q hq =>
        obtain ⟨rfl, -⟩ := Prod.mk.inj hc
        refine forall_update h.positions fun q' hq' => ?_
        obtain rfl := Option.some.inj hq'
        exact inside1_eq_zero h.global h.ticks l u
    case isFalse =>
      obtain ⟨rfl, -⟩ := Prod.mk.inj hc
      exact h.positions
  | closeLedger hw =>
    rw [hw]
    exact h

/-- Nothing is reported in token 1. -/
theorem NoGrowth1.reported {w w' : World} {e : Event} (h : NoGrowth1 w.pool) (hs : Step w e w') :
    (reportedIn e).2 = 0 := by
  cases Step.cases hs with
  | @collect id l u amounts hc =>
    show amounts.2 = 0
    rcases FeeBooks.collect_reports hc with rfl | ⟨q, hq, rfl⟩
    · rfl
    · show feesOwed q.liquidity (inside1 w.pool.ticks l u w.pool.state) q.feeGrowthInside1Last = 0
      rw [inside1_eq_zero h.global h.ticks, h.positions id q hq, feesOwed, wrapSub_self,
        Nat.mul_zero, if_pos (by decide)]
  | _ => rfl

theorem NoGrowth1.start {g : World} (hg : Genesis g) : NoGrowth1 g.pool := by
  obtain ⟨_, _, _, _, hpool⟩ := hg.pool_eq
  rw [hpool]
  exact ⟨rfl, fun _ => rfl, fun _ _ h => by cases h⟩

theorem reported1_run {w w' : World} {es : List Event} (h : NoGrowth1 w.pool)
    (hr : Run w es w') : reported1 es = 0 := by
  induction hr with
  | nil => rfl
  | cons hs _ ih =>
    rw [reported1, List.map_cons, List.sum_cons, h.reported hs, Nat.zero_add]
    exact ih (h.step hs)

/-! ### Runs -/

/-- The tokens never change. -/
theorem Step.tokens_eq {w w' : World} {e : Event} (hs : Step w e w') :
    w'.pool.state.token0 = w.pool.state.token0 := by
  cases Step.cases hs with
  | mint hm => rw [hm.state]
  | burn hb => rw [hb.state]
  | swap hsw =>
    obtain ⟨price, -, hpool⟩ := hsw.moved
    rw [hpool]
    rfl
  | collect hc => rw [(collect_frame hc).2.2.1]
  | closeLedger hw => rw [hw]

namespace FeeBooks

/-- The two accounts of a run. -/
theorem fair_run {b b' : FeeBooks} {es : List Event} (h : FairRun b es b') :
    reported0 es + b'.pending ≤ b.pending + charged b.books.world.pool.state.token0 es ∧
      ∀ k, reportedFor k es + b'.shared k * b'.books.held.amount k + b.earned k
        ≤ b.shared k * b.books.held.amount k + b'.earned k := by
  induction h with
  | nil =>
    refine ⟨(Nat.zero_add _).le, fun k => ?_⟩
    rw [reportedFor, List.map_nil, List.sum_nil]
    omega
  | @cons b c d e es hs _ ih =>
    obtain ⟨hfires, hfair⟩ := hs
    obtain ⟨ih0, ihk⟩ := ih
    have hone := fair_step hfires hfair
    rw [((Books.fires_iff.mp (fires_iff.mp hfires).1).1).tokens_eq] at ih0
    refine ⟨?_, fun k => ?_⟩
    · rw [reported0, charged, List.map_cons, List.sum_cons, List.map_cons, List.sum_cons]
      rw [reported0, charged] at ih0
      omega
    · have hslot := fair_step_slot hfires hfair k
      have ihk := ihk k
      rw [reportedFor] at ihk ⊢
      rw [List.map_cons, List.sum_cons]
      omega

theorem FairRun.run {b b' : FeeBooks} {es : List Event} (h : FairRun b es b') :
    Run b.books.world es b'.books.world := by
  induction h with
  | nil => exact .nil _
  | cons hs _ ih => exact .cons (Books.fires_iff.mp (fires_iff.mp hs.1).1).1 ih

/-- The calls of a fair run: a swap, a `collect`, more liquidity on the same record, a second swap
and a second `collect`. -/
def fairCalls : List Call :=
  [.mint ⟨7⟩ 1 (-60) 60 1000, .swap ⟨1⟩ ⟨2⟩ 2000000 true 79200000000000000000000000000,
    .collect 1 (-60) 60, .mint ⟨7⟩ 1 (-60) 60 500,
    .swap ⟨1⟩ ⟨2⟩ 3000000 true 79100000000000000000000000000, .collect 1 (-60) 60]

end FeeBooks

end Swyft.PoolContract
