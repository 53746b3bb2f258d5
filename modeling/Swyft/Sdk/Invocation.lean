import Swyft.Sdk.Liquidity
import Swyft.ClPool.WellFormed
import Swyft.PoolContract.Model

/-!
# What a built transaction does

The host passes the arguments of a call on in their order. A contract takes the call if it has an
entry point of that name with parameters of those types, and refuses it otherwise.

For the newer pool every call that is built is taken, and does to the position that is named what
the caller asked for. The calls for the older pool were listed for entry points without their
first parameter, and with a range that is no position's: it takes none of those that move
liquidity, and collects over the wrong range.

## Main definitions

* `ClPool.entryPoint`, `PoolContract.entryPoint` — the calls a contract takes
* `ActsOnNamed` — a transaction does what its request names

## Main results

* `acts_on_named_iff` — the transactions that do
-/

namespace Swyft.Sdk

open Checked

/-! ### Entry points -/

/-- The entry points of the newer pool that act for an account. -/
def clPoolEntryPoint : String → List ScVal → Option ClPool.Call
  | "add_liquidity", [.address owner, .i32 tickLower, .i32 tickUpper, .u128 liquidity] =>
    some (.addLiquidity owner tickLower tickUpper liquidity)
  | "remove_liquidity", [.address owner, .u64 positionId, .u128 liquidityToRemove] =>
    some (.removeLiquidity owner positionId liquidityToRemove)
  | "swap", [.address sender, .bool zeroForOne, .u128 amountIn, .u128 sqrtPriceLimit] =>
    some (.swap sender zeroForOne amountIn sqrtPriceLimit)
  | "collect", [.address owner, .u64 positionId] => some (.collect owner positionId)
  | _, _ => none

/-- Those of the older pool. -/
def poolEntryPoint : String → List ScVal → Option PoolContract.Call
  | "mint", [.address sender, .u64 positionId, .i32 tickLower, .i32 tickUpper, .u128 amount] =>
    some (.mint sender positionId tickLower tickUpper amount)
  | "burn", [.address sender, .u64 positionId, .i32 tickLower, .i32 tickUpper, .u128 amount] =>
    some (.burn sender positionId tickLower tickUpper amount)
  | "swap", [.address tokenIn, .address tokenOut, .u128 amountIn, .bool exactInput,
      .u128 sqrtPriceLimit] =>
    some (.swap tokenIn tokenOut amountIn exactInput sqrtPriceLimit)
  | "collect", [.u64 positionId, .i32 tickLower, .i32 tickUpper] =>
    some (.collect positionId tickLower tickUpper)
  | _, _ => none

/-- The calls of a transaction on a contract, if it takes them all. -/
def callsOn {κ : Type} (entryPoint : String → List ScVal → Option κ) (poolId : String)
    (ops : List Operation) : Option (List κ) :=
  ops.mapM fun op => if op.contract = poolId then entryPoint op.method op.args else none

/-! ### Positions -/

/-- What the newer pool holds of a position. -/
structure Holding where
  owner : Address
  tickLower : ℤ
  tickUpper : ℤ
  liquidity : ℕ
  deriving DecidableEq

/-- The positions of the newer pool. -/
def holdings (w : ClPool.World) (positionId : ℕ) : Option Holding :=
  (w.pool.positions.get? positionId).map fun p => ⟨p.owner, p.tickLower, p.tickUpper, p.liquidity⟩

/-- The position belongs to the owner, by its NFT. -/
def OwnedBy (w : ClPool.World) (owner : Address) (positionId : ℕ) : Prop :=
  ∃ position ∈ w.pool.positions.get? positionId, ∃ m ∈ w.nft.getPosition position.nftId,
    m.owner = owner

/-- A wish is fulfilled for the position that is named, or a position that is new and never added
again, and all others are left alone. -/
def Fulfils (w w' : ClPool.World) : Wish → Prop
  | .remove owner positionId liquidity => OwnedBy w owner positionId ∧
    ∃ held, holdings w positionId = some held ∧ (liquidity : ℕ) ≤ held.liquidity ∧
    holdings w' = Function.update (holdings w) positionId
      (if held.liquidity - liquidity = 0 then none
        else some { held with owner, liquidity := held.liquidity - liquidity })
  | .collect owner positionId => OwnedBy w owner positionId ∧
    ∃ held, holdings w positionId = some held ∧
    holdings w' = Function.update (holdings w) positionId (some { held with owner })
  | .add owner tickLower tickUpper liquidity => ∃ positionId, holdings w positionId = none ∧
    holdings w' = Function.update (holdings w) positionId
      (some ⟨owner, tickLower, tickUpper, liquidity⟩) ∧
    ∀ es w'', ClPool.Run w' es w'' → ∀ e ∈ es, ∀ id amount0 amount1,
      e.2 = .added id amount0 amount1 → id ≠ positionId

/-- The call of the newer pool that is asked for. -/
def Wish.onClPool : Wish → ClPool.Call
  | .remove owner positionId liquidity => .removeLiquidity owner positionId liquidity
  | .collect owner positionId => .collect owner positionId
  | .add owner tickLower tickUpper liquidity => .addLiquidity owner tickLower tickUpper liquidity

/-- A call of the older pool is the one that is asked for, the caller's position having the range
from `lower` to `upper`. -/
def Wish.OnPool (lower upper : ℤ) : Wish → PoolContract.Call → Prop
  | .remove owner positionId liquidity, call =>
    call = .burn owner positionId lower upper liquidity
  | .collect _ positionId, call => call = .collect positionId lower upper
  | .add owner tickLower tickUpper liquidity, call =>
    ∃ positionId, call = .mint owner positionId tickLower tickUpper liquidity

/-- The transaction does what its request names. -/
def ActsOnNamed (sdk : StellarSdk) (request : Request) (ops : List Operation) : Prop :=
  ∃ wishes, Names sdk request wishes ∧
    match request.poolType with
    | .clPool => callsOn clPoolEntryPoint request.poolId ops = some (wishes.map Wish.onClPool) ∧
      ∀ wish ∈ wishes, ∀ w w' receipt, ClPool.exec w wish.onClPool = .ok (w', receipt) →
        Fulfils w w' wish
    | .pool => ∀ lower upper, lower < upper → ∃ calls,
      callsOn poolEntryPoint request.poolId ops = some calls ∧
        List.Forall₂ (Wish.OnPool lower upper) wishes calls

/-! ### The newer pool -/

section ClPool

variable {w w' : ClPool.World} {owner : Address} {positionId : ℕ}

theorem ownedBy_of_require {position : ClPool.Position}
    (hfound : w.pool.positions.get? positionId = some position)
    (howned : ClPool.requirePositionOwner w position owner = .ok ()) :
    OwnedBy w owner positionId := by
  simp only [ClPool.requirePositionOwner, bind_eq_ok, getOr_eq_ok, require_eq_ok] at howned
  obtain ⟨m, hm, hmatch⟩ := howned
  exact ⟨position, hfound, m, hm, hmatch.1⟩

theorem removed_fulfils {liquidity : U128} {position : ClPool.Position} {amount0 amount1 : ℕ}
    (h : ClPool.Removed w owner positionId liquidity position w' amount0 amount1) :
    Fulfils w w' (.remove owner positionId liquidity) := by
  refine ⟨ownedBy_of_require h.found h.owned, _, by rw [holdings, h.found]; rfl, h.le, ?_⟩
  funext id
  have hshrunk := ClPool.shrinkPosition_cases h.shrunk
  by_cases hid : id = positionId
  · subst hid
    rw [Function.update_self]
    rcases hshrunk with ⟨h0, hpositions, -⟩ | ⟨h0, hpositions, -⟩
    · rw [if_pos h0, holdings, hpositions, IdStore.get?_erase, if_pos rfl]
      rfl
    · rw [if_neg h0, holdings, hpositions, IdStore.get?_replace h.found, if_pos rfl]
      rfl
  · rw [Function.update_of_ne hid, holdings, holdings]
    rcases hshrunk with ⟨-, hpositions, -⟩ | ⟨-, hpositions, -⟩
    · rw [hpositions, IdStore.get?_erase, if_neg hid]
    · rw [hpositions, IdStore.get?_replace h.found, if_neg hid]

theorem collected_fulfils {position : ClPool.Position} {fee0 fee1 : ℕ}
    (h : ClPool.Collected w owner positionId position w' fee0 fee1) :
    Fulfils w w' (.collect owner positionId) := by
  refine ⟨ownedBy_of_require h.found h.owned, _, by rw [holdings, h.found]; rfl, ?_⟩
  rw [h.world]
  funext id
  by_cases hid : id = positionId
  · subst hid
    rw [Function.update_self, holdings]
    dsimp only
    rw [IdStore.get?_replace h.found, if_pos rfl]
    rfl
  · rw [Function.update_of_ne hid, holdings, holdings]
    dsimp only
    rw [IdStore.get?_replace h.found, if_neg hid]

/-- A step hands out at most the next identifier, and an add hands out that. -/
theorem step_next {e : ClPool.Event} (h : ClPool.Step w e w') :
    w.pool.positions.next ≤ w'.pool.positions.next ∧
      ∀ id amount0 amount1, e.2 = .added id amount0 amount1 → id = w.pool.positions.next := by
  cases ClPool.Step.cases h with
  | add h =>
    refine ⟨?_, fun id amount0 amount1 he => ?_⟩
    · rw [h.world]
      exact Nat.le_succ _
    · cases he
      exact h.id_eq
  | remove h =>
    refine ⟨?_, fun id amount0 amount1 he => by cases he⟩
    rcases ClPool.shrinkPosition_cases h.shrunk with ⟨-, hpositions, -⟩ | ⟨-, hpositions, -⟩ <;>
      rw [hpositions] <;> exact le_rfl
  | swap h =>
    refine ⟨?_, fun id amount0 amount1 he => by cases he⟩
    obtain ⟨fg0, fg1, -, -, hpool⟩ := ClPool.settlePool_eq_ok.mp h.settled
    rw [hpool]
  | collect h =>
    refine ⟨?_, fun id amount0 amount1 he => by cases he⟩
    rw [h.world]
    exact le_rfl
  | transferNft | closeLedger => exact ⟨le_rfl, fun id amount0 amount1 he => by cases he⟩

/-- Identifiers below the counter are not handed out again. -/
theorem run_next {es : List ClPool.Event} (h : ClPool.Run w es w') :
    ∀ e ∈ es, ∀ id amount0 amount1, e.2 = .added id amount0 amount1 →
      w.pool.positions.next ≤ id := by
  induction h with
  | nil => simp
  | cons hstep _ ih =>
    obtain ⟨hle, hadded⟩ := step_next hstep
    intro e he id amount0 amount1 hid
    rcases List.mem_cons.mp he with rfl | he
    · exact (hadded id amount0 amount1 hid).ge
    · exact hle.trans (ih e he id amount0 amount1 hid)

theorem added_fulfils {tickLower tickUpper : ℤ} {liquidity : U128} {amount0 amount1 : ℕ}
    (h : ClPool.Added w owner tickLower tickUpper liquidity w' positionId amount0 amount1) :
    Fulfils w w' (.add owner tickLower tickUpper liquidity) := by
  have hpositions : w'.pool.positions = w.pool.positions.push
      (ClPool.newPosition w.pool owner tickLower tickUpper liquidity w.nft.positions.next) := by
    rw [h.world]
  refine ⟨w.pool.positions.next, ?_, ?_, ?_⟩
  · rw [holdings, w.pool.positions.fresh _ le_rfl]
    rfl
  · funext id
    rw [holdings, hpositions, IdStore.get?_push]
    by_cases hid : id = w.pool.positions.next
    · rw [if_pos hid, hid, Function.update_self]
      rfl
    · rw [if_neg hid, Function.update_of_ne hid]
      rfl
  · intro es w'' hrun e he id amount0 amount1 hid
    have hle := run_next hrun e he id amount0 amount1 hid
    rw [hpositions, IdStore.next_push] at hle
    omega

/-- The newer pool fulfils a wish when it takes the call for it and does not stop. -/
theorem fulfils_of_exec {wish : Wish} {receipt : ClPool.Receipt}
    (h : ClPool.exec w wish.onClPool = .ok (w', receipt)) : Fulfils w w' wish := by
  cases wish with
  | remove owner positionId liquidity =>
    cases ClPool.Step.cases
        (e := (Wish.onClPool (.remove owner positionId liquidity), receipt)) h with
    | remove h => exact removed_fulfils h
  | collect owner positionId =>
    cases ClPool.Step.cases (e := (Wish.onClPool (.collect owner positionId), receipt)) h with
    | collect h => exact collected_fulfils h
  | add owner tickLower tickUpper liquidity =>
    cases ClPool.Step.cases
      (e := (Wish.onClPool (.add owner tickLower tickUpper liquidity), receipt)) h with
    | add h => exact added_fulfils h

theorem callsOn_clPool (poolId : String) (wishes : List Wish) :
    callsOn clPoolEntryPoint poolId (wishes.map (Wish.clPoolCall poolId)) =
      some (wishes.map Wish.onClPool) := by
  induction wishes with
  | nil => rfl
  | cons wish wishes ih =>
    have hwish : clPoolEntryPoint (wish.clPoolCall poolId).method (wish.clPoolCall poolId).args =
        some wish.onClPool := by
      cases wish <;> rfl
    have hcontract : (wish.clPoolCall poolId).contract = poolId := by cases wish <;> rfl
    unfold callsOn at ih ⊢
    rw [List.map_cons, List.map_cons, List.mapM_cons, if_pos hcontract, hwish, ih]
    rfl

end ClPool

/-! ### The older pool -/

/-- The older pool takes only the calls that collect, over the range that is listed. -/
theorem poolEntryPoint_poolCall {poolId : String} {minted : ℕ} {wish : Wish}
    {call : PoolContract.Call}
    (h : poolEntryPoint (wish.poolCall poolId minted).method (wish.poolCall poolId minted).args =
      some call) : ∃ positionId, call = .collect positionId 0 0 := by
  cases wish with
  | remove | add => cases h
  | collect owner positionId => exact ⟨positionId, (Option.some.inj h).symm⟩

/-- None of them is a call that is asked for. -/
theorem not_onPool {lower upper : ℤ} (hlt : lower < upper) {positionId : ℕ} {wish : Wish} :
    ¬ wish.OnPool lower upper (.collect positionId 0 0) := by
  intro h
  cases wish with
  | remove => cases h
  | add =>
    obtain ⟨_, h⟩ := h
    cases h
  | collect =>
    obtain ⟨-, rfl, rfl⟩ := PoolContract.Call.collect.inj h
    exact absurd hlt (lt_irrefl _)

theorem not_callsOn_pool {poolId : String} {minted : ℕ} {wishes wishes' : List Wish}
    (hne : wishes ≠ []) {lower upper : ℤ} (hlt : lower < upper) :
    ¬ ∃ calls, callsOn poolEntryPoint poolId (wishes.map (Wish.poolCall poolId minted)) =
        some calls ∧ List.Forall₂ (Wish.OnPool lower upper) wishes' calls := by
  rintro ⟨calls, hcalls, hall⟩
  cases wishes with
  | nil => exact hne rfl
  | cons wish wishes =>
    simp only [callsOn, List.map_cons, List.mapM_cons, Option.bind_eq_bind,
      Option.bind_eq_some_iff, Option.pure_def, Option.some.injEq] at hcalls
    obtain ⟨call, hcall, rest, -, rfl⟩ := hcalls
    split at hcall
    · obtain ⟨positionId, rfl⟩ := poolEntryPoint_poolCall hcall
      cases hall with
      | cons hfirst _ => exact not_onPool hlt hfirst
    · cases hcall

theorem Names.ne_nil {sdk : StellarSdk} {request : Request} {wishes : List Wish}
    (h : Names sdk request wishes) : wishes ≠ [] := by
  cases h <;> simp

/-- **What the builders build.** A transaction that is built does what its request names, on the
position, for the owner, over the range and with the liquidity that are named, exactly if it is
for the newer pool. -/
theorem acts_on_named_iff {sdk : StellarSdk} {request : Request} {ops : List Operation}
    (h : build sdk request = .ok ops) :
    ActsOnNamed sdk request ops ↔ request.poolType = .clPool := by
  obtain ⟨wishes, minted, hnames, rfl⟩ := build_eq_ok h
  constructor
  · rintro ⟨wishes', -, hacts⟩
    cases htype : request.poolType with
    | clPool => rfl
    | pool =>
      simp only [htype, Wish.calls] at hacts
      exact absurd (hacts 0 1 (by decide)) (not_callsOn_pool hnames.ne_nil (by decide))
  · intro htype
    refine ⟨wishes, hnames, ?_⟩
    simp only [htype, Wish.calls]
    exact ⟨callsOn_clPool request.poolId wishes, fun wish _ w w' receipt => fulfils_of_exec⟩

/-! ### Examples -/

/-- A package that accepts the identifier of one contract and the addresses of two accounts. -/
def sampleSdk : StellarSdk where
  isContractId id := id = "C"
  address text := if text = "GA" then some ⟨1⟩ else if text = "GB" then some ⟨2⟩ else none

/-- A tenth of the liquidity of position 7 is removed. -/
def sampleBurn (poolType : Option PoolType) : BurnTxParams :=
  ⟨"7", "C", "1000", some 1000, "GA", poolType⟩

theorem acts_on_named_cl_pool :
    ∃ ops, build sampleSdk (.burn (sampleBurn (some .clPool))) = .ok ops ∧
      ActsOnNamed sampleSdk (.burn (sampleBurn (some .clPool))) ops := by
  have hbuild : build sampleSdk (.burn (sampleBurn (some .clPool))) =
      .ok [⟨"C", "remove_liquidity", [.address ⟨1⟩, .u64 7, .u128 100]⟩] := by decide
  exact ⟨_, hbuild, (acts_on_named_iff hbuild).mpr rfl⟩

/-- Liquidity is added for an account. -/
def sampleAdd (ownerAddress : String) : AddLiquidityTxParams :=
  ⟨"C", ownerAddress, some (-60), some 60, "1000", none⟩

/-- The calls for the older pool to remove liquidity, and to add it for two owners. The pool takes
none of them, and both adds list position 0. -/
theorem pool_calls_not_taken :
    build sampleSdk (.burn (sampleBurn none)) =
        .ok [⟨"C", "burn", [.u64 7, .i32 0, .i32 0, .u128 100]⟩] ∧
      poolEntryPoint "burn" [.u64 7, .i32 0, .i32 0, .u128 100] = none ∧
      build sampleSdk (.addLiquidity (sampleAdd "GA")) =
        .ok [⟨"C", "mint", [.u64 0, .i32 (-60), .i32 60, .u128 1000]⟩] ∧
      build sampleSdk (.addLiquidity (sampleAdd "GB")) =
        .ok [⟨"C", "mint", [.u64 0, .i32 (-60), .i32 60, .u128 1000]⟩] ∧
      poolEntryPoint "mint" [.u64 0, .i32 (-60), .i32 60, .u128 1000] = none := by
  decide

end Swyft.Sdk
