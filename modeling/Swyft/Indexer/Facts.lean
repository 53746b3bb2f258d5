import Swyft.Indexer.Model

/-!
# What an event says about a pool

A pool's row has three parts, each written as one: its price, its tokens and fee tier, and its
tick with its liquidity. An event that touches the row states a fact about one or two of them, and
the last one to speak of a part decides it. Facts that agree can be stated in any order and any
number of times.

## Main definitions

* `Fact`, `Holds` — a statement about a part of a pool's row, and when a row bears it out
* `facts` — what an event states
* `Fact.Agrees` — no contradiction between two facts
* `Settled` — the condition under which the order of the events does not matter

## Main results

* `projectPoolCreated_holds`, `upsertPoolState_holds` — a pool's upsert establishes its facts and
  keeps those that agree with them
* `Backed.eq` — the facts stated about a pool determine its row
-/

namespace Swyft.Indexer

variable {feeOf : String → ℤ → String} {t t' : Tables}

/-! ### Facts -/

/-- A statement about one part of a pool's row. -/
inductive Fact where
  | price (poolId sqrtPrice : String)
  | tokens (poolId token0 token1 : String) (feeTier : ℤ)
  | state (poolId : String) (tick : Int32) (liquidity : String)
  deriving DecidableEq

def Fact.poolId : Fact → String
  | .price p _ => p
  | .tokens p _ _ _ => p
  | .state p _ _ => p

/-- A row bears a fact out. -/
def PoolRow.Says (r : PoolRow) : Fact → Prop
  | .price _ s => r.currentSqrtPrice = s
  | .tokens _ a b fee => r.token0Address = a ∧ r.token1Address = b ∧ r.feeTier = fee
  | .state _ tick l => r.currentTick = tick ∧ r.liquidity = l

/-- The pool's row is there and bears the fact out. -/
def Holds (t : Tables) (f : Fact) : Prop := ∃ r, t.pools f.poolId = some r ∧ r.Says f

/-- Two facts do not contradict each other. -/
def Fact.Agrees : Fact → Fact → Prop
  | .price p s, .price q s' => p = q → s = s'
  | .tokens p a b fee, .tokens q a' b' fee' => p = q → a = a' ∧ b = b' ∧ fee = fee'
  | .state p tick l, .state q tick' l' => p = q → tick = tick' ∧ l = l'
  | _, _ => True

instance : DecidableRel Fact.Agrees := fun f g => by
  cases f <;> cases g <;> unfold Fact.Agrees <;> infer_instance

/-- The facts of the pool upsert of `projectPoolCreated`. -/
def createdFacts (d : PoolCreatedJobData) : List Fact :=
  match feeColumn d.fee with
  | none => []
  | some fee => [.price d.poolId d.sqrtPriceX96, .tokens d.poolId d.tokenA d.tokenB fee]

/-- The facts of the pool upsert of `projectSwapProcessed`. -/
def stateFacts (d : SwapProcessedJobData) : List Fact :=
  [.price d.poolId d.sqrtPriceX96, .state d.poolId d.tick d.liquidity]

/-- A swap whose handler updates its pool. -/
def Updates (d : SwapProcessedJobData) : Prop :=
  guardEmptyData (.swapProcessed d) = true ∧ isValidSqrtPrice d.sqrtPriceX96 = some true

instance : DecidablePred Updates := fun d =>
  inferInstanceAs (Decidable (guardEmptyData (.swapProcessed d) = true ∧ _))

/-- What an event states once its handler is through. -/
def facts : Event → List Fact
  | .poolCreated d => if guardEmptyData (.poolCreated d) then createdFacts d else []
  | .swapProcessed d => if Updates d then stateFacts d else []
  | _ => []

/-- The pool whose row an event needs without providing it: a swap with no valid price, or a
position. -/
def needsPool (e : Event) : Option String :=
  if guardEmptyData e then
    match e with
    | .swapProcessed d =>
      if isValidSqrtPrice d.sqrtPriceX96 = some false then some d.poolId else none
    | .positionMinted d | .positionBurned d => some d.poolId
    | _ => none
  else none

/-- The pool and the amount a swap's fee is derived from, when it comes without a fee. -/
def derivesFee (e : Event) : Option (String × String) :=
  match e with
  | .swapProcessed d => if Updates d ∧ d.feeAmount = none then some (d.poolId, d.amount0) else none
  | _ => none

/-- A swap that derives its fee from this pool derives the same from its fee tier as from no row
at all. -/
def FeeSettled (feeOf : String → ℤ → String) (swap : String × String) : Fact → Prop
  | .tokens p _ _ fee => p = swap.1 → feeOf swap.2 fee = "0"
  | _ => True

instance (feeOf : String → ℤ → String) (swap : String × String) :
    DecidablePred (FeeSettled feeOf swap) := fun f => by
  cases f <;> unfold FeeSettled <;> infer_instance

/-- **No event interferes with another.** What they state about pools agrees; a derived fee does
not depend on whether the pool is known; and no event waits for a pool that another brings. -/
structure Settled (feeOf : String → ℤ → String) (events : List Event) : Prop where
  agree : ∀ e ∈ events, ∀ e' ∈ events, ∀ f ∈ facts e, ∀ g ∈ facts e', f.Agrees g
  fees : ∀ e ∈ events, ∀ e' ∈ events, ∀ s ∈ derivesFee e, ∀ f ∈ facts e', FeeSettled feeOf s f
  apart : ∀ e ∈ events, ∀ e' ∈ events, ∀ p ∈ needsPool e, ∀ f ∈ facts e', f.poolId ≠ p

instance (feeOf : String → ℤ → String) (events : List Event) :
    Decidable (Settled feeOf events) :=
  decidable_of_iff
    ((∀ e ∈ events, ∀ e' ∈ events, ∀ f ∈ facts e, ∀ g ∈ facts e', f.Agrees g) ∧
      (∀ e ∈ events, ∀ e' ∈ events, ∀ s ∈ derivesFee e, ∀ f ∈ facts e', FeeSettled feeOf s f) ∧
      ∀ e ∈ events, ∀ e' ∈ events, ∀ p ∈ needsPool e, ∀ f ∈ facts e', f.poolId ≠ p)
    ⟨fun ⟨h₁, h₂, h₃⟩ => ⟨h₁, h₂, h₃⟩, fun h => ⟨h.agree, h.fees, h.apart⟩⟩

/-! ### What the pool upserts do to facts -/

/-- A row that bears out two facts about one part has them agree. -/
theorem PoolRow.Says.agrees {r : PoolRow} {f g : Fact} (hf : r.Says f) (hg : r.Says g) :
    f.Agrees g := by
  cases f <;> cases g <;> simp_all [PoolRow.Says, Fact.Agrees]

/-- In the end two contradicting facts cannot both hold of the same pools. -/
theorem Holds.agrees {f g : Fact} (hpools : t.pools = t'.pools) (hp : f.poolId = g.poolId)
    (hf : Holds t f) (hg : Holds t' g) : f.Agrees g := by
  obtain ⟨r, hr, hf⟩ := hf
  obtain ⟨r', hr', hg⟩ := hg
  rw [hp, hpools, hr'] at hr
  obtain rfl := Option.some.inj hr
  exact hf.agrees hg

theorem Fact.agrees_of_poolId_ne {f g : Fact} (h : f.poolId ≠ g.poolId) : f.Agrees g := by
  cases f <;> cases g <;> simp_all [Fact.Agrees, Fact.poolId]

/-- A new row bears out the facts it was written for, and keeps those of the old row that agree
with them. -/
theorem createdRow_says {d : PoolCreatedJobData} {fee : ℤ} {o : Option PoolRow} :
    (createdRow d fee o).Says (.price d.poolId d.sqrtPriceX96) ∧
      (createdRow d fee o).Says (.tokens d.poolId d.tokenA d.tokenB fee) := by
  cases o <;> exact ⟨rfl, rfl, rfl, rfl⟩

theorem stateRow_says {d : SwapProcessedJobData} {o : Option PoolRow} :
    (stateRow d o).Says (.price d.poolId d.sqrtPriceX96) ∧
      (stateRow d o).Says (.state d.poolId d.tick d.liquidity) := by
  cases o <;> exact ⟨rfl, rfl, rfl⟩

theorem createdRow_keeps {d : PoolCreatedJobData} {fee : ℤ} {r : PoolRow} {f : Fact}
    (hp : f.poolId = d.poolId) (hf : r.Says f) (hprice : f.Agrees (.price d.poolId d.sqrtPriceX96))
    (htokens : f.Agrees (.tokens d.poolId d.tokenA d.tokenB fee)) :
    (createdRow d fee (some r)).Says f := by
  cases f with
  | price p s => exact (hprice hp).symm
  | tokens p a b fee' =>
    obtain ⟨rfl, rfl, rfl⟩ := htokens hp
    exact ⟨rfl, rfl, rfl⟩
  | state p tick l => exact hf

theorem stateRow_keeps {d : SwapProcessedJobData} {r : PoolRow} {f : Fact}
    (hp : f.poolId = d.poolId) (hf : r.Says f) (hprice : f.Agrees (.price d.poolId d.sqrtPriceX96))
    (hstate : f.Agrees (.state d.poolId d.tick d.liquidity)) :
    (stateRow d (some r)).Says f := by
  cases f with
  | price p s => exact (hprice hp).symm
  | tokens p a b fee => exact hf
  | state p tick l =>
    obtain ⟨rfl, rfl⟩ := hstate hp
    exact ⟨rfl, rfl⟩

/-- `projectPoolCreated` establishes its facts and keeps those that agree with them. -/
theorem projectPoolCreated_holds {d : PoolCreatedJobData} {f : Fact}
    (h : f ∈ createdFacts d ∨ Holds t f ∧ ∀ g ∈ createdFacts d, f.Agrees g) :
    Holds (projectPoolCreated t d) f := by
  simp only [createdFacts, projectPoolCreated] at h ⊢
  cases hfee : feeColumn d.fee with
  | none => simpa [hfee] using h
  | some fee =>
    simp only [hfee, List.mem_cons, List.not_mem_nil, or_false, forall_eq_or_imp, forall_eq] at h
    rcases h with (rfl | rfl) | ⟨⟨r, hr, hstated⟩, hprice, htokens⟩
    · exact ⟨_, Function.update_self _ _ _, createdRow_says.1⟩
    · exact ⟨_, Function.update_self _ _ _, createdRow_says.2⟩
    · by_cases hp : f.poolId = d.poolId
      · refine ⟨createdRow d fee (some r), ?_, createdRow_keeps hp hstated hprice htokens⟩
        rw [hp] at hr ⊢
        rw [hr]
        exact Function.update_self _ _ _
      · exact ⟨r, by rw [← hr]; exact Function.update_of_ne hp _ _, hstated⟩

/-- The pool upsert of a swap establishes its facts and keeps those that agree with them. -/
theorem upsertPoolState_holds {d : SwapProcessedJobData} {f : Fact}
    (h : f ∈ stateFacts d ∨ Holds t f ∧ ∀ g ∈ stateFacts d, f.Agrees g) :
    Holds (upsertPoolState t d) f := by
  simp only [stateFacts, List.mem_cons, List.not_mem_nil, or_false, forall_eq_or_imp,
    forall_eq] at h
  rcases h with (rfl | rfl) | ⟨⟨r, hr, hstated⟩, hprice, hstate⟩
  · exact ⟨_, Function.update_self _ _ _, stateRow_says.1⟩
  · exact ⟨_, Function.update_self _ _ _, stateRow_says.2⟩
  · by_cases hp : f.poolId = d.poolId
    · refine ⟨stateRow d (some r), ?_, stateRow_keeps hp hstated hprice hstate⟩
      rw [hp] at hr ⊢
      rw [upsertPoolState, hr]
      exact Function.update_self _ _ _
    · exact ⟨r, by rw [← hr]; exact Function.update_of_ne hp _ _, hstated⟩

/-! ### Rows made of facts -/

/-- Every part of the row was stated by somebody, or is what a row is created with. -/
structure Backed (F : Fact → Prop) (p : String) (r : PoolRow) : Prop where
  price : F (.price p r.currentSqrtPrice)
  tokens : F (.tokens p r.token0Address r.token1Address r.feeTier) ∨
    r.token0Address = unknownTokenAddress ∧ r.token1Address = unknownTokenAddress ∧ r.feeTier = 0
  state : F (.state p r.currentTick r.liquidity) ∨ r.currentTick = 0 ∧ r.liquidity = "0"

variable {F : Fact → Prop} {p : String}

theorem createdRow_backed {d : PoolCreatedJobData} {fee : ℤ} {o : Option PoolRow}
    (hprice : F (.price d.poolId d.sqrtPriceX96))
    (htokens : F (.tokens d.poolId d.tokenA d.tokenB fee))
    (ho : ∀ r, o = some r → Backed F d.poolId r) : Backed F d.poolId (createdRow d fee o) := by
  cases o with
  | none => exact ⟨hprice, .inl htokens, .inr ⟨rfl, rfl⟩⟩
  | some r => exact ⟨hprice, .inl htokens, (ho r rfl).state⟩

theorem stateRow_backed {d : SwapProcessedJobData} {o : Option PoolRow}
    (hprice : F (.price d.poolId d.sqrtPriceX96))
    (hstate : F (.state d.poolId d.tick d.liquidity))
    (ho : ∀ r, o = some r → Backed F d.poolId r) : Backed F d.poolId (stateRow d o) := by
  cases o with
  | none => exact ⟨hprice, .inr ⟨rfl, rfl, rfl⟩, .inl hstate⟩
  | some r => exact ⟨hprice, (ho r rfl).tokens, .inl hstate⟩

/-- **Facts determine the row.** Two rows made of facts that both bear all of them out are the
same. -/
theorem Backed.eq {r r' : PoolRow} (h : Backed F p r) (h' : Backed F p r')
    (hr : ∀ f, F f → f.poolId = p → r.Says f) (hr' : ∀ f, F f → f.poolId = p → r'.Says f) :
    r = r' := by
  have hprice : r.currentSqrtPrice = r'.currentSqrtPrice := hr _ h'.price rfl
  have htokens : r.token0Address = r'.token0Address ∧ r.token1Address = r'.token1Address ∧
      r.feeTier = r'.feeTier := by
    rcases h'.tokens with hF | ⟨ha', hb', hfee'⟩
    · exact hr _ hF rfl
    · rcases h.tokens with hF | ⟨ha, hb, hfee⟩
      · obtain ⟨ha, hb, hfee⟩ := hr' _ hF rfl
        exact ⟨ha.symm, hb.symm, hfee.symm⟩
      · exact ⟨ha.trans ha'.symm, hb.trans hb'.symm, hfee.trans hfee'.symm⟩
  have hstate : r.currentTick = r'.currentTick ∧ r.liquidity = r'.liquidity := by
    rcases h'.state with hF | ⟨htick', hl'⟩
    · exact hr _ hF rfl
    · rcases h.state with hF | ⟨htick, hl⟩
      · obtain ⟨htick, hl⟩ := hr' _ hF rfl
        exact ⟨htick.symm, hl.symm⟩
      · exact ⟨htick.trans htick'.symm, hl.trans hl'.symm⟩
  obtain ⟨a, b, fee, price, tick, l⟩ := r
  obtain ⟨a', b', fee', price', tick', l'⟩ := r'
  obtain ⟨rfl, rfl, rfl⟩ := htokens
  obtain ⟨rfl, rfl⟩ := hstate
  obtain rfl : price = price' := hprice
  rfl

end Swyft.Indexer
