import Swyft.ClPool.WellFormed
import Swyft.OracleAdapter.Bounds

/-!
# The pool and its oracle adapter

`set_oracle` names, once, the adapter a pool reports to; from then on every swap ends with a call to
that adapter's `write_observation`, and fails if the call does. Adapters are contracts of their own,
initialised by anyone for any pool, and written by whoever they were initialised for.

This file runs the pool together with every deployed adapter. The adapter the pool is wired to holds
one observation for each ledger with a swap in it, at the price the first of them left; every other
adapter registered for the pool holds none.

## Main definitions

* `Market`, `Market.exec` — the pool, the deployed adapters, and the one `set_oracle` named
* `Tally` — what a run's own events say about its swaps
* `Market.Agrees` — the adapters hold what the events say

## Main results

* `Market.Agrees.step`, `agrees_of_run` — one invocation, and a run
* `market_twap` — when `get_twap` answers, and between which prices its answer lies
-/

namespace Swyft.ClPool

open Checked OracleAdapter

/-! ### The contracts -/

/-- The pool and the oracle adapters deployed beside it. -/
structure Market where
  world : World
  /-- The adapter's storage at every address that one is deployed at. -/
  adapters : Address → OracleAdapter
  /-- `DataKey::Oracle`. -/
  wired : Option Address

/-- The world as the pool sees it. -/
def Market.view (m : Market) : World := { m.world with oracle := m.wired.map m.adapters }

/-- The adapters once the wired one has been written. -/
def Market.written (m : Market) (oracle : Option OracleAdapter) : Address → OracleAdapter :=
  match m.wired, oracle with
  | some a, some o => Function.update m.adapters a o
  | _, _ => m.adapters

/-- What can happen to the pool and the adapters. -/
inductive MarketCall where
  | pool (c : Call)
  /-- `set_oracle` of the pool. -/
  | setOracle (oracle : Address)
  /-- `initialize` of an adapter. -/
  | initializeOracle (adapter pool : Address)
  /-- `write_observation` of an adapter, invoked by someone else than the pool. -/
  | writeObservation (adapter invoker : Address) (sqrtPriceX96 liquidity : U128)

/-- `set_oracle(oracle)`. -/
def Market.setOracle (m : Market) (oracle : Address) : Res Market :=
  match m.wired with
  | some existing => do
    require (existing = oracle) (poolError .alreadyInitialized)
    pure m
  | none => pure { m with wired := some oracle }

/-- One invocation. -/
def Market.exec (m : Market) : MarketCall → Res (Market × Receipt)
  | .pool c => do
    let (w, r) ← ClPool.exec m.view c
    pure ({ m with world := w, adapters := m.written w.oracle }, r)
  | .setOracle oracle => do
    let m' ← m.setOracle oracle
    pure (m', .done)
  | .initializeOracle adapter pool => do
    let o ← (m.adapters adapter).initializeOracle pool
    pure ({ m with adapters := Function.update m.adapters adapter o }, .done)
  | .writeObservation adapter invoker sqrtPriceX96 liquidity => do
    requireAuth m.world invoker
    let o ← (m.adapters adapter).writeObservation invoker m.world.now sqrtPriceX96 liquidity
    pure ({ m with adapters := Function.update m.adapters adapter o }, .done)

/-- A successful invocation. -/
abbrev Market.Step := Fires Market.exec

/-- A sequence of successful invocations. -/
abbrev Market.Run := Trace Market.Step

/-- A freshly initialised pool, beside adapters that hold no observation. -/
def Market.Start (m : Market) : Prop :=
  Genesis m.world ∧ ∀ a, (m.adapters a).initialized = true → (m.adapters a).Tracks []

/-! ### What the events say -/

/-- The ledger time, the wired adapter and the swaps since it was wired, each with the price and the
liquidity it left. -/
structure Tally where
  now : ℕ
  wired : Option Address
  swaps : List Report

/-- The tally before any event. -/
def Market.tally (m : Market) : Tally := ⟨m.world.now, m.wired, []⟩

/-- One event more. -/
def Tally.note (t : Tally) : MarketCall × Receipt → Tally
  | (.pool (.closeLedger seconds), _) => { t with now := t.now + seconds }
  | (.pool _, .swapped _ _ outcome) =>
    if t.wired.isSome then
      { t with swaps := t.swaps ++ [⟨t.now, outcome.final.sqrtPrice, outcome.final.liquidity⟩] }
    else t
  | (.setOracle oracle, _) => { t with wired := some oracle }
  | _ => t

/-- The observations of the adapter at `a`, if it is registered for the pool. -/
def Tally.observed (t : Tally) (a : Address) : List Report :=
  if t.wired = some a then appended t.swaps else []

/-- The adapter at `a` was initialised for the pool. -/
def Market.Registered (m : Market) (a : Address) : Prop :=
  (m.adapters a).initialized = true ∧ (m.adapters a).pool = m.world.self

/-- The contracts hold what the tally says. -/
structure Market.Agrees (m : Market) (t : Tally) : Prop where
  now : m.world.now = t.now
  wired : m.wired = t.wired
  past : ∀ r ∈ t.swaps, r.timestamp ≤ t.now
  reported : t.swaps ≠ [] → ∃ a, t.wired = some a ∧ m.Registered a
  tracks : ∀ a, m.Registered a → (m.adapters a).Tracks (t.observed a)

/-! ### What an invocation does to the adapters -/

/-- A write that succeeds comes from the adapter's pool, and leaves it registered. -/
theorem writeObservation_keeps {o o' : OracleAdapter} {invoker : Address} {now price liquidity : ℕ}
    (h : o.writeObservation invoker now price liquidity = .ok o') :
    o.initialized = true ∧ invoker = o.pool ∧ o'.initialized = true ∧ o'.pool = o.pool := by
  simp only [writeObservation, bind_eq_ok, require_eq_ok, exists_const] at h
  obtain ⟨hinit, hpool, h⟩ := h
  refine ⟨hinit, hpool, ?_⟩
  split at h
  · obtain rfl := pure_eq_ok.mp h
    exact ⟨hinit, rfl⟩
  · simp only [bind_eq_ok, exists_const, require_eq_ok] at h
    obtain ⟨prev, -, -, h⟩ := h
    split at h
    · obtain rfl := pure_eq_ok.mp h
      exact ⟨hinit, rfl⟩
    · obtain ⟨elapsed, -, h⟩ := bind_eq_ok.mp h
      obtain rfl := pure_eq_ok.mp h
      exact ⟨hinit, rfl⟩

/-- `initialize` of an adapter leaves it registered for `pool`, with no history. -/
theorem initializeOracle_eq_ok {o o' : OracleAdapter} {pool : Address}
    (h : o.initializeOracle pool = .ok o') :
    o.initialized = false ∧ o'.pool = pool ∧ o'.Tracks [] := by
  simp only [initializeOracle, bind_eq_ok, require_eq_ok, exists_const, pure_eq_ok] at h
  obtain ⟨hinit, rfl⟩ := h
  exact ⟨hinit, rfl, rfl, rfl, rfl, Ring.Holds.nil, List.Pairwise.nil⟩

/-- What a step of the pool leaves of the adapter it is wired to, and what its event says. -/
inductive Noted (w : World) (e : Event) (w' : World) : Prop
  | swap {sender : Address} {zeroForOne : Bool} {amountIn limit : U128} {delta0 delta1 : ℤ}
      {outcome : SwapOutcome}
      (event : e = (.swap sender zeroForOne amountIn limit, .swapped delta0 delta1 outcome))
      (recorded : recordObservation w outcome.final.sqrtPrice outcome.final.liquidity
        = .ok w'.oracle) (now : w'.now = w.now)
  | closeLedger {seconds : ℕ} (event : e = (.closeLedger seconds, .done))
      (now : w'.now = w.now + seconds) (oracle : w'.oracle = w.oracle)
  | quiet (event : ∀ t : Tally, t.note (.pool e.1, e.2) = t) (now : w'.now = w.now)
      (oracle : w'.oracle = w.oracle)

theorem Step.noted {w w' : World} {e : Event} (h : Step w e w') :
    w'.self = w.self ∧ Noted w e w' := by
  cases h.cases with
  | add h =>
    rw [h.world]
    exact ⟨rfl, .quiet (fun _ => rfl) rfl rfl⟩
  | remove h =>
    rw [h.world]
    exact ⟨rfl, .quiet (fun _ => rfl) rfl rfl⟩
  | swap h =>
    have hrecorded := h.recorded
    rw [h.world]
    exact ⟨rfl, .swap rfl hrecorded rfl⟩
  | collect h =>
    rw [h.world]
    exact ⟨rfl, .quiet (fun _ => rfl) rfl rfl⟩
  | transferNft => exact ⟨rfl, .quiet (fun _ => rfl) rfl rfl⟩
  | closeLedger => exact ⟨rfl, .closeLedger rfl rfl rfl⟩

/-! ### One invocation -/

variable {m m' : Market} {t : Tally}

theorem appended_append_singleton (rs : List Report) (r : Report) :
    appended (rs ++ [r]) = record (appended rs) r := by
  rw [appended, List.foldl_append]
  rfl

/-- The pool's own step leaves the adapters as they are, and time has not gone back. -/
theorem Market.Agrees.keep (h : Market.Agrees m t) {w : World}
    {adapters : Address → OracleAdapter} {now : ℕ} (hself : w.self = m.world.self)
    (hadapters : adapters = m.adapters) (hnow : w.now = now) (hle : t.now ≤ now) :
    Market.Agrees { m with world := w, adapters } { t with now } where
  now := hnow
  wired := h.wired
  past := fun r hr => (h.past r hr).trans hle
  reported := fun hne => by
    simpa only [Market.Registered, hadapters, hself] using h.reported hne
  tracks := fun a ha => by
    simp only [Market.Registered, hadapters, hself] at ha ⊢
    exact h.tracks a ha

/-- One adapter is written, and is registered for the pool if it was. -/
theorem Market.Agrees.update (h : Market.Agrees m t) {a : Address} {o : OracleAdapter}
    (hreg : m.Registered a → o.initialized = true ∧ o.pool = m.world.self)
    (htracks : o.initialized = true → o.pool = m.world.self → o.Tracks (t.observed a)) :
    Market.Agrees { m with adapters := Function.update m.adapters a o } t where
  now := h.now
  wired := h.wired
  past := h.past
  reported := fun hne => by
    obtain ⟨b, hb, hbreg⟩ := h.reported hne
    refine ⟨b, hb, ?_⟩
    by_cases hab : b = a
    · subst hab
      simpa only [Market.Registered, Function.update_self] using hreg hbreg
    · simpa only [Market.Registered, Function.update_of_ne hab] using hbreg
  tracks := fun b hb => by
    by_cases hab : b = a
    · subst hab
      simp only [Market.Registered, Function.update_self] at hb ⊢
      exact htracks hb.1 hb.2
    · simp only [Market.Registered, Function.update_of_ne hab] at hb ⊢
      exact h.tracks b hb

/-- What the pool's own step leaves alone, it writes back as it was. -/
theorem Market.written_view (m : Market) {oracle : Option OracleAdapter}
    (h : oracle = m.view.oracle) : m.written oracle = m.adapters := by
  subst h
  simp only [Market.written, Market.view]
  cases m.wired with
  | none => rfl
  | some a => exact Function.update_eq_self a m.adapters

/-- A swap reports to the wired adapter. -/
theorem Market.Agrees.report (h : Market.Agrees m t) {w : World} (hself : w.self = m.world.self)
    (hnow : w.now = m.world.now) {a : Address} (hw : t.wired = some a) {price liquidity : ℕ}
    {o : OracleAdapter} (ho : (m.adapters a).writeObservation m.world.self m.world.now price
      liquidity = .ok o) :
    Market.Agrees { m with world := w, adapters := Function.update m.adapters a o }
      { t with swaps := t.swaps ++ [⟨t.now, price, liquidity⟩] } := by
  obtain ⟨hinit, hpool, hinit', hpool'⟩ := writeObservation_keeps ho
  have htracks := h.tracks a ⟨hinit, hpool.symm⟩
  rw [Tally.observed, if_pos hw] at htracks
  rw [hpool, h.now] at ho
  refine ⟨hnow.trans h.now, h.wired, fun r hr => ?_, fun _ => ⟨a, hw, ?_⟩, fun b hb => ?_⟩
  · rcases List.mem_append.mp hr with hr | hr
    · exact h.past r hr
    · rw [List.mem_singleton.mp hr]
  · simp only [Market.Registered, Function.update_self]
    exact ⟨hinit', hpool'.trans (hpool.symm.trans hself.symm)⟩
  · by_cases hab : b = a
    · subst hab
      simp only [Tally.observed, if_pos hw, appended_append_singleton, Function.update_self]
      exact htracks.report ho
    · simp only [Market.Registered, Function.update_of_ne hab, hself] at hb ⊢
      have hb' := h.tracks b hb
      have hne : ¬ t.wired = some b := by
        rw [hw, Option.some.injEq]
        exact Ne.symm hab
      simpa only [Tally.observed, if_neg hne] using hb'

/-- A swap, with an adapter wired or without. -/
theorem Market.Agrees.swap (h : Market.Agrees m t) {w : World} (hself : w.self = m.world.self)
    (hnow : w.now = m.world.now) {price liquidity : ℕ}
    (hrec : recordObservation m.view price liquidity = .ok w.oracle) :
    Market.Agrees { m with world := w, adapters := m.written w.oracle }
      (if t.wired.isSome then { t with swaps := t.swaps ++ [⟨t.now, price, liquidity⟩] }
        else t) := by
  rcases Option.eq_none_or_eq_some m.wired with hw | ⟨a, hw⟩
  · have hnone : t.wired = none := h.wired.symm.trans hw
    have hview : m.view.oracle = none := by rw [Market.view, hw, Option.map_none]
    simp only [recordObservation, hview, pure_eq_ok] at hrec
    rw [if_neg (by rw [hnone]; exact Bool.false_ne_true)]
    exact h.keep hself (m.written_view (hrec.symm.trans hview.symm)) (hnow.trans h.now) le_rfl
  · have hsome : t.wired = some a := h.wired.symm.trans hw
    have hview : m.view.oracle = some (m.adapters a) := by rw [Market.view, hw, Option.map_some]
    simp only [recordObservation, hview, bind_eq_ok, pure_eq_ok] at hrec
    obtain ⟨o, ho, hrec⟩ := hrec
    have hwritten : m.written w.oracle = Function.update m.adapters a o := by
      simp only [Market.written, hw, ← hrec]
    rw [if_pos (by rw [hsome]; rfl), hwritten]
    exact h.report hself hnow hsome ho

/-- **One invocation.** -/
theorem Market.Agrees.step {e : MarketCall × Receipt} (h : Market.Agrees m t) (hs : m.Step e m') :
    Market.Agrees m' (t.note e) := by
  obtain ⟨c, r⟩ := e
  cases c with
  | pool c =>
    simp only [Market.Step, Fires, Market.exec, bind_eq_ok, pure_eq_ok, Prod.exists,
      Prod.mk.injEq] at hs
    obtain ⟨w, r, hw, rfl, rfl⟩ := hs
    obtain ⟨hself, hnoted⟩ := Step.noted (e := (c, r)) hw
    cases hnoted with
    | swap event recorded now =>
      obtain ⟨rfl, rfl⟩ := Prod.mk.inj event
      exact h.swap hself now recorded
    | closeLedger event now oracle =>
      obtain ⟨rfl, rfl⟩ := Prod.mk.inj event
      refine h.keep hself (m.written_view oracle) ?_ (Nat.le_add_right _ _)
      rw [now, ← h.now]
      rfl
    | quiet event now oracle =>
      rw [event t]
      exact h.keep hself (m.written_view oracle) (now.trans h.now) le_rfl
  | setOracle oracle =>
    simp only [Market.Step, Fires, Market.exec, bind_eq_ok, pure_eq_ok, Prod.mk.injEq] at hs
    obtain ⟨m₁, hm, rfl, -⟩ := hs
    have hwired := h.wired
    rw [Market.setOracle] at hm
    split at hm
    case h_1 existing hex =>
      simp only [bind_eq_ok, require_eq_ok, exists_const, pure_eq_ok] at hm
      obtain ⟨rfl, rfl⟩ := hm
      have ht : t.note (.setOracle existing, r) = t := by
        rw [Tally.note, ← hex, hwired]
      rw [ht]
      exact h
    case h_2 hnone =>
      obtain rfl := pure_eq_ok.mp hm
      rw [hnone] at hwired
      have hswaps : t.swaps = [] := by
        by_contra hne
        obtain ⟨a, ha, -⟩ := h.reported hne
        rw [← hwired] at ha
        cases ha
      refine ⟨h.now, rfl, h.past, fun hne => absurd hswaps hne, fun b hb => ?_⟩
      have hb' := h.tracks b hb
      rw [Tally.observed, if_neg (by rw [← hwired]; exact (Option.some_ne_none b).symm)] at hb'
      have hnone' : ({ t with wired := some oracle } : Tally).observed b = [] := by
        rw [Tally.observed, hswaps]
        exact ite_self _
      rw [Tally.note, hnone']
      exact hb'
  | initializeOracle adapter pool =>
    simp only [Market.Step, Fires, Market.exec, bind_eq_ok, pure_eq_ok, Prod.mk.injEq] at hs
    obtain ⟨o, ho, rfl, -⟩ := hs
    obtain ⟨hinit, -, htracks⟩ := initializeOracle_eq_ok ho
    have hnew : ¬ m.Registered adapter := fun hreg => by
      rw [hreg.1] at hinit
      cases hinit
    refine h.update (fun hreg => absurd hreg hnew) fun _ _ => ?_
    have hobserved : t.observed adapter = [] := by
      rw [Tally.observed]
      split
      case isTrue hw =>
        have hswaps : t.swaps = [] := by
          by_contra hne
          obtain ⟨a, ha, hreg⟩ := h.reported hne
          rw [hw, Option.some.injEq] at ha
          exact hnew (ha ▸ hreg)
        rw [hswaps]
        rfl
      case isFalse => rfl
    rw [hobserved]
    exact htracks
  | writeObservation adapter invoker price liquidity =>
    simp only [Market.Step, Fires, Market.exec, requireAuth, bind_eq_ok, require_eq_ok,
      exists_const, pure_eq_ok, Prod.mk.injEq] at hs
    obtain ⟨hinvoker, o, ho, rfl, -⟩ := hs
    obtain ⟨hinit, hpool, hinit', hpool'⟩ := writeObservation_keeps ho
    have hforeign : (m.adapters adapter).pool ≠ m.world.self := fun heq =>
      hinvoker (hpool.trans heq)
    exact h.update (fun hreg => absurd hreg.2 hforeign)
      fun _ hp => absurd (hpool'.symm.trans hp) hforeign

theorem Market.Agrees.run {es : List (MarketCall × Receipt)} (h : Market.Agrees m t)
    (hr : Market.Run m es m') : Market.Agrees m' (es.foldl Tally.note t) := by
  induction hr generalizing t with
  | nil => exact h
  | cons hstep _ ih => exact ih (h.step hstep)

/-- **A run.** -/
theorem agrees_of_run {m₀ : Market} {es : List (MarketCall × Receipt)} (hstart : m₀.Start)
    (hr : Market.Run m₀ es m) : Market.Agrees m (es.foldl Tally.note m₀.tally) := by
  have hinit : Market.Agrees m₀ m₀.tally := by
    refine ⟨rfl, rfl, fun r hr => absurd hr List.not_mem_nil, fun hne => absurd rfl hne,
      fun a ha => ?_⟩
    have hnone : m₀.tally.observed a = [] := ite_self _
    rw [hnone]
    exact hstart.2 a ha.1
  exact hinit.run hr

/-! ### The average -/

theorem appended_snoc_induction {P : List Report → List Report → Prop} (hnil : P [] [])
    (hstep : ∀ rs history r, P rs history → P (rs ++ [r]) (record history r)) (rs : List Report) :
    P rs (appended rs) := by
  induction rs using List.reverseRecOn with
  | nil => exact hnil
  | append_singleton rs r ih =>
    rw [appended_append_singleton]
    exact hstep rs _ r ih

/-- Only reports are appended. -/
theorem mem_of_mem_appended {rs : List Report} {r : Report} (h : r ∈ appended rs) : r ∈ rs := by
  revert r
  refine appended_snoc_induction (P := fun rs history => ∀ {r}, r ∈ history → r ∈ rs) (fun h => h)
    (fun rs history r ih {x} hx => ?_) rs
  rw [record] at hx
  split at hx
  · exact List.mem_append_left _ (ih hx)
  · exact (List.mem_append.mp hx).elim (fun h => List.mem_append_left _ (ih h))
      (List.mem_append_right _)

/-- Every ledger with a report in it has an observation. -/
theorem exists_appended_at {rs : List Report} {r : Report} (h : r ∈ rs) :
    ∃ r' ∈ appended rs, r'.timestamp = r.timestamp := by
  revert r
  refine appended_snoc_induction
    (P := fun rs history => ∀ {r}, r ∈ rs → ∃ r' ∈ history, r'.timestamp = r.timestamp)
    (fun h => absurd h List.not_mem_nil) (fun rs history r ih {x} hx => ?_) rs
  rw [record]
  rcases List.mem_append.mp hx with hx | hx
  · obtain ⟨r', hr', htime⟩ := ih hx
    split
    · exact ⟨r', hr', htime⟩
    · exact ⟨r', List.mem_append_left _ hr', htime⟩
  · rw [List.mem_singleton.mp hx]
    split
    case isTrue hsame =>
      obtain ⟨r', hr', htime⟩ := Option.map_eq_some_iff.mp hsame
      exact ⟨r', List.mem_of_getLast? hr', htime⟩
    case isFalse => exact ⟨r, List.mem_append_right _ (List.mem_singleton_self _), rfl⟩

/-- **The average of a wired pool.** After any run of the pool, of `set_oracle` and of the deployed
adapters by anyone, an adapter registered for the pool answers `get_twap` exactly if the pool is
wired to it and was swapped on in this very ledger, the window is not empty, and the oldest
observation kept reaches back over it. Its answer lies between any bounds on the prices that the
first swap of each ledger inside the window left; the lower bound needs that nothing has
saturated. -/
theorem market_twap {m₀ : Market} {es : List (MarketCall × Receipt)} (hstart : m₀.Start)
    (hr : Market.Run m₀ es m) {a : Address} (ha : m.Registered a) :
    let t := es.foldl Tally.note m₀.tally
    (∀ window, (∃ v, (m.adapters a).getTwap m.world.now window = .ok v) ↔
      m.wired = some a ∧ (∃ r ∈ t.swaps, r.timestamp = m.world.now) ∧
        0 < window ∧ 0 < m.world.now ∧
        ∃ oldest, (appended t.swaps)[(appended t.swaps).length - bufferSize]? = some oldest ∧
          oldest.timestamp ≤ m.world.now - window) ∧
    ∀ window v lo hi, (m.adapters a).getTwap m.world.now window = .ok v →
      (∀ r ∈ appended t.swaps, m.world.now - window < r.timestamp →
        lo ≤ r.sqrtPriceX96 ∧ r.sqrtPriceX96 ≤ hi) →
      v ≤ hi ∧ (charged Report.sqrtPriceX96 (appended t.swaps) < 2 ^ 128 → lo ≤ v) := by
  intro t
  have h : Market.Agrees m t := agrees_of_run hstart hr
  have htracks := h.tracks a ha
  by_cases hw : t.wired = some a
  case neg =>
    -- an adapter the pool is not wired to holds nothing, and never answers
    rw [Tally.observed, if_neg hw] at htracks
    have hnever : ∀ window v, ¬ (m.adapters a).getTwap m.world.now window = .ok v := by
      intro window v hv
      obtain ⟨oldest, _, hold, -⟩ := htracks.getTwap_isOk.mp ⟨v, hv⟩
      cases hold
    exact ⟨fun window => ⟨fun ⟨v, hv⟩ => absurd hv (hnever window v),
      fun hyes => absurd (h.wired.symm.trans hyes.1) hw⟩,
      fun window v lo hi hv => absurd hv (hnever window v)⟩
  case pos =>
  rw [Tally.observed, if_pos hw] at htracks
  have hpast : ∀ r ∈ appended t.swaps, r.timestamp ≤ m.world.now := fun r hr => by
    rw [h.now]
    exact h.past r (mem_of_mem_appended hr)
  have hnewest : ∀ {r last : Report}, r ∈ appended t.swaps →
      (appended t.swaps).getLast? = some last → r.timestamp ≤ last.timestamp := by
    intro r last hr hlast
    obtain ⟨init, hinit⟩ := List.getLast?_eq_some_iff.mp hlast
    have hinc := htracks.increasing
    rw [hinit] at hr hinc
    rcases List.mem_append.mp hr with hr | hr
    · exact ((List.pairwise_append.mp hinc).2.2 r hr last (List.mem_singleton_self _)).le
    · rw [List.mem_singleton.mp hr]
  constructor
  · intro window
    rw [htracks.getTwap_isOk]
    constructor
    · rintro ⟨oldest, last, hold, hlast, hnow, hwindow, hpos⟩
      have hlastmem := List.mem_of_getLast? hlast
      have hle := hpast last hlastmem
      rw [show last.timestamp = m.world.now by omega] at hwindow hpos
      exact ⟨h.wired.trans hw, ⟨last, mem_of_mem_appended hlastmem, by omega⟩, by omega, by omega,
        oldest, hold, hwindow⟩
    · rintro ⟨-, ⟨r, hr, htime⟩, hwin, hnow, oldest, hold, hwindow⟩
      obtain ⟨r', hr', htime'⟩ := exists_appended_at hr
      obtain ⟨last, hlast⟩ : ∃ last, (appended t.swaps).getLast? = some last :=
        ⟨_, List.getLast?_eq_some_getLast (List.ne_nil_of_mem hr')⟩
      have hge := hnewest hr' hlast
      have hle := hpast last (List.mem_of_getLast? hlast)
      have heq : last.timestamp = m.world.now := by omega
      exact ⟨oldest, last, hold, hlast, heq.ge, heq ▸ hwindow, by omega⟩
  · intro window v lo hi hv hprices
    obtain ⟨_, last, -, hlast, hnow, -⟩ := htracks.getTwap_isOk.mp ⟨v, hv⟩
    have hle := hpast last (List.mem_of_getLast? hlast)
    rw [show m.world.now = last.timestamp by omega] at hprices
    exact htracks.getTwap_bounds hv hlast hprices

/-- A list of calls played in the sandbox, beside adapters that nobody has initialised. -/
theorem exists_market_run (calls : List MarketCall) (Q : Market → Tally → Prop)
    (h : Yields (sandbox 3000 unitPrice) fun w =>
      Yields (runAll Market.exec ⟨w, fun _ => .deployed ⟨0⟩, none⟩ calls) fun x =>
        Q x.1 (x.2.foldl Tally.note (Market.tally ⟨w, fun _ => .deployed ⟨0⟩, none⟩))) :
    ∃ m₀ m es, Market.Start m₀ ∧ Market.Run m₀ es m ∧ Q m (es.foldl Tally.note m₀.tally) := by
  obtain ⟨w, hw, h⟩ := yields_iff.mp h
  obtain ⟨⟨m, es⟩, hrun, hq⟩ := yields_iff.mp h
  refine ⟨⟨w, fun _ => .deployed ⟨0⟩, none⟩, m, es, ⟨⟨_, _, _, _, _, _, _, _, _, hw⟩, ?_⟩,
    trace_of_runAll hrun, hq⟩
  rintro a ⟨⟩

/-- Three swaps in two ledgers, reported to the adapter at address 5: over the second ledger's 600
seconds the average is the price that the first swap of that ledger left, not the second. -/
theorem market_twap_of_swaps :
    ∃ m₀ m es, Market.Start m₀ ∧ Market.Run m₀ es m ∧ m.Registered ⟨5⟩ ∧
      (m.adapters ⟨5⟩).getTwap m.world.now 600 = .ok 79200000000000000000000000000 ∧
      m.world.pool.sqrtPriceX96 = 79210000000000000000000000000 := by
  obtain ⟨m₀, m, es, hstart, hr, hinit, hpool, hanswers, hprices, hfit, hprice⟩ :=
    exists_market_run
      [.initializeOracle ⟨5⟩ ⟨0⟩, .setOracle ⟨5⟩, .pool (.addLiquidity ⟨7⟩ (-600) 600 1000000),
        .pool (.closeLedger 1000), .pool (.swap ⟨9⟩ true 1000 0), .pool (.closeLedger 600),
        .pool (.swap ⟨9⟩ true 1000 79200000000000000000000000000),
        .pool (.swap ⟨9⟩ false 1000 79210000000000000000000000000)]
      (fun m t => (m.adapters ⟨5⟩).initialized = true ∧ (m.adapters ⟨5⟩).pool = m.world.self ∧
        Yields ((m.adapters ⟨5⟩).getTwap m.world.now 600) (fun _ => True) ∧
        (∀ r ∈ appended t.swaps, m.world.now - 600 < r.timestamp →
          79200000000000000000000000000 ≤ r.sqrtPriceX96 ∧
            r.sqrtPriceX96 ≤ 79200000000000000000000000000) ∧
        charged Report.sqrtPriceX96 (appended t.swaps) < 2 ^ 128 ∧
        m.world.pool.sqrtPriceX96 = 79210000000000000000000000000) (by decide +kernel)
  obtain ⟨v, hv, -⟩ := yields_iff.mp hanswers
  obtain ⟨hle, hge⟩ := (market_twap hstart hr ⟨hinit, hpool⟩).2 600 v _ _ hv hprices
  obtain rfl := le_antisymm hle (hge hfit)
  exact ⟨m₀, m, es, hstart, hr, ⟨hinit, hpool⟩, hv, hprice⟩

end Swyft.ClPool
