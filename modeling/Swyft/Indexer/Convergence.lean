import Swyft.Indexer.Facts
import Swyft.Lib.PartialMap
import Mathlib.Data.List.Nodup

/-!
# Deliveries of settled events agree

When no event interferes with another, the workers only ever add to what is known: every access
keeps the facts that hold, a job still to be done is the only reason for a fact not to hold yet,
and once no job is left the facts decide every row.

## Main definitions

* `Sane` — the rows that may be there on the way
* `Progress` — the invariant of the workers: what was handed out holds, or a job has still to do it

## Main results

* `advance_spec` — one access of one job
* `Progress.run` — the invariant over a whole delivery
* `converges_of_settled` — any two deliveries leave the same rows
-/

namespace Swyft.Indexer

open PartialMap

variable {feeOf : String → ℤ → String} {events : List Event} {t t' : Tables}

/-! ### Rows on the way -/

/-- Some event states the fact. -/
def Stated (events : List Event) (f : Fact) : Prop := ∃ e ∈ events, f ∈ facts e

/-- The fee of a swap as far as the swap itself tells. -/
def knownFee (d : SwapProcessedJobData) : String := d.feeAmount.getD "0"

/-- The rows that may be there while settled events are delivered. -/
structure Sane (events : List Event) (t : Tables) : Prop where
  pools : ∀ p r, t.pools p = some r → Backed (Stated events) p r
  swaps : ∀ id r, t.swaps id = some r → ∃ d, .swapProcessed d ∈ events ∧ Updates d ∧
    d.eventId = id ∧ r = swapRow d (knownFee d)
  positions : ∀ k, t.positions k = none

theorem Sane.empty : Sane events .empty :=
  ⟨fun _ _ h => by simp [Tables.empty] at h, fun _ _ h => by simp [Tables.empty] at h,
    fun _ => rfl⟩

/-- The pool an event waits for is never there. -/
theorem Sane.pool_eq_none (ht : Sane events t) (hset : Settled feeOf events) {e : Event}
    (he : e ∈ events) {p : String} (hp : p ∈ needsPool e) : t.pools p = none := by
  cases hrow : t.pools p with
  | none => rfl
  | some r =>
    obtain ⟨e', he', hf⟩ := (ht.pools p r hrow).price
    exact absurd rfl (hset.apart e he e' he' p hp _ hf)

theorem guardEmptyData_iff {e : Event} : guardEmptyData e = true ↔ ∀ x ∈ e.texts, x.2 ≠ "" := by
  simp [guardEmptyData, Event.emptyFields, List.filter_eq_nil_iff]

/-- Whatever the pool's row, the fee a handler resolves is the known one. -/
theorem Sane.resolveFeeAmount_eq (ht : Sane events t) (hset : Settled feeOf events)
    (hzero : ∀ a, feeOf a 0 = "0") {d : SwapProcessedJobData} (hd : .swapProcessed d ∈ events)
    (hu : Updates d) : resolveFeeAmount feeOf t d = knownFee d := by
  cases hfee : d.feeAmount with
  | some fee =>
    have hne : fee ≠ "" :=
      guardEmptyData_iff.mp hu.1 ("feeAmount", fee) (by simp [Event.texts, hfee])
    simp [resolveFeeAmount, knownFee, hfee, hne]
  | none =>
    simp only [resolveFeeAmount, knownFee, hfee, derivedFee, Option.getD_none]
    cases hrow : t.pools d.poolId with
    | none => rfl
    | some r =>
      rcases (ht.pools _ r hrow).tokens with ⟨e', he', hf⟩ | ⟨-, -, hfee0⟩
      · have hs : (d.poolId, d.amount0) ∈ derivesFee (.swapProcessed d) := by
          simp [derivesFee, hu, hfee]
        exact hset.fees _ hd e' he' _ hs _ hf rfl
      · change feeOf d.amount0 r.feeTier = "0"
        rw [hfee0]
        exact hzero _

/-! ### Jobs in progress -/

def Task.event : Task → Event
  | .write e | .project e => e
  | .storeState d _ | .storeSwap d _ => .swapProcessed d

/-- The facts a job has still to establish. -/
def Task.pending : Task → List Fact
  | .write e | .project e => facts e
  | .storeState d _ => stateFacts d
  | .storeSwap _ _ => []

/-- A job that may be in progress. A swap about to be stored has its pool, unless its price is not
valid. -/
def Task.Fits (events : List Event) (t : Tables) : Task → Prop
  | .write e | .project e => e ∈ events ∧ guardEmptyData e = true
  | .storeState d fee => .swapProcessed d ∈ events ∧ Updates d ∧ fee = knownFee d
  | .storeSwap d fee => .swapProcessed d ∈ events ∧
      (Updates d ∧ fee = knownFee d ∧ (t.pools d.poolId).isSome ∨
        guardEmptyData (.swapProcessed d) = true ∧ isValidSqrtPrice d.sqrtPriceX96 = some false)

/-- What an access of the job `k` does to the tables and to the job. -/
structure Advanced (events : List Event) (t : Tables) (k : Task) (t' : Tables)
    (next : List Task) : Prop where
  sane : Sane events t'
  keeps : ∀ f, Stated events f → Holds t f → Holds t' f
  pools : ∀ p, (t.pools p).isSome → (t'.pools p).isSome
  swaps : Extends t.swaps t'.swaps
  fits : ∀ k' ∈ next, k'.Fits events t' ∧ k'.event = k.event
  facts : ∀ f ∈ k.pending, Holds t' f ∨ ∃ k' ∈ next, f ∈ k'.pending
  stored : ∀ d, k.event = .swapProcessed d → Updates d →
    t'.swaps d.eventId = some (swapRow d (knownFee d)) ∨ next ≠ []

/-- An access that changes neither pools nor swaps nor positions. -/
theorem Advanced.of_same {k : Task} {next : List Task} (ht : Sane events t)
    (hpools : t'.pools = t.pools) (hswaps : t'.swaps = t.swaps)
    (hpositions : t'.positions = t.positions)
    (fits : ∀ k' ∈ next, k'.Fits events t ∧ k'.event = k.event)
    (facts : ∀ f ∈ k.pending, ∃ k' ∈ next, f ∈ k'.pending)
    (stored : ∀ d, k.event = .swapProcessed d → Updates d → next ≠ []) :
    Advanced events t k t' next where
  sane := ⟨by rw [hpools]; exact ht.pools, by rw [hswaps]; exact ht.swaps,
    by rw [hpositions]; exact ht.positions⟩
  keeps := fun f _ hf => by simpa only [Holds, hpools] using hf
  pools := fun p h => by rwa [hpools]
  swaps := by rw [hswaps]; exact .refl _
  fits := fun k' hk' => by
    obtain ⟨hfits, hevent⟩ := fits k' hk'
    refine ⟨?_, hevent⟩
    cases k' <;> simpa only [Task.Fits, hpools] using hfits
  facts := fun f hf => .inr (facts f hf)
  stored := fun d hd hu => .inr (stored d hd hu)

theorem Stated.agrees (hset : Settled feeOf events) {f g : Fact} (hf : Stated events f)
    (hg : Stated events g) : f.Agrees g := by
  obtain ⟨e, he, hf⟩ := hf
  obtain ⟨e', he', hg⟩ := hg
  exact hset.agree e he e' he' f hf g hg

theorem advance_poolCreated (hset : Settled feeOf events) (ht : Sane events t)
    {d : PoolCreatedJobData} (hd : .poolCreated d ∈ events)
    (hguard : guardEmptyData (.poolCreated d) = true) :
    Advanced events t (.project (.poolCreated d)) (projectPoolCreated t d) [] := by
  have hfacts : facts (.poolCreated d) = createdFacts d := by simp [facts, hguard]
  have hstated : ∀ g ∈ createdFacts d, Stated events g := fun g hg => ⟨_, hd, hfacts ▸ hg⟩
  cases hfee : feeColumn d.fee with
  | none =>
    have hnil : createdFacts d = [] := by simp [createdFacts, hfee]
    have hsame : projectPoolCreated t d = t := by simp [projectPoolCreated, hfee]
    rw [hsame]
    exact .of_same ht rfl rfl rfl (by simp) (by simp [Task.pending, hfacts, hnil])
      (by simp [Task.event])
  | some fee =>
    have hprice : Stated events (.price d.poolId d.sqrtPriceX96) :=
      hstated _ (by simp [createdFacts, hfee])
    have htokens : Stated events (.tokens d.poolId d.tokenA d.tokenB fee) :=
      hstated _ (by simp [createdFacts, hfee])
    refine ⟨⟨?_, ?_, ?_⟩, ?_, ?_, ?_, by simp, ?_, by simp [Task.event]⟩
    · intro p r hr
      simp only [projectPoolCreated, hfee] at hr
      rcases update_eq_some_iff.mp hr with ⟨rfl, rfl⟩ | ⟨-, hr⟩
      · exact createdRow_backed hprice htokens (ht.pools _)
      · exact ht.pools p r hr
    · simpa only [projectPoolCreated, hfee] using ht.swaps
    · simpa only [projectPoolCreated, hfee] using ht.positions
    · exact fun f hf hold =>
        projectPoolCreated_holds (.inr ⟨hold, fun g hg => hf.agrees hset (hstated g hg)⟩)
    · intro p hp
      simp only [projectPoolCreated, hfee]
      by_cases hpd : p = d.poolId
      · subst hpd; simp
      · simpa [hpd] using hp
    · simp only [projectPoolCreated, hfee]; exact .refl _
    · exact fun f hf => .inl (projectPoolCreated_holds (.inl (hfacts ▸ hf)))

theorem advance_storeState (hset : Settled feeOf events) (ht : Sane events t)
    {d : SwapProcessedJobData} {fee : String} (hk : (Task.storeState d fee).Fits events t) :
    Advanced events t (.storeState d fee) (upsertPoolState t d) [.storeSwap d fee] := by
  obtain ⟨hd, hu, hfee⟩ := hk
  have hstated : ∀ g ∈ stateFacts d, Stated events g :=
    fun g hg => ⟨_, hd, by simpa [facts, hu] using hg⟩
  refine ⟨⟨?_, ht.swaps, ht.positions⟩, ?_, ?_, .refl _, ?_, ?_, by simp⟩
  · intro p r hr
    rcases update_eq_some_iff.mp hr with ⟨rfl, rfl⟩ | ⟨-, hr⟩
    · exact stateRow_backed (hstated _ (by simp [stateFacts])) (hstated _ (by simp [stateFacts]))
        (ht.pools _)
    · exact ht.pools p r hr
  · exact fun f hf hold =>
      upsertPoolState_holds (.inr ⟨hold, fun g hg => hf.agrees hset (hstated g hg)⟩)
  · intro p hp
    by_cases hpd : p = d.poolId
    · subst hpd; simp [upsertPoolState]
    · simpa [upsertPoolState, hpd] using hp
  · intro k' hk'
    obtain rfl := List.mem_singleton.mp hk'
    exact ⟨⟨hd, .inl ⟨hu, hfee, by simp [upsertPoolState]⟩⟩, rfl⟩
  · exact fun f hf => .inl (upsertPoolState_holds (.inl hf))

/-- Two swaps of the same identifier are the same. -/
theorem swap_eq_of_eventId (hids : (events.map Event.eventId).Nodup)
    {d d' : SwapProcessedJobData} (hd : .swapProcessed d ∈ events)
    (hd' : .swapProcessed d' ∈ events) (hid : d.eventId = d'.eventId) : d = d' := by
  have heq : Event.swapProcessed d = .swapProcessed d' :=
    List.inj_on_of_nodup_map hids hd hd' hid
  simpa using heq

theorem advance_storeSwap (hset : Settled feeOf events)
    (hids : (events.map Event.eventId).Nodup) (ht : Sane events t)
    {d : SwapProcessedJobData} {fee : String} (hk : (Task.storeSwap d fee).Fits events t) :
    Advanced events t (.storeSwap d fee) (upsertSwap t d fee) [] := by
  obtain ⟨hd, ⟨hu, rfl, hpool⟩ | ⟨hguard, hprice⟩⟩ := hk
  · obtain ⟨r, hr⟩ := Option.isSome_iff_exists.mp hpool
    cases hrow : t.swaps d.eventId with
    | some row =>
      obtain ⟨d', hd', -, hid, rfl⟩ := ht.swaps _ row hrow
      obtain rfl := swap_eq_of_eventId hids hd' hd hid
      have hsame : upsertSwap t d' (knownFee d') = t := by simp [upsertSwap, hrow]
      rw [hsame]
      refine ⟨ht, fun _ _ h => h, fun _ h => h, .refl _, by simp, by simp [Task.pending], ?_⟩
      intro d'' hd'' _
      simp only [Task.event, Event.swapProcessed.injEq] at hd''
      subst hd''
      exact .inl hrow
    | none =>
      have hnew : upsertSwap t d (knownFee d) = { t with
          swaps := Function.update t.swaps d.eventId (some (swapRow d (knownFee d))) } := by
        simp [upsertSwap, hrow, hr]
      rw [hnew]
      refine ⟨⟨ht.pools, ?_, ht.positions⟩, fun _ _ h => h, fun _ h => h,
        extends_update hrow _, by simp, by simp [Task.pending], ?_⟩
      · intro id row hid
        rcases update_eq_some_iff.mp hid with ⟨rfl, rfl⟩ | ⟨-, hid⟩
        · exact ⟨d, hd, hu, rfl, rfl⟩
        · exact ht.swaps id row hid
      · intro d'' hd'' _
        simp only [Task.event, Event.swapProcessed.injEq] at hd''
        subst hd''
        exact .inl (Function.update_self _ _ _)
  · have hnone : t.pools d.poolId = none :=
      ht.pool_eq_none hset hd (by simp [needsPool, hguard, hprice])
    have hsame : upsertSwap t d fee = t := by
      cases hrow : t.swaps d.eventId <;> simp [upsertSwap, hrow, hnone]
    rw [hsame]
    refine ⟨ht, fun _ _ h => h, fun _ h => h, .refl _, by simp, by simp [Task.pending], ?_⟩
    intro d'' hd'' hu
    simp only [Task.event, Event.swapProcessed.injEq] at hd''
    subst hd''
    rw [hu.2] at hprice
    simp at hprice

/-- The position upsert of an event whose pool is not there is refused. -/
theorem upsertPosition_eq_self (hset : Settled feeOf events) (ht : Sane events t)
    {d : PositionJobData} {e : Event} (he : e ∈ events) (hp : d.poolId ∈ needsPool e)
    (closes : Bool) : upsertPosition t d closes = t := by
  simp [upsertPosition, ht.positions, ht.pool_eq_none hset he hp]

/-- **One access of one job.** -/
theorem advance_spec (hset : Settled feeOf events) (hids : (events.map Event.eventId).Nodup)
    (hzero : ∀ a, feeOf a 0 = "0") (ht : Sane events t) {k : Task} (hk : k.Fits events t) :
    Advanced events t k (advance feeOf t k).1 (advance feeOf t k).2 := by
  cases k with
  | write e =>
    obtain ⟨hpools, hswaps, hpositions⟩ := storeEvent_same t e
    refine .of_same ht hpools hswaps hpositions ?_ (by simp [advance, Task.pending])
      (by simp [advance])
    intro k' hk'
    obtain rfl := List.mem_singleton.mp hk'
    exact ⟨hk, rfl⟩
  | project e =>
    obtain ⟨he, hguard⟩ := hk
    cases e with
    | poolCreated d => exact advance_poolCreated hset ht he hguard
    | swapProcessed d =>
      cases hprice : isValidSqrtPrice d.sqrtPriceX96 with
      | none =>
        have hu : ¬ Updates d := by simp [Updates, hprice]
        simp only [advance, hprice]
        refine .of_same ht rfl rfl rfl (by simp) (by simp [Task.pending, facts, hu]) ?_
        rintro _ ⟨⟩ h
        exact absurd h hu
      | some valid =>
        cases valid with
        | false =>
          have hu : ¬ Updates d := by simp [Updates, hprice]
          simp only [advance, hprice]
          refine .of_same ht rfl rfl rfl ?_ (by simp [Task.pending, facts, hu]) (by simp)
          intro k' hk'
          obtain rfl := List.mem_singleton.mp hk'
          exact ⟨⟨he, .inr ⟨hguard, hprice⟩⟩, rfl⟩
        | true =>
          have hu : Updates d := ⟨hguard, hprice⟩
          simp only [advance, hprice]
          refine .of_same ht rfl rfl rfl ?_ (by simp [Task.pending, facts, hu]) (by simp)
          intro k' hk'
          obtain rfl := List.mem_singleton.mp hk'
          exact ⟨⟨he, hu, ht.resolveFeeAmount_eq hset hzero he hu⟩, rfl⟩
    | positionMinted d =>
      have hsame : upsertPosition t d false = t :=
        upsertPosition_eq_self hset ht he (by simp [needsPool, hguard]) _
      simp only [advance, hsame]
      exact .of_same ht rfl rfl rfl (by simp) (by simp [Task.pending, facts]) (by simp [Task.event])
    | positionBurned d =>
      have hsame : upsertPosition t d (d.liquidity = "0") = t :=
        upsertPosition_eq_self hset ht he (by simp [needsPool, hguard]) _
      simp only [advance, hsame]
      exact .of_same ht rfl rfl rfl (by simp) (by simp [Task.pending, facts]) (by simp [Task.event])
    | feesCollected d =>
      exact .of_same ht rfl rfl rfl (by simp [advance]) (by simp [Task.pending, facts])
        (by simp [Task.event])
  | storeState d fee => exact advance_storeState hset ht hk
  | storeSwap d fee => exact advance_storeSwap hset hids ht hk

/-! ### Whole deliveries -/

/-- What was handed out so far holds, or a job in progress has still to see to it. -/
structure Progress (events : List Event) (handedOut : Event → Prop) (s : Workers) : Prop where
  known : ∀ e, handedOut e → e ∈ events
  sane : Sane events s.db
  fits : ∀ k ∈ s.active, k.Fits events s.db
  facts : ∀ e, handedOut e → ∀ f ∈ facts e, Holds s.db f ∨ ∃ k ∈ s.active, f ∈ k.pending
  swaps : ∀ d, handedOut (.swapProcessed d) → Updates d →
    s.db.swaps d.eventId = some (swapRow d (knownFee d)) ∨
      ∃ k ∈ s.active, k.event = .swapProcessed d

theorem Task.Fits.mono {k : Task} (hk : k.Fits events t)
    (hpools : ∀ p, (t.pools p).isSome → (t'.pools p).isSome) : k.Fits events t' := by
  cases k with
  | write e => exact hk
  | project e => exact hk
  | storeState d fee => exact hk
  | storeSwap d fee =>
    obtain ⟨hd, ⟨hu, hfee, hp⟩ | hinvalid⟩ := hk
    · exact ⟨hd, .inl ⟨hu, hfee, hpools _ hp⟩⟩
    · exact ⟨hd, .inr hinvalid⟩

theorem facts_eq_nil {e : Event} (h : guardEmptyData e ≠ true) : facts e = [] := by
  cases e <;> simp_all [facts, Updates]

theorem Progress.deliver {handedOut : Event → Prop} {s : Workers}
    (h : Progress events handedOut s) {e : Event} (he : e ∈ events) :
    Progress events (fun e' => handedOut e' ∨ e' = e) { s with active := start e ++ s.active } := by
  refine ⟨?_, h.sane, ?_, ?_, ?_⟩
  · rintro e' (he' | rfl)
    · exact h.known e' he'
    · exact he
  · intro k hk
    rcases List.mem_append.mp hk with hk | hk
    · simp only [start] at hk
      split at hk
      case isTrue hguard =>
        obtain rfl := List.mem_singleton.mp hk
        exact ⟨he, hguard⟩
      case isFalse => cases hk
    · exact h.fits k hk
  · rintro e' (he' | rfl) f hf
    · rcases h.facts e' he' f hf with hold | ⟨k, hk, hfk⟩
      · exact .inl hold
      · exact .inr ⟨k, List.mem_append_right _ hk, hfk⟩
    · by_cases hguard : guardEmptyData e' = true
      · exact .inr ⟨.write e', by simp [start, hguard], hf⟩
      · simp [facts_eq_nil hguard] at hf
  · rintro d (hd | rfl) hu
    · rcases h.swaps d hd hu with hrow | ⟨k, hk, hkd⟩
      · exact .inl hrow
      · exact .inr ⟨k, List.mem_append_right _ hk, hkd⟩
    · exact .inr ⟨.write (.swapProcessed d), by simp [start, hu.1], rfl⟩

theorem Progress.advance (hset : Settled feeOf events) (hids : (events.map Event.eventId).Nodup)
    (hzero : ∀ a, feeOf a 0 = "0") {handedOut : Event → Prop} {db : Tables}
    {before after : List Task} {k : Task}
    (h : Progress events handedOut ⟨db, before ++ k :: after⟩) :
    Progress events handedOut
      ⟨(advance feeOf db k).1, before ++ (advance feeOf db k).2 ++ after⟩ := by
  have hk : k.Fits events db := h.fits k (by simp)
  have hadv := advance_spec hset hids hzero h.sane hk
  set db' := (Indexer.advance feeOf db k).1
  set next := (Indexer.advance feeOf db k).2
  -- a job other than `k` is still in progress, one of `next` is now
  have hother : ∀ k' ∈ before ++ k :: after, k' ≠ k → k' ∈ before ++ next ++ after := by
    intro k' hk' hne
    simp only [List.mem_append, List.mem_cons] at hk' ⊢
    tauto
  have hnext : ∀ k' ∈ next, k' ∈ before ++ next ++ after := by
    intro k' hk'
    simp only [List.mem_append]
    exact .inl (.inr hk')
  refine ⟨h.known, hadv.sane, ?_, ?_, ?_⟩
  · intro k' hk'
    simp only [List.mem_append] at hk'
    rcases hk' with (hk' | hk') | hk'
    · exact (h.fits k' (by simp [hk'])).mono hadv.pools
    · exact (hadv.fits k' hk').1
    · exact (h.fits k' (by simp [hk'])).mono hadv.pools
  · intro e he f hf
    rcases h.facts e he f hf with hold | ⟨k', hk', hfk⟩
    · exact .inl (hadv.keeps f ⟨e, h.known e he, hf⟩ hold)
    · by_cases hkk : k' = k
      · subst hkk
        rcases hadv.facts f hfk with hold | ⟨k'', hk'', hfk⟩
        · exact .inl hold
        · exact .inr ⟨k'', hnext k'' hk'', hfk⟩
      · exact .inr ⟨k', hother k' hk' hkk, hfk⟩
  · intro d hd hu
    rcases h.swaps d hd hu with hrow | ⟨k', hk', hkd⟩
    · exact .inl (hadv.swaps _ _ hrow)
    · by_cases hkk : k' = k
      · subst hkk
        rcases hadv.stored d hkd hu with hrow | hne
        · exact .inl hrow
        · obtain ⟨k'', hk''⟩ := List.exists_mem_of_ne_nil _ hne
          exact .inr ⟨k'', hnext k'' hk'', (hadv.fits k'' hk'').2.trans hkd⟩
      · exact .inr ⟨k', hother k' hk' hkk, hkd⟩

/-- **The invariant over a whole delivery.** -/
theorem Progress.run (hset : Settled feeOf events) (hids : (events.map Event.eventId).Nodup)
    (hzero : ∀ a, feeOf a 0 = "0") {s s' : Workers} {ls : List (Option Event)}
    (hr : Trace (Step feeOf) s ls s') {handedOut : Event → Prop}
    (h : Progress events handedOut s) (hls : ∀ e, some e ∈ ls → e ∈ events) :
    Progress events (fun e => handedOut e ∨ some e ∈ ls) s' := by
  induction hr generalizing handedOut with
  | nil s => simpa using h
  | @cons _ _ _ _ ls hs hr ih =>
    cases hs with
    | deliver s e =>
      have h' := ih (h.deliver (hls e (by simp))) fun e' he' => hls e' (by simp [he'])
      have heq : (fun e' => handedOut e' ∨ some e' ∈ some e :: ls)
          = fun e' => (handedOut e' ∨ e' = e) ∨ some e' ∈ ls := by
        funext e'
        simp only [List.mem_cons, Option.some.injEq, or_assoc]
      rw [heq]
      exact h'
    | advance db before after k =>
      have h' := ih (h.advance hset hids hzero) fun e' he' => hls e' (by simp [he'])
      simpa using h'

/-- Where a delivery ends, every stated fact holds and every swap is stored. -/
theorem Delivery.progress (hset : Settled feeOf events) (hids : (events.map Event.eventId).Nodup)
    (hzero : ∀ a, feeOf a 0 = "0") (h : Delivery feeOf events t) :
    Sane events t ∧ (∀ f, Stated events f → Holds t f) ∧
      ∀ d, .swapProcessed d ∈ events → Updates d →
        t.swaps d.eventId = some (swapRow d (knownFee d)) := by
  obtain ⟨ls, hr, hls⟩ := h
  have hstart : Progress events (fun _ => False) ⟨.empty, []⟩ :=
    ⟨by simp, .empty, by simp, by simp, by simp⟩
  have hend := Progress.run hset hids hzero hr hstart fun e he => (hls e).mp he
  refine ⟨hend.sane, ?_, ?_⟩
  · rintro f ⟨e, he, hf⟩
    simpa using hend.facts e (.inr ((hls e).mpr he)) f hf
  · intro d hd hu
    simpa using hend.swaps d (.inr ((hls _).mpr hd)) hu

/-- One way of the rows of two deliveries being the same. -/
theorem pools_eq_of_sane (ht : Sane events t) (hfacts : ∀ f, Stated events f → Holds t f)
    (ht' : Sane events t') (hfacts' : ∀ f, Stated events f → Holds t' f) :
    t.pools = t'.pools := by
  have hstated : ∀ {u : Tables}, (∀ f, Stated events f → Holds u f) → ∀ {p r},
      u.pools p = some r → ∀ f, Stated events f → f.poolId = p → r.Says f := by
    rintro u hu p r hr f hf rfl
    obtain ⟨r', hr', hstated⟩ := hu f hf
    rw [hr] at hr'
    obtain rfl := Option.some.inj hr'
    exact hstated
  funext p
  cases hr : t.pools p with
  | some r =>
    obtain ⟨r', hr', -⟩ := hfacts' _ (ht.pools p r hr).price
    change t'.pools p = some r' at hr'
    rw [hr', (ht.pools p r hr).eq (ht'.pools p r' hr') (hstated hfacts hr) (hstated hfacts' hr')]
  | none =>
    cases hr' : t'.pools p with
    | none => rfl
    | some r' =>
      obtain ⟨r, hr₀, -⟩ := hfacts _ (ht'.pools p r' hr').price
      change t.pools p = some r at hr₀
      rw [hr] at hr₀
      cases hr₀

/-- **Any two deliveries of settled events leave the same rows.** -/
theorem converges_of_settled (hset : Settled feeOf events)
    (hids : (events.map Event.eventId).Nodup) (hzero : ∀ a, feeOf a 0 = "0") :
    Converges feeOf events := by
  intro t t' h h'
  obtain ⟨ht, hfacts, hswaps⟩ := h.progress hset hids hzero
  obtain ⟨ht', hfacts', hswaps'⟩ := h'.progress hset hids hzero
  refine ⟨pools_eq_of_sane ht hfacts ht' hfacts', ?_, fun k => ?_⟩
  · have hext : ∀ {u u' : Tables}, Sane events u →
        (∀ d, .swapProcessed d ∈ events → Updates d →
          u'.swaps d.eventId = some (swapRow d (knownFee d))) → Extends u.swaps u'.swaps := by
      intro u u' hu hu' id r hr
      obtain ⟨d, hd, hup, rfl, rfl⟩ := hu.swaps id r hr
      exact hu' d hd hup
    exact (hext ht hswaps').antisymm (hext ht' hswaps)
  · rw [ht.positions, ht'.positions]

end Swyft.Indexer
