import Swyft.Indexer.Convergence

/-!
# Events that interfere are delivered two ways

The workers may take events one at a time, in any order and again at the end. That is enough to
tell events apart that do not agree: the last one to speak of a pool's row decides it, a fee is
derived from whatever the row says at that time, and what needs a pool that is not there yet is
lost.

## Main definitions

* `process`, `processAll` — one event, and a list of events, with no other job in progress

## Main results

* `delivery_of_list` — a list that holds every event is a delivery
* `settled_of_converges` — events whose deliveries agree are settled
* `converges_iff_settled` — the exact condition
-/

namespace Swyft.Indexer

open PartialMap

variable {feeOf : String → ℤ → String} {events : List Event} {t t' : Tables}

/-! ### One event at a time -/

/-- What the handler of an accepted event does when nothing runs beside it, after the raw event
is stored. -/
def projectEvent (feeOf : String → ℤ → String) (t : Tables) : Event → Tables
  | .poolCreated d => projectPoolCreated t d
  | .swapProcessed d =>
    let feeAmount := resolveFeeAmount feeOf t d
    match isValidSqrtPrice d.sqrtPriceX96 with
    | none => t
    | some false => upsertSwap t d feeAmount
    | some true => upsertSwap (upsertPoolState t d) d feeAmount
  | .positionMinted d => upsertPosition t d false
  | .positionBurned d => upsertPosition t d (d.liquidity = "0")
  | .feesCollected _ => t

/-- What a handler does when nothing runs beside it. -/
def process (feeOf : String → ℤ → String) (t : Tables) (e : Event) : Tables :=
  if guardEmptyData e then projectEvent feeOf (t.storeEvent e) e else t

/-- Events handled one after the other. -/
def processAll (feeOf : String → ℤ → String) (t : Tables) (l : List Event) : Tables :=
  l.foldl (process feeOf) t

theorem step_advance (feeOf : String → ℤ → String) (t : Tables) (k : Task) :
    Step feeOf ⟨t, [k]⟩ none ⟨(advance feeOf t k).1, (advance feeOf t k).2⟩ := by
  have hstep : Step feeOf ⟨t, [] ++ k :: []⟩ none _ := .advance t [] [] k
  simpa using hstep

/-- The accesses of a handler, one after the other. -/
theorem trace_projectEvent (feeOf : String → ℤ → String) (t : Tables) (e : Event) :
    ∃ n, Trace (Step feeOf) ⟨t, [.project e]⟩ (List.replicate n none)
      ⟨projectEvent feeOf t e, []⟩ := by
  have hfirst := step_advance feeOf t (.project e)
  cases e with
  | poolCreated d => exact ⟨1, .single hfirst⟩
  | positionMinted d => exact ⟨1, .single hfirst⟩
  | positionBurned d => exact ⟨1, .single hfirst⟩
  | feesCollected d => exact ⟨1, .single hfirst⟩
  | swapProcessed d =>
    cases hprice : isValidSqrtPrice d.sqrtPriceX96 with
    | none =>
      simp only [advance, projectEvent, hprice] at hfirst ⊢
      exact ⟨1, .single hfirst⟩
    | some valid =>
      cases valid with
      | false =>
        simp only [advance, projectEvent, hprice] at hfirst ⊢
        exact ⟨2, .cons hfirst (.single (step_advance _ _ _))⟩
      | true =>
        simp only [advance, projectEvent, hprice] at hfirst ⊢
        exact ⟨3, .cons hfirst (.cons (step_advance _ _ _) (.single (step_advance _ _ _)))⟩

theorem trace_process (feeOf : String → ℤ → String) (t : Tables) (e : Event) :
    ∃ n, Trace (Step feeOf) ⟨t, []⟩ (some e :: List.replicate n none)
      ⟨process feeOf t e, []⟩ := by
  have hfirst : Step feeOf ⟨t, []⟩ (some e) _ := .deliver ⟨t, []⟩ e
  by_cases hguard : guardEmptyData e = true
  · obtain ⟨n, hrest⟩ := trace_projectEvent feeOf (t.storeEvent e) e
    simp only [start, if_pos hguard, List.append_nil] at hfirst
    refine ⟨n + 1, .cons hfirst (.cons (step_advance feeOf t (.write e)) ?_)⟩
    simp only [process, if_pos hguard]
    exact hrest
  · simp only [start, if_neg hguard, List.append_nil] at hfirst
    refine ⟨0, ?_⟩
    simp only [process, if_neg hguard]
    exact .single hfirst

theorem trace_processAll (feeOf : String → ℤ → String) (t : Tables) (l : List Event) :
    ∃ ls, Trace (Step feeOf) ⟨t, []⟩ ls ⟨processAll feeOf t l, []⟩ ∧ ∀ e, some e ∈ ls ↔ e ∈ l := by
  induction l generalizing t with
  | nil => exact ⟨[], .nil _, by simp⟩
  | cons e l ih =>
    obtain ⟨n, hfirst⟩ := trace_process feeOf t e
    obtain ⟨ls, hrest, hls⟩ := ih (process feeOf t e)
    refine ⟨_, hfirst.append hrest, fun e' => ?_⟩
    simp [hls, List.mem_replicate]

/-- **A list that holds exactly the events is a delivery of them.** -/
theorem delivery_of_list {l : List Event} (h : ∀ e, e ∈ l ↔ e ∈ events) :
    Delivery feeOf events (processAll feeOf .empty l) := by
  obtain ⟨ls, hr, hls⟩ := trace_processAll feeOf .empty l
  exact ⟨ls, hr, fun e => (hls e).trans (h e)⟩

/-! ### What one event does -/

theorem upsertSwap_extends (t : Tables) (d : SwapProcessedJobData) (fee : String) :
    Extends t.swaps (upsertSwap t d fee).swaps := by
  simp only [upsertSwap]
  split
  · exact .refl _
  · exact .refl _
  case h_3 h _ => exact extends_update h _

/-- An event's facts hold once it has been handled. -/
theorem process_holds {e : Event} {f : Fact} (hf : f ∈ facts e) : Holds (process feeOf t e) f := by
  cases e with
  | poolCreated d =>
    simp only [facts] at hf
    split at hf
    case isTrue hguard =>
      simp only [process, if_pos hguard, projectEvent]
      exact projectPoolCreated_holds (.inl hf)
    case isFalse => cases hf
  | swapProcessed d =>
    simp only [facts] at hf
    split at hf
    case isTrue hu =>
      simp only [process, if_pos hu.1, projectEvent, hu.2]
      simpa only [Holds, upsertSwap_same] using upsertPoolState_holds (.inl hf)
    case isFalse => cases hf
  | positionMinted d => cases hf
  | positionBurned d => cases hf
  | feesCollected d => cases hf

/-- No event removes a pool or changes the row of a swap. -/
structure Grown (t t' : Tables) : Prop where
  pools : ∀ p, (t.pools p).isSome → (t'.pools p).isSome
  swaps : Extends t.swaps t'.swaps

theorem Grown.refl (t : Tables) : Grown t t := ⟨fun _ h => h, .refl _⟩

theorem Grown.trans {t'' : Tables} (h : Grown t t') (h' : Grown t' t'') : Grown t t'' :=
  ⟨fun p hp => h'.pools p (h.pools p hp), h.swaps.trans h'.swaps⟩

theorem isSome_update {κ ν : Type} [DecidableEq κ] {m : κ → Option ν} {k k' : κ} {v : ν}
    (h : (m k').isSome) : (Function.update m k (some v) k').isSome := by
  by_cases hk : k' = k
  · subst hk; simp
  · simpa [hk] using h

theorem grown_projectEvent (t : Tables) (e : Event) : Grown t (projectEvent feeOf t e) := by
  have hswap : ∀ (u : Tables) (d : SwapProcessedJobData) (fee : String),
      Grown u (upsertSwap u d fee) := fun u d fee =>
    ⟨fun p hp => by rwa [(upsertSwap_same u d fee).1], upsertSwap_extends u d fee⟩
  have hposition : ∀ (d : PositionJobData) (closes : Bool), Grown t (upsertPosition t d closes) := by
    intro d closes
    obtain ⟨hpools, hswaps, -⟩ := upsertPosition_same t d closes
    exact ⟨fun p hp => by rwa [hpools], by rw [hswaps]; exact .refl _⟩
  cases e with
  | poolCreated d =>
    simp only [projectEvent, projectPoolCreated]
    split
    · exact .refl t
    · exact ⟨fun p hp => isSome_update hp, .refl _⟩
  | swapProcessed d =>
    simp only [projectEvent]
    split
    · exact .refl t
    · exact hswap _ _ _
    · have hstate : Grown t (upsertPoolState t d) := ⟨fun p hp => isSome_update hp, .refl _⟩
      exact hstate.trans (hswap _ _ _)
  | positionMinted d => exact hposition d _
  | positionBurned d => exact hposition d _
  | feesCollected d => exact .refl t

theorem grown_process (t : Tables) (e : Event) : Grown t (process feeOf t e) := by
  by_cases hguard : guardEmptyData e = true
  · obtain ⟨hpools, hswaps, -⟩ := storeEvent_same t e
    have hstore : Grown t (t.storeEvent e) :=
      ⟨fun p hp => by rwa [hpools], by rw [hswaps]; exact .refl _⟩
    simp only [process, if_pos hguard]
    exact hstore.trans (grown_projectEvent _ _)
  · simp only [process, if_neg hguard]
    exact .refl t

theorem grown_processAll (t : Tables) (l : List Event) : Grown t (processAll feeOf t l) := by
  induction l generalizing t with
  | nil => exact .refl t
  | cons e l ih => exact (grown_process t e).trans (ih _)

/-- The fee a swap without one is stored with, when it is handled for the first time. -/
theorem process_swap {d : SwapProcessedJobData} (hu : Updates d) (hfee : d.feeAmount = none)
    (hnew : t.swaps d.eventId = none) :
    (process feeOf t (.swapProcessed d)).swaps d.eventId
      = some (swapRow d (derivedFee feeOf t d)) := by
  obtain ⟨hpools, hswaps, -⟩ := storeEvent_same t (.swapProcessed d)
  simp [process, hu.1, projectEvent, hu.2, resolveFeeAmount, hfee, upsertSwap, upsertPoolState,
    derivedFee, hpools, hswaps, hnew]

/-! ### Events that wait for a pool -/

/-- The row of an event that needs a pool. -/
def HasRow (t : Tables) : Event → Prop
  | .swapProcessed d => (t.swaps d.eventId).isSome
  | .positionMinted d | .positionBurned d => (t.positions (d.poolId, d.tokenId)).isSome
  | _ => False

/-- The tables without a pool, a swap or a position. -/
def Blank (t : Tables) : Prop :=
  t.pools = Tables.empty.pools ∧ t.swaps = Tables.empty.swaps ∧
    t.positions = Tables.empty.positions

theorem Blank.not_hasRow (ht : Blank t) {e : Event} : ¬ HasRow t e := by
  obtain ⟨-, hswaps, hpositions⟩ := ht
  cases e <;> simp [HasRow, hswaps, hpositions, Tables.empty]

theorem needsPool_cases {e : Event} {p : String} (h : p ∈ needsPool e) :
    guardEmptyData e = true ∧
      ((∃ d, e = .swapProcessed d ∧ isValidSqrtPrice d.sqrtPriceX96 = some false ∧ d.poolId = p) ∨
        ∃ d, (e = .positionMinted d ∨ e = .positionBurned d) ∧ d.poolId = p) := by
  simp only [needsPool] at h
  split at h
  case isFalse => cases h
  case isTrue hguard =>
    refine ⟨hguard, ?_⟩
    cases e with
    | swapProcessed d =>
      simp only at h
      split at h
      case isTrue hprice => exact .inl ⟨d, rfl, hprice, by simpa using h⟩
      case isFalse => cases h
    | positionMinted d => exact .inr ⟨d, .inl rfl, by simpa using h⟩
    | positionBurned d => exact .inr ⟨d, .inr rfl, by simpa using h⟩
    | poolCreated d => cases h
    | feesCollected d => cases h

/-- An event that needs a pool is lost while there is none. -/
theorem Blank.process (ht : Blank t) {e : Event} {p : String} (h : p ∈ needsPool e) :
    Blank (process feeOf t e) := by
  obtain ⟨hguard, hcases⟩ := needsPool_cases h
  obtain ⟨hp, hs, hq⟩ := storeEvent_same t e
  have hpools : (t.storeEvent e).pools = fun _ => none := hp.trans ht.1
  have hswaps : (t.storeEvent e).swaps = fun _ => none := hs.trans ht.2.1
  have hpositions : (t.storeEvent e).positions = fun _ => none := hq.trans ht.2.2
  rw [Indexer.process, if_pos hguard]
  have hsame : projectEvent feeOf (t.storeEvent e) e = t.storeEvent e := by
    rcases hcases with ⟨d, rfl, hprice, -⟩ | ⟨d, rfl | rfl, -⟩
    · simp [projectEvent, hprice, upsertSwap, hpools, hswaps]
    · simp [projectEvent, upsertPosition, hpools, hpositions]
    · simp [projectEvent, upsertPosition, hpools, hpositions]
  rw [hsame]
  exact ⟨hpools, hswaps, hpositions⟩

theorem Blank.processAll (ht : Blank t) {l : List Event} {p : String}
    (hl : ∀ e ∈ l, p ∈ needsPool e) : Blank (processAll feeOf t l) := by
  induction l generalizing t with
  | nil => exact ht
  | cons e l ih =>
    exact ih (ht.process (hl e (by simp))) fun e' he' => hl e' (by simp [he'])

/-- An event that needs a pool is stored once the pool is there. -/
theorem process_hasRow {e : Event} {p : String} (h : p ∈ needsPool e)
    (hpool : (t.pools p).isSome) : HasRow (process feeOf t e) e := by
  obtain ⟨hguard, hcases⟩ := needsPool_cases h
  obtain ⟨hp, -, -⟩ := storeEvent_same t e
  rw [← hp] at hpool
  obtain ⟨r, hr⟩ := Option.isSome_iff_exists.mp hpool
  rw [process, if_pos hguard]
  rcases hcases with ⟨d, rfl, hprice, rfl⟩ | ⟨d, rfl | rfl, rfl⟩
  · simp only [projectEvent, hprice, HasRow, upsertSwap, hr]
    split <;> simp_all
  · simp only [projectEvent, HasRow, upsertPosition, hr]
    split <;> simp_all
  · simp only [projectEvent, HasRow, upsertPosition, hr]
    split <;> simp_all

theorem projectEvent_swaps {e : Event} {id : String}
    (h : ∀ d, e = .swapProcessed d → d.eventId ≠ id) :
    (projectEvent feeOf t e).swaps id = t.swaps id := by
  cases e with
  | poolCreated d =>
    simp only [projectEvent, projectPoolCreated]
    split <;> rfl
  | swapProcessed d =>
    simp only [projectEvent]
    split
    · rfl
    · exact upsertSwap_of_ne (h d rfl) _
    · exact upsertSwap_of_ne (h d rfl) _
  | positionMinted d | positionBurned d => exact congrFun (upsertPosition_same t d _).2.1 id
  | feesCollected d => rfl

theorem projectEvent_positions {e : Event} {k : String × String}
    (h : ∀ d, e = .positionMinted d ∨ e = .positionBurned d → (d.poolId, d.tokenId) ≠ k) :
    (projectEvent feeOf t e).positions k = t.positions k := by
  cases e with
  | poolCreated d =>
    simp only [projectEvent, projectPoolCreated]
    split <;> rfl
  | swapProcessed d =>
    simp only [projectEvent]
    split
    · rfl
    · rw [(upsertSwap_same _ _ _).2.1]
    · rw [(upsertSwap_same _ _ _).2.1]; rfl
  | positionMinted d => exact upsertPosition_of_ne (h d (.inl rfl)) _
  | positionBurned d => exact upsertPosition_of_ne (h d (.inr rfl)) _
  | feesCollected d => rfl

/-- The row of an event that needs a pool is stored by an event that needs the same pool. -/
theorem process_hasRow_other (hids : (events.map Event.eventId).Nodup) {e e' : Event}
    {p : String} (he : e ∈ events) (he' : e' ∈ events) (h : p ∈ needsPool e)
    (h' : p ∉ needsPool e') (hrow : HasRow (process feeOf t e') e) : HasRow t e := by
  obtain ⟨hguard, hcases⟩ := needsPool_cases h
  by_cases hguard' : guardEmptyData e' = true
  · obtain ⟨-, hs, hq⟩ := storeEvent_same t e'
    rw [process, if_pos hguard'] at hrow
    have hswaps : ∀ d, e = .swapProcessed d → ∀ d', e' = .swapProcessed d' →
        d'.eventId ≠ d.eventId := by
      rintro d rfl d' rfl hid
      rw [swap_eq_of_eventId hids he' he hid] at h'
      exact h' h
    have hpositions : ∀ d : PositionJobData, d.poolId = p →
        ∀ d', e' = .positionMinted d' ∨ e' = .positionBurned d' →
        (d'.poolId, d'.tokenId) ≠ (d.poolId, d.tokenId) := by
      rintro d rfl d' hd' hkey
      refine h' ?_
      rcases hd' with rfl | rfl <;> simp [needsPool, hguard', (Prod.mk.inj hkey).1]
    rcases hcases with ⟨d, rfl, -, -⟩ | ⟨d, rfl | rfl, hp⟩
    · simpa only [HasRow, projectEvent_swaps (hswaps d rfl), hs] using hrow
    · simpa only [HasRow, projectEvent_positions (hpositions d hp), hq] using hrow
    · simpa only [HasRow, projectEvent_positions (hpositions d hp), hq] using hrow
  · rwa [process, if_neg hguard'] at hrow

theorem processAll_hasRow_other (hids : (events.map Event.eventId).Nodup) {e : Event}
    {p : String} (he : e ∈ events) (h : p ∈ needsPool e) {l : List Event}
    (hl : ∀ e' ∈ l, e' ∈ events ∧ p ∉ needsPool e') (hrow : HasRow (processAll feeOf t l) e) :
    HasRow t e := by
  induction l generalizing t with
  | nil => exact hrow
  | cons e' l ih =>
    obtain ⟨he', h'⟩ := hl e' (by simp)
    exact process_hasRow_other hids he he' h h' (ih (fun e'' he'' => hl e'' (by simp [he''])) hrow)

/-- The rows of two databases that are the same are there in both. -/
theorem SameRows.hasRow (h : SameRows t t') {e : Event} (hrow : HasRow t e) : HasRow t' e := by
  obtain ⟨-, hswaps, hpositions⟩ := h
  have hposition : ∀ k, (t.positions k).isSome → (t'.positions k).isSome := by
    intro k hk
    have := congrArg Option.isSome (hpositions k)
    simpa [hk] using this.symm
  cases e with
  | poolCreated d => exact hrow
  | swapProcessed d => simpa only [HasRow, hswaps] using hrow
  | positionMinted d => exact hposition _ hrow
  | positionBurned d => exact hposition _ hrow
  | feesCollected d => exact hrow

/-! ### Two deliveries -/

theorem processAll_append (t : Tables) (l l' : List Event) :
    processAll feeOf t (l ++ l') = processAll feeOf (processAll feeOf t l) l' :=
  List.foldl_append

/-- All events, and one of them again at the end. -/
theorem delivery_again {e : Event} (he : e ∈ events) :
    Delivery feeOf events (process feeOf (processAll feeOf .empty events) e) := by
  have h : Delivery feeOf events (processAll feeOf .empty (events ++ [e])) :=
    delivery_of_list fun e' => by
      simp only [List.mem_append, List.mem_singleton, or_iff_left_iff_imp]
      rintro rfl
      exact he
  rwa [processAll_append] at h

/-- Some events first, then all of them. -/
theorem delivery_early {l : List Event} (hl : ∀ e ∈ l, e ∈ events) :
    Delivery feeOf events (processAll feeOf (processAll feeOf .empty l) events) := by
  have h : Delivery feeOf events (processAll feeOf .empty (l ++ events)) :=
    delivery_of_list fun e' => by
      simp only [List.mem_append, or_iff_right_iff_imp]
      exact hl e'
  rwa [processAll_append] at h

/-- A pool that some event states a fact about is there in the end. -/
theorem processAll_pool (t : Tables) {l : List Event} {e : Event} (he : e ∈ l) {f : Fact}
    (hf : f ∈ facts e) : ((processAll feeOf t l).pools f.poolId).isSome := by
  obtain ⟨l₁, l₂, rfl⟩ := List.append_of_mem he
  obtain ⟨r, hr, -⟩ : Holds (process feeOf (processAll feeOf t l₁) e) f := process_holds hf
  rw [processAll_append]
  exact (grown_processAll _ l₂).pools _ (by rw [hr]; rfl)

/-- Of two facts that contradict each other, the last one stated holds. -/
theorem Converges.agree (h : Converges feeOf events) {e e' : Event} (he : e ∈ events)
    (he' : e' ∈ events) {f g : Fact} (hf : f ∈ facts e) (hg : g ∈ facts e') : f.Agrees g := by
  by_cases hp : f.poolId = g.poolId
  · exact Holds.agrees (h _ _ (delivery_again he) (delivery_again he')).1 hp (process_holds hf)
      (process_holds hg)
  · exact Fact.agrees_of_poolId_ne hp

/-- A swap handled first derives no fee; handled after its pool, it derives one. -/
theorem Converges.fees (h : Converges feeOf events) {e e' : Event} (he : e ∈ events)
    (he' : e' ∈ events) {s : String × String} (hs : s ∈ derivesFee e) {f : Fact}
    (hf : f ∈ facts e') : FeeSettled feeOf s f := by
  cases f with
  | price _ _ => trivial
  | state _ _ _ => trivial
  | tokens p a b fee =>
    rintro rfl
    cases e with
    | swapProcessed d =>
      simp only [derivesFee] at hs
      split at hs
      case isFalse => cases hs
      case isTrue hu =>
        obtain rfl : (d.poolId, d.amount0) = s := by simpa using hs
        obtain ⟨hu, hfee⟩ := hu
        -- first the swap alone
        have hd₁ : Delivery feeOf events
            (processAll feeOf (process feeOf .empty (.swapProcessed d)) events) :=
          delivery_early (l := [.swapProcessed d]) (by simpa using he)
        have hfirst : (process feeOf .empty (.swapProcessed d)).swaps d.eventId
            = some (swapRow d "0") := process_swap hu hfee rfl
        -- then the swap after its pool
        have hd₂ : Delivery feeOf events
            (processAll feeOf (process feeOf (process feeOf .empty e') (.swapProcessed d)) events) :=
          delivery_early (l := [e', .swapProcessed d]) (by simp [he, he'])
        obtain ⟨r, hr, -, -, hrfee⟩ : Holds (process feeOf .empty e') (.tokens d.poolId a b fee) :=
          process_holds hf
        have hnoSwap : (process feeOf .empty e').swaps d.eventId = none := by
          cases e' with
          | poolCreated d' =>
            simp only [process]
            split
            · rw [projectEvent_swaps (by simp), (storeEvent_same _ _).2.1]; rfl
            · rfl
          | swapProcessed d' =>
            simp only [facts] at hf
            split at hf <;> simp [stateFacts] at hf
          | positionMinted d' => cases hf
          | positionBurned d' => cases hf
          | feesCollected d' => cases hf
        have hsecond : (process feeOf (process feeOf .empty e') (.swapProcessed d)).swaps d.eventId
            = some (swapRow d (feeOf d.amount0 fee)) := by
          rw [process_swap hu hfee hnoSwap, derivedFee]
          change (process feeOf .empty e').pools d.poolId = some r at hr
          rw [hr, ← hrfee]
        have hrows := congrFun (h _ _ hd₁ hd₂).2.1 d.eventId
        rw [(grown_processAll _ events).swaps _ _ hfirst,
          (grown_processAll _ events).swaps _ _ hsecond] at hrows
        exact (congrArg SwapRow.feeAmount (Option.some.inj hrows)).symm
    | poolCreated d => cases hs
    | positionMinted d => cases hs
    | positionBurned d => cases hs
    | feesCollected d => cases hs

/-- An event that comes before the pool it needs is lost; after it, it is stored. -/
theorem Converges.apart (h : Converges feeOf events) (hids : (events.map Event.eventId).Nodup)
    {e e' : Event} (he : e ∈ events) (he' : e' ∈ events) {p : String} (hp : p ∈ needsPool e)
    {f : Fact} (hf : f ∈ facts e') : f.poolId ≠ p := by
  rintro rfl
  set early := events.filter fun e => f.poolId ∈ needsPool e
  set late := events.filter fun e => ¬ f.poolId ∈ needsPool e
  have hearly : Delivery feeOf events
      (processAll feeOf (processAll feeOf .empty early) late) := by
    rw [← processAll_append]
    refine delivery_of_list fun e'' => ?_
    simp only [early, late, List.mem_append, List.mem_filter, decide_eq_true_eq]
    tauto
  have hblank : Blank (processAll feeOf .empty early) :=
    Blank.processAll ⟨rfl, rfl, rfl⟩ fun e'' he'' => by
      simpa using (List.mem_filter.mp he'').2
  have hpool : ((processAll feeOf .empty events).pools f.poolId).isSome :=
    processAll_pool _ he' hf
  have hlost : ¬ HasRow (processAll feeOf (processAll feeOf .empty early) late) e := by
    intro hrow
    refine hblank.not_hasRow (processAll_hasRow_other hids he hp (fun e'' he'' => ?_) hrow)
    obtain ⟨he'', hneeds⟩ := List.mem_filter.mp he''
    exact ⟨he'', by simpa using hneeds⟩
  exact hlost ((h _ _ (delivery_again he) hearly).hasRow (process_hasRow hp hpool))

/-- **Events whose deliveries agree are settled.** -/
theorem settled_of_converges (h : Converges feeOf events)
    (hids : (events.map Event.eventId).Nodup) : Settled feeOf events :=
  ⟨fun _ he _ he' _ hf _ hg => h.agree he he' hf hg, fun _ he _ he' _ hs _ hf => h.fees he he' hs hf,
    fun _ he _ he' _ hp _ hf => h.apart hids he he' hp hf⟩

/-- A fee in whole units, as the source computes it on amounts it divides evenly. -/
def sampleFee (amount0 : String) (feeTier : ℤ) : String :=
  match Js.bigInt amount0 with
  | some n => toString (n.natAbs * feeTier.toNat / 1000000)
  | none => "0"

theorem sampleFee_zero (amount0 : String) : sampleFee amount0 0 = "0" := by
  simp only [sampleFee, Int.toNat_zero, Nat.mul_zero, Nat.zero_div]
  split <;> rfl

def samplePool : Event :=
  .poolCreated ⟨"1-0", none, "P", "A", "B", "3000", "79228162514264337593543950336", none⟩

def sampleSwap (eventId sqrtPriceX96 : String) : Event :=
  .swapProcessed ⟨eventId, none, "P", "S", "S", "1000000", "-996000", sqrtPriceX96, "50000", 0,
    none, some "3000", none⟩

end Swyft.Indexer
