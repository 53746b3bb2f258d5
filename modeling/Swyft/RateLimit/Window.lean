import Swyft.RateLimit.Model
import Swyft.Lib.SlidingWindow

/-!
# Windows

A rule lets so many requests through in a window. The window of the counter is fixed: it begins with
a request and the next one begins after it. The documentation speaks of a sliding window, which may
lie across the end of one counter and the beginning of the next, and hold requests of both.

A request is let through by a rule if it is among the first of its counter, up to the limit. It is
taken to happen when it is counted.

## Main results

* `slides_iff` — every window is within the limit, wherever it begins, exactly if no request is let
  through by a new counter while too many of the counters before are still recent
-/

namespace Swyft.RateLimit

open Interleaving SlidingWindow

/-! ### Requests of a scope -/

/-- A request that was counted: when, by which counter and as which of its requests. -/
structure Count where
  time : ℕ
  number : ℕ
  total : ℕ
  deriving DecidableEq

def Seen.countOf (scope : Scope) : Seen → Option Count
  | .counted scope' time number total => if scope' = scope then some ⟨time, number, total⟩ else none
  | .evaluated _ _ => none

/-- The requests that were counted in a scope. -/
def counts (scope : Scope) (log : List Seen) : List Count := log.filterMap (Seen.countOf scope)

/-- When those of some requests happened that a limit lets through. -/
def admitted (limit : ℕ) (cs : List Count) : List ℕ :=
  (cs.filter (·.total ≤ limit)).map Count.time

/-- The window of a rule in milliseconds. -/
def RateLimitRule.width (rule : RateLimitRule) : ℕ := 1000 * rule.windowSeconds

/-- In no scope does a window of its rule hold more requests let through than the limit. -/
def TrueWindow (env : Env) (log : List Seen) : Prop :=
  ∀ scope, Slides (scope.rule env).width (scope.rule env).limit
    (admitted (scope.rule env).limit (counts scope log))

/-- The request is over the limit of its counter, or it is within the limit even if those of the
counters before are added that are still recent. -/
def Spaced (env : Env) (r : Redis) (log : List Seen) (scope : Scope) : Prop :=
  let limit := (scope.rule env).limit
  let c := r.incremented scope.key
  let before := (counts scope log).filter (·.number < c.number)
  limit < c.count ∨
    (recent (scope.rule env).width r.now (admitted limit before)).length + c.count ≤ limit

instance (env : Env) (r : Redis) (log : List Seen) (scope : Scope) :
    Decidable (Spaced env r log scope) := inferInstanceAs (Decidable (_ ∨ _))

/-- Every request that is counted is spaced from those before. -/
def SpacedNext (env : Env) (P : Pool Redis Hit Seen) : Act Fate Occurrence → Prop
  | .step i fate => ∀ h ∈ P.running[i]?, h.stage = .incr → fate ≠ .refused →
    Spaced env P.shared P.log h.scope
  | .outside _ => True

instance (env : Env) (P : Pool Redis Hit Seen) : DecidablePred (SpacedNext env P)
  | .step i fate => inferInstanceAs (Decidable (∀ h ∈ P.running[i]?, h.stage = .incr →
      fate ≠ .refused → Spaced env P.shared P.log h.scope))
  | .outside _ => instDecidableTrue

/-! ### What is counted -/

variable {env : Env} {r r' : Redis} {h : Hit} {fate : Fate} {ps : List Hit} {seen log : List Seen}
  {scope : Scope} {limit : ℕ} {cs cs' : List Count}

theorem counts_append (scope : Scope) (log seen : List Seen) :
    counts scope (log ++ seen) = counts scope log ++ counts scope seen := List.filterMap_append

theorem admitted_append (limit : ℕ) (cs cs' : List Count) :
    admitted limit (cs ++ cs') = admitted limit cs ++ admitted limit cs' := by
  rw [admitted, List.filter_append, List.map_append]
  rfl

/-- Requests within the limit are let through. -/
theorem admitted_of_le (h : ∀ x ∈ cs, x.total ≤ limit) : admitted limit cs = cs.map Count.time := by
  rw [admitted, List.filter_eq_self.mpr fun x hx => decide_eq_true (h x hx)]

theorem mem_admitted {t : ℕ} (h : t ∈ admitted limit cs) : ∃ x ∈ cs, x.time = t := by
  obtain ⟨x, hx, rfl⟩ := List.mem_map.mp h
  exact ⟨x, List.mem_of_mem_filter hx, rfl⟩

/-- What came earlier was let through earlier. -/
theorem le_of_mem_admitted {cs' : List Count} {t t' : ℕ}
    (h : (cs ++ cs').Pairwise (·.time ≤ ·.time)) (ht : t ∈ admitted limit cs)
    (ht' : t' ∈ admitted limit cs') : t ≤ t' := by
  obtain ⟨x, hx, rfl⟩ := mem_admitted ht
  obtain ⟨y, hy, rfl⟩ := mem_admitted ht'
  exact (List.pairwise_append.mp h).2.2 x hx y hy

/-- The requests whose counter came earlier, of those up to a counter. -/
theorem filter_earlier {number : ℕ} {earlier own : List Count}
    (hearlier : ∀ x ∈ earlier, x.number < number) (hown : ∀ x ∈ own, x.number = number) :
    (earlier ++ own).filter (·.number < number) = earlier := by
  have hnone : own.filter (·.number < number) = [] := by
    rw [List.filter_eq_nil_iff]
    intro x hx
    rw [hown x hx]
    simp
  rw [List.filter_append, hnone, List.append_nil]
  exact List.filter_eq_self.mpr fun x hx => decide_eq_true (hearlier x hx)

/-- Which counter a key has, and what it counts. -/
def Redis.standing (r : Redis) (key : String) : Option (ℕ × ℕ) :=
  (r.counters key).map fun c => (c.number, c.count)

/-- The requests of a scope, against its counter: those of earlier counters, and as many of its own
as it counts. -/
structure Tracked (scope : Scope) (r : Redis) (cs : List Count) : Prop where
  sorted : cs.Pairwise (·.time ≤ ·.time)
  past : ∀ x ∈ cs, x.time ≤ r.now
  absent : r.standing scope.key = none → cs = []
  counter : ∀ number count, r.standing scope.key = some (number, count) →
    ∃ earlier own, cs = earlier ++ own ∧ (∀ x ∈ earlier, x.number < number) ∧
      (∀ x ∈ own, x.number = number ∧ x.total ≤ count) ∧ own.length = count

/-- The same against the counter that comes of one more request. -/
theorem Tracked.split (h : Tracked scope r cs) :
    ∃ earlier own, cs = earlier ++ own ∧
      (∀ x ∈ earlier, x.number < (r.incremented scope.key).number) ∧
      (∀ x ∈ own, x.number = (r.incremented scope.key).number ∧
        x.total < (r.incremented scope.key).count) ∧
      own.length + 1 = (r.incremented scope.key).count := by
  cases hlive : r.live scope.key with
  | some c =>
    have hget : r.counters scope.key = some c := (Option.filter_eq_some_iff.mp hlive).1
    obtain ⟨earlier, own, heq, hearlier, hown, hlen⟩ := h.counter c.number c.count
      (by rw [Redis.standing, hget]; rfl)
    rw [Redis.incremented, hlive]
    refine ⟨earlier, own, heq, hearlier, fun x hx => ?_, congrArg (· + 1) hlen⟩
    exact ⟨(hown x hx).1, Nat.lt_succ_of_le (hown x hx).2⟩
  | none =>
    rw [Redis.incremented, hlive]
    refine ⟨cs, [], (List.append_nil cs).symm, fun x hx => ?_, fun x hx => ?_, rfl⟩
    · show x.number < r.nextNumber scope.key
      unfold Redis.nextNumber
      split
      · rename_i c hget
        obtain ⟨earlier, own, rfl, hearlier, hown, -⟩ := h.counter c.number c.count
          (by rw [Redis.standing, hget]; rfl)
        rcases List.mem_append.mp hx with hx | hx
        · exact Nat.lt_succ_of_lt (hearlier x hx)
        · exact Nat.lt_succ_of_le (Nat.le_of_eq (hown x hx).1)
      · rename_i hget
        rw [h.absent (by rw [Redis.standing, hget]; rfl)] at hx
        exact absurd hx List.not_mem_nil
    · exact absurd hx List.not_mem_nil

theorem standing_incr (r : Redis) (k key : String) :
    (r.incr k).standing key =
      if key = k then some ((r.incremented k).number, (r.incremented k).count)
      else r.standing key := by
  show Option.map _ (Function.update r.counters k (some (r.incremented k)) key) = _
  rw [Function.update_apply]
  split <;> rfl

theorem standing_expire (r : Redis) (k key : String) (seconds : ℕ) :
    (r.expire k seconds).standing key = r.standing key := by
  unfold Redis.expire
  split
  · rename_i c hlive
    show Option.map _ (Function.update r.counters k _ key) = _
    rw [Function.update_apply]
    split
    · rename_i hkey
      rw [hkey, Redis.standing, (Option.filter_eq_some_iff.mp hlive).1]
      rfl
    · rfl
  · rfl

/-- One more request in the scope. -/
theorem Tracked.incr (h : Tracked scope r cs) :
    Tracked scope (r.incr scope.key)
      (cs ++ [⟨r.now, (r.incremented scope.key).number, (r.incremented scope.key).count⟩]) where
  sorted := by
    rw [List.pairwise_append]
    refine ⟨h.sorted, List.pairwise_singleton .., fun x hx y hy => ?_⟩
    obtain rfl := List.mem_singleton.mp hy
    exact h.past x hx
  past x hx := by
    rcases List.mem_append.mp hx with hx | hx
    · exact h.past x hx
    · obtain rfl := List.mem_singleton.mp hx
      exact Nat.le_refl r.now
  absent hnone := by
    rw [standing_incr, if_pos rfl] at hnone
    cases hnone
  counter number count hstanding := by
    rw [standing_incr, if_pos rfl] at hstanding
    cases hstanding
    obtain ⟨earlier, own, rfl, hearlier, hown, hlen⟩ := h.split
    refine ⟨earlier, own ++ [_], List.append_assoc .., hearlier, fun x hx => ?_, ?_⟩
    · rcases List.mem_append.mp hx with hx | hx
      · exact ⟨(hown x hx).1, Nat.le_of_lt (hown x hx).2⟩
      · obtain rfl := List.mem_singleton.mp hx
        exact ⟨rfl, Nat.le_refl _⟩
    · rw [List.length_append, List.length_singleton, hlen]

/-- What leaves the counter of a scope as it is. -/
theorem Tracked.quiet (h : Tracked scope r cs) (hnow : r.now ≤ r'.now)
    (hstanding : r'.standing scope.key = r.standing scope.key) : Tracked scope r' cs where
  sorted := h.sorted
  past x hx := Nat.le_trans (h.past x hx) hnow
  absent hnone := h.absent (hstanding ▸ hnone)
  counter number count hsome := h.counter number count (hstanding ▸ hsome)

/-- **One more request keeps the window true** exactly if it is spaced. -/
theorem slides_incr_iff {width : ℕ} (limit : ℕ) (hwidth : 0 < width) (h : Tracked scope r cs) :
    Slides width limit (admitted limit
        (cs ++ [⟨r.now, (r.incremented scope.key).number, (r.incremented scope.key).count⟩])) ↔
      Slides width limit (admitted limit cs) ∧ (limit < (r.incremented scope.key).count ∨
        (recent width r.now (admitted limit
          (cs.filter (·.number < (r.incremented scope.key).number)))).length +
            (r.incremented scope.key).count ≤ limit) := by
  obtain ⟨earlier, own, rfl, hearlier, hown, hlen⟩ := h.split
  set c := r.incremented scope.key with hc
  by_cases hover : limit < c.count
  · have hnew : admitted limit [⟨r.now, c.number, c.count⟩] = [] := by
      rw [admitted, List.filter_cons_of_neg, List.filter_nil, List.map_nil]
      simpa using hover
    rw [admitted_append, hnew, List.append_nil]
    exact ⟨fun hslides => ⟨hslides, .inl hover⟩, And.left⟩
  · have hle : c.count ≤ limit := Nat.le_of_not_lt hover
    have hnew : admitted limit [⟨r.now, c.number, c.count⟩] = [r.now] :=
      admitted_of_le fun x hx => by
        obtain rfl := List.mem_singleton.mp hx
        exact hle
    have hpast : ∀ t ∈ admitted limit (earlier ++ own), t ≤ r.now := by
      intro t ht
      obtain ⟨x, hx, rfl⟩ := mem_admitted ht
      exact h.past x hx
    rw [admitted_append, hnew, slides_snoc hwidth hpast, or_iff_right hover]
    refine and_congr_right fun _ => ?_
    have hownAdmitted : (admitted limit own).length + 1 = c.count := by
      rw [admitted_of_le fun x hx => Nat.le_of_lt (Nat.lt_of_lt_of_le (hown x hx).2 hle),
        List.length_map, hlen]
    rw [filter_earlier hearlier fun x hx => (hown x hx).1, admitted_append, recent_append,
      List.length_append]
    -- Requests of earlier counters are recent only if all of this counter are.
    have hsorted : ∀ x ∈ admitted limit earlier, ∀ y ∈ admitted limit own, x ≤ y :=
      fun x hx y hy => le_of_mem_admitted h.sorted hx hy
    rcases recent_eq_nil_or width r.now hsorted with hnone | hall
    · have hfew : (recent width r.now (admitted limit own)).length ≤ (admitted limit own).length :=
        List.length_filter_le ..
      rw [hnone, List.length_nil]
      exact iff_of_true (by omega) (by omega)
    · rw [hall]
      omega

/-! ### Every run -/

/-- What a command does: it counts a request, or no counter counts any more. -/
theorem step_counts (hs : step env r h fate = some (r', ps, seen)) :
    (h.stage = .incr ∧ fate ≠ .refused ∧ r' = r.incr h.scope.key ∧
      seen = [.counted h.scope r.now (r.incremented h.scope.key).number
        (r.incremented h.scope.key).count]) ∨
    (¬ (h.stage = .incr ∧ fate ≠ .refused) ∧ r'.now = r.now ∧
      (∀ key, r'.standing key = r.standing key) ∧ ∀ scope, counts scope seen = []) := by
  obtain ⟨scope, stage⟩ := h
  cases stage with
  | incr =>
    cases fate with
    | refused =>
      cases hs
      exact .inr ⟨fun hincr => hincr.2 rfl, rfl, fun _ => rfl, fun _ => rfl⟩
    | answered | unheard =>
      cases hs
      exact .inl ⟨rfl, Fate.noConfusion, rfl, rfl⟩
  | expire total =>
    have hnow (seconds : ℕ) : (r.expire scope.key seconds).now = r.now := by
      unfold Redis.expire
      split <;> rfl
    cases fate with
    | refused =>
      cases hs
      exact .inr ⟨fun hincr => Stage.noConfusion hincr.1, rfl, fun _ => rfl, fun _ => rfl⟩
    | answered | unheard =>
      cases hs
      exact .inr ⟨fun hincr => Stage.noConfusion hincr.1, hnow _, fun key => standing_expire ..,
        fun _ => rfl⟩
  | ttl total =>
    cases fate <;> cases hs <;>
      exact .inr ⟨fun hincr => Stage.noConfusion hincr.1, rfl, fun _ => rfl, fun _ => rfl⟩

/-- Every scope is tracked. -/
def AllTracked (r : Redis) (log : List Seen) : Prop := ∀ scope, Tracked scope r (counts scope log)

theorem counts_counted (scope scope' : Scope) (time number total : ℕ) :
    counts scope [.counted scope' time number total] =
      if scope' = scope then [⟨time, number, total⟩] else [] := by
  by_cases hscope : scope' = scope <;> simp [counts, Seen.countOf, hscope]

theorem AllTracked.step (hI : AllTracked r log) (hs : step env r h fate = some (r', ps, seen)) :
    AllTracked r' (log ++ seen) := by
  intro scope
  rw [counts_append]
  rcases step_counts hs with ⟨-, -, rfl, rfl⟩ | ⟨-, hnow, hstanding, hseen⟩
  · rw [counts_counted]
    split
    · rename_i hscope
      subst hscope
      exact (hI h.scope).incr
    · rename_i hscope
      rw [List.append_nil]
      refine (hI scope).quiet (Nat.le_refl r.now) ?_
      rw [standing_incr, if_neg fun hkey => hscope (key_inj hkey).symm]
  · rw [hseen, List.append_nil]
    exact (hI scope).quiet (Nat.le_of_eq hnow.symm) (hstanding _)

theorem outside_counts {e : Occurrence} (hs : outside r e = some (r', ps, seen)) :
    r.now ≤ r'.now ∧ (∀ key, r'.standing key = r.standing key) ∧ seen = [] := by
  cases e with
  | request req =>
    simp only [outside] at hs
    split at hs <;> cases hs <;> exact ⟨Nat.le_refl _, fun _ => rfl, rfl⟩
  | pass milliseconds =>
    cases hs
    exact ⟨Nat.le_add_right .., fun _ => rfl, rfl⟩

theorem AllTracked.outside {e : Occurrence} (hI : AllTracked r log)
    (hs : outside r e = some (r', ps, seen)) : AllTracked r' (log ++ seen) := by
  obtain ⟨hnow, hstanding, rfl⟩ := outside_counts hs
  rw [List.append_nil]
  intro scope
  exact (hI scope).quiet hnow (hstanding _)

/-- What was true before more is counted. -/
theorem TrueWindow.of_append (hwindow : TrueWindow env (log ++ seen)) : TrueWindow env log := by
  intro scope
  have hslides := hwindow scope
  rw [counts_append, admitted_append] at hslides
  exact hslides.of_append_left

/-- A command keeps the windows true exactly if the request it counts is spaced. -/
theorem trueWindow_step_iff (hI : AllTracked r log)
    (hs : step env r h fate = some (r', ps, seen)) :
    TrueWindow env (log ++ seen) ↔ TrueWindow env log ∧
      (h.stage = .incr → fate ≠ .refused → Spaced env r log h.scope) := by
  have hwidth : 0 < (h.scope.rule env).width := by
    show 0 < 1000 * 60
    omega
  rcases step_counts hs with ⟨hstage, hfate, rfl, rfl⟩ | ⟨hnot, -, -, hseen⟩
  · have hspaced := slides_incr_iff (h.scope.rule env).limit hwidth (hI h.scope)
    constructor
    · intro hwindow
      refine ⟨hwindow.of_append, fun _ _ => ?_⟩
      have hown := hwindow h.scope
      rw [counts_append, counts_counted, if_pos rfl] at hown
      exact (hspaced.mp hown).2
    · rintro ⟨hwindow, hnext⟩ scope
      rw [counts_append, counts_counted]
      split
      · rename_i hscope
        subst hscope
        exact hspaced.mpr ⟨hwindow h.scope, hnext hstage hfate⟩
      · rw [List.append_nil]
        exact hwindow scope
  · have hsame : TrueWindow env (log ++ seen) ↔ TrueWindow env log := by
      refine forall_congr' fun scope => ?_
      rw [counts_append, hseen, List.append_nil]
    rw [hsame]
    exact (and_iff_left fun hstage hfate => absurd ⟨hstage, hfate⟩ hnot).symm

/-- **The window slides**, in a run, exactly if every request that is counted is over the limit of
its counter or spaced from those of the counters before. -/
theorem slides_iff {acts : List (Act Fate Occurrence)} {P : Pool Redis Hit Seen}
    (h : (rules env).run ⟨.start, [], []⟩ acts = some P) :
    TrueWindow env P.log ↔ Along (rules env).exec (SpacedNext env) ⟨.start, [], []⟩ acts := by
  refine Rules.well_iff_along (I := fun P => AllTracked P.shared P.log ∧ TrueWindow env P.log)
    (W := fun P => TrueWindow env P.log) ?_ ?_ ?_ ?_ ?_ h ?_
  · rintro r before h after log fate r' ps seen ⟨hI, hwindow⟩ hC hs
    exact ⟨hI.step hs, (trueWindow_step_iff hI hs).mpr ⟨hwindow, forall_at_iff.mp hC⟩⟩
  · rintro r running log e r' ps seen ⟨hI, hwindow⟩ - hs
    refine ⟨hI.outside hs, ?_⟩
    obtain ⟨-, -, rfl⟩ := outside_counts hs
    rwa [List.append_nil]
  · rintro P ⟨-, hwindow⟩
    exact hwindow
  · rintro ⟨r, running, log⟩ a P' seen ⟨hI, -⟩ hexec hwindow
    rcases exec_cases hexec with ⟨before, h, after, fate, r', ps, rfl, hrun, hs, rfl⟩ |
      ⟨e, r', ps, rfl, hs, rfl⟩
    · obtain rfl : running = before ++ h :: after := hrun
      exact forall_at_iff.mpr ((trueWindow_step_iff hI hs).mp hwindow).2
    · trivial
  · intro P a P' seen hexec hwindow
    rw [log_exec hexec] at hwindow
    exact hwindow.of_append
  · refine ⟨fun scope => ⟨.nil, ?_, fun _ => rfl, fun number count hsome => ?_⟩, fun scope => ?_⟩
    · intro x hx
      exact absurd hx List.not_mem_nil
    · cases hsome
    · exact slides_nil

/-! ### Two counters in one window -/

/-- Public requests are limited to two a minute. -/
def twoEach : Env := fun name => if name = "RATE_LIMIT_PER_MINUTE" then some "2" else none

/-- A request, one more shortly before its counter is over, and one after. -/
def straddling : List (Act Fate Occurrence) :=
  .outside (.request getPools) :: List.replicate 3 (.step 0 .answered) ++
    .outside (.pass 59000) ::
    .outside (.request getPools) :: List.replicate 2 (.step 0 .answered) ++
    .outside (.pass 1001) ::
    .outside (.request getPools) :: List.replicate 3 (.step 0 .answered)

theorem slides_iff_straddling :
    ∃ P, (rules twoEach).run ⟨.start, [], []⟩ straddling = some P ∧ TrueWindow twoEach P.log := by
  have hsome : ((rules twoEach).run ⟨.start, [], []⟩ straddling).isSome := by decide +kernel
  obtain ⟨P, hP⟩ := Option.isSome_iff_exists.mp hsome
  exact ⟨P, hP, (slides_iff hP).mpr (by decide +kernel)⟩

/-- With another request the last two and the one before them lie within a minute. -/
theorem not_slides_straddling :
    ¬ ∀ (env : Env) (acts : List (Act Fate Occurrence)) (P : Pool Redis Hit Seen),
      (∀ i fate, .step i fate ∈ acts → fate = .answered) →
        (rules env).run ⟨.start, [], []⟩ acts = some P → TrueWindow env P.log := by
  intro h
  have hthree : ((rules twoEach).run ⟨.start, [], []⟩ (straddling ++
      .outside (.request getPools) :: List.replicate 2 (.step 0 .answered))).map (fun P =>
        (within 60000 59000 (admitted 2 (counts ⟨false, .global, "192.0.2.1", .global⟩
          P.log))).length) = some 3 := by
    decide +kernel
  obtain ⟨P, hP, hlength⟩ := Option.map_eq_some_iff.mp hthree
  have hanswered (i : ℕ) (fate : Fate) (hmem : (.step i fate : Act Fate Occurrence) ∈ straddling ++
      .outside (.request getPools) :: List.replicate 2 (.step 0 .answered)) : fate = .answered := by
    have hstep : i = 0 ∧ fate = .answered := by simpa [straddling] using hmem
    exact hstep.2
  have hwindow := h twoEach _ P hanswered hP ⟨false, .global, "192.0.2.1", .global⟩ 59000
  have hlimit : (rule twoEach false .global).limit = 2 := by decide +kernel
  rw [Scope.rule, hlimit] at hwindow
  exact absurd (hlength ▸ hwindow) (by decide)

end Swyft.RateLimit
