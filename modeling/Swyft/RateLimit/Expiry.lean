import Swyft.RateLimit.Model

/-!
# Counters that expire

A counter is given its time to live by the request that created it, with a command of its own. Where
that command is not carried out, because it fails or because the process stops before, no later
request makes up for it: the counter stays for ever, and once it is over its limit its caller is
refused for ever.

## Main results

* `expire_iff` — when no request is under way every counter has a time to live, exactly if no
  request that created one has left it without
-/

namespace Swyft.RateLimit

open Interleaving

/-! ### Counters without a time to live -/

/-- The key has a counter without a time to live. -/
def Redis.lasting (r : Redis) (key : String) : Bool :=
  (r.counters key).any fun c => c.expiresAt.isNone

/-- The hit is about to give the counter of the key its time to live. -/
def Hit.awaits (key : String) (h : Hit) : Bool :=
  match h.stage with
  | .expire _ => h.scope.key = key
  | _ => false

/-- The command that is about to run does not leave a counter without a time to live for good: the
`INCR` of a new counter is heard, and its `EXPIRE` is carried out. -/
def Provides (r : Redis) (h : Hit) (fate : Fate) : Prop :=
  match h.stage, fate with
  | .incr, .unheard => (r.live h.scope.key).isSome
  | .expire _, .refused => False
  | _, _ => True

instance (r : Redis) (h : Hit) (fate : Fate) : Decidable (Provides r h fate) := by
  unfold Provides
  split <;> infer_instance

/-- No step leaves a counter without a time to live for good. -/
def ProvidesNext (P : Pool Redis Hit Seen) : Act Fate Occurrence → Prop
  | .step i fate => ∀ h ∈ P.running[i]?, Provides P.shared h fate
  | .outside _ => True

instance (P : Pool Redis Hit Seen) : DecidablePred (ProvidesNext P)
  | .step i fate => inferInstanceAs (Decidable (∀ h ∈ P.running[i]?, Provides P.shared h fate))
  | .outside _ => instDecidableTrue

variable {env : Env} {r r' : Redis} {h : Hit} {fate : Fate} {ps running : List Hit}
  {seen log : List Seen} {key : String}

theorem live_of_lasting (hlasting : r.lasting key = true) : (r.live key).isSome := by
  rw [Redis.lasting, Option.any_eq_true] at hlasting
  obtain ⟨c, hc, hnone⟩ := hlasting
  rw [Redis.live, hc, Option.filter_some, if_pos]
  · rfl
  · rw [Option.isNone_iff_eq_none] at hnone
    simp [Redis.IsLive, hnone]

theorem lasting_of_live {c : Counter} (hlive : r.live key = some c) :
    r.lasting key = c.expiresAt.isNone := by
  rw [Redis.live, Option.filter_eq_some_iff] at hlive
  rw [Redis.lasting, hlive.1, Option.any_some]

theorem lasting_of_live_eq_none (hlive : r.live key = none) : r.lasting key = false := by
  rw [← Bool.not_eq_true]
  intro hlasting
  have hsome := live_of_lasting hlasting
  rw [hlive] at hsome
  cases hsome

/-! ### What a command does -/

/-- What a command does to a key: to whether its counter lasts, and to how many hits are about to
give it its time to live. -/
inductive Effect (key : String) (r r' : Redis) (old new : ℕ) (provides : Prop) : Prop where
  | same (hlasting : r'.lasting key = r.lasting key) (hcount : new = old)
  | creates (hbefore : r.lasting key = false) (hafter : r'.lasting key = true) (hold : old = 0)
      (hnew : new = 1)
  | abandons (hbefore : r.lasting key = false) (hafter : r'.lasting key = true) (hold : old = 0)
      (hnew : new = 0) (hprovides : ¬ provides)
  | expires (hafter : r'.lasting key = false) (hold : old = 1) (hnew : new = 0)
  | forgets (hlasting : r'.lasting key = r.lasting key) (hold : old = 1) (hnew : new = 0)
      (hprovides : ¬ provides)

/-- How many hits are about to give the counter of a key its time to live. -/
def awaiting (key : String) (running : List Hit) : ℕ := running.countP (Hit.awaits key)

theorem awaiting_append (key : String) (hits hits' : List Hit) :
    awaiting key (hits ++ hits') = awaiting key hits + awaiting key hits' := List.countP_append

theorem awaiting_ttl (key : String) (scope : Scope) (total : ℕ) :
    awaiting key [⟨scope, .ttl total⟩] = 0 := rfl

theorem awaiting_expire (key : String) (scope : Scope) (total : ℕ) :
    awaiting key [⟨scope, .expire total⟩] = if scope.key = key then 1 else 0 := by
  simp [awaiting, List.countP_singleton, Hit.awaits]

theorem lasting_incr (r : Redis) (k key : String) :
    (r.incr k).lasting key =
      if key = k then (r.incremented k).expiresAt.isNone else r.lasting key := by
  show Option.any _ (Function.update r.counters k (some (r.incremented k)) key) = _
  rw [Function.update_apply]
  split <;> rfl

theorem incr_effect (r : Redis) (scope : Scope) (hfate : fate ≠ .refused) (key : String) :
    Effect key r (r.incr scope.key) 0
      (awaiting key (afterIncr scope (r.incremented scope.key).count fate))
      (Provides r ⟨scope, .incr⟩ fate) := by
  have hlasting := lasting_incr r scope.key key
  by_cases hkey : key = scope.key
  · subst hkey
    rw [if_pos rfl] at hlasting
    cases hlive : r.live scope.key with
    | none =>
      have hnew : r.incremented scope.key = ⟨1, Nat.one_pos, none, r.nextNumber scope.key⟩ := by
        rw [Redis.incremented, hlive]
      rw [hnew] at hlasting ⊢
      have hbefore := lasting_of_live_eq_none hlive
      cases fate with
      | refused => exact absurd rfl hfate
      | answered => exact .creates hbefore hlasting rfl (by simp [afterIncr, awaiting_expire])
      | unheard => exact .abandons hbefore hlasting rfl rfl (by simp [Provides, hlive])
    | some c =>
      have hmore : r.incremented scope.key =
          { c with count := c.count + 1, pos := Nat.succ_pos c.count } := by
        rw [Redis.incremented, hlive]
      rw [hmore, ← lasting_of_live hlive] at hlasting
      refine .same hlasting ?_
      have hpos : c.count + 1 ≠ 1 := by
        have := c.pos
        omega
      cases fate with
      | refused => exact absurd rfl hfate
      | answered => rw [hmore, afterIncr, if_neg hpos, awaiting_ttl]
      | unheard => rfl
  · rw [if_neg hkey] at hlasting
    refine .same hlasting ?_
    cases fate with
    | refused => exact absurd rfl hfate
    | answered =>
      rw [afterIncr]
      split
      · rw [awaiting_expire, if_neg (Ne.symm hkey)]
      · rfl
    | unheard => rfl

theorem lasting_expire (r : Redis) (k key : String) (seconds : ℕ) :
    (r.expire k seconds).lasting key = if key = k then false else r.lasting key := by
  unfold Redis.expire
  split
  · rename_i c hlive
    show Option.any _ (Function.update r.counters k _ key) = _
    rw [Function.update_apply]
    split <;> rfl
  · rename_i hlive
    split
    · rename_i hkey
      exact hkey ▸ lasting_of_live_eq_none hlive
    · rfl

theorem step_effect (hs : step env r h fate = some (r', ps, seen)) (key : String) :
    Effect key r r' (awaiting key [h]) (awaiting key ps) (Provides r h fate) := by
  obtain ⟨scope, stage⟩ := h
  cases stage with
  | incr =>
    by_cases hfate : fate = .refused
    · subst hfate
      cases hs
      exact .same rfl rfl
    · have heffect := incr_effect r scope hfate key
      cases fate with
      | refused => exact absurd rfl hfate
      | answered | unheard =>
        cases hs
        exact heffect
  | expire total =>
    have hafter (fate : Fate) : awaiting key (afterExpire scope total fate) = 0 := by
      cases fate <;> rfl
    rw [awaiting_expire]
    split
    · rename_i hkey
      subst hkey
      cases fate with
      | refused =>
        cases hs
        exact .forgets rfl rfl rfl id
      | answered | unheard =>
        cases hs
        exact .expires (by rw [lasting_expire, if_pos rfl]) rfl (hafter _)
    · rename_i hkey
      cases fate with
      | refused =>
        cases hs
        exact .same rfl rfl
      | answered | unheard =>
        cases hs
        exact .same (by rw [lasting_expire, if_neg (Ne.symm hkey)]) (hafter _)
  | ttl total =>
    cases fate <;> cases hs <;> exact .same rfl rfl

theorem outside_same {e : Occurrence} (hs : outside r e = some (r', ps, seen)) (key : String) :
    r'.lasting key = r.lasting key ∧ awaiting key ps = 0 := by
  cases e with
  | request req =>
    simp only [outside] at hs
    split at hs
    · cases hs
      exact ⟨rfl, rfl⟩
    · cases hs
      refine ⟨rfl, List.countP_eq_zero.mpr fun h hmem => ?_⟩
      obtain ⟨scope, -, rfl⟩ := List.mem_map.mp hmem
      exact Bool.false_ne_true
  | pass milliseconds =>
    cases hs
    exact ⟨rfl, rfl⟩

/-! ### Every run -/

/-- A counter without a time to live has one hit that is about to give it one. -/
def Awaited (P : Pool Redis Hit Seen) : Prop :=
  ∀ key, awaiting key P.running = if P.shared.lasting key then 1 else 0

/-- No counter is left without a time to live. -/
def NoneLeft (P : Pool Redis Hit Seen) : Prop :=
  ∀ key, P.shared.lasting key = true → 0 < awaiting key P.running

theorem awaiting_middle (key : String) (before hits after : List Hit) :
    awaiting key (before ++ hits ++ after) =
      awaiting key before + awaiting key hits + awaiting key after := by
  rw [awaiting_append, awaiting_append]

theorem awaiting_cons (key : String) (before : List Hit) (h : Hit) (after : List Hit) :
    awaiting key (before ++ h :: after) =
      awaiting key before + awaiting key [h] + awaiting key after := by
  rw [← awaiting_middle, List.append_assoc, List.singleton_append]

/-- The hits that run are what is condition of a step. -/
theorem provides_of_providesNext {before after : List Hit}
    (hC : ProvidesNext ⟨r, before ++ h :: after, log⟩ (.step before.length fate)) :
    Provides r h fate :=
  (forall_at_iff (D := fun h => Provides r h fate)).mp hC

theorem Awaited.step {before after : List Hit} (hI : Awaited ⟨r, before ++ h :: after, log⟩)
    (hprovides : Provides r h fate) (hs : step env r h fate = some (r', ps, seen)) :
    Awaited ⟨r', before ++ ps ++ after, log ++ seen⟩ := by
  intro key
  have hkey := hI key
  rw [awaiting_cons] at hkey
  rw [awaiting_middle]
  cases step_effect hs key with
  | same hlasting hcount =>
    rw [hcount, hlasting]
    exact hkey
  | creates hbefore hafter hold hnew =>
    rw [hbefore, hold, if_neg Bool.false_ne_true] at hkey
    rw [hafter, hnew, if_pos rfl]
    omega
  | abandons _ _ _ _ hnot => exact absurd hprovides hnot
  | expires hafter hold hnew =>
    rw [hold] at hkey
    rw [hafter, hnew, if_neg Bool.false_ne_true]
    split at hkey <;> omega
  | forgets _ _ _ hnot => exact absurd hprovides hnot

/-- A step that does not provide leaves a counter without its time to live. -/
theorem provides_of_noneLeft {before after : List Hit}
    (hI : Awaited ⟨r, before ++ h :: after, log⟩) (hs : step env r h fate = some (r', ps, seen))
    (hend : NoneLeft ⟨r', before ++ ps ++ after, log ++ seen⟩) : Provides r h fate := by
  by_contra hnot
  obtain ⟨scope, stage⟩ := h
  have hkey := hI scope.key
  have hleft := hend scope.key
  rw [awaiting_cons] at hkey
  rw [awaiting_middle] at hleft
  cases stage with
  | incr =>
    cases fate with
    | unheard =>
      -- A new counter, and nobody knows of it.
      have hlive : r.live scope.key = none := Option.not_isSome_iff_eq_none.mp hnot
      cases hs
      rw [lasting_of_live_eq_none hlive, if_neg Bool.false_ne_true] at hkey
      have hnew : (r.incr scope.key).lasting scope.key = true := by
        rw [lasting_incr, if_pos rfl, Redis.incremented, hlive]
        rfl
      have hpos : 0 < awaiting scope.key before + 0 + awaiting scope.key after := hleft hnew
      omega
    | answered => exact hnot trivial
    | refused => exact hnot trivial
  | expire total =>
    cases fate with
    | refused =>
      -- The one hit that was to give the counter its time to live ends.
      cases hs
      rw [awaiting_expire, if_pos rfl] at hkey
      split at hkey
      · rename_i hlasting
        have hpos : 0 < awaiting scope.key before + 0 + awaiting scope.key after := hleft hlasting
        omega
      · omega
    | answered => exact hnot trivial
    | unheard => exact hnot trivial
  | ttl total => exact hnot (by cases fate <;> trivial)

/-- What is left without a time to live stays so. -/
theorem NoneLeft.of_step {before after : List Hit}
    (hend : NoneLeft ⟨r', before ++ ps ++ after, log ++ seen⟩)
    (hs : step env r h fate = some (r', ps, seen)) :
    NoneLeft ⟨r, before ++ h :: after, log⟩ := by
  intro key hlasting
  have hleft := hend key
  rw [awaiting_middle] at hleft
  rw [awaiting_cons]
  cases step_effect hs key with
  | same hsame hcount =>
    rw [← hcount]
    exact hleft (hsame.trans hlasting)
  | creates hbefore => exact absurd hlasting (Bool.not_eq_true _ ▸ hbefore)
  | abandons hbefore => exact absurd hlasting (Bool.not_eq_true _ ▸ hbefore)
  | expires _ hold =>
    rw [hold]
    omega
  | forgets _ hold =>
    rw [hold]
    omega

/-- With no hit under way, none is left exactly if every counter has a time to live. -/
theorem noneLeft_idle_iff {P : Pool Redis Hit Seen} (hidle : P.running = []) :
    NoneLeft P ↔ ∀ key c, P.shared.live key = some c → c.expiresAt.isSome := by
  constructor
  · intro hleft key c hlive
    by_contra hnone
    have hlasting : P.shared.lasting key = true := by
      rw [lasting_of_live hlive]
      simpa using hnone
    have hpos := hleft key hlasting
    rw [hidle] at hpos
    exact Nat.lt_irrefl 0 hpos
  · intro hall key hlasting
    obtain ⟨c, hlive⟩ := Option.isSome_iff_exists.mp (live_of_lasting hlasting)
    have hsome := hall key c hlive
    rw [lasting_of_live hlive, Option.isNone_iff_eq_none] at hlasting
    rw [hlasting] at hsome
    cases hsome

/-- **Every counter has a time to live** when no request is under way, in a run, exactly if no
request that created a counter has left it without. -/
theorem expire_iff {acts : List (Act Fate Occurrence)} {P : Pool Redis Hit Seen}
    (h : (rules env).run ⟨.start, [], []⟩ acts = some P) (hidle : P.running = []) :
    (∀ key c, P.shared.live key = some c → c.expiresAt.isSome) ↔
      Along (rules env).exec ProvidesNext ⟨.start, [], []⟩ acts := by
  rw [← noneLeft_idle_iff hidle]
  refine Rules.well_iff_along (I := Awaited) (W := NoneLeft) ?_ ?_ ?_ ?_ ?_ h ?_
  · intro r before h after log fate r' ps seen hI hC hs
    exact hI.step (provides_of_providesNext hC) hs
  · intro r running log e r' ps seen hI _ hs key
    obtain ⟨hlasting, hcount⟩ := outside_same hs key
    rw [awaiting_append, hcount, Nat.zero_add, hlasting]
    exact hI key
  · intro P hI key hlasting
    rw [hI key, if_pos hlasting]
    exact Nat.one_pos
  · rintro ⟨r, running, log⟩ a P' seen hI hexec hend
    rcases exec_cases hexec with ⟨before, h, after, fate, r', ps, rfl, hrun, hs, rfl⟩ |
      ⟨e, r', ps, rfl, hs, rfl⟩
    · obtain rfl : running = before ++ h :: after := hrun
      exact (forall_at_iff (D := fun h => Provides r h fate)).mpr (provides_of_noneLeft hI hs hend)
    · trivial
  · rintro ⟨r, running, log⟩ a P' seen hexec hend
    rcases exec_cases hexec with ⟨before, h, after, fate, r', ps, rfl, hrun, hs, rfl⟩ |
      ⟨e, r', ps, rfl, hs, rfl⟩
    · obtain rfl : running = before ++ h :: after := hrun
      exact NoneLeft.of_step hend hs
    · intro key hlasting
      obtain ⟨hsame, hcount⟩ := outside_same hs key
      have hpos := hend key (hsame.trans hlasting)
      rwa [awaiting_append, hcount, Nat.zero_add] at hpos
  · intro key
    rfl

/-! ### A counter that stays -/

/-- The request creates its counter and gives it a time to live. -/
theorem expire_iff_getPools :
    ∃ P, (rules fun _ => none).run ⟨.start, [], []⟩
        (.outside (.request getPools) :: List.replicate 3 (.step 0 .answered)) = some P ∧
      ∀ key c, P.shared.live key = some c → c.expiresAt.isSome := by
  have hidle : ((rules fun _ => none).run ⟨.start, [], []⟩
      (.outside (.request getPools) :: List.replicate 3 (.step 0 .answered))).map (·.running) =
        some [] := by
    decide +kernel
  obtain ⟨P, hP, hrunning⟩ := Option.map_eq_some_iff.mp hidle
  exact ⟨P, hP, (expire_iff hP hrunning).mpr (by decide +kernel)⟩

/-- `EXPIRE` fails, and the counter stays. -/
theorem not_expire_getPools :
    ¬ ∀ (env : Env) (acts : List (Act Fate Occurrence)) (P : Pool Redis Hit Seen),
      (rules env).run ⟨.start, [], []⟩ acts = some P → P.running = [] →
        ∀ key c, P.shared.live key = some c → c.expiresAt.isSome := by
  intro h
  have hidle : ((rules fun _ => none).run ⟨.start, [], []⟩
      [.outside (.request getPools), .step 0 .answered, .step 0 .refused]).map
        (fun P => (P.running, P.shared.live "rate-limit:global:192.0.2.1:global")) =
          some ([], some ⟨1, Nat.one_pos, none, 0⟩) := by
    decide +kernel
  obtain ⟨P, hP, hleft⟩ := Option.map_eq_some_iff.mp hidle
  obtain ⟨hrunning, hlive⟩ := Prod.mk.inj hleft
  exact absurd (h _ _ P hP hrunning _ _ hlive) (by decide)

end Swyft.RateLimit
