import Swyft.Lib.Interleaving
import Mathlib.Logic.Function.Basic

/-!
# One fetch at a time

`getOrFetch` of `apps/api/src/cache/cache.service.ts` reads through the cache. A call that misses
joins the fetch of its key that is under way, or else begins one and keeps its promise in
`inflight` until the fetch has ended.

A call is a process, and so is a fetch. Promises are numbered in the order in which they are made.
What the cache replies and what a fetcher does is told from outside.

The fetcher is called before the promise is kept. A fetcher that throws at once ends its fetch at
that moment, so the promise is kept after the fetch has removed it, and is never removed again.

## What is deliberately absent

What is stored in Redis, since any reply is possible. Logs.

## Main results

* `singleFlight_iff` — a key has one fetch at a time and no promise is left of it, exactly if no
  fetcher of the key has thrown before it returned a promise
-/

namespace Swyft.Cache

open Interleaving

/-- `CacheFetchOptions`. -/
structure CacheFetchOptions where
  ttlSeconds : Option ℕ
  correlationId : Option String
  failClosed : Bool
  deriving DecidableEq

inductive CacheErrorCode where
  | dependencyUnavailable | fetchFailed
  deriving DecidableEq

/-- What a call throws: an error of its own or that of its fetcher. -/
inductive Failure (ε : Type) where
  | cacheError (code : CacheErrorCode) (message : String) (correlationId : Option String)
  | thrown (error : ε)
  deriving DecidableEq

/-- What a promise is. -/
inductive Promise (ν ε : Type) where
  | pending
  | fulfilled (value : ν)
  | rejected (failure : Failure ε)
  deriving DecidableEq

/-- What a call or a fetch has still to do. -/
inductive Task (ν : Type) where
  /-- A call waits for `get`, which asks Redis if that was available. -/
  | asking (key : String) (options : CacheFetchOptions) (reachable : Bool)
  /-- A call waits for a promise. -/
  | waiting (key : String) (promise : ℕ)
  /-- A fetch waits for its fetcher. -/
  | fetching (key : String) (options : CacheFetchOptions) (promise : ℕ)
  /-- A fetch waits for `set`. -/
  | storing (key : String) (options : CacheFetchOptions) (promise : ℕ) (value : ν)
  deriving DecidableEq

/-- What a task is told. -/
inductive Answer (ν ε : Type) where
  /-- What Redis has, and what the fetcher throws at once if it is called. -/
  | cached (reply : Option ν) (throws : Option ε)
  | resolves (value : ν)
  | rejects (error : ε)
  | goOn
  deriving DecidableEq

inductive Occurrence where
  | getOrFetch (key : String) (options : CacheFetchOptions)
  | connection (available : Bool)
  deriving DecidableEq

/-- What is seen. -/
inductive Seen (ν ε : Type) where
  | called (key : String)
  /-- The fetcher has thrown before it returned a promise. -/
  | threw (key : String)
  | ended (key : String) (result : Promise ν ε)
  deriving DecidableEq

/-- The service. -/
structure Service (ν ε : Type) where
  available : Bool
  inflight : String → Option ℕ
  promises : ℕ → Promise ν ε
  /-- How many promises were made. -/
  made : ℕ

variable {ν ε : Type}

namespace Service

def start : Service ν ε := ⟨false, fun _ => none, fun _ => .pending, 0⟩

/-- The `catch` of a fetch. -/
def failure (key : String) (options : CacheFetchOptions) (error : ε) : Failure ε :=
  if options.failClosed then
    .cacheError .fetchFailed ("Upstream fetch failed for key=" ++ key) options.correlationId
  else .thrown error

/-- The end of a fetch: `finally`, and the promise is settled. -/
def finish (s : Service ν ε) (key : String) (promise : ℕ) (result : Promise ν ε) : Service ν ε :=
  { s with
    inflight := Function.update s.inflight key none
    promises := Function.update s.promises promise result }

/-- `inflight.set`. -/
def keep (s : Service ν ε) (key : String) (promise : ℕ) : Service ν ε :=
  { s with inflight := Function.update s.inflight key (some promise), made := s.made + 1 }

/-- The call begins a fetch, which runs up to its first `await` or, if the fetcher throws, to its
end, before the promise is kept. -/
def launch (s : Service ν ε) (key : String) (options : CacheFetchOptions) :
    Option ε → Service ν ε × List (Task ν) × List (Seen ν ε)
  | none => (s.keep key s.made, [.fetching key options s.made, .waiting key s.made], [.called key])
  | some error =>
    ((s.finish key s.made (.rejected (failure key options error))).keep key s.made,
      [.waiting key s.made], [.called key, .threw key])

/-- One step of a call or a fetch. -/
def step (s : Service ν ε) :
    Task ν → Answer ν ε → Option (Service ν ε × List (Task ν) × List (Seen ν ε))
  | .asking key options reachable, .cached reply throws =>
    match if reachable then reply else none with
    | some value => some (s, [], [.ended key (.fulfilled value)])
    | none =>
      match s.inflight key with
      | some promise => some (s, [.waiting key promise], [])
      | none => some (s.launch key options throws)
  | .fetching key options promise, .resolves value =>
    some (s, [.storing key options promise value], [])
  | .fetching key options promise, .rejects error =>
    some (s.finish key promise (.rejected (failure key options error)), [], [])
  | .storing key _ promise value, .goOn => some (s.finish key promise (.fulfilled value), [], [])
  | .waiting key promise, .goOn =>
    match s.promises promise with
    | .pending => none
    | result => some (s, [], [.ended key result])
  | _, _ => none

/-- A call begins, or the connection to Redis changes. -/
def outside (s : Service ν ε) :
    Occurrence → Option (Service ν ε × List (Task ν) × List (Seen ν ε))
  | .getOrFetch key options =>
    if options.failClosed && !s.available then
      some (s, [], [.ended key (.rejected (.cacheError .dependencyUnavailable
        ("Cache dependency unavailable for key=" ++ key) options.correlationId))])
    else some (s, [.asking key options s.available], [])
  | .connection available => some ({ s with available }, [], [])

/-- The rules of the service. -/
def rules : Rules (Service ν ε) (Task ν) (Answer ν ε) Occurrence (Seen ν ε) := ⟨step, outside⟩

end Service

/-! ### Fetches -/

/-- The promise of a fetch of a key. -/
def Task.fetchOf (key : String) : Task ν → Option ℕ
  | .fetching k _ promise | .storing k _ promise _ => if k = key then some promise else none
  | .asking _ _ _ | .waiting _ _ => none

/-- The fetches of a key that are under way. -/
def fetches (key : String) (running : List (Task ν)) : List ℕ :=
  running.filterMap (Task.fetchOf key)

/-- A key has at most one fetch under way. When it has none, no promise is kept for it and a call
that misses calls its fetcher. -/
def SingleFlight (P : Pool (Service ν ε) (Task ν) (Seen ν ε)) (key : String) : Prop :=
  (fetches key P.running).length ≤ 1 ∧
    (fetches key P.running = [] → P.shared.inflight key = none ∧
      ∀ options reachable throws, ∃ s ps seen,
        P.shared.step (.asking key options reachable) (.cached none throws) = some (s, ps, seen) ∧
          .called key ∈ seen)

variable {s s' : Service ν ε} {p : Task ν} {x : Answer ν ε} {ps : List (Task ν)}
  {seen log : List (Seen ν ε)} {key : String} {before after running : List (Task ν)}

theorem fetches_append (key : String) (before after : List (Task ν)) :
    fetches key (before ++ after) = fetches key before ++ fetches key after :=
  List.filterMap_append

/-- What a step does to a key. -/
inductive Effect (key : String) (s s' : Service ν ε) (old new : List ℕ) (seen : List (Seen ν ε)) :
    Prop where
  | none (hfetches : new = old) (hinflight : s'.inflight key = s.inflight key)
      (hseen : .threw key ∉ seen)
  | begins (n : ℕ) (hbefore : s.inflight key = none) (hold : old = []) (hnew : new = [n])
      (hinflight : s'.inflight key = some n) (hseen : .threw key ∉ seen)
  | ends (n : ℕ) (hold : old = [n]) (hnew : new = []) (hinflight : s'.inflight key = none)
      (hseen : .threw key ∉ seen)
  /-- A fetch ends as it begins. -/
  | throws (n : ℕ) (hbefore : s.inflight key = none) (hold : old = []) (hnew : new = [])
      (hinflight : s'.inflight key = some n) (hseen : .threw key ∈ seen)

theorem finish_effect (s : Service ν ε) (k : String) (n : ℕ) (result : Promise ν ε)
    (key : String) :
    Effect key s (s.finish k n result) (if k = key then [n] else []) [] [] := by
  by_cases hk : k = key
  · subst hk
    exact .ends n (if_pos rfl) rfl (Function.update_self ..) List.not_mem_nil
  · rw [if_neg hk]
    exact .none rfl (Function.update_of_ne (Ne.symm hk) ..) List.not_mem_nil

theorem launch_effect {k : String} (hbefore : s.inflight k = none) (options : CacheFetchOptions)
    (throws : Option ε) (key : String) :
    Effect key s (s.launch k options throws).1 []
      (fetches key (s.launch k options throws).2.1) (s.launch k options throws).2.2 := by
  by_cases hk : k = key
  · subst hk
    cases throws with
    | none =>
      refine .begins s.made hbefore rfl ?_ (Function.update_self ..) (by simp [Service.launch])
      simp [Service.launch, fetches, Task.fetchOf]
    | some error =>
      refine .throws s.made hbefore rfl ?_ (Function.update_self ..) (by simp [Service.launch])
      simp [Service.launch, fetches, Task.fetchOf]
  · cases throws with
    | none =>
      refine .none ?_ (Function.update_of_ne (Ne.symm hk) ..) (by simp [Service.launch])
      simp [Service.launch, fetches, Task.fetchOf, hk]
    | some error =>
      refine .none ?_ ?_ (by simp [Service.launch, Ne.symm hk])
      · simp [Service.launch, fetches, Task.fetchOf]
      · simp [Service.launch, Service.keep, Service.finish, Function.update_of_ne (Ne.symm hk)]

theorem step_effect (h : s.step p x = some (s', ps, seen)) (key : String) :
    Effect key s s' (fetches key [p]) (fetches key ps) seen := by
  cases p with
  | asking k options reachable =>
    cases x with
    | cached reply throws =>
      simp only [Service.step] at h
      split at h
      · cases h
        exact .none rfl rfl (by simp)
      · split at h
        · cases h
          exact .none rfl rfl List.not_mem_nil
        · rename_i hinflight
          have heffect := launch_effect hinflight options throws key
          rw [Option.some.inj h] at heffect
          exact heffect
    | _ => cases h
  | waiting k n =>
    cases x with
    | goOn =>
      simp only [Service.step] at h
      split at h
      · cases h
      · cases h
        exact .none rfl rfl (by simp)
    | _ => cases h
  | fetching k options n =>
    have hold : fetches key [(.fetching k options n : Task ν)] = if k = key then [n] else [] := by
      by_cases hk : k = key <;> simp [fetches, Task.fetchOf, hk]
    cases x with
    | resolves value =>
      cases h
      exact .none rfl rfl List.not_mem_nil
    | rejects error =>
      cases h
      rw [hold]
      exact finish_effect s k n _ key
    | _ => cases h
  | storing k options n value =>
    have hold : fetches key [.storing k options n value] = if k = key then [n] else [] := by
      by_cases hk : k = key <;> simp [fetches, Task.fetchOf, hk]
    cases x with
    | goOn =>
      cases h
      rw [hold]
      exact finish_effect s k n _ key
    | _ => cases h

theorem outside_effect {e : Occurrence} (h : s.outside e = some (s', ps, seen)) (key : String) :
    Effect key s s' [] (fetches key ps) seen := by
  cases e with
  | getOrFetch k options =>
    simp only [Service.outside] at h
    split at h
    · cases h
      exact .none rfl rfl (by simp)
    · cases h
      exact .none rfl rfl List.not_mem_nil
  | connection available =>
    cases h
    exact .none rfl rfl List.not_mem_nil

/-! ### Every run -/

/-- As long as no fetcher of a key has thrown at once, the promise kept for it is that of its
fetch. From then on a promise is kept and there is no fetch. -/
def Tracked (key : String) (P : Pool (Service ν ε) (Task ν) (Seen ν ε)) : Prop :=
  (.threw key ∉ P.log ∧ fetches key P.running = (P.shared.inflight key).toList) ∨
    (.threw key ∈ P.log ∧ fetches key P.running = [] ∧ P.shared.inflight key ≠ none)

/-- What an effect does among the other fetches of the key. -/
theorem Tracked.effect {old new : List ℕ} (pre post : List ℕ) {running' : List (Task ν)}
    (h : Tracked key ⟨s, running, log⟩) (hrun : fetches key running = pre ++ old ++ post)
    (hrun' : fetches key running' = pre ++ new ++ post)
    (heffect : Effect key s s' old new seen) : Tracked key ⟨s', running', log ++ seen⟩ := by
  have hmem (hseen : (.threw key : Seen ν ε) ∉ seen) :
      (.threw key : Seen ν ε) ∈ log ++ seen ↔ .threw key ∈ log :=
    List.mem_append.trans (or_iff_left hseen)
  cases heffect with
  | none hfetches hinflight hseen =>
    subst hfetches
    rw [Tracked, hmem hseen, hinflight, hrun', ← hrun]
    exact h
  | begins n hbefore hold hnew hinflight hseen =>
    rcases h with ⟨hlog, hfetches⟩ | ⟨-, -, hkept⟩
    · have hnone : pre ++ old ++ post = [] := by rw [← hrun, hfetches, hbefore]; rfl
      simp only [List.append_eq_nil_iff] at hnone
      refine .inl ⟨(hmem hseen).not.mpr hlog, ?_⟩
      rw [hrun', hnone.1.1, hnone.2, hnew, hinflight]
      rfl
    · exact absurd hbefore hkept
  | ends n hold hnew hinflight hseen =>
    rcases h with ⟨hlog, hfetches⟩ | ⟨-, hfetches, -⟩
    · have hlen : (pre ++ old ++ post).length ≤ 1 := by
        rw [← hrun, hfetches]
        cases s.inflight key <;> simp
      -- The fetch that ends is the only one.
      rw [hold, List.length_append, List.length_append, List.length_singleton] at hlen
      have hpre : pre = [] := List.length_eq_zero_iff.mp (by omega)
      have hpost : post = [] := List.length_eq_zero_iff.mp (by omega)
      refine .inl ⟨(hmem hseen).not.mpr hlog, ?_⟩
      rw [hrun', hpre, hpost, hnew, hinflight]
      rfl
    · rw [hrun, hold] at hfetches
      simp at hfetches
  | throws n hbefore hold hnew hinflight hseen =>
    rcases h with ⟨hlog, hfetches⟩ | ⟨-, -, hkept⟩
    · have hnone : pre ++ old ++ post = [] := by rw [← hrun, hfetches, hbefore]; rfl
      simp only [List.append_eq_nil_iff] at hnone
      refine .inr ⟨List.mem_append_right _ hseen, ?_, by simp [hinflight]⟩
      rw [hrun', hnone.1.1, hnone.2, hnew]
      rfl
    · exact absurd hbefore hkept

theorem tracked_start (key : String) :
    Tracked key (⟨.start, [], []⟩ : Pool (Service ν ε) (Task ν) (Seen ν ε)) :=
  .inl ⟨List.not_mem_nil, rfl⟩

theorem tracked_of_reaches {P : Pool (Service ν ε) (Task ν) (Seen ν ε)}
    (h : Reaches Service.rules (fun _ _ => True) ⟨.start, [], []⟩ P) (key : String) :
    Tracked key P := by
  refine h.invariant (I := Tracked key) ?_ ?_ (tracked_start key)
  · intro s before p after log x s' ps seen hI _ hs
    refine hI.effect (fetches key before) (fetches key after) ?_ ?_
      (step_effect hs key)
    · rw [← fetches_append, ← fetches_append, List.append_assoc, List.singleton_append]
    · rw [← fetches_append, ← fetches_append]
  · intro s running log e s' ps seen hI _ hs
    refine hI.effect [] (fetches key running) ?_ ?_ (outside_effect hs key)
    · rfl
    · rw [fetches_append, List.nil_append]

/-- A call that misses and finds no promise calls its fetcher. -/
theorem calls_of_inflight_eq_none (h : s.inflight key = none) (options : CacheFetchOptions)
    (reachable : Bool) (throws : Option ε) :
    ∃ s' ps seen, s.step (.asking key options reachable) (.cached none throws) =
      some (s', ps, seen) ∧ .called key ∈ seen := by
  rcases hlaunch : s.launch key options throws with ⟨s', ps, seen⟩
  refine ⟨s', ps, seen, ?_, ?_⟩
  · simp only [Service.step, ite_self, h, hlaunch]
  · cases throws <;> cases hlaunch <;> simp

/-- **A key has one fetch at a time, and no promise is left of it**, exactly if no fetcher of the
key has thrown before it returned a promise. -/
theorem singleFlight_iff {P : Pool (Service ν ε) (Task ν) (Seen ν ε)}
    (h : Reaches Service.rules (fun _ _ => True) ⟨.start, [], []⟩ P) (key : String) :
    SingleFlight P key ↔ .threw key ∉ P.log := by
  rcases tracked_of_reaches h key with ⟨hlog, hfetches⟩ | ⟨hlog, hfetches, hkept⟩
  · refine iff_of_true ⟨?_, fun hnone => ?_⟩ hlog
    · rw [hfetches]
      cases P.shared.inflight key <;> simp
    · rw [hfetches, Option.toList_eq_nil_iff] at hnone
      exact ⟨hnone, calls_of_inflight_eq_none hnone⟩
  · refine iff_of_false ?_ (not_not_intro hlog)
    rintro ⟨-, hidle⟩
    exact hkept (hidle hfetches).1

/-! ### A fetcher that throws at once -/

def plainOptions : CacheFetchOptions := ⟨none, none, false⟩

/-- A call that misses calls its fetcher, which then rejects. -/
def rejected : List (Act (Answer ℕ ℕ) Occurrence) :=
  [.outside (.getOrFetch "key" plainOptions), .step 0 (.cached none none),
    .step 0 (.rejects 0), .step 0 .goOn]

/-- A call that misses calls its fetcher, which throws. -/
def thrown : List (Act (Answer ℕ ℕ) Occurrence) :=
  [.outside (.getOrFetch "key" plainOptions), .step 0 (.cached none (some 0)), .step 0 .goOn]

theorem singleFlight_iff_rejected :
    ∃ P, (Service.rules : Rules (Service ℕ ℕ) _ _ _ _).run ⟨.start, [], []⟩ rejected = some P ∧
      SingleFlight P "key" := by
  have hrun : ((Service.rules : Rules (Service ℕ ℕ) _ _ _ _).run ⟨.start, [], []⟩ rejected).map
      (·.log) = some [.called "key", .ended "key" (.rejected (.thrown 0))] := rfl
  obtain ⟨P, hP, hlog⟩ := Option.map_eq_some_iff.mp hrun
  refine ⟨P, hP, (singleFlight_iff (reaches_of_run hP ?_) "key").mpr ?_⟩
  · exact along_of_forall (fun _ _ _ => trivial) _
  · rw [hlog]
    decide

/-- A promise is left where there is no fetch. -/
theorem not_singleFlight_thrown :
    ¬ ∀ (P : Pool (Service ℕ ℕ) (Task ℕ) (Seen ℕ ℕ)) (key : String),
      Reaches Service.rules (fun _ _ => True) ⟨.start, [], []⟩ P → SingleFlight P key := by
  intro h
  have hrun : ((Service.rules : Rules (Service ℕ ℕ) _ _ _ _).run ⟨.start, [], []⟩ thrown).map
      (fun P => (P.running, P.shared.inflight "key")) = some ([], some 0) := rfl
  obtain ⟨P, hP, hidle⟩ := Option.map_eq_some_iff.mp hrun
  obtain ⟨hrunning, hkept⟩ := Prod.mk.inj hidle
  obtain ⟨-, hnone⟩ := h P "key" (reaches_of_run hP (along_of_forall (fun _ _ _ => trivial) _))
  have hnone := (hnone (by rw [hrunning]; rfl)).1
  rw [hkept] at hnone
  cases hnone

end Swyft.Cache
