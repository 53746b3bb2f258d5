import Swyft.JsNumber
import Swyft.Lib.Interleaving

/-!
# The cached detail of a pool

`getPoolById` of `apps/api/src/pools/pools.controller.ts` answers from the cache, or reads the pool
and stores what it found, if it holds the lock of the key. `handlePoolStateUpdate` of
`apps/api/src/pools/pools.service.ts` writes the pool and then deletes what is cached, so that the
next read reflects it.

The calls for one pool are processes, and each command to the database and to the cache is one step.
Writes of the pool are numbered. A read is known by the last write before it, and so is what is
cached and what a call responds with.

## What is deliberately absent

What a response shows besides. The time to live of what is cached. Whether a pool is found and how
the lock is granted or released is told from outside.

## Main results

* `coherent_of_fresh` — after an update has returned, a call responds with a read made after its
  write, if no call stores a read that an update which has returned was written after
* `exists_stale_of_not_fresh` — otherwise the next call responds with that read
-/

namespace Swyft.Pools

open Interleaving

/-! ### Updates -/

/-- `PoolStatePatch`. -/
structure PoolStatePatch where
  currentPrice : Option String
  deriving DecidableEq

/-- Whether `upsertPoolState` writes a patch to a pool that is there. -/
def PoolStatePatch.isWritten (patch : PoolStatePatch) : Bool :=
  match patch.currentPrice with
  | none => false
  | some text =>
    match Js.parseFloat text with
    | .finite price => 0 ≤ price
    | _ => false

/-! ### Calls -/

/-- The pool and what is cached of it. -/
structure DetailStore where
  /-- How many writes there were. -/
  writes : ℕ
  /-- The last write before the read that is cached. -/
  cached : Option ℕ
  /-- The last write whose update has returned. -/
  returned : ℕ
  deriving DecidableEq

def DetailStore.start : DetailStore := ⟨0, none, 0⟩

/-- What a call has still to do. A call of `getPoolById` knows which update had returned before it,
which is no part of the program. -/
inductive DetailCall where
  /-- `get`. -/
  | checking (since : ℕ)
  /-- `acquireSingleflightLock`. -/
  | locking (since : ℕ)
  /-- `findPoolById`, first the pool and its swaps, then its tokens. -/
  | loading (since : ℕ) (lockAcquired : Bool)
  | joining (since : ℕ) (lockAcquired : Bool) (read : ℕ)
  /-- `set`. -/
  | caching (since : ℕ) (read : ℕ)
  /-- `waitForSingleflightLock`. -/
  | awaiting (since : ℕ)
  /-- `get` again. -/
  | rechecking (since : ℕ)
  /-- `releaseSingleflightLock`. -/
  | releasing (since : ℕ) (pool : Option ℕ)
  /-- `upsertPoolState`. -/
  | writing (patch : PoolStatePatch)
  /-- `del`, after the write if there was one. -/
  | deleting (write : Option ℕ)
  deriving DecidableEq

/-- A call of `getPoolById` responds, with a read or that there is no such pool. -/
structure DetailResponse where
  since : ℕ
  pool : Option ℕ
  deriving DecidableEq

inductive DetailOccurrence where
  | getPoolById
  | handlePoolStateUpdate (patch : PoolStatePatch)
  deriving DecidableEq

namespace DetailStore

/-- One step of a call, told whether the lock is granted or released and whether the pool is
there. -/
def step (s : DetailStore) :
    DetailCall → Bool → Option (DetailStore × List DetailCall × List DetailResponse)
  | .checking since, _ =>
    match s.cached with
    | some read => some (s, [], [⟨since, some read⟩])
    | none => some (s, [.locking since], [])
  | .locking since, lockAcquired =>
    if lockAcquired then some (s, [.loading since true], []) else some (s, [.awaiting since], [])
  | .loading since lockAcquired, found =>
    if found then some (s, [.joining since lockAcquired s.writes], [])
    else if lockAcquired then some (s, [.releasing since none], [])
    else some (s, [], [⟨since, none⟩])
  | .joining since lockAcquired read, _ =>
    if lockAcquired then some (s, [.caching since read], [])
    else some (s, [], [⟨since, some read⟩])
  | .caching since read, _ =>
    some ({ s with cached := some read }, [.releasing since (some read)], [])
  | .awaiting since, lockReleased =>
    if lockReleased then some (s, [.rechecking since], [])
    else some (s, [.loading since false], [])
  | .rechecking since, _ =>
    match s.cached with
    | some read => some (s, [], [⟨since, some read⟩])
    | none => some (s, [.loading since false], [])
  | .releasing since pool, _ => some (s, [], [⟨since, pool⟩])
  | .writing patch, found =>
    if patch.isWritten && found then
      some ({ s with writes := s.writes + 1 }, [.deleting (some (s.writes + 1))], [])
    else some (s, [.deleting none], [])
  | .deleting write, _ =>
    some ({ s with cached := none, returned := max s.returned (write.getD 0) }, [], [])

/-- A call begins. -/
def outside (s : DetailStore) :
    DetailOccurrence → Option (DetailStore × List DetailCall × List DetailResponse)
  | .getPoolById => some (s, [.checking s.returned], [])
  | .handlePoolStateUpdate patch => some (s, [.writing patch], [])

/-- The rules of the calls for one pool. -/
def rules : Rules DetailStore DetailCall Bool DetailOccurrence DetailResponse := ⟨step, outside⟩

end DetailStore

/-- Every call responds with a read made after the writes of all updates that had returned before
it. -/
def Coherent (log : List DetailResponse) : Prop :=
  ∀ x ∈ log, ∀ read ∈ x.pool, x.since ≤ read

instance : DecidablePred Coherent := fun log =>
  inferInstanceAs (Decidable (∀ x ∈ log, ∀ read ∈ x.pool, x.since ≤ read))

/-- What a call is about to store, if anything, was read after the writes of all updates that have
returned. -/
def DetailCall.StoresFresh (s : DetailStore) : DetailCall → Prop
  | .caching _ read => s.returned ≤ read
  | _ => True

instance (s : DetailStore) : DecidablePred (DetailCall.StoresFresh s) := fun p => by
  cases p <;> unfold DetailCall.StoresFresh <;> infer_instance

/-- No call stores a read that an update which has returned was written after. -/
def Fresh (P : Pool DetailStore DetailCall DetailResponse) : Act Bool DetailOccurrence → Prop
  | .step i _ => ∀ p ∈ P.running[i]?, p.StoresFresh P.shared
  | .outside _ => True

instance (P : Pool DetailStore DetailCall DetailResponse) : DecidablePred (Fresh P)
  | .step i _ => inferInstanceAs (Decidable (∀ p ∈ P.running[i]?, p.StoresFresh P.shared))
  | .outside _ => instDecidableTrue

/-! ### Every run -/

variable {s s' : DetailStore} {p : DetailCall} {x : Bool} {ps : List DetailCall}
  {seen log : List DetailResponse}

/-- What is cached and what a call holds is recent enough, and no update returns before its
write. -/
def DetailCall.Sound (s : DetailStore) : DetailCall → Prop
  | .checking since | .locking since | .loading since _ | .awaiting since | .rechecking since =>
    since ≤ s.returned
  | .joining since _ read | .caching since read => since ≤ read
  | .releasing since pool => ∀ read ∈ pool, since ≤ read
  | .writing _ => True
  | .deleting write => ∀ w ∈ write, w ≤ s.writes

structure SoundStore (s : DetailStore) : Prop where
  returned : s.returned ≤ s.writes
  cached : ∀ read ∈ s.cached, s.returned ≤ read

/-- What a call holds stays recent enough as more is written and returns. -/
theorem DetailCall.Sound.mono (h : p.Sound s) (hreturned : s.returned ≤ s'.returned)
    (hwrites : s.writes ≤ s'.writes) : p.Sound s' := by
  cases p with
  | checking since => exact Nat.le_trans h hreturned
  | locking since => exact Nat.le_trans h hreturned
  | loading since lockAcquired => exact Nat.le_trans h hreturned
  | awaiting since => exact Nat.le_trans h hreturned
  | rechecking since => exact Nat.le_trans h hreturned
  | joining since lockAcquired read => exact h
  | caching since read => exact h
  | releasing since pool => exact h
  | writing patch => trivial
  | deleting write => exact fun w hw => Nat.le_trans (h w hw) hwrites

theorem coherent_nil : Coherent [] := fun _ hx => absurd hx List.not_mem_nil

theorem coherent_singleton {since : ℕ} {pool : Option ℕ} (h : ∀ read ∈ pool, since ≤ read) :
    Coherent [⟨since, pool⟩] := by
  intro x hx
  obtain rfl := List.mem_singleton.mp hx
  exact h

/-- What one step does, if what it stores is fresh. -/
structure Keeps (s s' : DetailStore) (ps : List DetailCall) (seen : List DetailResponse) :
    Prop where
  store : SoundStore s'
  calls : ∀ q ∈ ps, q.Sound s'
  coherent : Coherent seen
  returned : s.returned ≤ s'.returned
  writes : s.writes ≤ s'.writes

/-- A call goes on with the store as it is. -/
theorem SoundStore.goesOn {q : DetailCall} (hs : SoundStore s) (hq : q.Sound s) :
    Keeps s s [q] [] where
  store := hs
  calls p hp := by
    obtain rfl := List.mem_singleton.mp hp
    exact hq
  coherent := coherent_nil
  returned := Nat.le_refl _
  writes := Nat.le_refl _

/-- A call responds with the store as it is. -/
theorem SoundStore.responds {since : ℕ} {pool : Option ℕ} (hs : SoundStore s)
    (h : ∀ read ∈ pool, since ≤ read) : Keeps s s [] [⟨since, pool⟩] where
  store := hs
  calls _ hp := absurd hp List.not_mem_nil
  coherent := coherent_singleton h
  returned := Nat.le_refl _
  writes := Nat.le_refl _

/-- A call finds what is cached. -/
theorem SoundStore.finds {since read : ℕ} (hs : SoundStore s) (hsince : since ≤ s.returned)
    (hcached : s.cached = some read) : Keeps s s [] [⟨since, some read⟩] := by
  refine hs.responds ?_
  rintro read' ⟨⟩
  exact Nat.le_trans hsince (hs.cached read hcached)

/-- A call stores a read that is fresh. -/
theorem SoundStore.stores {since read : ℕ} (hs : SoundStore s) (hsince : since ≤ read)
    (hfresh : s.returned ≤ read) :
    Keeps s { s with cached := some read } [.releasing since (some read)] [] := by
  refine ⟨⟨hs.returned, ?_⟩, ?_, coherent_nil, Nat.le_refl _, Nat.le_refl _⟩
  · rintro read' ⟨⟩
    exact hfresh
  · intro q hq
    obtain rfl := List.mem_singleton.mp hq
    rintro read' ⟨⟩
    exact hsince

/-- An update writes the pool. -/
theorem SoundStore.writes (hs : SoundStore s) :
    Keeps s { s with writes := s.writes + 1 } [.deleting (some (s.writes + 1))] [] := by
  refine ⟨⟨Nat.le_succ_of_le hs.returned, hs.cached⟩, ?_, coherent_nil, Nat.le_refl _,
    Nat.le_succ _⟩
  intro q hq
  obtain rfl := List.mem_singleton.mp hq
  rintro w ⟨⟩
  exact Nat.le_refl _

/-- An update deletes what is cached and returns. -/
theorem SoundStore.deletes {write : Option ℕ} (hs : SoundStore s)
    (hwrite : ∀ w ∈ write, w ≤ s.writes) :
    Keeps s { s with cached := none, returned := max s.returned (write.getD 0) } [] [] := by
  refine ⟨⟨Nat.max_le.mpr ⟨hs.returned, ?_⟩, ?_⟩, ?_, coherent_nil, Nat.le_max_left ..,
    Nat.le_refl _⟩
  · cases write with
    | none => exact Nat.zero_le _
    | some w => exact hwrite w rfl
  · rintro read ⟨⟩
  · intro q hq
    exact absurd hq List.not_mem_nil

theorem step_keeps (hs : SoundStore s) (hp : p.Sound s)
    (hfresh : p.StoresFresh s)
    (hstep : s.step p x = some (s', ps, seen)) : Keeps s s' ps seen := by
  have hnone (since : ℕ) : ∀ read ∈ (none : Option ℕ), since ≤ read := by
    rintro read ⟨⟩
  cases p with
  | checking since =>
    simp only [DetailStore.step] at hstep
    split at hstep
    · rename_i read hcached
      cases hstep
      exact hs.finds hp hcached
    · cases hstep
      exact hs.goesOn hp
  | locking since =>
    simp only [DetailStore.step] at hstep
    split at hstep <;> cases hstep <;> exact hs.goesOn hp
  | loading since lockAcquired =>
    simp only [DetailStore.step] at hstep
    split at hstep
    · cases hstep
      exact hs.goesOn (Nat.le_trans hp hs.returned)
    · split at hstep <;> cases hstep
      · exact hs.goesOn (hnone since)
      · exact hs.responds (hnone since)
  | joining since lockAcquired read =>
    simp only [DetailStore.step] at hstep
    split at hstep <;> cases hstep
    · exact hs.goesOn hp
    · refine hs.responds ?_
      rintro read' ⟨⟩
      exact hp
  | caching since read =>
    cases hstep
    exact hs.stores hp hfresh
  | awaiting since =>
    simp only [DetailStore.step] at hstep
    split at hstep <;> cases hstep <;> exact hs.goesOn hp
  | rechecking since =>
    simp only [DetailStore.step] at hstep
    split at hstep
    · rename_i read hcached
      cases hstep
      exact hs.finds hp hcached
    · cases hstep
      exact hs.goesOn hp
  | releasing since pool =>
    cases hstep
    exact hs.responds hp
  | writing patch =>
    simp only [DetailStore.step] at hstep
    split at hstep <;> cases hstep
    · exact hs.writes
    · refine hs.goesOn ?_
      rintro w ⟨⟩
  | deleting write =>
    cases hstep
    exact hs.deletes hp

theorem outside_keeps {e : DetailOccurrence} (hs : SoundStore s)
    (hout : s.outside e = some (s', ps, seen)) : Keeps s s' ps seen := by
  cases e with
  | getPoolById =>
    cases hout
    exact hs.goesOn (Nat.le_refl _)
  | handlePoolStateUpdate patch =>
    cases hout
    exact hs.goesOn trivial

/-- What every state of a run keeps. -/
structure SoundPool (P : Pool DetailStore DetailCall DetailResponse) : Prop where
  store : SoundStore P.shared
  calls : ∀ q ∈ P.running, q.Sound P.shared
  coherent : Coherent P.log

theorem Coherent.append (h : Coherent log) (h' : Coherent seen) : Coherent (log ++ seen) := by
  intro x hx
  rcases List.mem_append.mp hx with hx | hx
  · exact h x hx
  · exact h' x hx

theorem soundPool_start : SoundPool ⟨.start, [], []⟩ where
  store := ⟨Nat.le_refl 0, by rintro read ⟨⟩⟩
  calls _ hq := absurd hq List.not_mem_nil
  coherent := coherent_nil

theorem soundPool_of_reaches {P : Pool DetailStore DetailCall DetailResponse}
    (h : Reaches DetailStore.rules Fresh ⟨.start, [], []⟩ P) : SoundPool P := by
  refine h.invariant (I := SoundPool) ?_ ?_ soundPool_start
  · intro s before p after log x s' ps seen hI hC hs
    have hfresh : p.StoresFresh s := forall_at_iff.mp hC
    have hkeeps := step_keeps hI.store (hI.calls p (by simp)) hfresh hs
    refine ⟨hkeeps.store, fun q hq => ?_, hI.coherent.append hkeeps.coherent⟩
    simp only [List.mem_append] at hq
    rcases hq with (hq | hq) | hq
    · exact (hI.calls q (by simp [hq])).mono hkeeps.returned hkeeps.writes
    · exact hkeeps.calls q hq
    · exact (hI.calls q (by simp [hq])).mono hkeeps.returned hkeeps.writes
  · intro s running log e s' ps seen hI _ hs
    have hkeeps := outside_keeps hI.store hs
    refine ⟨hkeeps.store, fun q hq => ?_, hI.coherent.append hkeeps.coherent⟩
    rcases List.mem_append.mp hq with hq | hq
    · exact hkeeps.calls q hq
    · exact (hI.calls q hq).mono hkeeps.returned hkeeps.writes

/-- **The next read reflects an update**, in every run in which no call stores a read that an
update which has returned was written after. -/
theorem coherent_of_fresh {P : Pool DetailStore DetailCall DetailResponse}
    (h : Reaches DetailStore.rules Fresh ⟨.start, [], []⟩ P) : Coherent P.log :=
  (soundPool_of_reaches h).coherent

/-- A call finds what is cached. -/
def finding : List (Act Bool DetailOccurrence) := [.outside .getPoolById, .step 0 true]

theorem run_finding {running : List DetailCall} {read : ℕ} (h : s.cached = some read) :
    DetailStore.rules.run ⟨s, running, log⟩ finding =
      some ⟨s, running, log ++ [] ++ [⟨s.returned, some read⟩]⟩ := by
  obtain ⟨writes, cached, returned⟩ := s
  obtain rfl : cached = some read := h
  rfl

/-- A read that is not fresh is what the next call responds with. -/
theorem exists_stale_of_not_fresh {P P' : Pool DetailStore DetailCall DetailResponse}
    {a : Act Bool DetailOccurrence} (hexec : DetailStore.rules.exec P a = .ok (P', seen))
    (hstale : ¬ Fresh P a) :
    ∃ P'', Reaches DetailStore.rules (fun _ _ => True) P' P'' ∧ ¬ Coherent P''.log := by
  obtain ⟨s, running, log⟩ := P
  rcases exec_cases hexec with ⟨before, p, after, x, s', ps, rfl, hrun, hs, rfl⟩ |
    ⟨e, s', ps, rfl, -, -⟩
  · obtain rfl : running = before ++ p :: after := hrun
    have hnot : ¬ p.StoresFresh s := by
      intro hfresh
      exact hstale (forall_at_iff.mpr hfresh)
    cases p with
    | caching since read =>
      cases hs
      refine ⟨_, reaches_of_run (run_finding rfl) (along_of_forall (fun _ _ _ => trivial) _),
        fun hcoherent => ?_⟩
      exact hnot (hcoherent ⟨s.returned, some read⟩ (by simp) read rfl)
    | _ => exact absurd trivial hnot
  · exact absurd trivial hstale

/-! ### A read stored too late -/

/-- A call reads the pool. -/
def reading : List (Act Bool DetailOccurrence) :=
  .outside .getPoolById :: List.replicate 4 (.step 0 true)

/-- An update writes it and returns. -/
def updating : List (Act Bool DetailOccurrence) :=
  .outside (.handlePoolStateUpdate ⟨some "1"⟩) :: List.replicate 2 (.step 0 true)

theorem coherent_of_fresh_reading :
    ∃ P, DetailStore.rules.run ⟨.start, [], []⟩
        (updating ++ reading ++ List.replicate 2 (.step 0 true) ++ finding) = some P ∧
      Coherent P.log := by
  have hsome : (DetailStore.rules.run ⟨.start, [], []⟩
      (updating ++ reading ++ List.replicate 2 (.step 0 true) ++ finding)).isSome := by
    decide +kernel
  obtain ⟨P, hP⟩ := Option.isSome_iff_exists.mp hsome
  exact ⟨P, hP, coherent_of_fresh (reaches_of_run hP (by decide +kernel))⟩

/-- The call stores what it read before the update. -/
theorem not_coherent_reading :
    ¬ ∀ P, Reaches DetailStore.rules (fun _ _ => True) ⟨.start, [], []⟩ P → Coherent P.log := by
  intro h
  have hlog : (DetailStore.rules.run ⟨.start, [], []⟩
      (reading ++ updating ++ List.replicate 2 (.step 0 true) ++ finding)).map (·.log) =
        some [⟨0, some 0⟩, ⟨1, some 0⟩] := by
    decide +kernel
  obtain ⟨P, hP, hseen⟩ := Option.map_eq_some_iff.mp hlog
  have hcoherent := h P (reaches_of_run hP (along_of_forall (fun _ _ _ => trivial) _))
  rw [hseen] at hcoherent
  exact absurd hcoherent (by decide)

end Swyft.Pools
