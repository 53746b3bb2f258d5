import Swyft.Lib.Trace
import Mathlib.Data.List.TakeDrop

/-!
# Interleaved processes

A pool is a shared state and the processes that run over it. A process is what it has still to
do: one step of it reads and writes the shared state atomically and leaves the processes it
becomes, none when it ends. Between two steps of a process any other may run, and the
surroundings may act.

What an observer sees is the log, to which every step appends. It is no part of what a step
reads.

## Main results

* `Reaches.invariant` — what one process, stepping in the midst of the others, preserves
* `Rules.well_iff_along` — what holds at the end of a run exactly if its steps meet a condition
* `Reaches.assertions` — assertions on each process that no step of another spoils
* `Preceded.snoc` — a property of what is observed against what was observed before
-/

namespace Interleaving

/-- A shared state, the processes running over it, and what has been observed. -/
structure Pool (σ π ν : Type) where
  shared : σ
  running : List π
  log : List ν
  deriving DecidableEq

/-- What happens next: the process at a place takes its step, told `x` from outside, or the
surroundings act. -/
inductive Act (χ ε : Type) where
  | step (i : ℕ) (x : χ)
  | outside (e : ε)
  deriving DecidableEq

/-- The rules of a system: the next shared state, the processes left or started, and what is
observed. Nothing where there is no such step. -/
structure Rules (σ π χ ε ν : Type) where
  step : σ → π → χ → Option (σ × List π × List ν)
  outside : σ → ε → Option (σ × List π × List ν)

variable {σ π χ ε ν : Type}

/-- One step of the pool. -/
def Rules.exec (R : Rules σ π χ ε ν) (P : Pool σ π ν) :
    Act χ ε → Except Unit (Pool σ π ν × List ν)
  | .step i x =>
    match P.running[i]?.bind fun p => R.step P.shared p x with
    | none => .error ()
    | some (s, ps, seen) =>
      .ok (⟨s, P.running.take i ++ ps ++ P.running.drop (i + 1), P.log ++ seen⟩, seen)
  | .outside e =>
    match R.outside P.shared e with
    | none => .error ()
    | some (s, ps, seen) => .ok (⟨s, ps ++ P.running, P.log ++ seen⟩, seen)

/-- A run whose steps all meet `C` leads from one pool to the other. -/
def Reaches (R : Rules σ π χ ε ν) (C : Pool σ π ν → Act χ ε → Prop) (P P' : Pool σ π ν) : Prop :=
  ∃ ls, Trace (fun P l P' => Fires R.exec P l P' ∧ C P l.1) P ls P'

variable {R : Rules σ π χ ε ν} {C : Pool σ π ν → Act χ ε → Prop} {P P' : Pool σ π ν}

/-- The pool a list of actions leads to, if all of them run. -/
def Rules.run (R : Rules σ π χ ε ν) (P : Pool σ π ν) (acts : List (Act χ ε)) :
    Option (Pool σ π ν) :=
  match runAll R.exec P acts with
  | .ok (P', _) => some P'
  | .error _ => none

/-- A list of actions that all run, each meeting `C`. -/
theorem reaches_of_run {acts : List (Act χ ε)} (h : R.run P acts = some P')
    (hC : Along R.exec C P acts) : Reaches R C P P' := by
  simp only [Rules.run] at h
  split at h
  · rename_i ls hrun
    cases h
    exact ⟨ls, trace_of_along hrun hC⟩
  · cases h

namespace Reaches

theorem refl (P : Pool σ π ν) : Reaches R C P P := ⟨[], .nil P⟩

/-- A run whose steps meet a condition is one whose steps meet a weaker one. -/
theorem mono {C' : Pool σ π ν → Act χ ε → Prop} (himp : ∀ P a, C P a → C' P a)
    (h : Reaches R C P P') : Reaches R C' P P' := by
  obtain ⟨ls, h⟩ := h
  exact ⟨ls, h.mono fun P l _ hl => ⟨hl.1, himp P l.1 hl.2⟩⟩

theorem trans {P'' : Pool σ π ν} (h : Reaches R C P P') (h' : Reaches R C P' P'') :
    Reaches R C P P'' := by
  obtain ⟨ls, h⟩ := h
  obtain ⟨ls', h'⟩ := h'
  exact ⟨ls ++ ls', h.append h'⟩

end Reaches

/-- A condition on the process of a step is one on the process in the midst of the others. -/
theorem forall_at_iff {before after : List π} {p : π} {D : π → Prop} :
    (∀ q ∈ (before ++ p :: after)[before.length]?, D q) ↔ D p := by
  rw [List.getElem?_append_right (Nat.le_refl _), Nat.sub_self, List.getElem?_cons_zero]
  constructor
  · intro h
    exact h p rfl
  · rintro h q ⟨⟩
    exact h

/-- Something is so of a process, or of one of the others. -/
theorem exists_middle_iff {before after : List π} {p : π} {D : π → Prop} :
    (∃ q ∈ before ++ p :: after, D q) ↔ D p ∨ ∃ q ∈ before ++ after, D q := by
  constructor
  · rintro ⟨q, hq, hD⟩
    rcases List.mem_cons.mp (List.perm_middle.mem_iff.mp hq) with rfl | hq
    · exact .inl hD
    · exact .inr ⟨q, hq, hD⟩
  · rintro (hD | ⟨q, hq, hD⟩)
    · exact ⟨p, List.perm_middle.mem_iff.mpr (.head _), hD⟩
    · exact ⟨q, List.perm_middle.mem_iff.mpr (.tail p hq), hD⟩

/-- Something is so of a process and of all the others. -/
theorem forall_middle_iff {before after : List π} {p : π} {D : π → Prop} :
    (∀ q ∈ before ++ p :: after, D q) ↔ D p ∧ ∀ q ∈ before ++ after, D q := by
  constructor
  · intro h
    exact ⟨h p (List.perm_middle.mem_iff.mpr (.head _)),
      fun q hq => h q (List.perm_middle.mem_iff.mpr (.tail p hq))⟩
  · rintro ⟨hp, h⟩ q hq
    rcases List.mem_cons.mp (List.perm_middle.mem_iff.mp hq) with rfl | hq
    · exact hp
    · exact h q hq

/-- What a step of the pool is: a step of one process in the midst of the others, or of the
surroundings. -/
theorem exec_cases {a : Act χ ε} {seen : List ν} (h : R.exec P a = .ok (P', seen)) :
    (∃ before p after x s ps, a = .step before.length x ∧ P.running = before ++ p :: after ∧
      R.step P.shared p x = some (s, ps, seen) ∧
      P' = ⟨s, before ++ ps ++ after, P.log ++ seen⟩) ∨
    ∃ e s ps, a = .outside e ∧ R.outside P.shared e = some (s, ps, seen) ∧
      P' = ⟨s, ps ++ P.running, P.log ++ seen⟩ := by
  cases a with
  | step i x =>
    left
    simp only [Rules.exec] at h
    split at h
    · cases h
    · rename_i s ps seen' hstep
      cases h
      obtain ⟨p, hp, hstep⟩ := Option.bind_eq_some_iff.mp hstep
      obtain ⟨hi, hp⟩ := List.getElem?_eq_some_iff.mp hp
      have hlen : (P.running.take i).length = i := List.length_take_of_le (Nat.le_of_lt hi)
      refine ⟨P.running.take i, p, P.running.drop (i + 1), x, s, ps, ?_, ?_, hstep, rfl⟩
      · rw [hlen]
      · rw [← hp, List.getElem_cons_drop, List.take_append_drop]
  | outside e =>
    right
    simp only [Rules.exec] at h
    split at h
    · cases h
    · rename_i s ps seen' hout
      cases h
      exact ⟨e, s, ps, rfl, hout, rfl⟩

/-- A process in the midst of the others takes its step. -/
theorem exec_middle {s s' : σ} {before after ps : List π} {p : π} {x : χ} {log seen : List ν}
    (h : R.step s p x = some (s', ps, seen)) :
    R.exec ⟨s, before ++ p :: after, log⟩ (.step before.length x) =
      .ok (⟨s', before ++ ps ++ after, log ++ seen⟩, seen) := by
  have hp : (before ++ p :: after)[before.length]? = some p := by
    rw [List.getElem?_append_right (Nat.le_refl _), Nat.sub_self, List.getElem?_cons_zero]
  have hdrop : (before ++ p :: after).drop (before.length + 1) = after := by
    rw [← List.drop_drop, List.drop_left, List.drop_one, List.tail_cons]
  simp only [Rules.exec, hp, Option.bind_some, h, List.take_left, hdrop]

theorem Reaches.of_exec {a : Act χ ε} {seen : List ν} (h : R.exec P a = .ok (P', seen))
    (hC : C P a) : Reaches R C P P' :=
  ⟨[(a, seen)], .single ⟨h, hC⟩⟩

/-- The invariant rule, where the pool before a step is known to have been reached. -/
theorem Reaches.invariant_along {I : Pool σ π ν → Prop}
    (hstep : ∀ s before p after log x s' ps seen, Reaches R C P ⟨s, before ++ p :: after, log⟩ →
      I ⟨s, before ++ p :: after, log⟩ →
      C ⟨s, before ++ p :: after, log⟩ (.step before.length x) →
      R.step s p x = some (s', ps, seen) → I ⟨s', before ++ ps ++ after, log ++ seen⟩)
    (hout : ∀ s running log e s' ps seen, Reaches R C P ⟨s, running, log⟩ →
      I ⟨s, running, log⟩ → C ⟨s, running, log⟩ (.outside e) →
      R.outside s e = some (s', ps, seen) → I ⟨s', ps ++ running, log ++ seen⟩)
    (h : Reaches R C P P') (hI : I P) : I P' := by
  obtain ⟨ls, h⟩ := h
  have hboth : Reaches R C P P' ∧ I P' := by
    refine h.invariant (I := fun Q => Reaches R C P Q ∧ I Q) ?_ ⟨.refl P, hI⟩
    rintro ⟨s, running, log⟩ ⟨a, seen⟩ Q ⟨hreach, hI⟩ ⟨hexec, hC⟩
    refine ⟨hreach.trans ⟨_, .single ⟨hexec, hC⟩⟩, ?_⟩
    rcases exec_cases hexec with ⟨before, p, after, x, s', ps, rfl, hrun, hs, rfl⟩ |
      ⟨e, s', ps, rfl, hs, rfl⟩
    · obtain rfl : running = before ++ p :: after := hrun
      exact hstep s before p after log x s' ps seen hreach hI hC hs
    · exact hout s running log e s' ps seen hreach hI hC hs
  exact hboth.2

/-- **The invariant rule for pools.** An invariant need only be checked of one process stepping in
the midst of the others, and of the surroundings. -/
theorem Reaches.invariant {I : Pool σ π ν → Prop}
    (hstep : ∀ s before p after log x s' ps seen, I ⟨s, before ++ p :: after, log⟩ →
      C ⟨s, before ++ p :: after, log⟩ (.step before.length x) →
      R.step s p x = some (s', ps, seen) → I ⟨s', before ++ ps ++ after, log ++ seen⟩)
    (hout : ∀ s running log e s' ps seen, I ⟨s, running, log⟩ →
      C ⟨s, running, log⟩ (.outside e) →
      R.outside s e = some (s', ps, seen) → I ⟨s', ps ++ running, log ++ seen⟩)
    (h : Reaches R C P P') (hI : I P) : I P' :=
  h.invariant_along (fun s before p after log x s' ps seen _ => hstep s before p after log x s' ps
    seen) (fun s running log e s' ps seen _ => hout s running log e s' ps seen) hI

/-- What a step observes is appended to the log. -/
theorem log_exec {a : Act χ ε} {seen : List ν} (h : R.exec P a = .ok (P', seen)) :
    P'.log = P.log ++ seen := by
  rcases exec_cases h with ⟨before, p, after, x, s, ps, -, -, -, rfl⟩ | ⟨e, s, ps, -, -, rfl⟩
  · rfl
  · rfl

/-- **Exactness.** A run ends well exactly if every step of it meets a condition: the invariant
need only be checked of one process and of the surroundings. -/
theorem Rules.well_iff_along {I W : Pool σ π ν → Prop} {acts : List (Act χ ε)}
    (hstep : ∀ s before p after log x s' ps seen, I ⟨s, before ++ p :: after, log⟩ →
      C ⟨s, before ++ p :: after, log⟩ (.step before.length x) →
      R.step s p x = some (s', ps, seen) → I ⟨s', before ++ ps ++ after, log ++ seen⟩)
    (hout : ∀ s running log e s' ps seen, I ⟨s, running, log⟩ →
      C ⟨s, running, log⟩ (.outside e) →
      R.outside s e = some (s', ps, seen) → I ⟨s', ps ++ running, log ++ seen⟩)
    (hwell : ∀ P, I P → W P)
    (hmeets : ∀ P a P' seen, I P → R.exec P a = .ok (P', seen) → W P' → C P a)
    (hearlier : ∀ P a P' seen, R.exec P a = .ok (P', seen) → W P' → W P)
    (h : R.run P acts = some P') (hI : I P) : W P' ↔ Along R.exec C P acts := by
  simp only [Rules.run] at h
  split at h
  · rename_i ls hrun
    cases h
    refine ends_well_iff_along ?_ hwell hmeets hearlier hrun hI
    rintro ⟨s, running, log⟩ a Q seen hI hC hexec
    rcases exec_cases hexec with ⟨before, p, after, x, s', ps, rfl, hrun, hs, rfl⟩ |
      ⟨e, s', ps, rfl, hs, rfl⟩
    · obtain rfl : running = before ++ p :: after := hrun
      exact hstep s before p after log x s' ps seen hI hC hs
    · exact hout s running log e s' ps seen hI hC hs
  · cases h

/-- **Assertions.** `I` holds of the shared state and `J` of every process, if each step keeps
`I`, establishes `J` of the processes it leaves and spoils it of no other process. -/
theorem Reaches.assertions {I : σ → List ν → Prop} {J : σ → List ν → π → Prop}
    (hstep : ∀ s p log x s' ps seen, I s log → J s log p →
      R.step s p x = some (s', ps, seen) →
      I s' (log ++ seen) ∧ (∀ q ∈ ps, J s' (log ++ seen) q) ∧
        ∀ q, J s log q → J s' (log ++ seen) q)
    (hout : ∀ s log e s' ps seen, I s log → R.outside s e = some (s', ps, seen) →
      I s' (log ++ seen) ∧ (∀ q ∈ ps, J s' (log ++ seen) q) ∧
        ∀ q, J s log q → J s' (log ++ seen) q)
    (h : Reaches R C P P') (hI : I P.shared P.log) (hJ : ∀ q ∈ P.running, J P.shared P.log q) :
    I P'.shared P'.log ∧ ∀ q ∈ P'.running, J P'.shared P'.log q := by
  refine h.invariant (I := fun P => I P.shared P.log ∧ ∀ q ∈ P.running, J P.shared P.log q)
    ?_ ?_ ⟨hI, hJ⟩
  · rintro s before p after log x s' ps seen ⟨hI, hJ⟩ - hs
    obtain ⟨hI', hnew, hothers⟩ := hstep s p log x s' ps seen hI (hJ p (by simp)) hs
    refine ⟨hI', fun q hq => ?_⟩
    simp only [List.mem_append] at hq
    rcases hq with (hq | hq) | hq
    · exact hothers q (hJ q (by simp [hq]))
    · exact hnew q hq
    · exact hothers q (hJ q (by simp [hq]))
  · rintro s running log e s' ps seen ⟨hI, hJ⟩ - hs
    obtain ⟨hI', hnew, hothers⟩ := hout s log e s' ps seen hI hs
    refine ⟨hI', fun q hq => ?_⟩
    rcases List.mem_append.mp hq with hq | hq
    · exact hnew q hq
    · exact hothers q (hJ q hq)

/-! ### Logs -/

/-- An event of a log that grew is one of the new ones or was there before. -/
theorem append_eq_append_cons {log new pre post : List ν} {y : ν}
    (h : log ++ new = pre ++ y :: post) :
    (∃ new', pre = log ++ new' ∧ new = new' ++ y :: post) ∨
      ∃ post', post = post' ++ new ∧ log = pre ++ y :: post' := by
  rcases List.append_eq_append_iff.mp h with hnew | ⟨post', hlog, hpost⟩
  · exact .inl hnew
  · cases post' with
    | nil => exact .inl ⟨[], by simpa using hlog.symm, hpost.symm⟩
    | cons z post' =>
      obtain ⟨rfl, rfl⟩ := List.cons.inj hpost
      exact .inr ⟨post', rfl, hlog⟩

/-- What is observed is allowed by what was observed before it. -/
def Preceded (φ : List ν → ν → Prop) (log : List ν) : Prop :=
  ∀ pre x post, log = pre ++ x :: post → φ pre x

theorem preceded_nil {φ : List ν → ν → Prop} : Preceded φ [] := by
  intro pre x post h
  simp at h

theorem Preceded.snoc {φ : List ν → ν → Prop} {log : List ν} {x : ν} (h : Preceded φ log)
    (hx : φ log x) : Preceded φ (log ++ [x]) := by
  intro pre y post heq
  rcases append_eq_append_cons heq with ⟨new, rfl, hnew⟩ | ⟨post', -, hlog⟩
  · obtain ⟨rfl, rfl, -⟩ : new = [] ∧ x = y ∧ post = [] := by
      cases new <;> simp_all
    rwa [List.append_nil]
  · exact h pre y post' hlog

/-- Of a property that lasts, it is enough that all the new events have it at once. -/
theorem Preceded.append {φ : List ν → ν → Prop} (hmono : ∀ pre new x, φ pre x → φ (pre ++ new) x)
    {log new : List ν} (h : Preceded φ log) (hnew : ∀ x ∈ new, φ log x) :
    Preceded φ (log ++ new) := by
  intro pre x post heq
  rcases append_eq_append_cons heq with ⟨new', rfl, rfl⟩ | ⟨post', -, hlog⟩
  · exact hmono log new' x (hnew x (by simp))
  · exact h pre x post' hlog

end Interleaving
