import Swyft.Lib.Checked
import Mathlib.Data.List.Basic

/-!
# Traces of a labelled transition relation

A system is a relation `Step s ℓ s'` between states, with a label saying what happened. `Trace`
chains steps and records the labels in order; reachability, invariants and quantities accumulated
along a run are all read off it.

## Main results

* `Trace.append`, `Trace.snoc` — traces compose
* `Trace.invariant` — what every step preserves, every trace preserves
* `Trace.mono` — traces of a weaker relation
* `trace_of_runAll`, `trace_of_along` — running a machine gives a trace
* `ends_well_iff_along` — a run ends well exactly if every step of it meets a condition
-/

variable {σ ℓ : Type}

/-- A finite run of `Step` from one state to another, with the labels of its steps. -/
inductive Trace (Step : σ → ℓ → σ → Prop) : σ → List ℓ → σ → Prop
  | nil (s : σ) : Trace Step s [] s
  | cons {s t u : σ} {l : ℓ} {ls : List ℓ} :
      Step s l t → Trace Step t ls u → Trace Step s (l :: ls) u

namespace Trace

variable {Step Step' : σ → ℓ → σ → Prop} {s t u : σ} {l : ℓ} {ls ls' : List ℓ}

theorem append (h : Trace Step s ls t) (h' : Trace Step t ls' u) :
    Trace Step s (ls ++ ls') u := by
  induction h with
  | nil => exact h'
  | cons hstep _ ih => exact .cons hstep (ih h')

theorem single (h : Step s l t) : Trace Step s [l] t := .cons h (.nil t)

theorem snoc (h : Trace Step s ls t) (h' : Step t l u) : Trace Step s (ls ++ [l]) u :=
  h.append (single h')

theorem cons_iff : Trace Step s (l :: ls) u ↔ ∃ t, Step s l t ∧ Trace Step t ls u := by
  constructor
  · rintro (_ | ⟨h, h'⟩); exact ⟨_, h, h'⟩
  · rintro ⟨t, h, h'⟩; exact .cons h h'

theorem append_iff : Trace Step s (ls ++ ls') u ↔ ∃ t, Trace Step s ls t ∧ Trace Step t ls' u := by
  constructor
  · intro h
    induction ls generalizing s with
    | nil => exact ⟨s, .nil s, h⟩
    | cons l ls ih =>
      obtain ⟨t, hl, h⟩ := cons_iff.mp h
      obtain ⟨v, hv, hu⟩ := ih h
      exact ⟨v, .cons hl hv, hu⟩
  · rintro ⟨t, h, h'⟩; exact h.append h'

/-- **The invariant rule.** What every step preserves, every trace preserves. -/
theorem invariant {I : σ → Prop} (hstep : ∀ s l t, I s → Step s l t → I t)
    (h : Trace Step s ls t) (hs : I s) : I t := by
  induction h with
  | nil => exact hs
  | cons hl _ ih => exact ih (hstep _ _ _ hs hl)

theorem mono (himp : ∀ s l t, Step s l t → Step' s l t) (h : Trace Step s ls t) :
    Trace Step' s ls t := by
  induction h with
  | nil s => exact .nil s
  | cons hl _ ih => exact .cons (himp _ _ _ hl) ih

end Trace

/-! ### Machines

A machine runs one instruction at a time and may stop. A list of instructions that all run is a
trace, and a decidable condition on every state and instruction is checked along it. -/

section Machine

open Checked

variable {ι ρ ε : Type}

/-- A step of the machine, labelled by the instruction and what it returned. -/
def Fires (exec : σ → ι → Except ε (σ × ρ)) (s : σ) (l : ι × ρ) (s' : σ) : Prop :=
  exec s l.1 = .ok (s', l.2)

/-- Run a list of instructions. -/
def runAll (exec : σ → ι → Except ε (σ × ρ)) : σ → List ι → Except ε (σ × List (ι × ρ))
  | s, [] => pure (s, [])
  | s, i :: is => do
    let (s', r) ← exec s i
    let (s'', ls) ← runAll exec s' is
    pure (s'', (i, r) :: ls)

/-- `C` holds of every state and the instruction about to run there. -/
def Along (exec : σ → ι → Except ε (σ × ρ)) (C : σ → ι → Prop) : σ → List ι → Prop
  | _, [] => True
  | s, i :: is => C s i ∧ Ensures (exec s i) fun x => Along exec C x.1 is

instance decidableAlong (exec : σ → ι → Except ε (σ × ρ)) (C : σ → ι → Prop)
    [∀ s i, Decidable (C s i)] : (s : σ) → (is : List ι) → Decidable (Along exec C s is)
  | _, [] => instDecidableTrue
  | s, i :: is =>
    have : DecidablePred fun x : σ × ρ => Along exec C x.1 is :=
      fun x => decidableAlong exec C x.1 is
    inferInstanceAs (Decidable (C s i ∧ Ensures (exec s i) fun x => Along exec C x.1 is))

variable {exec : σ → ι → Except ε (σ × ρ)} {C : σ → ι → Prop} {s s' : σ} {is : List ι}
  {ls : List (ι × ρ)}

theorem runAll_nil : runAll exec s [] = .ok (s', ls) ↔ s = s' ∧ [] = ls := by
  simp only [runAll, pure_eq_ok, Prod.mk.injEq]

/-- A run begins with its first instruction. -/
theorem runAll_cons {i : ι} : runAll exec s (i :: is) = .ok (s', ls) ↔
    ∃ s₁ r ls', exec s i = .ok (s₁, r) ∧ runAll exec s₁ is = .ok (s', ls') ∧
      (i, r) :: ls' = ls := by
  simp only [runAll, bind_eq_ok, pure_eq_ok, Prod.exists, Prod.mk.injEq]
  constructor
  · rintro ⟨s₁, r, h₁, s₂, ls', h₂, rfl, rfl⟩
    exact ⟨s₁, r, ls', h₁, h₂, rfl⟩
  · rintro ⟨s₁, r, ls', h₁, h₂, rfl⟩
    exact ⟨s₁, r, h₁, s', ls', h₂, rfl, rfl⟩

theorem trace_of_along (h : runAll exec s is = .ok (s', ls)) (hC : Along exec C s is) :
    Trace (fun s l s' => Fires exec s l s' ∧ C s l.1) s ls s' := by
  induction is generalizing s ls with
  | nil =>
    obtain ⟨rfl, rfl⟩ := runAll_nil.mp h
    exact .nil s
  | cons i is ih =>
    obtain ⟨s₁, r, ls', h₁, h₂, rfl⟩ := runAll_cons.mp h
    exact .cons ⟨h₁, hC.1⟩ (ih h₂ (hC.2.of_ok h₁))

/-- A condition on the instructions alone holds along any run of them. -/
theorem along_of_forall (h : ∀ i ∈ is, ∀ s, C s i) (s : σ) : Along exec C s is := by
  induction is generalizing s with
  | nil => trivial
  | cons i is ih =>
    refine ⟨h i (.head _) s, ?_⟩
    cases exec s i with
    | ok x => exact ih (fun j hj => h j (.tail _ hj)) x.1
    | error e => trivial

/-- What an invariant implies at every state holds along any run that keeps the invariant. -/
theorem Along.imp_of_invariant {D : σ → ι → Prop} {I : σ → Prop}
    (hstep : ∀ s i s' r, I s → C s i → exec s i = .ok (s', r) → I s')
    (himp : ∀ s i, I s → C s i → D s i) (h : Along exec C s is) (hI : I s) :
    Along exec D s is := by
  induction is generalizing s with
  | nil => trivial
  | cons i is ih =>
    refine ⟨himp s i hI h.1, ?_⟩
    have hrest := h.2
    cases hexec : exec s i with
    | error e => trivial
    | ok x =>
      rw [hexec] at hrest
      exact ih hrest (hstep s i x.1 x.2 hI h.1 hexec)

/-- A run ends well exactly if every step of it meets a condition, where the condition keeps an
invariant under which things are well, a step that does not meet it spoils them, and what is
spoilt stays so. -/
theorem ends_well_iff_along {I W : σ → Prop}
    (hstep : ∀ s i s' r, I s → C s i → exec s i = .ok (s', r) → I s')
    (hwell : ∀ s, I s → W s)
    (hmeets : ∀ s i s' r, I s → exec s i = .ok (s', r) → W s' → C s i)
    (hearlier : ∀ s i s' r, exec s i = .ok (s', r) → W s' → W s)
    (h : runAll exec s is = .ok (s', ls)) (hI : I s) : W s' ↔ Along exec C s is := by
  have hback {s : σ} {is : List ι} {ls : List (ι × ρ)} (h : runAll exec s is = .ok (s', ls))
      (hend : W s') : W s := by
    induction is generalizing s ls with
    | nil =>
      obtain ⟨rfl, -⟩ := runAll_nil.mp h
      exact hend
    | cons i is ih =>
      obtain ⟨s₁, r, ls', h₁, h₂, -⟩ := runAll_cons.mp h
      exact hearlier s i s₁ r h₁ (ih h₂)
  induction is generalizing s ls with
  | nil =>
    obtain ⟨rfl, -⟩ := runAll_nil.mp h
    exact iff_of_true (hwell s hI) trivial
  | cons i is ih =>
    obtain ⟨s₁, r, ls', h₁, h₂, -⟩ := runAll_cons.mp h
    constructor
    · intro hend
      have hC := hmeets s i s₁ r hI h₁ (hback h₂ hend)
      refine ⟨hC, ?_⟩
      rw [h₁]
      exact (ih h₂ (hstep s i s₁ r hI hC h₁)).mp hend
    · rintro ⟨hC, hrest⟩
      rw [h₁] at hrest
      exact (ih h₂ (hstep s i s₁ r hI hC h₁)).mpr hrest

theorem trace_of_runAll (h : runAll exec s is = .ok (s', ls)) : Trace (Fires exec) s ls s' :=
  (trace_of_along (C := fun _ _ => True) h (along_of_forall (fun _ _ _ => trivial) s)).mono
    fun _ _ _ h => h.1

end Machine
