import Mathlib.Data.Nat.Notation
import Mathlib.Tactic.Common

/-!
# Loops that come to an end

A loop whose rounds may stop with an error: a round goes on in another state, or leaves the loop
with a value. There is no fuel: `Ends` holds of a loop that is left after finitely many rounds, none
of which stops, so that it says at once that the loop terminates, that nothing goes wrong on the way
and which value it is left with.

## Main definitions

* `Loops.Ends` — the loop is left with a value

## Main results

* `Loops.exists_ends` — the rule: an invariant that every round keeps, and a measure that it lowers
* `Loops.Ends.unique` — a loop is left with one value only
-/

namespace Loops

variable {σ α ε : Type}

/-- The loop is left with `a`, entered in a state. -/
inductive Ends (round : σ → Except ε (σ ⊕ α)) : σ → α → Prop
  | leave {s : σ} {a : α} (h : round s = .ok (.inr a)) : Ends round s a
  | next {s s' : σ} {a : α} (h : round s = .ok (.inl s')) (hrest : Ends round s' a) :
      Ends round s a

variable {round : σ → Except ε (σ ⊕ α)} {s : σ} {a b : α}

/-- What a round may do under an invariant, a measure and a postcondition. -/
def Advances (I : σ → Prop) (measure : σ → ℕ) (Q : α → Prop) (s : σ) : σ ⊕ α → Prop
  | .inl s' => I s' ∧ measure s' < measure s
  | .inr a => Q a

/-- **The rule for loops.** Where every round from the invariant leaves with what is wanted, or
keeps the invariant and lowers the measure, the loop is left with what is wanted. -/
theorem exists_ends {I : σ → Prop} {Q : α → Prop} (measure : σ → ℕ)
    (hround : ∀ s, I s → ∃ next, round s = .ok next ∧ Advances I measure Q s next) (hs : I s) :
    ∃ a, Ends round s a ∧ Q a := by
  induction hn : measure s using Nat.strongRecOn generalizing s with
  | _ n ih =>
    obtain ⟨next, hnext, hadvances⟩ := hround s hs
    match next with
    | .inr a => exact ⟨a, .leave hnext, hadvances⟩
    | .inl s' =>
      obtain ⟨hs', hlt⟩ := hadvances
      obtain ⟨a, hends, ha⟩ := ih (measure s') (hn ▸ hlt) hs' rfl
      exact ⟨a, .next hnext hends, ha⟩

/-- A loop is left with one value only. -/
theorem Ends.unique (h : Ends round s a) (h' : Ends round s b) : a = b := by
  induction h with
  | leave hleave =>
    cases h' with
    | leave hleave' =>
      rw [hleave] at hleave'
      exact Sum.inr.inj (Except.ok.inj hleave')
    | next hnext' hrest' =>
      rw [hleave] at hnext'
      cases hnext'
  | next hnext hrest ih =>
    cases h' with
    | leave hleave' =>
      rw [hnext] at hleave'
      cases hleave'
    | next hnext' hrest' =>
      rw [hnext] at hnext'
      obtain rfl := Sum.inl.inj (Except.ok.inj hnext')
      exact ih hrest'

end Loops
