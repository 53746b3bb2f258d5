import Mathlib.Logic.Function.Basic

/-!
# Partial maps that only grow

A table that is only ever written at free keys keeps every entry it has, and when each write
brings a value the table does not hold, no two keys share one.

## Main results

* `PartialMap.extends_update` — writing at a free key keeps every entry
* `PartialMap.NoSharing.update` — writing a new value keeps values apart
-/

namespace PartialMap

variable {κ ν : Type} {m m' m'' : κ → Option ν} {k : κ} {v : ν}

/-- Every entry of `m` is an entry of `m'`. -/
def Extends (m m' : κ → Option ν) : Prop := ∀ k v, m k = some v → m' k = some v

theorem Extends.refl (m : κ → Option ν) : Extends m m := fun _ _ h => h

theorem Extends.trans (h : Extends m m') (h' : Extends m' m'') : Extends m m'' :=
  fun k v hv => h' k v (h k v hv)

theorem Extends.antisymm (h : Extends m m') (h' : Extends m' m) : m = m' := by
  funext k
  cases hk : m k with
  | some v => exact (h k v hk).symm
  | none =>
    cases hk' : m' k with
    | none => rfl
    | some v =>
      rw [h' k v hk'] at hk
      cases hk

/-- No two keys hold the same value. -/
def NoSharing (m : κ → Option ν) : Prop := ∀ k k' v, m k = some v → m k' = some v → k = k'

/-- Two tables of which one extends the other share no value across keys either. -/
theorem NoSharing.of_extends (h : NoSharing m') (he : Extends m m') {k k' : κ} {v : ν}
    (hk : m k = some v) (hk' : m' k' = some v) : k = k' :=
  h k k' v (he k v hk) hk'

variable [DecidableEq κ]

theorem update_eq_some_iff {k' : κ} {v' : ν} :
    Function.update m k (some v) k' = some v' ↔ k' = k ∧ v = v' ∨ k' ≠ k ∧ m k' = some v' := by
  by_cases h : k' = k
  · subst h; simp
  · simp [h]

/-- Writing at a free key keeps every entry. -/
theorem extends_update (hfree : m k = none) (v : ν) :
    Extends m (Function.update m k (some v)) := by
  intro k' v' h
  refine update_eq_some_iff.mpr (.inr ⟨?_, h⟩)
  rintro rfl
  rw [hfree] at h
  cases h

/-- Writing a value that no key holds keeps values apart. -/
theorem NoSharing.update (h : NoSharing m) (hnew : ∀ k', m k' ≠ some v) :
    NoSharing (Function.update m k (some v)) := by
  intro k₁ k₂ u h₁ h₂
  rcases update_eq_some_iff.mp h₁ with ⟨rfl, rfl⟩ | ⟨-, h₁⟩
  · rcases update_eq_some_iff.mp h₂ with ⟨rfl, -⟩ | ⟨-, h₂⟩
    · rfl
    · exact absurd h₂ (hnew k₂)
  · rcases update_eq_some_iff.mp h₂ with ⟨-, rfl⟩ | ⟨-, h₂⟩
    · exact absurd h₁ (hnew k₁)
    · exact h k₁ k₂ u h₁ h₂

end PartialMap
