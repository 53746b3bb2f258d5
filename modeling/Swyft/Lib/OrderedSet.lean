import Mathlib.Data.List.Nodup

/-!
# Sets in the order of insertion

A set that remembers in which order its elements were first added, and loops over such a set
whose body may delete elements from it.

## Main results

* `mem_add`, `mem_delete` — what each operation leaves
* `forEach_rule` — an invariant of a loop speaks of the elements that are still to come
-/

/-- Distinct elements, the oldest first. -/
structure OrderedSet (α : Type) where
  elems : List α
  nodup : elems.Nodup
  deriving DecidableEq

namespace OrderedSet

variable {α σ : Type} {s : OrderedSet α} {a b : α}

def empty : OrderedSet α := ⟨[], List.nodup_nil⟩

def size (s : OrderedSet α) : ℕ := s.elems.length

instance : Membership α (OrderedSet α) := ⟨fun s a => a ∈ s.elems⟩

theorem notMem_empty (a : α) : a ∉ (empty : OrderedSet α) := List.not_mem_nil

theorem size_ne_zero : s.size ≠ 0 ↔ ∃ a, a ∈ s := by
  rw [size, Ne, List.length_eq_zero_iff]
  exact ⟨List.exists_mem_of_ne_nil _, fun ⟨a, ha⟩ => List.ne_nil_of_mem ha⟩

theorem notMem_of_size_eq_zero (h : s.size = 0) (a : α) : a ∉ s := by
  intro ha
  exact size_ne_zero.mpr ⟨a, ha⟩ h

/-- A set among another is no larger. -/
theorem size_le_of_subset {t : OrderedSet α} (h : ∀ a ∈ s, a ∈ t) : s.size ≤ t.size :=
  s.nodup.length_le_of_subset fun a ha => h a ha

variable [DecidableEq α]

instance : Decidable (a ∈ s) := inferInstanceAs (Decidable (a ∈ s.elems))

/-- Add an element, as the newest one if it is not there. -/
def add (s : OrderedSet α) (a : α) : OrderedSet α :=
  if h : a ∈ s.elems then s
  else ⟨s.elems ++ [a], by
    rw [List.nodup_append]
    refine ⟨s.nodup, List.nodup_singleton a, fun b hb c hc => ?_⟩
    rintro rfl
    obtain rfl : b = a := List.mem_singleton.mp hc
    exact h hb⟩

def delete (s : OrderedSet α) (a : α) : OrderedSet α :=
  ⟨s.elems.filter (· ≠ a), s.nodup.filter _⟩

theorem mem_add : b ∈ s.add a ↔ b = a ∨ b ∈ s := by
  unfold add
  split
  · rename_i ha
    exact ⟨.inr, fun h => h.elim (fun hb => hb ▸ ha) id⟩
  · show b ∈ s.elems ++ [a] ↔ b = a ∨ b ∈ s.elems
    rw [List.mem_append, List.mem_singleton, or_comm]

theorem size_add_le : (s.add a).size ≤ s.size + 1 := by
  unfold add
  split
  · exact Nat.le_succ _
  · exact Nat.le_of_eq (List.length_append ..)

theorem mem_delete : b ∈ s.delete a ↔ b ≠ a ∧ b ∈ s := by
  show b ∈ s.elems.filter (· ≠ a) ↔ b ≠ a ∧ b ∈ s.elems
  rw [List.mem_filter, decide_eq_true_iff, and_comm]

/-! ### Loops -/

/-- Go through the elements a set held at first, in their order, and skip those that are gone when
their turn comes. The body may delete elements of the set and adds none. -/
def forEach (current : σ → OrderedSet α) (body : σ → α → σ) : List α → σ → σ
  | [], t => t
  | a :: as, t => forEach current body as (if a ∈ current t then body t a else t)

/-- **The rule of loops.** What holds of all the elements to come before a loop, and is kept by
the body as they become fewer, holds when none is left. -/
theorem forEach_rule (current : σ → OrderedSet α) (body : σ → α → σ) {I : List α → σ → Prop}
    (hstep : ∀ a as t, I (a :: as) t → a ∈ current t → I as (body t a))
    (hskip : ∀ a as t, I (a :: as) t → a ∉ current t → I as t) (as : List α) {t : σ}
    (h : I as t) : I [] (forEach current body as t) := by
  induction as generalizing t with
  | nil => exact h
  | cons a as ih =>
    show I [] (forEach current body as (if a ∈ current t then body t a else t))
    split
    · rename_i ha
      exact ih (hstep a as t h ha)
    · rename_i ha
      exact ih (hskip a as t h ha)

end OrderedSet
