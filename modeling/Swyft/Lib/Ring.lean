import Mathlib.Data.List.Basic
import Mathlib.Logic.Function.Basic
import Mathlib.Tactic.Common

/-!
# Ring buffers

A sequence that only grows, kept in `capacity` numbered slots: item `i` goes to slot
`i % capacity`, so the last `capacity` items are there and the earlier ones have been overwritten.

## Main results

* `Ring.Holds.append` — storing the next item keeps the last items where they belong
* `Ring.prev_slot`, `Ring.oldest_slot` — the slots of the newest and the oldest item, as a writer
  that keeps only its write index and a capped count works them out
* `Ring.Holds.read` — the slots from the oldest on are the last items
-/

namespace Ring

variable {α : Type} {capacity : ℕ} {slots : ℕ → Option α} {items : List α}

/-- The slots hold the last `capacity` items. -/
def Holds (capacity : ℕ) (slots : ℕ → Option α) (items : List α) : Prop :=
  ∀ i < items.length, items.length ≤ i + capacity → slots (i % capacity) = items[i]?

theorem Holds.nil : Holds capacity slots [] := by
  intro i hi
  cases hi

/-- Two items less than `capacity` apart are in different slots. -/
theorem mod_ne_mod {i j : ℕ} (hij : i < j) (hj : j < i + capacity) :
    i % capacity ≠ j % capacity := by
  intro h
  obtain ⟨k, hk⟩ := Nat.dvd_of_mod_eq_zero (Nat.sub_mod_eq_zero_of_mod_eq h.symm)
  have hpos : 0 < k := by
    rcases Nat.eq_zero_or_pos k with rfl | h
    · omega
    · exact h
  have := Nat.mul_le_mul_left capacity hpos
  omega

/-- **Storing the next item.** -/
theorem Holds.append (h : Holds capacity slots items) (x : α) :
    Holds capacity (Function.update slots (items.length % capacity) (some x)) (items ++ [x]) := by
  intro i hi hcap
  rw [List.length_append, List.length_singleton] at hi hcap
  by_cases hlast : i = items.length
  · subst hlast
    rw [Function.update_self, List.getElem?_concat_length]
  · have hlt : i < items.length := by omega
    rw [Function.update_of_ne (mod_ne_mod hlt (by omega)), List.getElem?_append_left hlt]
    exact h i hlt (by omega)

/-- The slot before the write index is that of the newest item. -/
theorem prev_slot {n : ℕ} (hcap : 0 < capacity) (hn : 0 < n) :
    (if n % capacity = 0 then capacity - 1 else n % capacity - 1) = (n - 1) % capacity := by
  obtain ⟨m, rfl⟩ : ∃ m, n = m + 1 := ⟨n - 1, by omega⟩
  rw [Nat.add_sub_cancel]
  have hm := Nat.mod_lt m hcap
  rw [Nat.add_mod]
  by_cases h1 : capacity = 1
  · subst h1; simp [Nat.mod_one]
  · rw [Nat.mod_eq_of_lt (show 1 < capacity by omega)]
    by_cases hwrap : m % capacity + 1 = capacity
    · rw [hwrap, Nat.mod_self, if_pos rfl]; omega
    · rw [Nat.mod_eq_of_lt (show m % capacity + 1 < capacity by omega), if_neg (by omega)]
      omega

/-- The first slot while filling, and the write index once full, is that of the oldest item. -/
theorem oldest_slot {n : ℕ} :
    (if min n capacity < capacity then 0 else n % capacity) = (n - min n capacity) % capacity := by
  split
  case isTrue h =>
    rw [show n - min n capacity = 0 by omega, Nat.zero_mod]
  case isFalse h =>
    have hle : capacity ≤ n := by omega
    rw [Nat.min_eq_right hle, ← Nat.mod_eq_sub_mod hle]

/-- Logical position `j`, counted from the oldest item, is item `n - count + j`. -/
theorem logical_slot (n j : ℕ) :
    ((n - min n capacity) % capacity + j) % capacity = (n - min n capacity + j) % capacity :=
  Nat.mod_add_mod _ _ _

/-- **Reading a ring**, from its oldest slot on: the last `capacity` items. -/
theorem Holds.read (h : Holds capacity slots items) :
    (List.range (min items.length capacity)).map (fun j =>
        slots (((items.length - min items.length capacity) % capacity + j) % capacity))
      = (items.drop (items.length - min items.length capacity)).map some := by
  refine List.ext_getElem ?_ fun j hj hj' => ?_
  · simp only [List.length_map, List.length_range, List.length_drop]
    omega
  · simp only [List.length_map, List.length_range] at hj
    have hlt : items.length - min items.length capacity + j < items.length := by omega
    simp only [List.getElem_map, List.getElem_range, List.getElem_drop]
    rw [logical_slot, h _ hlt (by omega), List.getElem?_eq_getElem hlt]

end Ring
