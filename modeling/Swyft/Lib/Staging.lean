import Mathlib.Algebra.GroupWithZero.Nat
import Mathlib.Algebra.Order.Group.Nat
import Mathlib.Data.List.Induction

/-!
# Staging with a bound

Pieces are collected until their sizes pass a bound. From then on everything is handed on at once:
what was collected first, and each later piece as it comes. The piece that passes the bound is
collected before the bound is looked at, so that for a moment more is held than the bound allows, by
that piece.

## Main definitions

* `Staging.push` — one piece
* `Staging.longest` — the size of the largest piece
* `Staging.Staged` — what is known after some pieces

## Main results

* `Staging.staged_foldl` — it is known after any pieces
-/

namespace Staging

variable {α : Type} {size : α → ℕ} {bound : ℕ}

/-- The pieces collected and those handed on, whether the bound was passed, and the most that was
ever held. -/
structure Stage (α : Type) where
  held : List α := []
  sent : List α := []
  passed : Bool := false
  peak : ℕ := 0

/-- The size of pieces together. -/
def total (size : α → ℕ) (as : List α) : ℕ := (as.map size).sum

@[simp] theorem total_nil : total size [] = 0 := rfl

@[simp] theorem total_append (as bs : List α) :
    total size (as ++ bs) = total size as + total size bs := by
  simp [total]

@[simp] theorem total_singleton (a : α) : total size [a] = size a := by simp [total]

/-- The size of the largest piece. -/
def longest (size : α → ℕ) (as : List α) : ℕ := (as.map size).foldr max 0

theorem longest_append (as bs : List α) :
    longest size (as ++ bs) = max (longest size as) (longest size bs) := by
  induction as with
  | nil => simp [longest]
  | cons a as ih =>
    simp only [longest, List.cons_append, List.map_cons, List.foldr_cons] at ih ⊢
    rw [ih, max_assoc]

@[simp] theorem longest_singleton (a : α) : longest size [a] = size a := by simp [longest]

/-- One piece. -/
def push (size : α → ℕ) (bound : ℕ) (s : Stage α) (a : α) : Stage α :=
  if s.passed then { s with sent := s.sent ++ [a] }
  else
    let held := s.held ++ [a]
    let peak := max s.peak (total size held)
    if bound < total size held then { held := [], sent := s.sent ++ held, passed := true, peak }
    else { s with held, peak }

/-- What is known after the pieces `as`. -/
structure Staged (size : α → ℕ) (bound : ℕ) (as : List α) (s : Stage α) : Prop where
  /-- Each piece was handed on or is held, once and in order. -/
  pieces : s.sent ++ s.held = as
  /-- The bound was passed where the pieces are larger. -/
  passed : s.passed = true ↔ bound < total size as
  /-- Nothing is held after that. -/
  drained : s.passed = true → s.held = []
  /-- Nothing is handed on before that, and all of it is what was held at most. -/
  whole : s.passed = false → s.sent = [] ∧ s.peak = total size as
  /-- No more was held than the bound and one piece. -/
  peak : s.peak ≤ bound + longest size as

theorem staged_nil : Staged size bound [] ({} : Stage α) where
  pieces := rfl
  passed := by simp
  drained := fun _ => rfl
  whole := fun _ => ⟨rfl, rfl⟩
  peak := Nat.zero_le _

variable {as : List α} {s : Stage α}

/-- What is held once the piece has been collected. -/
theorem Staged.held_append (h : Staged size bound as s) (hpassed : s.passed = false) (a : α) :
    s.held ++ [a] = as ++ [a] ∧ total size as ≤ bound := by
  obtain ⟨hsent, -⟩ := h.whole hpassed
  have hle : ¬ bound < total size as := by
    intro hlt
    rw [h.passed.mpr hlt] at hpassed
    cases hpassed
  have hheld : s.held = as := by rw [← h.pieces, hsent, List.nil_append]
  exact ⟨by rw [hheld], Nat.le_of_not_lt hle⟩

theorem longest_le_append (size : α → ℕ) (as : List α) (a : α) :
    longest size as ≤ longest size (as ++ [a]) ∧ size a ≤ longest size (as ++ [a]) := by
  rw [longest_append, longest_singleton]
  exact ⟨le_max_left _ _, le_max_right _ _⟩

theorem Staged.push_of_passed (h : Staged size bound as s) (hpassed : s.passed = true) (a : α) :
    Staged size bound (as ++ [a]) { s with sent := s.sent ++ [a] } := by
  have hdrained := h.drained hpassed
  refine ⟨?_, ?_, fun _ => hdrained, ?_, ?_⟩
  · show (s.sent ++ [a]) ++ s.held = as ++ [a]
    have hpieces := h.pieces
    rw [hdrained, List.append_nil] at hpieces
    rw [hdrained, List.append_nil, hpieces]
  · have hlt := h.passed.mp hpassed
    simp only [hpassed, total_append, true_iff]
    omega
  · intro hfalse
    rw [hpassed] at hfalse
    cases hfalse
  · show s.peak ≤ bound + longest size (as ++ [a])
    have hpeak := h.peak
    have hlongest := longest_le_append size as a
    omega

theorem Staged.push (h : Staged size bound as s) (a : α) :
    Staged size bound (as ++ [a]) (push size bound s a) := by
  rw [Staging.push]
  split
  next hpassed => exact h.push_of_passed hpassed a
  next hpassed =>
    have hopen : s.passed = false := by simpa using hpassed
    obtain ⟨hheld, hle⟩ := h.held_append hopen a
    obtain ⟨hsent, hwhole⟩ := h.whole hopen
    have hlongest := longest_le_append size as a
    have htotal : total size (as ++ [a]) = total size as + size a := by simp
    simp only [hheld, hsent, hwhole, List.nil_append, htotal]
    split
    next hlt =>
      refine ⟨by simp, by simpa using hlt, fun _ => rfl, nofun, ?_⟩
      show max _ _ ≤ _
      omega
    next hlt =>
      refine ⟨by simp, by simpa [hopen] using hlt, ?_, ?_, ?_⟩
      · intro htrue
        rw [hopen] at htrue
        cases htrue
      · intro _
        exact ⟨rfl, by rw [htotal]; exact max_eq_right (Nat.le_add_right _ _)⟩
      · show max _ _ ≤ _
        omega

/-- **What is known after any pieces.** -/
theorem staged_foldl (size : α → ℕ) (bound : ℕ) (as : List α) :
    Staged size bound as (as.foldl (Staging.push size bound) {}) := by
  induction as using List.reverseRecOn with
  | nil => exact staged_nil
  | append_singleton as a ih =>
    rw [List.foldl_append]
    exact ih.push a

end Staging
