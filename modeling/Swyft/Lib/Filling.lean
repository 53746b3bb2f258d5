import Mathlib.Data.List.Chain

/-!
# Filling a series

A series of elements at times is filled: between two neighbours, an element is put in for each of
the times that follow the first, one after the other, and come before the second. Which times come
before which, and which time is next, is not known, so that there may be no end to them.

## Main results

* `isChain_fill` — a relation between neighbours, from how what is put in is linked
* `filter_fill` — what is selected is not changed where nothing put in is selected
* `isSome_missing` — there is an end to the times where they come nearer
-/

namespace Filling

variable {α τ : Type} (before : τ → τ → Bool) (next : τ → τ) (time : α → τ) (filler : α → τ → α)

/-- The times from `t` on that come before `bound`, if there is an end to them within `fuel`. -/
def missing : ℕ → τ → τ → Option (List τ)
  | 0, _, _ => none
  | fuel + 1, t, bound =>
    if before t bound then (missing fuel (next t) bound).map (t :: ·) else some []

/-- Put an element in for each time that is missing between neighbours. -/
def fill (fuel : ℕ) : List α → Option (List α)
  | a :: b :: l => do
    let times ← missing before next fuel (next (time a)) (time b)
    let rest ← fill fuel (b :: l)
    return a :: (times.map (filler a) ++ rest)
  | l => some l

variable {before next time filler} {fuel : ℕ} {l filled : List α} {a b : α} {t bound : τ}

theorem missing_succ_eq_some {times : List τ} :
    missing before next (fuel + 1) t bound = some times ↔
      before t bound = true ∧
          (∃ rest, missing before next fuel (next t) bound = some rest ∧ t :: rest = times) ∨
        before t bound = false ∧ [] = times := by
  rw [missing]
  split_ifs with h
  · simp [h]
  · simp [h]

/-- What is filled begins as the series, with what is missing after its first element. -/
theorem fill_cons_cons_eq_some : fill before next time filler fuel (a :: b :: l) = some filled ↔
    ∃ times rest, missing before next fuel (next (time a)) (time b) = some times ∧
      fill before next time filler fuel (b :: l) = some rest ∧
      a :: (times.map (filler a) ++ rest) = filled := by
  simp only [fill, Option.bind_eq_bind, Option.bind_eq_some_iff, Option.pure_def, Option.some.injEq]
  constructor
  · rintro ⟨times, ht, rest, hr, h⟩
    exact ⟨times, rest, ht, hr, h⟩
  · rintro ⟨times, rest, ht, hr, h⟩
    exact ⟨times, ht, rest, hr, h⟩

theorem head?_fill (h : fill before next time filler fuel l = some filled) :
    filled.head? = l.head? := by
  match l with
  | [] | [_] => rw [← Option.some.inj h]
  | a :: b :: l =>
    obtain ⟨times, rest, -, -, rfl⟩ := fill_cons_cons_eq_some.mp h
    rfl

/-- **What is put in is not selected, and nothing else is changed.** -/
theorem filter_fill {p : α → Bool} (hp : ∀ a t, p (filler a t) = false)
    (h : fill before next time filler fuel l = some filled) : filled.filter p = l.filter p := by
  induction l generalizing filled with
  | nil => rw [← Option.some.inj h]
  | cons a l ih =>
    cases l with
    | nil => rw [← Option.some.inj h]
    | cons b l =>
      obtain ⟨times, rest, -, hrest, rfl⟩ := fill_cons_cons_eq_some.mp h
      have hnone : (times.map (filler a)).filter p = [] := by
        rw [List.filter_eq_nil_iff]
        intro c hc
        obtain ⟨t, -, rfl⟩ := List.mem_map.mp hc
        simp [hp]
      rw [List.filter_cons, List.filter_append, hnone, List.nil_append, ih hrest,
        ← List.filter_cons]

/-! ### Neighbours -/

section Neighbours

variable {S R : α → α → Prop}

/-- What is put in has its time, and is as good as what it is put in after. Where `S` holds between
two neighbours, `R` holds from the first to what is put in after it, which is again in `S` with the
second, and between the two themselves where nothing is missing. -/
structure Links (before : τ → τ → Bool) (next : τ → τ) (time : α → τ) (filler : α → τ → α)
    (S R : α → α → Prop) : Prop where
  time_filler : ∀ a t, time (filler a t) = t
  filler_filler : ∀ a t, filler (filler a t) = filler a
  put : ∀ a b, S a b → before (next (time a)) (time b) = true →
    R a (filler a (next (time a))) ∧ S (filler a (next (time a))) b
  direct : ∀ a b, S a b → before (next (time a)) (time b) = false → R a b

variable (hlinks : Links before next time filler S R)

include hlinks

/-- The neighbours in what is put in between two elements. -/
theorem isChain_segment {times : List τ} (hab : S a b)
    (h : missing before next fuel (next (time a)) (time b) = some times) :
    (a :: (times.map (filler a) ++ [b])).IsChain R := by
  induction fuel generalizing a times with
  | zero => exact nomatch h
  | succ fuel ih =>
    rcases missing_succ_eq_some.mp h with ⟨hbefore, rest, hrest, rfl⟩ | ⟨hbefore, rfl⟩
    · obtain ⟨hfirst, hab'⟩ := hlinks.put a b hab hbefore
      have hrest' : missing before next fuel (next (time (filler a (next (time a))))) (time b) =
          some rest := by rwa [hlinks.time_filler]
      have hsegment := ih hab' hrest'
      rw [hlinks.filler_filler] at hsegment
      exact List.isChain_cons_cons.mpr ⟨hfirst, hsegment⟩
    · exact List.isChain_pair.mpr (hlinks.direct a b hab hbefore)

/-- **Filling makes chains** of elements that are linked. -/
theorem isChain_fill (hl : l.IsChain S) (h : fill before next time filler fuel l = some filled) :
    filled.IsChain R := by
  induction l generalizing filled with
  | nil => rw [← Option.some.inj h]; exact .nil
  | cons a l ih =>
    cases l with
    | nil => rw [← Option.some.inj h]; exact .singleton a
    | cons b l =>
      obtain ⟨hab, hl⟩ := List.isChain_cons_cons.mp hl
      obtain ⟨times, rest, htimes, hrest, rfl⟩ := fill_cons_cons_eq_some.mp h
      obtain ⟨tail, rfl⟩ : ∃ tail, rest = b :: tail :=
        List.head?_eq_some_iff.mp (head?_fill hrest)
      have hsegment := isChain_segment hlinks hab htimes
      rw [← List.cons_append] at hsegment ⊢
      exact List.isChain_split.mpr ⟨hsegment, ih hl hrest⟩

end Neighbours

/-! ### Ends -/

/-- **Times that come nearer to a bound come to an end.** -/
theorem isSome_missing {P : τ → Prop} {rank : τ → ℕ}
    (hstep : ∀ t, P t → before t bound = true → P (next t) ∧ rank (next t) < rank t)
    (ht : P t) (hfuel : rank t < fuel) : (missing before next fuel t bound).isSome := by
  induction fuel generalizing t with
  | zero => omega
  | succ fuel ih =>
    rw [missing]
    split_ifs with hbefore
    · obtain ⟨hnext, hrank⟩ := hstep t ht hbefore
      rw [Option.isSome_map]
      exact ih hnext (by omega)
    · rfl

/-- A series is filled if there is an end to what is missing between neighbours. -/
theorem isSome_fill
    (h : l.IsChain fun a b => (missing before next fuel (next (time a)) (time b)).isSome) :
    (fill before next time filler fuel l).isSome := by
  induction l with
  | nil => rfl
  | cons a l ih =>
    cases l with
    | nil => rfl
    | cons b l =>
      obtain ⟨hab, hl⟩ := List.isChain_cons_cons.mp h
      obtain ⟨times, htimes⟩ := Option.isSome_iff_exists.mp hab
      obtain ⟨rest, hrest⟩ := Option.isSome_iff_exists.mp (ih hl)
      exact Option.isSome_iff_exists.mpr
        ⟨_, fill_cons_cons_eq_some.mpr ⟨times, rest, htimes, hrest, rfl⟩⟩

end Filling
