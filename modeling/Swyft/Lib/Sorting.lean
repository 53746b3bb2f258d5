import Mathlib.Data.List.Sort
import Mathlib.Data.List.TakeWhile

/-!
# Stable sorting and selection

Insertion sort is stable, so that it does not matter whether elements are selected before they are
sorted or afterwards.

## Main results

* `Sorting.filter_insertionSort` — selecting from a sorted list is sorting the selection
* `Sorting.takeWhile_prefix_filter` — the first elements of a selection
* `Sorting.eq_of_mem_iff` — a list in strictly rising order is known by its elements
* `Sorting.filter_window_append` — a sorted list is cut into windows of its keys
-/

namespace Sorting

variable {α : Type} {r : α → α → Prop} [DecidableRel r] {p : α → Bool}

/-- What is put into a sorted list stands in the same place of a selection from it. -/
theorem filter_orderedInsert [IsTrans α r] {a : α} {l : List α} (hl : l.Pairwise r) :
    (l.orderedInsert r a).filter p
      = if p a then (l.filter p).orderedInsert r a else l.filter p := by
  induction l with
  | nil =>
    rw [List.orderedInsert_nil, List.filter_cons]
    rfl
  | cons b l ih =>
    obtain ⟨hb, hl⟩ := List.pairwise_cons.mp hl
    rw [List.orderedInsert_cons]
    split
    case isTrue hab =>
      -- what is left of the list is all after `a`
      have hfirst : (((b :: l).filter p).orderedInsert r a) = a :: (b :: l).filter p := by
        cases hrest : (b :: l).filter p with
        | nil => rfl
        | cons c rest =>
          have hc : c ∈ b :: l := List.mem_of_mem_filter (hrest ▸ List.mem_cons_self)
          refine List.orderedInsert_cons_of_le r rest ?_
          rcases List.mem_cons.mp hc with rfl | hc
          · exact hab
          · exact trans_of r hab (hb c hc)
      rw [hfirst, List.filter_cons]
    case isFalse hab =>
      rw [List.filter_cons, List.filter_cons, ih hl]
      by_cases hpb : p b
      · rw [if_pos hpb, if_pos hpb]
        by_cases hpa : p a
        · rw [if_pos hpa, if_pos hpa, List.orderedInsert_of_not_le r _ hab]
        · rw [if_neg hpa, if_neg hpa]
      · rw [if_neg hpb, if_neg hpb]

/-- **Selecting from a sorted list is sorting the selection.** -/
theorem filter_insertionSort [IsTrans α r] [Std.Total r] (l : List α) :
    (l.insertionSort r).filter p = (l.filter p).insertionSort r := by
  induction l with
  | nil => rfl
  | cons a l ih =>
    rw [List.insertionSort_cons, filter_orderedInsert (List.pairwise_insertionSort r l), ih,
      List.filter_cons]
    split
    case isTrue => rw [List.insertionSort_cons]
    case isFalse => rfl

/-- The elements before the first one that is left out are the first of a selection. -/
theorem takeWhile_prefix_filter (p : α → Bool) (l : List α) : l.takeWhile p <+: l.filter p := by
  obtain ⟨rest, hrest⟩ := List.takeWhile_prefix p (l := l)
  have hfirst : (l.takeWhile p).filter p = l.takeWhile p :=
    List.filter_eq_self.mpr fun a ha => List.mem_takeWhile_imp ha
  refine ⟨rest.filter p, ?_⟩
  conv_rhs => rw [← hrest]
  rw [List.filter_append, hfirst]

/-- A list in strictly rising order is known by its elements. -/
theorem eq_of_mem_iff {κ : Type} [LinearOrder κ] {key : α → κ} {l l' : List α}
    (hl : l.Pairwise fun a b => key a < key b) (hl' : l'.Pairwise fun a b => key a < key b)
    (h : ∀ a, a ∈ l ↔ a ∈ l') : l = l' := by
  have hnodup : l.Nodup := hl.imp fun hlt heq => absurd (heq ▸ hlt) (lt_irrefl _)
  have hnodup' : l'.Nodup := hl'.imp fun hlt heq => absurd (heq ▸ hlt) (lt_irrefl _)
  refine ((List.perm_ext_iff_of_nodup hnodup hnodup').mpr h).eq_of_pairwise ?_ hl hl'
  intro a b _ _ hab hba
  exact absurd (hab.trans hba) (lt_irrefl _)

section Windows

variable {κ : Type} [LinearOrder κ] {key : α → κ}

/-- What lies below a bound comes before what does not. -/
theorem filter_lt_append {l : List α} (hl : l.Pairwise fun a b => key a ≤ key b) (bound : κ) :
    l.filter (fun a => key a < bound) ++ l.filter (fun a => bound ≤ key a) = l := by
  induction l with
  | nil => rfl
  | cons a l ih =>
    obtain ⟨ha, hl⟩ := List.pairwise_cons.mp hl
    by_cases hlt : key a < bound
    · rw [List.filter_cons_of_pos (by simpa using hlt),
        List.filter_cons_of_neg (by simpa using hlt), List.cons_append, ih hl]
    · have hnone : l.filter (fun a => key a < bound) = [] := by
        refine List.filter_eq_nil_iff.mpr fun b hb => ?_
        simpa using (not_lt.mp hlt).trans (ha b hb)
      have hall : l.filter (fun a => bound ≤ key a) = l := by
        refine List.filter_eq_self.mpr fun b hb => ?_
        simpa using (not_lt.mp hlt).trans (ha b hb)
      rw [List.filter_cons_of_neg (by simpa using hlt),
        List.filter_cons_of_pos (by simpa using not_lt.mp hlt), hnone, hall, List.nil_append]

/-- Two windows, one after the other. -/
theorem filter_window_append {l : List α} (hl : l.Pairwise fun a b => key a ≤ key b) {a b c : κ}
    (hab : a ≤ b) (hbc : b ≤ c) :
    l.filter (fun x => a ≤ key x ∧ key x < b) ++ l.filter (fun x => b ≤ key x ∧ key x < c)
      = l.filter fun x => a ≤ key x ∧ key x < c := by
  have hsplit := filter_lt_append
    (hl.filter (p := fun x => decide (a ≤ key x ∧ key x < c))) b
  rw [← hsplit, List.filter_filter, List.filter_filter]
  congr 1
  · refine List.filter_congr fun x _ => ?_
    have : a ≤ key x ∧ key x < b ↔ key x < b ∧ a ≤ key x ∧ key x < c :=
      ⟨fun h => ⟨h.2, h.1, h.2.trans_le hbc⟩, fun h => ⟨h.2.1, h.1⟩⟩
    simp only [this, Bool.decide_and]
  · refine List.filter_congr fun x _ => ?_
    have : b ≤ key x ∧ key x < c ↔ b ≤ key x ∧ a ≤ key x ∧ key x < c :=
      ⟨fun h => ⟨h.1, hab.trans h.1, h.2⟩, fun h => ⟨h.1, h.2.2⟩⟩
    simp only [this, Bool.decide_and]

end Windows

end Sorting
