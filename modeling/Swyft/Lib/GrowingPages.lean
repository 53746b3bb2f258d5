import Mathlib.Data.List.Flatten
import Swyft.Lib.Keyset

/-!
# Pages of a table that grows

Rows in strictly rising order of a key are read in pages, one in each round, until a page is not
full. A page holds the first rows after the last one of the page before. Between two rounds rows may
be added to the table, anywhere.

## Main definitions

* `Keyset.Reads` — the pages that are read

## Main results

* `Keyset.Reads.sorted` — no row is read twice
* `Keyset.Reads.mem` — every row is read that was there from the start
* `Keyset.exists_reads` — reading comes to an end, if there is a bound to the table
-/

namespace Keyset

variable {α κ : Type} [LinearOrder κ] {key : α → κ} {limit n : ℕ} {rows : ℕ → List α}
  {cursor : Option κ} {pages : List (List α)}

/-- The pages that are read from a round and a cursor on. -/
inductive Reads (key : α → κ) (limit : ℕ) (rows : ℕ → List α) :
    ℕ → Option κ → List (List α) → Prop where
  | last {n : ℕ} {cursor : Option κ} (hshort : (after key (rows n) cursor).length < limit) :
      Reads key limit rows n cursor [after key (rows n) cursor]
  | more {n : ℕ} {cursor : Option κ} {first : List α} {a : α} {pages : List (List α)}
      (hpage : (after key (rows n) cursor).take limit = first ++ [a])
      (hrest : Reads key limit rows (n + 1) (some (key a)) pages) :
      Reads key limit rows n cursor ((first ++ [a]) :: pages)

theorem mem_after {as : List α} {a : α} :
    a ∈ after key as cursor ↔ a ∈ as ∧ ∀ t ∈ cursor, t < key a := by
  cases cursor with
  | none => simp [after]
  | some t => simp [after]

theorem pairwise_after {as : List α} (h : as.Pairwise fun a b => key a < key b)
    (cursor : Option κ) : (after key as cursor).Pairwise fun a b => key a < key b := by
  cases cursor with
  | none => exact h
  | some t => exact h.filter _

/-- What is read comes from the table, at some time. -/
theorem Reads.sound (h : Reads key limit rows n cursor pages) :
    ∀ a ∈ pages.flatten, ∃ m, n ≤ m ∧ a ∈ rows m := by
  induction h with
  | last =>
    intro a ha
    exact ⟨_, le_rfl, (mem_after.mp (by simpa using ha)).1⟩
  | more hpage hrest ih =>
    intro a ha
    rcases List.mem_append.mp (List.flatten_cons ▸ ha) with ha | ha
    · exact ⟨_, le_rfl, (mem_after.mp (List.mem_of_mem_take (hpage ▸ ha))).1⟩
    · obtain ⟨m, hm, hmem⟩ := ih a ha
      exact ⟨m, (Nat.le_succ _).trans hm, hmem⟩

/-- **No row is read twice**: the rows are read in strictly rising order, from the cursor on. -/
theorem Reads.sorted (hsorted : ∀ m, (rows m).Pairwise fun a b => key a < key b)
    (h : Reads key limit rows n cursor pages) :
    (pages.flatten.Pairwise fun a b => key a < key b) ∧
      ∀ a ∈ pages.flatten, ∀ t ∈ cursor, t < key a := by
  induction h with
  | @last n cursor =>
    rw [List.flatten_singleton]
    exact ⟨pairwise_after (hsorted n) cursor, fun a ha => (mem_after.mp ha).2⟩
  | @more n cursor first a pages hpage hrest ih =>
    have hpair := (pairwise_after (hsorted n) cursor).sublist (List.take_sublist limit _)
    rw [hpage] at hpair
    have hin : ∀ b ∈ first ++ [a], ∀ t ∈ cursor, t < key b := fun b hb =>
      (mem_after.mp (List.mem_of_mem_take (hpage ▸ hb))).2
    have hlast : ∀ b ∈ first ++ [a], key b ≤ key a := by
      intro b hb
      rcases List.mem_append.mp hb with hb | hb
      · exact ((List.pairwise_append.mp hpair).2.2 b hb a List.mem_cons_self).le
      · rw [List.mem_singleton.mp hb]
    rw [List.flatten_cons]
    constructor
    · refine List.pairwise_append.mpr ⟨hpair, ih.1, fun b hb c hc => ?_⟩
      exact (hlast b hb).trans_lt (ih.2 c hc _ rfl)
    · intro b hb t ht
      rcases List.mem_append.mp hb with hb | hb
      · exact hin b hb t ht
      · exact (hin a (List.mem_append_right _ List.mem_cons_self) t ht).trans (ih.2 b hb _ rfl)

/-- **Every row is read** that was in the table when reading began, if rows are only added. -/
theorem Reads.mem (hsorted : ∀ m, (rows m).Pairwise fun a b => key a < key b)
    (hgrows : ∀ m, rows m ⊆ rows (m + 1)) (h : Reads key limit rows n cursor pages) :
    ∀ a ∈ after key (rows n) cursor, a ∈ pages.flatten := by
  induction h with
  | last =>
    intro a ha
    simpa using ha
  | @more n cursor first a pages hpage hrest ih =>
    intro b hb
    rw [List.flatten_cons, List.mem_append]
    have hpair := pairwise_after (hsorted n) cursor
    rw [← List.take_append_drop limit (after key (rows n) cursor), hpage] at hb hpair
    rcases List.mem_append.mp hb with hfirst | hlater
    · exact .inl hfirst
    · have hlt : key a < key b := (List.pairwise_append.mp hpair).2.2 a
        (List.mem_append_right _ List.mem_cons_self) b hlater
      have hrow : b ∈ rows n := (mem_after.mp (List.mem_of_mem_drop hlater)).1
      exact .inr (ih b (mem_after.mpr ⟨hgrows n hrow, by simpa using hlt⟩))

/-- **Reading comes to an end**, if all rows that are ever added are among finitely many. -/
theorem exists_reads (hlimit : 0 < limit) {all : List α} (hall : ∀ m, rows m ⊆ all) (n : ℕ)
    (cursor : Option κ) : ∃ pages, Reads key limit rows n cursor pages := by
  -- by induction on how many rows could be left
  induction hleft : (after key all cursor).length using Nat.strongRecOn generalizing n cursor with
  | _ left ih =>
    subst hleft
    rcases Nat.lt_or_ge (after key (rows n) cursor).length limit with hshort | hfull
    · exact ⟨_, .last hshort⟩
    · obtain ⟨first, a, rest, hpage, hsplit⟩ := exists_last_of_take hlimit hfull
      have ha : a ∈ after key (rows n) cursor := by
        rw [← hsplit]
        simp
      obtain ⟨harow, hacursor⟩ := mem_after.mp ha
      have hfewer : (after key all (some (key a))).length < (after key all cursor).length := by
        have hsub : after key all (some (key a))
            = (after key all cursor).filter fun b => key a < key b := by
          cases cursor with
          | none => rfl
          | some t =>
            rw [after, after, List.filter_filter]
            refine List.filter_congr fun b _ => ?_
            have ht : t < key a := hacursor t rfl
            simpa using fun hab : key a < key b => ht.trans hab
        rw [hsub]
        refine List.length_filter_lt_length_iff_exists.mpr ⟨a, ?_, by simp⟩
        exact mem_after.mpr ⟨hall n harow, hacursor⟩
      obtain ⟨pages, hpages⟩ := ih _ hfewer (n + 1) (some (key a)) rfl
      exact ⟨_, .more hpage hpages⟩

end Keyset
