import Mathlib.Data.List.Flatten
import Mathlib.Data.List.Perm.Basic
import Mathlib.Data.List.Sort
import Mathlib.Order.Lattice
import Mathlib.Order.Nat
import Swyft.Lib.Sorting

/-!
# Pages by offset

A listing is read in pages of `limit` rows, each page by a query of its own that sorts the rows by
a key, the largest first, and skips those of the pages before. Rows with the same key come in an
order that every query chooses for itself. The pages fit together for every choice if and only if
no page ends between two rows with the same key.

## Main definitions

* `OffsetPages.page` — a page of a sorted listing, the first one being page zero
* `OffsetPages.Sorts` — what a query is promised
* `OffsetPages.Splits` — a page ends between two rows with the same key

## Main results

* `OffsetPages.flatMap_page_eq` — the pages of one listing
* `OffsetPages.perm_of_not_splits` — without a split the pages hold every row once
* `OffsetPages.exists_not_nodup_of_splits` — with one, some choice shows a row twice
* `OffsetPages.complete_iff` — both together
* `OffsetPages.take_of_cut` — a listing of several kinds of rows, each kind cut before they are
  merged
-/

namespace OffsetPages

variable {α β κ : Type} {limit n : ℕ} {rows : List α}

/-! ### One listing -/

/-- A page, the first one being page zero. -/
def page (limit n : ℕ) (rows : List α) : List α := (rows.drop (n * limit)).take limit

/-- How many pages there are. -/
def pageCount (total limit : ℕ) : ℕ := (total + limit - 1) / limit

theorem take_append_page (limit n : ℕ) (rows : List α) :
    rows.take (n * limit) ++ page limit n rows = rows.take ((n + 1) * limit) := by
  rw [page, Nat.succ_mul, List.take_add]

/-- The first pages are the first rows. -/
theorem flatMap_page_range (limit n : ℕ) (rows : List α) :
    ((List.range n).flatMap fun i => page limit i rows) = rows.take (n * limit) := by
  induction n with
  | zero => rw [Nat.zero_mul, List.take_zero, List.range_zero, List.flatMap_nil]
  | succ n ih =>
    rw [List.range_succ, List.flatMap_append, ih, List.flatMap_singleton, take_append_page]

theorem lt_pageCount_iff {total : ℕ} (hlimit : 0 < limit) :
    n < pageCount total limit ↔ n * limit < total := by
  rw [pageCount, Nat.lt_iff_add_one_le, Nat.le_div_iff_mul_le hlimit, Nat.succ_mul]
  omega

/-- **The pages of one listing are the listing.** -/
theorem flatMap_page_eq (hlimit : 0 < limit) (rows : List α) :
    ((List.range (pageCount rows.length limit)).flatMap fun i => page limit i rows) = rows := by
  have hend := mt (lt_pageCount_iff (n := pageCount rows.length limit) hlimit).mpr (lt_irrefl _)
  rw [flatMap_page_range, List.take_of_length_le (not_lt.mp hend)]

/-! ### A listing for every query -/

section Ties

variable [LinearOrder κ] {key : α → κ}

/-- A query is promised all rows, in falling order of their keys. -/
structure Sorts (key : α → κ) (rows sorted : List α) : Prop where
  perm : sorted.Perm rows
  pairwise : sorted.Pairwise fun a b => key b ≤ key a

/-- How many rows stand before all those with the key of a row. -/
def before (key : α → κ) (rows : List α) (a : α) : ℕ := rows.countP fun b => key a < key b

/-- How many rows stand before the last of those with the key of a row, itself included. -/
def upTo (key : α → κ) (rows : List α) (a : α) : ℕ := rows.countP fun b => key a ≤ key b

/-- A page ends between two rows with the same key. -/
def Splits (key : α → κ) (limit : ℕ) (rows : List α) : Prop :=
  ∃ n, ∃ a ∈ rows, before key rows a < n * limit ∧ n * limit < upTo key rows a

/-- Rows can always be sorted. -/
theorem sorts_insertionSort (key : α → κ) (rows : List α) :
    Sorts key rows (rows.insertionSort fun a b => key b ≤ key a) := by
  let r (a b : α) : Prop := key b ≤ key a
  have : Std.Total r := ⟨fun a b => le_total (key b) (key a)⟩
  have : IsTrans α r := ⟨fun a b c hab hbc => le_trans hbc hab⟩
  exact ⟨List.perm_insertionSort r rows, List.pairwise_insertionSort r rows⟩

variable {first rest sorted sorted' : List α} {a : α}

/-- What is counted up to a row of the second part. -/
theorem lt_upTo_of_mem_right (h : (first ++ rest).Pairwise fun a b => key b ≤ key a)
    (ha : a ∈ rest) : first.length < upTo key (first ++ rest) a := by
  obtain ⟨-, -, hcross⟩ := List.pairwise_append.mp h
  have hfirst : first.countP (fun b => key a ≤ key b) = first.length :=
    List.countP_eq_length.mpr fun b hb => by simpa using hcross b hb a ha
  have hrest : 0 < rest.countP fun b => key a ≤ key b :=
    List.countP_pos_iff.mpr ⟨a, ha, by simp⟩
  rw [upTo, List.countP_append, hfirst]
  omega

/-- What is counted before a row of the first part. -/
theorem before_lt_of_mem_left (h : (first ++ rest).Pairwise fun a b => key b ≤ key a)
    (ha : a ∈ first) : before key (first ++ rest) a < first.length := by
  obtain ⟨-, -, hcross⟩ := List.pairwise_append.mp h
  have hrest : rest.countP (fun b => key a < key b) = 0 :=
    List.countP_eq_zero.mpr fun b hb => by simpa using hcross a ha b hb
  have hfirst : first.countP (fun b => key a < key b) < first.length := by
    refine lt_of_le_of_ne List.countP_le_length fun heq => ?_
    simpa using List.countP_eq_length.mp heq a ha
  rw [before, List.countP_append, hrest]
  exact hfirst

theorem Sorts.upTo_eq (h : Sorts key rows sorted) : upTo key sorted = upTo key rows :=
  funext fun _ => h.perm.countP_eq _

theorem Sorts.before_eq (h : Sorts key rows sorted) : before key sorted = before key rows :=
  funext fun _ => h.perm.countP_eq _

/-- Where no page ends between two rows with the same key, its rows are known by their keys. -/
theorem Sorts.take_eq (h : Sorts key rows sorted) (hsplit : ¬ Splits key limit rows) (n : ℕ) :
    sorted.take (n * limit) = sorted.filter fun a => upTo key rows a ≤ n * limit := by
  have hparts : sorted.take (n * limit) ++ sorted.drop (n * limit) = sorted :=
    List.take_append_drop _ _
  have hpairwise := h.pairwise
  rw [← hparts] at hpairwise
  have hfirst : (sorted.take (n * limit)).filter (fun a => upTo key rows a ≤ n * limit)
      = sorted.take (n * limit) := by
    refine List.filter_eq_self.mpr fun a ha => ?_
    have hbefore := before_lt_of_mem_left hpairwise ha
    rw [hparts, h.before_eq] at hbefore
    have hmem : a ∈ rows := h.perm.mem_iff.mp (List.mem_of_mem_take ha)
    by_contra hlate
    refine hsplit ⟨n, a, hmem, hbefore.trans_le (List.length_take_le _ _), ?_⟩
    simpa using hlate
  have hrest : (sorted.drop (n * limit)).filter (fun a => upTo key rows a ≤ n * limit) = [] := by
    refine List.filter_eq_nil_iff.mpr fun a ha => ?_
    have hupTo := lt_upTo_of_mem_right hpairwise ha
    have hlong : n * limit ≤ sorted.length := by
      by_contra hshort
      rw [List.drop_of_length_le (not_le.mp hshort).le] at ha
      exact List.not_mem_nil ha
    rw [hparts, h.upTo_eq, List.length_take_of_le hlong] at hupTo
    simpa using hupTo
  conv_rhs => rw [← hparts]
  rw [List.filter_append, hfirst, hrest, List.append_nil]

/-- A page holds the same rows in every listing. -/
theorem Sorts.page_perm (h : Sorts key rows sorted) (h' : Sorts key rows sorted')
    (hsplit : ¬ Splits key limit rows) (n : ℕ) :
    (page limit n sorted).Perm (page limit n sorted') := by
  have htake : ∀ m, (sorted.take (m * limit)).Perm (sorted'.take (m * limit)) := fun m => by
    rw [h.take_eq hsplit, h'.take_eq hsplit]
    exact (h.perm.trans h'.perm.symm).filter _
  have hboth := htake (n + 1)
  rw [← take_append_page, ← take_append_page] at hboth
  exact (List.perm_append_left_iff _).mp (((htake n).symm.append_right _).trans hboth)

variable {order : ℕ → List α}

/-- **Without a split the pages hold every row once**, whatever order each query chooses. -/
theorem perm_of_not_splits (hlimit : 0 < limit) (hsplit : ¬ Splits key limit rows)
    (horder : ∀ i, Sorts key rows (order i)) :
    ((List.range (pageCount rows.length limit)).flatMap fun i => page limit i (order i)).Perm
      rows := by
  have hone : ((List.range (pageCount rows.length limit)).flatMap
      fun i => page limit i (order i)).Perm
      ((List.range (pageCount rows.length limit)).flatMap fun i => page limit i (order 0)) :=
    List.Perm.flatMap_left _ fun i _ => (horder i).page_perm (horder 0) hsplit i
  rw [← (horder 0).perm.length_eq, flatMap_page_eq hlimit] at hone
  rw [← (horder 0).perm.length_eq]
  exact hone.trans (horder 0).perm

/-- Two rows with the same key, one on each side of the end of a page. -/
theorem Sorts.exists_pair (h : Sorts key rows sorted) {m : ℕ}
    (hbefore : before key rows a < m) (hupTo : m < upTo key rows a) :
    ∃ first b c rest, sorted = first ++ b :: c :: rest ∧ first.length + 1 = m ∧
      key b = key c := by
  have hlong : m < sorted.length := by
    rw [← h.upTo_eq] at hupTo
    exact hupTo.trans_le List.countP_le_length
  obtain ⟨k, rfl⟩ : ∃ k, m = k + 1 := ⟨m - 1, by omega⟩
  have hsplit : sorted = sorted.take k ++ sorted[k] :: sorted[k + 1] :: sorted.drop (k + 2) := by
    rw [← List.drop_eq_getElem_cons hlong, ← List.drop_eq_getElem_cons (by omega),
      List.take_append_drop]
  refine ⟨_, _, _, _, hsplit, by rw [List.length_take_of_le (by omega)], ?_⟩
  have hpairwise := h.pairwise
  rw [hsplit] at hpairwise
  -- the first part with the row `b` is too long to come before `a`, and to reach behind it
  have hb : key sorted[k] ≤ key a := by
    by_contra hlt
    have hall : (sorted.take (k + 1)).countP (fun b => key a < key b)
        = (sorted.take (k + 1)).length := by
      refine List.countP_eq_length.mpr fun b hb => ?_
      rw [List.take_succ_eq_append_getElem (by omega)] at hb
      rcases List.mem_append.mp hb with hb | hb
      · have hle := (List.pairwise_append.mp hpairwise).2.2 b hb _ List.mem_cons_self
        simpa using (not_le.mp hlt).trans_le hle
      · rw [List.mem_singleton.mp hb]
        simpa using hlt
    have hcount : (sorted.take (k + 1)).countP (fun b => key a < key b)
        ≤ before key sorted a := (List.take_sublist _ _).countP_le
    rw [hall, List.length_take_of_le hlong.le, h.before_eq] at hcount
    omega
  have hc : key a ≤ key sorted[k + 1] := by
    by_contra hlt
    have hnone : (sorted.drop (k + 1)).countP (fun b => key a ≤ key b) = 0 := by
      refine List.countP_eq_zero.mpr fun b hb => ?_
      rw [List.drop_eq_getElem_cons hlong] at hb
      rcases List.mem_cons.mp hb with rfl | hb
      · simpa using hlt
      · have htail := (List.pairwise_append.mp hpairwise).2.1
        have hle := (List.pairwise_cons.mp (List.pairwise_cons.mp htail).2).1 b hb
        simpa using hle.trans_lt (not_le.mp hlt)
    rw [← h.upTo_eq, upTo, ← List.take_append_drop (k + 1) sorted, List.countP_append,
      hnone] at hupTo
    have hcount := List.countP_le_length (p := fun b => key a ≤ key b) (l := sorted.take (k + 1))
    rw [List.length_take_of_le hlong.le] at hcount
    omega
  have htail := (List.pairwise_append.mp hpairwise).2.1
  exact le_antisymm (hb.trans hc) ((List.pairwise_cons.mp htail).1 _ List.mem_cons_self)

/-- Two rows with the same key may change places. -/
theorem Sorts.swap {b c : α} (h : Sorts key rows (first ++ b :: c :: rest))
    (hkey : key b = key c) : Sorts key rows (first ++ c :: b :: rest) := by
  refine ⟨((List.Perm.swap b c rest).append_left first).trans h.perm, ?_⟩
  have hpairwise := h.pairwise
  simp only [List.pairwise_append, List.pairwise_cons, List.mem_cons, forall_eq_or_imp]
    at hpairwise ⊢
  obtain ⟨hfirst, ⟨⟨-, hb⟩, hc, hrest⟩, hcross⟩ := hpairwise
  refine ⟨hfirst, ⟨⟨hkey.le, hc⟩, hb, hrest⟩, fun x hx => ?_⟩
  obtain ⟨hxb, hxc, hxrest⟩ := hcross x hx
  exact ⟨hxc, hxb, hxrest⟩

/-- **With a split some choice shows a row twice.** -/
theorem exists_not_nodup_of_splits (hlimit : 0 < limit)
    (hsplit : Splits key limit rows) :
    ∃ order : ℕ → List α, (∀ i, Sorts key rows (order i)) ∧
      ¬ ((List.range (pageCount rows.length limit)).flatMap
          fun i => page limit i (order i)).Nodup := by
  obtain ⟨n, a, -, hbefore, hupTo⟩ := hsplit
  have hsorted := sorts_insertionSort key rows
  obtain ⟨first, b, c, rest, heq, hlength, hkey⟩ := hsorted.exists_pair hbefore hupTo
  rw [heq] at hsorted
  -- the query of page `n` has `b` first, which the page before it has last
  obtain ⟨m, rfl⟩ : ∃ m, n = m + 1 := by
    refine ⟨n - 1, ?_⟩
    have : n ≠ 0 := fun h0 => by rw [h0, Nat.zero_mul] at hbefore; exact absurd hbefore (by omega)
    omega
  let order (i : ℕ) : List α :=
    if i = m + 1 then first ++ c :: b :: rest else first ++ b :: c :: rest
  have horder : ∀ i, Sorts key rows (order i) := by
    intro i
    by_cases hi : i = m + 1
    · simpa only [order, if_pos hi] using hsorted.swap hkey
    · simpa only [order, if_neg hi] using hsorted
  refine ⟨order, horder, fun hnodup' => ?_⟩
  have hlast : (m + 1) * limit < rows.length := hupTo.trans_le List.countP_le_length
  have hlt : m + 1 < pageCount rows.length limit := (lt_pageCount_iff hlimit).mpr hlast
  rw [Nat.succ_mul] at hlength
  have hmem : b ∈ page limit m (order m) := by
    simp only [order, if_neg (Nat.lt_succ_self m).ne, page]
    refine List.mem_take_iff_getElem.mpr ⟨limit - 1, ?_, ?_⟩
    · simp only [List.length_drop, List.length_append, List.length_cons]
      omega
    · rw [List.getElem_drop, List.getElem_append_right (by omega)]
      simp only [show m * limit + (limit - 1) - first.length = 0 by omega, List.getElem_cons_zero]
  have hmem' : b ∈ page limit (m + 1) (order (m + 1)) := by
    simp only [order, if_pos, page]
    refine List.mem_take_iff_getElem.mpr ⟨0, ?_, ?_⟩
    · simp only [List.length_drop, List.length_append, List.length_cons, Nat.succ_mul]
      omega
    · rw [List.getElem_drop, List.getElem_append_right (by rw [Nat.succ_mul]; omega)]
      simp only [show (m + 1) * limit + 0 - first.length = 1 by rw [Nat.succ_mul]; omega,
        List.getElem_cons_succ, List.getElem_cons_zero]
  have hdisjoint := (List.nodup_flatMap.mp hnodup').2
  have hapart := List.pairwise_iff_getElem.mp hdisjoint m (m + 1)
    (by rw [List.length_range]; omega) (by rw [List.length_range]; omega) (Nat.lt_succ_self m)
  rw [List.getElem_range, List.getElem_range] at hapart
  exact hapart hmem hmem'

/-- A way of sorting rows by their key, the largest first. -/
def Orders (key : α → κ) (order : List α → List α) : Prop := ∀ l, Sorts key l (order l)

/-- **The pages are complete for every choice of the queries, if and only if no page ends between
two rows with the same key.** The rows are told apart by what is shown of them. -/
theorem complete_iff {view : α → β} (hlimit : 0 < limit) (hnodup : (rows.map view).Nodup) :
    (∀ order : ℕ → List α → List α, (∀ i, Orders key (order i)) →
        ((List.range (pageCount rows.length limit)).flatMap
          fun i => (page limit i (order i rows)).map view).Perm (rows.map view)) ↔
      ¬ Splits key limit rows := by
  classical
  simp only [← List.map_flatMap]
  refine ⟨fun h hsplit => ?_,
    fun h order horder => (perm_of_not_splits hlimit h fun i => horder i rows).map view⟩
  obtain ⟨order, horder, htwice⟩ := exists_not_nodup_of_splits hlimit hsplit
  let choice (i : ℕ) (l : List α) : List α :=
    if l = rows then order i else l.insertionSort fun a b => key b ≤ key a
  have hchoice : ∀ i, Orders key (choice i) := by
    intro i l
    show Sorts key l (if l = rows then order i else l.insertionSort fun a b => key b ≤ key a)
    by_cases hl : l = rows
    · rw [if_pos hl, hl]
      exact horder i
    · rw [if_neg hl]
      exact sorts_insertionSort key l
  have hperm := h choice hchoice
  simp only [choice, if_pos] at hperm
  exact htwice (hperm.nodup_iff.mpr hnodup).of_map

end Ties

/-! ### Several kinds of rows -/

section Kinds

variable [LinearOrder κ] {key : α → κ} {m : ℕ} {all cut : List α} {kinds : List (List α)}

/-- Rows with keys of their own are in strictly falling order. -/
theorem Sorts.strict {sorted : List α} (h : Sorts key rows sorted)
    (hnodup : (rows.map key).Nodup) : sorted.Pairwise fun a b => key b < key a := by
  have hne : sorted.Pairwise fun a b => key a ≠ key b :=
    List.pairwise_map.mp ((h.perm.map key).nodup_iff.mpr hnodup)
  exact h.pairwise.imp₂ (fun a b hle hne => lt_of_le_of_ne hle (Ne.symm hne)) hne

theorem upTo_eq_add (rows : List α) (a : α) :
    upTo key rows a = before key rows a + (rows.map key).count (key a) := by
  induction rows with
  | nil => rfl
  | cons b rows ih =>
    rw [upTo, before] at ih ⊢
    rw [List.map_cons, List.countP_cons, List.countP_cons, List.count_cons, ih]
    rcases lt_trichotomy (key a) (key b) with hlt | heq | hgt
    · simp [hlt, hlt.le, hlt.ne']
      omega
    · simp [heq, Nat.add_assoc]
    · simp [not_le.mpr hgt, not_lt.mpr hgt.le, hgt.ne]

/-- Of each kind, the first `n` rows hold those among the first `m` rows of all kinds. -/
theorem mem_take_of_mem_take (hkinds : ∀ kind ∈ kinds, kind.Pairwise fun a b => key b ≤ key a)
    (hall : Sorts key kinds.flatten all) (hnodup : (kinds.flatten.map key).Nodup) (hle : m ≤ n)
    {a : α} (ha : a ∈ all.take m) : a ∈ kinds.flatMap (List.take n) := by
  obtain ⟨kind, hkind, hmem⟩ :=
    List.mem_flatten.mp (hall.perm.mem_iff.mp (List.mem_of_mem_take ha))
  refine List.mem_flatMap.mpr ⟨kind, hkind, ?_⟩
  rw [← List.take_append_drop n kind, List.mem_append] at hmem
  refine hmem.resolve_right fun hlate => ?_
  -- More than `n` rows of the kind have a key that is not smaller, so `n` rows stand before.
  have hlong : n ≤ kind.length := by
    by_contra hshort
    rw [List.drop_of_length_le (not_le.mp hshort).le] at hlate
    exact List.not_mem_nil hlate
  have hupTo : n < upTo key kind a := by
    have hcount := lt_upTo_of_mem_right
      ((List.take_append_drop n kind).symm ▸ hkinds kind hkind) hlate
    rwa [List.length_take_of_le hlong, List.take_append_drop] at hcount
  have hkindAll : upTo key kind a ≤ upTo key all a := by
    rw [hall.upTo_eq]
    exact (List.sublist_flatten_of_mem hkind).countP_le
  have hbefore : before key all a < m := by
    have hcount := before_lt_of_mem_left
      ((List.take_append_drop m all).symm ▸ hall.pairwise) ha
    rw [List.take_append_drop] at hcount
    exact hcount.trans_le (List.length_take_le m all)
  have hone : (all.map key).count (key a) ≤ 1 :=
    List.nodup_iff_count_le_one.mp ((hall.perm.map key).nodup_iff.mpr hnodup) (key a)
  rw [upTo_eq_add all] at hkindAll
  omega

/-- **Kinds that are cut and merged** show the first rows as if they were not cut. -/
theorem take_of_cut (hkinds : ∀ kind ∈ kinds, kind.Pairwise fun a b => key b ≤ key a)
    (hall : Sorts key kinds.flatten all) (hcut : Sorts key (kinds.flatMap (List.take n)) cut)
    (hnodup : (kinds.flatten.map key).Nodup) (hle : m ≤ n) : cut.take m = all.take m := by
  classical
  have hsub : (kinds.flatMap (List.take n)).Sublist kinds.flatten := by
    rw [← List.flatMap_id]
    exact List.Sublist.flatMap_right kinds fun kind _ => List.take_sublist n kind
  have hfilter : cut = all.filter (· ∈ kinds.flatMap (List.take n)) := by
    have hstrict : cut.Pairwise fun a b => OrderDual.toDual (key a) < OrderDual.toDual (key b) :=
      hcut.strict (hnodup.sublist (hsub.map key))
    refine Sorting.eq_of_mem_iff hstrict ((hall.strict hnodup).filter _) fun a => ?_
    rw [List.mem_filter, decide_eq_true_iff, hcut.perm.mem_iff, hall.perm.mem_iff]
    exact ⟨fun h => ⟨hsub.subset h, h⟩, And.right⟩
  have hfirst : (all.take m).filter (· ∈ kinds.flatMap (List.take n)) = all.take m :=
    List.filter_eq_self.mpr fun a ha =>
      decide_eq_true (mem_take_of_mem_take hkinds hall hnodup hle ha)
  rw [hfilter]
  conv_lhs => rw [← List.take_append_drop m all]
  rw [List.filter_append, hfirst, List.take_append, List.take_take, Nat.min_self]
  by_cases hlong : m ≤ all.length
  · rw [List.length_take_of_le hlong, Nat.sub_self, List.take_zero, List.append_nil]
  · rw [List.drop_of_length_le (not_le.mp hlong).le, List.filter_nil, List.take_nil,
      List.append_nil]

end Kinds

end OffsetPages
