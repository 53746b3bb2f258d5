import Mathlib.Algebra.BigOperators.Group.List.Basic
import Mathlib.Data.List.Nodup
import Mathlib.Data.List.Pairwise
import Mathlib.Order.Lattice
import Swyft.Lib.OrderedMap

/-!
# Lists grouped by a key

A list is put into groups by a key, the groups in the order in which their keys first appear, as
an insertion-ordered map does. Each group keeps the order of the list, but between groups the
order is lost: a group that goes on after another has begun encloses elements of it.

## Main results

* `grouped_cons` — the first group, and the groups of the rest
* `mem_grouped` — what the groups are
* `ordered_iff` — the first groups, one after the other, are in order exactly if they enclose
  nothing
* `entries_set_insert` — a map of what is made of the groups, as elements come one by one
* `totals_apply` — the total of each key, where values are summed up by keys
-/

namespace Grouping

variable {α κ : Type} [DecidableEq κ] {key : α → κ}

/-- Puts an element into the group of its key, the last one if it is new. -/
def insert (key : α → κ) : List (κ × List α) → α → List (κ × List α)
  | [], a => [(key a, [a])]
  | (k, as) :: groups, a =>
    if k = key a then (k, as ++ [a]) :: groups else (k, as) :: insert key groups a

def grouped (key : α → κ) (as : List α) : List (κ × List α) := as.foldl (insert key) []

theorem foldl_insert_cons (k : κ) (as : List α) (groups : List (κ × List α)) (xs : List α) :
    xs.foldl (insert key) ((k, as) :: groups) =
      (k, as ++ xs.filter fun x => k = key x) ::
        (xs.filter fun x => k ≠ key x).foldl (insert key) groups := by
  induction xs generalizing as groups with
  | nil => simp
  | cons x xs ih =>
    by_cases hx : k = key x
    · subst hx
      simp [insert, ih]
    · simp [insert, hx, ih]

/-- The first element opens the first group. -/
theorem grouped_cons (x : α) (xs : List α) :
    grouped key (x :: xs) =
      (key x, x :: xs.filter fun y => key x = key y) ::
        grouped key (xs.filter fun y => key x ≠ key y) :=
  foldl_insert_cons (key x) [x] [] xs

theorem length_filter_lt (p : α → Bool) (x : α) (xs : List α) :
    (xs.filter p).length < (x :: xs).length :=
  Nat.lt_succ_of_le (List.length_filter_le ..)

/-- Every key has one group, of all its elements. -/
theorem mem_grouped {k : κ} {as : List α} : (xs : List α) →
    ((k, as) ∈ grouped key xs ↔ k ∈ xs.map key ∧ as = xs.filter fun x => k = key x)
  | [] => by simp [grouped]
  | x :: xs => by
    rw [grouped_cons, List.mem_cons, mem_grouped (xs.filter fun y => key x ≠ key y)]
    by_cases hk : k = key x
    · subst hk
      simpa using fun y _ hne heq => absurd (Eq.symm heq) hne
    · have hfilter : (xs.filter fun y => key x ≠ key y).filter (fun y => k = key y)
          = xs.filter fun y => k = key y := by
        rw [List.filter_filter]
        refine List.filter_congr fun y _ => ?_
        by_cases hy : k = key y
        · subst hy
          simp [Ne.symm hk]
        · simp [hy]
      have hkeys : k ∈ (xs.filter fun y => key x ≠ key y).map key ↔ k ∈ (x :: xs).map key := by
        simp only [List.mem_map, List.mem_filter, decide_eq_true_eq, List.mem_cons]
        constructor
        · rintro ⟨y, ⟨hy, -⟩, rfl⟩
          exact ⟨y, .inr hy, rfl⟩
        · rintro ⟨y, rfl | hy, rfl⟩
          · exact absurd rfl hk
          · exact ⟨y, ⟨hy, Ne.symm hk⟩, rfl⟩
      rw [hfilter, hkeys]
      simp [hk]
termination_by xs => xs.length
decreasing_by exact length_filter_lt _ x xs

/-- An earlier group begins before all of a later one. -/
theorem grouped_pairwise {R : α → α → Prop} : (xs : List α) → xs.Pairwise R →
    (grouped key xs).Pairwise fun g h => g.1 ≠ h.1 ∧ ∃ a ∈ g.2, ∀ b ∈ h.2, R a b
  | [], _ => .nil
  | x :: xs, h => by
    obtain ⟨hx, hxs⟩ := List.pairwise_cons.mp h
    rw [grouped_cons]
    refine .cons (fun g hg => ?_) (grouped_pairwise _ (hxs.filter _))
    obtain ⟨hkey, has⟩ := (mem_grouped _).mp hg
    obtain ⟨y, hy, hgy⟩ := List.mem_map.mp hkey
    refine ⟨?_, x, .head _, fun b hb => hx b ?_⟩
    · rw [← hgy]
      simpa using (List.mem_filter.mp hy).2
    · rw [has] at hb
      exact (List.mem_filter.mp (List.mem_filter.mp hb).1).1
termination_by xs => xs.length
decreasing_by exact length_filter_lt _ x xs

theorem grouped_concat (xs : List α) (a : α) :
    grouped key (xs ++ [a]) = insert key (grouped key xs) a := by
  rw [grouped, List.foldl_append]
  rfl

theorem nodup_keys_grouped (xs : List α) : ((grouped key xs).map Prod.fst).Nodup :=
  List.pairwise_map.mpr
    ((grouped_pairwise (R := fun _ _ => True) xs (List.pairwise_of_forall fun _ _ => trivial)).imp
      And.left)

theorem insert_of_notMem {groups : List (κ × List α)} {a : α}
    (h : key a ∉ groups.map Prod.fst) : insert key groups a = groups ++ [(key a, [a])] := by
  induction groups with
  | nil => rfl
  | cons g groups ih =>
    rw [List.map_cons, List.mem_cons, not_or] at h
    rw [insert, if_neg (Ne.symm h.1), ih h.2, List.cons_append]

theorem insert_of_mem {groups : List (κ × List α)} {a : α}
    (hnodup : (groups.map Prod.fst).Nodup) (h : key a ∈ groups.map Prod.fst) :
    insert key groups a =
      groups.map fun g => if g.1 = key a then (g.1, g.2 ++ [a]) else g := by
  induction groups with
  | nil => cases h
  | cons g groups ih =>
    obtain ⟨k, as⟩ := g
    rw [List.map_cons, List.nodup_cons] at hnodup
    by_cases hk : k = key a
    · have hrest : groups.map (fun g => if g.1 = key a then (g.1, g.2 ++ [a]) else g) = groups := by
        refine (List.map_congr_left fun g hg => if_neg fun hg' => hnodup.1 ?_).trans
          (List.map_id groups)
        exact List.mem_map.mpr ⟨g, hg, hg'.trans hk.symm⟩
      rw [insert, if_pos hk, List.map_cons, if_pos hk, hrest]
    · rw [insert, if_neg hk, List.map_cons, if_neg hk, ih hnodup.2]
      exact (List.mem_cons.mp h).resolve_left (Ne.symm hk)

/-- **Groups in a map.** A map that holds what is made of every group goes on to hold it, if the
value for the group of one more element is set. -/
theorem entries_set_insert {β : Type} {m : OrderedMap κ β} {groups : List (κ × List α)}
    {total : List α → β} {a : α} {v : β} (hnodup : (groups.map Prod.fst).Nodup)
    (hm : m.entries = groups.map fun g => (g.1, total g.2))
    (hnew : key a ∉ groups.map Prod.fst → v = total [a])
    (hold : ∀ as, (key a, as) ∈ groups → v = total (as ++ [a])) :
    (m.set (key a) v).entries = (insert key groups a).map fun g => (g.1, total g.2) := by
  have hkeys : m.entries.map Prod.fst = groups.map Prod.fst := by
    rw [hm, List.map_map]
    rfl
  by_cases hk : key a ∈ groups.map Prod.fst
  · rw [OrderedMap.set, dif_pos (hkeys ▸ hk), insert_of_mem hnodup hk, List.map_map]
    show m.entries.map _ = _
    rw [hm, List.map_map]
    refine List.map_congr_left fun g hg => ?_
    by_cases hg' : g.1 = key a
    · obtain ⟨k, as⟩ := g
      obtain rfl : k = key a := hg'
      simp [hold as hg]
    · simp [hg']
  · rw [OrderedMap.set, dif_neg (hkeys ▸ hk), insert_of_notMem hk, List.map_append]
    show m.entries ++ _ = _
    rw [hm, hnew hk]
    rfl

/-! ### The first groups -/

section Order

variable {τ : Type} [LinearOrder τ] {ord : α → τ} {xs : List α} {done rest : List (κ × List α)}

/-- What the first groups hold. -/
theorem mem_flatMap_done (h : grouped key xs = done ++ rest) {x : α} :
    x ∈ done.flatMap (·.2) ↔ x ∈ xs ∧ key x ∈ done.map (·.1) := by
  have hgroup : ∀ g ∈ done, g.2 = xs.filter fun y => g.1 = key y := fun g hg =>
    ((mem_grouped xs).mp (h ▸ List.mem_append_left rest hg)).2
  simp only [List.mem_flatMap, List.mem_map]
  constructor
  · rintro ⟨g, hg, hx⟩
    rw [hgroup g hg, List.mem_filter, decide_eq_true_eq] at hx
    exact ⟨hx.1, g, hg, hx.2⟩
  · rintro ⟨hx, g, hg, hkey⟩
    refine ⟨g, hg, ?_⟩
    rw [hgroup g hg, List.mem_filter, decide_eq_true_eq]
    exact ⟨hx, hkey⟩

/-- What a group among the first ones encloses is in none of them, if they are in order. -/
theorem notMem_of_ordered (h : grouped key xs = done ++ rest)
    (hdone : (done.flatMap (·.2)).Pairwise fun a b => ord a ≤ ord b) {x y z : α} (hx : x ∈ xs)
    (hy : y ∈ xs) (hz : z ∈ xs) (hxy : ord x < ord y) (hyz : ord y < ord z) (hkey : key x = key z)
    (hne : key y ≠ key x) (hxdone : key x ∈ done.map (·.1)) : key y ∉ done.map (·.1) := by
  intro hydone
  have hgroup : ∀ g ∈ done, g.2 = xs.filter fun y => g.1 = key y := fun g hg =>
    ((mem_grouped xs).mp (h ▸ List.mem_append_left rest hg)).2
  obtain ⟨g, hg, hgx⟩ := List.mem_map.mp hxdone
  obtain ⟨g', hg', hgy⟩ := List.mem_map.mp hydone
  have hmem : x ∈ g.2 ∧ z ∈ g.2 ∧ y ∈ g'.2 := by
    rw [hgroup g hg, hgroup g' hg']
    simp [hx, hy, hz, hgx, hgy, hkey]
  have hpair : done.Pairwise fun g g' =>
      (∀ a ∈ g.2, ∀ b ∈ g'.2, ord a ≤ ord b) ∨ (∀ a ∈ g'.2, ∀ b ∈ g.2, ord a ≤ ord b) :=
    (List.pairwise_flatMap.mp hdone).2.imp fun h => .inl h
  have hne' : g ≠ g' := by
    rintro rfl
    exact hne (hgy.symm.trans hgx)
  have : Std.Symm fun g g' : κ × List α =>
      (∀ a ∈ g.2, ∀ b ∈ g'.2, ord a ≤ ord b) ∨ (∀ a ∈ g'.2, ∀ b ∈ g.2, ord a ≤ ord b) :=
    ⟨fun _ _ => Or.symm⟩
  rcases hpair.forall hg hg' hne' with hbefore | hafter
  · exact not_le_of_gt hyz (hbefore z hmem.2.1 y hmem.2.2)
  · exact not_le_of_gt hxy (hafter y hmem.2.2 x hmem.1)

/-- **The first groups in order.** One after the other they are in the order of the list, and what
is in none of them but not after all of their elements has `P`, exactly if whatever a group among
them encloses is in none of them and has `P`. -/
theorem ordered_iff (hxs : xs.Pairwise fun a b => ord a < ord b)
    (h : grouped key xs = done ++ rest) (P : α → Prop) :
    ((done.flatMap (·.2)).Pairwise (fun a b => ord a ≤ ord b) ∧
        ∀ y ∈ xs, key y ∉ done.map (·.1) → (∃ z ∈ done.flatMap (·.2), ord y ≤ ord z) → P y) ↔
      ∀ x ∈ xs, ∀ y ∈ xs, ∀ z ∈ xs, ord x < ord y → ord y < ord z → key x = key z →
        key y ≠ key x → key x ∈ done.map (·.1) → key y ∉ done.map (·.1) ∧ P y := by
  have hgroup : ∀ g ∈ done ++ rest, g.2 = xs.filter fun y => g.1 = key y := fun g hg =>
    ((mem_grouped xs).mp (h ▸ hg)).2
  have hbegins := h ▸ grouped_pairwise xs hxs
  constructor
  · rintro ⟨hdone, hleft⟩ x hx y hy z hz hxy hyz hkey hne hxdone
    have hydone := notMem_of_ordered h hdone hx hy hz hxy hyz hkey hne hxdone
    have hzdone := (mem_flatMap_done h).mpr ⟨hz, hkey ▸ hxdone⟩
    exact ⟨hydone, hleft y hy hydone ⟨z, hzdone, le_of_lt hyz⟩⟩
  · intro hall
    refine ⟨List.pairwise_flatMap.mpr ⟨fun g hg => ?_, ?_⟩, fun y hy hydone ⟨z, hz, hyz⟩ => ?_⟩
    · rw [hgroup g (List.mem_append_left _ hg)]
      exact (hxs.filter _).imp le_of_lt
    · -- a later group that comes back before an earlier one is enclosed by it
      refine (List.pairwise_append.mp hbegins).1.imp_of_mem
        fun {g g'} hg hg' ⟨hkeys, a, ha, hfirst⟩ x hx y hy => ?_
      rw [hgroup g (List.mem_append_left _ hg), List.mem_filter, decide_eq_true_eq] at ha hx
      have hay := hfirst y hy
      rw [hgroup g' (List.mem_append_left _ hg'), List.mem_filter, decide_eq_true_eq] at hy
      refine le_of_not_gt fun hyx => ?_
      have hout := (hall a ha.1 y hy.1 x hx.1 hay hyx (ha.2.symm.trans hx.2)
        (fun hkey => hkeys (ha.2.trans (hkey.symm.trans hy.2.symm)))
        (List.mem_map.mpr ⟨g, hg, ha.2⟩)).1
      exact hout (List.mem_map.mpr ⟨g', hg', hy.2⟩)
    · obtain ⟨hzs, hzdone⟩ := (mem_flatMap_done h).mp hz
      obtain ⟨g, hg, hgz⟩ := List.mem_map.mp hzdone
      have hyrest : (key y, xs.filter fun x => key y = key x) ∈ rest := by
        have hmem : (key y, xs.filter fun x => key y = key x) ∈ grouped key xs :=
          (mem_grouped xs).mpr ⟨List.mem_map_of_mem hy, rfl⟩
        rw [h, List.mem_append] at hmem
        exact hmem.resolve_left fun hin => hydone (List.mem_map_of_mem hin)
      obtain ⟨hkeys, a, ha, hfirst⟩ := (List.pairwise_append.mp hbegins).2.2 g hg _ hyrest
      rw [hgroup g (List.mem_append_left _ hg), List.mem_filter, decide_eq_true_eq] at ha
      have hay := hfirst y (by simp [hy])
      have hne : y ≠ z := by
        rintro rfl
        exact hydone hzdone
      have hlt : ord y < ord z := lt_of_le_of_ne hyz fun heq =>
        hne (List.inj_on_of_nodup_map ((List.pairwise_map.mpr hxs).imp ne_of_lt) hy hzs heq)
      exact (hall a ha.1 y hy z hzs hay hlt (ha.2.symm.trans hgz)
        (fun hkey => hkeys (ha.2.trans hkey.symm)) (List.mem_map.mpr ⟨g, hg, ha.2⟩)).2

end Order

/-! ### Totals -/

section Totals

variable {M : Type} [AddMonoid M] {value : α → M}

/-- The total of the values of each key, zero where there are none. -/
def totals (key : α → κ) (value : α → M) (as : List α) : κ → M :=
  as.foldl (fun total a => Function.update total (key a) (total (key a) + value a)) 0

theorem foldl_update_apply (as : List α) (total : κ → M) (k : κ) :
    as.foldl (fun total a => Function.update total (key a) (total (key a) + value a)) total k =
      total k + ((as.filter fun a => key a = k).map value).sum := by
  induction as generalizing total with
  | nil => simp
  | cons a as ih =>
    rw [List.foldl_cons, ih]
    by_cases hk : key a = k
    · subst hk
      simp [add_assoc]
    · simp [hk, Function.update_of_ne (Ne.symm hk)]

theorem totals_apply (as : List α) (k : κ) :
    totals key value as k = ((as.filter fun a => key a = k).map value).sum := by
  rw [totals, foldl_update_apply, Pi.zero_apply, zero_add]

end Totals

end Grouping
