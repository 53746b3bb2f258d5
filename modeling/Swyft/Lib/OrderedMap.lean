import Mathlib.Data.List.Nodup

/-!
# Maps in the order of insertion

A map that remembers in which order its keys were first set. Setting a key that is there replaces
its value in place. Each operation is told by which entries it leaves.

## Main results

* `get_eq_some` — looking a key up finds its entry
* `mem_set`, `get_set`, `get_delete` — setting or deleting a key changes its entry and no other
* `get_setAll_of_mem` — setting several keys
-/

/-- Entries with distinct keys, the oldest first. -/
structure OrderedMap (κ β : Type) where
  entries : List (κ × β)
  nodup : (entries.map Prod.fst).Nodup

namespace OrderedMap

variable {κ β : Type} {m : OrderedMap κ β} {k k' : κ} {v v' : β}

def empty : OrderedMap κ β := ⟨[], .nil⟩

def size (m : OrderedMap κ β) : ℕ := m.entries.length

instance : Membership (κ × β) (OrderedMap κ β) := ⟨fun m e => e ∈ m.entries⟩

/-- Keep the entries that satisfy `p`. -/
def filter (m : OrderedMap κ β) (p : κ × β → Bool) : OrderedMap κ β :=
  ⟨m.entries.filter p, (List.filter_sublist.map _).nodup m.nodup⟩

/-- Remove the oldest entry. -/
def dropOldest (m : OrderedMap κ β) : OrderedMap κ β :=
  ⟨m.entries.tail, ((List.tail_sublist _).map _).nodup m.nodup⟩

theorem mem_filter {p : κ × β → Bool} {e : κ × β} : e ∈ m.filter p ↔ e ∈ m ∧ p e = true :=
  List.mem_filter

theorem mem_of_mem_dropOldest {e : κ × β} (h : e ∈ m.dropOldest) : e ∈ m := List.mem_of_mem_tail h

theorem size_filter_le (p : κ × β → Bool) : (m.filter p).size ≤ m.size := List.length_filter_le ..

/-- A key has one value. -/
theorem eq_of_mem (h : (k, v) ∈ m) (h' : (k, v') ∈ m) : v = v' :=
  congrArg Prod.snd (List.inj_on_of_nodup_map m.nodup h h' rfl)

variable [DecidableEq κ]

def get (m : OrderedMap κ β) (k : κ) : Option β := (m.entries.find? (·.1 = k)).map (·.2)

theorem get_eq_some : m.get k = some v ↔ (k, v) ∈ m := by
  unfold get
  rw [Option.map_eq_some_iff]
  constructor
  · rintro ⟨⟨k', v'⟩, h, rfl⟩
    have hkey : k' = k := by simpa using List.find?_some h
    exact hkey ▸ List.mem_of_find?_eq_some h
  · intro h
    have hsome : (m.entries.find? (·.1 = k)).isSome :=
      List.find?_isSome.mpr ⟨(k, v), h, decide_eq_true rfl⟩
    obtain ⟨⟨k', v'⟩, hfind⟩ := Option.isSome_iff_exists.mp hsome
    obtain rfl : k' = k := by simpa using List.find?_some hfind
    exact ⟨_, hfind, eq_of_mem (List.mem_of_find?_eq_some hfind) h⟩

/-- Set the value of a key. -/
def set (m : OrderedMap κ β) (k : κ) (v : β) : OrderedMap κ β :=
  if h : k ∈ m.entries.map Prod.fst then
    ⟨m.entries.map fun e => if e.1 = k then (k, v) else e, by
      have hkeys : (m.entries.map fun e => if e.1 = k then (k, v) else e).map Prod.fst =
          m.entries.map Prod.fst := by
        rw [List.map_map]
        refine List.map_congr_left fun e _ => ?_
        by_cases he : e.1 = k <;> simp [he]
      exact hkeys ▸ m.nodup⟩
  else
    ⟨m.entries ++ [(k, v)], by
      rw [List.map_append, List.nodup_append]
      refine ⟨m.nodup, List.nodup_singleton _, fun a ha b hb => ?_⟩
      rintro rfl
      obtain rfl : a = k := List.mem_singleton.mp hb
      exact h ha⟩

/-- Setting a key replaces its entry and no other. -/
theorem mem_set : (k', v') ∈ m.set k v ↔ k' = k ∧ v' = v ∨ k' ≠ k ∧ (k', v') ∈ m := by
  unfold set
  split
  · rename_i hk
    refine List.mem_map.trans ⟨?_, ?_⟩
    · rintro ⟨e, he, heq⟩
      by_cases hek : e.1 = k
      · rw [if_pos hek, Prod.mk.injEq] at heq
        exact .inl ⟨heq.1.symm, heq.2.symm⟩
      · rw [if_neg hek] at heq
        subst heq
        exact .inr ⟨hek, he⟩
    · rintro (⟨rfl, rfl⟩ | ⟨hne, he⟩)
      · obtain ⟨e, he, hek⟩ := List.mem_map.mp hk
        exact ⟨e, he, if_pos hek⟩
      · exact ⟨_, he, if_neg hne⟩
  · rename_i hk
    refine List.mem_append.trans ⟨?_, ?_⟩
    · rintro (he | he)
      · refine .inr ⟨?_, he⟩
        rintro rfl
        exact hk (List.mem_map_of_mem he)
      · rw [List.mem_singleton, Prod.mk.injEq] at he
        exact .inl he
    · rintro (⟨rfl, rfl⟩ | ⟨-, he⟩)
      · exact .inr List.mem_cons_self
      · exact .inl he

theorem get_empty (k : κ) : (empty : OrderedMap κ β).get k = none := rfl

theorem get_eq_none : m.get k = none ↔ ∀ v, (k, v) ∉ m := by
  constructor
  · intro h v hv
    rw [get_eq_some.mpr hv] at h
    exact nomatch h
  · intro h
    cases hget : m.get k with
    | none => rfl
    | some v => exact absurd (get_eq_some.mp hget) (h v)

/-- Looking up after setting. -/
theorem get_set : (m.set k v).get k' = if k' = k then some v else m.get k' := by
  split
  case isTrue h => exact get_eq_some.mpr (mem_set.mpr (.inl ⟨h, rfl⟩))
  case isFalse h =>
    cases hget : m.get k' with
    | none =>
      refine get_eq_none.mpr fun v' hv' => ?_
      rcases mem_set.mp hv' with ⟨hk, -⟩ | ⟨-, hold⟩
      · exact h hk
      · exact get_eq_none.mp hget v' hold
    | some v' => exact get_eq_some.mpr (mem_set.mpr (.inr ⟨h, get_eq_some.mp hget⟩))

/-- Delete a key. -/
def delete (m : OrderedMap κ β) (k : κ) : OrderedMap κ β := m.filter fun e => e.1 ≠ k

/-- Looking up after deleting. -/
theorem get_delete : (m.delete k).get k' = if k' = k then none else m.get k' := by
  split
  case isTrue h =>
    refine get_eq_none.mpr fun v hv => ?_
    simpa [h] using (mem_filter.mp hv).2
  case isFalse h =>
    cases hget : m.get k' with
    | none =>
      exact get_eq_none.mpr fun v hv => get_eq_none.mp hget v (mem_filter.mp hv).1
    | some v =>
      exact get_eq_some.mpr (mem_filter.mpr ⟨get_eq_some.mp hget, by simpa using h⟩)

theorem mem_keys : k ∈ m.entries.map Prod.fst ↔ (m.get k).isSome := by
  rw [List.mem_map, Option.isSome_iff_exists]
  constructor
  · rintro ⟨⟨k, v⟩, he, rfl⟩
    exact ⟨v, get_eq_some.mpr he⟩
  · rintro ⟨v, hv⟩
    exact ⟨(k, v), get_eq_some.mp hv, rfl⟩

/-- Maps with the same values have the same size. -/
theorem size_congr {m' : OrderedMap κ β} (h : ∀ k, m.get k = m'.get k) : m.size = m'.size := by
  have hkeys : (m.entries.map Prod.fst).Perm (m'.entries.map Prod.fst) :=
    (List.perm_ext_iff_of_nodup m.nodup m'.nodup).mpr fun k => by rw [mem_keys, mem_keys, h]
  rw [size, size, ← List.length_map (f := Prod.fst), hkeys.length_eq, List.length_map]

/-- Set the values of several keys, one after the other. -/
def setAll (m : OrderedMap κ β) (es : List (κ × β)) : OrderedMap κ β :=
  es.foldl (fun m e => m.set e.1 e.2) m

theorem get_setAll_of_notMem {es : List (κ × β)} (h : k ∉ es.map Prod.fst) :
    (m.setAll es).get k = m.get k := by
  induction es generalizing m with
  | nil => rfl
  | cons e es ih =>
    rw [List.map_cons, List.mem_cons, not_or] at h
    show ((m.set e.1 e.2).setAll es).get k = m.get k
    rw [ih h.2, get_set, if_neg h.1]

theorem get_setAll_of_mem {es : List (κ × β)} (hnodup : (es.map Prod.fst).Nodup)
    (h : (k, v) ∈ es) : (m.setAll es).get k = some v := by
  induction es generalizing m with
  | nil => exact absurd h List.not_mem_nil
  | cons e es ih =>
    rw [List.map_cons, List.nodup_cons] at hnodup
    show ((m.set e.1 e.2).setAll es).get k = some v
    rcases List.mem_cons.mp h with rfl | h
    · rw [get_setAll_of_notMem hnodup.1, get_set, if_pos rfl]
    · exact ih hnodup.2 h

end OrderedMap
