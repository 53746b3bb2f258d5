import Mathlib.Data.List.Basic
import Mathlib.Order.Lattice
import Mathlib.Order.Nat

/-!
# Keyset pagination

Rows in strictly rising order of a key are read in pages. A page holds the first rows after its
cursor, and where there are more it names a token that stands for the key of its last row; a client
goes from token to token until a page names none.

## Main definitions

* `Keyset.after` — the rows after a cursor
* `Keyset.IsPage` — a page is the one of a cursor
* `Keyset.Follows` — the pages a client gets

## Main results

* `Keyset.Follows.unique` — a client gets the same pages every time
* `Keyset.exists_follows` — it comes to an end, and gets every row once and in order
-/

namespace Keyset

variable {α β κ τ π ε : Type}

/-! ### The client -/

/-- The pages that are got from a cursor to a page that names no token. -/
inductive Follows (fetch : Option τ → Except ε π) (next : π → Option τ) :
    Option τ → List π → Prop where
  | last {cursor : Option τ} {page : π} (hfetch : fetch cursor = .ok page)
      (hnext : next page = none) : Follows fetch next cursor [page]
  | more {cursor : Option τ} {page : π} {token : τ} {pages : List π}
      (hfetch : fetch cursor = .ok page) (hnext : next page = some token)
      (hrest : Follows fetch next (some token) pages) : Follows fetch next cursor (page :: pages)

variable {fetch : Option τ → Except ε π} {next : π → Option τ}

/-- **A client gets the same pages every time.** -/
theorem Follows.unique {cursor : Option τ} {pages pages' : List π}
    (h : Follows fetch next cursor pages) (h' : Follows fetch next cursor pages') :
    pages = pages' := by
  induction h generalizing pages' with
  | last hfetch hnext =>
    cases h' with
    | last hfetch' hnext' =>
      obtain rfl := Except.ok.inj (hfetch.symm.trans hfetch')
      rfl
    | more hfetch' hnext' hrest' =>
      obtain rfl := Except.ok.inj (hfetch.symm.trans hfetch')
      exact absurd (hnext.symm.trans hnext') (by simp)
  | more hfetch hnext hrest ih =>
    cases h' with
    | last hfetch' hnext' =>
      obtain rfl := Except.ok.inj (hfetch.symm.trans hfetch')
      exact absurd (hnext.symm.trans hnext') (by simp)
    | more hfetch' hnext' hrest' =>
      obtain rfl := Except.ok.inj (hfetch.symm.trans hfetch')
      obtain rfl := Option.some.inj (hnext.symm.trans hnext')
      rw [ih hrest']

/-! ### Rows after a cursor -/

section Rows

variable [LinearOrder κ] {key : α → κ} {rows : List α}

/-- The rows after a cursor, all of them where there is none. -/
def after (key : α → κ) (rows : List α) : Option κ → List α
  | none => rows
  | some t => rows.filter fun a => t < key a

/-- **The rows after one of them are those that come behind it.** -/
theorem after_of_append {before rest : List α} {a : α}
    (hsorted : (before ++ a :: rest).Pairwise fun a b => key a < key b) :
    after key (before ++ a :: rest) (some (key a)) = rest := by
  obtain ⟨-, htail, hcross⟩ := List.pairwise_append.mp hsorted
  have hbefore : before.filter (fun b => key a < key b) = [] := by
    refine List.filter_eq_nil_iff.mpr fun b hb => ?_
    simpa using (hcross b hb a List.mem_cons_self).le
  have hrest : rest.filter (fun b => key a < key b) = rest := by
    refine List.filter_eq_self.mpr fun b hb => ?_
    simpa using (List.pairwise_cons.mp htail).1 b hb
  show (before ++ a :: rest).filter (fun b => key a < key b) = rest
  rw [List.filter_append, hbefore, List.nil_append,
    List.filter_cons_of_neg (by simp), hrest]

/-! ### Pages -/

/-- A page is the one of a cursor: it shows the first `limit` rows after it, and names a token
where there are more. -/
structure IsPage (key : α → κ) (encode : κ → τ) (view : α → β) (data : π → List β)
    (next : π → Option τ) (limit : ℕ) (rows : List α) (cursor : Option κ) (page : π) : Prop where
  data_eq : data page = ((after key rows cursor).take limit).map view
  next_eq : next page = if limit < (after key rows cursor).length then
    ((after key rows cursor).take limit).getLast?.map fun a => encode (key a) else none

variable {encode : κ → τ} {view : α → β} {data : π → List β} {limit : ℕ}

/-- The last row of a page. -/
theorem exists_last_of_take {found : List α} (hlimit : 0 < limit) (h : limit ≤ found.length) :
    ∃ first a rest, found.take limit = first ++ [a] ∧ first ++ a :: rest = found := by
  have hne : found.take limit ≠ [] := by
    intro hnil
    have hlength := congrArg List.length hnil
    rw [List.length_take_of_le h] at hlength
    exact hlimit.ne' hlength
  obtain ⟨first, a, hfirst⟩ := (List.eq_nil_or_concat' _).resolve_left hne
  refine ⟨first, a, found.drop limit, hfirst, ?_⟩
  rw [← List.singleton_append, ← List.append_assoc, ← hfirst, List.take_append_drop]

/-- What a client gets from a cursor on, if the rows after it are the last ones. -/
theorem follows_of_suffix (hlimit : 0 < limit)
    (hsorted : rows.Pairwise fun a b => key a < key b)
    (hpage : ∀ cursor : Option κ, (∀ t ∈ cursor, t ∈ rows.map key) → ∃ page,
      fetch (cursor.map encode) = .ok page ∧
        IsPage key encode view data next limit rows cursor page)
    (cursor : Option κ) (hcursor : ∀ t ∈ cursor, t ∈ rows.map key)
    (hsuffix : after key rows cursor <:+ rows) :
    ∃ pages, Follows fetch next (cursor.map encode) pages ∧
      pages.flatMap data = (after key rows cursor).map view := by
  -- by induction on how many rows are left
  induction hn : (after key rows cursor).length using Nat.strongRecOn generalizing cursor with
  | _ n ih =>
    subst hn
    obtain ⟨page, hfetch, hdata, hnext⟩ := hpage cursor hcursor
    by_cases hmore : limit < (after key rows cursor).length
    case neg =>
      rw [if_neg hmore] at hnext
      refine ⟨[page], .last hfetch hnext, ?_⟩
      rw [List.flatMap_singleton, hdata, List.take_of_length_le (not_lt.mp hmore)]
    case pos =>
      obtain ⟨before, hrows⟩ := hsuffix
      obtain ⟨first, a, rest, hfirst, hsplit⟩ := exists_last_of_take hlimit hmore.le
      have hwhole : (before ++ first) ++ a :: rest = rows := by
        rw [List.append_assoc, hsplit, hrows]
      have hafter : after key rows (some (key a)) = rest := by
        rw [← hwhole] at hsorted ⊢
        exact after_of_append hsorted
      have hmem : a ∈ rows := by
        rw [← hwhole]
        exact List.mem_append_right _ List.mem_cons_self
      have hshorter : rest.length < (after key rows cursor).length := by
        rw [← hsplit, List.length_append, List.length_cons]
        omega
      have hend : after key rows (some (key a)) <:+ rows := by
        rw [hafter, ← hwhole]
        exact ⟨before ++ first ++ [a], by rw [List.append_assoc, List.singleton_append]⟩
      obtain ⟨pages, hpages, hflat⟩ := ih rest.length hshorter (some (key a))
        (fun t ht => Option.mem_some.mp ht ▸ List.mem_map_of_mem hmem) hend
        (congrArg List.length hafter)
      rw [if_pos hmore, hfirst, List.getLast?_concat] at hnext
      refine ⟨page :: pages, .more hfetch hnext hpages, ?_⟩
      rw [List.flatMap_cons, hdata, hflat, hafter, ← List.map_append, hfirst, List.append_assoc,
        List.singleton_append, hsplit]

/-- **A client that starts without a cursor comes to an end, and gets every row once and in
order.** -/
theorem exists_follows (hlimit : 0 < limit) (hsorted : rows.Pairwise fun a b => key a < key b)
    (hpage : ∀ cursor : Option κ, (∀ t ∈ cursor, t ∈ rows.map key) → ∃ page,
      fetch (cursor.map encode) = .ok page ∧
        IsPage key encode view data next limit rows cursor page) :
    ∃ pages, Follows fetch next none pages ∧ pages.flatMap data = rows.map view :=
  follows_of_suffix hlimit hsorted hpage none (fun _ h => absurd h (by simp)) List.suffix_rfl

/-! ### Looking ahead -/

/-- One row more than `limit` is asked for, to see whether there are more. -/
theorem lt_length_lookahead {found : List α} :
    limit < (found.take (limit + 1)).length ↔ limit < found.length := by
  rw [List.length_take]
  omega

/-- The row more is not shown. -/
theorem lookahead_eq {found : List α} :
    (if limit < (found.take (limit + 1)).length then (found.take (limit + 1)).take limit
      else found.take (limit + 1)) = found.take limit := by
  split
  case isTrue => rw [List.take_take, Nat.min_eq_left (Nat.le_succ limit)]
  case isFalse h =>
    have hlength := not_lt.mp (mt lt_length_lookahead.mpr h)
    rw [List.take_of_length_le hlength, List.take_of_length_le (Nat.le_succ_of_le hlength)]

end Rows

end Keyset
