import Mathlib.Data.List.Basic
import Mathlib.Tactic.Common

/-!
# Patterns that are replaced

A pattern is looked for from the left, and each match is replaced by a mark. Whether a word of some
kind stands between separators afterwards is read off the text with a gap for each match: the mark
has separators at its ends, so that a gap bounds a word. A pattern that respects words neither cuts
one nor matches directly behind one, and then no word stands there that did not stand there before.

## Main definitions

* `Pattern`, `Pattern.scan`, `Pattern.replace` — a text with gaps, and with marks in their place
* `Scanned` — scanning as a relation
* `Stands`, `StandsBetween` — a word stands between separators, in a text and in one with gaps

## Main results

* `scanned_scan` — what is scanned is in the relation
* `stands_expand_iff` — the words of a text with marks
* `stands_of_between` — the words left by a pattern that respects words
* `beside_gap_or_stands` — the words left by any pattern
-/

namespace Patterns

variable {α : Type}

/-- Where a pattern matches, it leaves the rest of the text. It sees the element in front. -/
structure Pattern (α : Type) where
  rest : Option α → List α → Option (List α)
  exists_match : ∀ {prev l r}, rest prev l = some r → ∃ m, m ≠ [] ∧ l = m ++ r

namespace Pattern

/-- The text with a gap for each match, from a place on. -/
def scanFrom (p : Pattern α) : ℕ → Option α → List α → List (Option α)
  | fuel + 1, prev, c :: l =>
    match p.rest prev (c :: l) with
    | some r => none :: p.scanFrom fuel ((c :: l).take (l.length + 1 - r.length)).getLast? r
    | none => some c :: p.scanFrom fuel (some c) l
  | _, _, _ => []

/-- The text with a gap for each match. -/
def scan (p : Pattern α) (l : List α) : List (Option α) := p.scanFrom l.length none l

end Pattern

/-- Put a mark into each gap. -/
def expand (mark : List α) (out : List (Option α)) : List α :=
  out.flatMap fun c => c.elim mark ([·])

/-- Replace each match by a mark. -/
def Pattern.replace (p : Pattern α) (mark l : List α) : List α := expand mark (p.scan l)

/-- Scanning: what a pattern matches is a gap, and all else is kept. -/
inductive Scanned (p : Pattern α) : Option α → List α → List (Option α) → Prop
  | nil (prev : Option α) : Scanned p prev [] []
  | hit {prev : Option α} {m l : List α} {out : List (Option α)} : m ≠ [] →
      p.rest prev (m ++ l) = some l → Scanned p m.getLast? l out →
        Scanned p prev (m ++ l) (none :: out)
  | miss {prev : Option α} {c : α} {l : List α} {out : List (Option α)} :
      p.rest prev (c :: l) = none → Scanned p (some c) l out →
        Scanned p prev (c :: l) (some c :: out)

variable {p : Pattern α} {prev : Option α} {c : α} {l u v b mark : List α}
  {out x y z : List (Option α)} {word : α → Bool} {P : List α → Prop}

theorem scanned_scanFrom {fuel : ℕ} (h : l.length ≤ fuel) :
    Scanned p prev l (p.scanFrom fuel prev l) := by
  induction fuel generalizing prev l with
  | zero =>
    obtain rfl := List.length_eq_zero_iff.mp (Nat.le_zero.mp h)
    exact .nil prev
  | succ fuel ih =>
    cases l with
    | nil => exact .nil prev
    | cons c l =>
      rw [Pattern.scanFrom]
      split
      · rename_i r hr
        obtain ⟨m, hne, hl⟩ := p.exists_match hr
        have hm : (c :: l).take (l.length + 1 - r.length) = m := by
          have hlength := congrArg List.length hl
          rw [List.length_cons, List.length_append] at hlength
          rw [hlength, Nat.add_sub_cancel, hl, List.take_left]
        have hfuel : r.length ≤ fuel := by
          have hlength := congrArg List.length hl
          have hpos := List.length_pos_iff.mpr hne
          rw [List.length_append] at hlength
          omega
        rw [hm, hl]
        exact .hit hne (hl ▸ hr) (ih hfuel)
      · rename_i hnone
        exact .miss hnone (ih (Nat.le_of_succ_le_succ h))

/-- **What is scanned is in the relation.** -/
theorem scanned_scan (p : Pattern α) (l : List α) : Scanned p none l (p.scan l) :=
  scanned_scanFrom (Nat.le_refl _)

theorem scanned_some_cons (h : Scanned p prev l (some c :: out)) :
    ∃ l', l = c :: l' ∧ p.rest prev l = none ∧ Scanned p (some c) l' out := by
  cases h with
  | miss hnone h => exact ⟨_, rfl, hnone, h⟩

/-- What is in front of a place, in a scan and in the text: nothing, the last element of what is
kept, or a match. -/
def Behind (p : Pattern α) (x : List (Option α)) (u v : List α) : Prop :=
  x = [] ∧ u = [] ∨ (∃ c, x.getLast? = some (some c) ∧ u.getLast? = some c) ∨
    x.getLast? = some none ∧ ∃ prev m, p.rest prev (m ++ v) = some v

theorem Behind.cons {o : Option α} {m : List α} (h : Behind p x u v)
    (hfirst : u = [] → Behind p [o] m v) : Behind p (o :: x) (m ++ u) v := by
  rcases h with ⟨rfl, rfl⟩ | ⟨c, hx, hu⟩ | ⟨hx, hend⟩
  · rw [List.append_nil]
    exact hfirst rfl
  · refine .inr (.inl ⟨c, ?_, ?_⟩)
    · rw [List.getLast?_cons, hx]; rfl
    · rw [List.getLast?_append, hu]; rfl
  · refine .inr (.inr ⟨?_, hend⟩)
    rw [List.getLast?_cons, hx]; rfl

/-- The element in front, of two parts of a text. -/
theorem getLast?_append_or (m u : List α) (prev : Option α) :
    (m ++ u).getLast?.or prev = u.getLast?.or (m.getLast?.or prev) := by
  rw [List.getLast?_append, Option.or_assoc]

/-- **A scan can be cut in two.** -/
theorem Scanned.split (h : Scanned p prev l (x ++ z)) :
    ∃ u v, l = u ++ v ∧ Scanned p (u.getLast?.or prev) v z ∧ Behind p x u v := by
  induction x generalizing prev l with
  | nil => exact ⟨[], l, rfl, h, .inl ⟨rfl, rfl⟩⟩
  | cons o x ih =>
    cases o with
    | none =>
      cases h with
      | hit hne hrest h =>
        rename_i m l
        obtain ⟨u, v, rfl, hv, hbehind⟩ := ih h
        refine ⟨m ++ u, v, (List.append_assoc ..).symm, ?_, hbehind.cons ?_⟩
        · rw [getLast?_append_or, List.getLast?_eq_some_getLast hne, Option.some_or,
            ← List.getLast?_eq_some_getLast hne]
          exact hv
        · rintro rfl
          exact .inr (.inr ⟨rfl, _, m, hrest⟩)
    | some c =>
      obtain ⟨l, rfl, -, hl⟩ := scanned_some_cons h
      obtain ⟨u, v, rfl, hv, hbehind⟩ := ih hl
      refine ⟨[c] ++ u, v, rfl, ?_, hbehind.cons ?_⟩
      · rw [getLast?_append_or]
        exact hv
      · rintro rfl
        exact .inr (.inl ⟨c, rfl, rfl⟩)

/-- What is kept is there. -/
theorem Scanned.kept (h : Scanned p prev l (b.map some ++ z)) :
    ∃ v, l = b ++ v ∧ Scanned p (b.getLast?.or prev) v z := by
  induction b generalizing prev l with
  | nil => exact ⟨l, rfl, h⟩
  | cons c b ih =>
    obtain ⟨l, rfl, -, hrest⟩ := scanned_some_cons h
    obtain ⟨v, rfl, hv⟩ := ih hrest
    refine ⟨v, rfl, ?_⟩
    rw [← List.singleton_append, getLast?_append_or]
    exact hv

/-! ### Words -/

/-- There is no word on this side: the text ends here, or the element is a separator. -/
def Edge (word : α → Bool) (c : Option α) : Prop := ∀ a ∈ c, word a = false

theorem edge_iff : Edge word prev ↔ prev.any word = false := by
  cases prev <;> simp [Edge]

instance (word : α → Bool) (c : Option α) : Decidable (Edge word c) :=
  decidable_of_iff' _ edge_iff

/-- A word of a kind stands between separators. -/
def Stands (word : α → Bool) (P : List α → Prop) (l : List α) : Prop :=
  ∃ u b v, l = u ++ b ++ v ∧ P b ∧ Edge word u.getLast? ∧ Edge word v.head?

/-- A word of a kind stands between separators and gaps. -/
def StandsBetween (word : α → Bool) (P : List α → Prop) (out : List (Option α)) : Prop :=
  ∃ x b y, out = x ++ b.map some ++ y ∧ P b ∧ Edge word x.getLast?.join ∧ Edge word y.head?.join

/-- A mark has separators at its ends. -/
structure IsMark (word : α → Bool) (mark : List α) : Prop where
  ne_nil : mark ≠ []
  head : Edge word mark.head?
  last : Edge word mark.getLast?

/-- A kind of words, whose first elements are not in the mark. -/
structure IsKind (word : α → Bool) (mark : List α) (P : List α → Prop) : Prop where
  first : ∀ b, P b → ∃ c ∈ b.head?, c ∉ mark
  word : ∀ b, P b → ∀ a ∈ b, word a = true

theorem expand_append (mark : List α) (x y : List (Option α)) :
    expand mark (x ++ y) = expand mark x ++ expand mark y := List.flatMap_append

theorem expand_map_some (mark b : List α) : expand mark (b.map some) = b := by
  induction b with
  | nil => rfl
  | cons c b ih => exact congrArg (c :: ·) ih

/-- Word elements come from the text, as the mark begins with a separator. -/
theorem expand_eq_append (hmark : IsMark word mark) (hb : ∀ a ∈ b, word a = true)
    (h : expand mark out = b ++ v) : ∃ y, out = b.map some ++ y ∧ expand mark y = v := by
  induction b generalizing out with
  | nil => exact ⟨out, rfl, h⟩
  | cons c b ih =>
    cases out with
    | nil => exact nomatch h
    | cons o out =>
      cases o with
      | none =>
        obtain ⟨d, m, rfl⟩ := List.exists_cons_of_ne_nil hmark.ne_nil
        obtain rfl : d = c := (List.cons.inj h).1
        exact absurd (hb d List.mem_cons_self) (by simp [hmark.head d rfl])
      | some a =>
        obtain ⟨rfl, hrest⟩ := List.cons.inj h
        obtain ⟨y, rfl, hy⟩ := ih (fun a ha => hb a (List.mem_cons_of_mem _ ha)) hrest
        exact ⟨y, rfl, hy⟩

/-- A word of the kind comes from the text, wherever it is. -/
theorem expand_eq_append_append (hmark : IsMark word mark) (hP : IsKind word mark P) (hb : P b)
    (h : expand mark out = u ++ b ++ v) :
    ∃ x y, out = x ++ b.map some ++ y ∧ expand mark x = u ∧ expand mark y = v := by
  obtain ⟨c, hc, hnot⟩ := hP.first b hb
  obtain ⟨b', rfl⟩ := List.head?_eq_some_iff.mp hc
  induction out generalizing u with
  | nil => simp [expand] at h
  | cons o out ih =>
    cases o with
    | none =>
      have hsplit : mark ++ expand mark out = u ++ (c :: b' ++ v) := by
        rw [← List.append_assoc]
        exact h
      rcases List.append_eq_append_iff.mp hsplit with ⟨u', rfl, hrest⟩ | ⟨w, hw, hrest⟩
      · rw [← List.append_assoc] at hrest
        obtain ⟨x, y, rfl, hx, hy⟩ := ih hrest
        exact ⟨none :: x, y, rfl, congrArg (mark ++ ·) hx, hy⟩
      · cases w with
        | nil =>
          obtain ⟨x, y, rfl, hx, hy⟩ := ih (u := []) hrest.symm
          refine ⟨none :: x, y, rfl, ?_, hy⟩
          rw [List.append_nil] at hw
          exact (congrArg (mark ++ ·) hx).trans ((List.append_nil mark).trans hw)
        | cons d w =>
          obtain ⟨rfl, -⟩ := List.cons.inj hrest
          exact absurd (hw ▸ List.mem_append_right u List.mem_cons_self) hnot
    | some a =>
      cases u with
      | nil =>
        obtain ⟨y, hy, hv⟩ := expand_eq_append hmark (hP.word _ hb) h
        exact ⟨[], y, hy, rfl, hv⟩
      | cons d u =>
        obtain ⟨rfl, hrest⟩ := List.cons.inj h
        obtain ⟨x, y, rfl, hx, hy⟩ := ih hrest
        exact ⟨some a :: x, y, rfl, congrArg (a :: ·) hx, hy⟩

theorem edge_head?_expand (hmark : IsMark word mark) (y : List (Option α)) :
    Edge word (expand mark y).head? ↔ Edge word y.head?.join := by
  match y with
  | [] => exact Iff.rfl
  | some a :: y => exact Iff.rfl
  | none :: y =>
    refine iff_of_true ?_ fun a ha => nomatch ha
    show Edge word (mark ++ expand mark y).head?
    rw [List.head?_append_of_ne_nil _ hmark.ne_nil]
    exact hmark.head

theorem edge_getLast?_expand (hmark : IsMark word mark) (x : List (Option α)) :
    Edge word (expand mark x).getLast? ↔ Edge word x.getLast?.join := by
  rcases List.eq_nil_or_concat' x with rfl | ⟨x, o, rfl⟩
  · exact Iff.rfl
  rw [expand_append, List.getLast?_concat]
  cases o with
  | none =>
    refine iff_of_true ?_ fun a ha => nomatch ha
    show Edge word (expand mark x ++ (mark ++ [])).getLast?
    rw [List.append_nil, List.getLast?_append_of_ne_nil _ hmark.ne_nil]
    exact hmark.last
  | some a =>
    show Edge word (expand mark x ++ [a]).getLast? ↔ _
    rw [List.getLast?_concat]
    rfl

/-- **The words of a text with marks** are those that stand between its gaps. -/
theorem stands_expand_iff (hmark : IsMark word mark) (hP : IsKind word mark P) :
    Stands word P (expand mark out) ↔ StandsBetween word P out := by
  constructor
  · rintro ⟨u, b, v, h, hb, hu, hv⟩
    obtain ⟨x, y, rfl, rfl, rfl⟩ := expand_eq_append_append hmark hP hb h
    exact ⟨x, b, y, rfl, hb, (edge_getLast?_expand hmark x).mp hu,
      (edge_head?_expand hmark y).mp hv⟩
  · rintro ⟨x, b, y, rfl, hb, hx, hy⟩
    refine ⟨expand mark x, b, expand mark y, ?_, hb, (edge_getLast?_expand hmark x).mpr hx,
      (edge_head?_expand hmark y).mpr hy⟩
    rw [expand_append, expand_append, expand_map_some]

/-! ### Patterns that respect words -/

/-- Each match is preceded by an edge or begins with a separator, and an edge follows it. -/
structure Pattern.Respects (p : Pattern α) (word : α → Bool) : Prop where
  start : ∀ prev l r, p.rest prev l = some r → Edge word prev ∨ Edge word l.head?
  finish : ∀ prev l r, p.rest prev l = some r → Edge word r.head?

/-- **What respects words leaves only words that stood there before**, and that it does not
match. -/
theorem stands_of_between (hp : p.Respects word) (hP : IsKind word mark P)
    (h : Scanned p none l out) (hout : StandsBetween word P out) :
    ∃ u b v, l = u ++ b ++ v ∧ P b ∧ Edge word u.getLast? ∧ Edge word v.head? ∧
      p.rest u.getLast? (b ++ v) = none := by
  obtain ⟨x, b, y, rfl, hb, hx, hy⟩ := hout
  obtain ⟨c, hc, -⟩ := hP.first b hb
  obtain ⟨b', rfl⟩ := List.head?_eq_some_iff.mp hc
  have hword := hP.word _ hb
  rw [List.append_assoc] at h
  obtain ⟨u, v, rfl, hv, hend⟩ := h.split
  rw [Option.or_none] at hv
  obtain ⟨r, rfl, hr⟩ := hv.kept
  obtain ⟨-, -, hnone, -⟩ := scanned_some_cons hv
  refine ⟨u, _, r, (List.append_assoc ..).symm, hb, ?_, ?_, hnone⟩
  · rcases hend with ⟨-, rfl⟩ | ⟨d, hd, hu⟩ | ⟨-, prev, m, hm⟩
    · exact fun a ha => nomatch ha
    · rw [hu]
      rw [hd] at hx
      exact hx
    -- behind a match is an edge, and no word begins there
    · exact absurd (hp.finish _ _ _ hm c rfl) (by simp [hword c List.mem_cons_self])
  · cases hr with
    | nil => exact fun a ha => nomatch ha
    | miss _ _ => exact hy
    | hit hne hrest _ =>
      refine (hp.start _ _ _ hrest).resolve_left fun hedge => ?_
      have hlast := List.getLast?_eq_some_getLast (List.cons_ne_nil c b')
      rw [hlast] at hedge
      exact absurd (hedge _ rfl) (by simp [hword _ (List.getLast_mem _)])

/-- **A word that has no gap at its side stood in the text**, whatever the pattern matches. -/
theorem beside_gap_or_stands (h : Scanned p none l (x ++ b.map some ++ y)) (hb : P b)
    (hx : Edge word x.getLast?.join) (hy : Edge word y.head?.join) :
    (x.getLast? = some none ∨ y.head? = some none) ∨ Stands word P l := by
  rw [List.append_assoc] at h
  obtain ⟨u, v, rfl, hv, hend⟩ := h.split
  obtain ⟨r, rfl, hr⟩ := hv.kept
  have hright : y.head? = some none ∨ Edge word r.head? := by
    cases hr with
    | nil => exact .inr fun a ha => nomatch ha
    | miss _ _ => exact .inr hy
    | hit _ _ _ => exact .inl rfl
  have hleft : x.getLast? = some none ∨ Edge word u.getLast? := by
    rcases hend with ⟨-, rfl⟩ | ⟨d, hd, hu⟩ | ⟨hgap, -⟩
    · exact .inr fun a ha => nomatch ha
    · rw [hd] at hx
      exact .inr (hu ▸ hx)
    · exact .inl hgap
  rcases hleft, hright with ⟨hgap | hu, hgap' | hv⟩
  · exact .inl (.inl hgap)
  · exact .inl (.inl hgap)
  · exact .inl (.inr hgap')
  · exact .inr ⟨u, b, r, (List.append_assoc ..).symm, hb, hu, hv⟩

/-- Where nothing matches, nothing is replaced. -/
theorem replace_eq_self (h : p.scan l = l.map some) : p.replace mark l = l := by
  rw [Pattern.replace, h, expand_map_some]

end Patterns
