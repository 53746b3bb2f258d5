import Mathlib.Data.List.Basic
import Mathlib.Tactic.Common

/-!
# Fields between separators

Fields are written one after the other with separators between them. A separator begins with a mark
that it holds nowhere else, so that two separators in one text are the same or lie apart. Fields are
trimmed: they neither begin nor end with a space. They can be told from the text, if and only if no
field holds a separator of its neighbours as a part between trimmed parts.

## Main definitions

* `Separators.IsSeparator` — a text with its mark in front
* `Separators.Trimmed` — a text without spaces around it
* `Separators.Cuts` — a separator inside a field, where it may be taken for one between fields

## Main results

* `Separators.append_cons_inj` — a field without the mark ends at the mark
* `Separators.cut` — how two separators of one text lie
* `Separators.cuts_of_joined_eq`, `exists_of_cuts` — when three fields can be told from their text
-/

namespace Separators

variable {α : Type} {mark : α} {sep sep0 sep1 sep' a a' b b' c x y : List α} {space : α → Bool}

/-! ### Marks -/

/-- A field without the mark ends at the mark. -/
theorem append_cons_inj (hx : mark ∉ a) (hx' : mark ∉ a') (h : a ++ mark :: b = a' ++ mark :: b') :
    a = a' ∧ b = b' := by
  induction a generalizing a' with
  | nil =>
    cases a' with
    | nil => exact ⟨rfl, (List.cons.inj h).2⟩
    | cons d a' => exact absurd ((List.cons.inj h).1 ▸ List.mem_cons_self) hx'
  | cons d a ih =>
    cases a' with
    | nil => exact absurd ((List.cons.inj h).1 ▸ List.mem_cons_self) hx
    | cons d' a' =>
      obtain ⟨rfl, hrest⟩ := List.cons.inj h
      obtain ⟨rfl, rfl⟩ := ih (List.not_mem_of_not_mem_cons hx)
        (List.not_mem_of_not_mem_cons hx') hrest
      exact ⟨rfl, rfl⟩

/-- A field without the mark begins at the last mark. -/
theorem append_cons_inj_right (hx : mark ∉ b) (hx' : mark ∉ b')
    (h : a ++ mark :: b = a' ++ mark :: b') : a = a' ∧ b = b' := by
  have hreverse := congrArg List.reverse h
  simp only [List.reverse_append, List.reverse_cons, List.append_assoc,
    List.singleton_append] at hreverse
  obtain ⟨hb, ha⟩ := append_cons_inj (List.mem_reverse.not.mpr hx) (List.mem_reverse.not.mpr hx')
    hreverse
  exact ⟨List.reverse_injective ha, List.reverse_injective hb⟩

/-- A text with its mark in front and nowhere else. -/
def IsSeparator (mark : α) (sep : List α) : Prop := ∃ w, sep = mark :: w ∧ mark ∉ w

/-- What begins with a separator begins with another one only if they are the same, or it comes
after the first. -/
theorem eq_nil_or_append (h : IsSeparator mark sep) (h' : IsSeparator mark sep')
    (heq : sep ++ x = c ++ (sep' ++ y)) :
    c = [] ∨ ∃ d, c = sep ++ d ∧ x = d ++ (sep' ++ y) := by
  obtain ⟨w, rfl, hw⟩ := h
  obtain ⟨w', rfl, -⟩ := h'
  rcases List.append_eq_append_iff.mp heq with ⟨d, hc, hx⟩ | ⟨d, hsep, hrest⟩
  · exact Or.inr ⟨d, hc, hx⟩
  · cases c with
    | nil => exact Or.inl rfl
    | cons e c =>
      -- the second mark would lie inside the first separator, unless it comes right behind it
      obtain ⟨rfl, rfl⟩ := List.cons.inj hsep
      cases d with
      | nil => exact Or.inr ⟨[], by simp, by simpa using hrest.symm⟩
      | cons f d =>
        obtain ⟨rfl, -⟩ := List.cons.inj hrest
        exact absurd (List.mem_append_right c List.mem_cons_self) hw

/-- **Two separators of one text are the same, or they lie apart.** -/
theorem cut (h : IsSeparator mark sep) (h' : IsSeparator mark sep')
    (heq : a ++ (sep ++ x) = b ++ (sep' ++ y)) :
    (a = b ∧ sep ++ x = sep' ++ y) ∨
      (∃ d, b = a ++ (sep ++ d) ∧ x = d ++ (sep' ++ y)) ∨
      ∃ d, a = b ++ (sep' ++ d) ∧ y = d ++ (sep ++ x) := by
  rcases List.append_eq_append_iff.mp heq with ⟨c, rfl, hrest⟩ | ⟨c, rfl, hrest⟩
  · rcases eq_nil_or_append h h' hrest with rfl | ⟨d, rfl, hx⟩
    · exact Or.inl ⟨(List.append_nil a).symm, hrest⟩
    · exact Or.inr (Or.inl ⟨d, rfl, hx⟩)
  · rcases eq_nil_or_append h' h hrest with rfl | ⟨d, rfl, hy⟩
    · exact Or.inl ⟨List.append_nil b, hrest.symm⟩
    · exact Or.inr (Or.inr ⟨d, rfl, hy⟩)

/-! ### Trimmed texts -/

/-- A text does not begin with a space. -/
def TrimmedLeft (space : α → Bool) (a : List α) : Prop := ∀ c ∈ a.head?, space c = false

/-- A text does not end with a space. -/
def TrimmedRight (space : α → Bool) (a : List α) : Prop := ∀ c ∈ a.getLast?, space c = false

/-- A text without spaces around it. -/
def Trimmed (space : α → Bool) (a : List α) : Prop := TrimmedLeft space a ∧ TrimmedRight space a

theorem trimmedLeft_append : TrimmedLeft space (a ++ b) ↔
    TrimmedLeft space a ∧ (a = [] → TrimmedLeft space b) := by
  cases a with
  | nil => simp [TrimmedLeft]
  | cons d a => simp [TrimmedLeft]

theorem trimmedRight_append : TrimmedRight space (a ++ b) ↔
    TrimmedRight space b ∧ (b = [] → TrimmedRight space a) := by
  rcases List.eq_nil_or_concat' b with rfl | ⟨l, d, rfl⟩
  · simp [TrimmedRight]
  · simp [TrimmedRight, ← List.append_assoc]

/-- A separator that may be taken for one between fields. -/
def Cuts (space : α → Bool) (sep a : List α) : Prop :=
  ∃ b c, a = b ++ (sep ++ c) ∧ TrimmedRight space b ∧ TrimmedLeft space c

/-! ### Three fields -/

/-- Three fields with two separators. -/
def joined (sep0 sep1 a b c : List α) : List α := a ++ (sep0 ++ (b ++ (sep1 ++ c)))

section Fields

variable (h0 : IsSeparator mark sep0) (h1 : IsSeparator mark sep1) (hne : sep0 ≠ sep1)
  (hlength : sep0.length = sep1.length) (ht0 : Trimmed space sep0) (ht1 : Trimmed space sep1)

include h0 in
theorem IsSeparator.ne_nil : sep0 ≠ [] := by
  obtain ⟨w, rfl, -⟩ := h0
  exact List.cons_ne_nil mark w

include h1 ht1 in
/-- What begins with a field and a separator begins like a trimmed text. -/
theorem trimmedLeft_of_append_eq {d : List α} (hb : Trimmed space b)
    (h : b ++ (sep1 ++ c) = d ++ x) : TrimmedLeft space d := by
  have hleft : TrimmedLeft space (b ++ (sep1 ++ c)) :=
    trimmedLeft_append.mpr ⟨hb.1, fun _ =>
      trimmedLeft_append.mpr ⟨ht1.1, fun hnil => absurd hnil h1.ne_nil⟩⟩
  rw [h] at hleft
  exact (trimmedLeft_append.mp hleft).1

include h0 ht0 in
/-- What ends with a separator and a field ends like the field. -/
theorem IsSeparator.trimmedRight_append (hb : TrimmedRight space b) :
    TrimmedRight space (a ++ (sep0 ++ b)) := by
  refine Separators.trimmedRight_append.mpr
    ⟨Separators.trimmedRight_append.mpr ⟨hb, fun _ => ht0.2⟩, fun hnil => ?_⟩
  exact absurd (List.append_eq_nil_iff.mp hnil).1 h0.ne_nil

include h0 ht0 in
/-- Two fields with a separator are trimmed where both ends are. -/
theorem IsSeparator.trimmed_append (ha : TrimmedLeft space a) (hb : TrimmedRight space b) :
    Trimmed space (a ++ (sep0 ++ b)) := by
  refine ⟨trimmedLeft_append.mpr ⟨ha, fun _ => trimmedLeft_append.mpr ⟨ht0.1, fun hnil => ?_⟩⟩,
    h0.trimmedRight_append ht0 hb⟩
  exact absurd hnil h0.ne_nil

include h0 h1 hne hlength ht0 ht1 in
/-- Other fields with the same text take a separator inside a field for one between fields. -/
theorem cuts_of_joined_eq {a' b' c' : List α} (ha' : Trimmed space a') (hb' : Trimmed space b')
    (hc' : Trimmed space c') (h : joined sep0 sep1 a b c = joined sep0 sep1 a' b' c') :
    (a = a' ∧ b = b' ∧ c = c') ∨ Cuts space sep0 a ∨ Cuts space sep0 b ∨ Cuts space sep1 b ∨
      Cuts space sep1 c := by
  rcases cut h0 h0 h with ⟨rfl, hrest⟩ | ⟨d, rfl, hrest⟩ | ⟨d, rfl, hrest⟩
  · rcases cut h1 h1 (List.append_cancel_left hrest) with
      ⟨rfl, hlast⟩ | ⟨d, rfl, rfl⟩ | ⟨d, rfl, rfl⟩
    · exact Or.inl ⟨rfl, rfl, List.append_cancel_left hlast⟩
    · -- the second separator of `c` was taken
      have hd := (trimmedRight_append.mp (trimmedRight_append.mp hb'.2).1).1
      exact Or.inr (Or.inr (Or.inr (Or.inr ⟨d, c', rfl, hd, hc'.1⟩)))
    · have hd := (trimmedLeft_append.mp hc'.1).1
      exact Or.inr (Or.inr (Or.inr (Or.inl ⟨b', d, rfl, hb'.2, hd⟩)))
  · have hd := (trimmedRight_append.mp (trimmedRight_append.mp ha'.2).1).1
    rcases cut h1 h0 hrest with ⟨rfl, hsep⟩ | ⟨e, rfl, rfl⟩ | ⟨e, rfl, hlast⟩
    · exact absurd (List.append_inj_left hsep hlength.symm).symm hne
    · refine Or.inr (Or.inr (Or.inr (Or.inr ⟨e ++ (sep0 ++ b'), c', by simp, ?_, hc'.1⟩)))
      exact h0.trimmedRight_append ht0 hb'.2
    · have he := trimmedLeft_of_append_eq h1 ht1 hb' hlast
      exact Or.inr (Or.inr (Or.inl ⟨d, e, rfl, hd, he⟩))
  · have hd := trimmedLeft_of_append_eq h1 ht1 hb' hrest
    exact Or.inr (Or.inl ⟨a', d, rfl, ha'.2, hd⟩)

include h0 h1 ht0 ht1 in
/-- A separator inside a field may be taken for one between fields. -/
theorem exists_of_cuts (ha : Trimmed space a) (hb : Trimmed space b) (hc : Trimmed space c)
    (h : Cuts space sep0 a ∨ Cuts space sep0 b ∨ Cuts space sep1 b ∨ Cuts space sep1 c) :
    ∃ a' b' c', Trimmed space a' ∧ Trimmed space b' ∧ Trimmed space c' ∧
      joined sep0 sep1 a b c = joined sep0 sep1 a' b' c' ∧ (a', b') ≠ (a, b) := by
  have hlong {l r s : List α} (hs : s ≠ []) : l ≠ l ++ (s ++ r) := by
    intro heq
    have hnil := List.self_eq_append_right.mp heq
    exact hs (List.append_eq_nil_iff.mp hnil).1
  rcases h with
    ⟨l, r, rfl, hl, hr⟩ | ⟨l, r, rfl, hl, hr⟩ | ⟨l, r, rfl, hl, hr⟩ | ⟨l, r, rfl, hl, hr⟩
  · refine ⟨l, r ++ (sep0 ++ b), c, ⟨(trimmedLeft_append.mp ha.1).1, hl⟩,
      h0.trimmed_append ht0 hr hb.2, hc, by simp [joined], ?_⟩
    exact fun heq => hlong h0.ne_nil (Prod.mk.inj heq).1
  · refine ⟨a ++ (sep0 ++ l), r, c, h0.trimmed_append ht0 ha.1 hl, ⟨hr, ?_⟩, hc,
      by simp [joined], ?_⟩
    · exact (trimmedRight_append.mp (trimmedRight_append.mp hb.2).1).1
    · exact fun heq => hlong h0.ne_nil (Prod.mk.inj heq).1.symm
  · refine ⟨a, l, r ++ (sep1 ++ c), ha, ⟨(trimmedLeft_append.mp hb.1).1, hl⟩,
      h1.trimmed_append ht1 hr hc.2, by simp [joined], ?_⟩
    exact fun heq => hlong h1.ne_nil (Prod.mk.inj heq).2
  · refine ⟨a, b ++ (sep1 ++ l), r, ha, h1.trimmed_append ht1 hb.1 hl, ⟨hr, ?_⟩,
      by simp [joined], ?_⟩
    · exact (trimmedRight_append.mp (trimmedRight_append.mp hc.2).1).1
    · exact fun heq => hlong h1.ne_nil (Prod.mk.inj heq).2.symm

end Fields

end Separators
