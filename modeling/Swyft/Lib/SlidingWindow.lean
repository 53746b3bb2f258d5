import Mathlib.Data.List.Basic

/-!
# Sliding windows

Events happen at times, one after the other. A window of a length holds at most so many of them,
wherever it begins. It is enough to look at the windows that end with an event.

## Main results

* `slides_snoc` — one more event keeps every window within the limit exactly if the window that
  ends with it is within the limit
* `recent_eq_nil_or` — of two runs of events, the later one is all recent before the earlier is
-/

namespace SlidingWindow

variable {width limit t : ℕ} {ts ts' : List ℕ}

/-- The events between `a` and `a + width`. -/
def within (width a : ℕ) (ts : List ℕ) : List ℕ := ts.filter fun x => a ≤ x ∧ x < a + width

/-- Every window holds at most `limit` events. -/
def Slides (width limit : ℕ) (ts : List ℕ) : Prop :=
  ∀ a, (within width a ts).length ≤ limit

/-- The events of the window that ends at `t`. -/
def recent (width t : ℕ) (ts : List ℕ) : List ℕ := ts.filter fun x => t < x + width

theorem within_append (width a : ℕ) (ts ts' : List ℕ) :
    within width a (ts ++ ts') = within width a ts ++ within width a ts' := List.filter_append ..

theorem recent_append (width t : ℕ) (ts ts' : List ℕ) :
    recent width t (ts ++ ts') = recent width t ts ++ recent width t ts' := List.filter_append ..

theorem slides_nil : Slides width limit [] := fun _ => Nat.zero_le limit

/-- Fewer events are within the limit as well. -/
theorem Slides.of_append_left (h : Slides width limit (ts ++ ts')) : Slides width limit ts := by
  intro a
  have ha := h a
  rw [within_append, List.length_append] at ha
  exact Nat.le_of_add_right_le ha

/-- **One more event**, the latest one. -/
theorem slides_snoc (hwidth : 0 < width) (hlast : ∀ x ∈ ts, x ≤ t) :
    Slides width limit (ts ++ [t]) ↔
      Slides width limit ts ∧ (recent width t ts).length + 1 ≤ limit := by
  constructor
  · intro h
    refine ⟨h.of_append_left, ?_⟩
    -- The window that ends with the event.
    have hend := h (t + 1 - width)
    have hin : within width (t + 1 - width) [t] = [t] := by
      rw [within, List.filter_cons_of_pos, List.filter_nil]
      rw [decide_eq_true_iff]
      omega
    have hsame : within width (t + 1 - width) ts = recent width t ts := by
      refine List.filter_congr fun x hx => decide_eq_decide.mpr ?_
      have hle := hlast x hx
      omega
    rw [within_append, List.length_append, hin, hsame] at hend
    exact hend
  · rintro ⟨h, hrecent⟩ a
    rw [within_append, List.length_append]
    by_cases hin : a ≤ t ∧ t < a + width
    · have hsub : (within width a ts).length ≤ (recent width t ts).length := by
        refine (List.monotone_filter_right ts fun x hx => ?_).length_le
        rw [decide_eq_true_iff] at hx ⊢
        omega
      have hone : (within width a [t]).length ≤ 1 := List.length_filter_le ..
      omega
    · have hout : within width a [t] = [] := by
        rw [within, List.filter_cons_of_neg, List.filter_nil]
        rwa [decide_eq_true_iff]
      rw [hout]
      exact h a

/-- If an event of the later run is not recent, no event of the earlier run is. -/
theorem recent_eq_nil_or (width t : ℕ) (hsorted : ∀ x ∈ ts, ∀ y ∈ ts', x ≤ y) :
    recent width t ts = [] ∨ recent width t ts' = ts' := by
  by_cases hall : ∀ y ∈ ts', t < y + width
  · exact .inr (List.filter_eq_self.mpr fun y hy => decide_eq_true (hall y hy))
  · push Not at hall
    obtain ⟨y, hy, hold⟩ := hall
    refine .inl (List.filter_eq_nil_iff.mpr fun x hx => ?_)
    have hle := hsorted x hx y hy
    rw [decide_eq_true_iff]
    omega

end SlidingWindow
