import Swyft.Lib.SlidingWindow

/-!
# Fixed windows

A limiter that opens a window with the first event after the last window is over, and lets the first
so many events of a window through. It keeps two numbers. An event that is held back is told how
long the window lasts; holding it back changes nothing.

Two windows in a row may be used up around the moment between them, so in a sliding window of the
same length up to twice the limit gets through, and never more.

## Main definitions

* `take` — one event
* `Counts` — the limiter counts the events that it has let through

## Main results

* `Counts.take` — one event, under a clock that does not go back
* `take_eq_wait`, `take_after_wait` — an event that is held back waits exactly as long as it is told
-/

namespace FixedWindow

open SlidingWindow

/-- The window that opened last, and the number of events it has let through. -/
structure Limiter where
  windowStart : ℕ
  count : ℕ
  deriving DecidableEq

/-- The window that an event falls into. -/
def roll (width now : ℕ) (l : Limiter) : Limiter :=
  if width ≤ now - l.windowStart then ⟨now, 0⟩ else l

variable {max width now : ℕ} {l : Limiter} {passed : List ℕ}

/-- An event falls into the window that is open for it. -/
theorem lt_roll_add (hwidth : 0 < width) :
    now < (roll width now l).windowStart + width := by
  rw [roll]
  split
  case isTrue => exact Nat.lt_add_of_pos_right hwidth
  case isFalse hopen => omega

theorem roll_windowStart_le (hstart : l.windowStart ≤ now) :
    (roll width now l).windowStart ≤ now := by
  rw [roll]
  split
  · exact Nat.le_refl now
  · exact hstart

/-- One event: the limiter after it, and the time that the event is to wait, `0` if it is let
through. -/
def take (max width now : ℕ) (l : Limiter) : Limiter × ℕ :=
  let window := roll width now l
  if max ≤ window.count then (window, window.windowStart + width - now)
  else ({ window with count := window.count + 1 }, 0)

/-! ### Waiting -/

/-- An event is held back exactly if its window is used up. -/
theorem take_pos_iff (hwidth : 0 < width) :
    0 < (take max width now l).2 ↔ max ≤ (roll width now l).count := by
  simp only [take]
  split
  case isTrue hfull =>
    have hlt : now < (roll width now l).windowStart + width := lt_roll_add hwidth
    exact iff_of_true (by omega) hfull
  case isFalse hfree => exact iff_of_false (Nat.lt_irrefl 0) hfree

/-- What is held back leaves the open window as it is. -/
theorem take_of_pos (h : 0 < (take max width now l).2) :
    (take max width now l).1 = roll width now l ∧ max ≤ (roll width now l).count ∧
      (take max width now l).2 = (roll width now l).windowStart + width - now := by
  simp only [take] at h ⊢
  split at h
  case isTrue hfull =>
    rw [if_pos hfull]
    exact ⟨rfl, hfull, rfl⟩
  case isFalse => cases h

/-- **Held back until the window is over.** Until then every further event is, and each is told the
time that is left. -/
theorem take_eq_wait (hwidth : 0 < width) (h : 0 < (take max width now l).2) {t : ℕ}
    (ht : t < now + (take max width now l).2) :
    take max width t (take max width now l).1
      = ((take max width now l).1, now + (take max width now l).2 - t) := by
  obtain ⟨hsame, hfull, hwait⟩ := take_of_pos h
  rw [hwait] at ht h ⊢
  rw [hsame]
  have hroll : roll width t (roll width now l) = roll width now l := by
    rw [roll, if_neg (by omega)]
  simp only [take, hroll, if_pos hfull, Prod.mk.injEq, true_and]
  omega

/-- **Let through once the window is over**, if anything ever is. -/
theorem take_after_wait (hmax : 0 < max) (h : 0 < (take max width now l).2) {t : ℕ}
    (ht : now + (take max width now l).2 ≤ t) :
    take max width t (take max width now l).1 = (⟨t, 1⟩, 0) := by
  obtain ⟨hsame, -, hwait⟩ := take_of_pos h
  rw [hwait] at ht h
  rw [hsame]
  have hroll : roll width t (roll width now l) = ⟨t, 0⟩ := by
    rw [roll, if_pos (by omega)]
  simp only [take, hroll, if_neg (Nat.not_le.mpr hmax), Nat.zero_add]

/-! ### Counting -/

/-- The limiter counts what it has let through: the events of its window, all of them before the
window is over, and at most `max` in the width before it. -/
structure Counts (max width : ℕ) (l : Limiter) (passed : List ℕ) : Prop where
  current : (passed.filter fun x => l.windowStart ≤ x).length = l.count
  count_le : l.count ≤ max
  inside : ∀ x ∈ passed, x < l.windowStart + width
  before : (passed.filter fun x => x < l.windowStart ∧ l.windowStart < x + width).length ≤ max
  slides : Slides width (2 * max) passed

theorem Counts.nil (max width start : ℕ) : Counts max width ⟨start, 0⟩ [] :=
  ⟨rfl, Nat.zero_le _, nofun, Nat.zero_le _, slides_nil⟩

/-- A new window opens. -/
theorem Counts.roll (h : Counts max width l passed) (hstart : l.windowStart ≤ now) :
    Counts max width (roll width now l) passed := by
  rw [FixedWindow.roll]
  split
  case isFalse => exact h
  case isTrue hover =>
    have hold : ∀ x ∈ passed, x < now := fun x hx => by
      have hlt : x < l.windowStart + width := h.inside x hx
      omega
    refine ⟨?_, Nat.zero_le _, fun x hx => ?_, ?_, h.slides⟩
    · show (passed.filter fun x => now ≤ x).length = 0
      rw [List.length_eq_zero_iff, List.filter_eq_nil_iff]
      intro x hx
      have hlt := hold x hx
      rw [decide_eq_true_iff]
      omega
    · exact Nat.lt_add_right width (hold x hx)
    · -- what came within the width before the new window came in the last one
      refine Nat.le_trans (List.Sublist.length_le
        (List.monotone_filter_right passed fun x hx => ?_))
        (Nat.le_trans (Nat.le_of_eq h.current) h.count_le)
      rw [decide_eq_true_iff] at hx ⊢
      have hlt : now < x + width := hx.2
      omega

/-- Within the width before a moment of the window: in the window, or in the width before it. -/
theorem length_recent_le (h : Counts max width l passed) (hstart : l.windowStart ≤ now) :
    (recent width now passed).length ≤ max + l.count := by
  have hsplit : ∀ ts : List ℕ, (recent width now ts).length ≤
      (ts.filter fun x => x < l.windowStart ∧ l.windowStart < x + width).length +
        (ts.filter fun x => l.windowStart ≤ x).length := by
    intro ts
    induction ts with
    | nil => exact Nat.zero_le _
    | cons x ts ih =>
      simp only [recent, List.filter_cons, decide_eq_true_eq] at ih ⊢
      split <;> split <;> split <;> (try simp only [List.length_cons]) <;> omega
  have hall := hsplit passed
  have hbefore := h.before
  have hcurrent := h.current
  omega

/-- **One event**, under a clock that does not go back. -/
theorem Counts.take (h : Counts max width l passed) (hstart : l.windowStart ≤ now)
    (hpast : ∀ x ∈ passed, x ≤ now) (hwidth : 0 < width) :
    (take max width now l).1.windowStart ≤ now ∧ Counts max width (take max width now l).1
      (if (take max width now l).2 = 0 then passed ++ [now] else passed) := by
  have hroll := h.roll hstart
  have hopen : (FixedWindow.roll width now l).windowStart ≤ now ∧
      now < (FixedWindow.roll width now l).windowStart + width :=
    ⟨roll_windowStart_le hstart, lt_roll_add hwidth⟩
  rcases Nat.eq_zero_or_pos (FixedWindow.take max width now l).2 with hzero | hpos
  · have hfree := mt (take_pos_iff hwidth).mpr (by rw [hzero]; exact Nat.lt_irrefl 0)
    have hcount : (FixedWindow.take max width now l).1 =
        { FixedWindow.roll width now l with
          count := (FixedWindow.roll width now l).count + 1 } := by
      simp only [FixedWindow.take, if_neg hfree]
    rw [if_pos hzero, hcount]
    refine ⟨hopen.1, ?_, ?_, fun x hx => ?_, ?_, ?_⟩
    · rw [List.filter_append, List.length_append, hroll.current,
        List.filter_cons_of_pos (by exact decide_eq_true hopen.1)]
      rfl
    · exact Nat.lt_of_not_le hfree
    · rcases List.mem_append.mp hx with hx | hx
      · exact hroll.inside x hx
      · rw [List.mem_singleton.mp hx]
        exact hopen.2
    · rw [List.filter_append, List.length_append, List.filter_cons_of_neg]
      · exact hroll.before
      · rw [decide_eq_true_iff]
        exact fun hlt => absurd hlt.1 (Nat.not_lt.mpr hopen.1)
    · refine (slides_snoc hwidth hpast).mpr ⟨h.slides, ?_⟩
      have hrecent := length_recent_le hroll hopen.1
      omega
  · obtain ⟨hsame, -, -⟩ := take_of_pos hpos
    rw [if_neg (Nat.ne_of_gt hpos), hsame]
    exact ⟨hopen.1, hroll⟩

end FixedWindow
