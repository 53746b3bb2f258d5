import Swyft.ClPool.TickSearch
import Swyft.ClPool.WellFormed
import Mathlib.Order.Bounds.Basic
import Mathlib.Algebra.Group.Nat.Even

/-!
# The tick search is exact

A bitmap built by flipping usable ticks holds the set of the ticks flipped an odd number of times.
On such a bitmap the search never stops short: it returns the nearest member of the set, or the
boundary when there is none.

## Main definitions

* `flipAll` — a bitmap after a list of flips
* `HoldsTicks` — a bitmap holds a set of usable ticks
* `NearestAtOrBelow`, `NearestAbove` — what the two directions of the search are for

## Main results

* `holdsTicks_flipAll` — flips move the set a bitmap holds
* `HoldsTicks.search_down`, `HoldsTicks.search_up` — the search on the set a bitmap holds
* `tick_search_exact` — the search after any flips
-/

namespace Swyft.ClPool

open Checked Bits

variable {bitmap : Bitmap} {tickSpacing : ℤ} {initialised : Set ℤ}

/-! ### The set a bitmap holds -/

/-- The bitmap after flipping the ticks of a list, one after the other. -/
def flipAll (bitmap : Bitmap) (tickSpacing : ℤ) (ticks : List ℤ) : Bitmap :=
  ticks.foldl (fun b t => flipBitmap b t tickSpacing true) bitmap

/-- The bitmap before the first flip. -/
def emptyBitmap : Bitmap := fun _ => none

/-- The ticks that a list of flips leaves initialised. -/
def oddlyFlipped (ticks : List ℤ) : Set ℤ := {t | Odd (ticks.count t)}

/-- The bitmap marks the members of a set of usable ticks, and nothing else. -/
structure HoldsTicks (bitmap : Bitmap) (tickSpacing : ℤ) (initialised : Set ℤ) : Prop where
  wordsFit : WordsFit bitmap
  marked_iff : ∀ c, marked bitmap c = true ↔ c * tickSpacing ∈ initialised
  valid : ∀ t ∈ initialised, ValidTick t tickSpacing

theorem holdsTicks_empty : HoldsTicks emptyBitmap tickSpacing ∅ where
  wordsFit := by
    intro w
    show 0 < 2 ^ 128
    decide
  marked_iff := by
    intro c
    simp [marked_eq, bitmapWord, emptyBitmap]
  valid := by simp

/-- A flip changes the membership of its tick. -/
theorem HoldsTicks.flip (h : HoldsTicks bitmap tickSpacing initialised) (hs : 0 < tickSpacing)
    {t : ℤ} (ht : ValidTick t tickSpacing) :
    HoldsTicks (flipBitmap bitmap t tickSpacing true) tickSpacing
      {x | (x ∈ initialised ∧ x ≠ t) ∨ (x = t ∧ t ∉ initialised)} where
  wordsFit := h.wordsFit.flipBitmap t tickSpacing true
  marked_iff := by
    intro c
    have hself : t / tickSpacing * tickSpacing = t := Int.ediv_mul_cancel ht.dvd
    rw [marked_flipBitmap bitmap hs, Bool.true_and, Set.mem_ofPred_eq]
    by_cases hc : c = t / tickSpacing
    · have hmem := h.marked_iff c
      rw [hc, hself] at hmem ⊢
      cases hm : marked bitmap (t / tickSpacing) with
      | true => simp [hmem.mp hm]
      | false => simpa [hm] using hmem
    · have hne : c * tickSpacing ≠ t := by
        intro heq
        exact hc (by rw [← heq, Int.mul_ediv_cancel _ hs.ne'])
      rw [decide_eq_false hc, Bool.xor_false, h.marked_iff c]
      simp [hne]
  valid := by
    rintro x (⟨hx, -⟩ | ⟨rfl, -⟩)
    · exact h.valid x hx
    · exact ht

/-- Flips one after the other leave initialised what was flipped an odd number of times. -/
theorem holdsTicks_flipAll (hs : 0 < tickSpacing) {ticks : List ℤ}
    (hvalid : ∀ t ∈ ticks, ValidTick t tickSpacing) :
    HoldsTicks (flipAll emptyBitmap tickSpacing ticks) tickSpacing (oddlyFlipped ticks) := by
  induction ticks using List.reverseRecOn with
  | nil =>
    have hempty : oddlyFlipped [] = ∅ := by simp [oddlyFlipped]
    rw [hempty]
    exact holdsTicks_empty
  | append_singleton ticks t ih =>
    have hflip := (ih fun t' ht' => hvalid t' (by simp [ht'])).flip hs (hvalid t (by simp))
    have hset : oddlyFlipped (ticks ++ [t]) =
        {x | (x ∈ oddlyFlipped ticks ∧ x ≠ t) ∨ (x = t ∧ t ∉ oddlyFlipped ticks)} := by
      ext x
      by_cases hx : x = t
      · subst hx
        simp [oddlyFlipped, Nat.odd_add_one]
      · simp [oddlyFlipped, hx, Ne.symm hx]
    rw [hset, flipAll, List.foldl_append]
    exact hflip

/-! ### The search is total -/

/-- Every index in reach of the pool's ticks is a small number. -/
theorem ediv_bounds {a b : ℤ} (hs : 0 < tickSpacing) (hlo : -b ≤ a) (hhi : a ≤ b) :
    -b ≤ a / tickSpacing ∧ a / tickSpacing ≤ b := by
  have hb : 0 ≤ b := by omega
  refine ⟨(Int.le_ediv_iff_mul_le hs).mpr ?_, Int.ediv_le_of_le_mul hs ?_⟩
  · nlinarith
  · nlinarith

theorem HoldsTicks.index_bounds (h : HoldsTicks bitmap tickSpacing initialised)
    (hs : 0 < tickSpacing) {c : ℤ} (hc : marked bitmap c = true) : -887272 ≤ c ∧ c ≤ 887272 := by
  have ht := (h.valid _ ((h.marked_iff c).mp hc)).bounds
  have := ediv_bounds hs (a := c * tickSpacing) (b := 887272) ht.1 ht.2
  rwa [Int.mul_ediv_cancel _ hs.ne'] at this

/-- The tick of a mark fits in its word. -/
theorem HoldsTicks.tickOfBit (h : HoldsTicks bitmap tickSpacing initialised) (hs : 0 < tickSpacing)
    {w : ℤ} {m : ℕ} (hm : m < 128) (hmark : marked bitmap (w * 128 + m) = true) :
    tickOfBit w m tickSpacing = .ok ((w * 128 + m) * tickSpacing) := by
  have hc := h.index_bounds hs hmark
  have ht := (h.valid _ ((h.marked_iff _).mp hmark)).bounds
  simp only [ClPool.tickOfBit, bind_eq_ok, fitI32_eq_ok]
  exact ⟨_, ⟨by omega, rfl⟩, _, ⟨by omega, rfl⟩, by omega, rfl⟩

/-- Whatever word a scan is at, it ends with an answer. -/
theorem HoldsTicks.scanDown_ok (h : HoldsTicks bitmap tickSpacing initialised)
    (hs : 0 < tickSpacing) (rounds : ℕ) (w : ℤ) :
    ∃ r, scanDown bitmap tickSpacing rounds w = .ok r := by
  rw [scanDown_eq_scanWords]
  refine scanWords_ok (fun w hne => ?_) rounds w
  obtain ⟨m, hm, hms, hbit, -⟩ := mostSignificant_spec (h.wordsFit w) hne
  rw [hms]
  exact ⟨_, h.tickOfBit hs hm (by rw [marked_of_word w hm, hbit])⟩

theorem HoldsTicks.scanUp_ok (h : HoldsTicks bitmap tickSpacing initialised)
    (hs : 0 < tickSpacing) (rounds : ℕ) (w : ℤ) :
    ∃ r, scanUp bitmap tickSpacing rounds w = .ok r := by
  rw [scanUp_eq_scanWords]
  refine scanWords_ok (fun w hne => ?_) rounds w
  obtain ⟨hlt, hbit, -⟩ := trailingZeros_spec (h.wordsFit w) hne
  exact ⟨_, h.tickOfBit hs hlt (by rw [marked_of_word w hlt, hbit])⟩

/-- The rounds of `scanDown` are those of the source's loop, which leaves after `i32::MIN`. -/
theorem scanDown_loop {w : ℤ} (hw : -2 ^ 31 ≤ w) :
    scanDown bitmap tickSpacing ((w + 2 ^ 31).toNat + 1) w =
      if bitmapWord bitmap w ≠ 0 then do
        let tick ← tickOfBit w (mostSignificant (bitmapWord bitmap w)) tickSpacing
        pure (tick, true)
      else if w = -2 ^ 31 then pure (minTick, false)
      else scanDown bitmap tickSpacing ((w - 1 + 2 ^ 31).toNat + 1) (w - 1) := by
  rw [scanDown]
  by_cases hmin : w = -2 ^ 31
  · subst hmin
    rfl
  · have hrounds : (w + 2 ^ 31).toNat = (w - 1 + 2 ^ 31).toNat + 1 := by omega
    rw [if_neg hmin, hrounds]

theorem scanUp_loop {w : ℤ} (hw : w < 2 ^ 31) :
    scanUp bitmap tickSpacing ((2 ^ 31 - 1 - w).toNat + 1) w =
      if bitmapWord bitmap w ≠ 0 then do
        let tick ← tickOfBit w (trailingZeros 128 (bitmapWord bitmap w)) tickSpacing
        pure (tick, true)
      else if w = 2 ^ 31 - 1 then pure (maxTick, false)
      else scanUp bitmap tickSpacing ((2 ^ 31 - 1 - (w + 1)).toNat + 1) (w + 1) := by
  rw [scanUp]
  by_cases hmax : w = 2 ^ 31 - 1
  · subst hmax
    rfl
  · have hrounds : (2 ^ 31 - 1 - w).toNat = (2 ^ 31 - 1 - (w + 1)).toNat + 1 := by omega
    rw [if_neg hmax, hrounds]

/-! ### What the search returns -/

/-- The answer of a search towards lower ticks: the highest member not above the start, or
`MIN_TICK` when there is none. -/
def NearestAtOrBelow (initialised : Set ℤ) (start : ℤ) : ℤ × Bool → Prop
  | (t, true) => IsGreatest {x | x ∈ initialised ∧ x ≤ start} t
  | (t, false) => t = minTick ∧ ∀ x ∈ initialised, start < x

/-- The answer of a search towards higher ticks. -/
def NearestAbove (initialised : Set ℤ) (start : ℤ) : ℤ × Bool → Prop
  | (t, true) => IsLeast {x | x ∈ initialised ∧ start < x} t
  | (t, false) => t = maxTick ∧ ∀ x ∈ initialised, x ≤ start

/-- The downward search ends with an answer. -/
theorem HoldsTicks.search_down_ok (h : HoldsTicks bitmap tickSpacing initialised)
    (hs : 0 < tickSpacing) {start : ℤ} (hlo : minTick - 1 ≤ start) (hhi : start ≤ maxTick) :
    ∃ r, nextInitializedTick bitmap start tickSpacing true = .ok r := by
  have hindex := ediv_bounds hs (b := 887273) hlo (hhi.trans (by decide))
  simp only [nextInitializedTick, if_true, tickPosition, compressedTick_eq hs]
  set k := start / tickSpacing
  have hbit : (k % 128).toNat < 128 := by omega
  split
  case isTrue hne =>
    obtain ⟨m, hm, hms, hset, -⟩ :=
      mostSignificant_spec (lt_of_le_of_lt Nat.and_le_left (h.wordsFit (k / 128))) hne
    rw [Nat.testBit_and, Bool.and_eq_true] at hset
    rw [hms, h.tickOfBit hs hm (by rw [marked_of_word _ hm, hset.1])]
    exact ⟨_, rfl⟩
  case isFalse =>
    have hw : fitI32 (k / 128 - 1) = .ok (k / 128 - 1) := fitI32_eq_ok.mpr ⟨by omega, rfl⟩
    rw [hw]
    exact h.scanDown_ok hs _ _

/-- The upward search ends with an answer. -/
theorem HoldsTicks.search_up_ok (h : HoldsTicks bitmap tickSpacing initialised)
    (hs : 0 < tickSpacing) {start : ℤ} (hlo : minTick - 1 ≤ start) (hhi : start ≤ maxTick) :
    ∃ r, nextInitializedTick bitmap start tickSpacing false = .ok r := by
  have hindex := ediv_bounds hs (b := 887273) hlo (hhi.trans (by decide))
  simp only [nextInitializedTick, Bool.false_eq_true, if_false, compressedTick_eq hs]
  have habove : fitI32 (start / tickSpacing + 1) = .ok (start / tickSpacing + 1) :=
    fitI32_eq_ok.mpr ⟨by omega, rfl⟩
  rw [habove, ok_bind]
  split
  case isTrue hne =>
    simp only [tickPosition] at hne ⊢
    generalize start / tickSpacing + 1 = k at hne
    obtain ⟨hlt, hset, -⟩ :=
      trailingZeros_spec (lt_of_le_of_lt Nat.and_le_left (h.wordsFit (k / 128))) hne
    rw [Nat.testBit_and, Bool.and_eq_true] at hset
    rw [h.tickOfBit hs hlt (by rw [marked_of_word _ hlt, hset.1])]
    exact ⟨_, rfl⟩
  case isFalse =>
    have hw : fitI32 ((start / tickSpacing + 1) / 128 + 1)
        = .ok ((start / tickSpacing + 1) / 128 + 1) := fitI32_eq_ok.mpr ⟨by omega, rfl⟩
    simp only [tickPosition]
    rw [hw]
    exact h.scanUp_ok hs _ _

theorem nextInitializedTick_down_boundary {start t : ℤ}
    (hr : nextInitializedTick bitmap start tickSpacing true = .ok (t, false)) : t = minTick := by
  simp only [nextInitializedTick, if_true] at hr
  split at hr
  case isTrue =>
    simp only [bind_eq_ok, pure_eq_ok, Prod.mk.injEq, reduceCtorEq, and_false, exists_false] at hr
  case isFalse =>
    obtain ⟨w, -, hr⟩ := bind_eq_ok.mp hr
    exact (scanDown_none hr).1

theorem nextInitializedTick_up_boundary {start t : ℤ}
    (hr : nextInitializedTick bitmap start tickSpacing false = .ok (t, false)) : t = maxTick := by
  simp only [nextInitializedTick, Bool.false_eq_true, if_false] at hr
  obtain ⟨k, -, hr⟩ := bind_eq_ok.mp hr
  split at hr
  case isTrue =>
    simp only [bind_eq_ok, pure_eq_ok, Prod.mk.injEq, reduceCtorEq, and_false, exists_false] at hr
  case isFalse =>
    obtain ⟨w, -, hr⟩ := bind_eq_ok.mp hr
    exact (scanUp_none hr).1

section Search

variable (h : HoldsTicks bitmap tickSpacing initialised) (hs : 0 < tickSpacing) {start : ℤ}
include h

/-- A member is its compressed index times the spacing. -/
theorem HoldsTicks.index {x : ℤ} (hx : x ∈ initialised) :
    marked bitmap (x / tickSpacing) = true ∧ x / tickSpacing * tickSpacing = x := by
  have hself : x / tickSpacing * tickSpacing = x := Int.ediv_mul_cancel (h.valid x hx).dvd
  exact ⟨(h.marked_iff _).mpr (by rwa [hself]), hself⟩

include hs

/-- **Searching down** returns the greatest member not above the start. -/
theorem HoldsTicks.search_down (hlo : minTick - 1 ≤ start) (hhi : start ≤ maxTick) :
    Yields (nextInitializedTick bitmap start tickSpacing true)
      (NearestAtOrBelow initialised start) := by
  obtain ⟨⟨t, found⟩, hr⟩ := h.search_down_ok hs hlo hhi
  refine yields_iff.mpr ⟨_, hr, ?_⟩
  have hindex {x : ℤ} (hx : x ≤ start) : x / tickSpacing ≤ start / tickSpacing :=
    Int.ediv_le_ediv hs hx
  cases found with
  | true =>
    obtain ⟨c, rfl, hmark, hbound, hhigh⟩ := nextInitializedTick_down h.wordsFit hs hr
    constructor
    · exact ⟨(h.marked_iff c).mp hmark, (Int.le_ediv_iff_mul_le hs).mp hbound⟩
    · rintro x ⟨hx, hle⟩
      obtain ⟨hxm, hself⟩ := h.index hx
      by_contra hlt
      have hc : c < x / tickSpacing := by
        rw [← hself] at hlt
        exact lt_of_mul_lt_mul_right (not_le.mp hlt) hs.le
      rw [hhigh _ hc (hindex hle)] at hxm
      exact absurd hxm (by decide)
  | false =>
    refine ⟨nextInitializedTick_down_boundary hr, fun x hx => ?_⟩
    by_contra hle
    obtain ⟨hxm, -⟩ := h.index hx
    have hbounds := h.index_bounds hs hxm
    have hnone := nextInitializedTick_down_none hs hr (hindex (not_lt.mp hle)) (by omega)
    rw [hnone] at hxm
    exact absurd hxm (by decide)

/-- **Searching up** returns the least member strictly above the start. -/
theorem HoldsTicks.search_up (hlo : minTick - 1 ≤ start) (hhi : start ≤ maxTick) :
    Yields (nextInitializedTick bitmap start tickSpacing false)
      (NearestAbove initialised start) := by
  obtain ⟨⟨t, found⟩, hr⟩ := h.search_up_ok hs hlo hhi
  refine yields_iff.mpr ⟨_, hr, ?_⟩
  have hindex {x : ℤ} (hx : x ∈ initialised) (hlt : start < x) :
      start / tickSpacing < x / tickSpacing := by
    rw [Int.ediv_lt_iff_lt_mul hs, (h.index hx).2]
    exact hlt
  cases found with
  | true =>
    obtain ⟨c, rfl, hmark, hbound, hlow⟩ := nextInitializedTick_up h.wordsFit hs hr
    constructor
    · exact ⟨(h.marked_iff c).mp hmark, (Int.ediv_lt_iff_lt_mul hs).mp hbound⟩
    · rintro x ⟨hx, hlt⟩
      obtain ⟨hxm, hself⟩ := h.index hx
      by_contra hgt
      have hc : x / tickSpacing < c := by
        rw [← hself] at hgt
        exact lt_of_mul_lt_mul_right (not_le.mp hgt) hs.le
      rw [hlow _ hc (hindex hx hlt)] at hxm
      exact absurd hxm (by decide)
  | false =>
    refine ⟨nextInitializedTick_up_boundary hr, fun x hx => ?_⟩
    by_contra hgt
    obtain ⟨hxm, -⟩ := h.index hx
    have hbounds := h.index_bounds hs hxm
    have hnone := nextInitializedTick_up_none hs hr (hindex hx (not_le.mp hgt)) (by omega)
    rw [hnone] at hxm
    exact absurd hxm (by decide)

end Search

/-- **The tick search is exact**, whatever usable ticks were flipped: it ends, with the nearest
initialised tick in its direction, or the boundary when there is none. -/
theorem tick_search_exact {ticks : List ℤ} {start : ℤ} (hs : 0 < tickSpacing)
    (hvalid : ∀ t ∈ ticks, ValidTick t tickSpacing) (hlo : minTick - 1 ≤ start)
    (hhi : start ≤ maxTick) :
    Yields (nextInitializedTick (flipAll emptyBitmap tickSpacing ticks) start tickSpacing true)
        (NearestAtOrBelow (oddlyFlipped ticks) start) ∧
      Yields (nextInitializedTick (flipAll emptyBitmap tickSpacing ticks) start tickSpacing false)
        (NearestAbove (oddlyFlipped ticks) start) :=
  have h := holdsTicks_flipAll hs hvalid
  ⟨h.search_down hs hlo hhi, h.search_up hs hlo hhi⟩

/-- On the ticks of a test of the repository, from between two of them. -/
theorem tick_search_exact_at_edges :
    Yields (nextInitializedTick (flipAll emptyBitmap 60 [-887220, -7680, -60, 0]) (-61) 60 true)
        (NearestAtOrBelow (oddlyFlipped [-887220, -7680, -60, 0]) (-61)) ∧
      Yields (nextInitializedTick (flipAll emptyBitmap 60 [-887220, -7680, -60, 0]) (-61) 60 false)
        (NearestAbove (oddlyFlipped [-887220, -7680, -60, 0]) (-61)) :=
  tick_search_exact (by decide) (by unfold ValidTick; decide) (by decide) (by decide)

example : nextInitializedTick (flipAll emptyBitmap 60 [-887220, -7680, -60, 0]) (-61) 60 true
    = .ok (-7680, true) := by decide

end Swyft.ClPool
