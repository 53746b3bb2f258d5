import Swyft.PoolContract.Model
import Swyft.ClPool.SearchExact

/-!
# The pool contract's tick search

`next_initialized_tick` of the pool contract reads the same bitmap as the one of `cl-pool`, and
differs from it in two ways: it looks at no word outside the range of the valid ticks, which costs
it nothing, and it compresses the tick it starts from by truncation, which moves the start of the
search up for a negative tick between two multiples of the spacing.

## Main definitions

* `flipTicks` — a bitmap after a list of calls to `flip_tick`
* `nextInitializedTick` — the search
* `StartsOver` — the search starts at an initialised tick above the one it was given

## Main results

* `next_eq` — the search is that of `cl-pool` from the truncated start
* `search_exact_iff` — when it is exact
-/

namespace Swyft.PoolContract

open Checked Bits
open ClPool (minTick maxTick Bitmap bitmapWord tickPosition mostSignificant tickOfBit marked
  ValidTick HoldsTicks NearestAtOrBelow NearestAbove emptyBitmap oddlyFlipped marked_of_word
  compressedTick_eq mostSignificant_spec)

variable {bitmap : Bitmap} {tickSpacing : ℤ} {initialised : Set ℤ}

/-! ### The search -/

/-- The loop `while w >= min_word` of `next_initialized_tick`. -/
def scanDown (bitmap : Bitmap) (tickSpacing minWord : ℤ) : (rounds : ℕ) → (w : ℤ) → Res (ℤ × Bool)
  | 0, _ => pure (minTick, false)
  | rounds + 1, w =>
    if minWord ≤ w then
      let word := bitmapWord bitmap w
      if word ≠ 0 then do
        let next ← tickOfBit w (mostSignificant word) tickSpacing
        pure (next, true)
      else scanDown bitmap tickSpacing minWord rounds (w - 1)
    else pure (minTick, false)

/-- The loop `while w <= max_word`. -/
def scanUp (bitmap : Bitmap) (tickSpacing maxWord : ℤ) : (rounds : ℕ) → (w : ℤ) → Res (ℤ × Bool)
  | 0, _ => pure (maxTick, false)
  | rounds + 1, w =>
    if w ≤ maxWord then
      let word := bitmapWord bitmap w
      if word ≠ 0 then do
        let next ← tickOfBit w (trailingZeros 128 word) tickSpacing
        pure (next, true)
      else scanUp bitmap tickSpacing maxWord rounds (w + 1)
    else pure (maxTick, false)

/-- `next_initialized_tick(tick, tick_spacing, lte)`. -/
def nextInitializedTick (bitmap : Bitmap) (tick tickSpacing : ℤ) (lte : Bool) :
    Res (ℤ × Bool) := do
  let quotient ← divI .arithmetic tick tickSpacing
  let compressed ← fitI32 quotient
  let minWord := minTick.tdiv tickSpacing / 128
  let maxWord := maxTick.tdiv tickSpacing / 128
  if lte then
    let position := tickPosition compressed
    let mask := (2 ^ position.2 - 1) ||| 2 ^ position.2
    let masked := bitmapWord bitmap position.1 &&& mask
    if masked ≠ 0 then do
      let next ← tickOfBit position.1 (mostSignificant masked) tickSpacing
      pure (next, true)
    else do
      let w ← fitI32 (position.1 - 1)
      scanDown bitmap tickSpacing minWord (w - minWord + 1).toNat w
  else do
    let above ← fitI32 (compressed + 1)
    let position := tickPosition above
    let mask := (2 ^ 128 - 1) ^^^ (2 ^ position.2 - 1)
    let masked := bitmapWord bitmap position.1 &&& mask
    if masked ≠ 0 then do
      let next ← tickOfBit position.1 (trailingZeros 128 masked) tickSpacing
      pure (next, true)
    else do
      let w ← fitI32 (position.1 + 1)
      scanUp bitmap tickSpacing maxWord (maxWord - w + 1).toNat w

/-- The bitmap after calls to `flip_tick`, one after the other. -/
def flipTicks (bitmap : Bitmap) (tickSpacing : ℤ) (ticks : List ℤ) : Res Bitmap :=
  ticks.foldlM (fun b t => flipTick b t tickSpacing true) bitmap

/-! ### The bitmap -/

@[simp] theorem validateTick_eq_ok {tick : ℤ} {u : Unit} :
    validateTick tick tickSpacing = .ok u ↔ ValidTick tick tickSpacing :=
  require_eq_ok

/-- On a usable tick the two contracts flip the same bit. -/
theorem flipTick_eq (hs : 0 < tickSpacing) {t : ℤ} (ht : ValidTick t tickSpacing) :
    flipTick bitmap t tickSpacing true
      = .ok (ClPool.flipBitmap bitmap t tickSpacing true) := by
  have hvalid : validateTick t tickSpacing = .ok () := validateTick_eq_ok.mpr ht
  rw [flipTick, if_pos rfl, hvalid, ok_bind, Int.tdiv_eq_ediv_of_dvd ht.dvd, ClPool.flipBitmap,
    if_pos rfl, compressedTick_eq hs]
  rfl

theorem flipTicks_eq (hs : 0 < tickSpacing) {ticks : List ℤ}
    (hvalid : ∀ t ∈ ticks, ValidTick t tickSpacing) :
    flipTicks bitmap tickSpacing ticks = .ok (ClPool.flipAll bitmap tickSpacing ticks) := by
  induction ticks generalizing bitmap with
  | nil => rfl
  | cons t ticks ih =>
    rw [flipTicks, List.foldlM_cons, flipTick_eq hs (hvalid t (by simp)), ok_bind]
    exact ih fun t' ht' => hvalid t' (by simp [ht'])

/-! ### The words outside the range of the valid ticks are empty -/

/-- Over no more words than there are up to the bound, the bounded scan does not meet the bound. -/
theorem scanDown_eq_scanWords {minWord : ℤ} : ∀ rounds w, rounds ≤ (w - minWord + 1).toNat →
    scanDown bitmap tickSpacing minWord rounds w
      = ClPool.scanWords bitmap tickSpacing mostSignificant (-1) minTick rounds w := by
  intro rounds
  induction rounds with
  | zero => exact fun _ _ => rfl
  | succ rounds ih =>
    intro w hrounds
    rw [scanDown, if_pos (by omega), ClPool.scanWords, ih (w - 1) (by omega)]
    rfl

theorem scanUp_eq_scanWords {maxWord : ℤ} : ∀ rounds w, rounds ≤ (maxWord - w + 1).toNat →
    scanUp bitmap tickSpacing maxWord rounds w
      = ClPool.scanWords bitmap tickSpacing (fun word => trailingZeros 128 word) 1 maxTick rounds
          w := by
  intro rounds
  induction rounds with
  | zero => exact fun _ _ => rfl
  | succ rounds ih =>
    intro w hrounds
    rw [scanUp, if_pos (by omega), ClPool.scanWords, ih (w + 1) (by omega)]

section Search

variable (h : HoldsTicks bitmap tickSpacing initialised) (hs : 0 < tickSpacing)
include h hs

/-- Every mark is in a word the search looks at. -/
theorem word_of_marked {c : ℤ} (hc : marked bitmap c = true) :
    minTick.tdiv tickSpacing / 128 ≤ c / 128 ∧ c / 128 ≤ maxTick.tdiv tickSpacing / 128 := by
  have ht := h.valid _ ((h.marked_iff c).mp hc)
  have hlo := Int.tdiv_le_tdiv hs ht.1
  have hhi := Int.tdiv_le_tdiv hs ht.2.1
  rw [Int.mul_tdiv_cancel _ hs.ne'] at hlo hhi
  exact ⟨Int.ediv_le_ediv (by decide) hlo, Int.ediv_le_ediv (by decide) hhi⟩

/-- A word with a mark is a word the search looks at. -/
theorem word_in_range {w : ℤ} (hw : bitmapWord bitmap w ≠ 0) :
    minTick.tdiv tickSpacing / 128 ≤ w ∧ w ≤ maxTick.tdiv tickSpacing / 128 := by
  obtain ⟨m, hm, -, hbit, -⟩ := mostSignificant_spec (h.wordsFit w) hw
  have hmark : marked bitmap (w * 128 + m) = true := by rw [marked_of_word w hm, hbit]
  have hrange := word_of_marked h hs hmark
  rwa [show (w * 128 + (m : ℤ)) / 128 = w by omega] at hrange

omit h in
theorem words_bounds : -2 ^ 31 < minTick.tdiv tickSpacing / 128 ∧
    maxTick.tdiv tickSpacing / 128 < 2 ^ 31 - 1 := by
  have hmin := ClPool.ediv_bounds hs (a := minTick) (b := 887272) (by decide) (by decide)
  have hmax := ClPool.ediv_bounds hs (a := maxTick) (b := 887272) (by decide) (by decide)
  have hlo : minTick / tickSpacing ≤ minTick.tdiv tickSpacing := by
    rw [Int.tdiv_eq_ediv, Int.sign_eq_one_of_pos hs]
    split_ifs <;> omega
  rw [Int.tdiv_eq_ediv_of_nonneg (a := maxTick) (by decide)]
  omega

omit h in
/-- On words without marks below the bound, the bounded scan is the scan of `cl-pool`. -/
theorem scanDown_eq (hrange : ∀ w, bitmapWord bitmap w ≠ 0 → minTick.tdiv tickSpacing / 128 ≤ w)
    {w : ℤ} (hw : -2 ^ 31 ≤ w) :
    scanDown bitmap tickSpacing (minTick.tdiv tickSpacing / 128)
        (w - minTick.tdiv tickSpacing / 128 + 1).toNat w
      = ClPool.scanDown bitmap tickSpacing ((w + 2 ^ 31).toNat + 1) w := by
  have hbounds := words_bounds hs
  rw [scanDown_eq_scanWords _ _ (by omega), ClPool.scanDown_eq_scanWords]
  refine (ClPool.scanWords_of_le (by omega) fun i hi => ?_).symm
  by_contra hne
  have := hrange _ hne
  omega

omit h in
theorem scanUp_eq (hrange : ∀ w, bitmapWord bitmap w ≠ 0 → w ≤ maxTick.tdiv tickSpacing / 128)
    {w : ℤ} (hw : w < 2 ^ 31) :
    scanUp bitmap tickSpacing (maxTick.tdiv tickSpacing / 128)
        (maxTick.tdiv tickSpacing / 128 - w + 1).toNat w
      = ClPool.scanUp bitmap tickSpacing ((2 ^ 31 - 1 - w).toNat + 1) w := by
  have hbounds := words_bounds hs
  rw [scanUp_eq_scanWords _ _ (by omega), ClPool.scanUp_eq_scanWords]
  refine (ClPool.scanWords_of_le (by omega) fun i hi => ?_).symm
  by_contra hne
  have := hrange _ hne
  omega

omit h in
/-- The tick the search starts from is in range when the one it was given is. -/
theorem start_bounds {tick : ℤ} (hlo : minTick ≤ tick) (hhi : tick ≤ maxTick) :
    (minTick ≤ tick.tdiv tickSpacing * tickSpacing ∧
      tick.tdiv tickSpacing * tickSpacing ≤ maxTick) ∧
    -887272 ≤ tick.tdiv tickSpacing ∧ tick.tdiv tickSpacing ≤ 887272 := by
  have hmul : minTick ≤ tick.tdiv tickSpacing * tickSpacing ∧
      tick.tdiv tickSpacing * tickSpacing ≤ maxTick := by
    have hsum := Int.tmod_add_tdiv_mul tick tickSpacing
    rcases le_total 0 tick with hpos | hneg
    · have hr := Int.tmod_nonneg tickSpacing hpos
      have hq : 0 ≤ tick.tdiv tickSpacing * tickSpacing :=
        mul_nonneg (Int.tdiv_nonneg hpos hs.le) hs.le
      have hmin : minTick ≤ 0 := by decide
      omega
    · have hr := Int.tmod_nonneg tickSpacing (Int.neg_nonneg.mpr hneg)
      have hq : 0 ≤ (-tick).tdiv tickSpacing * tickSpacing :=
        mul_nonneg (Int.tdiv_nonneg (Int.neg_nonneg.mpr hneg) hs.le) hs.le
      rw [Int.neg_tmod] at hr
      rw [Int.neg_tdiv, neg_mul] at hq
      have hmax : 0 ≤ maxTick := by decide
      omega
  have hdiv := ClPool.ediv_bounds hs (b := 887272) hmul.1 hmul.2
  rw [Int.mul_ediv_cancel _ hs.ne'] at hdiv
  exact ⟨hmul, hdiv⟩

/-- **The search of the pool contract is that of `cl-pool`**, from the multiple of the spacing that
its truncating division starts at. -/
theorem next_eq {tick : ℤ} (hlo : minTick ≤ tick) (hhi : tick ≤ maxTick) (lte : Bool) :
    nextInitializedTick bitmap tick tickSpacing lte =
      ClPool.nextInitializedTick bitmap (tick.tdiv tickSpacing * tickSpacing) tickSpacing lte := by
  obtain ⟨-, hkl, hkh⟩ := start_bounds hs hlo hhi
  have hdiv : divI .arithmetic tick tickSpacing = (.ok (tick.tdiv tickSpacing) : Res ℤ) :=
    if_neg hs.ne'
  have hfit : fitI32 (tick.tdiv tickSpacing) = .ok (tick.tdiv tickSpacing) :=
    fitI32_eq_ok.mpr ⟨by omega, rfl⟩
  rw [nextInitializedTick, hdiv, ok_bind, hfit, ok_bind, ClPool.nextInitializedTick,
    compressedTick_eq hs, Int.mul_ediv_cancel _ hs.ne']
  generalize tick.tdiv tickSpacing = k at *
  cases lte with
  | true =>
    have hbit : (k % 128).toNat < 128 := by omega
    have hw : fitI32 (k / 128 - 1) = .ok (k / 128 - 1) := fitI32_eq_ok.mpr ⟨by omega, rfl⟩
    simp only [if_true, tickPosition, hw, ok_bind]
    rw [lowMask_or hbit,
      scanDown_eq hs (fun w hne => (word_in_range h hs hne).1) (by omega)]
  | false =>
    have habove : fitI32 (k + 1) = .ok (k + 1) := fitI32_eq_ok.mpr ⟨by omega, rfl⟩
    have hw : fitI32 ((k + 1) / 128 + 1) = .ok ((k + 1) / 128 + 1) :=
      fitI32_eq_ok.mpr ⟨by omega, rfl⟩
    simp only [Bool.false_eq_true, if_false, habove, ok_bind, tickPosition, hw]
    rw [scanUp_eq hs (fun w hne => (word_in_range h hs hne).2) (by omega)]

end Search

/-! ### When the search is exact -/

/-- The search starts above the tick it was given, at an initialised tick. -/
def StartsOver (initialised : Set ℤ) (tickSpacing tick : ℤ) : Prop :=
  tick < 0 ∧ ¬ tickSpacing ∣ tick ∧ tick.tdiv tickSpacing * tickSpacing ∈ initialised

/-- What a search is for, in either direction. -/
def Nearest (lte : Bool) (initialised : Set ℤ) (tick : ℤ) (r : ℤ × Bool) : Prop :=
  if lte then NearestAtOrBelow initialised tick r else NearestAbove initialised tick r

/-- The answer depends only on which side of the tick the initialised ticks lie. -/
theorem nearest_congr {lte : Bool} {a b : ℤ} (hab : ∀ x ∈ initialised, x ≤ a ↔ x ≤ b)
    (r : ℤ × Bool) : Nearest lte initialised a r ↔ Nearest lte initialised b r := by
  obtain ⟨t, found⟩ := r
  have hlt : ∀ x ∈ initialised, a < x ↔ b < x := by
    intro x hx
    rw [← not_le, ← not_le, hab x hx]
  have hbelow : {x | x ∈ initialised ∧ x ≤ a} = {x | x ∈ initialised ∧ x ≤ b} := by
    ext x
    exact and_congr_right fun hx => hab x hx
  have habove : {x | x ∈ initialised ∧ a < x} = {x | x ∈ initialised ∧ b < x} := by
    ext x
    exact and_congr_right fun hx => hlt x hx
  cases lte with
  | true =>
    cases found with
    | true =>
      show IsGreatest _ t ↔ IsGreatest _ t
      rw [hbelow]
    | false => exact and_congr_right fun _ => forall₂_congr fun x hx => hlt x hx
  | false =>
    cases found with
    | true =>
      show IsLeast _ t ↔ IsLeast _ t
      rw [habove]
    | false => exact and_congr_right fun _ => forall₂_congr fun x hx => hab x hx

/-- An initialised tick above another tick has another answer. -/
theorem not_nearest {lte : Bool} {a b : ℤ} (hb : b ∈ initialised) (hab : a < b) {r : ℤ × Bool}
    (hr : Nearest lte initialised b r) : ¬ Nearest lte initialised a r := by
  obtain ⟨t, found⟩ := r
  intro hr'
  cases lte with
  | true =>
    cases found with
    | true =>
      have hle : b ≤ t := hr.2 ⟨hb, le_rfl⟩
      have hta : t ≤ a := hr'.1.2
      omega
    | false => exact absurd (hr.2 b hb) (lt_irrefl b)
  | false =>
    cases found with
    | true =>
      have hbt : b < t := hr.1.2
      have hle : t ≤ b := hr'.2 ⟨hb, hab⟩
      omega
    | false => exact absurd (hr'.2 b hb) (not_le.mpr hab)

/-- There is one answer. -/
theorem nearest_unique {lte : Bool} {a : ℤ} {r r' : ℤ × Bool} (hr : Nearest lte initialised a r)
    (hr' : Nearest lte initialised a r') : r = r' := by
  obtain ⟨t, found⟩ := r
  obtain ⟨t', found'⟩ := r'
  cases lte with
  | true =>
    cases found with
    | true =>
      cases found' with
      | true => rw [IsGreatest.unique hr hr']
      | false => exact absurd (hr'.2 t hr.1.1) (not_lt.mpr hr.1.2)
    | false =>
      cases found' with
      | true => exact absurd (hr.2 t' hr'.1.1) (not_lt.mpr hr'.1.2)
      | false => rw [hr.1, hr'.1]
  | false =>
    cases found with
    | true =>
      cases found' with
      | true => rw [IsLeast.unique hr hr']
      | false => exact absurd (hr'.2 t hr.1.1) (not_le.mpr hr.1.2)
    | false =>
      cases found' with
      | true => exact absurd (hr.2 t' hr'.1.1) (not_le.mpr hr'.1.2)
      | false => rw [hr.1, hr'.1]

/-- Otherwise the initialised ticks lie on the same side of the tick and of the start. -/
theorem le_start_iff (h : HoldsTicks bitmap tickSpacing initialised) (hs : 0 < tickSpacing)
    {tick : ℤ} (hstart : ¬ StartsOver initialised tickSpacing tick) {x : ℤ}
    (hx : x ∈ initialised) : x ≤ tick.tdiv tickSpacing * tickSpacing ↔ x ≤ tick := by
  have hself : x / tickSpacing * tickSpacing = x := Int.ediv_mul_cancel (h.valid x hx).dvd
  have hfloor : x ≤ tick ↔ x / tickSpacing ≤ tick / tickSpacing := by
    rw [Int.le_ediv_iff_mul_le hs, hself]
  have htrunc : x ≤ tick.tdiv tickSpacing * tickSpacing ↔
      x / tickSpacing ≤ tick.tdiv tickSpacing := by
    nth_rewrite 1 [← hself]
    exact mul_le_mul_iff_left₀ hs
  rw [hfloor, htrunc, Int.tdiv_eq_ediv, Int.sign_eq_one_of_pos hs]
  split
  case isTrue => rw [add_zero]
  case isFalse hneg =>
    rw [not_or, not_le] at hneg
    have hne : x / tickSpacing ≠ tick / tickSpacing + 1 := by
      intro heq
      refine hstart ⟨hneg.1, hneg.2, ?_⟩
      rw [Int.tdiv_eq_ediv, Int.sign_eq_one_of_pos hs, if_neg (by omega), ← heq, hself]
      exact hx
    omega

/-- An initialised start is above the tick. -/
theorem StartsOver.lt (hs : 0 < tickSpacing) {tick : ℤ}
    (hstart : StartsOver initialised tickSpacing tick) :
    tick < tick.tdiv tickSpacing * tickSpacing := by
  obtain ⟨hneg, hdvd, -⟩ := hstart
  rw [Int.tdiv_eq_ediv, Int.sign_eq_one_of_pos hs, if_neg (by omega)]
  exact Int.lt_ediv_add_one_mul_self tick hs

/-- The search of `cl-pool` is exact in both directions. -/
theorem clPool_nearest (h : HoldsTicks bitmap tickSpacing initialised) (hs : 0 < tickSpacing)
    {tick : ℤ} (hlo : minTick ≤ tick)
    (hhi : tick ≤ maxTick) (lte : Bool) :
    ∃ r, ClPool.nextInitializedTick bitmap tick tickSpacing lte = .ok r ∧
      Nearest lte initialised tick r := by
  have hlow : minTick - 1 ≤ tick := by omega
  cases lte with
  | true => exact yields_iff.mp (h.search_down hs hlow hhi)
  | false => exact yields_iff.mp (h.search_up hs hlow hhi)

/-- **When the pool contract's search is exact.** Whatever usable ticks were flipped, and in both
directions, it returns the nearest initialised tick, and what `cl-pool` returns, except from a
negative tick between two multiples of the spacing of which the upper one is initialised. -/
theorem search_exact_iff {ticks : List ℤ} {tick : ℤ} (hs : 0 < tickSpacing)
    (hvalid : ∀ t ∈ ticks, ValidTick t tickSpacing) (hlo : minTick ≤ tick) (hhi : tick ≤ maxTick) :
    Yields (flipTicks emptyBitmap tickSpacing ticks) fun bitmap =>
      ∀ lte : Bool,
        (Yields (nextInitializedTick bitmap tick tickSpacing lte)
            (Nearest lte (oddlyFlipped ticks) tick) ↔
          ¬ StartsOver (oddlyFlipped ticks) tickSpacing tick) ∧
        (nextInitializedTick bitmap tick tickSpacing lte
            = ClPool.nextInitializedTick bitmap tick tickSpacing lte ↔
          ¬ StartsOver (oddlyFlipped ticks) tickSpacing tick) := by
  refine yields_iff.mpr ⟨_, flipTicks_eq hs hvalid, fun lte => ?_⟩
  have h := ClPool.holdsTicks_flipAll hs hvalid
  obtain ⟨⟨hlo', hhi'⟩, -⟩ := start_bounds hs hlo hhi
  obtain ⟨r, hr, hnear⟩ := clPool_nearest h hs hlo' hhi' lte
  obtain ⟨r', hr', hnear'⟩ := clPool_nearest h hs hlo hhi lte
  rw [next_eq h hs hlo hhi lte, hr, hr']
  show (Nearest lte (oddlyFlipped ticks) tick r ↔ _) ∧ _
  rw [Except.ok.injEq]
  by_cases hstart : StartsOver (oddlyFlipped ticks) tickSpacing tick
  · have hnot := not_nearest hstart.2.2 (StartsOver.lt hs hstart) hnear
    have hne : r ≠ r' := by
      rintro rfl
      exact hnot hnear'
    exact ⟨iff_of_false hnot (not_not.mpr hstart), iff_of_false hne (not_not.mpr hstart)⟩
  · have hmoved := (nearest_congr (fun _ hx => le_start_iff h hs hstart hx) r).mp hnear
    exact ⟨iff_of_true hmoved hstart, iff_of_true (nearest_unique hmoved hnear') hstart⟩

/-- From tick `-1`, at spacing 60 and with tick 0 initialised, the search down goes up to tick 0. -/
theorem search_goes_up :
    Yields (flipTicks emptyBitmap 60 [0]) fun bitmap =>
      nextInitializedTick bitmap (-1) 60 true = .ok (0, true) ∧
        ¬ Yields (nextInitializedTick bitmap (-1) 60 true)
          (Nearest true (oddlyFlipped [0]) (-1)) := by
  refine ⟨by decide, ?_⟩
  intro hnear
  exact absurd hnear.1.2 (by decide)

/-- From a tick that is not negative the search is exact. -/
theorem search_exact_at_sixty :
    Yields (flipTicks emptyBitmap 60 [60]) fun bitmap =>
      ∀ lte : Bool,
        (Yields (nextInitializedTick bitmap 61 60 lte) (Nearest lte (oddlyFlipped [60]) 61) ↔
          ¬ StartsOver (oddlyFlipped [60]) 60 61) ∧
        (nextInitializedTick bitmap 61 60 lte = ClPool.nextInitializedTick bitmap 61 60 lte ↔
          ¬ StartsOver (oddlyFlipped [60]) 60 61) :=
  search_exact_iff (by decide) (by unfold ValidTick; decide) (by decide) (by decide)

end Swyft.PoolContract
