import Swyft.ClPool.TickTable
import Mathlib.Tactic.LinearCombination

/-!
# What the tick search finds

The bitmap as a set of compressed ticks: `flip_bitmap` toggles one member, and
`next_initialized_tick` returns the nearest member at or below, or strictly above, the tick it is
given, or reports that there is none in the words it can address.
-/

namespace Swyft.ClPool

open Checked Bits

/-- Compressed tick `c` is marked in the bitmap. -/
def marked (bitmap : Bitmap) (c : ℤ) : Bool := bitAt 128 (bitmapWord bitmap) c

/-- Every word of the bitmap is a `u128`. -/
def WordsFit (bitmap : Bitmap) : Prop := ∀ w, bitmapWord bitmap w < 2 ^ 128

/-! ### Compressed ticks -/

/-- `compressed_tick` is floor division. -/
theorem compressedTick_eq {tick tickSpacing : ℤ} (hs : 0 < tickSpacing) :
    compressedTick tick tickSpacing = tick / tickSpacing := by
  have hmul := Int.tmod_add_mul_tdiv tick tickSpacing
  have hlt := Int.tmod_lt_of_pos tick hs
  have hge : -tickSpacing < tick.tmod tickSpacing := by
    have := Int.neg_lt_of_neg_lt (a := tickSpacing) (b := -tick.tmod tickSpacing)
    have h' := Int.tmod_lt_of_pos (-tick) hs
    rw [Int.neg_tmod] at h'
    omega
  simp only [compressedTick]
  split
  case isTrue hr =>
    refine (Int.ediv_emod_unique hs (r := tick.tmod tickSpacing + tickSpacing) |>.mpr
      ⟨?_, by omega, by omega⟩).1.symm
    linear_combination hmul
  case isFalse hr =>
    exact (Int.ediv_emod_unique hs (r := tick.tmod tickSpacing) |>.mpr
      ⟨by linear_combination hmul, by omega, hlt⟩).1.symm

theorem dvd_of_tmod_eq_zero {tick tickSpacing : ℤ} (h : tick.tmod tickSpacing = 0) :
    tickSpacing ∣ tick :=
  Int.dvd_of_tmod_eq_zero h

/-! ### Toggling -/

theorem bitmapWord_update (bitmap : Bitmap) (w : ℤ) (n : ℕ) :
    bitmapWord (Function.update bitmap w (some n)) = Function.update (bitmapWord bitmap) w n := by
  funext x
  by_cases h : x = w
  · subst h; simp [bitmapWord]
  · simp [bitmapWord, h]

/-- `flip_bitmap` toggles the mark of its tick, when told to, and no other. -/
theorem marked_flipBitmap {tick tickSpacing : ℤ} (bitmap : Bitmap) (hs : 0 < tickSpacing)
    (flipped : Bool) (c : ℤ) :
    marked (flipBitmap bitmap tick tickSpacing flipped) c
      = (marked bitmap c ^^ (flipped && decide (c = tick / tickSpacing))) := by
  cases flipped with
  | false => simp [flipBitmap]
  | true =>
    simp only [flipBitmap, if_true, marked, tickPosition, compressedTick_eq hs, bitmapWord_update,
      Bool.true_and]
    exact bitAt_flip (by decide) _ _ _

theorem WordsFit.flipBitmap {bitmap : Bitmap} (h : WordsFit bitmap) (tick tickSpacing : ℤ)
    (flipped : Bool) : WordsFit (flipBitmap bitmap tick tickSpacing flipped) := by
  cases flipped with
  | false => exact h
  | true =>
    intro w
    simp only [ClPool.flipBitmap, if_true, bitmapWord_update, tickPosition]
    rw [Function.update_apply]
    split
    · have hbit : (compressedTick tick tickSpacing % 128).toNat < 128 := by omega
      exact Nat.xor_lt_two_pow (h _) (Nat.pow_lt_pow_right (by decide) hbit)
    · exact h w

/-! ### Searching -/

theorem tickOfBit_eq_ok {wordPos bit tickSpacing tick : ℤ}
    (h : tickOfBit wordPos bit tickSpacing = .ok tick) :
    tick = (wordPos * 128 + bit) * tickSpacing := by
  simp only [tickOfBit, bind_eq_ok, fitI32_eq_ok] at h
  obtain ⟨_, ⟨-, rfl⟩, _, ⟨-, rfl⟩, -, rfl⟩ := h
  rfl

theorem mostSignificant_spec {word : ℕ} (hlt : word < 2 ^ 128) (hne : word ≠ 0) :
    ∃ m : ℕ, m < 128 ∧ mostSignificant word = m ∧ word.testBit m = true ∧
      ∀ i, m < i → word.testBit i = false := by
  obtain ⟨m, hm, hz, hbit, habove⟩ := leadingZeros_spec hlt hne
  refine ⟨m, hm, ?_, hbit, habove⟩
  rw [mostSignificant, hz]
  omega

/-- A bit of a word, as a mark. -/
theorem marked_of_word {bitmap : Bitmap} (w : ℤ) {b : ℕ} (hb : b < 128) :
    marked bitmap (w * 128 + b) = (bitmapWord bitmap w).testBit b := by
  rw [marked, bitAt, show (w * 128 + (b : ℤ)) / ((128 : ℕ) : ℤ) = w by omega,
    show ((w * 128 + (b : ℤ)) % ((128 : ℕ) : ℤ)).toNat = b by omega]

theorem marked_eq (bitmap : Bitmap) (c : ℤ) :
    marked bitmap c = (bitmapWord bitmap (c / 128)).testBit (c % 128).toNat := rfl

/-- An empty word marks nothing. -/
theorem not_marked_of_word_eq_zero {bitmap : Bitmap} {c : ℤ} (h : bitmapWord bitmap (c / 128) = 0) :
    marked bitmap c = false := by
  rw [marked_eq, h, Nat.zero_testBit]

/-- `n` is the highest marked tick among those whose compressed index satisfies `P`. -/
structure FoundBelow (bitmap : Bitmap) (tickSpacing : ℤ) (bound : ℤ → Prop) (tick c : ℤ) :
    Prop where
  tick_eq : tick = c * tickSpacing
  mark : marked bitmap c = true
  inBound : bound c
  highest : ∀ c', c < c' → bound c' → marked bitmap c' = false

/-- The same with the lowest. -/
structure FoundAbove (bitmap : Bitmap) (tickSpacing : ℤ) (bound : ℤ → Prop) (tick c : ℤ) :
    Prop where
  tick_eq : tick = c * tickSpacing
  mark : marked bitmap c = true
  inBound : bound c
  lowest : ∀ c', c' < c → bound c' → marked bitmap c' = false

/-! ### The two scans -/

section Scan

variable {bitmap : Bitmap} {tickSpacing δ boundary : ℤ} {pick : ℕ → ℤ}

/-- Both scans, as one: word after word in the direction of `δ`, until one has a mark, of which
`pick` reads the bit. -/
def scanWords (bitmap : Bitmap) (tickSpacing : ℤ) (pick : ℕ → ℤ) (δ boundary : ℤ) :
    ℕ → ℤ → Res (ℤ × Bool)
  | 0, _ => pure (boundary, false)
  | rounds + 1, w =>
    if bitmapWord bitmap w ≠ 0 then do
      let tick ← tickOfBit w (pick (bitmapWord bitmap w)) tickSpacing
      pure (tick, true)
    else scanWords bitmap tickSpacing pick δ boundary rounds (w + δ)

theorem scanDown_eq_scanWords : ∀ rounds w, scanDown bitmap tickSpacing rounds w
    = scanWords bitmap tickSpacing mostSignificant (-1) minTick rounds w := by
  intro rounds
  induction rounds with
  | zero => exact fun _ => rfl
  | succ rounds ih =>
    intro w
    rw [scanDown, scanWords, ih]
    rfl

theorem scanUp_eq_scanWords : ∀ rounds w, scanUp bitmap tickSpacing rounds w
    = scanWords bitmap tickSpacing (fun word => trailingZeros 128 word) 1 maxTick rounds w := by
  intro rounds
  induction rounds with
  | zero => exact fun _ => rfl
  | succ rounds ih =>
    intro w
    rw [scanUp, scanWords, ih]

/-- **What a scan returns**: the bit of the first word that is not empty, or the boundary when all
the words it looks at are. -/
theorem scanWords_eq_ok {tick : ℤ} {found : Bool} :
    ∀ {rounds w}, scanWords bitmap tickSpacing pick δ boundary rounds w = .ok (tick, found) →
      if found then
        ∃ i : ℕ, (∀ j < i, bitmapWord bitmap (w + j * δ) = 0) ∧ bitmapWord bitmap (w + i * δ) ≠ 0 ∧
          tickOfBit (w + i * δ) (pick (bitmapWord bitmap (w + i * δ))) tickSpacing = .ok tick
      else tick = boundary ∧ ∀ i < rounds, bitmapWord bitmap (w + i * δ) = 0 := by
  intro rounds
  induction rounds with
  | zero =>
    intro w h
    simp only [scanWords, pure_eq_ok, Prod.mk.injEq] at h
    obtain ⟨rfl, rfl⟩ := h
    exact ⟨rfl, fun i hi => absurd hi (Nat.not_lt_zero i)⟩
  | succ rounds ih =>
    intro w h
    have hshift (i : ℕ) : w + ((i + 1 : ℕ) : ℤ) * δ = w + δ + i * δ := by push_cast; ring
    have hstart : w + ((0 : ℕ) : ℤ) * δ = w := by simp
    rw [scanWords] at h
    split at h
    case isTrue hne =>
      obtain ⟨t, ht, h⟩ := bind_eq_ok.mp h
      simp only [pure_eq_ok, Prod.mk.injEq] at h
      obtain ⟨rfl, rfl⟩ := h
      refine ⟨0, fun j hj => absurd hj (Nat.not_lt_zero j), ?_⟩
      rw [hstart]
      exact ⟨hne, ht⟩
    case isFalse hempty =>
      have hrest := ih h
      have hlater {n : ℕ} (hzero : ∀ i < n, bitmapWord bitmap (w + δ + i * δ) = 0) :
          ∀ i < n + 1, bitmapWord bitmap (w + i * δ) = 0 := by
        intro i hi
        cases i with
        | zero => rw [hstart]; exact not_not.mp hempty
        | succ i => rw [hshift]; exact hzero i (Nat.lt_of_succ_lt_succ hi)
      cases found with
      | true =>
        obtain ⟨i, hzero, hne, ht⟩ := hrest
        refine ⟨i + 1, hlater hzero, ?_⟩
        rw [hshift]
        exact ⟨hne, ht⟩
      | false => exact ⟨hrest.1, hlater hrest.2⟩

/-- A scan ends with an answer when the bits it may read have a tick. -/
theorem scanWords_ok (hpick : ∀ w, bitmapWord bitmap w ≠ 0 →
      ∃ t, tickOfBit w (pick (bitmapWord bitmap w)) tickSpacing = .ok t) :
    ∀ rounds w, ∃ r, scanWords bitmap tickSpacing pick δ boundary rounds w = .ok r := by
  intro rounds
  induction rounds with
  | zero => exact fun _ => ⟨_, rfl⟩
  | succ rounds ih =>
    intro w
    rw [scanWords]
    split
    case isTrue hne =>
      obtain ⟨t, ht⟩ := hpick w hne
      rw [ht]
      exact ⟨_, rfl⟩
    case isFalse => exact ih (w + δ)

/-- Rounds over empty words change nothing. -/
theorem scanWords_of_le {n m : ℕ} (hnm : n ≤ m) :
    ∀ {w : ℤ}, (∀ i : ℕ, n ≤ i → bitmapWord bitmap (w + i * δ) = 0) →
      scanWords bitmap tickSpacing pick δ boundary m w
        = scanWords bitmap tickSpacing pick δ boundary n w := by
  induction m generalizing n with
  | zero =>
    intro w _
    rw [Nat.le_zero.mp hnm]
  | succ m ih =>
    intro w hempty
    have hshift (i : ℕ) : w + ((i + 1 : ℕ) : ℤ) * δ = w + δ + i * δ := by push_cast; ring
    cases n with
    | zero =>
      have hw : bitmapWord bitmap w = 0 := by simpa using hempty 0 le_rfl
      show (if bitmapWord bitmap w ≠ 0 then _ else _) = _
      rw [if_neg (not_not.mpr hw)]
      refine ih (Nat.zero_le m) fun i _ => ?_
      rw [← hshift]
      exact hempty _ (Nat.zero_le _)
    | succ n =>
      rw [scanWords, scanWords, ih (Nat.le_of_succ_le_succ hnm)]
      intro i hi
      rw [← hshift]
      exact hempty _ (Nat.succ_le_succ hi)

theorem scanDown_found (hfit : WordsFit bitmap) {tick w : ℤ} {rounds : ℕ}
    (h : scanDown bitmap tickSpacing rounds w = .ok (tick, true)) :
    ∃ c, FoundBelow bitmap tickSpacing (fun c => c / 128 ≤ w) tick c := by
  rw [scanDown_eq_scanWords] at h
  obtain ⟨i, hzero, hne, ht⟩ := scanWords_eq_ok h
  obtain ⟨m, hm, hms, hbit, habove⟩ := mostSignificant_spec (hfit _) hne
  rw [hms] at ht
  refine ⟨_, tickOfBit_eq_ok ht, by rw [marked_of_word _ hm, hbit], by omega, ?_⟩
  intro c' hc hb
  by_cases hw : c' / 128 = w + i * -1
  · rw [marked_eq, hw]
    exact habove _ (by omega)
  · have hword := hzero (w - c' / 128).toNat (by omega)
    rw [show w + ((w - c' / 128).toNat : ℤ) * -1 = c' / 128 by omega] at hword
    exact not_marked_of_word_eq_zero hword

theorem scanDown_none {tick w : ℤ} {rounds : ℕ}
    (h : scanDown bitmap tickSpacing rounds w = .ok (tick, false)) :
    tick = minTick ∧ ∀ c, c / 128 ≤ w → w - rounds < c / 128 → marked bitmap c = false := by
  rw [scanDown_eq_scanWords] at h
  obtain ⟨htick, hzero⟩ := scanWords_eq_ok h
  refine ⟨htick, fun c h1 h2 => not_marked_of_word_eq_zero ?_⟩
  have hword := hzero (w - c / 128).toNat (by omega)
  rwa [show w + ((w - c / 128).toNat : ℤ) * -1 = c / 128 by omega] at hword

theorem scanUp_found (hfit : WordsFit bitmap) {tick w : ℤ} {rounds : ℕ}
    (h : scanUp bitmap tickSpacing rounds w = .ok (tick, true)) :
    ∃ c, FoundAbove bitmap tickSpacing (fun c => w ≤ c / 128) tick c := by
  rw [scanUp_eq_scanWords] at h
  obtain ⟨i, hzero, hne, ht⟩ := scanWords_eq_ok h
  obtain ⟨hlt, hbit, hbelow⟩ := trailingZeros_spec (hfit _) hne
  refine ⟨_, tickOfBit_eq_ok ht, by rw [marked_of_word _ hlt, hbit], by omega, ?_⟩
  intro c' hc hb
  by_cases hw : c' / 128 = w + i * 1
  · rw [marked_eq, hw]
    exact hbelow _ (by omega)
  · have hword := hzero (c' / 128 - w).toNat (by omega)
    rw [show w + ((c' / 128 - w).toNat : ℤ) * 1 = c' / 128 by omega] at hword
    exact not_marked_of_word_eq_zero hword

theorem scanUp_none {tick w : ℤ} {rounds : ℕ}
    (h : scanUp bitmap tickSpacing rounds w = .ok (tick, false)) :
    tick = maxTick ∧ ∀ c, w ≤ c / 128 → c / 128 < w + rounds → marked bitmap c = false := by
  rw [scanUp_eq_scanWords] at h
  obtain ⟨htick, hzero⟩ := scanWords_eq_ok h
  refine ⟨htick, fun c h1 h2 => not_marked_of_word_eq_zero ?_⟩
  have hword := hzero (c / 128 - w).toNat (by omega)
  rwa [show w + ((c / 128 - w).toNat : ℤ) * 1 = c / 128 by omega] at hword

end Scan

/-! ### The search -/

/-- Up to the start, the masked word holds the marks. -/
theorem testBit_maskedLow {bitmap : Bitmap} {start c : ℤ} (hw : c / 128 = start / 128)
    (hle : c ≤ start) :
    (bitmapWord bitmap (start / 128) &&& ((2 ^ (start % 128).toNat - 1
      + 2 ^ (start % 128).toNat) % 2 ^ 128)).testBit (c % 128).toNat = marked bitmap c := by
  rw [Nat.testBit_and, testBit_lowMask (by omega), decide_eq_true (by omega), Bool.and_true,
    marked_eq, hw]

/-- From the start on, the masked word holds the marks. -/
theorem testBit_maskedHigh {bitmap : Bitmap} {start c : ℤ} (hw : c / 128 = start / 128)
    (hle : start ≤ c) :
    (bitmapWord bitmap (start / 128) &&& ((2 ^ 128 - 1)
      ^^^ (2 ^ (start % 128).toNat - 1))).testBit (c % 128).toNat = marked bitmap c := by
  rw [Nat.testBit_and, testBit_highMask (by omega), decide_eq_true (by omega), Bool.and_true,
    marked_eq, hw]

/-- **Searching down** finds the highest marked tick at or below the start. -/
theorem nextInitializedTick_down {bitmap : Bitmap} (hfit : WordsFit bitmap)
    {tick tickSpacing found : ℤ} (hs : 0 < tickSpacing)
    (h : nextInitializedTick bitmap tick tickSpacing true = .ok (found, true)) :
    ∃ c, FoundBelow bitmap tickSpacing (fun c => c ≤ tick / tickSpacing) found c := by
  simp only [nextInitializedTick, if_true, tickPosition, compressedTick_eq hs] at h
  set start := tick / tickSpacing with hstart
  have hbit : (start % 128).toNat < 128 := by omega
  split at h
  case isTrue hne =>
    simp only [bind_eq_ok, pure_eq_ok, Prod.mk.injEq, and_true] at h
    obtain ⟨t, ht, rfl⟩ := h
    obtain ⟨m, hm, hms, hset, habove⟩ :=
      mostSignificant_spec (lt_of_le_of_lt Nat.and_le_left (hfit (start / 128))) hne
    rw [Nat.testBit_and, testBit_lowMask hbit, Bool.and_eq_true, decide_eq_true_eq] at hset
    rw [hms] at ht
    refine ⟨start / 128 * 128 + m, tickOfBit_eq_ok ht, by rw [marked_of_word _ hm]; exact hset.1,
      by have := hset.2; omega, fun c' hc hle => ?_⟩
    have hw : c' / 128 = start / 128 := by omega
    have hlow := habove (c' % 128).toNat (by omega)
    rwa [testBit_maskedLow hw hle] at hlow
  case isFalse hz =>
    simp only [bind_eq_ok, fitI32_eq_ok] at h
    obtain ⟨w, ⟨-, rfl⟩, h⟩ := h
    obtain ⟨c, htick, hmark, hb, hhigh⟩ := scanDown_found hfit h
    refine ⟨c, htick, hmark, by omega, fun c' hc hle => ?_⟩
    by_cases hw : c' / 128 = start / 128
    · rw [← testBit_maskedLow hw hle, not_not.mp hz, Nat.zero_testBit]
    · exact hhigh c' hc (by omega)

/-- Searching down finds nothing only when nothing is marked at or below the start. -/
theorem nextInitializedTick_down_none {bitmap : Bitmap} {tick tickSpacing found : ℤ}
    (hs : 0 < tickSpacing)
    (h : nextInitializedTick bitmap tick tickSpacing true = .ok (found, false)) {c : ℤ}
    (hc : c ≤ tick / tickSpacing) (hword : -2 ^ 31 ≤ c / 128) : marked bitmap c = false := by
  simp only [nextInitializedTick, if_true, tickPosition, compressedTick_eq hs] at h
  set start := tick / tickSpacing with hstart
  split at h
  case isTrue =>
    simp only [bind_eq_ok, pure_eq_ok, Prod.mk.injEq, reduceCtorEq, and_false, exists_false] at h
  case isFalse hz =>
    simp only [bind_eq_ok, fitI32_eq_ok] at h
    obtain ⟨w, ⟨⟨hlo, -⟩, rfl⟩, h⟩ := h
    by_cases hw : c / 128 = start / 128
    · rw [← testBit_maskedLow hw hc, not_not.mp hz, Nat.zero_testBit]
    · exact (scanDown_none h).2 c (by omega) (by omega)

/-- **Searching up** finds the lowest marked tick strictly above the start. -/
theorem nextInitializedTick_up {bitmap : Bitmap} (hfit : WordsFit bitmap)
    {tick tickSpacing found : ℤ} (hs : 0 < tickSpacing)
    (h : nextInitializedTick bitmap tick tickSpacing false = .ok (found, true)) :
    ∃ c, FoundAbove bitmap tickSpacing (fun c => tick / tickSpacing < c) found c := by
  simp only [nextInitializedTick, Bool.false_eq_true, if_false, compressedTick_eq hs, bind_eq_ok,
    fitI32_eq_ok] at h
  obtain ⟨start, ⟨-, hstart⟩, h⟩ := h
  have hbit : (start % 128).toNat < 128 := by omega
  split at h
  case isTrue hne =>
    simp only [tickPosition] at hne h
    simp only [bind_eq_ok, pure_eq_ok, Prod.mk.injEq, and_true] at h
    obtain ⟨t, ht, rfl⟩ := h
    obtain ⟨hlt, hset, hbelow⟩ :=
      trailingZeros_spec (lt_of_le_of_lt Nat.and_le_left (hfit (start / 128))) hne
    rw [Nat.testBit_and, testBit_highMask hbit, Bool.and_eq_true, decide_eq_true_eq] at hset
    refine ⟨_, tickOfBit_eq_ok ht, by rw [marked_of_word _ hlt]; exact hset.1,
      by have := hset.2; omega, fun c' hc hgt => ?_⟩
    have hw : c' / 128 = start / 128 := by omega
    have hlow := hbelow (c' % 128).toNat (by omega)
    rwa [testBit_maskedHigh hw (by omega)] at hlow
  case isFalse hne =>
    simp only [tickPosition] at hne h
    simp only [bind_eq_ok, fitI32_eq_ok] at h
    obtain ⟨w, ⟨-, rfl⟩, h⟩ := h
    obtain ⟨c, htick, hmark, hb, hlow⟩ := scanUp_found hfit h
    refine ⟨c, htick, hmark, by omega, fun c' hc hgt => ?_⟩
    by_cases hw : c' / 128 = start / 128
    · rw [← testBit_maskedHigh hw (by omega), not_not.mp hne, Nat.zero_testBit]
    · exact hlow c' hc (by omega)

/-- Searching up finds nothing only when nothing is marked above the start. -/
theorem nextInitializedTick_up_none {bitmap : Bitmap} {tick tickSpacing found : ℤ}
    (hs : 0 < tickSpacing)
    (h : nextInitializedTick bitmap tick tickSpacing false = .ok (found, false)) {c : ℤ}
    (hc : tick / tickSpacing < c) (hword : c / 128 < 2 ^ 31) : marked bitmap c = false := by
  simp only [nextInitializedTick, Bool.false_eq_true, if_false, compressedTick_eq hs, bind_eq_ok,
    fitI32_eq_ok] at h
  obtain ⟨start, ⟨-, hstart⟩, h⟩ := h
  split at h
  case isTrue hne =>
    simp only [tickPosition] at hne h
    simp only [bind_eq_ok, pure_eq_ok, Prod.mk.injEq, reduceCtorEq, and_false, exists_false] at h
  case isFalse hne =>
    simp only [tickPosition] at hne h
    simp only [bind_eq_ok, fitI32_eq_ok] at h
    obtain ⟨w, ⟨⟨-, hhi⟩, rfl⟩, h⟩ := h
    by_cases hw : c / 128 = start / 128
    · rw [← testBit_maskedHigh hw (by omega), not_not.mp hne, Nat.zero_testBit]
    · exact (scanUp_none h).2 c (by omega) (by omega)

end Swyft.ClPool
