import Swyft.OracleAdapter.Bounds
import Swyft.Lib.Loops

/-!
# The binary search, round by round

`binary_search_observation` with every operator on `u32` as the source has it: a subtraction below
zero, a sum that does not fit and a slot that was never written stop the search. Here the loop has
no bound on its rounds. Whatever the buffer holds, so long as its observations are in order, the
search comes to its end, stops nowhere on the way and finds the last observation at or before the
target.

## Main definitions

* `searchRound` — one round of the loop
* `InRing` — a buffer whose observations are in order, partly filled or wrapped

## Main results

* `Tracks.inRing` — every run of reports leaves such a buffer
* `searchRound_advances` — what a round does
* `binary_search_finds` — what the search finds, in any such buffer
-/

namespace Swyft

namespace OracleAdapter

open Checked Loops

/-! ### The loop -/

def addU32 (a b : ℕ) : Res ℕ := fitU 32 .arithmetic (a + b)
def subU32 (a b : ℕ) : Res ℕ := subU .arithmetic a b

/-- The variables of the loop: `lo`, `hi`, `result_idx`. -/
structure Cursor where
  lo : ℕ
  hi : ℕ
  result : ℕ
  deriving DecidableEq, Repr

/-- A round of the loop of `binary_search_observation`. -/
def searchRound (o : OracleAdapter) (oldest target : ℕ) (c : Cursor) : Res (Cursor ⊕ ℕ) :=
  if c.lo ≤ c.hi then do
    let width ← subU32 c.hi c.lo
    let mid ← addU32 c.lo (width / 2)
    let sum ← addU32 oldest mid
    let abs := sum % bufferSize
    let obs ← expect (o.obs abs) unwrapNone
    if obs.timestamp ≤ target then do
      let lo ← addU32 mid 1
      pure (.inl ⟨lo, c.hi, abs⟩)
    else if mid = 0 then pure (.inr c.result)
    else do
      let hi ← subU32 mid 1
      pure (.inl ⟨c.lo, hi, c.result⟩)
  else pure (.inr c.result)

/-- The slot at a place, counted from the oldest observation. -/
def slot (count writeIndex j : ℕ) : ℕ := (oldestIndex count writeIndex + j) % bufferSize

/-- The first `count` places are written, with increasing times. -/
structure InRing (o : OracleAdapter) (count writeIndex : ℕ) (obsAt : ℕ → Observation) : Prop where
  written : ∀ j < count, o.obs (slot count writeIndex j) = some (obsAt j)
  increasing : ∀ i j, i < j → j < count → (obsAt i).timestamp < (obsAt j).timestamp

/-- The place is that of the last observation at or before the target. -/
def IsLast (count target : ℕ) (obsAt : ℕ → Observation) (m : ℕ) : Prop :=
  m < count ∧ (obsAt m).timestamp ≤ target ∧
    ∀ j < count, (obsAt j).timestamp ≤ target → (obsAt j).timestamp ≤ (obsAt m).timestamp

/-- Between rounds: what is below `lo` is at or before the target, what is above `hi` after it, and
the result is the slot just below `lo`. -/
structure Narrowed (count writeIndex target : ℕ) (obsAt : ℕ → Observation) (c : Cursor) : Prop where
  inside : c.hi < count
  close : c.lo ≤ c.hi + 1
  before : ∀ j < c.lo, (obsAt j).timestamp ≤ target
  after : ∀ j, c.hi < j → j < count → target < (obsAt j).timestamp
  result : c.result = slot count writeIndex (c.lo - 1)

variable {o : OracleAdapter} {count writeIndex target : ℕ} {obsAt : ℕ → Observation}

theorem oldestIndex_lt (count writeIndex : ℕ) : oldestIndex count writeIndex < bufferSize := by
  rw [oldestIndex]
  split
  · exact bufferSize_pos
  · exact Nat.mod_lt _ bufferSize_pos

theorem slot_zero (count writeIndex : ℕ) : slot count writeIndex 0 = oldestIndex count writeIndex :=
  Nat.mod_eq_of_lt (oldestIndex_lt count writeIndex)

/-- The buffer of every run of reports is in order. -/
theorem Tracks.inRing {history : List Report} (h : o.Tracks history) :
    ∃ obsAt, InRing o o.observationCount o.writeIndex obsAt := by
  let at' (j : ℕ) : ℕ := history.length - min history.length bufferSize + j
  refine ⟨fun j => observationOf (history.take (at' j + 1)), fun j hj => ?_, fun i j hij hj => ?_⟩
  · rw [h.count] at hj
    obtain ⟨-, -, hread, -⟩ := h.read hj
    rw [slot, oldestIndex, h.count, h.writeIndex, Nat.mod_mod, Ring.oldest_slot, Ring.logical_slot]
    exact hread
  · rw [h.count] at hj
    obtain ⟨r, hr, -, htime⟩ := h.read (hij.trans hj)
    obtain ⟨r', hr', -, htime'⟩ := h.read hj
    show (observationOf (history.take (at' i + 1))).timestamp
      < (observationOf (history.take (at' j + 1))).timestamp
    rw [htime, htime']
    exact h.time_lt (Nat.add_lt_add_left hij _) hr hr'

/-! ### A round -/

theorem addU32_of_lt {a b : ℕ} (h : a + b < 2 ^ 32) : addU32 a b = .ok (a + b) := fitU_of_lt h

theorem subU32_of_le {a b : ℕ} (h : b ≤ a) : subU32 a b = .ok (a - b) := subU_of_le h

theorem InRing.le (h : InRing o count writeIndex obsAt) {i j : ℕ} (hij : i ≤ j) (hj : j < count) :
    (obsAt i).timestamp ≤ (obsAt j).timestamp := by
  rcases hij.eq_or_lt with rfl | hlt
  · exact le_rfl
  · exact (h.increasing i j hlt hj).le

/-- Before the first round. -/
theorem Narrowed.start (hpos : 1 ≤ count) : Narrowed count writeIndex target obsAt
    ⟨0, count - 1, oldestIndex count writeIndex⟩ where
  inside := Nat.sub_lt hpos Nat.one_pos
  close := Nat.zero_le _
  before j hj := absurd hj (Nat.not_lt_zero j)
  after j hj hjc := by
    have hj : count - 1 < j := hj
    omega
  result := (slot_zero count writeIndex).symm

/-- Where the bounds have met, the place just below `lo` is the last one. -/
theorem Narrowed.isLast (h : InRing o count writeIndex obsAt) {c : Cursor}
    (hc : Narrowed count writeIndex target obsAt c) (hmet : c.hi < c.lo) :
    IsLast count target obsAt (c.lo - 1) := by
  have hinside := hc.inside
  have hclose := hc.close
  refine ⟨by omega, hc.before _ (by omega), fun j hj hle => ?_⟩
  refine h.le ?_ (by omega)
  by_contra hgt
  exact absurd hle (not_le.mpr (hc.after j (by omega) hj))

/-- The last one is at or behind a place that is not behind the target. -/
theorem Narrowed.raise (h : InRing o count writeIndex obsAt) {c : Cursor} {mid : ℕ}
    (hc : Narrowed count writeIndex target obsAt c) (hhigh : mid ≤ c.hi)
    (hbefore : (obsAt mid).timestamp ≤ target) :
    Narrowed count writeIndex target obsAt ⟨mid + 1, c.hi, slot count writeIndex mid⟩ where
  inside := hc.inside
  close := Nat.succ_le_succ hhigh
  before _ hj := (h.le (Nat.lt_succ_iff.mp hj) (hhigh.trans_lt hc.inside)).trans hbefore
  after := hc.after
  result := by
    show _ = slot count writeIndex (mid + 1 - 1)
    rw [Nat.add_sub_cancel]

/-- The last one is before a place that is behind the target. -/
theorem Narrowed.lower (h : InRing o count writeIndex obsAt) {c : Cursor} {mid : ℕ}
    (hc : Narrowed count writeIndex target obsAt c) (hlow : c.lo ≤ mid) (hhigh : mid ≤ c.hi)
    (hafter : target < (obsAt mid).timestamp) :
    Narrowed count writeIndex target obsAt ⟨c.lo, mid - 1, c.result⟩ := by
  have hinside := hc.inside
  refine ⟨?_, ?_, hc.before, fun j (hj : mid - 1 < j) hjc => ?_, hc.result⟩
  · show mid - 1 < count
    omega
  · show c.lo ≤ mid - 1 + 1
    omega
  · exact hafter.trans_le (h.le (by omega) hjc)

/-- **A round of the search** stops nowhere: it leaves the loop at the last observation at or before
the target, or keeps the bounds around that one and brings them closer. -/
theorem searchRound_advances (h : InRing o count writeIndex obsAt) (hmax : count ≤ bufferSize)
    (hold : (obsAt 0).timestamp ≤ target) {c : Cursor}
    (hc : Narrowed count writeIndex target obsAt c) :
    ∃ next, searchRound o (oldestIndex count writeIndex) target c = .ok next ∧
      Advances (Narrowed count writeIndex target obsAt) (fun c => c.hi + 1 - c.lo)
        (fun res => ∃ m, res = slot count writeIndex m ∧ IsLast count target obsAt m) c next := by
  have hinside := hc.inside
  have hsmall : bufferSize + bufferSize < 2 ^ 32 := by decide
  have holdest := oldestIndex_lt count writeIndex
  rw [searchRound]
  split
  case isFalse hmet =>
    exact ⟨.inr c.result, rfl, c.lo - 1, hc.result, hc.isLast h (not_le.mp hmet)⟩
  case isTrue hle =>
    have hmid : c.lo ≤ c.lo + (c.hi - c.lo) / 2 ∧ c.lo + (c.hi - c.lo) / 2 ≤ c.hi := by omega
    rw [subU32_of_le hle, ok_bind, addU32_of_lt (by omega), ok_bind]
    generalize c.lo + (c.hi - c.lo) / 2 = mid at hmid
    obtain ⟨hlow, hhigh⟩ := hmid
    have hread := h.written mid (by omega)
    rw [slot] at hread
    rw [addU32_of_lt (by omega), ok_bind]
    simp only [hread, expect, getOr, ok_bind]
    split
    case isTrue hbefore =>
      rw [addU32_of_lt (by omega), ok_bind]
      refine ⟨.inl ⟨mid + 1, c.hi, _⟩, rfl, hc.raise h hhigh hbefore, ?_⟩
      show c.hi + 1 - (mid + 1) < c.hi + 1 - c.lo
      omega
    case isFalse hafter =>
      have hpos : mid ≠ 0 := by
        rintro rfl
        exact hafter hold
      rw [if_neg hpos, subU32_of_le (by omega), ok_bind]
      refine ⟨.inl ⟨c.lo, mid - 1, c.result⟩, rfl,
        hc.lower h hlow hhigh (not_le.mp hafter), ?_⟩
      show mid - 1 + 1 - c.lo < c.hi + 1 - c.lo
      omega

/-! ### The search -/

/-- What a round that stops nowhere does. -/
theorem searchRound_cases {oldest : ℕ} {c : Cursor} {next : Cursor ⊕ ℕ}
    (h : searchRound o oldest target c = .ok next) :
    (c.hi < c.lo ∧ next = .inr c.result) ∨
      ∃ mid obs, c.lo ≤ c.hi ∧ mid = c.lo + (c.hi - c.lo) / 2 ∧
        o.obs ((oldest + mid) % bufferSize) = some obs ∧
        ((obs.timestamp ≤ target ∧ next = .inl ⟨mid + 1, c.hi, (oldest + mid) % bufferSize⟩) ∨
          (¬ obs.timestamp ≤ target ∧ mid = 0 ∧ next = .inr c.result) ∨
          (¬ obs.timestamp ≤ target ∧ mid ≠ 0 ∧ next = .inl ⟨c.lo, mid - 1, c.result⟩)) := by
  rw [searchRound] at h
  split at h
  case isFalse hmet => exact .inl ⟨not_le.mp hmet, (pure_eq_ok.mp h).symm⟩
  case isTrue hle =>
    simp only [bind_eq_ok, subU32, addU32, subU_eq_ok, fitU_eq_ok, expect_eq_ok] at h
    obtain ⟨_, ⟨-, rfl⟩, mid, ⟨-, hmid⟩, _, ⟨-, rfl⟩, obs, hread, h⟩ := h
    refine .inr ⟨mid, obs, hle, hmid.symm, hread, ?_⟩
    split at h
    case isTrue hbefore =>
      simp only [bind_eq_ok, fitU_eq_ok] at h
      obtain ⟨_, ⟨-, rfl⟩, h⟩ := h
      exact .inl ⟨hbefore, (pure_eq_ok.mp h).symm⟩
    case isFalse hafter =>
      split at h
      case isTrue hzero => exact .inr (.inl ⟨hafter, hzero, (pure_eq_ok.mp h).symm⟩)
      case isFalse hne =>
        simp only [bind_eq_ok, subU_eq_ok] at h
        obtain ⟨_, ⟨-, rfl⟩, h⟩ := h
        exact .inr (.inr ⟨hafter, hne, (pure_eq_ok.mp h).symm⟩)

/-- A loop that is left is what the search does that counts its rounds, where it has as many as
there are places between the bounds. -/
theorem searchLoop_of_ends {oldest res : ℕ} {c : Cursor}
    (h : Ends (searchRound o oldest target) c res) :
    ∀ {fuel : ℕ}, c.hi + 1 - c.lo ≤ fuel →
      searchLoop o oldest target fuel c.lo c.hi c.result = .ok res := by
  induction h with
  | leave hleave =>
    intro fuel hfuel
    rcases searchRound_cases hleave with ⟨hmet, hres⟩ | ⟨mid, obs, hle, rfl, hread, hround⟩
    · obtain rfl := Sum.inr.inj hres
      cases fuel with
      | zero => rfl
      | succ fuel =>
        rw [searchLoop, if_neg (not_le.mpr hmet)]
        rfl
    · obtain ⟨fuel, rfl⟩ : ∃ k, fuel = k + 1 := ⟨fuel - 1, by omega⟩
      rw [searchLoop, if_pos hle]
      simp only [hread, expect, getOr, ok_bind]
      rcases hround with ⟨-, hres⟩ | ⟨hafter, hzero, hres⟩ | ⟨-, -, hres⟩
      · cases hres
      · obtain rfl := Sum.inr.inj hres
        rw [if_neg hafter, if_pos hzero]
        rfl
      · cases hres
  | @next s _ _ hnext _ ih =>
    intro fuel hfuel
    rcases searchRound_cases hnext with ⟨-, hres⟩ | ⟨mid, obs, hle, hmid, hread, hround⟩
    · cases hres
    · obtain ⟨fuel, rfl⟩ : ∃ k, fuel = k + 1 := ⟨fuel - 1, by omega⟩
      rw [searchLoop, if_pos hle]
      subst hmid
      simp only [hread, expect, getOr, ok_bind]
      rcases hround with ⟨hbefore, hres⟩ | ⟨-, -, hres⟩ | ⟨hafter, hne, hres⟩
      · obtain rfl := Sum.inl.inj hres
        rw [if_pos hbefore]
        refine ih ?_
        show s.hi + 1 - (s.lo + (s.hi - s.lo) / 2 + 1) ≤ fuel
        omega
      · cases hres
      · obtain rfl := Sum.inl.inj hres
        rw [if_neg hafter, if_neg hne]
        refine ih ?_
        show s.lo + (s.hi - s.lo) / 2 - 1 + 1 - s.lo ≤ fuel
        omega

/-- **What the binary search finds.** In a buffer of up to 65535 observations in order, wherever the
write index stands, with the oldest one at or before the target: the search comes to its end without
an underflow, an overflow or the read of a slot that was not written, and returns the last
observation at or before the target. -/
theorem binary_search_finds (hpos : 1 ≤ count) (hmax : count ≤ bufferSize)
    (h : InRing o count writeIndex obsAt) (hold : (obsAt 0).timestamp ≤ target) :
    ∃ hi res m, subU32 count 1 = .ok hi ∧
      Ends (searchRound o (oldestIndex count writeIndex) target)
        ⟨0, hi, oldestIndex count writeIndex⟩ res ∧
      o.obs res = some (obsAt m) ∧ IsLast count target obsAt m ∧
      binarySearchObservation o count writeIndex target = .ok (obsAt m) := by
  obtain ⟨res, hends, m, rfl, hlast⟩ := exists_ends (fun c : Cursor => c.hi + 1 - c.lo)
    (fun c hc => searchRound_advances h hmax hold hc)
    (Narrowed.start hpos : Narrowed count writeIndex target obsAt _)
  have hread := h.written m hlast.1
  refine ⟨count - 1, slot count writeIndex m, m, subU32_of_le hpos, hends, hread, hlast, ?_⟩
  have hloop := searchLoop_of_ends hends (show count - 1 + 1 - 0 ≤ count by omega)
  rw [binarySearchObservation, subU64, subU_of_le hpos, ok_bind]
  show (searchLoop o _ target count 0 (count - 1) _ >>= fun result => _) = _
  rw [hloop, ok_bind, hread]
  rfl

/-- A full buffer whose oldest observation is in slot 2, with one observation a second. -/
def wrapped : OracleAdapter :=
  ⟨true, ⟨0⟩, 2, 65535, fun s => some ⟨(s + 65533) % 65535, 0, 0⟩⟩

/-- In the full buffer, the observation of second 100 is found past the end of the slots. -/
theorem search_in_wrapped_buffer :
    InRing wrapped 65535 2 (fun j => ⟨j, 0, 0⟩) ∧ slot 65535 2 65534 = 1 ∧
      binarySearchObservation wrapped 65535 2 65534 = .ok ⟨65534, 0, 0⟩ := by
  have hring : InRing wrapped 65535 2 fun j => ⟨j, 0, 0⟩ := by
    refine ⟨fun j hj => ?_, fun i j hij _ => hij⟩
    show some (Observation.mk (((2 % 65535 + j) % 65535 + 65533) % 65535) 0 0) = _
    rw [show ((2 % 65535 + j) % 65535 + 65533) % 65535 = j by omega]
  obtain ⟨hi, res, m, -, -, -, ⟨hm, hle, hlast⟩, hfound⟩ :=
    binary_search_finds (by decide) (by decide) hring (show 0 ≤ 65534 by decide)
  have hge : 65534 ≤ m := hlast 65534 (by decide) le_rfl
  obtain rfl : m = 65534 := le_antisymm hle hge
  exact ⟨hring, by decide, hfound⟩

end OracleAdapter

end Swyft
