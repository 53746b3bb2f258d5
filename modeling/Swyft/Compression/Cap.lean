import Swyft.Compression.Delivery

/-!
# What the cap bounds

The cap is compared with what the calls of `write` brought. The chunk of `end` is collected without
a comparison, so that a body that is given to `end` in one piece, as most are, is collected and
compressed however large it is.

## Main definitions

* `CapBounds` — what the cap is for
* `WithinCap` — the requests of which it holds

## Main results

* `capBounds_iff` — it holds of these and of no others
* `single_end_passes_cap` — a body of one piece
-/

namespace Swyft.Compression

open Staging

variable {p : Platform} {config : CompressionConfig} {req : Request} {res : Head} {s : Script}
  {x : Exchange} {body : Buffer}

/-- What the cap is for: a body above it is sent as it is and does not get to the compressor, and no
more is held than the cap and one chunk of `write`. -/
structure CapBounds (p : Platform) (config : CompressionConfig) (s : Script) (x : Exchange) :
    Prop where
  oversize : config.maxBufferBytes < (bodyOf p s).length →
    x.response.handed p = bodyOf p s ∧ ¬ SetsEncoding x.response.calls ∧ x.job = none
  peak : x.peak ≤ config.maxBufferBytes + longest List.length (writes p s.before)

/-- The middleware has no part in the request; or the calls of `write` alone pass the cap; or the
body does not pass it; or there is a reason not to compress it, and it passes the cap by no more
than one chunk of `write` has. -/
def WithinCap (p : Platform) (config : CompressionConfig) (req : Request) (res : Head)
    (s : Script) : Prop :=
  Exempt config req ∨ WritesPass p config s ∨ (bodyOf p s).length ≤ config.maxBufferBytes ∨
    ((skipReason config (headAfter res s.before) (bodyOf p s)).isSome ∧
      (bodyOf p s).length ≤ config.maxBufferBytes + longest List.length (writes p s.before))

theorem answer_keeps (p : Platform) (config : CompressionConfig) (x : Exchange) :
    (x.answer p config).peak = x.peak ∧ (x.answer p config).job = x.job := by
  rw [Exchange.answer]
  split
  · split
    · exact ⟨rfl, rfl⟩
    · exact ⟨rfl, rfl⟩
  · exact ⟨rfl, rfl⟩

theorem run_keeps (p : Platform) (config : CompressionConfig) (req : Request) (res : Head)
    (s : Script) :
    (run p config req res s).peak = (runEnd p config req res s).peak ∧
      (run p config req res s).job = (runEnd p config req res s).job := by
  obtain ⟨-, hjob, -, hpeak⟩ := onHead_foldl (runEnd p config req res s) s.after
  obtain ⟨hpeak', hjob'⟩ := answer_keeps p config
    (s.after.foldl Exchange.onHead (runEnd p config req res s))
  exact ⟨hpeak'.trans hpeak, hjob'.trans hjob⟩

/-- A body that was sent as it is, without having been held beyond the bound. -/
theorem CapBounds.of_plain (h : Plain p (runEnd p config req res s) (bodyOf p s))
    (hjob : (runEnd p config req res s).job = none)
    (hpeak : (runEnd p config req res s).peak ≤
      config.maxBufferBytes + longest List.length (writes p s.before)) :
    CapBounds p config s (run p config req res s) := by
  obtain ⟨hplain, hnone⟩ := h.run hjob
  refine ⟨fun _ => ⟨hplain.handed, hplain.not_setsEncoding, hnone⟩, ?_⟩
  rw [(run_keeps p config req res s).1]
  exact hpeak

/-- **What the cap bounds.** -/
theorem capBounds_iff (p : Platform) (config : CompressionConfig) (req : Request) (res : Head)
    (s : Script) :
    CapBounds p config s (run p config req res s) ↔ WithinCap p config req res s := by
  by_cases hexempt : Exempt config req
  · obtain ⟨hplain, hjob, hpeak⟩ := runEnd_exempt p res s hexempt
    exact iff_of_true (.of_plain hplain hjob (by omega)) (.inl hexempt)
  by_cases hpass : WritesPass p config s
  · obtain ⟨hplain, hjob, hpeak⟩ := runEnd_writesPass res hexempt hpass
    exact iff_of_true (.of_plain hplain hjob hpeak) (.inr (.inl hpass))
  obtain ⟨hpeak, hend⟩ := runEnd_collected res hexempt hpass
  obtain ⟨hkeptPeak, hkeptJob⟩ := run_keeps p config req res s
  constructor
  · intro h
    have hheld := h.peak
    rw [hkeptPeak, hpeak] at hheld
    refine .inr (.inr ?_)
    obtain hlt | hle := Nat.lt_or_ge config.maxBufferBytes (bodyOf p s).length
    swap
    · exact .inl hle
    obtain ⟨hskip, -, -⟩ | ⟨-, encoding, hpending⟩ := hend
    · exact .inr ⟨hskip, hheld⟩
    · have hjob := (h.oversize hlt).2.2
      rw [hkeptJob, hpending.job] at hjob
      cases hjob
  · rintro (h | h | hle | ⟨hskip, hle⟩)
    · exact absurd h hexempt
    · exact absurd h hpass
    · refine ⟨fun hlt => absurd hlt (by omega), ?_⟩
      omega
    · obtain ⟨-, hplain, hjob⟩ | ⟨hnone, -⟩ := hend
      · exact .of_plain hplain hjob (by omega)
      · rw [hnone] at hskip
        cases hskip

/-! ### A body of one piece -/

/-- The configuration with the least cap. -/
def cappedConfig : CompressionConfig := { compressionDefaults with maxBufferBytes := 1024 }

/-- One byte more than the cap allows. -/
def longBody : Buffer := List.replicate 1025 97

def gzippedLongBody : Buffer :=
  [31, 139, 8, 0, 0, 0, 0, 0, 0, 3, 75, 76, 28, 5, 163, 96, 20, 140, 88, 0, 0, 252, 224, 118, 90, 1,
    4, 0, 0]

theorem single_end_passes_cap :
    ¬ CapBounds (platformOf longBody gzippedLongBody) cappedConfig (endAtOnce [] longBody)
      (run (platformOf longBody gzippedLongBody) cappedConfig gzipRequest plainHead
        (endAtOnce [] longBody)) := by
  intro h
  have hlong : 1024 < (bodyOf (platformOf longBody gzippedLongBody)
      (endAtOnce [] longBody)).length := by
    decide +kernel
  have hjob := (h.oversize hlong).2.2
  revert hjob
  decide +kernel

end Swyft.Compression
