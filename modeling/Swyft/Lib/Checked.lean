import Mathlib.Data.Int.Notation
import Mathlib.Algebra.Group.Nat.Defs
import Mathlib.Algebra.Group.Int.Defs
import Mathlib.Order.Basic
import Mathlib.Tactic.Common

/-!
# Checked arithmetic in an error monad

Programs compiled with overflow checks stop when a fixed-width operation leaves its range. Here
such an operation is a computation in `Except ε`: it returns the exact mathematical result when
that result fits, and the given error otherwise. Values are plain naturals and integers, so a
successful run is reasoned about with ordinary arithmetic.

## Main definitions

* `Checked.require` — go on only if a condition holds
* `Checked.getOr` — the value of an option, or an error
* `Checked.Yields`, `Ensures` — a computation succeeds with a value satisfying a predicate, or
  does if it succeeds
* `Checked.errorOf` — the error a computation stops with
* `Checked.fitU`, `fitI` — keep a value that fits an unsigned or a signed word
* `Checked.subU`, `divU`, `divI` — subtraction and division that stop instead of wrapping
* `Checked.satAdd`, `satSub`, `satMul`, `wrapAdd`, `wrapSub` — saturating and wrapping variants,
  total
* `Checked.asI` — reinterpretation of an unsigned word as a signed one

## Main results

Every operation has an inversion lemma tagged `@[simp]`, and `bind_eq_ok` peels one step off a
successful computation; together they turn `f x = .ok y` into the list of facts the run needed.
-/

namespace Checked

variable {ε α β : Type}

/-! ### Sequencing -/

/-- A successful `bind` is a successful first step followed by a successful rest. -/
@[simp] theorem bind_eq_ok {x : Except ε α} {f : α → Except ε β} {b : β} :
    x >>= f = .ok b ↔ ∃ a, x = .ok a ∧ f a = .ok b := by
  cases x with
  | error e => simp [bind, Except.bind]
  | ok a => simp [bind, Except.bind]

@[simp] theorem pure_eq_ok {a b : α} : (pure a : Except ε α) = .ok b ↔ a = b := by
  simp [pure, Except.pure]

-- proved by rewriting, so that `simp` records each use as a step of its own
theorem ok_bind (a : α) (f : α → Except ε β) : (Except.ok a >>= f) = f a := by
  simp only [bind, Except.bind]

theorem error_bind (e : ε) (f : α → Except ε β) : (Except.error e >>= f) = .error e := by
  simp only [bind, Except.bind]

/-- A `bind` stops where its first step stops, or where the rest does. -/
theorem bind_eq_error {x : Except ε α} {f : α → Except ε β} {e : ε} :
    x >>= f = .error e ↔ x = .error e ∨ ∃ a, x = .ok a ∧ f a = .error e := by
  cases x with
  | error e => simp [bind, Except.bind]
  | ok a => simp [bind, Except.bind]

theorem pure_ne_error {a : α} {e : ε} : ¬ (pure a : Except ε α) = .error e := by
  rintro ⟨⟩

/-- Go on if `c` holds, stop with `e` otherwise. -/
def require (c : Prop) [Decidable c] (e : ε) : Except ε Unit :=
  if c then .ok () else .error e

@[simp] theorem require_eq_ok {c : Prop} [Decidable c] {e : ε} {u : Unit} :
    require c e = .ok u ↔ c := by
  by_cases h : c <;> simp [require, h]

theorem require_eq_error {c : Prop} [Decidable c] {e e' : ε} :
    require c e = .error e' ↔ ¬ c ∧ e = e' := by
  by_cases h : c <;> simp [require, h]

theorem require_pos {c : Prop} [Decidable c] {e : ε} (h : c) : require c e = .ok () := if_pos h

theorem require_neg {c : Prop} [Decidable c] {e : ε} (h : ¬ c) : require c e = .error e := if_neg h

/-- The value of an option, or the error when there is none. -/
def getOr (e : ε) : Option α → Except ε α
  | some a => .ok a
  | none => .error e

@[simp] theorem getOr_eq_ok {e : ε} {x : Option α} {a : α} : getOr e x = .ok a ↔ x = some a := by
  cases x <;> simp [getOr]

/-- The computation succeeds, with a value satisfying `Q`. -/
def Yields (x : Except ε α) (Q : α → Prop) : Prop :=
  match x with
  | .ok a => Q a
  | .error _ => False

instance (x : Except ε α) (Q : α → Prop) [DecidablePred Q] : Decidable (Yields x Q) := by
  cases x with
  | ok a => exact inferInstanceAs (Decidable (Q a))
  | error _ => exact instDecidableFalse

theorem yields_iff {x : Except ε α} {Q : α → Prop} : Yields x Q ↔ ∃ a, x = .ok a ∧ Q a := by
  cases x <;> simp [Yields]

/-- If the computation succeeds, its value satisfies `Q`. -/
def Ensures (x : Except ε α) (Q : α → Prop) : Prop :=
  match x with
  | .ok a => Q a
  | .error _ => True

instance (x : Except ε α) (Q : α → Prop) [DecidablePred Q] : Decidable (Ensures x Q) := by
  cases x with
  | ok a => exact inferInstanceAs (Decidable (Q a))
  | error _ => exact instDecidableTrue

theorem Ensures.of_ok {x : Except ε α} {Q : α → Prop} {a : α} (h : Ensures x Q) (hx : x = .ok a) :
    Q a := by
  rw [hx] at h
  exact h

/-- The error a computation stops with, if it does. -/
def errorOf : Except ε α → Option ε
  | .ok _ => none
  | .error e => some e

theorem errorOf_eq_some {x : Except ε α} {e : ε} : errorOf x = some e ↔ x = .error e := by
  cases x <;> simp [errorOf]

/-! ### Checked operations -/

/-- `x`, if it is an unsigned `w`-bit word. -/
def fitU (w : ℕ) (e : ε) (x : ℕ) : Except ε ℕ :=
  if x < 2 ^ w then .ok x else .error e

/-- `x`, if it is a signed `w + 1`-bit word. -/
def fitI (w : ℕ) (e : ε) (x : ℤ) : Except ε ℤ :=
  if -2 ^ w ≤ x ∧ x < 2 ^ w then .ok x else .error e

/-- `a - b` on naturals, if it does not go below zero. -/
def subU (e : ε) (a b : ℕ) : Except ε ℕ :=
  if b ≤ a then .ok (a - b) else .error e

/-- `a / b`, if `b` is not zero. -/
def divU (e : ε) (a b : ℕ) : Except ε ℕ :=
  if b = 0 then .error e else .ok (a / b)

/-- `a / b` on integers, rounded towards zero, if `b` is not zero. -/
def divI (e : ε) (a b : ℤ) : Except ε ℤ :=
  if b = 0 then .error e else .ok (a.tdiv b)

@[simp] theorem fitU_eq_ok {w : ℕ} {e : ε} {x y : ℕ} :
    fitU w e x = .ok y ↔ x < 2 ^ w ∧ x = y := by
  by_cases h : x < 2 ^ w <;> simp [fitU, h]

@[simp] theorem fitI_eq_ok {w : ℕ} {e : ε} {x y : ℤ} :
    fitI w e x = .ok y ↔ (-2 ^ w ≤ x ∧ x < 2 ^ w) ∧ x = y := by
  by_cases h : -2 ^ w ≤ x ∧ x < 2 ^ w
  · simp [fitI, h]
  · simp only [fitI, if_neg h, reduceCtorEq, false_iff, not_and]
    exact fun h' => absurd h' h

@[simp] theorem subU_eq_ok {e : ε} {a b c : ℕ} : subU e a b = .ok c ↔ b ≤ a ∧ a - b = c := by
  by_cases h : b ≤ a <;> simp [subU, h]

@[simp] theorem divU_eq_ok {e : ε} {a b c : ℕ} : divU e a b = .ok c ↔ b ≠ 0 ∧ a / b = c := by
  by_cases h : b = 0 <;> simp [divU, h]

theorem fitU_of_lt {w : ℕ} {e : ε} {x : ℕ} (h : x < 2 ^ w) : fitU w e x = .ok x := if_pos h

theorem fitU_of_ge {w : ℕ} {e : ε} {x : ℕ} (h : 2 ^ w ≤ x) : fitU w e x = .error e :=
  if_neg (Nat.not_lt.mpr h)

theorem subU_of_le {e : ε} {a b : ℕ} (h : b ≤ a) : subU e a b = .ok (a - b) := if_pos h

theorem divU_of_pos {e : ε} {a b : ℕ} (h : 0 < b) : divU e a b = .ok (a / b) :=
  if_neg (Nat.ne_of_gt h)

/-- Of naturals, the integer quotient is the natural one. -/
theorem divI_natCast {e : ε} {a b : ℕ} (h : 0 < b) :
    divI e (a : ℤ) (b : ℤ) = .ok ((a / b : ℕ) : ℤ) := by
  rw [divI, if_neg (by omega), Int.ofNat_tdiv]

/-! ### Saturating and wrapping operations -/

/-- `a + b`, capped at the largest `w`-bit word. -/
def satAdd (w a b : ℕ) : ℕ := min (a + b) (2 ^ w - 1)

/-- `a - b`, floored at zero. -/
def satSub (a b : ℕ) : ℕ := a - b

/-- `a * b`, capped at the largest `w`-bit word. -/
def satMul (w a b : ℕ) : ℕ := min (a * b) (2 ^ w - 1)

/-- `a + b` modulo `2 ^ w`. -/
def wrapAdd (w a b : ℕ) : ℕ := (a + b) % 2 ^ w

/-- `a - b` modulo `2 ^ w`, for words `a` and `b`. -/
def wrapSub (w a b : ℕ) : ℕ := (a + 2 ^ w - b) % 2 ^ w

/-- The unsigned word `x` read as a signed one. -/
def asI (w : ℕ) (x : ℕ) : ℤ := if x < 2 ^ w then x else (x : ℤ) - 2 ^ (w + 1)

theorem satMul_le (w a b : ℕ) : satMul w a b ≤ a * b := Nat.min_le_left _ _

theorem satMul_of_lt {w a b : ℕ} (h : a * b < 2 ^ w) : satMul w a b = a * b :=
  Nat.min_eq_left (by omega)

theorem asI_of_lt {w x : ℕ} (h : x < 2 ^ w) : asI w x = x := if_pos h

/-- Without a borrow, wrapping subtraction is subtraction. -/
theorem wrapSub_of_le {w a b : ℕ} (h : b ≤ a) (ha : a < 2 ^ w) : wrapSub w a b = a - b := by
  rw [wrapSub, show a + 2 ^ w - b = a - b + 2 ^ w by omega, Nat.add_mod_right,
    Nat.mod_eq_of_lt (by omega)]

/-- With a borrow, the result is the distance measured the other way round the word. -/
theorem wrapSub_of_lt {w a b : ℕ} (h : a < b) (hb : b < 2 ^ w) :
    wrapSub w a b = 2 ^ w - (b - a) := by
  rw [wrapSub, Nat.mod_eq_of_lt (by omega)]
  omega

theorem wrapSub_self {w a : ℕ} : wrapSub w a a = 0 := by
  simp [wrapSub]

/-- Adding twice with saturation loses nothing against saturating once. -/
theorem satAdd_min (w a b : ℕ) :
    satAdd w (min a (2 ^ w - 1)) (min b (2 ^ w - 1)) = min (a + b) (2 ^ w - 1) := by
  simp only [satAdd]
  omega

end Checked
