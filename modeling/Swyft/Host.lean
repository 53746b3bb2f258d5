import Swyft.Lib.Checked
import Mathlib.Algebra.GroupWithZero.Nat
import Mathlib.Logic.Function.Basic

/-!
# The contract host

What every contract of the repository runs on: addresses, the ways an invocation stops, 128-bit
arithmetic under `overflow-checks = true`, and the token contracts' balances.

An invocation that stops reverts everything it did, so a contract entry point is a function into
`Res`, and a state is only ever produced by an invocation that ran to its end.

## What is deliberately absent

There are no resource limits: an invocation the host would cut short for its budget is one more
invocation that did not succeed. Events are not recorded, since no contract reads them.
-/

namespace Swyft

open Checked

/-- An account or a contract. -/
structure Address where
  id : ℕ
  deriving DecidableEq, Repr

/-- Why an invocation stopped. -/
inductive Trap where
  /-- `panic_with_error` of a contract's own error code. -/
  | contractError (code : ℕ)
  /-- `panic!` or `expect` with a text. -/
  | panic (message : String)
  /-- An overflow, an underflow or a division by zero. -/
  | arithmetic
  /-- `require_auth` of an address that did not authorise the call. -/
  | unauthorized
  /-- A token contract refused a transfer. -/
  | transfer
  deriving DecidableEq, Repr

/-- The outcome of an invocation. -/
abbrev Res := Except Trap

/-- The type `u128` of call arguments. -/
abbrev U128 := Fin (2 ^ 128)

instance neZero_u128 : NeZero (2 ^ 128) := ⟨by decide⟩

/-! ### Arithmetic

Rust's operators on `u128`, `i128`, `i32` and `u64` stop on overflow; `saturating_*` and
`wrapping_*` do not. -/

/-- `u128::MAX`. -/
def u128Max : ℕ := 2 ^ 128 - 1

/-- `i128::MAX`. -/
def i128Max : ℕ := 2 ^ 127 - 1

def addU128 (a b : ℕ) : Res ℕ := fitU 128 .arithmetic (a + b)
def subU128 (a b : ℕ) : Res ℕ := subU .arithmetic a b
def mulU128 (a b : ℕ) : Res ℕ := fitU 128 .arithmetic (a * b)
def divU128 (a b : ℕ) : Res ℕ := divU .arithmetic a b
def incU64 (a : ℕ) : Res ℕ := fitU 64 .arithmetic (a + 1)
def subU64 (a b : ℕ) : Res ℕ := subU .arithmetic a b
def fitI32 (x : ℤ) : Res ℤ := fitI 31 .arithmetic x
def negI128 (x : ℤ) : Res ℤ := fitI 127 .arithmetic (-x)

/-- `x as i128` for a `u128`. -/
def asI128 (x : ℕ) : ℤ := asI 127 x

@[simp] theorem addU128_eq_ok {a b c : ℕ} : addU128 a b = .ok c ↔ a + b < 2 ^ 128 ∧ a + b = c :=
  fitU_eq_ok
@[simp] theorem subU128_eq_ok {a b c : ℕ} : subU128 a b = .ok c ↔ b ≤ a ∧ a - b = c :=
  subU_eq_ok
@[simp] theorem mulU128_eq_ok {a b c : ℕ} : mulU128 a b = .ok c ↔ a * b < 2 ^ 128 ∧ a * b = c :=
  fitU_eq_ok
@[simp] theorem divU128_eq_ok {a b c : ℕ} : divU128 a b = .ok c ↔ b ≠ 0 ∧ a / b = c :=
  divU_eq_ok
@[simp] theorem incU64_eq_ok {a c : ℕ} : incU64 a = .ok c ↔ a + 1 < 2 ^ 64 ∧ a + 1 = c :=
  fitU_eq_ok
@[simp] theorem subU64_eq_ok {a b c : ℕ} : subU64 a b = .ok c ↔ b ≤ a ∧ a - b = c :=
  subU_eq_ok
@[simp] theorem fitI32_eq_ok {x y : ℤ} :
    fitI32 x = .ok y ↔ (-2 ^ 31 ≤ x ∧ x < 2 ^ 31) ∧ x = y :=
  fitI_eq_ok
@[simp] theorem negI128_eq_ok {x y : ℤ} :
    negI128 x = .ok y ↔ (-2 ^ 127 ≤ -x ∧ -x < 2 ^ 127) ∧ -x = y :=
  fitI_eq_ok

theorem asI128_of_lt {x : ℕ} (h : x < 2 ^ 127) : asI128 x = x := asI_of_lt h

/-- `Option::expect`, and `Option::unwrap` with its own text. -/
def expect {α : Type} (x : Option α) (message : String) : Res α := getOr (.panic message) x

@[simp] theorem expect_eq_ok {α : Type} {x : Option α} {m : String} {a : α} :
    expect x m = .ok a ↔ x = some a :=
  getOr_eq_ok

/-! ### Tokens

One balance per token contract and holder. A transfer moves the exact amount or refuses. -/

/-- Balances by token contract, then by holder. -/
abbrev Tokens := Address → Address → ℕ

/-- Set one holder's balance of one token. -/
def Tokens.set (b : Tokens) (token holder : Address) (n : ℕ) : Tokens :=
  Function.update b token (Function.update (b token) holder n)

/-- `token.transfer(from, to, amount)`: refused when negative or not covered. -/
def Tokens.transfer (b : Tokens) (token src dst : Address) (amount : ℤ) : Res Tokens := do
  require (0 ≤ amount) .transfer
  require (amount.toNat ≤ b token src) .transfer
  let debited := b.set token src (b token src - amount.toNat)
  pure (debited.set token dst (debited token dst + amount.toNat))

theorem Tokens.set_apply (b : Tokens) (token holder : Address) (n : ℕ) (t h : Address) :
    b.set token holder n t h = if t = token ∧ h = holder then n else b t h := by
  by_cases ht : t = token
  · subst ht
    by_cases hh : h = holder
    · subst hh; simp [Tokens.set]
    · simp [Tokens.set, hh]
  · simp [Tokens.set, ht]

/-- What a transfer between different holders does to any balance. -/
theorem Tokens.transfer_apply {b b' : Tokens} {token src dst : Address} {n : ℕ}
    (h : b.transfer token src dst n = .ok b') (hne : src ≠ dst) (t x : Address) :
    n ≤ b token src ∧
      b' t x = if t = token ∧ x = src then b token src - n
        else if t = token ∧ x = dst then b token dst + n else b t x := by
  simp only [Tokens.transfer, bind_eq_ok, require_eq_ok, exists_const, pure_eq_ok] at h
  obtain ⟨-, hle, rfl⟩ := h
  refine ⟨by simpa using hle, ?_⟩
  simp only [Tokens.set_apply, Int.toNat_natCast]
  by_cases ht : t = token
  · by_cases hx : x = dst
    · subst hx; simp [ht, hne.symm]
    · simp [ht, hx]
  · simp [ht]

/-- A transfer stops only by refusing. -/
theorem Tokens.transfer_error {b : Tokens} {token src dst : Address} {amount : ℤ} {e : Trap}
    (h : b.transfer token src dst amount = .error e) : e = .transfer := by
  by_cases h0 : 0 ≤ amount
  · by_cases h1 : amount.toNat ≤ b token src
    · rw [Tokens.transfer, require_pos h0, require_pos h1] at h
      cases h
    · rw [Tokens.transfer, require_pos h0, require_neg h1] at h
      cases h; rfl
  · rw [Tokens.transfer, require_neg h0] at h
    cases h; rfl

end Swyft
