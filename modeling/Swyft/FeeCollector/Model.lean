import Swyft.Host

/-!
# The fee collectors

`packages/contract/contracts/fee-collector/src/lib.rs`, and the older contract of the same name,
`packages/contracts/fee-collector/src/lib.rs`. Authorised pools deposit fees while a switch is on,
and the admin collects what has accumulated in a token. Both keep a record of the fees in each
token beside the balance that the token contract keeps for them.

The two were written apart. The newer one is built with `overflow-checks = true`. The workspace of
the older one names no profile, so that its arithmetic stops or wraps with the build.

## What is deliberately absent

The getters that only read a field for the callers, and `name`. A token contract may refuse a
transfer for reasons of its own.
-/

namespace Swyft.FeeCollector

open Checked

/-! ### Invocations -/

/-- The calls of both contracts after `initialize`. -/
inductive Call where
  | setAuthorizedPool (pool : Address) (authorized : Bool)
  | setFeeSwitch (on : Bool)
  | depositProtocolFees (token src : Address) (amount : ℤ)
  | collectProtocolFees (token dst : Address)
  deriving DecidableEq

/-- A call, the addresses that authorised it, and whether the token contract refuses a transfer. -/
structure Invocation where
  call : Call
  auth : List Address
  refuses : Bool
  deriving DecidableEq

/-- A transfer that a token contract made. -/
structure Transfer where
  token : Address
  src : Address
  dst : Address
  amount : ℤ
  deriving DecidableEq

/-- A contract's address and storage, the balances of the token contracts, and the transfers they
made for the contract. -/
structure World (σ : Type) where
  self : Address
  storage : σ
  tokens : Tokens
  transfers : List Transfer

/-- `require_auth`. -/
def requireAuth (auth : List Address) (a : Address) : Res Unit := require (a ∈ auth) .unauthorized

/-- `token::Client::transfer`. A balance is an `i128`. -/
def World.transfer {σ : Type} (w : World σ) (refuses : Bool) (token src dst : Address)
    (amount : ℤ) : Res (World σ) := do
  require (refuses = false) .transfer
  let tokens ← w.tokens.transfer token src dst amount
  require (tokens token dst ≤ i128Max) .arithmetic
  pure { w with tokens, transfers := w.transfers ++ [⟨token, src, dst, amount⟩] }

/-- `Option::unwrap`. -/
def unwrap {α : Type} (x : Option α) : Res α :=
  expect x "called `Option::unwrap()` on a `None` value"

/-! ### The newer contract -/

/-- The storage, by its three keys and `DataKey`. -/
structure Storage where
  admin : Option Address
  treasury : Option Address
  feeOn : Option Bool
  authorizedPool : Address → Option Bool
  balance : Address → Option ℤ

/-- The storage before `initialize`. -/
def Storage.deployed : Storage := ⟨none, none, none, fun _ => none, fun _ => none⟩

/-- `initialize`. -/
def initializeCollector (w : World Storage) (auth : List Address) (admin treasury : Address) :
    Res (World Storage) := do
  require (w.storage.admin = none) (.panic "fee collector already initialized")
  requireAuth auth admin
  pure { w with
    storage := { w.storage with
      admin := some admin
      treasury := some treasury
      feeOn := some false } }

/-- `is_fee_on`. -/
def Storage.isFeeOn (s : Storage) : Bool := s.feeOn.getD false

/-- `is_authorized_pool`. -/
def Storage.isAuthorizedPool (s : Storage) (pool : Address) : Bool :=
  (s.authorizedPool pool).getD false

/-- `get_balance`. -/
def Storage.getBalance (s : Storage) (token : Address) : ℤ := (s.balance token).getD 0

def Storage.setBalance (s : Storage) (token : Address) (balance : ℤ) : Storage :=
  { s with balance := Function.update s.balance token (some balance) }

/-- `set_fee_switch`. -/
def setFeeSwitch (w : World Storage) (auth : List Address) (on : Bool) : Res (World Storage) := do
  let admin ← unwrap w.storage.admin
  requireAuth auth admin
  pure { w with storage := { w.storage with feeOn := some on } }

/-- `set_authorized_pool`. -/
def setAuthorizedPool (w : World Storage) (auth : List Address) (pool : Address)
    (authorized : Bool) : Res (World Storage) := do
  let admin ← unwrap w.storage.admin
  requireAuth auth admin
  pure { w with
    storage := { w.storage with
      authorizedPool := Function.update w.storage.authorizedPool pool (some authorized) } }

/-- `deposit_protocol_fees`. -/
def depositProtocolFees (w : World Storage) (auth : List Address) (refuses : Bool)
    (token src : Address) (amount : ℤ) : Res (World Storage) := do
  require (0 < amount) (.panic "amount must be positive")
  require (w.storage.isAuthorizedPool src = true) (.panic "unauthorized pool caller")
  if w.storage.isFeeOn = false then pure w
  else do
    requireAuth auth src
    let w ← w.transfer refuses token src w.self amount
    let balance ← fitI 127 .arithmetic (w.storage.getBalance token + amount)
    pure { w with storage := w.storage.setBalance token balance }

/-- `collect_protocol_fees`. -/
def collectProtocolFees (w : World Storage) (auth : List Address) (refuses : Bool)
    (token dst : Address) : Res (World Storage) := do
  let admin ← unwrap w.storage.admin
  requireAuth auth admin
  let balance := w.storage.getBalance token
  if balance ≤ 0 then pure w
  else do
    let w ← w.transfer refuses token w.self dst balance
    pure { w with storage := w.storage.setBalance token 0 }

def exec (w : World Storage) (i : Invocation) : Res (World Storage) :=
  match i.call with
  | .setAuthorizedPool pool authorized => setAuthorizedPool w i.auth pool authorized
  | .setFeeSwitch on => setFeeSwitch w i.auth on
  | .depositProtocolFees token src amount => depositProtocolFees w i.auth i.refuses token src amount
  | .collectProtocolFees token dst => collectProtocolFees w i.auth i.refuses token dst

/-! ### The older contract -/

namespace Legacy

/-- The storage, by `DataKey`. -/
structure Storage where
  admin : Option Address
  feeSwitch : Option Bool
  fees : Address → Option ℤ
  authorizedPool : Address → Option Bool

/-- The storage before `initialize`. -/
def Storage.deployed : Storage := ⟨none, none, fun _ => none, fun _ => none⟩

/-- `i128` addition, which stops on an overflow or wraps around. -/
def addI128 (overflowChecks : Bool) (a b : ℤ) : Res ℤ :=
  if overflowChecks then fitI 127 .arithmetic (a + b) else pure (Int.bmod (a + b) (2 ^ 128))

/-- `read_admin`. -/
def readAdmin (s : Storage) : Res Address := expect s.admin "fee collector not initialized"

/-- `read_fee_switch`. -/
def readFeeSwitch (s : Storage) : Bool := s.feeSwitch.getD false

/-- `read_authorized_pool`. -/
def readAuthorizedPool (s : Storage) (pool : Address) : Bool := (s.authorizedPool pool).getD false

/-- `read_fee_balance`. -/
def readFeeBalance (s : Storage) (token : Address) : ℤ := (s.fees token).getD 0

def Storage.setFees (s : Storage) (token : Address) (amount : ℤ) : Storage :=
  { s with fees := Function.update s.fees token (some amount) }

/-- `initialize`. -/
def initializeCollector (w : World Storage) (auth : List Address) (admin : Address) :
    Res (World Storage) := do
  require (w.storage.admin = none) (.panic "fee collector already initialized")
  requireAuth auth admin
  pure { w with storage := { w.storage with admin := some admin, feeSwitch := some false } }

/-- `set_fee_switch`. -/
def setFeeSwitch (w : World Storage) (auth : List Address) (enabled : Bool) :
    Res (World Storage) := do
  let admin ← readAdmin w.storage
  requireAuth auth admin
  pure { w with storage := { w.storage with feeSwitch := some enabled } }

/-- `set_authorized_pool`. -/
def setAuthorizedPool (w : World Storage) (auth : List Address) (pool : Address)
    (authorized : Bool) : Res (World Storage) := do
  let admin ← readAdmin w.storage
  requireAuth auth admin
  let entry := if authorized then some true else none
  pure { w with
    storage := { w.storage with
      authorizedPool := Function.update w.storage.authorizedPool pool entry } }

/-- `deposit_protocol_fees`. -/
def depositProtocolFees (overflowChecks : Bool) (w : World Storage) (auth : List Address)
    (refuses : Bool) (token src : Address) (amount : ℤ) : Res (World Storage × ℤ) := do
  require (0 < amount) (.panic "fee amount must be positive")
  require (readAuthorizedPool w.storage src = true) (.panic "unauthorized pool caller")
  if readFeeSwitch w.storage = false then pure (w, readFeeBalance w.storage token)
  else do
    requireAuth auth src
    let w ← w.transfer refuses token src w.self amount
    let nextAmount ← addI128 overflowChecks (readFeeBalance w.storage token) amount
    pure ({ w with storage := w.storage.setFees token nextAmount }, nextAmount)

/-- `collect_protocol_fees`. -/
def collectProtocolFees (w : World Storage) (auth : List Address) (refuses : Bool)
    (token dst : Address) : Res (World Storage × ℤ) := do
  let admin ← readAdmin w.storage
  requireAuth auth admin
  let amount := readFeeBalance w.storage token
  require (0 < amount) (.panic "no protocol fees to collect")
  let w ← w.transfer refuses token w.self dst amount
  pure ({ w with storage := w.storage.setFees token 0 }, amount)

def exec (overflowChecks : Bool) (w : World Storage) (i : Invocation) : Res (World Storage) :=
  match i.call with
  | .setAuthorizedPool pool authorized => setAuthorizedPool w i.auth pool authorized
  | .setFeeSwitch enabled => setFeeSwitch w i.auth enabled
  | .depositProtocolFees token src amount =>
    (depositProtocolFees overflowChecks w i.auth i.refuses token src amount).map (·.1)
  | .collectProtocolFees token dst =>
    (collectProtocolFees w i.auth i.refuses token dst).map (·.1)

end Legacy

end Swyft.FeeCollector
