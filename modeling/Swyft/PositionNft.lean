import Swyft.Host
import Swyft.Lib.IdStore

/-!
# The position NFT contract

`packages/contract/contracts/position-nft`: one record per minted position, numbered by a counter
that never goes back. Only the minter, the pool, mints, updates and burns; the owner transfers.

`get_position` and `require_minter` are cut off in the repository's copy of the file. As their
callers and the documentation use them, the first returns the stored record and the second asks
for the minter's authorisation.
-/

namespace Swyft

open Checked

inductive PositionNftError where
  | notMinter | overflow | notFound | zeroLiquidity | invalidTickRange
  deriving DecidableEq, Repr

def PositionNftError.code : PositionNftError → ℕ
  | .notMinter => 1
  | .overflow => 2
  | .notFound => 3
  | .zeroLiquidity => 4
  | .invalidTickRange => 5

structure PositionMetadata where
  owner : Address
  pool : Address
  tickLower : ℤ
  tickUpper : ℤ
  liquidity : ℕ
  createdAt : ℕ
  deriving DecidableEq, Repr

/-- The contract's storage: `Minter`, and `NextId` with the `Position(u64)` entries. -/
structure PositionNft where
  minter : Option Address
  positions : IdStore PositionMetadata

namespace PositionNft

/-- A deployed contract before `initialize`. -/
def deployed : PositionNft := ⟨none, .empty⟩

/-- `initialize(admin, minter)`, with the admin's authorisation. -/
def initializeNft (n : PositionNft) (minter : Address) : Res PositionNft := do
  require n.minter.isNone (.panic "already initialized")
  pure { minter := some minter, positions := .empty }

/-- `get_minter()`. -/
def getMinter (n : PositionNft) : Res Address := expect n.minter "not initialized"

/-- The invoker is the minter. -/
def requireMinter (n : PositionNft) (invoker : Address) : Res Unit :=
  require (n.minter = some invoker) .unauthorized

/-- `mint(owner, pool, tick_lower, tick_upper, liquidity)`. -/
def mint (n : PositionNft) (invoker : Address) (now : ℕ) (owner pool : Address)
    (tickLower tickUpper : ℤ) (liquidity : ℕ) : Res (PositionNft × ℕ) := do
  n.requireMinter invoker
  require (liquidity ≠ 0) (.contractError PositionNftError.zeroLiquidity.code)
  require (tickLower < tickUpper) (.contractError PositionNftError.invalidTickRange.code)
  let id := n.positions.next
  require (id ≠ 2 ^ 64 - 1) (.contractError PositionNftError.overflow.code)
  let metadata : PositionMetadata :=
    { owner, pool, tickLower, tickUpper, liquidity, createdAt := now }
  pure ({ n with positions := n.positions.push metadata }, id)

/-- `burn(token_id)`. -/
def burn (n : PositionNft) (invoker : Address) (tokenId : ℕ) : Res PositionNft := do
  n.requireMinter invoker
  let _ ← expect (n.positions.get? tokenId) "token not found"
  pure { n with positions := n.positions.erase tokenId }

/-- `update_liquidity(token_id, liquidity)`. -/
def updateLiquidity (n : PositionNft) (invoker : Address) (tokenId liquidity : ℕ) :
    Res PositionNft := do
  n.requireMinter invoker
  require (liquidity ≠ 0) (.contractError PositionNftError.zeroLiquidity.code)
  let metadata ← expect (n.positions.get? tokenId) "token not found"
  pure { n with positions := n.positions.replace tokenId { metadata with liquidity } }

/-- `transfer(from, to, token_id)`, once `from` has authorised the call. -/
def transfer (n : PositionNft) (src dst : Address) (tokenId : ℕ) : Res PositionNft := do
  let metadata ← expect (n.positions.get? tokenId) "token not found"
  require (metadata.owner = src) (.panic "not owner")
  pure { n with positions := n.positions.replace tokenId { metadata with owner := dst } }

/-- `get_position(token_id)`. -/
def getPosition (n : PositionNft) (tokenId : ℕ) : Option PositionMetadata :=
  n.positions.get? tokenId

/-! ### What each entry point does when it succeeds -/

theorem mint_eq_ok {n n' : PositionNft} {invoker owner pool : Address} {now liquidity id : ℕ}
    {tickLower tickUpper : ℤ} :
    n.mint invoker now owner pool tickLower tickUpper liquidity = .ok (n', id) ↔
      n.minter = some invoker ∧ liquidity ≠ 0 ∧ tickLower < tickUpper ∧
        n.positions.next ≠ 2 ^ 64 - 1 ∧ id = n.positions.next ∧
        n' = { n with
          positions := n.positions.push ⟨owner, pool, tickLower, tickUpper, liquidity, now⟩ } := by
  simp only [mint, requireMinter, bind_eq_ok, require_eq_ok, exists_const, pure_eq_ok, Prod.mk.injEq]
  constructor
  · rintro ⟨h1, h2, h3, h4, rfl, rfl⟩; exact ⟨h1, h2, h3, h4, rfl, rfl⟩
  · rintro ⟨h1, h2, h3, h4, rfl, rfl⟩; exact ⟨h1, h2, h3, h4, rfl, rfl⟩

theorem burn_eq_ok {n n' : PositionNft} {invoker : Address} {id : ℕ} :
    n.burn invoker id = .ok n' ↔ n.minter = some invoker ∧
      (∃ m, n.positions.get? id = some m) ∧ n' = { n with positions := n.positions.erase id } := by
  simp only [burn, requireMinter, bind_eq_ok, require_eq_ok, exists_const, expect_eq_ok, pure_eq_ok]
  constructor
  · rintro ⟨h, m, hm, rfl⟩; exact ⟨h, ⟨m, hm⟩, rfl⟩
  · rintro ⟨h, ⟨m, hm⟩, rfl⟩; exact ⟨h, m, hm, rfl⟩

theorem updateLiquidity_eq_ok {n n' : PositionNft} {invoker : Address} {id liquidity : ℕ} :
    n.updateLiquidity invoker id liquidity = .ok n' ↔ n.minter = some invoker ∧ liquidity ≠ 0 ∧
      ∃ m, n.positions.get? id = some m ∧
        n' = { n with positions := n.positions.replace id { m with liquidity } } := by
  simp only [updateLiquidity, requireMinter, bind_eq_ok, require_eq_ok, exists_const, expect_eq_ok,
    pure_eq_ok]
  constructor
  · rintro ⟨h, h0, m, hm, rfl⟩; exact ⟨h, h0, m, hm, rfl⟩
  · rintro ⟨h, h0, m, hm, rfl⟩; exact ⟨h, h0, m, hm, rfl⟩

theorem transfer_eq_ok {n n' : PositionNft} {src dst : Address} {id : ℕ} :
    n.transfer src dst id = .ok n' ↔
      ∃ m, n.positions.get? id = some m ∧ m.owner = src ∧
        n' = { n with positions := n.positions.replace id { m with owner := dst } } := by
  simp only [transfer, bind_eq_ok, require_eq_ok, exists_const, expect_eq_ok, pure_eq_ok]
  constructor
  · rintro ⟨m, hm, ho, rfl⟩; exact ⟨m, hm, ho, rfl⟩
  · rintro ⟨m, hm, ho, rfl⟩; exact ⟨m, hm, ho, rfl⟩

/-! ### Runs -/

/-- A state that calls of anyone lead to from `initialize`. -/
inductive Reachable : PositionNft → Prop
  | initialised {minter : Address} {n : PositionNft} (h : deployed.initializeNft minter = .ok n) :
    Reachable n
  | mint {n n' : PositionNft} {invoker owner pool : Address} {now liquidity id : ℕ}
      {tickLower tickUpper : ℤ} (hn : Reachable n)
      (h : n.mint invoker now owner pool tickLower tickUpper liquidity = .ok (n', id)) :
    Reachable n'
  | burn {n n' : PositionNft} {invoker : Address} {id : ℕ} (hn : Reachable n)
      (h : n.burn invoker id = .ok n') : Reachable n'
  | updateLiquidity {n n' : PositionNft} {invoker : Address} {id liquidity : ℕ}
      (hn : Reachable n) (h : n.updateLiquidity invoker id liquidity = .ok n') : Reachable n'
  | transfer {n n' : PositionNft} {src dst : Address} {id : ℕ} (hn : Reachable n)
      (h : n.transfer src dst id = .ok n') : Reachable n'

/-- The range of a stored position is proper. -/
theorem Reachable.ordered {n : PositionNft} (h : Reachable n) :
    ∀ id m, n.positions.get? id = some m → m.tickLower < m.tickUpper := by
  induction h with
  | initialised h =>
    simp only [initializeNft, bind_eq_ok, pure_eq_ok] at h
    obtain ⟨_, -, rfl⟩ := h
    intro id m hm
    cases hm
  | mint _ h ih =>
    obtain ⟨-, -, hlt, -, -, rfl⟩ := mint_eq_ok.mp h
    exact IdStore.forall_push ih hlt
  | burn _ h ih =>
    obtain ⟨-, -, rfl⟩ := burn_eq_ok.mp h
    exact IdStore.forall_erase ih
  | updateLiquidity _ h ih =>
    obtain ⟨-, -, m, hm, rfl⟩ := updateLiquidity_eq_ok.mp h
    exact IdStore.forall_replace hm ih (ih _ m hm)
  | transfer _ h ih =>
    obtain ⟨m, hm, -, rfl⟩ := transfer_eq_ok.mp h
    exact IdStore.forall_replace hm ih (ih _ m hm)

end PositionNft

end Swyft
