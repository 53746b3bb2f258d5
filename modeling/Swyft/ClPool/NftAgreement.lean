import Swyft.ClPool.WellFormed

/-!
# The pool and the position NFT contract

Every position is recorded twice: by the pool, under an identifier of the pool's own counter, and
by the NFT contract, under a token number of the NFT contract's counter. Minting, updating,
burning and transferring each touch one record or both, and `require_position_owner` compares
five fields across them, so any drift would lock a position for ever.

There is none, and for a simple reason: both counters start together and only `add_liquidity`
moves either, so they are always equal and a position's NFT has the position's own number.

## Main results

* `Reachable.nftAgree` — the two tables hold matching records under the same numbers
* `nft_ids_not_reused` — a number handed out and given back is never handed out again
-/

namespace Swyft.ClPool

open Checked

/-- A pool record and an NFT record, or the lack of either, under the number `i`. -/
def Matches (self : Address) (i : ℕ) : Option Position → Option PositionMetadata → Prop
  | none, none => True
  | some p, some m =>
    p.nftId = i ∧ m.pool = self ∧ m.tickLower = p.tickLower ∧ m.tickUpper = p.tickUpper ∧
      m.liquidity = p.liquidity
  | _, _ => False

/-- The two contracts agree on every position. -/
structure NftAgree (w : World) : Prop where
  next : w.nft.positions.next = w.pool.positions.next
  records : ∀ i, Matches w.self i (w.pool.positions.get? i) (w.nft.positions.get? i)

namespace NftAgree

variable {w w' : World}

/-- A position's NFT carries the position's own number and matching data. -/
theorem of_position (h : NftAgree w) {i : ℕ} {p : Position}
    (hp : w.pool.positions.get? i = some p) :
    p.nftId = i ∧ ∃ m, w.nft.positions.get? i = some m ∧ m.pool = w.self ∧
      m.tickLower = p.tickLower ∧ m.tickUpper = p.tickUpper ∧ m.liquidity = p.liquidity := by
  have hm := h.records i
  rw [hp] at hm
  cases hn : w.nft.positions.get? i with
  | none => rw [hn] at hm; exact hm.elim
  | some m => rw [hn] at hm; exact ⟨hm.1, m, rfl, hm.2⟩

/-- Every NFT belongs to a position of the pool. -/
theorem of_nft (h : NftAgree w) {n : ℕ} {m : PositionMetadata}
    (hm : w.nft.positions.get? n = some m) :
    ∃ p, w.pool.positions.get? n = some p ∧ p.nftId = n := by
  have hp := h.records n
  rw [hm] at hp
  cases hn : w.pool.positions.get? n with
  | none => rw [hn] at hp; exact hp.elim
  | some p => rw [hn] at hp; exact ⟨p, rfl, hp.1⟩

theorem add {owner : Address} {tickLower tickUpper : ℤ} {liquidity id amount0 amount1 : ℕ}
    (h : NftAgree w) (ha : Added w owner tickLower tickUpper liquidity w' id amount0 amount1) :
    NftAgree w' := by
  obtain ⟨-, -, -, -, -, hnft⟩ := PositionNft.mint_eq_ok.mp ha.minted
  rw [ha.world, hnft]
  refine ⟨by simp only [IdStore.next_push, h.next], fun i => ?_⟩
  dsimp only
  rw [IdStore.get?_push, IdStore.get?_push, h.next]
  split
  case isTrue hi => subst hi; exact ⟨rfl, rfl, rfl, rfl, rfl⟩
  case isFalse => exact h.records i

theorem remove {owner : Address} {id liquidity amount0 amount1 : ℕ} {position : Position}
    (h : NftAgree w) (hr : Removed w owner id liquidity position w' amount0 amount1) :
    NftAgree w' := by
  obtain ⟨hid, m, hm, hpool, hlower, hupper, -⟩ := h.of_position hr.found
  rw [hr.world]
  obtain ⟨-, hpos, hnft⟩ | ⟨-, hpos, hnft⟩ := shrinkPosition_cases hr.shrunk
  · obtain ⟨-, -, hnft⟩ := PositionNft.burn_eq_ok.mp hnft
    rw [hpos, hnft]
    refine ⟨h.next, fun i => ?_⟩
    dsimp only
    rw [hid, IdStore.get?_erase, IdStore.get?_erase]
    split
    case isTrue => trivial
    case isFalse => exact h.records i
  · obtain ⟨-, -, m', hm', hnft⟩ := PositionNft.updateLiquidity_eq_ok.mp hnft
    have hm' : w.nft.positions.get? id = some m' := by rw [← hid]; exact hm'
    obtain rfl : m = m' := by rw [hm] at hm'; exact Option.some.inj hm'
    rw [hpos, hnft]
    refine ⟨h.next, fun i => ?_⟩
    dsimp only
    rw [hid, IdStore.get?_replace hr.found, IdStore.get?_replace hm]
    split
    case isTrue hi => exact ⟨hi ▸ rfl, hpool, hlower, hupper, rfl⟩
    case isFalse => exact h.records i

theorem collect {owner : Address} {id fee0 fee1 : ℕ} {position : Position} (h : NftAgree w)
    (hc : Collected w owner id position w' fee0 fee1) : NftAgree w' := by
  obtain ⟨hid, m, hm, hdata⟩ := h.of_position hc.found
  rw [hc.world]
  refine ⟨h.next, fun i => ?_⟩
  dsimp only
  rw [IdStore.get?_replace hc.found]
  split
  case isTrue hi => subst hi; rw [hm]; exact ⟨hid, hdata⟩
  case isFalse => exact h.records i

theorem transferNft {src dst : Address} {tokenId : ℕ} {nft : PositionNft} (h : NftAgree w)
    (ht : w.nft.transfer src dst tokenId = .ok nft) : NftAgree { w with nft } := by
  obtain ⟨m, hm, -, rfl⟩ := PositionNft.transfer_eq_ok.mp ht
  obtain ⟨p, hp, -⟩ := h.of_nft hm
  obtain ⟨hid, m', hm', hdata⟩ := h.of_position hp
  obtain rfl : m = m' := Option.some.inj (hm.symm.trans hm')
  refine ⟨h.next, fun i => ?_⟩
  dsimp only
  rw [IdStore.get?_replace hm]
  split
  case isTrue hi => subst hi; rw [hp]; exact ⟨hid, hdata⟩
  case isFalse => exact h.records i

/-- Every step keeps the agreement. -/
theorem step {e : Event} (h : NftAgree w) (hs : Step w e w') : NftAgree w' := by
  cases Step.cases hs with
  | add ha => exact h.add ha
  | remove hr => exact h.remove hr
  | swap hsw =>
    obtain ⟨_, _, -, -, hpool⟩ := settlePool_eq_ok.mp hsw.settled
    rw [hsw.world, hpool]
    exact ⟨h.next, h.records⟩
  | collect hc => exact h.collect hc
  | transferNft _ ht => exact h.transferNft ht
  | closeLedger => exact ⟨h.next, h.records⟩

end NftAgree

/-- The agreement holds in every reachable state. -/
theorem Reachable.nftAgree {w : World} (h : Reachable w) : NftAgree w := by
  refine h.invariant (fun w hg => ?_) fun _ _ _ hw hs => hw.step hs
  obtain ⟨self, tokens, oracle, now, token0, token1, feeTier, sqrtPriceX96, nftContract, hg⟩ := hg
  obtain ⟨-, rfl⟩ := genesis_eq_ok hg
  exact ⟨rfl, fun _ => trivial⟩

/-! ### Token numbers -/

/-- A step hands out at most the next number; a number below the counter that holds no NFT keeps
holding none. -/
theorem Step.nft_absent {w w' : World} {e : Event} (hs : Step w e w') :
    w.nft.positions.next ≤ w'.nft.positions.next ∧
      ∀ n < w.nft.positions.next, w.nft.positions.get? n = none →
        w'.nft.positions.get? n = none := by
  cases Step.cases hs with
  | add h =>
    obtain ⟨-, -, -, -, -, hnft⟩ := PositionNft.mint_eq_ok.mp h.minted
    rw [hnft]
    refine ⟨Nat.le_succ _, fun n hn habsent => ?_⟩
    dsimp only
    rw [IdStore.get?_push, if_neg hn.ne]
    exact habsent
  | remove h =>
    obtain ⟨-, -, hnft⟩ | ⟨-, -, hnft⟩ := shrinkPosition_cases h.shrunk
    · obtain ⟨-, -, hnft⟩ := PositionNft.burn_eq_ok.mp hnft
      rw [hnft]
      refine ⟨le_rfl, fun n _ habsent => ?_⟩
      dsimp only
      rw [IdStore.get?_erase, habsent, ite_self]
    · obtain ⟨-, -, m, hm, hnft⟩ := PositionNft.updateLiquidity_eq_ok.mp hnft
      rw [hnft]
      refine ⟨le_rfl, fun n _ habsent => ?_⟩
      dsimp only
      rw [IdStore.get?_replace hm, if_neg]
      · exact habsent
      · rintro rfl
        rw [hm] at habsent
        cases habsent
  | swap h => rw [h.world]; exact ⟨le_rfl, fun _ _ h => h⟩
  | collect h => rw [h.world]; exact ⟨le_rfl, fun _ _ h => h⟩
  | transferNft _ h =>
    obtain ⟨m, hm, -, rfl⟩ := PositionNft.transfer_eq_ok.mp h
    refine ⟨le_rfl, fun n _ habsent => ?_⟩
    dsimp only
    rw [IdStore.get?_replace hm, if_neg]
    · exact habsent
    · rintro rfl
      rw [hm] at habsent
      cases habsent
  | closeLedger => exact ⟨le_rfl, fun _ _ h => h⟩

/-- A number handed out and given back is never handed out again. -/
theorem nft_ids_not_reused {w w' : World} {es : List Event} (hr : Run w es w') :
    w.nft.positions.next ≤ w'.nft.positions.next ∧
      ∀ n < w.nft.positions.next, w.nft.positions.get? n = none →
        w'.nft.positions.get? n = none := by
  induction hr with
  | nil => exact ⟨le_rfl, fun _ _ h => h⟩
  | cons hs _ ih =>
    obtain ⟨hle, habsent⟩ := Step.nft_absent hs
    exact ⟨hle.trans ih.1, fun n hn h => ih.2 n (lt_of_lt_of_le hn hle) (habsent n hn h)⟩

/-! ### Ownership -/

theorem requirePositionOwner_eq_ok {w : World} {position : Position} {owner : Address} {u : Unit} :
    requirePositionOwner w position owner = .ok u ↔
      ∃ m, w.nft.getPosition position.nftId = some m ∧ m.owner = owner ∧ m.pool = w.self ∧
        m.tickLower = position.tickLower ∧ m.tickUpper = position.tickUpper ∧
        m.liquidity = position.liquidity := by
  simp only [requirePositionOwner, bind_eq_ok, getOr_eq_ok, require_eq_ok]

/-- **The pool and the NFT contract agree.** Positions and NFTs come in pairs with the same data,
no two positions share an NFT, numbers are never used twice, and only an NFT's current owner can
collect on its position or withdraw from it. -/
theorem pool_and_nft_agree {w : World} (h : Reachable w) :
    (∀ n, (∃ i p, w.pool.positions.get? i = some p ∧ p.nftId = n) ↔
      ∃ m, w.nft.getPosition n = some m) ∧
    (∀ i p, w.pool.positions.get? i = some p → ∃ m, w.nft.getPosition p.nftId = some m ∧
      m.pool = w.self ∧ m.tickLower = p.tickLower ∧ m.tickUpper = p.tickUpper ∧
      m.liquidity = p.liquidity ∧
      (∀ owner liquidity w' amount0 amount1,
        removeLiquidity w owner i liquidity = .ok (w', amount0, amount1) → owner = m.owner) ∧
      ∀ owner w' fee0 fee1, collect w owner i = .ok (w', fee0, fee1) → owner = m.owner) ∧
    (∀ i j p q, w.pool.positions.get? i = some p → w.pool.positions.get? j = some q →
      p.nftId = q.nftId → i = j) ∧
    (∀ owner tickLower tickUpper liquidity w' id amount0 amount1,
      addLiquidity w owner tickLower tickUpper liquidity = .ok (w', id, amount0, amount1) →
        (∀ n m, w.nft.getPosition n = some m → n < w.nft.positions.next) ∧
        w'.nft.positions.next = w.nft.positions.next + 1 ∧
        ∃ p, w'.pool.positions.get? id = some p ∧ p.nftId = w.nft.positions.next) ∧
    ∀ es w', Run w es w' → ∀ n < w.nft.positions.next, w.nft.getPosition n = none →
      w'.nft.getPosition n = none := by
  have ha := h.nftAgree
  refine ⟨fun n => ⟨?_, ?_⟩, fun i p hp => ?_, fun i j p q hp hq he => ?_, ?_,
    fun es w' hr => (nft_ids_not_reused hr).2⟩
  · rintro ⟨i, p, hp, rfl⟩
    obtain ⟨hid, m, hm, -⟩ := ha.of_position hp
    exact ⟨m, by rw [hid]; exact hm⟩
  · rintro ⟨m, hm⟩
    obtain ⟨p, hp, hn⟩ := ha.of_nft hm
    exact ⟨n, p, hp, hn⟩
  · obtain ⟨hid, m, hm, hpool, hlower, hupper, hliq⟩ := ha.of_position hp
    have howner : ∀ owner, requirePositionOwner w p owner = .ok () → owner = m.owner := by
      intro owner ho
      obtain ⟨m', hm', rfl, -⟩ := requirePositionOwner_eq_ok.mp ho
      rw [hid, PositionNft.getPosition, hm] at hm'
      rw [Option.some.inj hm']
    refine ⟨m, by rw [hid]; exact hm, hpool, hlower, hupper, hliq, ?_, ?_⟩
    · intro owner liquidity w' amount0 amount1 hok
      obtain ⟨q, hr⟩ := removeLiquidity_eq_ok.mp hok
      obtain rfl : p = q := Option.some.inj (hp.symm.trans hr.found)
      exact howner owner hr.owned
    · intro owner w' fee0 fee1 hok
      obtain ⟨q, hc⟩ := collect_eq_ok.mp hok
      obtain rfl : p = q := Option.some.inj (hp.symm.trans hc.found)
      exact howner owner hc.owned
  · rw [← (ha.of_position hp).1, he, (ha.of_position hq).1]
  · intro owner tickLower tickUpper liquidity w' id amount0 amount1 hok
    have hadd := addLiquidity_eq_ok.mp hok
    obtain ⟨-, -, -, -, -, hnft⟩ := PositionNft.mint_eq_ok.mp hadd.minted
    refine ⟨fun n m hm => IdStore.lt_next hm, by rw [hnft]; rfl, ?_⟩
    rw [hadd.world, hadd.id_eq]
    exact ⟨_, by rw [IdStore.get?_push, if_pos rfl], rfl⟩

/-- A position changes hands: its buyer can withdraw, the seller no longer can. -/
theorem nft_sale_moves_the_position :
    ∃ w, Reachable w ∧ w.nft.getPosition 0 = some ⟨⟨8⟩, ⟨0⟩, -60, 60, 1000, 5⟩ ∧
      (∀ w' amount0 amount1, removeLiquidity w ⟨7⟩ 0 400 ≠ .ok (w', amount0, amount1)) := by
  obtain ⟨w, hr, hp, hm⟩ := exists_reachable 3000 unitPrice
    [.closeLedger 5, .addLiquidity ⟨7⟩ (-60) 60 1000, .transferNft ⟨7⟩ ⟨8⟩ 0]
    (fun w => (w.pool.positions.get? 0).map Position.nftId = some 0 ∧
      w.nft.getPosition 0 = some ⟨⟨8⟩, ⟨0⟩, -60, 60, 1000, 5⟩)
    (by decide)
  obtain ⟨p, hp, hid⟩ := Option.map_eq_some_iff.mp hp
  obtain ⟨m, hm', -, -, -, -, hremove, -⟩ := (pool_and_nft_agree hr).2.1 0 p hp
  refine ⟨w, hr, hm, fun w' amount0 amount1 hok => ?_⟩
  have howner := hremove _ _ _ _ _ hok
  rw [hid, hm] at hm'
  rw [← Option.some.inj hm'] at howner
  exact absurd howner (by decide)

end Swyft.ClPool
