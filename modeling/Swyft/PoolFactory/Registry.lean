import Swyft.PoolFactory.Model
import Swyft.Lib.PartialMap
import Mathlib.Data.String.Basic
import Mathlib.Data.Sym.Sym2

/-!
# The registry of pools

Every path of the factory to its map goes through `normalize_pair`, so that a pair has one key
whichever way round it is given. The map is written at free keys only, with addresses the deployer
has just handed out.

## Main definitions

* `Host.Lawful` — what the registry relies on: addresses have different texts, and the deployer
  refuses an address in use
* `Registered` — the invariant of a factory between invocations

## Main results

* `createPool_eq_ok`, `getPool_eq_ok` — what the two entry points check and do
* `getPool_comm` — the order of the arguments does not matter
* `Registered.step` — every invocation keeps the invariant and every entry of the map
* `registry_of_run` — the registry over whole runs
-/

namespace Swyft.PoolFactory

open Checked PartialMap

variable {h : Host} {w w' : World}

/-- Two addresses with the same text are the same, and the deployer refuses an address in use. -/
structure Host.Lawful (h : Host) : Prop where
  string_injective : Function.Injective h.addressString
  deploy_unused : ∀ {used salt wasmHash a}, h.deploy used salt wasmHash = .ok a → a ∉ used

/-! ### Normalised pairs -/

theorem sortTokens_comm (hh : h.Lawful) {a b : Address} (hab : a ≠ b) :
    sortTokens h a b = sortTokens h b a := by
  have hne : h.addressString a ≠ h.addressString b := fun heq => hab (hh.string_injective heq)
  simp only [sortTokens]
  rcases lt_or_gt_of_ne hne with hlt | hgt
  · rw [if_pos hlt, if_neg (lt_asymm hlt)]
  · rw [if_neg (lt_asymm hgt), if_pos hgt]

theorem normalizePair_comm (hh : h.Lawful) (a b : Address) :
    normalizePair h a b = normalizePair h b a := by
  by_cases hab : a = b
  · rw [hab]
  · rw [normalizePair, normalizePair, require_pos hab, require_pos (Ne.symm hab),
      sortTokens_comm hh hab]

/-- A key whose tokens are in the order `normalize_pair` gives them. -/
def PoolKey.Normal (h : Host) (k : PoolKey) : Prop :=
  h.addressString k.tokenA < h.addressString k.tokenB

/-- The unordered pair of a key. -/
def PoolKey.pair (k : PoolKey) : Sym2 Address := s(k.tokenA, k.tokenB)

theorem poolKey_normal (hh : h.Lawful) {a b : Address} (hab : a ≠ b) (fee : ℕ) :
    (poolKey h a b fee).Normal h := by
  have hne : h.addressString a ≠ h.addressString b := fun heq => hab (hh.string_injective heq)
  simp only [PoolKey.Normal, poolKey, sortTokens]
  split_ifs with hlt
  · exact hlt
  · exact lt_of_le_of_ne (not_lt.mp hlt) hne.symm

/-- A pair has one normalised key for each fee tier. -/
theorem PoolKey.Normal.eq_of_pair {k k' : PoolKey} (hk : k.Normal h) (hk' : k'.Normal h)
    (hpair : k.pair = k'.pair) (hfee : k.feeTier = k'.feeTier) : k = k' := by
  obtain ⟨a, b, fee⟩ := k
  obtain ⟨a', b', fee'⟩ := k'
  simp only [PoolKey.pair, Sym2.eq_iff] at hpair
  rcases hpair with ⟨rfl, rfl⟩ | ⟨rfl, rfl⟩
  · rw [show fee = fee' from hfee]
  · exact absurd hk (lt_asymm hk')

/-! ### The entry points -/

/-- What `create_pool` checks and does. -/
theorem createPool_eq_ok {a b pool : Address} {fee : ℕ} :
    createPool h w a b fee = .ok (w', pool) ↔
      w.factory.initialized = true ∧ w.factory.loading = false ∧
      (fee = feeTier005 ∨ fee = feeTier03 ∨ fee = feeTier1) ∧ a ≠ b ∧
      w.factory.pools (poolKey h a b fee) = none ∧
      ∃ wasmHash, w.factory.poolWasmHash = some wasmHash ∧
        h.deploy w.used (h.sha256 (h.toXdr (poolKey h a b fee))) wasmHash = .ok pool ∧
        w' =
          { factory := { w.factory with
              pools := Function.update w.factory.pools (poolKey h a b fee) (some pool)
              loading := false }
            used := insert pool w.used } := by
  simp only [createPool, ensureInitialized, ensureNotLoading, validateFeeTier, normalizePair,
    setLoading, bind_eq_ok, require_eq_ok, exists_const, getOr_eq_ok, pure_eq_ok, Prod.exists,
    Prod.mk.injEq, Option.isNone_iff_eq_none]
  constructor
  · rintro ⟨h1, h2, h3, _, _, ⟨h4, hsort⟩, h5, wasmHash, h6, pool', h7, rfl, rfl⟩
    rw [poolKey, hsort]
    exact ⟨h1, h2, h3, h4, h5, wasmHash, h6, h7, rfl⟩
  · rintro ⟨h1, h2, h3, h4, h5, wasmHash, h6, h7, rfl⟩
    exact ⟨h1, h2, h3, _, _, ⟨h4, rfl⟩, h5, wasmHash, h6, pool, h7, rfl, rfl⟩

/-- What `get_pool` checks and returns. -/
theorem getPool_eq_ok {a b : Address} {fee : ℕ} {o : Option Address} :
    getPool h w a b fee = .ok o ↔
      w.factory.initialized = true ∧ a ≠ b ∧ w.factory.pools (poolKey h a b fee) = o := by
  simp only [getPool, ensureInitialized, normalizePair, bind_eq_ok, require_eq_ok, exists_const,
    pure_eq_ok, Prod.exists]
  constructor
  · rintro ⟨h1, _, _, ⟨h2, hsort⟩, rfl⟩
    rw [poolKey, hsort]
    exact ⟨h1, h2, rfl⟩
  · rintro ⟨h1, h2, rfl⟩
    exact ⟨h1, _, _, ⟨h2, rfl⟩, rfl⟩

/-- `get_pool` answers alike for both orders, also with an error. -/
theorem getPool_comm (hh : h.Lawful) (a b : Address) (fee : ℕ) :
    getPool h w a b fee = getPool h w b a fee := by
  rw [getPool, getPool, normalizePair_comm hh]

theorem ownerSet_eq_ok {signer : Address} {write : Factory → Factory} :
    ownerSet w signer write = .ok w' ↔
      w.factory.initialized = true ∧ w.factory.loading = false ∧ w.factory.owner = some signer ∧
        w' = { w with factory := write w.factory } := by
  simp only [ownerSet, ensureInitialized, ensureNotLoading, requireOwner, requireAuth, bind_eq_ok,
    require_eq_ok, exists_const, expect_eq_ok, pure_eq_ok]
  constructor
  · rintro ⟨h1, h2, ⟨_, h3, rfl⟩, rfl⟩; exact ⟨h1, h2, h3, rfl⟩
  · rintro ⟨h1, h2, h3, rfl⟩; exact ⟨h1, h2, ⟨_, h3, rfl⟩, rfl⟩

theorem initializeFactory_eq_ok {signer owner mathLib : Address} {wasmHash : BytesN32} :
    initializeFactory w signer owner mathLib wasmHash = .ok w' ↔
      owner = signer ∧ w.factory.initialized = false ∧
        w' = { w with
          factory := ⟨true, some owner, some mathLib, some wasmHash, fun _ => none, false⟩ } := by
  simp only [initializeFactory, requireAuth, bind_eq_ok, require_eq_ok, exists_const, pure_eq_ok]
  constructor
  · rintro ⟨h1, h2, rfl⟩; exact ⟨h1, h2, rfl⟩
  · rintro ⟨h1, h2, rfl⟩; exact ⟨h1, h2, rfl⟩

/-! ### Steps and runs -/

/-- A factory between invocations. -/
structure Registered (h : Host) (w : World) : Prop where
  initialized : w.factory.initialized = true
  idle : w.factory.loading = false
  normal : ∀ k a, w.factory.pools k = some a → k.Normal h
  inUse : ∀ k a, w.factory.pools k = some a → a ∈ w.used
  apart : NoSharing w.factory.pools

theorem Genesis.registered (hg : Genesis w) : Registered h w := by
  obtain ⟨used, signer, owner, mathLib, wasmHash, hg⟩ := hg
  obtain ⟨-, -, rfl⟩ := initializeFactory_eq_ok.mp hg
  exact ⟨rfl, rfl, fun _ _ h => by simp at h, fun _ _ h => by simp at h,
    fun _ _ _ h => by simp at h⟩

/-- What a successful invocation does to an initialised factory. -/
inductive Effect (h : Host) (w : World) : Event → World → Prop
  /-- A new pool enters the map. -/
  | created {a b pool : Address} {fee : ℕ} {wasmHash : BytesN32} (hab : a ≠ b)
      (free : w.factory.pools (poolKey h a b fee) = none)
      (deployed : h.deploy w.used (h.sha256 (h.toXdr (poolKey h a b fee))) wasmHash = .ok pool) :
      Effect h w (.createPool a b fee, .created pool)
        { factory := { w.factory with
            pools := Function.update w.factory.pools (poolKey h a b fee) (some pool)
            loading := false }
          used := insert pool w.used }
  /-- The map and the flags stay, and no address is freed. -/
  | kept {e : Event} {w' : World} (hcall : ∀ a b fee, e.1 ≠ .createPool a b fee)
      (pools : w'.factory.pools = w.factory.pools)
      (initialized : w'.factory.initialized = w.factory.initialized)
      (loading : w'.factory.loading = w.factory.loading) (used : w.used ⊆ w'.used) :
      Effect h w e w'

/-- **Inversion of an invocation.** -/
theorem effect_of_fires {e : Event} (hinit : w.factory.initialized = true)
    (hs : Fires (exec h) w e w') : Effect h w e w' := by
  obtain ⟨call, receipt⟩ := e
  cases call with
  | initializeFactory signer owner mathLib wasmHash =>
    simp only [Fires, exec, bind_eq_ok, initializeFactory_eq_ok] at hs
    obtain ⟨_, ⟨-, hfresh, -⟩, -⟩ := hs
    rw [hinit] at hfresh
    cases hfresh
  | createPool a b fee =>
    simp only [Fires, exec, bind_eq_ok, pure_eq_ok, Prod.exists, Prod.mk.injEq] at hs
    obtain ⟨_, _, hc, rfl, rfl⟩ := hs
    obtain ⟨-, -, -, hab, hfree, _, -, hdeploy, rfl⟩ := createPool_eq_ok.mp hc
    exact .created hab hfree hdeploy
  | getPool a b fee =>
    simp only [Fires, exec, bind_eq_ok, pure_eq_ok, Prod.mk.injEq] at hs
    obtain ⟨_, -, rfl, -⟩ := hs
    exact .kept (fun _ _ _ => by simp) rfl rfl rfl subset_rfl
  | setPoolWasmHash signer wasmHash =>
    simp only [Fires, exec, setPoolWasmHash, bind_eq_ok, ownerSet_eq_ok, pure_eq_ok,
      Prod.mk.injEq] at hs
    obtain ⟨_, ⟨-, -, -, rfl⟩, rfl, -⟩ := hs
    exact .kept (fun _ _ _ => by simp) rfl rfl rfl subset_rfl
  | setMathLib signer mathLib =>
    simp only [Fires, exec, setMathLib, bind_eq_ok, ownerSet_eq_ok, pure_eq_ok,
      Prod.mk.injEq] at hs
    obtain ⟨_, ⟨-, -, -, rfl⟩, rfl, -⟩ := hs
    exact .kept (fun _ _ _ => by simp) rfl rfl rfl subset_rfl
  | setOwner signer newOwner =>
    simp only [Fires, exec, setOwner, bind_eq_ok, ownerSet_eq_ok, pure_eq_ok, Prod.mk.injEq] at hs
    obtain ⟨_, ⟨-, -, -, rfl⟩, rfl, -⟩ := hs
    exact .kept (fun _ _ _ => by simp) rfl rfl rfl subset_rfl
  | elsewhere address =>
    simp only [Fires, exec, pure_eq_ok, Prod.mk.injEq] at hs
    obtain ⟨rfl, -⟩ := hs
    exact .kept (fun _ _ _ => by simp) rfl rfl rfl (Finset.subset_insert _ _)

/-- **The invariant is kept**, and so is every entry of the map. -/
theorem Registered.step (hh : h.Lawful) {e : Event} (hw : Registered h w)
    (hs : Fires (exec h) w e w') :
    Registered h w' ∧ Extends w.factory.pools w'.factory.pools := by
  cases effect_of_fires hw.initialized hs with
  | created hab hfree hdeploy =>
    have hnew : ∀ k, w.factory.pools k ≠ some _ :=
      fun k hk => hh.deploy_unused hdeploy (hw.inUse k _ hk)
    refine ⟨⟨hw.initialized, rfl, ?_, ?_, hw.apart.update hnew⟩, extends_update hfree _⟩
    · intro k a hk
      rcases update_eq_some_iff.mp hk with ⟨rfl, -⟩ | ⟨-, hk⟩
      · exact poolKey_normal hh hab _
      · exact hw.normal k a hk
    · intro k a hk
      rcases update_eq_some_iff.mp hk with ⟨-, rfl⟩ | ⟨-, hk⟩
      · exact Finset.mem_insert_self _ _
      · exact Finset.mem_insert_of_mem (hw.inUse k a hk)
  | kept _ hpools hinit hloading hused =>
    refine ⟨⟨hinit.trans hw.initialized, hloading.trans hw.idle, ?_, ?_, ?_⟩, ?_⟩
    · rw [hpools]; exact hw.normal
    · rw [hpools]; exact fun k a hk => hused (hw.inUse k a hk)
    · rw [hpools]; exact hw.apart
    · rw [hpools]; exact .refl _

theorem Registered.run (hh : h.Lawful) {es : List Event} (hw : Registered h w)
    (hr : Run h w es w') : Registered h w' ∧ Extends w.factory.pools w'.factory.pools :=
  hr.invariant (I := fun v => Registered h v ∧ Extends w.factory.pools v.factory.pools)
    (fun _ _ _ hv hs => ⟨(hv.1.step hh hs).1, hv.2.trans (hv.1.step hh hs).2⟩) ⟨hw, .refl _⟩

/-- What `create_pool` returned in a run is in the map at its end. -/
theorem Registered.created_mem (hh : h.Lawful) {es : List Event} {a b pool : Address} {fee : ℕ}
    (hw : Registered h w) (hr : Run h w es w')
    (hmem : (Call.createPool a b fee, Receipt.created pool) ∈ es) :
    a ≠ b ∧ w'.factory.pools (poolKey h a b fee) = some pool := by
  induction hr with
  | nil => cases hmem
  | cons hs hr ih =>
    obtain ⟨hw₁, -⟩ := hw.step hh hs
    rcases List.mem_cons.mp hmem with rfl | hmem
    · cases effect_of_fires hw.initialized hs with
      | created hab hfree hdeploy =>
        exact ⟨hab, (hw₁.run hh hr).2 _ _ (by simp)⟩
      | kept hcall => exact absurd rfl (hcall a b fee)
    · exact ih hw₁ hmem

/-- **The registry over whole runs.** Let a run from `initialize` pass through `v` and end in `w`.
The entries of `v` are entries of `w`; a pair and a fee tier have one key and one address in both;
no address stands under two keys; `get_pool` does not care for the order of its tokens, and
answers with what `create_pool` returned for them; and the factory is not loading. -/
theorem registry_of_run (hh : h.Lawful) {g v : World} {es es' : List Event} (hg : Genesis g)
    (hv : Run h g es v) (hw : Run h v es' w) :
    (∀ k a, v.factory.pools k = some a → w.factory.pools k = some a) ∧
    (∀ k k' a a', v.factory.pools k = some a → w.factory.pools k' = some a' →
      k.pair = k'.pair → k.feeTier = k'.feeTier → k = k' ∧ a = a') ∧
    (∀ k k' a, v.factory.pools k = some a → w.factory.pools k' = some a → k = k') ∧
    (∀ a b fee, getPool h w a b fee = getPool h w b a fee) ∧
    (∀ a b fee pool, (Call.createPool a b fee, Receipt.created pool) ∈ es ++ es' →
      getPool h w a b fee = .ok (some pool) ∧ getPool h w b a fee = .ok (some pool)) ∧
    getIsLoading w = .ok false := by
  have hg' : Registered h g := hg.registered
  obtain ⟨hv', -⟩ := hg'.run hh hv
  obtain ⟨hw', hext⟩ := hv'.run hh hw
  refine ⟨hext, ?_, fun k k' a hk hk' => hw'.apart.of_extends hext hk hk',
    getPool_comm hh, ?_, ?_⟩
  · intro k k' a a' hk hk' hpair hfee
    obtain rfl : k = k' := (hv'.normal k a hk).eq_of_pair (hw'.normal k' a' hk') hpair hfee
    exact ⟨rfl, Option.some.inj ((hext k a hk).symm.trans hk')⟩
  · intro a b fee pool hmem
    obtain ⟨hab, hpool⟩ := hg'.created_mem hh (hv.append hw) hmem
    have hget := getPool_eq_ok.mpr ⟨hw'.initialized, hab, hpool⟩
    exact ⟨hget, getPool_comm hh b a fee ▸ hget⟩
  · simp only [getIsLoading, ensureInitialized, require_pos hw'.initialized, hw'.idle]
    rfl

/-! ### A run of the factory -/

/-- A host for trying the factory out. An address is written as so many letters, and its number
plus one thousand is read off the salt. -/
def sampleHost : Host where
  addressString a := String.ofList (List.replicate a.id 'A')
  toXdr k := [UInt8.ofNat k.tokenA.id, UInt8.ofNat k.tokenB.id, UInt8.ofNat (k.feeTier / 500)]
  sha256 bytes := bytes.foldl (fun n b => n * 256 + BitVec.ofNat 256 b.toNat) 0
  deploy used salt _ :=
    if (⟨1000 + salt.toNat⟩ : Address) ∈ used then .error (.panic "ExistingValue")
    else .ok ⟨1000 + salt.toNat⟩

theorem sampleHost_lawful : sampleHost.Lawful where
  string_injective := by
    rintro ⟨a⟩ ⟨b⟩ hab
    have := congrArg List.length (String.ofList_injective hab)
    simpa using this
  deploy_unused := by
    intro used salt wasmHash a h
    simp only [sampleHost] at h
    split at h
    case isTrue => cases h
    case isFalse hfree =>
      obtain rfl := Except.ok.inj h
      exact hfree

/-- A pool created with its tokens the wrong way round, asked for the right way round after the
factory has changed hands. -/
theorem registry_after_new_owner :
    ∃ g v w es es', Genesis g ∧ Run sampleHost g es v ∧ Run sampleHost v es' w ∧
      (Call.createPool ⟨2⟩ ⟨1⟩ feeTier03, Receipt.created ⟨67054⟩) ∈ es ++ es' ∧
      getPool sampleHost w ⟨1⟩ ⟨2⟩ feeTier03 = .ok (some ⟨67054⟩) := by
  have hplay : Yields (initializeFactory ⟨.deployed, ∅⟩ ⟨7⟩ ⟨7⟩ ⟨8⟩ 9) fun g =>
      Yields (runAll (exec sampleHost) g [.createPool ⟨2⟩ ⟨1⟩ feeTier03]) fun x =>
        (Call.createPool ⟨2⟩ ⟨1⟩ feeTier03, Receipt.created ⟨67054⟩) ∈ x.2 ∧
        Yields (runAll (exec sampleHost) x.1 [.setOwner ⟨7⟩ ⟨5⟩, .setMathLib ⟨5⟩ ⟨6⟩])
          fun _ => True := by
    decide
  obtain ⟨g, hg, hplay⟩ := yields_iff.mp hplay
  obtain ⟨⟨v, es⟩, hv, hmem, hplay⟩ := yields_iff.mp hplay
  obtain ⟨⟨w, es'⟩, hw, -⟩ := yields_iff.mp hplay
  have hg : Genesis g := ⟨_, _, _, _, _, hg⟩
  have hv := trace_of_runAll hv
  have hw := trace_of_runAll hw
  have hmem := List.mem_append_left es' hmem
  exact ⟨g, v, w, es, es', hg, hv, hw, hmem,
    ((registry_of_run sampleHost_lawful hg hv hw).2.2.2.2.1 _ _ _ _ hmem).2⟩

end Swyft.PoolFactory
