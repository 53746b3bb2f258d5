import Swyft.ClPool.Model
import Swyft.Lib.Trace

/-!
# Runs of the pool

The pool and its NFT contract start deployed and initialised, each pointing at the other; from
there every successful invocation, by anyone, is a step. A run records the calls and what they
returned.

Token balances, the wired oracle adapter and the ledger time are arbitrary at the start.
-/

namespace Swyft.ClPool

open Checked

/-- Deployment: `initialize` of the NFT contract with the pool as minter, then of the pool. -/
def genesis (self : Address) (tokens : Tokens) (oracle : Option OracleAdapter) (now : ℕ)
    (token0 token1 : Address) (feeTier : ℕ) (sqrtPriceX96 : U128) (nftContract : Address) :
    Res World := do
  let nft ← PositionNft.deployed.initializeNft self
  initializePool { self, pool := .deployed, nft, tokens, oracle, now } token0 token1 feeTier
    sqrtPriceX96 nftContract

/-- A freshly initialised pool. -/
def Genesis (w : World) : Prop :=
  ∃ self tokens oracle now token0 token1 feeTier sqrtPriceX96 nftContract,
    genesis self tokens oracle now token0 token1 feeTier sqrtPriceX96 nftContract = .ok w

/-- An event of a run: a call and what it returned. -/
abbrev Event := Call × Receipt

/-- A successful invocation. -/
def Step (w : World) (e : Event) (w' : World) : Prop := exec w e.1 = .ok (w', e.2)

/-- A sequence of successful invocations. -/
abbrev Run := Trace Step

/-- A state some run from `initialize` ends in. -/
def Reachable (w : World) : Prop := ∃ g es, Genesis g ∧ Run g es w

/-- The world after a list of calls that all succeed, with what they returned. -/
abbrev execAll : World → List Call → Res (World × List Event) := runAll exec

theorem Genesis.reachable {w : World} (h : Genesis w) : Reachable w := ⟨w, [], h, .nil w⟩

theorem Reachable.step {w w' : World} {e : Event} (h : Reachable w) (hs : Step w e w') :
    Reachable w' := by
  obtain ⟨g, es, hg, hr⟩ := h
  exact ⟨g, es ++ [e], hg, hr.snoc hs⟩

theorem Reachable.run {w w' : World} {es : List Event} (h : Reachable w) (hr : Run w es w') :
    Reachable w' := by
  obtain ⟨g, es', hg, hr'⟩ := h
  exact ⟨g, es' ++ es, hg, hr'.append hr⟩

/-- What holds at the start and is kept by every step holds in every reachable state. -/
theorem Reachable.invariant {I : World → Prop} (hinit : ∀ w, Genesis w → I w)
    (hstep : ∀ w e w', I w → Step w e w' → I w') {w : World} (h : Reachable w) : I w := by
  obtain ⟨g, es, hg, hr⟩ := h
  exact hr.invariant hstep (hinit g hg)

theorem run_of_execAll {w w' : World} {cs : List Call} {es : List Event}
    (h : execAll w cs = .ok (w', es)) : Run w es w' :=
  trace_of_runAll h

/-! ### Runs from a script

A list of calls played against a freshly deployed pool gives a run, and a decidable fact about
where it ends can be checked by running it. -/

/-- The price of tick 0. -/
def unitPrice : U128 := 79228162514264337593543950336

/-- A pool at address 0 for the tokens at addresses 1 and 2, with its NFT contract at address 3.
Every account but the pool holds a large balance of both tokens. -/
def sandbox (feeTier : ℕ) (sqrtPriceX96 : U128) : Res World :=
  genesis ⟨0⟩ (fun _ holder => if holder = ⟨0⟩ then 0 else 10 ^ 40) none 0 ⟨1⟩ ⟨2⟩ feeTier
    sqrtPriceX96 ⟨3⟩

/-- Play `calls` in the sandbox. -/
def play (feeTier : ℕ) (sqrtPriceX96 : U128) (calls : List Call) : Res (World × List Event) := do
  let w ← sandbox feeTier sqrtPriceX96
  execAll w calls

theorem exists_run (feeTier : ℕ) (price : U128) (calls : List Call)
    (Q : World → List Event → Prop) (h : Yields (play feeTier price calls) fun x => Q x.1 x.2) :
    ∃ g es w, Genesis g ∧ Run g es w ∧ Q w es := by
  obtain ⟨⟨w, es⟩, hp, hq⟩ := yields_iff.mp h
  simp only [play, bind_eq_ok] at hp
  obtain ⟨g, hg, he⟩ := hp
  exact ⟨g, es, w, ⟨_, _, _, _, _, _, _, _, _, hg⟩, run_of_execAll he, hq⟩

/-- The same for a run all of whose calls meet a condition. -/
theorem exists_guarded_run (feeTier : ℕ) (price : U128) (calls : List Call)
    (C : World → Call → Prop) (Q : World → List Event → Prop)
    (h : Yields (sandbox feeTier price) fun g => Along exec C g calls ∧
      Yields (execAll g calls) fun x => Q x.1 x.2) :
    ∃ g es w, Genesis g ∧ Trace (fun w (e : Event) w' => Step w e w' ∧ C w e.1) g es w ∧
      Q w es := by
  obtain ⟨g, hg, hC, h⟩ := yields_iff.mp h
  obtain ⟨⟨w, es⟩, he, hq⟩ := yields_iff.mp h
  exact ⟨g, es, w, ⟨_, _, _, _, _, _, _, _, _, hg⟩, trace_of_along he hC, hq⟩

theorem exists_reachable (feeTier : ℕ) (price : U128) (calls : List Call) (Q : World → Prop)
    (h : Yields (play feeTier price calls) fun x => Q x.1) : ∃ w, Reachable w ∧ Q w := by
  obtain ⟨g, es, w, hg, hr, hq⟩ := exists_run feeTier price calls (fun w _ => Q w) h
  exact ⟨w, ⟨g, es, hg, hr⟩, hq⟩

end Swyft.ClPool
