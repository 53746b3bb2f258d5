import Swyft.PoolContract.System

/-!
# Who minted what over which range

The contract takes ranges and position identifiers on trust. The books of a run keep what its calls
said: under each position and range, and where it matters each account, the liquidity minted less
the liquidity burned.

As long as every burn names a range over which the books hold the liquidity burned, a position's
record holds what the books hold under the position, over all its ranges.

## Main definitions

* `Slot` — a position and a range named for it
* `Books` — a world with the ledger of what was minted and not burned
* `Named` — a call that burns only what the books hold where it says

## Main results

* `Books.records_agree` — the records hold what the books hold
-/

namespace Swyft.PoolContract

open Checked

/-- A position and a range named for it. -/
structure Slot where
  positionId : ℕ
  tickLower : ℤ
  tickUpper : ℤ
  deriving DecidableEq, Repr

/-- The tick `t` is in the slot's range. -/
def Slot.holds (k : Slot) (t : ℤ) : Prop := k.tickLower ≤ t ∧ t < k.tickUpper

instance (k : Slot) (t : ℤ) : Decidable (k.holds t) := inferInstanceAs (Decidable (_ ∧ _))

/-- How calls are booked: the key of an account and a slot, from which the slot can be read. -/
structure Keying (κ : Type) where
  key : Address → Slot → κ
  slot : κ → Slot
  slot_key : ∀ account k, slot (key account k) = k

/-- One entry a slot, whoever minted. -/
def bySlot : Keying Slot := ⟨fun _ k => k, id, fun _ _ => rfl⟩

/-- One entry an account and slot. -/
def byAccount : Keying (Address × Slot) := ⟨fun account k => (account, k), Prod.snd, fun _ _ => rfl⟩

/-- A world, and the liquidity minted and not burned in it. -/
structure Books (κ : Type) where
  world : World
  held : Ledger κ

variable {κ : Type} [DecidableEq κ] {K : Keying κ}

/-- The ledger after a successful call. -/
def Keying.book (K : Keying κ) (held : Ledger κ) : Call → Ledger κ
  | .mint sender id tickLower tickUpper amount =>
    held.credit (K.key sender ⟨id, tickLower, tickUpper⟩) amount
  | .burn sender id tickLower tickUpper amount =>
    held.debit (K.key sender ⟨id, tickLower, tickUpper⟩) amount
  | _ => held

/-- A call that burns only what is held under the sender and the range it names. -/
def Keying.Named (K : Keying κ) (held : Ledger κ) : Call → Prop
  | .burn sender id tickLower tickUpper amount =>
    amount ≤ held.amount (K.key sender ⟨id, tickLower, tickUpper⟩)
  | _ => True

instance (K : Keying κ) (held : Ledger κ) : (c : Call) → Decidable (K.Named held c)
  | .burn .. => Nat.decLe _ _
  | .mint .. | .swap .. | .collect .. | .closeLedger .. => instDecidableTrue

namespace Books

/-- One invocation, booked. -/
def exec (K : Keying κ) (b : Books κ) (c : Call) : Res (Books κ × Receipt) := do
  let (w', r) ← PoolContract.exec b.world c
  pure (⟨w', K.book b.held c⟩, r)

/-- Empty books. -/
def start (w : World) : Books κ := ⟨w, .empty⟩

theorem fires_iff {b b' : Books κ} {e : Event} :
    Fires (exec K) b e b' ↔ Step b.world e b'.world ∧ b'.held = K.book b.held e.1 := by
  obtain ⟨w, held⟩ := b
  obtain ⟨w', held'⟩ := b'
  simp only [Fires, exec, Step, bind_eq_ok, pure_eq_ok, Prod.exists, Prod.mk.injEq, Books.mk.injEq]
  constructor
  · rintro ⟨w₁, a0, a1, hexec, ⟨rfl, rfl⟩, hr⟩
    rw [← hr]
    exact ⟨hexec, rfl⟩
  · rintro ⟨hexec, rfl⟩
    exact ⟨w', e.2.1, e.2.2, hexec, ⟨rfl, rfl⟩, rfl⟩

end Books

/-- A booked run in which every burn names what it burns. -/
abbrev NamedRun (K : Keying κ) :=
  Trace fun (b : Books κ) (e : Event) b' => Fires (Books.exec K) b e b' ∧ K.Named b.held e.1

/-! ### The records -/

/-- The liquidity held under a position, over all ranges. -/
def Keying.heldUnder (K : Keying κ) (held : Ledger κ) (positionId : ℕ) : ℕ :=
  held.sumBy fun k n => if (K.slot k).positionId = positionId then n else 0

/-- Every position's record holds what the books hold, and none is empty. -/
structure RecordsAgree (K : Keying κ) (b : Books κ) : Prop where
  liquidity : ∀ id, b.world.pool.liquidityOf id = K.heldUnder b.held id
  positive : ∀ id position, b.world.pool.positions id = some position → 0 < position.liquidity

theorem heldUnder_credit (held : Ledger κ) (account : Address) (k : Slot) (n id : ℕ) :
    K.heldUnder (held.credit (K.key account k) n) id
      = K.heldUnder held id + if k.positionId = id then n else 0 := by
  rw [Keying.heldUnder, Ledger.sumBy_credit (by simp) (by intros; split_ifs <;> rfl), K.slot_key,
    Keying.heldUnder]

theorem heldUnder_debit {held : Ledger κ} {account : Address} {k : Slot} {n : ℕ}
    (h : n ≤ held.amount (K.key account k)) (id : ℕ) :
    K.heldUnder (held.debit (K.key account k) n) id + (if k.positionId = id then n else 0)
      = K.heldUnder held id := by
  have hsum := Ledger.sumBy_debit (k := K.key account k) (n := n)
    (f := fun k n => if (K.slot k).positionId = id then n else 0)
    (by simp) (by intros; split_ifs <;> rfl) h
  rw [K.slot_key] at hsum
  exact hsum

theorem liquidityOf_update (p : Pool) (positions : ℕ → Option Position) (id : ℕ)
    (record : Option Position) (h : positions = Function.update p.positions id record) (i : ℕ) :
    ((positions i).map Position.liquidity).getD 0
      = if i = id then (record.map Position.liquidity).getD 0 else p.liquidityOf i := by
  subst h
  by_cases hi : i = id
  · subst hi; simp
  · simp [hi, Pool.liquidityOf]

/-- **One step keeps the records and the books together.** -/
theorem RecordsAgree.step {b b' : Books κ} {e : Event} (h : RecordsAgree K b)
    (hs : Fires (Books.exec K) b e b') (hn : K.Named b.held e.1) : RecordsAgree K b' := by
  obtain ⟨hs, hheld⟩ := Books.fires_iff.mp hs
  cases Step.cases hs with
  | @mint sender id l u amount amounts hm =>
    have hstored := hm.stored
    refine ⟨fun i => ?_, fun i position hi => ?_⟩
    · rw [hheld, Keying.book, heldUnder_credit, ← h.liquidity, Pool.liquidityOf,
        liquidityOf_update _ _ _ _ hstored]
      by_cases hid : i = id
      · subst hid; simp
      · simp [hid, Ne.symm hid]
    · rw [hstored] at hi
      by_cases hid : i = id
      · subst hid
        rw [Function.update_self] at hi
        obtain rfl := Option.some.inj hi
        have := hm.positive
        show 0 < _ + _
        omega
      · rw [Function.update_of_ne hid] at hi
        exact h.positive i position hi
  | @burn sender id l u amount amounts hb =>
    obtain ⟨old, hold, hstored⟩ := hb.stored
    have hliq : b.world.pool.liquidityOf id = old.liquidity := by
      rw [Pool.liquidityOf, hold]
      rfl
    have hle := hb.le
    refine ⟨fun i => ?_, fun i position hi => ?_⟩
    · have hsum := heldUnder_debit (K := K) hn i
      rw [← h.liquidity] at hsum
      rw [hheld, Keying.book, Pool.liquidityOf, liquidityOf_update _ _ _ _ hstored]
      by_cases hid : i = id
      · subst hid
        simp only [if_true] at hsum ⊢
        split <;> simp <;> omega
      · simp only [if_neg hid, if_neg (Ne.symm hid)] at hsum ⊢
        omega
    · rw [hstored] at hi
      by_cases hid : i = id
      · subst hid
        rw [Function.update_self] at hi
        split at hi
        case isTrue => cases hi
        case isFalse hne =>
          obtain rfl := Option.some.inj hi
          exact Nat.pos_of_ne_zero hne
      · rw [Function.update_of_ne hid] at hi
        exact h.positive i position hi
  | swap hsw =>
    obtain ⟨price, -, hpool⟩ := hsw.moved
    refine ⟨fun i => ?_, fun i => ?_⟩
    · rw [hheld, hpool]
      exact h.liquidity i
    · rw [hpool]
      exact h.positive i
  | collect hc =>
    obtain ⟨-, -, -, -, hliq, hsome⟩ := collect_frame hc
    refine ⟨fun i => ?_, fun i position hi => ?_⟩
    · rw [hheld, hliq]
      exact h.liquidity i
    · obtain ⟨old, hold⟩ := Option.isSome_iff_exists.mp ((hsome i).mp (by rw [hi]; rfl))
      have hpos := h.positive i old hold
      have hsame := congrFun hliq i
      rw [Pool.liquidityOf, Pool.liquidityOf, hi, hold] at hsame
      have hsame : position.liquidity = old.liquidity := hsame
      omega
  | closeLedger hw =>
    refine ⟨fun i => ?_, fun i => ?_⟩
    · rw [hheld, hw]
      exact h.liquidity i
    · rw [hw]
      exact h.positive i

omit [DecidableEq κ] in
theorem RecordsAgree.start {w : World} (h : Genesis w) :
    RecordsAgree K (Books.start w : Books κ) := by
  obtain ⟨_, _, _, _, hpool⟩ := h.pool_eq
  have hpositions : w.pool.positions = fun _ => none := by rw [hpool]; rfl
  refine ⟨fun id => ?_, fun id q hq => ?_⟩
  · show w.pool.liquidityOf id = 0
    rw [Pool.liquidityOf, hpositions]
    rfl
  · have hnone : w.pool.positions id = none := congrFun hpositions id
    exact absurd (hnone.symm.trans hq) (by simp)

/-- **The records of a named run** hold what its books hold. -/
theorem Books.records_agree {g : World} {es : List Event} {b : Books κ} (hg : Genesis g)
    (h : NamedRun K (Books.start g) es b) : RecordsAgree K b :=
  h.invariant (I := RecordsAgree K) (fun _ _ _ hb hs => hb.step hs.1 hs.2) (RecordsAgree.start hg)

/-! ### Runs from a script -/

/-- The price of tick 0. -/
def unitPrice : U128 := 79228162514264337593543950336

/-- A pool at address 0 for the tokens at addresses 1 and 2. Every account but the pool holds a
large balance of both tokens. -/
def sandbox (feeTier : ℕ) : Res World :=
  genesis ⟨0⟩ (fun _ holder => if holder = ⟨0⟩ then 0 else 10 ^ 40) none 0 ⟨1⟩ ⟨2⟩ unitPrice feeTier

/-- What holds after a list of calls from the sandbox holds after some run. -/
theorem exists_run (feeTier : ℕ) (calls : List Call) (Q : World → List Event → Prop)
    (h : Yields (sandbox feeTier) fun g => Yields (runAll exec g calls) fun x => Q x.1 x.2) :
    ∃ g es w, Genesis g ∧ Run g es w ∧ Q w es := by
  obtain ⟨g, hg, h⟩ := yields_iff.mp h
  obtain ⟨⟨w, es⟩, he, hq⟩ := yields_iff.mp h
  exact ⟨g, es, w, ⟨_, _, _, _, _, _, _, _, hg⟩, trace_of_runAll he, hq⟩

/-- The same with books, for calls that all meet a condition. -/
theorem exists_booked_run (K : Keying κ) (feeTier : ℕ) (calls : List Call)
    (C : Books κ → Call → Prop) (Q : Books κ → List Event → Prop)
    (h : Yields (sandbox feeTier) fun g => Along (Books.exec K) C (Books.start g) calls ∧
      Yields (runAll (Books.exec K) (Books.start g) calls) fun x => Q x.1 x.2) :
    ∃ g es b, Genesis g ∧
      Trace (fun b (e : Event) b' => Fires (Books.exec K) b e b' ∧ C b e.1) (Books.start g) es b ∧
      Q b es := by
  obtain ⟨g, hg, hC, h⟩ := yields_iff.mp h
  obtain ⟨⟨b, es⟩, he, hq⟩ := yields_iff.mp h
  exact ⟨g, es, b, ⟨_, _, _, _, _, _, _, _, hg⟩, trace_of_along he hC, hq⟩

end Swyft.PoolContract
