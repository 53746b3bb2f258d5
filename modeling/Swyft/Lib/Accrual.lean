import Swyft.Lib.IdStore

/-!
# Sharing out a growing index

Income is shared out over many records without touching them: an index grows by the income over
the total weight, and each record remembers the index it was last settled at. What a record may
still claim is its weight times the growth since then.

Claims are kept in the index's own units, so that nothing is rounded here; a payment is floored
when it is made, which only helps whoever pays.

A record may be opened, shrunk, settled and closed. Opening and settling ask for one thing: the new
record is settled at the index of the moment, or has no weight.

## Main results

* `Accrual.owed_grow` — growing the index owes every unit of weight the growth
* `Accrual.owed_open`, `owed_settle`, `owed_shrink`, `owed_close` — what the four changes owe
-/

namespace Accrual

variable {α : Type} {s : IdStore α} {last weight weight' : ℕ → α → ℕ} {index i : ℕ} {a b : α}

/-- What the records may claim at `index`. -/
def owed (s : IdStore α) (last weight : ℕ → α → ℕ) (index : ℕ) : ℕ :=
  s.sumBy fun i a => (index - last i a) * weight i a

/-- Growth is owed to the whole weight, whenever the records were settled. -/
theorem owed_grow (h : ∀ i a, s.get? i = some a → last i a ≤ index) (growth : ℕ) :
    owed s last weight (index + growth) = owed s last weight index + growth * s.sumBy weight := by
  have hsplit : owed s last weight (index + growth)
      = s.sumBy fun i a => (index - last i a) * weight i a + growth * weight i a := by
    refine IdStore.sumBy_congr fun i a ha => ?_
    rw [Nat.sub_add_comm (h i a ha), Nat.add_mul]
  rw [hsplit, IdStore.sumBy_add, IdStore.mul_sumBy, owed]

theorem owed_le_of_weight_le (h : ∀ i a, s.get? i = some a → weight' i a ≤ weight i a) :
    owed s last weight' index ≤ owed s last weight index :=
  IdStore.sumBy_le_sumBy fun i a ha => Nat.mul_le_mul_left _ (h i a ha)

/-- Records without weight are owed nothing. -/
theorem owed_eq_zero (h : ∀ i a, s.get? i = some a → weight i a = 0) :
    owed s last weight index = 0 :=
  IdStore.sumBy_eq_zero fun i a ha => by rw [h i a ha, Nat.mul_zero]

/-- A record settled now, or without weight, is owed nothing. -/
theorem share_eq_zero (h : last i a = index ∨ weight i a = 0) :
    (index - last i a) * weight i a = 0 := by
  rcases h with h | h
  · rw [h, Nat.sub_self, Nat.zero_mul]
  · rw [h, Nat.mul_zero]

theorem owed_open (hother : ∀ j c, j ≠ s.next → weight' j c = weight j c)
    (ha : last s.next a = index ∨ weight' s.next a = 0) :
    owed (s.push a) last weight' index = owed s last weight index := by
  rw [owed, IdStore.sumBy_push, share_eq_zero ha, Nat.add_zero]
  refine IdStore.sumBy_congr fun j c hc => ?_
  rw [hother j c (IdStore.lt_next hc).ne]

theorem owed_close (h : s.get? i = some a) :
    owed (s.erase i) last weight index ≤ owed s last weight index := by
  rw [owed, owed, IdStore.sumBy_eq_add_erase h]
  exact Nat.le_add_right _ _

theorem owed_shrink (h : s.get? i = some a) (hlast : last i b = last i a)
    (hle : weight i b ≤ weight i a) :
    owed (s.replace i b) last weight index ≤ owed s last weight index := by
  have hsum := IdStore.sumBy_replace h b fun i a => (index - last i a) * weight i a
  have hshare : (index - last i b) * weight i b ≤ (index - last i a) * weight i a := by
    rw [hlast]
    exact Nat.mul_le_mul_left _ hle
  rw [owed, owed]
  omega

theorem owed_settle (h : s.get? i = some a) (hother : ∀ j c, j ≠ i → weight' j c = weight j c)
    (hb : last i b = index ∨ weight' i b = 0) :
    owed (s.replace i b) last weight' index + (index - last i a) * weight i a
      = owed s last weight index := by
  have hstored : (s.replace i b).get? i = some b := by rw [IdStore.get?_replace h, if_pos rfl]
  rw [owed, owed, IdStore.sumBy_eq_add_erase h, IdStore.sumBy_eq_add_erase hstored,
    IdStore.erase_replace, share_eq_zero hb, Nat.add_zero]
  refine congrArg (· + _) (IdStore.sumBy_congr fun j c hc => ?_)
  have hne : j ≠ i := by
    rintro rfl
    rw [IdStore.get?_erase, if_pos rfl] at hc
    cases hc
  rw [hother j c hne]

end Accrual
