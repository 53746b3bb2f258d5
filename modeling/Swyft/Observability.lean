import Mathlib.Data.List.Nodup
import Mathlib.Data.Option.Basic
import Mathlib.Algebra.BigOperators.Group.List.Basic
import Mathlib.Algebra.Order.Ring.Nat
import Mathlib.Logic.Function.Basic

/-!
# Correlation ids and counters

`apps/api/src/observability`: the id that a request is known by in answers and logs, and counters
with a fixed set of labels.

## Main results

* `isSlug_resolveCorrelationId` — an id that is not made up by the server is short and plain
* `BoundedCounter.total_inc` — an event is counted once, whatever its label
-/

namespace Swyft

/-- `/^[A-Za-z0-9._:-]{1,128}$/`. -/
def isSlug (text : String) : Bool :=
  text ≠ "" && text.length ≤ 128 && text.toList.all fun c =>
    ('A' ≤ c && c ≤ 'Z') || ('a' ≤ c && c ≤ 'z') || ('0' ≤ c && c ≤ '9') ||
      c = '.' || c = '_' || c = ':' || c = '-'

/-- `resolveCorrelationId`, of the headers `x-correlation-id` and `x-request-id`, each if it is one
text, and of `randomUUID()`. -/
def resolveCorrelationId (correlationHeader requestHeader : Option String) (uuid : String) :
    String :=
  match [correlationHeader, requestHeader].filterMap id |>.find? isSlug with
  | some value => value
  | none => uuid

theorem isSlug_resolveCorrelationId (correlationHeader requestHeader : Option String)
    (uuid : String) : resolveCorrelationId correlationHeader requestHeader uuid = uuid ∨
      isSlug (resolveCorrelationId correlationHeader requestHeader uuid) = true := by
  rw [resolveCorrelationId]
  split
  case h_1 hfind => exact .inr (List.find?_some hfind)
  case h_2 => exact .inl rfl

/-! ### Counters -/

/-- `BoundedCounter`: a count for each label, and one for `other`. -/
structure BoundedCounter (L : Type) where
  labels : List L
  counts : Option L → ℕ

namespace BoundedCounter

variable {L : Type} [DecidableEq L]

/-- `new BoundedCounter(name, labels)`. -/
def fresh (labels : List L) : BoundedCounter L := ⟨labels, fun _ => 0⟩

/-- `inc`. -/
def inc (b : BoundedCounter L) (label : L) : BoundedCounter L :=
  let key := if label ∈ b.labels then some label else none
  { b with counts := Function.update b.counts key (b.counts key + 1) }

/-- `snapshot`. -/
def snapshot (b : BoundedCounter L) : List (Option L × ℕ) :=
  (b.labels.map some ++ [none]).map fun key => (key, b.counts key)

/-- What all the series add up to. -/
def total (b : BoundedCounter L) : ℕ := (b.snapshot.map Prod.snd).sum

@[simp] theorem labels_inc (b : BoundedCounter L) (label : L) : (b.inc label).labels = b.labels :=
  rfl

/-- A label of the counter is counted under its own name. -/
theorem counts_inc {b : BoundedCounter L} {label : L} (h : label ∈ b.labels) (key : Option L) :
    (b.inc label).counts key = b.counts key + if key = some label then 1 else 0 := by
  simp only [inc, if_pos h]
  split
  case isTrue hkey => rw [hkey, Function.update_self]
  case isFalse hkey => rw [Function.update_of_ne hkey, Nat.add_zero]

/-- **Once for each event.** -/
theorem total_inc {b : BoundedCounter L} (hnodup : b.labels.Nodup) (label : L) :
    (b.inc label).total = b.total + 1 := by
  have key : ∀ {keys : List (Option L)} {k : Option L}, keys.Nodup → k ∈ keys →
      (keys.map (Function.update b.counts k (b.counts k + 1))).sum
        = (keys.map b.counts).sum + 1 := by
    intro keys k
    induction keys with
    | nil => exact fun _ h => absurd h List.not_mem_nil
    | cons x keys ih =>
      intro hkeys hk
      obtain ⟨hx, hkeys⟩ := List.nodup_cons.mp hkeys
      simp only [List.map_cons, List.sum_cons]
      rcases List.mem_cons.mp hk with rfl | hk
      · have hrest : keys.map (Function.update b.counts k (b.counts k + 1)) = keys.map b.counts :=
          List.map_congr_left fun y hy => Function.update_of_ne (by rintro rfl; exact hx hy) ..
        rw [hrest, Function.update_self]
        omega
      · rw [ih hkeys hk, Function.update_of_ne (by rintro rfl; exact hx hk)]
        omega
  have hsome : (b.labels.map some ++ [none]).Nodup := by
    refine List.nodup_append.mpr ⟨hnodup.map (Option.some_injective L), List.nodup_singleton _, ?_⟩
    rintro _ hx _ hy rfl
    rw [List.mem_singleton.mp hy] at hx
    obtain ⟨_, -, h⟩ := List.mem_map.mp hx
    cases h
  simp only [total, snapshot, inc, List.map_map]
  refine key hsome ?_
  split
  case isTrue hmem => exact List.mem_append_left _ (List.mem_map_of_mem hmem)
  case isFalse => exact List.mem_append_right _ (List.mem_singleton_self _)

end BoundedCounter

end Swyft
