import Mathlib.Algebra.Order.Ring.Rat
import Mathlib.Data.List.Nodup
import Swyft.Indexer.Model
import Swyft.Webhooks.Model

/-!
# Alerts

`apps/api/src/stats/tvl-alert.service.ts` and `dispatch` of
`apps/api/src/webhooks/webhooks.service.ts`, with the two producers of the events: a swap that is
processed dispatches `swap.large`, a check of the value locked in a pool dispatches
`pool.tvl.milestone` for each threshold that is due.

## What is deliberately absent

Logs, and the fields of a row that nothing here reads. A time stands for the text that
`toISOString` makes of it. Amounts of USD are rational numbers.
-/

namespace Swyft.Alerts

open Webhooks (WebhookEventType)
open Indexer (SwapProcessedJobData)

/-! ### Tables -/

/-- A row of `pool`. -/
structure Pool where
  id : String
  token0Address : String
  token1Address : String
  deriving DecidableEq

inductive TvlAlertDirection where
  | below | above
  deriving DecidableEq

/-- A row of `tvl_alert_threshold`. -/
structure TvlAlertThreshold where
  id : String
  poolId : String
  ownerWallet : String
  thresholdUsd : ℚ
  direction : TvlAlertDirection
  enabled : Bool
  lastTriggeredAt : Option ℤ
  deriving DecidableEq

/-- A row of `tvl_alert_history`. -/
structure TvlAlertHistory where
  thresholdId : String
  poolId : String
  ownerWallet : String
  thresholdUsd : ℚ
  observedTvlUsd : ℚ
  direction : TvlAlertDirection
  breachedAt : ℤ
  deriving DecidableEq

/-- A row of `webhook`. -/
structure Webhook where
  id : String
  ownerWallet : String
  eventTypes : List WebhookEventType
  largeSwapUsd : ℚ
  disabled : Bool
  deriving DecidableEq

/-- The table of thresholds: ids differ, and a wallet has one threshold for a pool. -/
structure ThresholdTable where
  rows : List TvlAlertThreshold
  ids : (rows.map (·.id)).Nodup
  owners : (rows.map fun t => (t.poolId, t.ownerWallet)).Nodup
  deriving DecidableEq

/-- The table of webhooks. -/
structure WebhookTable where
  rows : List Webhook
  ids : (rows.map (·.id)).Nodup
  deriving DecidableEq

structure Database where
  webhooks : WebhookTable
  thresholds : ThresholdTable
  history : List TvlAlertHistory

namespace ThresholdTable

variable {T : ThresholdTable}

/-- Two rows with one id are one row. -/
theorem eq_of_id_eq {t t' : TvlAlertThreshold} (h : t ∈ T.rows) (h' : t' ∈ T.rows)
    (hid : t.id = t'.id) : t = t' :=
  List.inj_on_of_nodup_map T.ids h h' hid

theorem map_ids (rows : List TvlAlertThreshold) {f : TvlAlertThreshold → TvlAlertThreshold}
    (hf : ∀ t, (f t).id = t.id ∧ (f t).poolId = t.poolId ∧ (f t).ownerWallet = t.ownerWallet) :
    (rows.map f).map (·.id) = rows.map (·.id) := by
  rw [List.map_map]
  exact List.map_congr_left fun t _ => (hf t).1

theorem map_owners (rows : List TvlAlertThreshold) {f : TvlAlertThreshold → TvlAlertThreshold}
    (hf : ∀ t, (f t).id = t.id ∧ (f t).poolId = t.poolId ∧ (f t).ownerWallet = t.ownerWallet) :
    ((rows.map f).map fun t => (t.poolId, t.ownerWallet)) =
      rows.map fun t => (t.poolId, t.ownerWallet) := by
  rw [List.map_map]
  exact List.map_congr_left fun t _ => Prod.ext (hf t).2.1 (hf t).2.2

/-- Each row is replaced by one with its id, pool and wallet. -/
def map (T : ThresholdTable) (f : TvlAlertThreshold → TvlAlertThreshold)
    (hf : ∀ t, (f t).id = t.id ∧ (f t).poolId = t.poolId ∧ (f t).ownerWallet = t.ownerWallet) :
    ThresholdTable where
  rows := T.rows.map f
  ids := (map_ids T.rows hf).symm ▸ T.ids
  owners := (map_owners T.rows hf).symm ▸ T.owners

/-- `update` of the time a threshold was last triggered. -/
def trigger (T : ThresholdTable) (id : String) (breachedAt : ℤ) : ThresholdTable :=
  T.map (fun t => if t.id = id then { t with lastTriggeredAt := some breachedAt } else t) <| by
    intro t
    split_ifs <;> exact ⟨rfl, rfl, rfl⟩

theorem trigger_ids (T : ThresholdTable) (id : String) (breachedAt : ℤ) :
    (T.trigger id breachedAt).rows.map (·.id) = T.rows.map (·.id) := by
  refine map_ids T.rows fun t => ?_
  split_ifs <;> exact ⟨rfl, rfl, rfl⟩

/-- `disableThreshold`. -/
def disableThreshold (T : ThresholdTable) (id ownerWallet : String) : ThresholdTable :=
  T.map (fun t => if t.id = id ∧ t.ownerWallet = ownerWallet then { t with enabled := false }
    else t) <| by
    intro t
    split_ifs <;> exact ⟨rfl, rfl, rfl⟩

/-- `deleteThreshold`. -/
def deleteThreshold (T : ThresholdTable) (id ownerWallet : String) : ThresholdTable where
  rows := T.rows.filter fun t => ¬ (t.id = id ∧ t.ownerWallet = ownerWallet)
  ids := T.ids.sublist (List.filter_sublist.map _)
  owners := T.owners.sublist (List.filter_sublist.map _)

/-- A row is added. -/
def insert (T : ThresholdTable) (t : TvlAlertThreshold) (hid : t.id ∉ T.rows.map (·.id))
    (howner : (t.poolId, t.ownerWallet) ∉ T.rows.map fun t => (t.poolId, t.ownerWallet)) :
    ThresholdTable where
  rows := T.rows ++ [t]
  ids := by
    rw [List.map_append]
    exact T.ids.append (List.nodup_singleton _) (List.disjoint_singleton.mpr hid)
  owners := by
    rw [List.map_append]
    exact T.owners.append (List.nodup_singleton _) (List.disjoint_singleton.mpr howner)

end ThresholdTable

/-- `TvlAlertThresholdCreate`. -/
structure TvlAlertThresholdCreate where
  poolId : String
  thresholdUsd : ℚ
  direction : TvlAlertDirection
  deriving DecidableEq

/-- `setThreshold`. A row that is created gets the id `newId`, which no row has. -/
def ThresholdTable.setThreshold (T : ThresholdTable) (ownerWallet : String)
    (data : TvlAlertThresholdCreate) (newId : String) : Option ThresholdTable :=
  if howner : (data.poolId, ownerWallet) ∈ T.rows.map fun t => (t.poolId, t.ownerWallet) then
    some <| T.map (fun t => if t.poolId = data.poolId ∧ t.ownerWallet = ownerWallet then
      { t with thresholdUsd := data.thresholdUsd, direction := data.direction, enabled := true }
      else t) <| by
        intro t
        split_ifs <;> exact ⟨rfl, rfl, rfl⟩
  else if hid : newId ∈ T.rows.map (·.id) then none
  else
    some <| T.insert
      ⟨newId, data.poolId, ownerWallet, data.thresholdUsd, data.direction, true, none⟩ hid howner

/-! ### Events -/

/-- `data` of a payload. -/
inductive EventData where
  | swapLarge (poolId sender recipient amount0 amount1 sqrtPriceX96 liquidity : String)
    (tick : Int32) (eventId : String)
  | poolTvlMilestone (poolId token0 token1 : String) (tvlUsd threshold : ℚ)
    (direction : TvlAlertDirection) (crossedAt : ℤ)
  deriving DecidableEq

structure WebhookPayload where
  event : WebhookEventType
  timestamp : ℤ
  data : EventData
  deriving DecidableEq

/-- Why an event is dispatched: a swap was processed, or a threshold is due. -/
inductive Cause where
  | swap (d : SwapProcessedJobData)
  | breach (pool : Pool) (currentTvlUsd : ℚ) (threshold : TvlAlertThreshold) (breachedAt : ℤ)
  deriving DecidableEq

namespace Cause

def event : Cause → WebhookEventType
  | swap _ => .swapLarge
  | breach .. => .poolTvlMilestone

def data : Cause → EventData
  | swap d => .swapLarge d.poolId d.sender d.recipient d.amount0 d.amount1 d.sqrtPriceX96
    d.liquidity d.tick d.eventId
  | breach pool currentTvlUsd threshold breachedAt => .poolTvlMilestone pool.id pool.token0Address
    pool.token1Address currentTvlUsd threshold.thresholdUsd threshold.direction breachedAt

end Cause

/-- A job of the queue of deliveries, with the reason for it. -/
structure Delivery where
  webhookId : String
  cause : Cause
  timestamp : ℤ
  deriving DecidableEq

/-- What a webhook is sent. -/
def Delivery.payload (d : Delivery) : WebhookPayload := ⟨d.cause.event, d.timestamp, d.cause.data⟩

/-- A webhook is enabled and subscribed to an event. -/
def Webhook.Subscribed (w : Webhook) (event : WebhookEventType) : Prop :=
  w.disabled = false ∧ event ∈ w.eventTypes
  deriving Decidable

/-- `dispatch`. -/
def dispatch (webhooks : WebhookTable) (now : ℤ) (cause : Cause) : List Delivery :=
  (webhooks.rows.filter (·.Subscribed cause.event)).map fun w => ⟨w.id, cause, now⟩

theorem mem_dispatch {webhooks : WebhookTable} {now : ℤ} {cause : Cause} {d : Delivery} :
    d ∈ dispatch webhooks now cause ↔
      ∃ w ∈ webhooks.rows, w.Subscribed cause.event ∧ (⟨w.id, cause, now⟩ : Delivery) = d := by
  simp only [dispatch, List.mem_map, List.mem_filter, decide_eq_true_iff, and_assoc]

/-! ### Checks -/

/-- A day, in milliseconds. -/
def day : ℤ := 24 * 60 * 60 * 1000

/-- A threshold is selected by `checkAndTriggerAlerts`. -/
def TvlAlertThreshold.Due (poolId : String) (currentTvlUsd : ℚ) (since : ℤ)
    (t : TvlAlertThreshold) : Prop :=
  t.poolId = poolId ∧ t.enabled ∧
    (t.direction = .below ∧ currentTvlUsd < t.thresholdUsd ∧ t.lastTriggeredAt = none ∨
      t.direction = .below ∧ currentTvlUsd < t.thresholdUsd ∧
        (∃ last ∈ t.lastTriggeredAt, last < since) ∨
      t.direction = .above ∧ t.thresholdUsd < currentTvlUsd ∧ t.lastTriggeredAt = none ∨
      t.direction = .above ∧ t.thresholdUsd < currentTvlUsd ∧
        ∃ last ∈ t.lastTriggeredAt, last < since)
  deriving Decidable

/-- A threshold that is due was not triggered since. -/
theorem TvlAlertThreshold.Due.lt {poolId : String} {currentTvlUsd : ℚ} {since : ℤ}
    {t : TvlAlertThreshold} (h : t.Due poolId currentTvlUsd since) :
    ∀ last ∈ t.lastTriggeredAt, last < since := by
  intro last hlast
  obtain ⟨-, -, ⟨-, -, hnone⟩ | ⟨-, -, last', hlast', hlt⟩ | ⟨-, -, hnone⟩ |
    ⟨-, -, last', hlast', hlt⟩⟩ := h
  · cases hlast.symm.trans hnone
  · cases hlast.symm.trans hlast'
    exact hlt
  · cases hlast.symm.trans hnone
  · cases hlast.symm.trans hlast'
    exact hlt

/-- What `findMany` selects. -/
def ThresholdTable.due (T : ThresholdTable) (poolId : String) (currentTvlUsd : ℚ) (since : ℤ) :
    List TvlAlertThreshold :=
  T.rows.filter (·.Due poolId currentTvlUsd since)

/-- The entry of the history for a threshold. -/
def TvlAlertThreshold.entry (t : TvlAlertThreshold) (pool : Pool) (currentTvlUsd : ℚ)
    (breachedAt : ℤ) : TvlAlertHistory :=
  ⟨t.id, pool.id, t.ownerWallet, t.thresholdUsd, currentTvlUsd, t.direction, breachedAt⟩

end Swyft.Alerts
