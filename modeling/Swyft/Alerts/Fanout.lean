import Swyft.Alerts.Model
import Mathlib.Data.Fintype.EquivFin
import Mathlib.Data.List.Count

/-!
# Who is sent an event

An event is sent to every enabled webhook that is subscribed to it. Swaps and values locked in
pools come one after the other; the time stands still while one is handled.

A webhook of a wallet should be sent the swaps that reach its `largeSwapUsd`, and the breaches of
the wallet's own thresholds.

## Main results

* `respectsSettings_iff` — this is so exactly if each swap reaches the `largeSwapUsd` of every
  subscriber, and no pool's value is checked or nobody subscribes to milestones
-/

namespace Swyft.Alerts

/-! ### One event after the other -/

/-- One round of `checkAndTriggerAlerts`. -/
def Database.alert (db : Database) (now : ℤ) (pool : Pool) (currentTvlUsd : ℚ)
    (t : TvlAlertThreshold) : Database × List Delivery :=
  ({ db with
      history := db.history ++ [t.entry pool currentTvlUsd now]
      thresholds := db.thresholds.trigger t.id now },
    dispatch db.webhooks now (.breach pool currentTvlUsd t now))

/-- The loop of `checkAndTriggerAlerts`. -/
def Database.alerts (now : ℤ) (pool : Pool) (currentTvlUsd : ℚ) :
    Database → List TvlAlertThreshold → Database × List Delivery
  | db, [] => (db, [])
  | db, t :: rest =>
    let (db', sent) := db.alert now pool currentTvlUsd t
    let (db'', sent') := alerts now pool currentTvlUsd db' rest
    (db'', sent ++ sent')

/-- `checkAndTriggerAlerts`. -/
def Database.checkAndTriggerAlerts (db : Database) (now : ℤ) (pool : Pool) (currentTvlUsd : ℚ) :
    Database × List Delivery :=
  db.alerts now pool currentTvlUsd (db.thresholds.due pool.id currentTvlUsd (now - day))

inductive Update where
  /-- `handleSwapProcessed`, where the swap is new. -/
  | swapProcessed (d : Indexer.SwapProcessedJobData) (now : ℤ)
  /-- The value locked in a pool is checked. -/
  | tvl (pool : Pool) (currentTvlUsd : ℚ) (now : ℤ)
  deriving DecidableEq

def Database.handle (db : Database) : Update → Database × List Delivery
  | .swapProcessed d now => (db, dispatch db.webhooks now (.swap d))
  | .tvl pool currentTvlUsd now => db.checkAndTriggerAlerts now pool currentTvlUsd

/-- All that is sent. -/
def Database.sent : Database → List Update → List Delivery
  | _, [] => []
  | db, u :: stream => (db.handle u).2 ++ (db.handle u).1.sent stream

/-- What a webhook is sent. -/
def received (webhookId : String) (sent : List Delivery) : List WebhookPayload :=
  (sent.filter (·.webhookId = webhookId)).map Delivery.payload

/-- Two tables are the same but for the thresholds of a wallet. -/
def ThresholdTable.AgreeElsewhere (wallet : String) (T T' : ThresholdTable) : Prop :=
  T.rows.filter (·.ownerWallet ≠ wallet) = T'.rows.filter (·.ownerWallet ≠ wallet)

/-- Webhooks are sent events as their settings say. -/
structure RespectsSettings (usd : Indexer.SwapProcessedJobData → ℚ) (db : Database)
    (stream : List Update) : Prop where
  /-- A swap is large for a webhook that is sent it. -/
  large : ∀ w ∈ db.webhooks.rows, ∀ d now, ⟨w.id, .swap d, now⟩ ∈ db.sent stream →
    w.largeSwapUsd ≤ usd d
  /-- A threshold is the wallet's that owns the webhook. -/
  owned : ∀ w ∈ db.webhooks.rows, ∀ pool tvlUsd t breachedAt now,
    ⟨w.id, .breach pool tvlUsd t breachedAt, now⟩ ∈ db.sent stream → t.ownerWallet = w.ownerWallet
  /-- The thresholds of other wallets make no difference. -/
  isolated : ∀ w ∈ db.webhooks.rows, ∀ wallet ≠ w.ownerWallet, ∀ thresholds : ThresholdTable,
    db.thresholds.AgreeElsewhere wallet thresholds →
      received w.id ({ db with thresholds }.sent stream) = received w.id (db.sent stream)

variable {usd : Indexer.SwapProcessedJobData → ℚ} {db db' : Database} {stream : List Update}
  {now : ℤ} {pool : Pool} {currentTvlUsd : ℚ} {t : TvlAlertThreshold} {w : Webhook}

/-! #### What is sent -/

theorem alerts_webhooks (due : List TvlAlertThreshold) :
    (db.alerts now pool currentTvlUsd due).1.webhooks = db.webhooks := by
  induction due generalizing db with
  | nil => rfl
  | cons t rest ih => exact ih

/-- Webhooks are not changed. -/
theorem handle_webhooks (u : Update) : (db.handle u).1.webhooks = db.webhooks := by
  cases u with
  | swapProcessed d now => rfl
  | tvl pool currentTvlUsd now => exact alerts_webhooks _

theorem alerts_sent (due : List TvlAlertThreshold) :
    (db.alerts now pool currentTvlUsd due).2 =
      due.flatMap fun t => dispatch db.webhooks now (.breach pool currentTvlUsd t now) := by
  induction due generalizing db with
  | nil => rfl
  | cons t rest ih => exact congrArg _ ih

theorem sent_cons (u : Update) :
    db.sent (u :: stream) = (db.handle u).2 ++ (db.handle u).1.sent stream := rfl

theorem webhooks_eq {id : String} {w w' : Webhook} (hw : w ∈ db.webhooks.rows)
    (hw' : w' ∈ db.webhooks.rows) (hid : w'.id = id) (hid' : w.id = id) : w' = w :=
  List.inj_on_of_nodup_map db.webhooks.ids hw' hw (hid.trans hid'.symm)

/-- What is sent to a webhook is something it is subscribed to, and has its cause in the stream. -/
theorem of_mem_sent {cause : Cause} (hw : w ∈ db.webhooks.rows)
    (h : ⟨w.id, cause, now⟩ ∈ db.sent stream) :
    w.Subscribed cause.event ∧ match cause with
      | .swap d => .swapProcessed d now ∈ stream
      | .breach pool currentTvlUsd _ _ => .tvl pool currentTvlUsd now ∈ stream := by
  induction stream generalizing db with
  | nil => cases h
  | cons u stream ih =>
    rw [sent_cons, List.mem_append] at h
    rcases h with h | h
    · -- Sent for the first update.
      cases u with
      | swapProcessed d now' =>
        obtain ⟨w', hw', hsub, heq⟩ := mem_dispatch.mp h
        obtain ⟨hid, rfl, rfl⟩ := Delivery.mk.inj heq
        rw [webhooks_eq hw hw' hid rfl] at hsub
        exact ⟨hsub, .head _⟩
      | tvl pool currentTvlUsd now' =>
        rw [Database.handle, Database.checkAndTriggerAlerts, alerts_sent, List.mem_flatMap] at h
        obtain ⟨t, -, h⟩ := h
        obtain ⟨w', hw', hsub, heq⟩ := mem_dispatch.mp h
        obtain ⟨hid, rfl, rfl⟩ := Delivery.mk.inj heq
        rw [webhooks_eq hw hw' hid rfl] at hsub
        exact ⟨hsub, .head _⟩
    · rw [← handle_webhooks u] at hw
      obtain ⟨hsub, hcause⟩ := ih hw h
      refine ⟨hsub, ?_⟩
      cases cause <;> exact .tail _ hcause

/-- A swap is sent to every subscriber. -/
theorem swap_mem_sent {d : Indexer.SwapProcessedJobData} (hw : w ∈ db.webhooks.rows)
    (hsub : w.Subscribed .swapLarge) (h : .swapProcessed d now ∈ stream) :
    ⟨w.id, .swap d, now⟩ ∈ db.sent stream := by
  induction stream generalizing db with
  | nil => cases h
  | cons u stream ih =>
    rw [sent_cons, List.mem_append]
    rcases List.mem_cons.mp h with rfl | h
    · exact .inl (mem_dispatch.mpr ⟨w, hw, hsub, rfl⟩)
    · rw [← handle_webhooks u] at hw
      exact .inr (ih hw h)

/-! #### One more threshold -/

/-- The second database has one more threshold, at the end. -/
structure Extends (t : TvlAlertThreshold) (db db' : Database) : Prop where
  webhooks : db'.webhooks = db.webhooks
  rows : db'.thresholds.rows = db.thresholds.rows ++ [t]

theorem Extends.ne (h : Extends t db db') : ∀ t' ∈ db.thresholds.rows, t'.id ≠ t.id := by
  intro t' ht'
  have hids := db'.thresholds.ids
  rw [h.rows, List.map_append] at hids
  intro heq
  exact List.disjoint_of_nodup_append hids (List.mem_map_of_mem ht') (heq ▸ .head _)

theorem Extends.alert (h : Extends t db db') {t' : TvlAlertThreshold} (hne : t'.id ≠ t.id) :
    Extends t (db.alert now pool currentTvlUsd t').1 (db'.alert now pool currentTvlUsd t').1 where
  webhooks := h.webhooks
  rows := by
    show db'.thresholds.rows.map _ = db.thresholds.rows.map _ ++ [t]
    rw [h.rows, List.map_append, List.map_singleton, if_neg (Ne.symm hne)]

/-- Triggering the others leaves the threshold as it is. -/
theorem Extends.alerts (h : Extends t db db') {due : List TvlAlertThreshold}
    (hne : ∀ t' ∈ due, t'.id ≠ t.id) :
    Extends t (db.alerts now pool currentTvlUsd due).1
      (db'.alerts now pool currentTvlUsd due).1 := by
  induction due generalizing db db' with
  | nil => exact h
  | cons t' rest ih =>
    obtain ⟨hne', hrest⟩ := List.forall_mem_cons.mp hne
    exact ih (h.alert hne') hrest

theorem alerts_append (due due' : List TvlAlertThreshold) :
    (db.alerts now pool currentTvlUsd (due ++ due')).1 =
      ((db.alerts now pool currentTvlUsd due).1.alerts now pool currentTvlUsd due').1 := by
  induction due generalizing db with
  | nil => rfl
  | cons t rest ih => exact ih

/-- A threshold is due at an update. -/
def Update.Breaches (t : TvlAlertThreshold) : Update → Prop
  | .swapProcessed .. => False
  | .tvl pool currentTvlUsd now => t.Due pool.id currentTvlUsd (now - day)

/-- While the threshold is not due, all is as without it. -/
theorem Extends.handle_of_not (h : Extends t db db') {u : Update} (hdue : ¬ u.Breaches t) :
    Extends t (db.handle u).1 (db'.handle u).1 ∧ (db'.handle u).2 = (db.handle u).2 := by
  cases u with
  | swapProcessed d now => exact ⟨h, by rw [Database.handle, Database.handle, h.webhooks]⟩
  | tvl pool currentTvlUsd now =>
    have hrows : db'.thresholds.due pool.id currentTvlUsd (now - day) =
        db.thresholds.due pool.id currentTvlUsd (now - day) := by
      rw [ThresholdTable.due, h.rows, List.filter_append, List.filter_singleton,
        decide_eq_false (p := t.Due _ _ _) hdue, Bool.cond_false, List.append_nil,
        ThresholdTable.due]
    simp only [Database.handle, Database.checkAndTriggerAlerts, hrows]
    refine ⟨h.alerts fun t' ht' => h.ne t' (List.mem_of_mem_filter ht'), ?_⟩
    rw [alerts_sent, alerts_sent, h.webhooks]

/-- Once it is due, it is triggered and sent to the subscribers, and the rest is as without it. -/
theorem Extends.handle_of_due (h : Extends t db db')
    (hdue : t.Due pool.id currentTvlUsd (now - day)) :
    (∃ t', Extends t' (db.handle (.tvl pool currentTvlUsd now)).1
      (db'.handle (.tvl pool currentTvlUsd now)).1) ∧
    (db'.handle (.tvl pool currentTvlUsd now)).2 = (db.handle (.tvl pool currentTvlUsd now)).2 ++
      dispatch db.webhooks now (.breach pool currentTvlUsd t now) := by
  have hrows : db'.thresholds.due pool.id currentTvlUsd (now - day) =
      db.thresholds.due pool.id currentTvlUsd (now - day) ++ [t] := by
    rw [ThresholdTable.due, h.rows, List.filter_append, List.filter_singleton,
      decide_eq_true hdue, Bool.cond_true, ThresholdTable.due]
  simp only [Database.handle, Database.checkAndTriggerAlerts, hrows]
  constructor
  · have hne : ∀ t' ∈ db.thresholds.due pool.id currentTvlUsd (now - day), t'.id ≠ t.id :=
      fun t' ht' => h.ne t' (List.mem_of_mem_filter ht')
    have hother : Extends t (db.alerts now pool currentTvlUsd _).1
        (db'.alerts now pool currentTvlUsd _).1 := h.alerts hne
    rw [alerts_append]
    refine ⟨{ t with lastTriggeredAt := some now }, hother.webhooks, ?_⟩
    show List.map _ _ = _
    rw [hother.rows, List.map_append, List.map_singleton, if_pos rfl]
    exact congrArg (· ++ _) ((List.map_congr_left fun t' ht' => if_neg (hother.ne t' ht')).trans
      (List.map_id _))
  · rw [alerts_sent, alerts_sent, h.webhooks, List.flatMap_append, List.flatMap_singleton]

/-- The number of events that a webhook is sent. -/
def sentTo (webhookId : String) (sent : List Delivery) : ℕ := sent.countP (·.webhookId = webhookId)

theorem length_received (id : String) (sent : List Delivery) :
    (received id sent).length = sentTo id sent := by
  rw [received, List.length_map, sentTo, List.countP_eq_length_filter]

theorem sentTo_append (id : String) (sent sent' : List Delivery) :
    sentTo id (sent ++ sent') = sentTo id sent + sentTo id sent' := List.countP_append

theorem sentTo_pos {id : String} {sent : List Delivery} {cause : Cause}
    (h : ⟨id, cause, now⟩ ∈ sent) : 0 < sentTo id sent :=
  List.countP_pos_iff.mpr ⟨_, h, decide_eq_true rfl⟩

theorem Extends.sentTo_le (h : Extends t db db') (id : String) :
    sentTo id (db.sent stream) ≤ sentTo id (db'.sent stream) := by
  induction stream generalizing t db db' with
  | nil => exact Nat.le_refl _
  | cons u stream ih =>
    rw [sent_cons, sent_cons, sentTo_append, sentTo_append]
    by_cases hdue : u.Breaches t
    · cases u with
      | swapProcessed d now => exact absurd hdue not_false
      | tvl pool currentTvlUsd now =>
        obtain ⟨⟨t', hnext⟩, hsent⟩ := h.handle_of_due hdue
        have hrest := ih hnext
        rw [hsent, sentTo_append]
        omega
    · obtain ⟨hnext, hsent⟩ := h.handle_of_not hdue
      have hrest := ih hnext
      rw [hsent]
      omega

/-- A subscriber is sent more, if the threshold is due at some update. -/
theorem Extends.sentTo_lt (h : Extends t db db') (hw : w ∈ db.webhooks.rows)
    (hsub : w.Subscribed .poolTvlMilestone) {u : Update} (hu : u ∈ stream) (hdue : u.Breaches t) :
    sentTo w.id (db.sent stream) < sentTo w.id (db'.sent stream) := by
  induction stream generalizing db db' with
  | nil => cases hu
  | cons u' stream ih =>
    rw [sent_cons, sent_cons, sentTo_append, sentTo_append]
    by_cases hdue' : u'.Breaches t
    · cases u' with
      | swapProcessed d now => exact absurd hdue' not_false
      | tvl pool currentTvlUsd now =>
        obtain ⟨⟨t', hnext⟩, hsent⟩ := h.handle_of_due hdue'
        have hrest : sentTo w.id (Database.sent _ stream) ≤ _ := hnext.sentTo_le w.id
        have hpos : 0 < sentTo w.id (dispatch db.webhooks now (.breach pool currentTvlUsd t now)) :=
          sentTo_pos (mem_dispatch.mpr ⟨w, hw, hsub, rfl⟩)
        rw [hsent, sentTo_append]
        omega
    · obtain ⟨hnext, hsent⟩ := h.handle_of_not hdue'
      have hu : u ∈ stream := by
        rcases List.mem_cons.mp hu with rfl | hu
        · exact absurd hdue hdue'
        · exact hu
      rw [← handle_webhooks u'] at hw
      have hrest := ih hnext hw hu
      rw [hsent]
      omega

/-- Another wallet can set a threshold that is due as soon as a pool's value is checked. -/
theorem exists_extends (db : Database) (w : Webhook) (pool : Pool) (currentTvlUsd : ℚ) :
    ∃ (t : TvlAlertThreshold) (thresholds : ThresholdTable), t.ownerWallet ≠ w.ownerWallet ∧
      db.thresholds.AgreeElsewhere t.ownerWallet thresholds ∧
      Extends t db { db with thresholds } ∧ ∀ since, t.Due pool.id currentTvlUsd since := by
  obtain ⟨id, hid⟩ := Infinite.exists_notMem_finset (db.thresholds.rows.map (·.id)).toFinset
  obtain ⟨wallet, hwallet⟩ := Infinite.exists_notMem_finset
    (w.ownerWallet :: db.thresholds.rows.map (·.ownerWallet)).toFinset
  rw [List.mem_toFinset] at hid hwallet
  rw [List.mem_cons, not_or] at hwallet
  have howner : ∀ t ∈ db.thresholds.rows, t.ownerWallet ≠ wallet :=
    fun t ht heq => hwallet.2 (List.mem_map.mpr ⟨t, ht, heq⟩)
  refine ⟨⟨id, pool.id, wallet, currentTvlUsd - 1, .above, true, none⟩,
    db.thresholds.insert _ hid ?_, hwallet.1, ?_, ⟨rfl, rfl⟩, fun since => ⟨rfl, rfl, ?_⟩⟩
  · intro hmem
    obtain ⟨t, ht, heq⟩ := List.mem_map.mp hmem
    exact howner t ht (Prod.mk.inj heq).2
  · rw [ThresholdTable.AgreeElsewhere, ThresholdTable.insert, List.filter_append,
      List.filter_singleton]
    simp
  · exact .inr (.inr (.inl ⟨rfl, sub_one_lt currentTvlUsd, rfl⟩))

/-! #### Exactly when settings are respected -/

/-- Nothing is sent but the swaps, if no value is checked or nobody subscribes to milestones. -/
theorem sent_of_quiet (h : (∀ pool currentTvlUsd now, .tvl pool currentTvlUsd now ∉ stream) ∨
    ∀ w ∈ db.webhooks.rows, ¬ w.Subscribed .poolTvlMilestone) :
    db.sent stream = stream.flatMap fun
      | .swapProcessed d now => dispatch db.webhooks now (.swap d)
      | .tvl .. => [] := by
  induction stream generalizing db with
  | nil => rfl
  | cons u stream ih =>
    rw [sent_cons, List.flatMap_cons, ih, handle_webhooks]
    · refine congrArg (· ++ _) ?_
      cases u with
      | swapProcessed d now => rfl
      | tvl pool currentTvlUsd now =>
        rcases h with h | h
        · exact absurd (List.mem_cons_self) (h pool currentTvlUsd now)
        · show (db.alerts now pool currentTvlUsd _).2 = []
          rw [alerts_sent, List.flatMap_eq_nil_iff]
          intro t _
          rw [dispatch, List.map_eq_nil_iff, List.filter_eq_nil_iff]
          intro w hw
          rw [decide_eq_true_iff]
          exact h w hw
    · rw [handle_webhooks]
      exact h.imp_left fun h pool currentTvlUsd now hmem =>
        h pool currentTvlUsd now (List.mem_cons_of_mem _ hmem)

/-- **Settings are respected** exactly if each swap reaches the `largeSwapUsd` of every subscriber
of large swaps, and no value of a pool is checked or nobody subscribes to milestones. -/
theorem respectsSettings_iff (usd : Indexer.SwapProcessedJobData → ℚ) (db : Database)
    (stream : List Update) :
    RespectsSettings usd db stream ↔
      (∀ d now, .swapProcessed d now ∈ stream → ∀ w ∈ db.webhooks.rows, w.Subscribed .swapLarge →
        w.largeSwapUsd ≤ usd d) ∧
      ((∀ pool currentTvlUsd now, .tvl pool currentTvlUsd now ∉ stream) ∨
        ∀ w ∈ db.webhooks.rows, ¬ w.Subscribed .poolTvlMilestone) := by
  constructor
  · intro h
    refine ⟨fun d now hd w hw hsub => h.large w hw d now (swap_mem_sent hw hsub hd), ?_⟩
    by_contra hnot
    obtain ⟨hchecked, hsubscribed⟩ := not_or.mp hnot
    push Not at hchecked hsubscribed
    obtain ⟨pool, currentTvlUsd, now, hu⟩ := hchecked
    obtain ⟨w, hw, hsub⟩ := hsubscribed
    obtain ⟨t, thresholds, hne, hagree, hext, hdue⟩ := exists_extends db w pool currentTvlUsd
    have hlt := hext.sentTo_lt hw hsub hu (hdue _)
    have heq := h.isolated w hw t.ownerWallet hne thresholds hagree
    rw [← length_received, ← length_received, heq] at hlt
    exact absurd hlt (Nat.lt_irrefl _)
  · rintro ⟨hlarge, hquiet⟩
    refine ⟨?_, ?_, ?_⟩
    · intro w hw d now hmem
      obtain ⟨hsub, hd⟩ := of_mem_sent hw hmem
      exact hlarge d now hd w hw hsub
    · intro w hw pool currentTvlUsd t breachedAt now hmem
      obtain ⟨hsub, hu⟩ := of_mem_sent hw hmem
      rcases hquiet with hquiet | hquiet
      · exact absurd hu (hquiet _ _ _)
      · exact absurd hsub (hquiet w hw)
    · intro w _ wallet _ thresholds _
      have hother : ({ db with thresholds } : Database).sent stream = _ := sent_of_quiet hquiet
      rw [hother, sent_of_quiet hquiet]

/-- One webhook of `A`, subscribed to large swaps from 10000 USD on and to milestones, and a
threshold of `B`. -/
def twoWallets : Database where
  webhooks := ⟨[⟨"w", "A", [.swapLarge, .poolTvlMilestone], 10000, false⟩], by decide⟩
  thresholds := ⟨[⟨"t", "pool", "B", 1000, .above, true, none⟩], by decide, by decide⟩
  history := []

/-- The webhook of `A` is sent the breach of the threshold of `B`. -/
theorem not_respectsSettings_twoWallets :
    ¬ ∀ usd db stream, RespectsSettings usd db stream := by
  intro h
  have howned := (h (fun _ => 0) twoWallets [.tvl ⟨"pool", "x", "y"⟩ 2000 0]).owned
    ⟨"w", "A", [.swapLarge, .poolTvlMilestone], 10000, false⟩ (.head _) ⟨"pool", "x", "y"⟩ 2000
    ⟨"t", "pool", "B", 1000, .above, true, none⟩ 0 0 (by decide +kernel)
  exact absurd howned (by decide)

end Swyft.Alerts
