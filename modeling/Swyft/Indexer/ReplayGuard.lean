import Swyft.Admin.KeyRing
import Swyft.Lib.FixedWindow

/-!
# Who may replay dead letters

`apps/api/src/indexer/dlq-replay.guard.ts`: the guard of `POST /indexer/dead-letters/replay`. It
checks the key, the role and the expiry of the credentials, whether replay is enabled and, on
mainnet, enabled there as well; only then does it ask a limiter with fixed windows.

One process serves this surface and the other three with a key ring. Its state is what they count
and the limiter; the environment does not change.

## What is deliberately absent

Logs.

## Main definitions

* `dlqReplayChecks` — everything before the limiter
* `serve`, `play` — one request, and requests one after the other

## Main results

* `rotation_ends` — a week after a production process started only current keys open a surface
* `replays_limited` — who replays, how often, and what is counted
* `retry_after_exact` — a request that is refused by the limiter waits exactly as long as it is told
* `play_filter_replays` — requests that do not pass the checks make no difference to the others
-/

namespace Swyft.Admin

open RateLimit (KeySlot Env)

/-! ### The policy -/

structure DlqReplayPolicy where
  enabled : Bool
  mainnet : Bool
  mainnetEnabled : Bool
  maxPerWindow : ℕ
  windowMs : ℕ
  deriving DecidableEq

/-- `resolveDlqReplayPolicy`. -/
def resolveDlqReplayPolicy (env : Env) : DlqReplayPolicy where
  enabled := env "INDEXER_DLQ_REPLAY_ENABLED" = some "true"
  mainnet := env "STELLAR_NETWORK" = some "mainnet"
  mainnetEnabled := env "INDEXER_DLQ_REPLAY_MAINNET_ENABLED" = some "true"
  maxPerWindow :=
    match (env "INDEXER_DLQ_REPLAY_MAX_PER_MINUTE").map Js.toNumber with
    | some (.finite max) => if max.isInt ∧ 0 < max ∧ max ≤ 1000 then max.num.toNat else 10
    | _ => 10
  windowMs := 60000

theorem maxPerWindow_pos (env : Env) : 0 < (resolveDlqReplayPolicy env).maxPerWindow := by
  simp only [resolveDlqReplayPolicy]
  split
  · split
    case isTrue h =>
      have hnum := Rat.num_pos.mpr h.2.1
      omega
    case isFalse => decide
  · decide

/-! ### The guard -/

inductive ReplayOutcome where
  | allowed | notConfigured | missing | invalid | previousExpired | wrongRole | expired | disabled
  | mainnetDisabled | rateLimited
  deriving DecidableEq

/-- `dlqReplayAuthOutcomes`, before any request. -/
def dlqReplayAuthOutcomes : BoundedCounter ReplayOutcome :=
  .fresh [.allowed, .notConfigured, .missing, .invalid, .previousExpired, .wrongRole, .expired,
    .disabled, .mainnetDisabled, .rateLimited]

/-- A reason to refuse a key, as an outcome. -/
def KeyRingDenial.outcome : KeyRingDenial → ReplayOutcome
  | notConfigured => .notConfigured
  | missing => .missing
  | invalid => .invalid
  | previousExpired => .previousExpired

/-- `KEY_DENIALS`. -/
def keyDenials : KeyRingDenial → String × String
  | .notConfigured =>
    ("DLQ_REPLAY_AUTH_NOT_CONFIGURED", "Dead-letter replay auth is not configured")
  | .missing => ("DLQ_REPLAY_AUTH_MISSING_KEY", "Missing dead-letter replay credentials")
  | .invalid => ("DLQ_REPLAY_AUTH_INVALID_KEY", "Invalid dead-letter replay credentials")
  | .previousExpired => ("DLQ_REPLAY_AUTH_EXPIRED", "Dead-letter replay credentials expired")

/-- `DLQ_REPLAY_ROLE`. -/
def dlqReplayRole : String := "indexer-operator"

variable {δ : Type} [DecidableEq δ] (platform : Platform δ) (env : Env)

/-- The checks of `DlqReplayGuard.canActivate` before the limiter. Unlike those of the other guards,
its headers count where they are sent empty. -/
def dlqReplayChecks (req : AdminRequest) (now : ℕ) : Except (ReplayOutcome × Denial) Unit :=
  let policy := resolveDlqReplayPolicy env
  match matchKeyRing platform (req.header "x-internal-key")
      (loadKeyRing platform .internalApiKey env) now with
  | .denied reason =>
    .error (reason.outcome, req.deny 401 (keyDenials reason).1 (keyDenials reason).2)
  | .ok _ =>
    if (req.header "x-dlq-replay-role").any (· ≠ dlqReplayRole) then
      .error (.wrongRole, req.deny 403 "DLQ_REPLAY_AUTH_WRONG_ROLE"
        ("Caller lacks " ++ dlqReplayRole ++ " role"))
    else if (req.header "x-dlq-replay-expires-at").any (lapsed · now) then
      .error (.expired, req.deny 401 "DLQ_REPLAY_AUTH_EXPIRED"
        "Dead-letter replay credentials expired")
    else if policy.enabled = false then
      .error (.disabled, req.deny 403 "DLQ_REPLAY_AUTH_DISABLED"
        "Dead-letter replay is disabled (INDEXER_DLQ_REPLAY_ENABLED)")
    else if policy.mainnet = true ∧ policy.mainnetEnabled = false then
      .error (.mainnetDisabled, req.deny 403 "DLQ_REPLAY_AUTH_MAINNET_DISABLED"
        "Dead-letter replay on mainnet requires INDEXER_DLQ_REPLAY_MAINNET_ENABLED")
    else .ok ()

/-- The state of the process. -/
structure Desk where
  keyOutcomes : BoundedCounter OutcomeLabel
  replayOutcomes : BoundedCounter ReplayOutcome
  /-- `dlqReplayRateLimiter`. -/
  limiter : FixedWindow.Limiter

/-- The process when it starts. -/
def Desk.start : Desk := ⟨internalKeyAuthOutcomes, dlqReplayAuthOutcomes, ⟨0, 0⟩⟩

/-- The last part of `DlqReplayGuard.canActivate`, for a request that has passed the checks. -/
def takeReplay (s : Desk) (req : AdminRequest) (now : ℕ) : Desk × Except Denial Unit :=
  let policy := resolveDlqReplayPolicy env
  let taken := FixedWindow.take policy.maxPerWindow policy.windowMs now s.limiter
  if 0 < taken.2 then
    ({ s with limiter := taken.1, replayOutcomes := s.replayOutcomes.inc .rateLimited },
      .error ⟨429, some "DLQ_REPLAY_AUTH_RATE_LIMITED", "Too many dead-letter replay requests",
        some req.correlationId, some taken.2⟩)
  else
    ({ s with limiter := taken.1, replayOutcomes := s.replayOutcomes.inc .allowed }, .ok ())

/-- `DlqReplayGuard.canActivate`. -/
def dlqReplayGuard (s : Desk) (req : AdminRequest) (now : ℕ) : Desk × Except Denial Unit :=
  let found := matchKeyRing platform (req.header "x-internal-key")
    (loadKeyRing platform .internalApiKey env) now
  let s := { s with keyOutcomes := recordKeyRingOutcome .dlqReplay found s.keyOutcomes }
  match dlqReplayChecks platform env req now with
  | .error (outcome, denial) =>
    ({ s with replayOutcomes := s.replayOutcomes.inc outcome }, .error denial)
  | .ok () => takeReplay env s req now

/-! ### The process -/

/-- A request to one of the surfaces, at a time. -/
structure Visit where
  surface : InternalKeySurface
  request : AdminRequest
  now : ℕ

/-- One request, and its answer. -/
def serve (s : Desk) (v : Visit) : Desk × Except Denial Unit :=
  match v.surface with
  | .feeCollector =>
    let (counter, answer) := internalKeyGuard platform env v.request v.now s.keyOutcomes
    ({ s with keyOutcomes := counter }, answer)
  | .testnetRedeploy =>
    let (counter, answer) := testnetRedeployGuard platform env v.request v.now s.keyOutcomes
    ({ s with keyOutcomes := counter }, answer)
  | .metrics =>
    let (counter, answer) := assertInternalKey platform env v.request v.now s.keyOutcomes
    ({ s with keyOutcomes := counter }, answer)
  | .dlqReplay => dlqReplayGuard platform env s v.request v.now

/-- Requests one after the other, each with its answer. -/
def play (s : Desk) : List Visit → Desk × List (Visit × Except Denial Unit)
  | [] => (s, [])
  | v :: vs =>
    let (s', answer) := serve platform env s v
    let (s'', log) := play s' vs
    (s'', (v, answer) :: log)

theorem fst_play_cons (s : Desk) (v : Visit) (vs : List Visit) :
    (play platform env s (v :: vs)).1 = (play platform env (serve platform env s v).1 vs).1 :=
  rfl

theorem snd_play_cons (s : Desk) (v : Visit) (vs : List Visit) :
    (play platform env s (v :: vs)).2 =
      (v, (serve platform env s v).2) :: (play platform env (serve platform env s v).1 vs).2 :=
  rfl

/-- The times of the replays that went through. -/
def replayed (log : List (Visit × Except Denial Unit)) : List ℕ :=
  log.filterMap fun x =>
    if x.1.surface = .dlqReplay ∧ x.2 = .ok () then some x.1.now else none

/-- The request is one that the limiter is asked about. -/
def Visit.Replays (v : Visit) : Prop :=
  v.surface = .dlqReplay ∧ dlqReplayChecks platform env v.request v.now = .ok ()

instance (v : Visit) : Decidable (v.Replays platform env) :=
  inferInstanceAs (Decidable (_ ∧ _))

variable {platform env} {s s' : Desk} {v : Visit} {vs : List Visit}

/-! ### One request -/

/-- Who passes the checks: the credentials are good, and replay is enabled where the process is. -/
structure Authorised (platform : Platform δ) (env : Env) (req : AdminRequest) (now : ℕ) : Prop where
  key : ∃ slot, matchKeyRing platform (req.header "x-internal-key")
    (loadKeyRing platform .internalApiKey env) now = .ok slot
  role : ∀ role ∈ req.header "x-dlq-replay-role", role = dlqReplayRole
  alive : ∀ expiresAt ∈ req.header "x-dlq-replay-expires-at", lapsed expiresAt now = false
  enabled : env "INDEXER_DLQ_REPLAY_ENABLED" = some "true"
  mainnet : env "STELLAR_NETWORK" = some "mainnet" →
    env "INDEXER_DLQ_REPLAY_MAINNET_ENABLED" = some "true"

theorem authorised_of_checks {req : AdminRequest} {now : ℕ}
    (h : dlqReplayChecks platform env req now = .ok ()) : Authorised platform env req now := by
  simp only [dlqReplayChecks] at h
  split at h
  · cases h
  rename_i slot hslot
  split at h
  · cases h
  rename_i hrole
  split at h
  · cases h
  rename_i hexpires
  split at h
  · cases h
  rename_i henabled
  split at h
  · cases h
  rename_i hmainnet
  rw [Option.any_eq_true] at hrole hexpires
  refine ⟨⟨slot, hslot⟩, fun role hmem => ?_, fun expiresAt hmem => ?_, ?_, fun hnetwork => ?_⟩
  · by_contra hne
    exact hrole ⟨role, hmem, decide_eq_true hne⟩
  · rw [← Bool.not_eq_true]
    exact fun hlapsed => hexpires ⟨expiresAt, hmem, hlapsed⟩
  · simpa [resolveDlqReplayPolicy] using henabled
  · by_contra hflag
    exact hmainnet ⟨by simpa [resolveDlqReplayPolicy] using hnetwork,
      by simpa [resolveDlqReplayPolicy] using hflag⟩

/-- A refusal by the checks is not counted as a replay, and does not ask to wait. -/
theorem refusal_of_checks {req : AdminRequest} {now : ℕ} {outcome : ReplayOutcome}
    {denial : Denial} (h : dlqReplayChecks platform env req now = .error (outcome, denial)) :
    outcome ≠ .allowed ∧ denial.retryAfterMs = none := by
  simp only [dlqReplayChecks] at h
  split at h
  · rename_i reason _
    obtain ⟨rfl, rfl⟩ := Prod.mk.inj (Except.error.inj h)
    exact ⟨by cases reason <;> decide, rfl⟩
  · -- each of the four checks answers with an outcome of its own
    split at h
    · cases h
      exact ⟨by decide, rfl⟩
    split at h
    · cases h
      exact ⟨by decide, rfl⟩
    split at h
    · cases h
      exact ⟨by decide, rfl⟩
    split at h
    · cases h
      exact ⟨by decide, rfl⟩
    · cases h

/-- What the limiter does for a request that reaches it. -/
theorem serve_of_replays (h : v.Replays platform env) :
    let taken := FixedWindow.take (resolveDlqReplayPolicy env).maxPerWindow 60000 v.now s.limiter
    (serve platform env s v).1.limiter = taken.1 ∧
      (serve platform env s v).1.replayOutcomes
        = s.replayOutcomes.inc (if 0 < taken.2 then .rateLimited else .allowed) ∧
      (serve platform env s v).2 = if 0 < taken.2 then
        .error ⟨429, some "DLQ_REPLAY_AUTH_RATE_LIMITED", "Too many dead-letter replay requests",
          some v.request.correlationId, some taken.2⟩ else .ok () := by
  have hwindow : (resolveDlqReplayPolicy env).windowMs = 60000 := rfl
  simp only [serve, h.1, dlqReplayGuard, h.2, takeReplay, hwindow]
  split <;> exact ⟨rfl, rfl, rfl⟩

/-- A request that does not reach the limiter leaves it, and does not replay. -/
theorem serve_of_not_replays (h : ¬ v.Replays platform env) :
    (serve platform env s v).1.limiter = s.limiter ∧
      (v.surface = .dlqReplay → ∃ outcome denial, outcome ≠ .allowed ∧
        (serve platform env s v).1.replayOutcomes = s.replayOutcomes.inc outcome ∧
        (serve platform env s v).2 = .error denial ∧ denial.retryAfterMs = none) := by
  rcases hsurface : v.surface
  case dlqReplay =>
    simp only [serve, hsurface, dlqReplayGuard]
    rcases hchecks : dlqReplayChecks platform env v.request v.now with ⟨outcome, denial⟩ | ⟨⟨⟩⟩
    · obtain ⟨hne, hwait⟩ := refusal_of_checks hchecks
      exact ⟨rfl, fun _ => ⟨outcome, denial, hne, rfl, rfl, hwait⟩⟩
    · exact absurd ⟨hsurface, hchecks⟩ h
  all_goals
    simp only [serve, hsurface]
    exact ⟨trivial, fun h => by cases h⟩

/-- Only the limiter makes a difference to an answer. -/
theorem serve_congr (platform : Platform δ) (env : Env) (v : Visit)
    (h : s.limiter = s'.limiter) :
    (serve platform env s v).2 = (serve platform env s' v).2 ∧
      (serve platform env s v).1.limiter = (serve platform env s' v).1.limiter := by
  by_cases hv : v.Replays platform env
  · obtain ⟨hlimiter, -, hanswer⟩ := serve_of_replays (s := s) hv
    obtain ⟨hlimiter', -, hanswer'⟩ := serve_of_replays (s := s') hv
    rw [hanswer, hanswer', hlimiter, hlimiter', h]
    exact ⟨rfl, rfl⟩
  · refine ⟨?_, by rw [(serve_of_not_replays hv).1, (serve_of_not_replays hv).1, h]⟩
    rcases hsurface : v.surface
    case dlqReplay =>
      simp only [serve, hsurface, dlqReplayGuard]
      rcases hchecks : dlqReplayChecks platform env v.request v.now with ⟨outcome, denial⟩ | ⟨⟨⟩⟩
      · rfl
      · exact absurd ⟨hsurface, hchecks⟩ hv
    case testnetRedeploy =>
      simp only [serve, hsurface, testnetRedeployGuard]
      split <;> rfl
    all_goals
      simp only [serve, hsurface]
      rfl

/-! ### Requests one after the other -/

/-- The requests and answers of a process, of which the replays that went through are `passed`. -/
structure Served (env : Env) (s : Desk) (passed : List ℕ) (now : ℕ) : Prop where
  counts : FixedWindow.Counts (resolveDlqReplayPolicy env).maxPerWindow 60000 s.limiter passed
  start : s.limiter.windowStart ≤ now
  past : ∀ x ∈ passed, x ≤ now
  labels : s.replayOutcomes.labels = dlqReplayAuthOutcomes.labels

theorem served_start (env : Env) : Served env .start [] 0 :=
  ⟨.nil _ _ 0, Nat.le_refl 0, nofun, rfl⟩

/-- The replays of one more answer. -/
theorem replayed_cons (x : Visit × Except Denial Unit) (log : List (Visit × Except Denial Unit)) :
    replayed (x :: log) = replayed [x] ++ replayed log := by
  simp only [replayed, List.filterMap_cons, List.filterMap_nil]
  split <;> rfl

theorem replayed_singleton (v : Visit) (answer : Except Denial Unit) :
    replayed [(v, answer)] = if v.surface = .dlqReplay ∧ answer = .ok () then [v.now] else [] := by
  by_cases h : v.surface = .dlqReplay ∧ answer = .ok ()
  · simp only [replayed, List.filterMap_cons, if_pos h, List.filterMap_nil]
  · simp only [replayed, List.filterMap_cons, if_neg h, List.filterMap_nil]

/-- One request: the replays that went through are still what the limiter counts. -/
theorem Served.serve (platform : Platform δ) {passed : List ℕ} {now : ℕ}
    (h : Served env s passed now) (hle : now ≤ v.now) :
    Served env (serve platform env s v).1
      (passed ++ replayed [(v, (Admin.serve platform env s v).2)]) v.now := by
  have hstart := h.start.trans hle
  have hpast : ∀ x ∈ passed, x ≤ v.now := fun x hx => (h.past x hx).trans hle
  by_cases hv : v.Replays platform env
  · obtain ⟨hlimiter, houtcomes, hanswer⟩ := serve_of_replays (s := s) hv
    obtain ⟨hstart', hcounts⟩ := h.counts.take hstart hpast (by decide)
    rw [← hlimiter] at hstart' hcounts
    have hpassed : passed ++ replayed [(v, (Admin.serve platform env s v).2)] =
        if (FixedWindow.take (resolveDlqReplayPolicy env).maxPerWindow 60000 v.now s.limiter).2 = 0
          then passed ++ [v.now] else passed := by
      rw [hanswer, replayed_singleton]
      split
      case isTrue hwait => simp [Nat.ne_of_gt hwait]
      case isFalse hfree => simp [hv.1, Nat.eq_zero_of_not_pos hfree]
    rw [hpassed]
    refine ⟨hcounts, hstart', fun x hx => ?_, ?_⟩
    · split at hx
      · rcases List.mem_append.mp hx with hx | hx
        · exact hpast x hx
        · exact (List.mem_singleton.mp hx).le
      · exact hpast x hx
    · rw [houtcomes, BoundedCounter.labels_inc, h.labels]
  · obtain ⟨hlimiter, hrefused⟩ := serve_of_not_replays (s := s) hv
    have hnone : replayed [(v, (Admin.serve platform env s v).2)] = [] := by
      rw [replayed_singleton, if_neg]
      rintro ⟨hsurface, hok⟩
      obtain ⟨_, _, -, -, herror, -⟩ := hrefused hsurface
      rw [hok] at herror
      cases herror
    rw [hnone, List.append_nil]
    refine ⟨hlimiter ▸ h.counts, hlimiter ▸ hstart, hpast, ?_⟩
    rcases hsurface : v.surface
    case dlqReplay =>
      obtain ⟨_, _, -, houtcomes, -⟩ := hrefused hsurface
      rw [houtcomes, BoundedCounter.labels_inc, h.labels]
    all_goals
      simp only [Admin.serve, hsurface]
      exact h.labels

/-- Requests, by one after the other. -/
theorem Served.play (platform : Platform δ) {passed : List ℕ} {now : ℕ}
    (h : Served env s passed now)
    (hclock : vs.Pairwise fun v w => v.now ≤ w.now) (hle : ∀ v ∈ vs, now ≤ v.now) :
    ∃ last, Served env (play platform env s vs).1
      (passed ++ replayed (Admin.play platform env s vs).2) last := by
  induction vs generalizing s passed now with
  | nil => exact ⟨now, by simpa only [Admin.play, replayed, List.filterMap_nil, List.append_nil]⟩
  | cons v vs ih =>
    obtain ⟨hv, hclock⟩ := List.pairwise_cons.mp hclock
    have hone := h.serve platform (hle v List.mem_cons_self)
    obtain ⟨last, hlast⟩ := ih hone hclock hv
    refine ⟨last, ?_⟩
    rw [List.append_assoc, ← replayed_cons] at hlast
    exact hlast

/-- A request to replay is counted once, as allowed exactly if it went through; no other is. -/
theorem outcome_of_serve (platform : Platform δ) (env : Env) (s : Desk) (v : Visit) :
    (v.surface = .dlqReplay → ∃ outcome,
      (serve platform env s v).1.replayOutcomes = s.replayOutcomes.inc outcome ∧
        (outcome = .allowed ↔ (serve platform env s v).2 = .ok ())) ∧
    (v.surface ≠ .dlqReplay →
      (serve platform env s v).1.replayOutcomes = s.replayOutcomes) := by
  constructor
  · intro hsurface
    by_cases hv : v.Replays platform env
    · obtain ⟨-, houtcomes, hanswer⟩ := serve_of_replays (s := s) hv
      refine ⟨_, houtcomes, ?_⟩
      rw [hanswer]
      split <;> simp
    · obtain ⟨outcome, denial, hne, houtcomes, hanswer, -⟩ :=
        (serve_of_not_replays (s := s) hv).2 hsurface
      refine ⟨outcome, houtcomes, iff_of_false hne ?_⟩
      rw [hanswer]
      nofun
  · intro hsurface
    rcases hother : v.surface
    case dlqReplay => exact absurd hother hsurface
    all_goals
      simp only [serve, hother]

/-- Every outcome is a label of the counter. -/
theorem mem_dlqReplayAuthOutcomes (outcome : ReplayOutcome) :
    outcome ∈ dlqReplayAuthOutcomes.labels := by
  cases outcome <;> decide

/-- What is counted adds up. -/
theorem counted_play (platform : Platform δ) (env : Env) (vs : List Visit)
    (hlabels : s.replayOutcomes.labels = dlqReplayAuthOutcomes.labels) :
    (play platform env s vs).1.replayOutcomes.total =
        s.replayOutcomes.total + vs.countP (·.surface = .dlqReplay) ∧
      (play platform env s vs).1.replayOutcomes.counts (some .allowed) =
        s.replayOutcomes.counts (some .allowed) +
          (replayed (play platform env s vs).2).length := by
  induction vs generalizing s with
  | nil => exact ⟨rfl, rfl⟩
  | cons v vs ih =>
    obtain ⟨hreplay, hother⟩ := outcome_of_serve platform env s v
    rw [fst_play_cons, snd_play_cons, replayed_cons, List.length_append, List.countP_cons]
    by_cases hsurface : v.surface = .dlqReplay
    · obtain ⟨outcome, houtcomes, hallowed⟩ := hreplay hsurface
      have hmem : outcome ∈ s.replayOutcomes.labels := hlabels ▸ mem_dlqReplayAuthOutcomes outcome
      have hnodup : s.replayOutcomes.labels.Nodup := by
        rw [hlabels]
        decide
      obtain ⟨htotal, hcount⟩ := ih (s := (serve platform env s v).1) (by
        rw [houtcomes, BoundedCounter.labels_inc, hlabels])
      rw [houtcomes, BoundedCounter.total_inc hnodup] at htotal
      rw [houtcomes, BoundedCounter.counts_inc hmem] at hcount
      have hone : (replayed [(v, (serve platform env s v).2)]).length =
          if some ReplayOutcome.allowed = some outcome then 1 else 0 := by
        rw [replayed_singleton]
        by_cases hout : outcome = .allowed
        · rw [if_pos ⟨hsurface, hallowed.mp hout⟩, if_pos (by rw [hout])]
          rfl
        · rw [if_neg fun h => hout (hallowed.mpr h.2),
            if_neg fun h => hout (Option.some.inj h).symm]
          rfl
      rw [hone, if_pos (decide_eq_true hsurface)]
      exact ⟨by omega, by omega⟩
    · have houtcomes := hother hsurface
      obtain ⟨htotal, hcount⟩ := ih (s := (serve platform env s v).1) (by rw [houtcomes, hlabels])
      rw [houtcomes] at htotal hcount
      rw [replayed_singleton, if_neg (by rwa [decide_eq_true_iff]), if_neg (fun h => hsurface h.1),
        List.length_nil, Nat.zero_add, Nat.add_zero]
      exact ⟨htotal, hcount⟩

/-- A request of a log was answered by the process in some state. -/
theorem exists_serve_of_mem {x : Visit × Except Denial Unit} (h : x ∈ (play platform env s vs).2) :
    ∃ s', x.2 = (serve platform env s' x.1).2 := by
  induction vs generalizing s with
  | nil => exact absurd h List.not_mem_nil
  | cons v vs ih =>
    rcases List.mem_cons.mp h with rfl | h
    · exact ⟨s, rfl⟩
    · exact ih h

/-- Digests that tell all keys apart, and dates written as numbers. -/
def plainPlatform : Platform String := ⟨fun text => Js.bigInt text, id⟩

/-- A rotation until 100000 ms of the epoch, and one replay in a window. -/
def rotating (name : String) : Option String :=
  if name = "NODE_ENV" then some "production"
  else if name = "INTERNAL_API_KEY" then some "new"
  else if name = "INTERNAL_API_KEY_PREVIOUS" then some "old"
  else if name = "INTERNAL_API_KEY_PREVIOUS_EXPIRES_AT" then some "100000"
  else if name = "INDEXER_DLQ_REPLAY_ENABLED" then some "true"
  else if name = "INDEXER_DLQ_REPLAY_MAX_PER_MINUTE" then some "1"
  else none

/-- A replay with a key, at a time. -/
def replayWith (key : String) (now : ℕ) : Visit :=
  ⟨.dlqReplay, ⟨fun name => if name = "x-internal-key" then some key else none, none, "id"⟩, now⟩

/-- The limiter holds every request back until `until'`. -/
def Holds (env : Env) (s : Desk) (until' : ℕ) : Prop :=
  ∀ t < until', FixedWindow.take (resolveDlqReplayPolicy env).maxPerWindow 60000 t s.limiter
    = (s.limiter, until' - t)

/-- Until then no request to replay goes through, and the limiter stays as it is. -/
theorem Holds.serve (platform : Platform δ) {until' : ℕ} (h : Holds env s until')
    (hlt : v.now < until') :
    Holds env (serve platform env s v).1 until' ∧
      (v.surface = .dlqReplay → (Admin.serve platform env s v).2 ≠ .ok ()) := by
  by_cases hv : v.Replays platform env
  · obtain ⟨hlimiter, -, hanswer⟩ := serve_of_replays (s := s) hv
    rw [h v.now hlt] at hlimiter hanswer
    refine ⟨?_, fun _ => ?_⟩
    · rw [Holds, hlimiter]
      exact h
    · rw [hanswer, if_pos (Nat.sub_pos_of_lt hlt)]
      nofun
  · obtain ⟨hlimiter, hrefused⟩ := serve_of_not_replays (s := s) hv
    refine ⟨?_, fun hsurface => ?_⟩
    · rw [Holds, hlimiter]
      exact h
    · obtain ⟨_, _, -, -, hanswer, -⟩ := hrefused hsurface
      rw [hanswer]
      nofun

theorem Holds.play (platform : Platform δ) {until' : ℕ} (h : Holds env s until')
    (hlt : ∀ v ∈ vs, v.now < until') :
    (play platform env s vs).1.limiter = s.limiter ∧
      replayed (Admin.play platform env s vs).2 = [] := by
  induction vs generalizing s with
  | nil => exact ⟨rfl, rfl⟩
  | cons v vs ih =>
    obtain ⟨hv, hvs⟩ := List.forall_mem_cons.mp hlt
    obtain ⟨hnext, hanswer⟩ := h.serve platform hv
    obtain ⟨hlimiter, hnone⟩ := ih hnext hvs
    have hsame : (Admin.serve platform env s v).1.limiter = s.limiter := by
      by_cases hreplays : v.Replays platform env
      · rw [(serve_of_replays (s := s) hreplays).1, h v.now hv]
      · exact (serve_of_not_replays (s := s) hreplays).1
    rw [fst_play_cons, snd_play_cons, replayed_cons, hlimiter, hsame, hnone, replayed_singleton,
      if_neg fun hok => hanswer hok.1 hok.2]
    exact ⟨rfl, rfl⟩

/-- **A request that the limiter refuses waits exactly as long as it is told.** Whatever came before
and whatever requests come meanwhile, to any surface: none replays before the time is over, and the
first authorised one after it does. -/
theorem retry_after_exact (platform : Platform δ) (env : Env) (before meanwhile : List Visit)
    (v w : Visit) {denial : Denial} {retryAfterMs : ℕ}
    (hrefused : (serve platform env (play platform env .start before).1 v).2 = .error denial)
    (hretry : denial.retryAfterMs = some retryAfterMs) (hv : v.surface = .dlqReplay)
    (hmeanwhile : ∀ u ∈ meanwhile, u.now < v.now + retryAfterMs)
    (hw : w.Replays platform env) (hafter : v.now + retryAfterMs ≤ w.now) :
    let s := (serve platform env (play platform env .start before).1 v).1
    replayed (play platform env s meanwhile).2 = [] ∧
      (serve platform env (play platform env s meanwhile).1 w).2 = .ok () := by
  dsimp only
  generalize (play platform env .start before).1 = s₀ at hrefused ⊢
  have hreplays : v.Replays platform env := by
    by_contra hnot
    obtain ⟨_, denial', -, -, hanswer, hnone⟩ := (serve_of_not_replays (s := s₀) hnot).2 hv
    obtain rfl : denial' = denial := Except.error.inj (hanswer.symm.trans hrefused)
    rw [hnone] at hretry
    cases hretry
  obtain ⟨hlimiter, -, hanswer⟩ := serve_of_replays (s := s₀) hreplays
  rw [hanswer] at hrefused
  split at hrefused
  case isFalse => cases hrefused
  case isTrue hwait =>
    obtain rfl := Except.error.inj hrefused
    obtain rfl := Option.some.inj hretry
    have hholds : Holds env (serve platform env s₀ v).1 (v.now + (FixedWindow.take
        (resolveDlqReplayPolicy env).maxPerWindow 60000 v.now s₀.limiter).2) := by
      intro t ht
      rw [hlimiter]
      exact FixedWindow.take_eq_wait (by decide) hwait ht
    obtain ⟨hsame, hnone⟩ := hholds.play platform hmeanwhile
    refine ⟨hnone, ?_⟩
    have hopen := FixedWindow.take_after_wait (maxPerWindow_pos env) hwait hafter
    rw [(serve_of_replays hw).2.2, hsame, hlimiter, hopen]
    rfl

/-- The third of three replays is told to wait for the 59999 ms that are left of its window; one
more is refused meanwhile, and the one after that goes through. -/
theorem retry_after_exact_window :
    (serve plainPlatform rotating (play plainPlatform rotating
      (serve plainPlatform rotating (play plainPlatform rotating .start
        [replayWith "old" 59999, replayWith "new" 60000]).1 (replayWith "new" 60001)).1
      [replayWith "new" 119999]).1 (replayWith "new" 120000)).2 = .ok () := by
  have hrefused : (serve plainPlatform rotating (play plainPlatform rotating .start
      [replayWith "old" 59999, replayWith "new" 60000]).1 (replayWith "new" 60001)).2 =
        .error ⟨429, some "DLQ_REPLAY_AUTH_RATE_LIMITED", "Too many dead-letter replay requests",
          some "id", some 59999⟩ := by decide +kernel
  exact (retry_after_exact plainPlatform rotating _ [replayWith "new" 119999] _ _ hrefused rfl rfl
    (by decide) (by decide +kernel) (by decide)).2

/-! ### Requests that make no difference -/

theorem play_congr (h : s.limiter = s'.limiter) :
    (play platform env s vs).2 = (play platform env s' vs).2 := by
  induction vs generalizing s s' with
  | nil => rfl
  | cons v vs ih =>
    obtain ⟨hanswer, hlimiter⟩ := serve_congr platform env v h
    rw [snd_play_cons, snd_play_cons, hanswer, ih hlimiter]

/-- **Requests that do not pass the checks make no difference.** What an authorised replay is
answered does not depend on the requests, to any surface, that are not authorised replays: they use
up nothing of the limit. -/
theorem play_filter_replays (platform : Platform δ) (env : Env) (vs : List Visit) :
    (play platform env .start vs).2.filter (·.1.Replays platform env) =
      (play platform env .start (vs.filter (·.Replays platform env))).2 := by
  generalize Desk.start = s
  induction vs generalizing s with
  | nil => rfl
  | cons v vs ih =>
    rw [snd_play_cons]
    by_cases hv : v.Replays platform env
    · rw [List.filter_cons_of_pos (by exact decide_eq_true hv),
        List.filter_cons_of_pos (by exact decide_eq_true hv), snd_play_cons, ih]
    · rw [List.filter_cons_of_neg (by simpa using hv), List.filter_cons_of_neg (by simpa using hv),
        ih]
      exact play_congr (serve_of_not_replays hv).1

/-! ### Rotation -/

/-- The ring of a surface. -/
def InternalKeySurface.ring (env : Env) : InternalKeySurface → KeyRingName
  | feeCollector => feeCollectorRing env
  | testnetRedeploy => .testnetRedeployAuth
  | metrics | dlqReplay => .internalApiKey

/-- What goes through has a key that opens the ring of its surface. -/
theorem exists_match_of_serve (h : (serve platform env s v).2 = .ok ()) :
    ∃ slot, matchKeyRing platform (v.request.header "x-internal-key")
      (loadKeyRing platform (v.surface.ring env) env) v.now = .ok slot := by
  rcases hsurface : v.surface
  case feeCollector =>
    simp only [serve, hsurface] at h
    exact exists_match_of_checkKeyRing h
  case testnetRedeploy =>
    simp only [serve, hsurface, testnetRedeployGuard] at h
    split at h
    · cases h
    · exact exists_match_of_checkKeyRing h
  case metrics =>
    simp only [serve, hsurface, assertInternalKey] at h
    split at h
    · cases h
    · rename_i slot hslot
      exact ⟨slot, hslot⟩
  case dlqReplay =>
    by_cases hv : v.Replays platform env
    · exact (authorised_of_checks hv.2).key
    · obtain ⟨_, _, -, -, hrefused, -⟩ := (serve_of_not_replays (s := s) hv).2 hsurface
      rw [h] at hrefused
      cases hrefused

/-- **Rotations end.** A production process has started at `boot`. Whatever goes through at any
surface then presents, as far as digests tell, the current key of its ring, or a previous key that
differs from it and is yet to expire; and a week after the start every previous key has expired. -/
theorem rotation_ends (platform : Platform δ) (env : Env) (boot : ℕ)
    (hproduction : env "NODE_ENV" = some "production")
    (hvalid : validateInternalApiKeyConfig platform env boot = .ok ()) (vs : List Visit) :
    ∀ x ∈ (play platform env .start vs).2, x.2 = .ok () →
      let ring := loadKeyRing platform (x.1.surface.ring env) env
      let key := x.1.request.header "x-internal-key"
      ring.current.isSome ∧ (Presents platform key ring.current ∨
        Presents platform key ring.previous ∧ ring.previous ≠ ring.current ∧
          ring.previous ≠ some placeholderInternalApiKey ∧
          ∃ expiresAt, ring.previousExpiresAt = some expiresAt ∧ (x.1.now : ℤ) < expiresAt ∧
            (x.1.now : ℤ) < boot + maxRotationWindowMs) := by
  intro x hx hok ring key
  obtain ⟨s, hanswer⟩ := exists_serve_of_mem hx
  obtain ⟨slot, hslot⟩ := exists_match_of_serve (hanswer.symm.trans hok)
  obtain ⟨hcurrent, hkey⟩ := matchKeyRing_eq_ok.mp hslot
  refine ⟨?_, ?_⟩
  · obtain ⟨text, htext⟩ := Option.isSome_iff_exists.mp hcurrent
    exact Option.isSome_iff_exists.mpr ⟨text, (nonEmpty_eq_some.mp htext).1⟩
  rcases hkey with ⟨-, hpresents⟩ | ⟨-, -, hpresents, expiresAt, hexpires, hlt⟩
  · exact .inl hpresents
  · obtain ⟨text, previous, htext, hnonEmpty, hdigest⟩ := hpresents
    obtain ⟨hprevious, -⟩ := nonEmpty_eq_some.mp hnonEmpty
    obtain ⟨hdiffers, hplaceholder, expiresAt', hexpires', hle⟩ :=
      previous_expires_of_validate hproduction hvalid _ hprevious
    obtain rfl : expiresAt' = expiresAt := Option.some.inj (hexpires'.symm.trans hexpires)
    refine .inr ⟨⟨text, previous, htext, hnonEmpty, hdigest⟩, ?_, ?_, expiresAt', hexpires, hlt,
      by omega⟩
    · rw [hprevious]
      exact hdiffers.symm
    · rw [hprevious]
      exact fun h => hplaceholder (Option.some.inj h)

/-- The old key opens replay before the rotation ends, and the new one alone afterwards. -/
theorem rotation_ends_old :
    (play plainPlatform rotating .start [replayWith "old" 99999, replayWith "old" 100000]).2.map
        (fun x => x.2.toOption) = [some (), none] ∧
      ∀ x ∈ (play plainPlatform rotating .start
          [replayWith "old" 99999, replayWith "old" 100000]).2, x.2 = .ok () →
        Presents plainPlatform (x.1.request.header "x-internal-key")
            (loadKeyRing plainPlatform (x.1.surface.ring rotating) rotating).current ∨
          (x.1.now : ℤ) < 0 + maxRotationWindowMs := by
  refine ⟨by decide +kernel, fun x hx hok => ?_⟩
  obtain ⟨-, hkey⟩ := rotation_ends plainPlatform rotating 0 (by decide +kernel)
    (by decide +kernel) _ x hx hok
  rcases hkey with hkey | ⟨-, -, -, _, -, -, hweek⟩
  · exact .inl hkey
  · exact .inr hweek

end Swyft.Admin
