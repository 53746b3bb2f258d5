import Swyft.Js
import Swyft.Lib.Interleaving
import Swyft.Lib.Separators
import Mathlib.Logic.Function.Basic

/-!
# Rate limits

`apps/api/src/rate-limit/rate-limit.middleware.ts`: a request is counted in Redis under a global
rule and, if its path belongs to a group, under the rule of the group as well. A counter belongs to
a rule, a caller and a group of routes. It is incremented, is given its time to live by the request
that created it, and the time it has left is asked for, with one Redis command each.

The count under one rule is a process. Between two of its commands any other may run and time may
pass. A command is carried out and answered, or carried out without its answer being heard, or not
carried out; in the latter two cases the request is not counted any further. The process of the API
may stop at any such point as well.

## What is deliberately absent

The key ring of internal callers: a request comes with the slot that its key matched. Limits beyond
the range in which numbers are exact. Bodies of responses.

## Main results

* `useHits_eq_next_iff` — a request goes through exactly if none of its rules is exceeded
* `key_inj` — no two scopes share a counter
-/

namespace Swyft.RateLimit

open Interleaving

/-! ### Requests -/

inductive KeySlot where
  | current | previous
  deriving DecidableEq

/-- What the middleware reads of a request. -/
structure Request where
  method : String
  path : String
  /-- The slot of the key ring that `x-internal-key` matched. -/
  internalSlot : Option KeySlot
  /-- `x-forwarded-for`, if it is one text. -/
  forwarded : Option String
  ip : Option String
  remoteAddress : Option String
  deriving DecidableEq

def Request.isInternal (req : Request) : Bool := req.internalSlot.isSome

/-- A public request that belongs to no group. -/
def getPools : Request := ⟨"GET", "/pools", none, none, some "192.0.2.1", none⟩

/-- `unversionedPath`: a version in front, such as `/v1`, is taken off. -/
def unversionedPath (path : String) : String :=
  match path.toList with
  | '/' :: 'v' :: cs =>
    let digits := Js.leadingDigits cs
    match digits, cs.drop digits.length with
    | [], _ => path
    | _, [] => "/"
    | _, '/' :: rest => String.ofList ('/' :: rest)
    | _, _ => path
  | [] => "/"
  | _ => path

/-- The parts of a path between its slashes. -/
def segments (path : String) : List String := (path.toList.splitOn '/').map String.ofList

/-- `/^\/prices\/[^/]+\/[^/]+\/candles\/?$/`. -/
def isCandlesPath (path : String) : Bool :=
  match segments path with
  | ["", "prices", base, quote, "candles"] | ["", "prices", base, quote, "candles", ""] =>
    base ≠ "" && quote ≠ ""
  | _ => false

/-- `/^\/pools\/[^/]+\/ticks\/?$/`. -/
def isTicksPath (path : String) : Bool :=
  match segments path with
  | ["", "pools", id, "ticks"] | ["", "pools", id, "ticks", ""] => id ≠ ""
  | _ => false

def startsWith (start path : String) : Bool := start.toList.isPrefixOf path.toList

/-! ### Rules -/

/-- A rule for all requests or for those of a group. -/
inductive Group where
  | global | candles | authNonce | auth | transactions | ticks
  deriving DecidableEq

/-- The name of the public rule. -/
def Group.name : Group → String
  | global => "global"
  | candles => "candles"
  | authNonce => "auth-nonce"
  | auth => "auth"
  | transactions => "transactions"
  | ticks => "ticks"

/-- The variable with the public limit. -/
def Group.variable : Group → String
  | global => "RATE_LIMIT_PER_MINUTE"
  | candles => "CANDLE_RATE_LIMIT_PER_MINUTE"
  | authNonce => "NONCE_RATE_LIMIT_PER_MINUTE"
  | auth => "AUTH_RATE_LIMIT_PER_MINUTE"
  | transactions => "TRANSACTION_RATE_LIMIT_PER_MINUTE"
  | ticks => "TICKS_RATE_LIMIT_PER_MINUTE"

/-- The public limit and the internal one, where no variable sets them. -/
def Group.fallbacks : Group → ℕ × ℕ
  | global => (300, 1200)
  | candles => (60, 240)
  | authNonce => (5, 30)
  | auth => (10, 60)
  | transactions => (20, 120)
  | ticks => (30, 120)

structure RateLimitRule where
  name : String
  limit : ℕ
  windowSeconds : ℕ
  deriving DecidableEq

/-- The variables of the environment. -/
abbrev Env := String → Option String

/-- `envInt`. -/
def envInt (env : Env) (name : String) (fallback : ℕ) : ℕ :=
  match Js.parseInt10 ((env name).getD "") with
  | some parsed => if 0 < parsed then parsed.toNat else fallback
  | none => fallback

/-- The name of the rule of a group, internal or public. -/
def ruleName (internal : Bool) (g : Group) : String :=
  if internal then "internal-" ++ g.name else g.name

/-- The rule of a group, internal or public. -/
def rule (env : Env) (internal : Bool) (g : Group) : RateLimitRule where
  name := ruleName internal g
  limit :=
    if internal then envInt env ("INTERNAL_" ++ g.variable) g.fallbacks.2
    else envInt env g.variable g.fallbacks.1
  windowSeconds := 60

/-- `endpointRuleFor`, up to which rule it is. -/
def endpointGroup (req : Request) : Option Group :=
  let path := unversionedPath req.path
  if isCandlesPath path then some .candles
  else if req.method = "POST" ∧ path = "/auth/nonce" then some .authNonce
  else if startsWith "/auth" path then some .auth
  else if path = "/transactions" ∧ req.method = "POST" then some .transactions
  else if isTicksPath path then some .ticks
  else none

/-- `rulesFor`, up to which rules they are. -/
def groupsFor (req : Request) : List Group := .global :: (endpointGroup req).toList

/-- `rulesFor`. -/
def rulesFor (env : Env) (req : Request) : List RateLimitRule :=
  (groupsFor req).map (rule env req.isInternal)

/-- `publicRuleFor`. -/
def publicRuleFor (env : Env) (req : Request) : RateLimitRule :=
  rule env false ((endpointGroup req).getD .global)

/-! ### Scopes -/

inductive Bucket where
  | pricesCandles | authNonce | auth | transactions | poolsTicks | global
  deriving DecidableEq

def Bucket.name : Bucket → String
  | pricesCandles => "prices-candles"
  | authNonce => "auth-nonce"
  | auth => "auth"
  | transactions => "transactions"
  | poolsTicks => "pools-ticks"
  | global => "global"

/-- `routeBucketFor`. -/
def routeBucketFor (req : Request) : Bucket :=
  let path := unversionedPath req.path
  if isCandlesPath path then .pricesCandles
  else if req.method = "POST" ∧ path = "/auth/nonce" then .authNonce
  else if startsWith "/auth" path then .auth
  else if path = "/transactions" then .transactions
  else if isTicksPath path then .poolsTicks
  else .global

/-- `identityFor`. -/
def identityFor (req : Request) : String :=
  match req.internalSlot with
  | some .current => "internal:current"
  | some .previous => "internal:previous"
  | none =>
    match req.forwarded with
    | some forwarded =>
      if forwarded ≠ "" then
        String.ofList (Js.trim (forwarded.toList.takeWhile (· ≠ ',')))
      else (req.ip.or req.remoteAddress).getD "unknown"
    | none => (req.ip.or req.remoteAddress).getD "unknown"

/-- What is counted together: the requests of a caller to a group of routes under a rule. -/
structure Scope where
  internal : Bool
  group : Group
  identity : String
  bucket : Bucket
  deriving DecidableEq

/-- The scopes in which a request is counted. -/
def scopesFor (req : Request) : List Scope :=
  (groupsFor req).map fun g => ⟨req.isInternal, g, identityFor req, routeBucketFor req⟩

def Scope.rule (env : Env) (scope : Scope) : RateLimitRule :=
  RateLimit.rule env scope.internal scope.group

/-- The key of a scope. -/
def Scope.key (scope : Scope) : String :=
  "rate-limit:" ++ ruleName scope.internal scope.group ++ ":" ++ scope.identity ++ ":" ++
    scope.bucket.name

/-! ### Redis -/

/-- A counter. It has been incremented, and is gone once the time at which it expires is over. The
counters that a key has had are numbered, which is no part of Redis. -/
structure Counter where
  count : ℕ
  pos : 0 < count
  expiresAt : Option ℕ
  number : ℕ
  deriving DecidableEq

/-- The counters, of which some may be over, and the time in milliseconds. -/
structure Redis where
  counters : String → Option Counter
  now : ℕ

namespace Redis

def start : Redis := ⟨fun _ => none, 0⟩

/-- A counter that is not over. -/
def IsLive (now : ℕ) (c : Counter) : Prop := ∀ t ∈ c.expiresAt, now ≤ t

instance (now : ℕ) : DecidablePred (IsLive now) := fun c =>
  inferInstanceAs (Decidable (∀ t ∈ c.expiresAt, now ≤ t))

/-- The counter of a key. -/
def live (r : Redis) (key : String) : Option Counter :=
  (r.counters key).filter fun c => IsLive r.now c

/-- The number of the next counter of a key. -/
def nextNumber (r : Redis) (key : String) : ℕ :=
  match r.counters key with
  | some c => c.number + 1
  | none => 0

/-- The counter that `INCR` leaves. -/
def incremented (r : Redis) (key : String) : Counter :=
  match r.live key with
  | some c => { c with count := c.count + 1, pos := Nat.succ_pos c.count }
  | none => ⟨1, Nat.one_pos, none, r.nextNumber key⟩

/-- `INCR`. -/
def incr (r : Redis) (key : String) : Redis :=
  { r with counters := Function.update r.counters key (some (r.incremented key)) }

/-- `EXPIRE`. -/
def expire (r : Redis) (key : String) (seconds : ℕ) : Redis :=
  match r.live key with
  | some c =>
    let c := { c with expiresAt := some (r.now + 1000 * seconds) }
    { r with counters := Function.update r.counters key (some c) }
  | none => r

/-- `TTL`, in seconds to the nearest. -/
def ttl (r : Redis) (key : String) : ℤ :=
  match r.live key with
  | none => -2
  | some c =>
    match c.expiresAt with
    | none => -1
    | some t => (t - r.now + 500) / 1000

end Redis

/-! ### Hits -/

/-- `RateLimitHit`. -/
structure RateLimitHit where
  rule : RateLimitRule
  remaining : ℕ
  resetSeconds : ℤ
  exceeded : Bool
  deriving DecidableEq

/-- What `hit` has still to do. -/
inductive Stage where
  | incr
  | expire (total : ℕ)
  | ttl (total : ℕ)
  deriving DecidableEq

/-- A count under a rule that is under way. -/
structure Hit where
  scope : Scope
  stage : Stage
  deriving DecidableEq

/-- What becomes of a command. -/
inductive Fate where
  | answered
  /-- It is carried out, but that is not heard, or the process stops. -/
  | unheard
  | refused
  deriving DecidableEq

/-- What is seen: a request is counted, or all its commands have been answered. -/
inductive Seen where
  | counted (scope : Scope) (time number total : ℕ)
  | evaluated (scope : Scope) (hit : RateLimitHit)
  deriving DecidableEq

inductive Occurrence where
  | request (req : Request)
  | pass (milliseconds : ℕ)
  deriving DecidableEq

/-- What `hit` returns. -/
def hitOf (rule : RateLimitRule) (total : ℕ) (ttl : ℤ) : RateLimitHit where
  rule := rule
  remaining := rule.limit - total
  resetSeconds := if 0 < ttl then ttl else rule.windowSeconds
  exceeded := rule.limit < total

/-- What is left of `hit` after `INCR`, if that is answered. -/
def afterIncr (scope : Scope) (total : ℕ) : Fate → List Hit
  | .answered => [⟨scope, if total = 1 then .expire total else .ttl total⟩]
  | _ => []

/-- What is left of `hit` after `EXPIRE`, if that is answered. -/
def afterExpire (scope : Scope) (total : ℕ) : Fate → List Hit
  | .answered => [⟨scope, .ttl total⟩]
  | _ => []

/-- One command of `hit`. -/
def step (env : Env) (r : Redis) (h : Hit) (fate : Fate) :
    Option (Redis × List Hit × List Seen) :=
  let key := h.scope.key
  match h.stage, fate with
  | _, .refused => some (r, [], [])
  | .incr, fate =>
    let c := r.incremented key
    some (r.incr key, afterIncr h.scope c.count fate, [.counted h.scope r.now c.number c.count])
  | .expire total, fate =>
    some (r.expire key (h.scope.rule env).windowSeconds, afterExpire h.scope total fate, [])
  | .ttl _, .unheard => some (r, [], [])
  | .ttl total, .answered =>
    some (r, [], [.evaluated h.scope (hitOf (h.scope.rule env) total (r.ttl key))])

/-- `/health` and the metrics are not counted. -/
def isBypassed (path : String) : Bool := path = "/health" || startsWith "/metrics" path

/-- A request begins to be counted, or time passes. -/
def outside (r : Redis) : Occurrence → Option (Redis × List Hit × List Seen)
  | .request req =>
    if isBypassed req.path then some (r, [], [])
    else some (r, (scopesFor req).map fun scope => ⟨scope, .incr⟩, [])
  | .pass milliseconds => some ({ r with now := r.now + milliseconds }, [], [])

/-- The rules of the middleware and Redis. -/
def rules (env : Env) : Rules Redis Hit Fate Occurrence Seen := ⟨step env, outside⟩

/-! ### Responses -/

/-- `effectiveHit`. -/
def effectiveHit (first : RateLimitHit) (rest : List RateLimitHit) : RateLimitHit :=
  match (first :: rest).find? (·.exceeded) with
  | some hit => hit
  | none => rest.foldl (fun lowest hit => if hit.remaining < lowest.remaining then hit else lowest)
      first

/-- What a response says of the limit. -/
structure Headers where
  limit : ℕ
  remaining : ℕ
  resetSeconds : ℤ
  deriving DecidableEq

/-- What becomes of a request: it goes on, or it is answered. -/
inductive Outcome where
  | next (headers : Option Headers)
  | tooManyRequests (headers : Headers) (retryAfter : ℤ)
  | unavailable
  deriving DecidableEq

/-- `use`, once all hits are there. -/
def useHits (first : RateLimitHit) (rest : List RateLimitHit) : Outcome :=
  let effective := effectiveHit first rest
  let headers : Headers := ⟨effective.rule.limit, effective.remaining, effective.resetSeconds⟩
  if effective.exceeded then .tooManyRequests headers effective.resetSeconds
  else .next (some headers)

/-- `handleRedisUnavailable`. -/
def handleRedisUnavailable (env : Env) (req : Request) : Outcome :=
  if env "NODE_ENV" = some "production" then .unavailable
  else .next (some ⟨(publicRuleFor env req).limit, 0, 0⟩)

/-- `use`: the hits, or nothing where a command failed or there is no connection. -/
def use (env : Env) (req : Request) (hits : Option (RateLimitHit × List RateLimitHit)) : Outcome :=
  if isBypassed req.path then .next none
  else
    match hits with
    | some (first, rest) => useHits first rest
    | none => handleRedisUnavailable env req

/-- The hit with the fewest requests remaining is one of the hits. -/
theorem foldl_lowest_mem (first : RateLimitHit) (rest : List RateLimitHit) :
    rest.foldl (fun lowest hit => if hit.remaining < lowest.remaining then hit else lowest) first ∈
      first :: rest := by
  induction rest generalizing first with
  | nil => exact .head _
  | cons hit rest ih =>
    rw [List.foldl_cons]
    rcases List.mem_cons.mp (ih (if hit.remaining < first.remaining then hit else first)) with h | h
    · rw [h]
      split
      · exact .tail _ (.head _)
      · exact .head _
    · exact .tail _ (.tail _ h)

/-- **A request goes through exactly if none of its rules is exceeded.** -/
theorem useHits_eq_next_iff (first : RateLimitHit) (rest : List RateLimitHit) :
    (∃ headers, useHits first rest = .next headers) ↔
      ∀ hit ∈ first :: rest, hit.exceeded = false := by
  have hnext : (∃ headers, useHits first rest = .next headers) ↔
      (effectiveHit first rest).exceeded = false := by
    rw [useHits]
    split
    · rename_i hexceeded
      simp [hexceeded]
    · rename_i hexceeded
      simpa using hexceeded
  rw [hnext, effectiveHit]
  split
  · rename_i hit hfind
    have hexceeded := List.find?_some hfind
    refine iff_of_false (by simpa using hexceeded) fun hall => ?_
    rw [hall hit (List.mem_of_find?_eq_some hfind)] at hexceeded
    cases hexceeded
  · rename_i hnone
    have hall : ∀ hit ∈ first :: rest, hit.exceeded = false := by simpa using hnone
    exact iff_of_true (hall _ (foldl_lowest_mem first rest)) hall

/-! ### Keys -/

theorem groupName_inj {g g' : Group} (h : g.name = g'.name) : g = g' := by
  revert h
  cases g <;> cases g' <;> decide

/-- No public rule has a name such as those of the internal ones. -/
theorem internalName_ne (g g' : Group) : "internal-" ++ g.name ≠ g'.name := by
  intro h
  have hprefix : "internal-".toList <+: g'.name.toList := by
    rw [← h, String.toList_append]
    exact List.prefix_append _ _
  revert hprefix
  cases g' <;> decide

/-- No rule has the name of another. -/
theorem ruleName_inj {internal internal' : Bool} {g g' : Group}
    (h : ruleName internal g = ruleName internal' g') : internal = internal' ∧ g = g' := by
  cases internal with
  | false =>
    cases internal' with
    | false => exact ⟨rfl, groupName_inj h⟩
    | true => exact absurd h.symm (internalName_ne g' g)
  | true =>
    cases internal' with
    | false => exact absurd h (internalName_ne g g')
    | true => exact ⟨rfl, groupName_inj ((String.append_right_inj _).mp h)⟩

theorem colon_notMem_ruleName (internal : Bool) (g : Group) :
    ':' ∉ (ruleName internal g).toList := by
  cases internal <;> cases g <;> decide

theorem colon_notMem_bucketName (b : Bucket) : ':' ∉ b.name.toList := by
  cases b <;> decide

theorem bucketName_inj {b b' : Bucket} (h : b.name = b'.name) : b = b' := by
  revert h
  cases b <;> cases b' <;> decide

theorem toList_key (scope : Scope) :
    scope.key.toList = "rate-limit:".toList ++ ((ruleName scope.internal scope.group).toList ++
      ':' :: (scope.identity.toList ++ ':' :: scope.bucket.name.toList)) := by
  have hcolon : ":".toList = [':'] := rfl
  show ("rate-limit:" ++ ruleName scope.internal scope.group ++ ":" ++ scope.identity ++ ":" ++
    scope.bucket.name).toList = _
  simp only [String.toList_append, List.append_assoc, hcolon, List.cons_append, List.nil_append]

/-- **No two scopes share a counter.** -/
theorem key_inj {scope scope' : Scope} (h : scope.key = scope'.key) : scope = scope' := by
  have hlist := congrArg String.toList h
  rw [toList_key, toList_key] at hlist
  obtain ⟨hname, hrest⟩ := Separators.append_cons_inj (colon_notMem_ruleName _ _)
    (colon_notMem_ruleName _ _) (List.append_cancel_left hlist)
  obtain ⟨hidentity, hbucket⟩ := Separators.append_cons_inj_right (colon_notMem_bucketName _)
    (colon_notMem_bucketName _) hrest
  obtain ⟨hinternal, hgroup⟩ := ruleName_inj (String.toList_injective hname)
  obtain ⟨internal, g, identity, bucket⟩ := scope
  obtain rfl : internal = scope'.internal := hinternal
  obtain rfl : g = scope'.group := hgroup
  obtain rfl : identity = scope'.identity := String.toList_injective hidentity
  obtain rfl : bucket = scope'.bucket := bucketName_inj (String.toList_injective hbucket)
  rfl

end Swyft.RateLimit
