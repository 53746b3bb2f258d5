import Swyft.Price.Handshake
import Swyft.Price.Subscriptions

/-!
# The price socket

`PriceGateway` of `apps/api/src/price/price.gateway.ts`: a client connects, is authenticated, and
from then on sends frames that subscribe it to pools, unsubscribe it or ask for a cached price to be
dropped. Clients come and go while prices are broadcast, and a message to a client may fail, which
removes the client's subscriptions.

The policy is read once, when the server starts. Clients are web sockets, each of which connects
once.

## What is deliberately absent

What the service does about a cached price that is to be dropped. A socket sends nothing after it
is closed.

## Main definitions

* `PriceGateway.handle` — what the gateway does about one occurrence
* `play` — any occurrences, from the start of the server

## Main results

* `play_safe` — who holds subscriptions, how many, to what, and who has prices dropped
* `play_filter` — what a client holds is decided by its own frames and failures
-/

namespace Swyft.Price

/-! ### Frames -/

inductive WsAction where
  | subscribe | unsubscribe | swap
  deriving DecidableEq

def WsAction.text : WsAction → String
  | subscribe => "subscribe"
  | unsubscribe => "unsubscribe"
  | swap => "swap"

/-- The action of a name, if `ACTIONS` has it. -/
def WsAction.ofText (text : String) : Option WsAction :=
  [subscribe, unsubscribe, swap].find? (·.text = text)

/-- `isActionAllowed`. -/
def isActionAllowed : WsPrincipal → WsAction → Bool
  | .wallet _, _ => true
  | .anonymous, action => action = .subscribe || action = .unsubscribe

/-- `subscriptionLimitFor`. -/
def subscriptionLimitFor (principal : WsPrincipal) (policy : WsAuthPolicy) : ℕ :=
  match principal with
  | .wallet _ => policy.maxSubscriptions
  | .anonymous => policy.anonymousMaxSubscriptions

/-- The fields of a message, each if it is a text. -/
structure IncomingMessage where
  action : Option String
  poolId : Option String
  tokenA : Option String
  tokenB : Option String
  deriving DecidableEq

/-- A frame, of so many bytes. -/
structure Frame where
  length : ℕ
  /-- The object that the frame is the JSON of, if it is that of one. -/
  message : Option IncomingMessage
  deriving DecidableEq

/-- `MAX_MESSAGE_BYTES`. -/
def maxMessageBytes : ℕ := 4096

/-- `WsAuthOutcome`. -/
inductive WsAuthOutcome where
  | connectedWallet | connectedAnonymous
  | rejectedAuthRequired | rejectedAuthInvalid | rejectedAuthExpired | rejectedInvalidRequest
  | forbiddenAction | subscriptionLimit | oversizedFrame | malformedFrame | invalidAction
  deriving DecidableEq

/-- The outcome that a handshake is counted under. -/
def handshakeOutcome : Except (WsErrorCode × String) WsPrincipal → WsAuthOutcome
  | .ok (.wallet _) => .connectedWallet
  | .ok .anonymous => .connectedAnonymous
  | .error (.authRequired, _) => .rejectedAuthRequired
  | .error (.authExpired, _) => .rejectedAuthExpired
  | .error (.invalidRequest, _) => .rejectedInvalidRequest
  | .error _ => .rejectedAuthInvalid

/-- What a client is sent. -/
inductive Reply where
  | error (code : WsErrorCode) (message correlationId : String) (poolId : Option String)
  | subscribed (poolId : String)
  | unsubscribed (poolId : String)
  deriving DecidableEq

/-- What the listener of a client's messages has been given. -/
structure Session where
  principal : WsPrincipal
  correlationId : String
  maxSubscriptions : ℕ
  deriving DecidableEq

/-- What is to be done about a frame. -/
inductive Verdict where
  | dropped (outcome : WsAuthOutcome)
  | rejected (outcome : Option WsAuthOutcome) (code : WsErrorCode) (message : String)
    (poolId : Option String)
  | subscribes (poolId : String)
  | unsubscribes (poolId : String)
  | invalidates (tokenA tokenB : String)
  | nothing
  deriving DecidableEq

/-- The checks of `handleMessage`, for a client that holds so many subscriptions. -/
def Session.verdict (session : Session) (held : ℕ) (frame : Frame) : Verdict :=
  if maxMessageBytes < frame.length then .dropped .oversizedFrame
  else match frame.message with
    | none => .dropped .malformedFrame
    | some msg =>
      match msg.action.bind WsAction.ofText with
      | none => .rejected (some .invalidAction) .invalidRequest "Invalid action" none
      | some action =>
        match msg.poolId.filter fun id => isSlug id with
        | none => .rejected none .invalidRequest "Invalid poolId" none
        | some poolId =>
          if isActionAllowed session.principal action then
            match action with
            | .subscribe =>
              if session.maxSubscriptions ≤ held then
                .rejected (some .subscriptionLimit) .subscriptionLimit
                  ("Subscription limit reached (" ++ toString session.maxSubscriptions ++ " max)")
                  (some poolId)
              else .subscribes poolId
            | .unsubscribe => .unsubscribes poolId
            | .swap =>
              match msg.tokenA, msg.tokenB with
              | some tokenA, some tokenB => .invalidates tokenA tokenB
              | _, _ => .nothing
          else
            .rejected (some .forbiddenAction) .forbidden
              ("Action \"" ++ action.text ++ "\" requires an authenticated wallet") (some poolId)

theorem of_verdict_subscribes {session : Session} {held : ℕ} {frame : Frame} {poolId : String}
    (h : session.verdict held frame = .subscribes poolId) :
    isSlug poolId = true ∧ held < session.maxSubscriptions := by
  unfold Session.verdict at h
  split at h
  · cases h
  · split at h
    · cases h
    · split at h
      · cases h
      · split at h
        · cases h
        · rename_i hslug
          split at h
          · split at h
            · split at h
              · cases h
              · rename_i hlimit
                cases h
                exact ⟨(Option.filter_eq_some_iff.mp hslug).2, Nat.lt_of_not_le hlimit⟩
            · cases h
            · split at h <;> cases h
          · cases h

/-- Only a wallet has a price dropped. -/
theorem of_verdict_invalidates {session : Session} {held : ℕ} {frame : Frame}
    {tokenA tokenB : String} (h : session.verdict held frame = .invalidates tokenA tokenB) :
    ∃ walletAddress, session.principal = .wallet walletAddress := by
  unfold Session.verdict at h
  split at h
  · cases h
  · split at h
    · cases h
    · split at h
      · cases h
      · split at h
        · cases h
        · split at h
          · rename_i hallowed
            split at h
            · split at h <;> cases h
            · cases h
            · cases hprincipal : session.principal with
              | wallet w => exact ⟨w, rfl⟩
              | anonymous =>
                rw [hprincipal] at hallowed
                cases hallowed
          · cases h

/-! ### The gateway -/

variable {ω : Type}

/-- What the gateway does to the outside. -/
inductive Effect (ω : Type) where
  | sent (client : ω) (reply : Reply)
  /-- `client.close`. -/
  | closes (client : ω) (code : ℕ) (reason : String)
  /-- `priceService.invalidatePairCache`. -/
  | invalidates (client : ω) (tokenA tokenB : String)
  deriving DecidableEq

/-- The client that an effect is about. -/
def Effect.client : Effect ω → ω
  | sent client _ | closes client _ _ | invalidates client _ _ => client

structure PriceGateway (ω : Type) where
  service : PriceService ω
  /-- The clients that are listened to. -/
  sessions : ω → Option Session
  /-- `wsPoolUpdatesAuthOutcomes`. -/
  outcomes : WsAuthOutcome → ℕ

/-- `WS_CLOSE_UNAUTHORIZED`. -/
def wsCloseUnauthorized : ℕ := 4401

/-- Something that happens to the gateway. What a client's socket meets is what a message to it
would meet. -/
inductive PriceGateway.Input (ω : Type) where
  | connect (client : ω) (request : Handshake) (socket : Socket)
  | message (client : ω) (frame : Frame) (socket : Socket)
  /-- The event `error` of a socket. -/
  | failure (client : ω)
  | close (client : ω)
  | price (event : PriceEvent) (sockets : ω → Socket)
  /-- Redis carries out a command. -/
  | carryOut

namespace PriceGateway

def start : PriceGateway ω := ⟨.init, fun _ => none, fun _ => 0⟩

/-- `wsPoolUpdatesAuthOutcomes.inc`. -/
def count (g : PriceGateway ω) (outcome : WsAuthOutcome) : PriceGateway ω :=
  { g with outcomes := Function.update g.outcomes outcome (g.outcomes outcome + 1) }

variable [DecidableEq ω]

/-- `send`. -/
def send (g : PriceGateway ω) (client : ω) (socket : Socket) (reply : Reply) :
    PriceGateway ω × List (Effect ω) :=
  match socket with
  | .notOpen => (g, [])
  | .accepts => (g, [.sent client reply])
  | .throws => ({ g with service := g.service.removeClient client }, [])

/-- `handleMessage`. -/
def handleMessage (g : PriceGateway ω) (client : ω) (session : Session) (frame : Frame)
    (socket : Socket) : PriceGateway ω × List (Effect ω) :=
  match session.verdict (g.service.pools client).size frame with
  | .dropped outcome => (g.count outcome, [])
  | .rejected outcome code message poolId =>
    (outcome.elim g g.count).send client socket
      (.error code message session.correlationId poolId)
  | .subscribes poolId =>
    send { g with service := g.service.subscribe client poolId } client socket (.subscribed poolId)
  | .unsubscribes poolId =>
    send { g with service := g.service.unsubscribe client poolId } client socket
      (.unsubscribed poolId)
  | .invalidates tokenA tokenB => (g, [.invalidates client tokenA tokenB])
  | .nothing => (g, [])

/-- `onClientConnection`. -/
def onClientConnection (verify : Verify) (env : Env) (policy : WsAuthPolicy) (g : PriceGateway ω)
    (client : ω) (request : Handshake) (socket : Socket) : PriceGateway ω × List (Effect ω) :=
  let correlationId := request.correlationId
  let auth := authenticateWsHandshake verify env policy request
  let g := g.count (handshakeOutcome auth)
  match auth with
  | .error (code, message) =>
    let (g, effects) := g.send client socket (.error code message correlationId none)
    (g, effects ++ [.closes client wsCloseUnauthorized "Unauthorized"])
  | .ok principal =>
    let session := ⟨principal, correlationId, subscriptionLimitFor principal policy⟩
    ({ g with sessions := Function.update g.sessions client (some session) }, [])

/-- What the gateway does about an occurrence. A socket that is connected does not connect again,
and a frame that nobody listens to is lost. -/
def handle (verify : Verify) (env : Env) (policy : WsAuthPolicy) (g : PriceGateway ω) :
    Input ω → PriceGateway ω × List (Effect ω)
  | .connect client request socket =>
    if (g.sessions client).isSome then (g, [])
    else onClientConnection verify env policy g client request socket
  | .message client frame socket =>
    match g.sessions client with
    | none => (g, [])
    | some session => g.handleMessage client session frame socket
  | .failure client => ({ g with service := g.service.removeClient client }, [])
  | .close client =>
    ({ g with
      service := g.service.removeClient client
      sessions := Function.update g.sessions client none }, [])
  | .price event sockets => ({ g with service := (g.service.broadcastPrice event sockets).1 }, [])
  | .carryOut => ({ g with service := g.service.carryOut }, [])

end PriceGateway

open PriceGateway

variable [DecidableEq ω]

/-- The gateway after any occurrences, with what it has done. -/
def play (verify : Verify) (env : Env) (occurrences : List (Input ω)) :
    PriceGateway ω × List (Effect ω) :=
  occurrences.foldl (fun t o =>
    let (g, effects) := handle verify env (resolveWsAuthPolicy env) t.1 o
    (g, t.2 ++ effects)) (.start, [])

/-! ### What a client holds -/

section Pools

variable {s : PriceService ω} {R : Set (ω × String)} {c c' : ω} {p : String}

theorem Represents.mem_pools_removeClient (h : Represents s R) :
    p ∈ (s.removeClient c).pools c' ↔ p ∈ s.pools c' ∧ c' ≠ c := by
  rw [(h.removeClient c).pools, h.pools]
  exact Iff.rfl

theorem Represents.mem_pools_broadcastPrice (h : Represents s R) {event : PriceEvent}
    {sockets : ω → Socket} : p ∈ (s.broadcastPrice event sockets).1.pools c' ↔
      p ∈ s.pools c' ∧ ¬ (event.poolId ∈ s.pools c' ∧ sockets c' = .throws) := by
  rw [(h.broadcastPrice event sockets).1.pools, h.pools, h.pools]
  exact Iff.rfl

theorem pools_subscribe (c : ω) (p : String) : (s.subscribe c p).pools c = (s.pools c).add p := by
  rw [PriceService.pools, PriceService.subscribe, OrderedMap.get_set, if_pos rfl, Option.getD_some]

theorem pools_carryOut : s.carryOut.pools c = s.pools c := by
  unfold PriceService.carryOut
  split <;> rfl

variable {g : PriceGateway ω} {socket : Socket} {reply : Reply}

@[simp] theorem sessions_send : (g.send c socket reply).1.sessions = g.sessions := by
  cases socket <;> rfl

theorem Represents.send (h : Represents g.service R) (c : ω) (socket : Socket) (reply : Reply) :
    ∃ R', Represents (g.send c socket reply).1.service R' := by
  cases socket with
  | notOpen => exact ⟨R, h⟩
  | accepts => exact ⟨R, h⟩
  | throws => exact ⟨_, h.removeClient c⟩

/-- A message that fails costs the client its subscriptions. -/
theorem Represents.mem_pools_send (h : Represents g.service R) (c c' : ω) (socket : Socket)
    (reply : Reply) :
    p ∈ (g.send c socket reply).1.service.pools c' ↔
      p ∈ g.service.pools c' ∧ ¬ (c' = c ∧ socket = .throws) := by
  cases socket with
  | notOpen => exact (and_iff_left fun h => nomatch h.2).symm
  | accepts => exact (and_iff_left fun h => nomatch h.2).symm
  | throws =>
    refine h.mem_pools_removeClient.trans (and_congr_right fun _ => not_congr ?_)
    exact (and_iff_left rfl).symm

theorem notMem_send_invalidates {tokenA tokenB : String} :
    .invalidates c' tokenA tokenB ∉ (g.send c socket reply).2 := by
  cases socket with
  | notOpen => exact List.not_mem_nil
  | accepts => exact fun h => nomatch List.mem_singleton.mp h
  | throws => exact List.not_mem_nil

end Pools

/-! ### Safety -/

/-- The client has connected, and was authenticated as the principal. -/
def Authenticated (verify : Verify) (env : Env) (occurrences : List (Input ω)) (client : ω)
    (principal : WsPrincipal) : Prop :=
  ∃ request socket, .connect client request socket ∈ occurrences ∧
    authenticateWsHandshake verify env (resolveWsAuthPolicy env) request = .ok principal

/-- What holds after any occurrences. -/
structure Sound (verify : Verify) (env : Env) (occurrences : List (Input ω))
    (t : PriceGateway ω × List (Effect ω)) : Prop where
  represents : ∃ R, Represents t.1.service R
  held : ∀ c p, p ∈ t.1.service.pools c → isSlug p = true ∧ (t.1.sessions c).isSome
  within : ∀ c session, t.1.sessions c = some session →
    (t.1.service.pools c).size ≤ session.maxSubscriptions
  limited : ∀ c session, t.1.sessions c = some session →
    session.maxSubscriptions = subscriptionLimitFor session.principal (resolveWsAuthPolicy env)
  authenticated : ∀ c session, t.1.sessions c = some session →
    Authenticated verify env occurrences c session.principal
  invalidated : ∀ c tokenA tokenB, .invalidates c tokenA tokenB ∈ t.2 →
    ∃ walletAddress, Authenticated verify env occurrences c (.wallet walletAddress)

variable {verify : Verify} {env : Env} {occurrences : List (Input ω)} {o : Input ω}
  {t : PriceGateway ω × List (Effect ω)} {g : PriceGateway ω} {effects : List (Effect ω)} {c : ω}

omit [DecidableEq ω] in
theorem Authenticated.snoc {principal : WsPrincipal}
    (h : Authenticated verify env occurrences c principal) :
    Authenticated verify env (occurrences ++ [o]) c principal := by
  obtain ⟨request, socket, hmem, hauth⟩ := h
  exact ⟨request, socket, List.mem_append_left _ hmem, hauth⟩

namespace Sound

theorem start : Sound verify env [] ((.start, []) : PriceGateway ω × List (Effect ω)) where
  represents := ⟨∅, .init⟩
  held _ p h := absurd h (OrderedSet.notMem_empty p)
  within _ _ h := nomatch h
  limited _ _ h := nomatch h
  authenticated _ _ h := nomatch h
  invalidated _ _ _ h := absurd h List.not_mem_nil

/-- What adds no subscription, no session and has no price dropped. -/
theorem quiet (h : Sound verify env occurrences t) (hg : ∃ R, Represents g.service R)
    (hsessions : g.sessions = t.1.sessions)
    (hpools : ∀ c p, p ∈ g.service.pools c → p ∈ t.1.service.pools c)
    (heffects : ∀ c a b, .invalidates c a b ∉ effects) :
    Sound verify env (occurrences ++ [o]) (g, t.2 ++ effects) where
  represents := hg
  held c p hp := by
    rw [hsessions]
    exact h.held c p (hpools c p hp)
  within c session hs := by
    rw [hsessions] at hs
    exact (OrderedSet.size_le_of_subset (hpools c)).trans (h.within c session hs)
  limited c session hs := h.limited c session (hsessions ▸ hs)
  authenticated c session hs := (h.authenticated c session (hsessions ▸ hs)).snoc
  invalidated c a b hmem := by
    obtain ⟨w, hw⟩ := h.invalidated c a b
      ((List.mem_append.mp hmem).resolve_right (heffects c a b))
    exact ⟨w, hw.snoc⟩

theorem send (h : Sound verify env occurrences t) (hg : ∃ R, Represents g.service R)
    (hsessions : g.sessions = t.1.sessions)
    (hpools : ∀ c p, p ∈ g.service.pools c → p ∈ t.1.service.pools c) (socket : Socket)
    (reply : Reply) : Sound verify env (occurrences ++ [o])
      ((g.send c socket reply).1, t.2 ++ (g.send c socket reply).2) := by
  obtain ⟨R, hR⟩ := hg
  refine h.quiet (hR.send c socket reply) (sessions_send.trans hsessions) (fun c' p hp => ?_)
    fun _ _ _ => notMem_send_invalidates
  exact hpools c' p ((hR.mem_pools_send c c' socket reply).mp hp).1

/-- A frame of a client that is listened to. -/
theorem handleMessage (h : Sound verify env occurrences t) {session : Session}
    (hs : t.1.sessions c = some session) (frame : Frame) (socket : Socket) :
    Sound verify env (occurrences ++ [o]) ((t.1.handleMessage c session frame socket).1,
      t.2 ++ (t.1.handleMessage c session frame socket).2) := by
  obtain ⟨R, hR⟩ := h.represents
  unfold PriceGateway.handleMessage
  split
  · exact h.quiet ⟨R, hR⟩ rfl (fun _ _ hp => hp) fun _ _ _ => List.not_mem_nil
  · rename_i outcome code message poolId hverdict
    cases outcome with
    | none => exact h.send ⟨R, hR⟩ rfl (fun _ _ hp => hp) socket _
    | some outcome =>
      exact h.send (g := t.1.count outcome) ⟨R, hR⟩ rfl (fun _ _ hp => hp) socket _
  · rename_i poolId hverdict
    obtain ⟨hslug, hroom⟩ := of_verdict_subscribes hverdict
    have hsubscribed := hR.subscribe c poolId
    have hheld : ∀ c' p, p ∈ (t.1.service.subscribe c poolId).pools c' →
        (c', p) = (c, poolId) ∨ p ∈ t.1.service.pools c' :=
      fun c' p hp => PriceService.mem_pools_subscribe.mp hp
    refine ⟨hsubscribed.send c socket _, fun c' p hp => ?_, fun c' session' hs' => ?_, ?_, ?_, ?_⟩
    · rw [sessions_send]
      rcases hheld c' p ((hsubscribed.mem_pools_send _ _ _ _).mp hp).1 with heq | hp
      · cases heq
        exact ⟨hslug, Option.isSome_iff_exists.mpr ⟨session, hs⟩⟩
      · exact h.held c' p hp
    · rw [sessions_send] at hs'
      have hle := OrderedSet.size_le_of_subset fun p hp =>
        (hsubscribed.mem_pools_send c c' socket (.subscribed poolId)
          (g := { t.1 with service := t.1.service.subscribe c poolId }) (p := p)).mp hp |>.1
      refine hle.trans ?_
      by_cases hc : c' = c
      · subst hc
        obtain rfl : session = session' := Option.some.inj (hs.symm.trans hs')
        rw [pools_subscribe]
        exact OrderedSet.size_add_le.trans hroom
      · refine (OrderedSet.size_le_of_subset fun p hp => ?_).trans (h.within c' session' hs')
        exact (hheld c' p hp).resolve_left fun heq => hc (Prod.mk.inj heq).1
    · rw [sessions_send]
      exact h.limited
    · rw [sessions_send]
      exact fun c' session' hs' => (h.authenticated c' session' hs').snoc
    · intro c' a b hmem
      obtain ⟨w, hw⟩ := h.invalidated c' a b
        ((List.mem_append.mp hmem).resolve_right notMem_send_invalidates)
      exact ⟨w, hw.snoc⟩
  · rename_i poolId hverdict
    exact h.send (g := { t.1 with service := t.1.service.unsubscribe c poolId })
      ⟨_, hR.unsubscribe c poolId⟩ rfl
      (fun _ _ hp => (PriceService.mem_pools_unsubscribe.mp hp).2) socket _
  · rename_i tokenA tokenB hverdict
    obtain ⟨w, hw⟩ := of_verdict_invalidates hverdict
    refine ⟨⟨R, hR⟩, h.held, h.within, h.limited,
      fun c' session' hs' => (h.authenticated c' session' hs').snoc, fun c' a b hmem => ?_⟩
    rcases List.mem_append.mp hmem with hmem | hmem
    · obtain ⟨w', hw'⟩ := h.invalidated c' a b hmem
      exact ⟨w', hw'.snoc⟩
    · cases List.mem_singleton.mp hmem
      exact ⟨w, hw ▸ (h.authenticated c session hs).snoc⟩
  · exact h.quiet ⟨R, hR⟩ rfl (fun _ _ hp => hp) fun _ _ _ => List.not_mem_nil

/-- A client that was not listened to is from now on. -/
theorem opened (h : Sound verify env occurrences t) {request : Handshake} {socket : Socket}
    {principal : WsPrincipal} (hnone : t.1.sessions c = none)
    (hauth : authenticateWsHandshake verify env (resolveWsAuthPolicy env) request = .ok principal)
    (correlationId : String) (outcomes : WsAuthOutcome → ℕ) :
    Sound verify env (occurrences ++ [.connect c request socket])
      (⟨t.1.service, Function.update t.1.sessions c (some ⟨principal, correlationId,
        subscriptionLimitFor principal (resolveWsAuthPolicy env)⟩), outcomes⟩, t.2 ++ []) := by
  have hnew : ∀ c' session', Function.update t.1.sessions c (some ⟨principal, correlationId,
      subscriptionLimitFor principal (resolveWsAuthPolicy env)⟩) c' = some session' →
      (c' = c ∧ session' = ⟨principal, correlationId,
        subscriptionLimitFor principal (resolveWsAuthPolicy env)⟩) ∨
          t.1.sessions c' = some session' := by
    intro c' session' hs'
    rw [Function.update_apply] at hs'
    split at hs'
    · rename_i hc
      exact .inl ⟨hc, (Option.some.inj hs').symm⟩
    · exact .inr hs'
  rw [List.append_nil]
  refine ⟨h.represents, fun c' p hp => ?_, fun c' session' hs' => ?_, fun c' session' hs' => ?_,
    fun c' session' hs' => ?_, fun c' a b hmem => ?_⟩
  · refine ⟨(h.held c' p hp).1, ?_⟩
    show (Function.update t.1.sessions c _ c').isSome = true
    rw [Function.update_apply]
    split
    · rfl
    · exact (h.held c' p hp).2
  · rcases hnew c' session' hs' with ⟨rfl, -⟩ | hold
    · -- whoever is not connected holds nothing
      have hempty : (t.1.service.pools c').size = 0 := by
        by_contra hne
        obtain ⟨p, hp⟩ := OrderedSet.size_ne_zero.mp hne
        have hsome := (h.held c' p hp).2
        rw [hnone] at hsome
        cases hsome
      exact hempty.le.trans (Nat.zero_le _)
    · exact h.within c' session' hold
  · rcases hnew c' session' hs' with ⟨rfl, rfl⟩ | hold
    · rfl
    · exact h.limited c' session' hold
  · rcases hnew c' session' hs' with ⟨rfl, rfl⟩ | hold
    · exact ⟨request, socket, List.mem_append_right _ List.mem_cons_self, hauth⟩
    · exact (h.authenticated c' session' hold).snoc
  · obtain ⟨w, hw⟩ := h.invalidated c' a b hmem
    exact ⟨w, hw.snoc⟩

/-- A client connects. -/
theorem onClientConnection (h : Sound verify env occurrences t) {request : Handshake}
    {socket : Socket} (hnone : t.1.sessions c = none) :
    Sound verify env (occurrences ++ [.connect c request socket])
      ((PriceGateway.onClientConnection verify env (resolveWsAuthPolicy env) t.1 c request
        socket).1, t.2 ++ (PriceGateway.onClientConnection verify env (resolveWsAuthPolicy env)
        t.1 c request socket).2) := by
  simp only [PriceGateway.onClientConnection]
  rcases hauth : authenticateWsHandshake verify env (resolveWsAuthPolicy env) request with
    ⟨code, message⟩ | principal
  · obtain ⟨R, hR⟩ := h.represents
    refine h.quiet (hR.send (g := t.1.count _) c socket _) sessions_send (fun c' p hp => ?_) ?_
    · exact (hR.mem_pools_send (g := t.1.count _) c c' socket _ |>.mp hp).1
    · intro c' a b hmem
      rcases List.mem_append.mp hmem with hmem | hmem
      · exact notMem_send_invalidates hmem
      · cases List.mem_singleton.mp hmem
  · exact h.opened hnone hauth request.correlationId _

/-- A client is gone. -/
theorem close (h : Sound verify env occurrences t) (c : ω) :
    Sound verify env (occurrences ++ [o])
      ({ t.1 with
        service := t.1.service.removeClient c
        sessions := Function.update t.1.sessions c none }, t.2 ++ []) := by
  obtain ⟨R, hR⟩ := h.represents
  have hold : ∀ c' session', Function.update t.1.sessions c none c' = some session' →
      t.1.sessions c' = some session' := by
    intro c' session' hs'
    rw [Function.update_apply] at hs'
    split at hs'
    · cases hs'
    · exact hs'
  rw [List.append_nil]
  refine ⟨⟨_, hR.removeClient c⟩, fun c' p hp => ?_, fun c' session' hs' => ?_,
    fun c' session' hs' => h.limited c' session' (hold c' session' hs'),
    fun c' session' hs' => (h.authenticated c' session' (hold c' session' hs')).snoc,
    fun c' a b hmem => ?_⟩
  · obtain ⟨hp, hne⟩ := hR.mem_pools_removeClient.mp hp
    obtain ⟨hslug, hsome⟩ := h.held c' p hp
    refine ⟨hslug, ?_⟩
    show (Function.update t.1.sessions c none c').isSome = true
    rwa [Function.update_of_ne hne]
  · refine (OrderedSet.size_le_of_subset fun p hp => ?_).trans
      (h.within c' session' (hold c' session' hs'))
    exact (hR.mem_pools_removeClient.mp hp).1
  · obtain ⟨w, hw⟩ := h.invalidated c' a b hmem
    exact ⟨w, hw.snoc⟩

/-- One occurrence. -/
theorem handle (h : Sound verify env occurrences t) (o : Input ω) :
    Sound verify env (occurrences ++ [o])
      ((t.1.handle verify env (resolveWsAuthPolicy env) o).1,
        t.2 ++ (t.1.handle verify env (resolveWsAuthPolicy env) o).2) := by
  obtain ⟨R, hR⟩ := h.represents
  have hquiet : ∀ g : PriceGateway ω, (∃ R, Represents g.service R) → g.sessions = t.1.sessions →
      (∀ c p, p ∈ g.service.pools c → p ∈ t.1.service.pools c) →
      Sound verify env (occurrences ++ [o]) (g, t.2 ++ []) :=
    fun g hg hs hp => h.quiet hg hs hp fun _ _ _ => List.not_mem_nil
  cases o with
  | connect c request socket =>
    rw [PriceGateway.handle]
    split
    · exact hquiet t.1 ⟨R, hR⟩ rfl fun _ _ hp => hp
    · rename_i hnone
      exact h.onClientConnection (Option.not_isSome_iff_eq_none.mp hnone)
  | message c frame socket =>
    rw [PriceGateway.handle]
    split
    · exact hquiet t.1 ⟨R, hR⟩ rfl fun _ _ hp => hp
    · rename_i session hs
      exact h.handleMessage hs frame socket
  | failure c =>
    exact hquiet { t.1 with service := t.1.service.removeClient c } ⟨_, hR.removeClient c⟩ rfl
      fun _ _ hp => (hR.mem_pools_removeClient.mp hp).1
  | close c => exact h.close c
  | price event sockets =>
    exact hquiet { t.1 with service := (t.1.service.broadcastPrice event sockets).1 }
      ⟨_, (hR.broadcastPrice event sockets).1⟩ rfl
      fun _ _ hp => (hR.mem_pools_broadcastPrice.mp hp).1
  | carryOut =>
    refine hquiet { t.1 with service := t.1.service.carryOut } ⟨R, hR.carryOut⟩ rfl fun _ _ hp => ?_
    rwa [pools_carryOut] at hp

end Sound

theorem play_append_singleton : play verify env (occurrences ++ [o]) =
    (((play verify env occurrences).1.handle verify env (resolveWsAuthPolicy env) o).1,
      (play verify env occurrences).2 ++
        ((play verify env occurrences).1.handle verify env (resolveWsAuthPolicy env) o).2) := by
  rw [play, List.foldl_append]
  rfl

theorem sound_play (verify : Verify) (env : Env) (occurrences : List (Input ω)) :
    Sound verify env occurrences (play verify env occurrences) := by
  induction occurrences using List.reverseRecOn with
  | nil => exact .start
  | append_singleton occurrences o ih =>
    rw [play_append_singleton]
    exact ih.handle o

/-- **The price socket is safe.** After any connections, frames, failures and broadcasts, in any
order and with messages failing at any point, the maps and the channels of the service read one
relation; whoever is subscribed is connected, to pools with well-formed names and to no more of them
than the limit of its kind, which is no higher for anonymous clients; a wallet has presented a token
that was signed with the secret and names it, and an anonymous client presented none and was let in
by an operator who opted in, on mainnet twice; and a price is dropped for wallets only. -/
theorem play_safe (verify : Verify) (env : Env) (occurrences : List (Input ω)) :
    (∃ R : Set (ω × String), Represents (play verify env occurrences).1.service R ∧
      ∀ c p, (c, p) ∈ R →
        isSlug p = true ∧ ((play verify env occurrences).1.sessions c).isSome) ∧
    (∀ c session, (play verify env occurrences).1.sessions c = some session →
      ((play verify env occurrences).1.service.pools c).size ≤ session.maxSubscriptions ∧
      session.maxSubscriptions ≤ (resolveWsAuthPolicy env).maxSubscriptions ∧
      match session.principal with
      | .wallet walletAddress => ∃ request socket, .connect c request socket ∈ occurrences ∧
        Proves verify env request walletAddress
      | .anonymous =>
        session.maxSubscriptions = (resolveWsAuthPolicy env).anonymousMaxSubscriptions ∧
        OptsIn env ∧ ∃ request socket token, .connect c request socket ∈ occurrences ∧
          request.token = some token ∧ configured token = none) ∧
    ∀ c tokenA tokenB, .invalidates c tokenA tokenB ∈ (play verify env occurrences).2 →
      ∃ request socket walletAddress, .connect c request socket ∈ occurrences ∧
        Proves verify env request walletAddress := by
  have h := sound_play verify env occurrences
  obtain ⟨R, hR⟩ := h.represents
  refine ⟨⟨R, hR, fun c p hmem => h.held c p ((hR.pools c p).mpr hmem)⟩, fun c session hs => ?_,
    fun c a b hmem => ?_⟩
  · have hlimited := h.limited c session hs
    obtain ⟨request, socket, hmem, hauth⟩ := h.authenticated c session hs
    refine ⟨h.within c session hs, ?_, ?_⟩
    · rw [hlimited]
      cases session.principal with
      | wallet w => exact le_rfl
      | anonymous => exact anonymousMax_le env
    · cases hprincipal : session.principal with
      | wallet w =>
        rw [hprincipal] at hauth
        exact ⟨request, socket, hmem, wallet_of_authenticate hauth⟩
      | anonymous =>
        rw [hprincipal] at hauth hlimited
        obtain ⟨hmode, token, htoken, hnone⟩ := anonymous_of_authenticate hauth
        exact ⟨hlimited, optional_resolveWsAuthPolicy.mp hmode, request, socket, token, hmem,
          htoken, hnone⟩
  · obtain ⟨w, request, socket, hmem, hauth⟩ := h.invalidated c a b hmem
    exact ⟨request, socket, w, hmem, wallet_of_authenticate hauth⟩

/-! ### Isolation -/

/-- An occurrence is about a client: it is the client's own, or a broadcast at which sending to the
client throws. -/
def PriceGateway.Input.concerns (c : ω) : Input ω → Bool
  | connect client _ _ | message client _ _ | failure client | close client => client = c
  | price _ sockets => sockets c = .throws
  | carryOut => false

/-- Two gateways are the same to a client. -/
structure Alike (c : ω) (g g' : PriceGateway ω) : Prop where
  session : g.sessions c = g'.sessions c
  pools : ∀ p, p ∈ g.service.pools c ↔ p ∈ g'.service.pools c

section Alike

variable {R R' : Set (ω × String)} {g' : PriceGateway ω}

theorem Alike.size_eq (h : Alike c g g') :
    (g.service.pools c).size = (g'.service.pools c).size :=
  le_antisymm (OrderedSet.size_le_of_subset fun p => (h.pools p).mp)
    (OrderedSet.size_le_of_subset fun p => (h.pools p).mpr)

/-- A message to one client does nothing to another. -/
theorem alike_send (h : Represents g.service R) {client : ω} (hc : client ≠ c) (socket : Socket)
    (reply : Reply) : Alike c (g.send client socket reply).1 g ∧
      ∀ e ∈ (g.send client socket reply).2, e.client ≠ c := by
  refine ⟨⟨by rw [sessions_send], fun p => (h.mem_pools_send _ _ _ _).trans
    (and_iff_left fun hthrows => hc hthrows.1.symm)⟩, ?_⟩
  cases socket with
  | notOpen => exact fun e he => absurd he List.not_mem_nil
  | accepts =>
    intro e he
    rw [List.mem_singleton.mp he]
    exact hc
  | throws => exact fun e he => absurd he List.not_mem_nil

/-- A message is sent to a client alike. -/
theorem Alike.send (g g' : PriceGateway ω) (h : Alike c g g') (hg : Represents g.service R)
    (hg' : Represents g'.service R') (socket : Socket) (reply : Reply) :
    Alike c (g.send c socket reply).1 (g'.send c socket reply).1 ∧
      (g.send c socket reply).2 = (g'.send c socket reply).2 := by
  refine ⟨⟨?_, fun p => ?_⟩, ?_⟩
  · rw [sessions_send, sessions_send, h.session]
  · rw [hg.mem_pools_send, hg'.mem_pools_send, h.pools]
  · cases socket <;> rfl

/-- What is not about a client leaves it alone. -/
theorem alike_handle (h : Represents g.service R) {o : Input ω} (ho : o.concerns c = false)
    (verify : Verify) (env : Env) (policy : WsAuthPolicy) :
    Alike c (g.handle verify env policy o).1 g ∧
      ∀ e ∈ (g.handle verify env policy o).2, e.client ≠ c := by
  have hnone : ∀ g' : PriceGateway ω, Alike c g' g → Alike c g' g ∧
      ∀ e ∈ ([] : List (Effect ω)), e.client ≠ c :=
    fun g' hg' => ⟨hg', fun e he => absurd he List.not_mem_nil⟩
  cases o with
  | connect client request socket =>
    have hc : client ≠ c := of_decide_eq_false ho
    rw [PriceGateway.handle]
    split
    · exact hnone g ⟨rfl, fun _ => .rfl⟩
    · simp only [PriceGateway.onClientConnection]
      rcases authenticateWsHandshake verify env policy request with ⟨code, message⟩ | principal
      · obtain ⟨halike, hothers⟩ := alike_send (g := g.count _) h hc socket
          (.error code message request.correlationId none)
        refine ⟨⟨halike.session, halike.pools⟩, fun e he => ?_⟩
        rcases List.mem_append.mp he with he | he
        · exact hothers e he
        · rw [List.mem_singleton.mp he]
          exact hc
      · exact hnone _ ⟨Function.update_of_ne hc.symm .., fun _ => .rfl⟩
  | message client frame socket =>
    have hc : client ≠ c := of_decide_eq_false ho
    rw [PriceGateway.handle]
    split
    · exact hnone g ⟨rfl, fun _ => .rfl⟩
    · rename_i session hs
      unfold PriceGateway.handleMessage
      split
      · exact hnone _ ⟨rfl, fun _ => .rfl⟩
      · rename_i outcome code message poolId hverdict
        cases outcome with
        | none => exact alike_send h hc socket _
        | some outcome =>
          obtain ⟨halike, hothers⟩ := alike_send (g := g.count outcome) h hc socket
            (.error code message session.correlationId poolId)
          exact ⟨⟨halike.session, halike.pools⟩, hothers⟩
      · rename_i poolId hverdict
        obtain ⟨halike, hothers⟩ := alike_send
          (g := { g with service := g.service.subscribe client poolId }) (h.subscribe client poolId)
          hc socket (.subscribed poolId)
        refine ⟨⟨halike.session, fun p => (halike.pools p).trans ?_⟩, hothers⟩
        refine PriceService.mem_pools_subscribe.trans (or_iff_right fun heq => ?_)
        exact hc (Prod.mk.inj heq).1.symm
      · rename_i poolId hverdict
        obtain ⟨halike, hothers⟩ := alike_send
          (g := { g with service := g.service.unsubscribe client poolId })
          (h.unsubscribe client poolId) hc socket (.unsubscribed poolId)
        refine ⟨⟨halike.session, fun p => (halike.pools p).trans ?_⟩, hothers⟩
        refine PriceService.mem_pools_unsubscribe.trans (and_iff_right fun heq => ?_)
        exact hc (Prod.mk.inj heq).1.symm
      · refine ⟨⟨rfl, fun _ => .rfl⟩, fun e he => ?_⟩
        rw [List.mem_singleton.mp he]
        exact hc
      · exact hnone g ⟨rfl, fun _ => .rfl⟩
  | failure client =>
    have hc : client ≠ c := of_decide_eq_false ho
    exact hnone _ ⟨rfl, fun _ => h.mem_pools_removeClient.trans (and_iff_left hc.symm)⟩
  | close client =>
    have hc : client ≠ c := of_decide_eq_false ho
    exact hnone _ ⟨Function.update_of_ne hc.symm ..,
      fun _ => h.mem_pools_removeClient.trans (and_iff_left hc.symm)⟩
  | price event sockets =>
    have hc : sockets c ≠ .throws := of_decide_eq_false ho
    exact hnone _ ⟨rfl, fun _ => h.mem_pools_broadcastPrice.trans (and_iff_left fun hf => hc hf.2)⟩
  | carryOut =>
    refine hnone _ ⟨rfl, fun p => ?_⟩
    show p ∈ g.service.carryOut.pools c ↔ _
    rw [pools_carryOut]

/-- What is about a client does the same to it in gateways that are the same to it. -/
theorem Alike.handle (h : Alike c g g') (hg : Represents g.service R)
    (hg' : Represents g'.service R') {o : Input ω} (ho : o.concerns c = true)
    (verify : Verify) (env : Env) (policy : WsAuthPolicy) :
    Alike c (g.handle verify env policy o).1 (g'.handle verify env policy o).1 ∧
      (g.handle verify env policy o).2 = (g'.handle verify env policy o).2 := by
  cases o with
  | connect client request socket =>
    obtain rfl : client = c := of_decide_eq_true ho
    rw [PriceGateway.handle, PriceGateway.handle, h.session]
    split
    · exact ⟨h, rfl⟩
    · simp only [PriceGateway.onClientConnection]
      rcases authenticateWsHandshake verify env policy request with ⟨code, message⟩ | principal
      · obtain ⟨halike, heffects⟩ := Alike.send (c := client) (g.count _) (g'.count _)
          ⟨h.session, h.pools⟩ hg hg' socket
          (.error code message request.correlationId none)
        exact ⟨halike, congrArg (· ++ _) heffects⟩
      · have hsame : ∀ session : Option Session, Function.update g.sessions client session client =
            Function.update g'.sessions client session client := fun session => by
          rw [Function.update_self, Function.update_self]
        exact ⟨⟨hsame _, h.pools⟩, rfl⟩
  | message client frame socket =>
    obtain rfl : client = c := of_decide_eq_true ho
    rw [PriceGateway.handle, PriceGateway.handle, h.session]
    split
    · exact ⟨h, rfl⟩
    · rename_i session hs
      unfold PriceGateway.handleMessage
      rw [h.size_eq]
      split
      · exact ⟨⟨h.session, h.pools⟩, rfl⟩
      · rename_i outcome code message poolId hverdict
        cases outcome with
        | none => exact h.send g g' hg hg' socket _
        | some outcome =>
          exact Alike.send (g.count outcome) (g'.count outcome) ⟨h.session, h.pools⟩ hg hg'
            socket _
      · rename_i poolId hverdict
        refine Alike.send (c := client)
          { g with service := g.service.subscribe client poolId }
          { g' with service := g'.service.subscribe client poolId }
          ⟨h.session, fun p => ?_⟩ (hg.subscribe client poolId) (hg'.subscribe client poolId)
          socket _
        rw [PriceService.mem_pools_subscribe, PriceService.mem_pools_subscribe, h.pools]
      · rename_i poolId hverdict
        refine Alike.send (c := client)
          { g with service := g.service.unsubscribe client poolId }
          { g' with service := g'.service.unsubscribe client poolId }
          ⟨h.session, fun p => ?_⟩ (hg.unsubscribe client poolId) (hg'.unsubscribe client poolId)
          socket _
        rw [PriceService.mem_pools_unsubscribe, PriceService.mem_pools_unsubscribe, h.pools]
      · exact ⟨h, rfl⟩
      · exact ⟨h, rfl⟩
  | failure client =>
    refine ⟨⟨h.session, fun p => ?_⟩, rfl⟩
    show p ∈ (g.service.removeClient client).pools c ↔ p ∈ (g'.service.removeClient client).pools c
    rw [hg.mem_pools_removeClient, hg'.mem_pools_removeClient, h.pools]
  | close client =>
    obtain rfl : client = c := of_decide_eq_true ho
    refine ⟨⟨?_, fun p => ?_⟩, rfl⟩
    · exact (Function.update_self client none g.sessions).trans
        (Function.update_self client none g'.sessions).symm
    show p ∈ (g.service.removeClient client).pools client ↔
      p ∈ (g'.service.removeClient client).pools client
    rw [hg.mem_pools_removeClient, hg'.mem_pools_removeClient, h.pools]
  | price event sockets =>
    refine ⟨⟨h.session, fun p => ?_⟩, rfl⟩
    show p ∈ (g.service.broadcastPrice event sockets).1.pools c ↔
      p ∈ (g'.service.broadcastPrice event sockets).1.pools c
    rw [hg.mem_pools_broadcastPrice, hg'.mem_pools_broadcastPrice, h.pools, h.pools]
  | carryOut => cases ho

end Alike

/-- **Clients do not meet.** What a client holds, how it is listened to and what it is answered are
decided by its own connection, frames and failures: without all that is about others it would be
the same. -/
theorem play_filter (verify : Verify) (env : Env) (occurrences : List (Input ω)) (c : ω) :
    Alike c (play verify env occurrences).1
      (play verify env (occurrences.filter (·.concerns c))).1 ∧
    (play verify env occurrences).2.filter (·.client = c) =
      (play verify env (occurrences.filter (·.concerns c))).2.filter (·.client = c) := by
  induction occurrences using List.reverseRecOn with
  | nil => exact ⟨⟨rfl, fun _ => .rfl⟩, rfl⟩
  | append_singleton occurrences o ih =>
    obtain ⟨halike, heffects⟩ := ih
    obtain ⟨R, hR⟩ := (sound_play verify env occurrences).represents
    obtain ⟨R', hR'⟩ := (sound_play verify env (occurrences.filter (·.concerns c))).represents
    rw [List.filter_append]
    cases ho : o.concerns c with
    | true =>
      obtain ⟨halike', heffects'⟩ := halike.handle hR hR' ho verify env
        (resolveWsAuthPolicy env)
      rw [List.filter_cons_of_pos ho, List.filter_nil, play_append_singleton,
        play_append_singleton]
      refine ⟨halike', ?_⟩
      rw [List.filter_append, List.filter_append, heffects, heffects']
    | false =>
      obtain ⟨hquiet, hothers⟩ := alike_handle hR ho verify env (resolveWsAuthPolicy env)
      rw [List.filter_cons_of_neg (by rw [ho]; exact Bool.false_ne_true), List.filter_nil,
        List.append_nil, play_append_singleton]
      have hnone : ((play verify env occurrences).1.handle verify env (resolveWsAuthPolicy env)
          o).2.filter (·.client = c) = [] :=
        List.filter_eq_nil_iff.mpr fun e he heq => hothers e he (of_decide_eq_true heq)
      refine ⟨⟨hquiet.session.trans halike.session,
        fun p => (hquiet.pools p).trans (halike.pools p)⟩, ?_⟩
      rw [List.filter_append, heffects, hnone, List.append_nil]

end Swyft.Price
