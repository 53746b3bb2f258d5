import Swyft.Price.Subscriptions
import Swyft.JsNumber
import Swyft.Lib.Interleaving

/-!
# How a price event reaches the clients

`pollAccount` of `apps/api/src/horizon/horizon.service.ts` hands a price event to
`broadcastPrice` and then publishes it on the Redis channel of its pool. The API is itself
subscribed to that channel as long as the pool has clients, and hands what comes over it to
`broadcastPrice` as well.

A poll is a process: it waits for the state of the pool to be stored and for the event to be
published, and in between clients come and go and Redis delivers what was published before. Events
are numbered in the order in which they are handled, which is no part of what is sent.

## What is deliberately absent

What a poll does besides, and the cached price that a message from Redis also sets. Connections to
Redis are not lost. Messages of other processes are theirs.

## Main results

* `sentOnce_iff` — each client is sent an event once exactly if what Redis delivers meets no open
  subscription of a client that was sent it directly
-/

namespace Swyft.Price

open Interleaving

/-! ### Records -/

/-- What `toPrice` reads of a record. -/
structure PriceRecord where
  amount : Option String
  poolId : Option String
  tick : Option Int32
  liquidity : Option String
  createdAt : String
  deriving DecidableEq

/-- What the language makes of a number and of a time. -/
structure Format where
  /-- `Math.sqrt(price).toFixed(7)`. -/
  fixedRoot : ℚ → String
  /-- `new Date(text).getTime()`, unless it is no number. -/
  getTime : String → Option ℤ

/-- `toPrice`. -/
def Format.toPrice (F : Format) (r : PriceRecord) (accountId : String) : Option PriceEvent :=
  match r.amount with
  | none => none
  | some amount =>
    if amount = "" then none
    else
      match Js.toNumber amount with
      | .finite price =>
        if price < 0 then none
        else some
          { poolId := r.poolId.getD accountId
            currentPrice := amount
            sqrtPrice := F.fixedRoot price
            tick := r.tick.getD 0
            liquidity := r.liquidity.getD "0"
            timestamp := F.getTime r.createdAt
            change24h := none }
      | _ => none

/-! ### Polls, clients and Redis -/

variable {ω : Type} [DecidableEq ω]

/-- The service, how many events were handled, and the messages that Redis has for it. -/
structure Feed (ω : Type) where
  service : PriceService ω
  handled : ℕ
  messages : List (ℕ × PriceEvent)

def Feed.start : Feed ω := ⟨.init, 0, []⟩

/-- What a poll has still to do. -/
inductive Handling where
  | records (accountId : String) (rest : List PriceRecord)
  /-- It waits for `handlePoolStateUpdate`. -/
  | updating (number : ℕ) (event : PriceEvent) (accountId : String) (rest : List PriceRecord)
  /-- It waits for `publish`. -/
  | publishing (number : ℕ) (event : PriceEvent) (accountId : String) (rest : List PriceRecord)
  deriving DecidableEq

/-- The event that is being handled and may still be published. -/
def Handling.number : Handling → Option ℕ
  | .records _ _ => none
  | .updating n _ _ _ => some n
  | .publishing n _ _ _ => some n

/-- What a poll is told. -/
inductive Answer (ω : Type) where
  | sockets (f : ω → Socket)
  | succeeds
  | fails

/-- What happens besides. -/
inductive Occurrence (ω : Type) where
  | poll (accountId : String) (records : List PriceRecord)
  | call (call : Call ω)
  /-- Redis delivers the first message it has. -/
  | deliver (sockets : ω → Socket)

/-- A message to a client: about which event, and whether it came by way of Redis. -/
structure Sent (ω : Type) where
  event : ℕ
  client : ω
  relayed : Bool
  deriving DecidableEq

namespace Feed

/-- `broadcastPrice`, noting what is sent. -/
def broadcast (s : Feed ω) (n : ℕ) (event : PriceEvent) (sockets : ω → Socket) (relayed : Bool) :
    Feed ω × List (Sent ω) :=
  let (service, sent) := s.service.broadcastPrice event sockets
  ({ s with service }, sent.map (⟨n, ·, relayed⟩))

/-- `PUBLISH`: Redis has the message for the service if that is subscribed to the channel. -/
def publish (s : Feed ω) (n : ℕ) (event : PriceEvent) : Feed ω :=
  if channel event.poolId ∈ s.service.channels then
    { s with messages := s.messages ++ [(n, event)] }
  else s

/-- One step of a poll. A group that cannot be enqueued ends it, and so does a state that cannot be
stored. An event that cannot be published is passed over. -/
def step (F : Format) (s : Feed ω) :
    Handling → Answer ω → Option (Feed ω × List Handling × List (Sent ω))
  | .records _ [], _ => some (s, [], [])
  | .records _ (_ :: _), .fails => some (s, [], [])
  | .records accountId (r :: rest), .sockets f =>
    match F.toPrice r accountId with
    | none => some (s, [.records accountId rest], [])
    | some event =>
      let (s', sent) := { s with handled := s.handled + 1 }.broadcast s.handled event f false
      some (s', [.updating s.handled event accountId rest], sent)
  | .updating n event accountId rest, .succeeds =>
    some (s, [.publishing n event accountId rest], [])
  | .updating _ _ _ _, .fails => some (s, [], [])
  | .publishing n event accountId rest, .succeeds =>
    some (s.publish n event, [.records accountId rest], [])
  | .publishing _ _ accountId rest, .fails => some (s, [.records accountId rest], [])
  | _, _ => none

/-- A poll begins, a client or the connection to Redis does something, or a message comes in. The
service alone broadcasts. -/
def outside (s : Feed ω) :
    Occurrence ω → Option (Feed ω × List Handling × List (Sent ω))
  | .poll accountId records => some (s, [.records accountId records], [])
  | .call (.broadcastPrice _ _) => none
  | .call call => some ({ s with service := call.perform s.service }, [], [])
  | .deliver sockets =>
    match s.messages with
    | [] => none
    | (n, event) :: messages =>
      let (s', sent) := { s with messages }.broadcast n event sockets true
      some (s', [], sent)

/-- The rules of one API process. -/
def rules (F : Format) : Rules (Feed ω) Handling (Answer ω) (Occurrence ω) (Sent ω) :=
  ⟨step F, outside⟩

end Feed

/-! ### Once -/

/-- Each client was sent at most one message about each event. -/
def SentOnce (log : List (Sent ω)) : Prop := (log.map fun x => (x.event, x.client)).Nodup

instance (log : List (Sent ω)) : Decidable (SentOnce log) :=
  inferInstanceAs (Decidable (List.Nodup _))

/-- What Redis delivers goes to no client that was sent the event directly: none of those is
subscribed to the pool with an open connection any more. -/
def NotAgain (P : Interleaving.Pool (Feed ω) Handling (Sent ω)) :
    Act (Answer ω) (Occurrence ω) → Prop
  | .outside (.deliver sockets) => ∀ m ∈ P.shared.messages.head?,
    ∀ c ∈ (P.shared.service.clients m.2.poolId).elems, sockets c = .accepts → ⟨m.1, c, false⟩ ∉ P.log
  | _ => True

instance (P : Interleaving.Pool (Feed ω) Handling (Sent ω)) : DecidablePred (NotAgain P)
  | .outside (.deliver sockets) => inferInstanceAs (Decidable (∀ m ∈ P.shared.messages.head?,
      ∀ c ∈ (P.shared.service.clients m.2.poolId).elems, sockets c = .accepts →
        ⟨m.1, c, false⟩ ∉ P.log))
  | .outside (.poll _ _) | .outside (.call _) | .step _ _ => instDecidableTrue

/-! ### Handling an event -/

/-- The events that may still be delivered by Redis. -/
def pending (messages : List (ℕ × PriceEvent)) (running : List Handling) : List ℕ :=
  running.filterMap Handling.number ++ messages.map Prod.fst

/-- What every reachable state keeps. -/
structure Ordered (P : Interleaving.Pool (Feed ω) Handling (Sent ω)) : Prop where
  represents : ∃ R, Represents P.shared.service R
  once : SentOnce P.log
  handled : ∀ x ∈ P.log, x.event < P.shared.handled
  nodup : (pending P.shared.messages P.running).Nodup
  pending_lt : ∀ n ∈ pending P.shared.messages P.running, n < P.shared.handled
  direct : ∀ n ∈ pending P.shared.messages P.running, ∀ x ∈ P.log, x.event = n →
    x.relayed = false

omit [DecidableEq ω] in
/-- Messages about one event go to different clients, none of whom has one. -/
theorem SentOnce.append {log : List (Sent ω)} {n : ℕ} {sent : List ω} {relayed : Bool}
    (h : SentOnce log) (hnodup : sent.Nodup)
    (hnew : ∀ c ∈ sent, ∀ x ∈ log, x.event = n → x.client ≠ c) :
    SentOnce (log ++ sent.map (⟨n, ·, relayed⟩)) := by
  rw [SentOnce, List.map_append, List.map_map, List.nodup_append]
  refine ⟨h, hnodup.map fun c c' hcc => (Prod.mk.inj hcc).2, ?_⟩
  intro a ha b hb hab
  obtain ⟨x, hx, rfl⟩ := List.mem_map.mp ha
  obtain ⟨c, hc, rfl⟩ := List.mem_map.mp hb
  exact hnew c hc x hx (Prod.mk.inj hab).1 (Prod.mk.inj hab).2

/-- What a broadcast does: the clients of the pool that take it are sent the event, each once. -/
theorem broadcast_spec {s : Feed ω} {R : Set (ω × String)} (h : Represents s.service R) (n : ℕ)
    (event : PriceEvent) (sockets : ω → Socket) (relayed : Bool) :
    ∃ (service : PriceService ω) (sent : List ω), s.broadcast n event sockets relayed =
        ({ s with service }, sent.map (⟨n, ·, relayed⟩)) ∧
      (∃ R', Represents service R') ∧ sent.Nodup ∧
      ∀ c, c ∈ sent ↔ c ∈ s.service.clients event.poolId ∧ sockets c = .accepts := by
  obtain ⟨hrep, hsent, -⟩ := h.broadcastPrice event sockets
  refine ⟨(s.service.broadcastPrice event sockets).1, (s.service.broadcastPrice event sockets).2,
    rfl, ⟨_, hrep⟩, ?_, fun c => ?_⟩
  · rw [hsent]
    exact (s.service.clients event.poolId).nodup.filter _
  · rw [hsent, List.mem_filter, decide_eq_true_iff]
    exact Iff.rfl

variable {F : Format} {P P' : Interleaving.Pool (Feed ω) Handling (Sent ω)} {s s' : Feed ω}
  {log seen : List (Sent ω)}

/-- The events of some polls come first among those that are pending. -/
theorem pending_perm (messages : List (ℕ × PriceEvent)) (before ps after : List Handling) :
    (pending messages (before ++ ps ++ after)).Perm
      (pending messages ps ++ (before ++ after).filterMap Handling.number) := by
  simp only [pending, List.filterMap_append, List.append_assoc]
  refine List.perm_append_comm.trans ?_
  simp only [List.append_assoc]
  refine (List.perm_append_left_iff _).mpr (List.perm_append_comm.trans ?_)
  rw [List.append_assoc]

/-- A step that sends nothing and starts no event: it may only drop events that were pending. -/
theorem Ordered.quiet {running running' : List Handling} (h : Ordered ⟨s, running, log⟩)
    (hrep : ∃ R, Represents s'.service R) (hhandled : s'.handled = s.handled)
    (hpending : (pending s'.messages running').Subperm (pending s.messages running)) :
    Ordered ⟨s', running', log⟩ where
  represents := hrep
  once := h.once
  handled x hx := hhandled ▸ h.handled x hx
  nodup := by
    obtain ⟨l, hperm, hsub⟩ := hpending
    exact hperm.nodup_iff.mp (h.nodup.sublist hsub)
  pending_lt n hn := hhandled ▸ h.pending_lt n (hpending.subset hn)
  direct n hn := h.direct n (hpending.subset hn)

/-- What a step of a poll does: it goes on, or it hands an event to the clients. -/
theorem step_cases {p : Handling} {x : Answer ω} {ps : List Handling}
    (h : Feed.step F s p x = some (s', ps, seen)) :
    (seen = [] ∧ s'.service = s.service ∧ s'.handled = s.handled ∧
      (pending s'.messages ps).Subperm (pending s.messages [p])) ∨
    ∃ accountId rest event sockets,
      { s with handled := s.handled + 1 }.broadcast s.handled event sockets false = (s', seen) ∧
      p.number = none ∧ ps = [.updating s.handled event accountId rest] := by
  cases p with
  | records accountId rest =>
    cases rest with
    | nil =>
      cases h
      exact .inl ⟨rfl, rfl, rfl, .refl _⟩
    | cons r rest =>
      cases x with
      | fails =>
        cases h
        exact .inl ⟨rfl, rfl, rfl, .refl _⟩
      | succeeds => cases h
      | sockets f =>
        simp only [Feed.step] at h
        split at h
        · cases h
          exact .inl ⟨rfl, rfl, rfl, .refl _⟩
        · rename_i event hprice
          cases h
          exact .inr ⟨accountId, rest, event, f, rfl, rfl, rfl⟩
  | updating n event accountId rest =>
    cases x with
    | succeeds =>
      cases h
      exact .inl ⟨rfl, rfl, rfl, .refl _⟩
    | fails =>
      cases h
      exact .inl ⟨rfl, rfl, rfl, (List.sublist_cons_self ..).subperm⟩
    | sockets f => cases h
  | publishing n event accountId rest =>
    cases x with
    | succeeds =>
      cases h
      unfold Feed.publish
      split
      · refine .inl ⟨rfl, rfl, rfl, List.Perm.subperm ?_⟩
        show (List.map Prod.fst (s.messages ++ [(n, event)])).Perm
          (n :: s.messages.map Prod.fst)
        rw [List.map_append]
        exact List.perm_append_comm
      · exact .inl ⟨rfl, rfl, rfl, (List.sublist_cons_self ..).subperm⟩
    | fails =>
      cases h
      exact .inl ⟨rfl, rfl, rfl, (List.sublist_cons_self ..).subperm⟩
    | sockets f => cases h

/-- A broadcast of an event that no client it goes to has. -/
theorem Ordered.broadcast {n : ℕ} {event : PriceEvent} {sockets : ω → Socket} {relayed : Bool}
    {t : Feed ω} (hrep : ∃ R, Represents s.service R) (honce : SentOnce log)
    (hlog : ∀ x ∈ log, x.event < s.handled) (hn : n < s.handled)
    (hnew : ∀ c ∈ s.service.clients event.poolId, sockets c = .accepts →
      ∀ x ∈ log, x.event = n → x.client ≠ c)
    (h : s.broadcast n event sockets relayed = (t, seen)) :
    (∃ R, Represents t.service R) ∧ t.handled = s.handled ∧ t.messages = s.messages ∧
      SentOnce (log ++ seen) ∧ (∀ x ∈ log ++ seen, x.event < s.handled) ∧
      ∀ x ∈ seen, x.event = n ∧ x.relayed = relayed := by
  obtain ⟨R, hR⟩ := hrep
  obtain ⟨service, sent, heq, hrep', hnodup, hsent⟩ :=
    broadcast_spec hR n event sockets relayed
  obtain ⟨rfl, rfl⟩ := Prod.mk.inj (heq.symm.trans h)
  have hseen : ∀ x ∈ sent.map (fun c => (⟨n, c, relayed⟩ : Sent ω)),
      x.event = n ∧ x.relayed = relayed := by
    intro x hx
    obtain ⟨c, -, rfl⟩ := List.mem_map.mp hx
    exact ⟨rfl, rfl⟩
  refine ⟨hrep', rfl, rfl, ?_, fun x hx => ?_, hseen⟩
  · exact honce.append hnodup fun c hc => hnew c ((hsent c).mp hc).1 ((hsent c).mp hc).2
  · rcases List.mem_append.mp hx with hx | hx
    · exact hlog x hx
    · exact (hseen x hx).1 ▸ hn

/-- A step of a poll keeps what is pending apart from what was relayed. -/
theorem Ordered.step {before after ps : List Handling} {p : Handling} {x : Answer ω}
    (h : Ordered ⟨s, before ++ p :: after, log⟩) (hs : Feed.step F s p x = some (s', ps, seen)) :
    Ordered ⟨s', before ++ ps ++ after, log ++ seen⟩ := by
  have hperm := pending_perm s.messages before [p] after
  rw [List.append_assoc, List.singleton_append] at hperm
  rcases step_cases hs with ⟨rfl, hservice, hhandled, hsub⟩ |
    ⟨accountId, rest, event, sockets, hb, hp, rfl⟩
  · rw [List.append_nil]
    refine h.quiet (hservice ▸ h.represents) hhandled ?_
    refine (pending_perm s'.messages before ps after).subperm.trans (.trans ?_ hperm.symm.subperm)
    exact (List.subperm_append_right _).mpr hsub
  · have hfresh : ∀ y ∈ log, y.event ≠ s.handled := fun y hy => Nat.ne_of_lt (h.handled y hy)
    obtain ⟨hrep, hhandled, hmessages, honce, hlt, hseen⟩ := Ordered.broadcast
      (s := { s with handled := s.handled + 1 }) h.represents h.once
      (fun y hy => Nat.lt_succ_of_lt (h.handled y hy)) (Nat.lt_succ_self _)
      (fun c _ _ y hy hye => absurd hye (hfresh y hy)) hb
    -- The event joins those that were pending.
    have hpending : (pending s'.messages (before ++ [.updating s.handled event accountId rest]
        ++ after)).Perm (s.handled :: pending s.messages (before ++ p :: after)) := by
      refine (pending_perm ..).trans (.trans ?_ (hperm.symm.cons _))
      rw [hmessages, pending, pending, List.filterMap_cons_none hp]
      exact .refl _
    refine ⟨hrep, honce, fun y hy => hhandled ▸ hlt y hy, ?_, fun n hn => ?_,
      fun n hn y hy hyn => ?_⟩
    · rw [hpending.nodup_iff, List.nodup_cons]
      exact ⟨fun hmem => Nat.lt_irrefl _ (h.pending_lt _ hmem), h.nodup⟩
    · rw [hhandled]
      rcases List.mem_cons.mp (hpending.subset hn) with rfl | hn
      · exact Nat.lt_succ_self _
      · exact Nat.lt_succ_of_lt (h.pending_lt n hn)
    · rcases List.mem_append.mp hy with hy | hy
      · rcases List.mem_cons.mp (hpending.subset hn) with rfl | hn
        · exact absurd hyn (hfresh y hy)
        · exact h.direct n hn y hy hyn
      · exact (hseen y hy).2

/-- A call of a client changes the subscriptions alone. -/
theorem outside_call {call : Call ω} {ps : List Handling}
    (h : Feed.outside s (.call call) = some (s', ps, seen)) :
    s' = { s with service := call.perform s.service } ∧ ps = [] ∧ seen = [] := by
  cases call <;> cases h <;> exact ⟨rfl, rfl, rfl⟩

/-- What happens besides keeps it too, if what Redis delivers goes to none that has it. -/
theorem Ordered.outside {running ps : List Handling} {e : Occurrence ω}
    (h : Ordered ⟨s, running, log⟩) (hC : NotAgain ⟨s, running, log⟩ (.outside e))
    (hs : Feed.outside s e = some (s', ps, seen)) :
    Ordered ⟨s', ps ++ running, log ++ seen⟩ := by
  cases e with
  | poll accountId records =>
    cases hs
    rw [List.append_nil]
    exact h.quiet h.represents rfl (.refl _)
  | call call =>
    obtain ⟨R, hR⟩ := h.represents
    obtain ⟨rfl, rfl, rfl⟩ := outside_call hs
    rw [List.append_nil]
    exact h.quiet ⟨_, hR.perform call⟩ rfl (.refl _)
  | deliver sockets =>
    simp only [Feed.outside] at hs
    split at hs
    · cases hs
    · rename_i n event messages hmessages
      cases hs
      have hpending : (pending s.messages running).Perm (n :: pending messages running) := by
        rw [hmessages]
        exact List.perm_middle
      have hnodup := List.nodup_cons.mp (hpending.nodup_iff.mp h.nodup)
      have hin (m : ℕ) (hm : m ∈ pending messages running) : m ∈ pending s.messages running :=
        hpending.symm.subset (.tail n hm)
      have hn := hpending.symm.subset (List.mem_cons_self (l := pending messages running))
      -- Whoever has the event was sent it directly, and Redis delivers it to none of those.
      have hnew : ∀ c ∈ s.service.clients event.poolId, sockets c = .accepts →
          ∀ x ∈ log, x.event = n → x.client ≠ c := by
        intro c hc haccepts x hx hxn hxc
        obtain ⟨m, c', relayed⟩ := x
        obtain rfl : m = n := hxn
        obtain rfl : c' = c := hxc
        obtain rfl : relayed = false := h.direct m hn _ hx rfl
        have hhead : (m, event) ∈ s.messages.head? := by rw [hmessages]; rfl
        exact hC _ hhead c' hc haccepts hx
      obtain ⟨hrep, hhandled, hmessages', honce, hlt, hseen⟩ := Ordered.broadcast
        (s := { s with messages }) h.represents h.once h.handled (h.pending_lt n hn) hnew rfl
      refine ⟨hrep, honce, hlt, hmessages'.symm ▸ hnodup.2, fun m hm => h.pending_lt m (hin m hm),
        fun m hm x hx hxm => ?_⟩
      rcases List.mem_append.mp hx with hx | hx
      · exact h.direct m (hin m hm) x hx hxm
      · obtain rfl : m = n := hxm.symm.trans (hseen x hx).1
        exact absurd hm hnodup.1

theorem ordered_start :
    Ordered (⟨Feed.start, [], []⟩ : Interleaving.Pool (Feed ω) Handling (Sent ω)) where
  represents := ⟨∅, .init⟩
  once := List.nodup_nil
  handled _ hx := absurd hx List.not_mem_nil
  nodup := List.nodup_nil
  pending_lt _ hn := absurd hn List.not_mem_nil
  direct _ hn := absurd hn List.not_mem_nil

/-- Where Redis delivers an event to a client that was sent it directly, that client has two. -/
theorem notAgain_of_sentOnce {a : Act (Answer ω) (Occurrence ω)} (h : Ordered P)
    (hexec : (Feed.rules F).exec P a = .ok (P', seen)) (honce : SentOnce P'.log) :
    NotAgain P a := by
  rw [log_exec hexec, SentOnce, List.map_append, List.nodup_append] at honce
  rcases a with _ | e
  · trivial
  · cases e with
    | deliver sockets =>
      rintro ⟨n, event⟩ hhead c hc haccepts hmem
      obtain ⟨messages, hmessages⟩ := List.head?_eq_some_iff.mp hhead
      obtain ⟨R, hR⟩ := h.represents
      obtain ⟨service, sent, hb, -, -, hsent⟩ := broadcast_spec
        (s := { P.shared with messages }) hR n event sockets true
      have hseen : seen = sent.map (⟨n, ·, true⟩) := by
        simp only [Rules.exec, Feed.rules, Feed.outside, hmessages, hb] at hexec
        exact (Prod.mk.inj (Except.ok.inj hexec)).2.symm
      refine honce.2.2 (n, c) ?_ (n, c) ?_ rfl
      · exact List.mem_map.mpr ⟨_, hmem, rfl⟩
      · rw [hseen, List.map_map]
        exact List.mem_map.mpr ⟨c, (hsent c).mpr ⟨hc, haccepts⟩, rfl⟩
    | poll accountId records => trivial
    | call call => trivial

/-- **Each client is sent an event once**, in a run, exactly if what Redis delivers meets no open
subscription of a client that was sent it directly. -/
theorem sentOnce_iff (F : Format) {acts : List (Act (Answer ω) (Occurrence ω))}
    (h : (Feed.rules F).run ⟨Feed.start, [], []⟩ acts = some P) :
    SentOnce P.log ↔ Along (Feed.rules F).exec NotAgain ⟨Feed.start, [], []⟩ acts := by
  refine Rules.well_iff_along (I := Ordered) (W := fun P => SentOnce P.log)
    ?_ ?_ ?_ ?_ ?_ h ordered_start
  · intro s before p after log x s' ps seen hI _ hs
    exact hI.step hs
  · intro s running log e s' ps seen hI hC hs
    exact hI.outside hC hs
  · intro P hI
    exact hI.once
  · intro P a P' seen hI hexec honce
    exact notAgain_of_sentOnce hI hexec honce
  · intro P a P' seen hexec honce
    rw [log_exec hexec, SentOnce, List.map_append] at honce
    exact honce.of_append_left

/-! ### Twice -/

/-- A format that writes one text for every root and every time. -/
def plain : Format := ⟨fun _ => "0.0000000", fun _ => some 0⟩

def freeRecord : PriceRecord := ⟨some "0", some "pool", none, none, "1970-01-01T00:00:00Z"⟩

/-- A client subscribes to the channel of the record, which is then handled and published. -/
def published : List (Act (Answer ℕ) (Occurrence ℕ)) :=
  [.outside (.call (.subscribe 0 "pool")), .outside (.call .carryOut),
    .outside (.poll "pool" [freeRecord]), .step 0 (.sockets fun _ => .accepts),
    .step 0 .succeeds, .step 0 .succeeds]

/-- The client leaves before Redis delivers the event. -/
theorem sentOnce_iff_left :
    ∃ P, (Feed.rules plain).run ⟨Feed.start, [], []⟩ (published ++
        [.outside (.call (.unsubscribe 0 "pool")), .outside (.deliver fun _ => .accepts)]) = some P ∧
      SentOnce P.log :=
  have hsome : ((Feed.rules plain).run ⟨Feed.start, [], []⟩ (published ++
      [.outside (.call (.unsubscribe 0 "pool")),
        .outside (.deliver fun _ => .accepts)])).isSome := by
    decide +kernel
  ⟨_, (Option.some_get hsome).symm,
    (sentOnce_iff plain (Option.some_get hsome).symm).mpr (by decide +kernel)⟩

/-- The client stays and is sent the event again. -/
theorem not_sentOnce_published :
    ¬ ∀ acts P, (Feed.rules plain).run ⟨(Feed.start : Feed ℕ), [], []⟩ acts = some P →
      SentOnce P.log := by
  intro h
  have hlog : ((Feed.rules plain).run ⟨(Feed.start : Feed ℕ), [], []⟩ (published ++
      [.outside (.deliver fun _ => .accepts)])).map (·.log) =
        some [⟨0, 0, false⟩, ⟨0, 0, true⟩] := by
    decide +kernel
  obtain ⟨P, hrun, hP⟩ := Option.map_eq_some_iff.mp hlog
  have honce := h _ P hrun
  rw [hP] at honce
  exact absurd honce (by decide)

end Swyft.Price
