import Swyft.Horizon
import Mathlib.Data.List.MinMax

/-!
# Polling at the live edge

Horizon keeps the effects of all accounts in the order of their paging tokens, and answers a
request with the first fifty effects of an account after a cursor. `'now'` is the newest token at
the moment of the request. The service starts from it where no ledger is on record, and replaces
it by the token of an effect it was given.

No effect comes after the newest token, so a poll from `'now'` is given none. The cursor stays
`'now'`, and what occurs between two polls is before it when it is asked for.

## Main results

* `answer_delivers` — an answer of Horizon is one that a poll is allowed to rest on
* `nothing_delivered` — without a ledger on record no poll is ever given anything
* `live_edge_iff` — polling has no hole exactly while there is nothing to miss
-/

namespace Swyft.Horizon

open Checked Indexer

/-! ### Horizon -/

/-- `limit(50)`. -/
def pageLimit : ℕ := 50

/-- What happens: an effect of an account occurs, or the account is polled. -/
inductive Happening (τ : Type) where
  | occurs (account : String) (record : EffectRecord τ)
  | polls (account : String) (attempts : Option ℕ → Attempt)

/-- Horizon and the service: the effects from before the service started, those that have
occurred since, and the state of the service. -/
structure Live (τ : Type) where
  past : List (String × EffectRecord τ)
  since : List (String × EffectRecord τ)
  service : State τ

variable {τ : Type}

/-- The effects of all accounts. -/
def Live.effects (L : Live τ) : List (String × EffectRecord τ) := L.past ++ L.since

/-- `onModuleInit`. An identifier that is not set is empty; `String(ledger)` is read as a token. -/
def onModuleInit (ledgerToken : ℕ → τ) (poolFactoryContractId legacyPoolContractId : String)
    (ledger : ℕ) : State τ :=
  let startCursor : WithBot τ := if 0 < ledger then ledgerToken ledger else ⊥
  .start fun account =>
    if account ≠ "" ∧ (account = poolFactoryContractId ∨ account = legacyPoolContractId) then
      some startCursor
    else none

section Answers

variable [LinearOrder τ]

/-- The newest of the tokens. -/
def newest (effects : List (String × EffectRecord τ)) : WithBot τ :=
  (effects.map (·.2.pagingToken)).maximum

/-- `effects().forAccount(accountId).cursor(cursor).order('asc').limit(50)`. -/
def answer (effects : List (String × EffectRecord τ)) (accountId : String) (cursor : WithBot τ) :
    List (EffectRecord τ) :=
  let after := if cursor = ⊥ then newest effects else cursor
  (((effects.filter (·.1 = accountId)).map (·.2)).filter (after < ·.pagingToken)).take pageLimit

/-- The poll of an account that Horizon answers. -/
def Live.poll (L : Live τ) (account : String) (attempts : Option ℕ → Attempt) : Poll τ where
  account
  page := answer L.effects account (L.service.cursor account)
  attempts

/-- An effect occurs with a new token; a tracked account is polled. -/
def Live.exec (text : τ → String) (L : Live τ) : Happening τ → Except Unit (Live τ × List τ)
  | .occurs account record =>
    if newest L.effects < record.pagingToken then
      .ok ({ L with since := L.since ++ [(account, record)] }, [])
    else .error ()
  | .polls account attempts =>
    if (L.service.cursors account).isSome then
      let (service, written) := L.service.pollAccount text (L.poll account attempts)
      .ok ({ L with service }, written)
    else .error ()

/-! ### Answers -/

variable {effects : List (String × EffectRecord τ)} {account : String} {c : WithBot τ}
  {r : EffectRecord τ}

theorem le_newest {e : String × EffectRecord τ} (h : e ∈ effects) :
    (e.2.pagingToken : WithBot τ) ≤ newest effects :=
  List.le_maximum_of_mem' (List.mem_map_of_mem h)

/-- No effect comes after now. -/
@[simp] theorem answer_now : answer effects account ⊥ = [] := by
  have hnone : ∀ r ∈ (effects.filter (·.1 = account)).map (·.2),
      ¬ newest effects < r.pagingToken := by
    intro r hr
    obtain ⟨e, he, rfl⟩ := List.mem_map.mp hr
    exact not_lt_of_ge (le_newest (List.mem_of_mem_filter he))
  rw [answer, if_pos rfl, List.filter_eq_nil_iff.mpr fun r hr => by simpa using hnone r hr,
    List.take_nil]

theorem mem_answer_of_ne (hc : c ≠ ⊥) (h : r ∈ answer effects account c) :
    c < r.pagingToken := by
  rw [answer, if_neg hc] at h
  exact of_decide_eq_true (List.mem_filter.mp (List.mem_of_mem_take h)).2

/-- In the order of the tokens, what comes before an effect of a page is on the page as well. -/
theorem mem_take_of_le {records : List (EffectRecord τ)} {x y : EffectRecord τ} {n : ℕ}
    (h : records.Pairwise fun r r' => r.pagingToken < r'.pagingToken) (hx : x ∈ records)
    (hy : y ∈ records.take n) (hle : x.pagingToken ≤ y.pagingToken) : x ∈ records.take n := by
  rw [← List.take_append_drop n records] at h hx
  rcases List.mem_append.mp hx with hx | hx
  · exact hx
  · exact absurd ((List.pairwise_append.mp h).2.2 y hy x hx) (not_lt_of_ge hle)

/-! ### Polls -/

/-- The effects are in the order of their tokens, and the service was given effects that
occurred. -/
structure Live.Consistent (L : Live τ) : Prop where
  ordered : L.effects.Pairwise fun e e' => e.2.pagingToken < e'.2.pagingToken
  occurred : ∀ d ∈ L.service.delivered, d ∈ L.effects

variable {text : τ → String} {L L' : Live τ} {attempts : Option ℕ → Attempt} {written : List τ}

/-- What Horizon answers is what a poll may be given. -/
theorem answer_delivers (h : L.Consistent) (htracked : (L.service.cursors account).isSome) :
    L.service.Delivers (L.poll account attempts) := by
  have hordered : ((L.effects.filter (·.1 = account)).map (·.2)).Pairwise
      fun r r' => r.pagingToken < r'.pagingToken :=
    List.pairwise_map.mpr (h.ordered.filter _)
  refine ⟨htracked, (hordered.filter _).sublist (List.take_sublist _ _), ?_, ?_⟩
  · intro r hr
    by_cases hcursor : L.service.cursor account = ⊥
    · simp [Live.poll, hcursor] at hr
    · exact mem_answer_of_ne hcursor hr
  · rintro ⟨b, r⟩ hd hb hafter ⟨y, hy, hle⟩
    obtain rfl : b = account := hb
    by_cases hcursor : L.service.cursor b = ⊥
    · simp [Live.poll, hcursor] at hy
    · simp only [Live.poll, answer] at hafter hy ⊢
      rw [if_neg hcursor] at hy ⊢
      refine mem_take_of_le (hordered.filter _) (List.mem_filter.mpr ⟨?_, ?_⟩) hy hle
      · exact List.mem_map.mpr ⟨_, List.mem_filter.mpr ⟨h.occurred _ hd, by simp⟩, rfl⟩
      · exact decide_eq_true hafter

/-- The polls of the service at Horizon are polls of the service. -/
theorem exec_polls (h : L.Consistent)
    (hexec : L.exec text (.polls account attempts) = .ok (L', written)) :
    exec text L.service (L.poll account attempts) = .ok (L'.service, written) := by
  simp only [Live.exec] at hexec
  split at hexec
  · rename_i htracked
    rw [exec, if_pos (answer_delivers h htracked)]
    cases hexec
    rfl
  · cases hexec

theorem Live.Consistent.exec {happening : Happening τ} (h : L.Consistent)
    (hexec : L.exec text happening = .ok (L', written)) : L'.Consistent := by
  cases happening with
  | occurs account record =>
    simp only [Live.exec] at hexec
    split at hexec
    · rename_i hnew
      cases hexec
      refine ⟨?_, fun d hd => ?_⟩
      · rw [Live.effects, ← List.append_assoc]
        refine List.pairwise_append.mpr ⟨h.ordered, List.pairwise_singleton _ _, ?_⟩
        intro e he e' he'
        rw [List.mem_singleton] at he'
        subst he'
        exact WithBot.coe_lt_coe.mp ((le_newest he).trans_lt hnew)
      · rw [Live.effects, ← List.append_assoc]
        exact List.mem_append_left _ (h.occurred d hd)
    · cases hexec
  | polls account attempts =>
    simp only [Live.exec] at hexec
    split at hexec
    · cases hexec
      refine ⟨h.ordered, fun d hd => ?_⟩
      rw [pollAccount_delivered] at hd
      rcases List.mem_append.mp hd with hd | hd
      · exact h.occurred d hd
      · obtain ⟨r, hr, rfl⟩ := List.mem_map.mp hd
        have hr := List.mem_of_mem_filter (List.mem_of_mem_take hr)
        obtain ⟨⟨b, r⟩, he, rfl⟩ := List.mem_map.mp hr
        obtain ⟨hoccurred, hb⟩ := List.mem_filter.mp he
        obtain rfl : b = account := of_decide_eq_true hb
        exact hoccurred
    · cases hexec

end Answers

/-! ### Without a ledger on record -/

/-- All cursors are `'now'`, and nothing has been delivered. -/
structure State.Waiting (s : State τ) : Prop where
  now : ∀ account c, s.cursors account = some c → c = ⊥
  nothing : s.delivered = []

theorem waiting_onModuleInit (ledgerToken : ℕ → τ) (factory legacy : String) :
    (onModuleInit ledgerToken factory legacy 0).Waiting where
  now := by
    intro account c hc
    simp only [onModuleInit, State.start] at hc
    split at hc
    · exact (Option.some.inj hc).symm
    · cases hc
  nothing := rfl

theorem State.Waiting.cursor {s : State τ} (h : s.Waiting) (account : String) :
    s.cursor account = ⊥ := by
  cases hc : s.cursors account with
  | none => simp [State.cursor, hc]
  | some c => simp [State.cursor, hc, h.now account c hc]

section Waiting

variable [LinearOrder τ] {account : String} {text : τ → String} {L L' : Live τ}
  {attempts : Option ℕ → Attempt} {written : List τ}

/-- A service that waits is given an empty page. -/
theorem State.Waiting.page (h : L.service.Waiting) : (L.poll account attempts).page = [] := by
  simp [Live.poll, h.cursor]

/-- An empty page leaves the service as it is. -/
theorem State.Waiting.pollAccount (h : L.service.Waiting) :
    L.service.pollAccount text (L.poll account attempts) = (L.service, []) := by
  rw [State.pollAccount, h.page, List.map_nil, List.append_nil]
  rfl

theorem State.Waiting.exec {happening : Happening τ} (h : L.service.Waiting)
    (hexec : L.exec text happening = .ok (L', written)) : L'.service.Waiting := by
  cases happening with
  | occurs account record =>
    simp only [Live.exec] at hexec
    split at hexec <;> cases hexec
    exact h
  | polls account attempts =>
    simp only [Live.exec, h.pollAccount] at hexec
    split at hexec <;> cases hexec
    exact h

/-- **Nothing is ever delivered.** Whatever occurs, the polls of a service that started without a
ledger on record return nothing. -/
theorem nothing_delivered {ledgerToken : ℕ → τ} {factory legacy : String}
    {past : List (String × EffectRecord τ)} {happenings : List (Happening τ)}
    {ls : List (Happening τ × List τ)}
    (h : runAll (Live.exec text) ⟨past, [], onModuleInit ledgerToken factory legacy 0⟩ happenings =
      .ok (L, ls)) : L.service.delivered = [] := by
  have hwaiting := (trace_of_runAll h).invariant (I := fun L => L.service.Waiting)
    (fun _ _ _ hwaiting hfires => hwaiting.exec hfires) (waiting_onModuleInit ..)
  exact hwaiting.nothing

/-- A poll that returns less than a page has been given, by its end, every effect of its account
that occurred since the service started. -/
def NoHole (text : τ → String) (L : Live τ) : Happening τ → Prop
  | .occurs _ _ => True
  | .polls account attempts => (L.service.cursors account).isSome →
    (L.poll account attempts).page.length < pageLimit → ∀ r, (account, r) ∈ L.since →
      (account, r) ∈ (L.service.pollAccount text (L.poll account attempts)).1.delivered

/-- No effect of an account that is polled has occurred since the service started. -/
def Quiet (L : Live τ) : Happening τ → Prop
  | .occurs _ _ => True
  | .polls account _ => (L.service.cursors account).isSome → ∀ r, (account, r) ∉ L.since

theorem noHole_iff (h : L.service.Waiting) (happening : Happening τ) :
    NoHole text L happening ↔ Quiet L happening := by
  cases happening with
  | occurs => exact Iff.rfl
  | polls account attempts =>
    simp [NoHole, Quiet, h.page, h.pollAccount, h.nothing, pageLimit]

/-- **The live edge.** In a run from the start without a ledger on record, with effects that occur
at any times, the polls that return less than a page leave no hole exactly if no account is polled
after one of its effects has occurred. -/
theorem live_edge_iff (text : τ → String) (ledgerToken : ℕ → τ)
    (poolFactoryContractId legacyPoolContractId : String) (past : List (String × EffectRecord τ))
    (happenings : List (Happening τ)) :
    Along (Live.exec text) (NoHole text)
        ⟨past, [], onModuleInit ledgerToken poolFactoryContractId legacyPoolContractId 0⟩
        happenings ↔
      Along (Live.exec text) Quiet
        ⟨past, [], onModuleInit ledgerToken poolFactoryContractId legacyPoolContractId 0⟩
        happenings := by
  have hstart := waiting_onModuleInit ledgerToken poolFactoryContractId legacyPoolContractId
  constructor
  · exact fun h => h.imp_of_invariant (I := fun L => L.service.Waiting)
      (fun _ _ _ _ hwaiting _ hexec => hwaiting.exec hexec)
      (fun _ happening hwaiting hno => (noHole_iff hwaiting happening).mp hno) hstart
  · exact fun h => h.imp_of_invariant (I := fun L => L.service.Waiting)
      (fun _ _ _ _ hwaiting _ hexec => hwaiting.exec hexec)
      (fun _ happening hwaiting hquiet => (noHole_iff hwaiting happening).mpr hquiet) hstart

/-- A swap occurs after the service has started, and the pool is polled. -/
theorem swap_at_live_edge_missed :
    ¬ Along (Live.exec toString) (NoHole toString)
      ⟨[], [], onModuleInit id "factory" "pool" 0⟩
      [.occurs "pool" (swapEffect 1 (some 5)), .polls "pool" fun _ => .enqueue fun _ => .added] := by
  intro h
  exact absurd (h.2.1 (by decide) (by decide) (swapEffect 1 (some 5)) (by decide)) (by decide)

end Waiting

end Swyft.Horizon
