import Swyft.Lib.Interleaving
import Mathlib.Data.Int.ConditionallyCompleteOrder
import Mathlib.Order.ConditionallyCompleteLattice.Basic
import Mathlib.Order.WithBot
import Mathlib.Order.MinMax

/-!
# The ledger cursor

`apps/api/src/indexer/indexer-cursor.service.ts`: the last ledger processed, kept in a row of the
database and in the cache. `advanceLedger` reads the row and writes it in two steps, between which
other calls may run.

A call that has read the row and found its ledger higher writes it whatever the row holds by
then. So the row falls as soon as a call overtakes one with a smaller ledger that has read the
row and not yet written it, and only then: a call that may write keeps the row at most at its own
ledger as long as nobody writes past it.

`CacheService.setMaxNumber` is not among the sources. It is taken to be an atomic maximum, and no
decision about the row depends on it.

## Main results

* `cursor_maximum_iff` — the row never falls and ends at the maximum exactly if no call overtakes
* `cursor_falls` — three calls that leave a smaller ledger behind
-/

namespace Swyft.Indexer

open Interleaving

/-! ### The service -/

/-- `Number.isSafeInteger`, of an integer. -/
def isSafeInteger (n : ℤ) : Bool := -(2 ^ 53 - 1) ≤ n && n ≤ 2 ^ 53 - 1

/-- The row of the cursor, its text by the safe integer it stands for, if it stands for one. -/
structure CursorRow where
  cursor : Option ℤ
  deriving DecidableEq

structure CursorStore where
  cached : Option ℤ
  row : Option CursorRow
  deriving DecidableEq

/-- `CacheService.setMaxNumber` on the last indexed ledger: the maximum, and whether it is new. -/
def setMaxNumber (cached : Option ℤ) (ledger : ℤ) : Option ℤ × Bool :=
  match cached with
  | none => (some ledger, true)
  | some n => if n < ledger then (some ledger, true) else (some n, false)

/-- What is left of a call of `advanceLedger`. -/
inductive AdvanceCall where
  | setMax (ledger : ℤ)
  | findUnique (ledger : ℤ) (cacheUpdated : Bool)
  | upsert (ledger : ℤ)
  deriving DecidableEq

inductive CursorEvent where
  /-- A call with a ledger that is looked at. -/
  | accepted (ledger : ℤ)
  | returned (ledger : ℤ) (advanced : Bool)
  deriving DecidableEq

/-- `shouldPersist`. -/
def shouldPersist (row : Option CursorRow) (ledger : ℤ) : Bool :=
  match row with
  | none => -1 < ledger
  | some ⟨none⟩ => true
  | some ⟨some currentLedger⟩ => currentLedger < ledger

/-- The steps of `advanceLedger`, from one access to the next. -/
def advanceLedger (s : CursorStore) :
    AdvanceCall → CursorStore × List AdvanceCall × List CursorEvent
  | .setMax ledger =>
    let (cached, cacheUpdated) := setMaxNumber s.cached ledger
    ({ s with cached }, [.findUnique ledger cacheUpdated], [])
  | .findUnique ledger cacheUpdated =>
    if shouldPersist s.row ledger then (s, [.upsert ledger], [])
    else (s, [], [.returned ledger cacheUpdated])
  | .upsert ledger => ({ s with row := some ⟨some ledger⟩ }, [], [.returned ledger true])

/-- A call of `advanceLedger`. A ledger that is no safe integer or negative is refused. -/
def callAdvanceLedger (s : CursorStore) (ledger : ℤ) :
    CursorStore × List AdvanceCall × List CursorEvent :=
  if isSafeInteger ledger && 0 ≤ ledger then (s, [.setMax ledger], [.accepted ledger])
  else (s, [], [.returned ledger false])

def cursorRules : Rules CursorStore AdvanceCall Unit ℤ CursorEvent where
  step s c _ := some (advanceLedger s c)
  outside s ledger := some (callAdvanceLedger s ledger)

/-! ### What is promised -/

/-- How far a row is: nowhere, where there is none or it holds no number. -/
def level (row : Option CursorRow) : WithBot ℤ := row.bind CursorRow.cursor

/-- The ledgers of the calls so far. -/
def passed (log : List CursorEvent) : List ℤ :=
  log.filterMap fun
    | .accepted ledger => some ledger
    | .returned _ _ => none

/-- The largest of a value and some ledgers. -/
def highest (initial : WithBot ℤ) (ledgers : List ℤ) : WithBot ℤ :=
  ledgers.foldr (fun (l : ℤ) m => max (l : WithBot ℤ) m) initial

/-- The step leaves the row no lower than it found it. -/
def Rises (P : Pool CursorStore AdvanceCall CursorEvent) (a : Act Unit ℤ) : Prop :=
  Checked.Ensures (cursorRules.exec P a) fun x => level P.shared.row ≤ level x.1.shared.row

/-- The first call is about to write a larger ledger than the second. -/
def overtakes : AdvanceCall → AdvanceCall → Bool
  | .upsert ledger, .upsert ledger' => ledger' < ledger
  | _, _ => false

/-- No call writes a ledger while another is about to write a smaller one. -/
def InTurn (P : Pool CursorStore AdvanceCall CursorEvent) : Act Unit ℤ → Prop
  | .step i _ => ∀ c ∈ P.running[i]?, ∀ c' ∈ P.running, overtakes c c' = false
  | .outside _ => True

instance decidableInTurn (P : Pool CursorStore AdvanceCall CursorEvent) :
    ∀ a, Decidable (InTurn P a)
  | .step i _ =>
    inferInstanceAs (Decidable (∀ c ∈ P.running[i]?, ∀ c' ∈ P.running, overtakes c c' = false))
  | .outside _ => instDecidableTrue

/-! ### Levels -/

theorem highest_le_iff {initial : WithBot ℤ} {ledgers : List ℤ} {x : WithBot ℤ} :
    highest initial ledgers ≤ x ↔ initial ≤ x ∧ ∀ l ∈ ledgers, (l : WithBot ℤ) ≤ x := by
  induction ledgers with
  | nil => simp [highest]
  | cons l ls ih =>
    have hcons : highest initial (l :: ls) = max (l : WithBot ℤ) (highest initial ls) := rfl
    rw [hcons, max_le_iff, ih]
    simp only [List.mem_cons, forall_eq_or_imp]
    tauto

theorem passed_append (log seen : List CursorEvent) :
    passed (log ++ seen) = passed log ++ passed seen :=
  List.filterMap_append ..

/-- A call writes if its ledger is higher than the row. -/
theorem shouldPersist_iff {row : Option CursorRow} {ledger : ℤ} (h : 0 ≤ ledger) :
    shouldPersist row ledger = true ↔ level row < ledger := by
  match row with
  | none =>
    refine ⟨fun _ => WithBot.bot_lt_coe ledger, fun _ => ?_⟩
    simp only [shouldPersist, decide_eq_true_eq]
    omega
  | some ⟨none⟩ => exact ⟨fun _ => WithBot.bot_lt_coe ledger, fun _ => rfl⟩
  | some ⟨some n⟩ =>
    change decide (n < ledger) = true ↔ (n : WithBot ℤ) < ledger
    rw [decide_eq_true_eq, WithBot.coe_lt_coe]

/-! ### Steps -/

/-- The steps of the calls, among which `before` and `after` stand still. -/
inductive CursorMove : Pool CursorStore AdvanceCall CursorEvent → Act Unit ℤ →
    Pool CursorStore AdvanceCall CursorEvent → Prop
  | calls (s : CursorStore) (running : List AdvanceCall) (log : List CursorEvent) (ledger : ℤ) :
      0 ≤ ledger → CursorMove ⟨s, running, log⟩ (.outside ledger)
        ⟨s, [.setMax ledger] ++ running, log ++ [.accepted ledger]⟩
  | refuses (s : CursorStore) (running : List AdvanceCall) (log : List CursorEvent) (ledger : ℤ) :
      CursorMove ⟨s, running, log⟩ (.outside ledger)
        ⟨s, [] ++ running, log ++ [.returned ledger false]⟩
  | caches (s : CursorStore) (before after : List AdvanceCall) (log : List CursorEvent)
      (ledger : ℤ) (cached : Option ℤ) (cacheUpdated : Bool) :
      CursorMove ⟨s, before ++ .setMax ledger :: after, log⟩ (.step before.length ())
        ⟨{ s with cached }, before ++ [.findUnique ledger cacheUpdated] ++ after, log ++ []⟩
  | reads (s : CursorStore) (before after : List AdvanceCall) (log : List CursorEvent)
      (ledger : ℤ) (cacheUpdated : Bool) : shouldPersist s.row ledger = true →
      CursorMove ⟨s, before ++ .findUnique ledger cacheUpdated :: after, log⟩
        (.step before.length ()) ⟨s, before ++ [.upsert ledger] ++ after, log ++ []⟩
  | leaves (s : CursorStore) (before after : List AdvanceCall) (log : List CursorEvent)
      (ledger : ℤ) (cacheUpdated : Bool) : shouldPersist s.row ledger ≠ true →
      CursorMove ⟨s, before ++ .findUnique ledger cacheUpdated :: after, log⟩
        (.step before.length ()) ⟨s, before ++ [] ++ after, log ++ [.returned ledger cacheUpdated]⟩
  | writes (s : CursorStore) (before after : List AdvanceCall) (log : List CursorEvent)
      (ledger : ℤ) : CursorMove ⟨s, before ++ .upsert ledger :: after, log⟩ (.step before.length ())
        ⟨{ s with row := some ⟨some ledger⟩ }, before ++ [] ++ after,
          log ++ [.returned ledger true]⟩

theorem move_of_exec {P P' : Pool CursorStore AdvanceCall CursorEvent} {a : Act Unit ℤ}
    {seen : List CursorEvent} (h : cursorRules.exec P a = .ok (P', seen)) :
    CursorMove P a P' := by
  obtain ⟨s, running, log⟩ := P
  rcases exec_cases h with ⟨before, c, after, ⟨⟩, s', cs, rfl, hrun, hs, rfl⟩ |
    ⟨ledger, s', cs, rfl, hs, rfl⟩
  · obtain rfl : running = before ++ c :: after := hrun
    have hs : advanceLedger s c = (s', cs, seen) := Option.some.inj hs
    cases c with
    | setMax ledger =>
      cases hs
      exact .caches ..
    | findUnique ledger cacheUpdated =>
      by_cases hpersist : shouldPersist s.row ledger = true
      · rw [advanceLedger, if_pos hpersist] at hs
        cases hs
        exact .reads _ _ _ _ _ _ hpersist
      · rw [advanceLedger, if_neg hpersist] at hs
        cases hs
        exact .leaves _ _ _ _ _ _ hpersist
    | upsert ledger =>
      cases hs
      exact .writes ..
  · have hs : callAdvanceLedger s ledger = (s', cs, seen) := Option.some.inj hs
    by_cases hvalid : (isSafeInteger ledger && decide (0 ≤ ledger)) = true
    · rw [callAdvanceLedger, if_pos hvalid] at hs
      cases hs
      simp only [Bool.and_eq_true, decide_eq_true_eq] at hvalid
      exact .calls _ _ _ _ hvalid.2
    · rw [callAdvanceLedger, if_neg hvalid] at hs
      cases hs
      exact .refuses ..

/-! ### Runs in turn -/

def AdvanceCall.ledger : AdvanceCall → ℤ
  | .setMax ledger | .findUnique ledger _ | .upsert ledger => ledger

/-- The row is as high as the calls that are through, and no higher than a call about to write. -/
structure Keeping (initial : WithBot ℤ) (P : Pool CursorStore AdvanceCall CursorEvent) : Prop where
  nonneg : ∀ c ∈ P.running, 0 ≤ c.ledger
  called : ∀ c ∈ P.running, c.ledger ∈ passed P.log
  le_highest : level P.shared.row ≤ highest initial (passed P.log)
  initial_le : initial ≤ level P.shared.row
  through : ∀ l ∈ passed P.log,
    (l : WithBot ℤ) ≤ level P.shared.row ∨ ∃ c ∈ P.running, c.ledger = l
  waiting : ∀ l : ℤ, .upsert l ∈ P.running → level P.shared.row ≤ (l : WithBot ℤ)

theorem coe_le_highest {initial : WithBot ℤ} {ledgers : List ℤ} {l : ℤ} (h : l ∈ ledgers) :
    (l : WithBot ℤ) ≤ highest initial ledgers :=
  (highest_le_iff.mp (le_refl _)).2 l h

section Step

variable {initial : WithBot ℤ} {s s' : CursorStore} {before after cs : List AdvanceCall}
  {c : AdvanceCall} {log seen : List CursorEvent}

/-- A call goes on, the row rising at most to its ledger, or ends with the row that high. -/
theorem Keeping.next (h : Keeping initial ⟨s, before ++ c :: after, log⟩)
    (hledger : ∀ c' ∈ cs, c'.ledger = c.ledger) (hrises : level s.row ≤ level s'.row)
    (hrow : s'.row = s.row ∨ level s'.row = (c.ledger : WithBot ℤ))
    (hdone : (c.ledger : WithBot ℤ) ≤ level s'.row ∨ ∃ c', c' ∈ cs)
    (hwaiting : ∀ l : ℤ, .upsert l ∈ before ++ cs ++ after → level s'.row ≤ (l : WithBot ℤ))
    (hseen : passed seen = []) : Keeping initial ⟨s', before ++ cs ++ after, log ++ seen⟩ := by
  have hc : c ∈ before ++ c :: after := by simp
  have hlog : passed (log ++ seen) = passed log := by rw [passed_append, hseen, List.append_nil]
  have hold : ∀ c' ∈ before ++ cs ++ after,
      ∃ c'' ∈ before ++ c :: after, c'.ledger = c''.ledger := by
    intro c' hc'
    simp only [List.mem_append] at hc'
    rcases hc' with (hc' | hc') | hc'
    · exact ⟨c', by simp [hc'], rfl⟩
    · exact ⟨c, hc, hledger c' hc'⟩
    · exact ⟨c', by simp [hc'], rfl⟩
  refine ⟨fun c' hc' => ?_, fun c' hc' => ?_, ?_, h.initial_le.trans hrises, fun l hl => ?_,
    hwaiting⟩
  · obtain ⟨c'', hc'', heq⟩ := hold c' hc'
    exact heq ▸ h.nonneg c'' hc''
  · obtain ⟨c'', hc'', heq⟩ := hold c' hc'
    rw [heq, hlog]
    exact h.called c'' hc''
  · rw [hlog]
    rcases hrow with hrow | hrow
    · exact hrow ▸ h.le_highest
    · exact hrow ▸ coe_le_highest (h.called c hc)
  · rw [hlog] at hl
    rcases h.through l hl with hle | ⟨c', hc', rfl⟩
    · exact .inl (hle.trans hrises)
    · simp only [List.mem_append, List.mem_cons] at hc'
      rcases hc' with hc' | rfl | hc'
      · exact .inr ⟨c', by simp [hc'], rfl⟩
      · rcases hdone with hdone | ⟨c'', hc''⟩
        · exact .inl hdone
        · exact .inr ⟨c'', by simp [hc''], hledger c'' hc''⟩
      · exact .inr ⟨c', by simp [hc'], rfl⟩

end Step

/-- A step among calls that keep the row leaves them so, if it is in turn. -/
theorem Keeping.step {initial : WithBot ℤ} {P P' : Pool CursorStore AdvanceCall CursorEvent}
    {a : Act Unit ℤ} (h : Keeping initial P) (hturn : InTurn P a) (hmove : CursorMove P a P') :
    Keeping initial P' := by
  cases hmove with
  | calls s running log ledger hnonneg =>
    have hlog : passed (log ++ [.accepted ledger]) = passed log ++ [ledger] := passed_append ..
    refine ⟨?_, fun c hc => ?_, ?_, h.initial_le, fun l hl => ?_, fun l hl => ?_⟩
    · simpa [AdvanceCall.ledger, hnonneg] using h.nonneg
    · rw [hlog]
      rcases List.mem_append.mp hc with hc | hc
      · obtain rfl := List.mem_singleton.mp hc
        simp [AdvanceCall.ledger]
      · exact List.mem_append_left _ (h.called c hc)
    · rw [hlog]
      refine h.le_highest.trans (highest_le_iff.mpr ?_)
      obtain ⟨hinitial, hall⟩ :=
        highest_le_iff.mp (le_refl (highest initial (passed log ++ [ledger])))
      exact ⟨hinitial, fun l hl => hall l (List.mem_append_left _ hl)⟩
    · rw [hlog] at hl
      rcases List.mem_append.mp hl with hl | hl
      · rcases h.through l hl with hle | ⟨c, hc, rfl⟩
        · exact .inl hle
        · exact .inr ⟨c, List.mem_append_right _ hc, rfl⟩
      · obtain rfl := List.mem_singleton.mp hl
        exact .inr ⟨_, .head _, rfl⟩
    · exact h.waiting l (by simpa using hl)
  | refuses s running log ledger =>
    have hlog : passed (log ++ [.returned ledger false]) = passed log := by simp [passed]
    exact ⟨h.nonneg, hlog ▸ h.called, hlog ▸ h.le_highest, h.initial_le, hlog ▸ h.through,
      h.waiting⟩
  | caches s before after log ledger cached cacheUpdated =>
    refine h.next (by simp [AdvanceCall.ledger]) (le_refl _) (.inl rfl) (.inr ⟨_, .head _⟩) ?_ rfl
    exact fun l hl => h.waiting l (by simpa using hl)
  | reads s before after log ledger cacheUpdated hpersist =>
    refine h.next (by simp [AdvanceCall.ledger]) (le_refl _) (.inl rfl) (.inr ⟨_, .head _⟩) ?_ rfl
    intro l hl
    simp only [List.mem_append, List.mem_singleton, AdvanceCall.upsert.injEq] at hl
    have hnonneg : 0 ≤ ledger := h.nonneg (.findUnique ledger cacheUpdated) (by simp)
    rcases hl with (hl | rfl) | hl
    · exact h.waiting l (by simp [hl])
    · exact ((shouldPersist_iff hnonneg).mp hpersist).le
    · exact h.waiting l (by simp [hl])
  | leaves s before after log ledger cacheUpdated hpersist =>
    have hnonneg : 0 ≤ ledger := h.nonneg (.findUnique ledger cacheUpdated) (by simp)
    have hdone : (ledger : WithBot ℤ) ≤ level s.row :=
      not_lt.mp fun hlt => hpersist ((shouldPersist_iff hnonneg).mpr hlt)
    refine h.next (by simp) (le_refl _) (.inl rfl) (.inl hdone) ?_ rfl
    exact fun l hl => h.waiting l (by simpa using hl)
  | writes s before after log ledger =>
    have hrises : level s.row ≤ (ledger : WithBot ℤ) := h.waiting ledger (by simp)
    refine h.next (by simp) hrises (.inr rfl) (.inl (le_refl _)) ?_ rfl
    intro l hl
    have hmem : .upsert l ∈ before ++ .upsert ledger :: after := by
      simp only [List.append_nil, List.mem_append] at hl
      simp only [List.mem_append, List.mem_cons]
      tauto
    have hle := hturn (.upsert ledger) (by simp) (.upsert l) hmem
    simp only [overtakes, decide_eq_false_iff_not, not_lt] at hle
    exact WithBot.coe_le_coe.mpr hle

/-- While the row keeps up, no step lowers it. -/
theorem Keeping.rises {initial : WithBot ℤ} {P : Pool CursorStore AdvanceCall CursorEvent}
    (h : Keeping initial P) (a : Act Unit ℤ) : Rises P a := by
  rw [Rises]
  cases hexec : cursorRules.exec P a with
  | error _ => trivial
  | ok x =>
    obtain ⟨P', seen⟩ := x
    change level P.shared.row ≤ level P'.shared.row
    cases move_of_exec hexec with
    | writes s before after log ledger => exact h.waiting ledger (by simp)
    | calls | refuses | caches | reads | leaves => exact le_refl _

/-- Before the first call. -/
def idle (s : CursorStore) : Pool CursorStore AdvanceCall CursorEvent := ⟨s, [], []⟩

theorem keeping_idle (s : CursorStore) : Keeping (level s.row) (idle s) := by
  refine ⟨?_, ?_, ?_, le_refl _, ?_, ?_⟩ <;> simp [idle, passed, highest]

/-! ### Overtaking -/

/-- A row that never falls again stays at or below every ledger that is still to be written. -/
theorem below_waiting {P P' : Pool CursorStore AdvanceCall CursorEvent}
    {acts : List (Act Unit ℤ)} {ls : List (Act Unit ℤ × List CursorEvent)} {l : ℤ}
    (hrun : runAll cursorRules.exec P acts = .ok (P', ls)) (hend : P'.running = [])
    (hrises : Along cursorRules.exec Rises P acts) (hwaiting : .upsert l ∈ P.running) :
    level P.shared.row ≤ (l : WithBot ℤ) := by
  induction acts generalizing P ls with
  | nil =>
    obtain ⟨rfl, -⟩ := runAll_nil.mp hrun
    rw [hend] at hwaiting
    cases hwaiting
  | cons a acts ih =>
    obtain ⟨P₁, seen, ls', hexec, hrest, -⟩ := runAll_cons.mp hrun
    have hstep : level P.shared.row ≤ level P₁.shared.row := hrises.1.of_ok hexec
    have hrises' := hrises.2.of_ok hexec
    have hlater : .upsert l ∈ P₁.running → level P.shared.row ≤ (l : WithBot ℤ) := fun hmem =>
      hstep.trans (ih hrest hrises' hmem)
    cases move_of_exec hexec with
    | calls s running log ledger hnonneg => exact hlater (List.mem_append_right _ hwaiting)
    | refuses s running log ledger => exact hlater hwaiting
    | caches s before after log ledger cached cacheUpdated =>
      exact hlater (by simpa using hwaiting)
    | reads s before after log ledger cacheUpdated hpersist =>
      refine hlater ?_
      simp only [List.mem_append, List.mem_cons, reduceCtorEq, false_or] at hwaiting ⊢
      tauto
    | leaves s before after log ledger cacheUpdated hpersist =>
      exact hlater (by simpa using hwaiting)
    | writes s before after log ledger =>
      by_cases heq : l = ledger
      · exact heq ▸ hstep
      · refine hlater ?_
        simp only [List.mem_append, List.mem_cons, AdvanceCall.upsert.injEq, heq,
          false_or] at hwaiting
        simpa using hwaiting

/-- If the row never falls until all calls are through, no call overtakes another. -/
theorem inTurn_of_rises {P P' : Pool CursorStore AdvanceCall CursorEvent}
    {acts : List (Act Unit ℤ)} {ls : List (Act Unit ℤ × List CursorEvent)}
    (hrun : runAll cursorRules.exec P acts = .ok (P', ls)) (hend : P'.running = [])
    (hrises : Along cursorRules.exec Rises P acts) : Along cursorRules.exec InTurn P acts := by
  induction acts generalizing P ls with
  | nil => trivial
  | cons a acts ih =>
    obtain ⟨P₁, seen, ls', hexec, hrest, -⟩ := runAll_cons.mp hrun
    have hrises' := hrises.2.of_ok hexec
    refine ⟨?_, ?_⟩
    · cases move_of_exec hexec with
      | writes s before after log ledger =>
        intro c hc c' hc'
        obtain rfl : .upsert ledger = c := by simpa using hc
        cases c' with
        | upsert l =>
          simp only [overtakes, decide_eq_false_iff_not, not_lt]
          by_cases heq : l = ledger
          · exact heq.ge
          · refine WithBot.coe_le_coe.mp (below_waiting hrest hend hrises' ?_)
            simp only [List.mem_append, List.mem_cons, AdvanceCall.upsert.injEq, heq,
              false_or] at hc'
            simpa using hc'
        | setMax | findUnique => rfl
      | calls | refuses => trivial
      | caches | reads | leaves =>
        intro c hc c' hc'
        obtain rfl : _ = c := by simpa using hc
        rfl
    · rw [hexec]
      exact ih hrest hrises'

theorem keeping_of_inTurn {s : CursorStore} {acts : List (Act Unit ℤ)}
    {P : Pool CursorStore AdvanceCall CursorEvent} {ls : List (Act Unit ℤ × List CursorEvent)}
    (hrun : runAll cursorRules.exec (idle s) acts = .ok (P, ls))
    (hturn : Along cursorRules.exec InTurn (idle s) acts) : Keeping (level s.row) P := by
  refine (trace_of_along hrun hturn).invariant (fun P l P' h hstep => ?_) (keeping_idle s)
  exact h.step hstep.2 (move_of_exec hstep.1)

/-- **When the cursor keeps the maximum.** A row never falls in a run whose calls write in turn;
and if all calls get through, it never falls and ends at the maximum of where it was and the
ledgers passed exactly if they write in turn. -/
theorem cursor_maximum_iff {s : CursorStore} {acts : List (Act Unit ℤ)}
    {P : Pool CursorStore AdvanceCall CursorEvent} {ls : List (Act Unit ℤ × List CursorEvent)}
    (hrun : runAll cursorRules.exec (idle s) acts = .ok (P, ls)) :
    (Along cursorRules.exec InTurn (idle s) acts → Along cursorRules.exec Rises (idle s) acts) ∧
    (P.running = [] →
      (Along cursorRules.exec Rises (idle s) acts ∧
          level P.shared.row = highest (level s.row) (passed P.log) ↔
        Along cursorRules.exec InTurn (idle s) acts)) := by
  have hforth : Along cursorRules.exec InTurn (idle s) acts →
      Along cursorRules.exec Rises (idle s) acts := fun hturn =>
    hturn.imp_of_invariant (fun _ _ _ _ h hC hexec => h.step hC (move_of_exec hexec))
      (fun _ a h _ => h.rises a) (keeping_idle s)
  refine ⟨hforth, fun hend => ⟨fun h => inTurn_of_rises hrun hend h.1, fun hturn => ?_⟩⟩
  have hkeeping := keeping_of_inTurn hrun hturn
  refine ⟨hforth hturn, le_antisymm hkeeping.le_highest (highest_le_iff.mpr ?_)⟩
  refine ⟨hkeeping.initial_le, fun l hl => ?_⟩
  rcases hkeeping.through l hl with hle | ⟨c, hc, -⟩
  · exact hle
  · rw [hend] at hc
    cases hc

/-- Two calls: both cache and read, then the larger ledger is written before the smaller. -/
def overtakingRun : List (Act Unit ℤ) :=
  [.outside 5, .outside 6, .step 0 (), .step 1 (), .step 0 (), .step 1 (), .step 0 (), .step 0 ()]

/-- The ledgers 5 and 6 are passed, and the row ends at 5. -/
theorem cursor_falls :
    ¬ ∀ s acts P ls, runAll cursorRules.exec (idle s) acts = .ok (P, ls) → P.running = [] →
      Along cursorRules.exec Rises (idle s) acts ∧
        level P.shared.row = highest (level s.row) (passed P.log) := by
  intro h
  have hlevel := (h ⟨none, none⟩ overtakingRun _ _ rfl rfl).2
  revert hlevel
  decide

/-- The same calls, the smaller ledger being written first. -/
def inTurnRun : List (Act Unit ℤ) :=
  [.outside 5, .outside 6, .step 0 (), .step 1 (), .step 0 (), .step 1 (), .step 1 (), .step 0 ()]

theorem cursor_maximum_in_turn :
    ∃ P ls, runAll cursorRules.exec (idle ⟨none, none⟩) inTurnRun = .ok (P, ls) ∧
      Along cursorRules.exec Rises (idle ⟨none, none⟩) inTurnRun ∧
      level P.shared.row = highest (level none) [5, 6] :=
  ⟨_, _, rfl, ((cursor_maximum_iff rfl).2 rfl).mpr (by decide)⟩

end Swyft.Indexer
