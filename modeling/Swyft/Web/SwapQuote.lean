import Swyft.Lib.Interleaving

/-!
# The quote on the screen

`useSwapQuote` of `apps/web/hooks/useSwapQuote.ts`: a quote is asked for some time after the inputs
have changed, and on each live price of the pool. Both paths write the same state. The first has a
sequence number by which answers to earlier requests are known, the second has not; and inputs that
are cleared keep the number.

A request that is made is a process that waits for its answer. A change of the inputs and the effect
it has are one step, and so are an answer and all that it sets off.

## What is deliberately absent

The end of the hook, and the connection for live prices: a price that arrives is one of the inputs'
pool or of another. A request that is aborted may still be answered. A quote is known by the inputs
it was asked for with.

## Main results

* `fits_iff_timely` — what is shown fits the inputs exactly if no live answer to other inputs
  arrives while nothing is loading, and no answer to the latest request after the inputs were
  cleared
-/

namespace Swyft.Web

open Interleaving

/-! ### The hook -/

structure Params where
  poolId : Option String
  tokenInId : Option String
  tokenOutId : Option String
  amountIn : String
  slippageBps : ℕ
  deriving DecidableEq

/-- What is left of `fetchQuote`: a quote, nothing where the response is not ok, or it throws. -/
inductive Answer where
  | quoted | notOk | failed
  deriving DecidableEq

/-- The state of the hook and its references. `quote` are the inputs that the quote was asked for
with, `timer` the sequence number and the inputs of the request that is put off. -/
structure Hook where
  params : Params
  quote : Option Params
  loading : Bool
  sequence : ℕ
  timer : Option (ℕ × Params)
  deriving DecidableEq

/-- A request that is not yet answered. -/
inductive QuoteRequest where
  | debounced (sequence : ℕ) (params : Params)
  | live (params : Params)
  deriving DecidableEq

inductive QuoteOccurrence where
  | change (params : Params)
  | timerFires
  | price (poolId : String)
  deriving DecidableEq

/-- What the hook returns, and the inputs it is called with. -/
structure Report where
  params : Params
  quote : Option Params
  loading : Bool
  deriving DecidableEq

/-- A text that is there and not empty. -/
def isSet (text : Option String) : Bool := text.any (· ≠ "")

/-- There is something to ask for; `isNotPositive` is `parseFloat(amountIn) <= 0`. -/
def Params.Usable (isNotPositive : String → Bool) (p : Params) : Prop :=
  isSet p.poolId ∧ isSet p.tokenInId ∧ isSet p.tokenOutId ∧ p.amountIn ≠ "" ∧
    ¬ isNotPositive p.amountIn
  deriving Decidable

namespace Hook

variable (isNotPositive : String → Bool)

def report (s : Hook) : Report := ⟨s.params, s.quote, s.loading⟩

/-- The first effect. The one before it is cleaned up, which takes back the timer. -/
def effect (s : Hook) : Hook :=
  if s.params.Usable isNotPositive then
    { s with
      loading := true
      sequence := s.sequence + 1
      timer := some (s.sequence + 1, s.params) }
  else { s with quote := none, loading := false, timer := none }

def mount (params : Params) : Hook := effect isNotPositive ⟨params, none, false, 0, none⟩

/-- What an answer puts in the place of the quote. -/
def answered (params : Params) : Answer → Option Params
  | .quoted => some params
  | .notOk | .failed => none

/-- What an answer sets off. -/
def receive (s : Hook) : QuoteRequest → Answer → Hook
  | .debounced sequence params, answer =>
    if sequence = s.sequence then { s with quote := answered params answer, loading := false }
    else s
  | .live params, answer => { s with quote := answered params answer }

def step (s : Hook) (request : QuoteRequest) (answer : Answer) :
    Option (Hook × List QuoteRequest × List Report) :=
  some (s.receive request answer, [], [(s.receive request answer).report])

def outside (s : Hook) : QuoteOccurrence → Option (Hook × List QuoteRequest × List Report)
  | .change params =>
    let s' := if params = s.params then s else effect isNotPositive { s with params }
    some (s', [], [s'.report])
  | .timerFires => s.timer.map fun (sequence, params) =>
    ({ s with timer := none }, [.debounced sequence params], [s.report])
  | .price poolId =>
    if s.params.poolId = some poolId ∧ s.params.Usable isNotPositive then
      some (s, [.live s.params], [s.report])
    else some (s, [], [s.report])

def rules : Rules Hook QuoteRequest Answer QuoteOccurrence Report := ⟨step, outside isNotPositive⟩

end Hook

/-! ### Quotes that fit -/

/-- A quote that is shown while nothing is loading was asked for with the inputs. -/
def Report.Fits (r : Report) : Prop := r.loading = false → ∀ params ∈ r.quote, params = r.params
  deriving Decidable

/-- A quote of the latest request arrives while the inputs are usable, and one of a live request for
other inputs while there is something loading. -/
def QuoteRequest.Timely (isNotPositive : String → Bool) (s : Hook) (answer : Answer) :
    QuoteRequest → Prop
  | debounced sequence _ =>
    answer = .quoted → sequence = s.sequence → s.params.Usable isNotPositive
  | live params => answer = .quoted → s.loading = false → params = s.params

/-- Every answer is timely. -/
def Timely (isNotPositive : String → Bool) (P : Pool Hook QuoteRequest Report) :
    Act Answer QuoteOccurrence → Prop
  | .step i answer => ∀ request ∈ P.running[i]?, request.Timely isNotPositive P.shared answer
  | .outside _ => True

variable {isNotPositive : String → Bool} {s s' : Hook} {P : Pool Hook QuoteRequest Report}
  {before after running ps : List QuoteRequest} {request : QuoteRequest} {params : Params}
  {answer : Answer} {log seen : List Report}

/-- A request that is put off, or not yet answered, is the latest only if it has the inputs, or
these are not usable. -/
def Latest (isNotPositive : String → Bool) (s : Hook) (sequence : ℕ) (params : Params) : Prop :=
  params.Usable isNotPositive ∧ sequence ≤ s.sequence ∧
    (sequence = s.sequence → s.params.Usable isNotPositive → params = s.params)

/-- What every state of a run keeps. -/
structure Coherent (isNotPositive : String → Bool) (s : Hook) (running : List QuoteRequest) :
    Prop where
  timer : ∀ sequence params, s.timer = some (sequence, params) →
    Latest isNotPositive s sequence params
  debounced : ∀ sequence params, .debounced sequence params ∈ running →
    Latest isNotPositive s sequence params

/-- Of what is shown, all so far fits, and what is shown now. -/
structure AllFit (isNotPositive : String → Bool) (P : Pool Hook QuoteRequest Report) : Prop where
  coherent : Coherent isNotPositive P.shared P.running
  now : P.shared.report.Fits
  log : ∀ r ∈ P.log, r.Fits

/-! #### Requests and the inputs -/

namespace Coherent

/-- What is shown, and which requests are answered, does not matter. -/
theorem congr (h : Coherent isNotPositive s running) (hparams : s'.params = s.params)
    (hsequence : s'.sequence = s.sequence) (htimer : s'.timer = s.timer) (hsub : ps ⊆ running) :
    Coherent isNotPositive s' ps := by
  refine ⟨fun n p hn => ?_, fun n p hn => ?_⟩
  · rw [Latest, hparams, hsequence]
    exact h.timer n p (htimer ▸ hn)
  · rw [Latest, hparams, hsequence]
    exact h.debounced n p (hsub hn)

/-- After the inputs have changed, no request that was made before is the latest, or the inputs are
not usable. -/
theorem effect (h : Coherent isNotPositive s running) (params : Params) :
    Coherent isNotPositive (Hook.effect isNotPositive { s with params }) running := by
  unfold Hook.effect
  split_ifs with husable
  · refine ⟨?_, fun n p hn => ?_⟩
    · rintro n p ⟨⟩
      exact ⟨husable, Nat.le_refl _, fun _ _ => rfl⟩
    · obtain ⟨hp, hle, -⟩ := h.debounced n p hn
      exact ⟨hp, Nat.le_succ_of_le hle,
        fun heq => absurd heq (Nat.ne_of_lt (Nat.lt_succ_of_le hle))⟩
  · refine ⟨nofun, fun n p hn => ?_⟩
    obtain ⟨hp, hle, -⟩ := h.debounced n p hn
    exact ⟨hp, hle, fun _ hnot => absurd hnot husable⟩

theorem fire (h : Coherent isNotPositive s running) {n : ℕ} (htimer : s.timer = some (n, params)) :
    Coherent isNotPositive { s with timer := none } (.debounced n params :: running) := by
  refine ⟨nofun, fun m p hm => ?_⟩
  rcases List.mem_cons.mp hm with heq | hm
  · cases heq
    exact h.timer _ _ htimer
  · exact h.debounced m p hm

theorem outside {e : QuoteOccurrence} (h : Coherent isNotPositive s running)
    (hs : s.outside isNotPositive e = some (s', ps, seen)) :
    Coherent isNotPositive s' (ps ++ running) := by
  cases e with
  | change params =>
    cases hs
    show Coherent isNotPositive (if _ then _ else _) running
    split_ifs
    · exact h
    · exact h.effect params
  | timerFires =>
    obtain ⟨⟨n, p⟩, htimer, heq⟩ := Option.map_eq_some_iff.mp hs
    cases heq
    exact h.fire htimer
  | price poolId =>
    rw [Hook.outside] at hs
    split_ifs at hs
    · cases hs
      refine ⟨h.timer, fun n p hn => ?_⟩
      exact h.debounced n p ((List.mem_cons.mp hn).resolve_left nofun)
    · cases hs
      exact h

end Coherent

theorem coherent_mount (params : Params) :
    Coherent isNotPositive (Hook.mount isNotPositive params) [] := by
  have hblank : Coherent isNotPositive ⟨params, none, false, 0, none⟩ [] :=
    ⟨fun n p (hn : none = _) => (by cases hn), fun n p hn => absurd hn List.not_mem_nil⟩
  exact hblank.effect params

/-- An answer leaves the inputs, the sequence number and the timer as they are. -/
theorem receive_same (s : Hook) (request : QuoteRequest) (answer : Answer) :
    (s.receive request answer).params = s.params ∧
      (s.receive request answer).sequence = s.sequence ∧
        (s.receive request answer).timer = s.timer := by
  cases request with
  | debounced n params =>
    rw [Hook.receive]
    split_ifs <;> exact ⟨rfl, rfl, rfl⟩
  | live params => exact ⟨rfl, rfl, rfl⟩

theorem Coherent.receive (h : Coherent isNotPositive s (before ++ request :: after)) :
    Coherent isNotPositive (s.receive request answer) (before ++ [] ++ after) := by
  obtain ⟨hparams, hsequence, htimer⟩ := receive_same s request answer
  refine h.congr hparams hsequence htimer ?_
  rw [List.append_nil]
  exact (List.Sublist.append_left (List.sublist_cons_self _ _) _).subset

/-! #### What is shown -/

/-- After the inputs have changed, something is loading or nothing is shown. -/
theorem fits_effect (s : Hook) : (Hook.effect isNotPositive s).report.Fits := by
  unfold Hook.effect
  split_ifs
  · exact fun hloading => absurd hloading (by simp [Hook.report])
  · exact fun _ p hp => absurd hp (by simp [Hook.report])

theorem seen_of_outside {e : QuoteOccurrence} (hfits : s.report.Fits)
    (hs : s.outside isNotPositive e = some (s', ps, seen)) :
    s'.report.Fits ∧ seen = [s'.report] := by
  cases e with
  | change params =>
    cases hs
    refine ⟨?_, rfl⟩
    show Report.Fits (Hook.report (if _ then _ else _))
    split_ifs
    · exact hfits
    · exact fits_effect _
  | timerFires =>
    obtain ⟨⟨n, p⟩, -, heq⟩ := Option.map_eq_some_iff.mp hs
    cases heq
    exact ⟨hfits, rfl⟩
  | price poolId =>
    rw [Hook.outside] at hs
    split_ifs at hs
    · cases hs
      exact ⟨hfits, rfl⟩
    · cases hs
      exact ⟨hfits, rfl⟩

/-- **What an answer does**: what is shown then fits exactly if the answer is timely. -/
theorem fits_receive_iff (hcoherent : Coherent isNotPositive s running) (hmem : request ∈ running)
    (hfits : s.report.Fits) :
    (s.receive request answer).report.Fits ↔ request.Timely isNotPositive s answer := by
  cases request with
  | debounced n params =>
    obtain ⟨husable, -, hlatest⟩ := hcoherent.debounced n params hmem
    rw [Hook.receive]
    split_ifs with hn
    · cases answer with
      | quoted =>
        constructor
        · intro h _ _
          obtain rfl : params = s.params := h rfl params rfl
          exact husable
        · rintro h - p ⟨⟩
          exact hlatest hn (h rfl hn)
      | notOk | failed => exact iff_of_true nofun nofun
    · exact iff_of_true hfits fun _ heq => absurd heq hn
  | live params =>
    cases answer with
    | quoted =>
      constructor
      · exact fun h _ hloading => h hloading params rfl
      · rintro h hloading p ⟨⟩
        exact h rfl hloading
    | notOk | failed => exact iff_of_true nofun nofun

/-! #### Runs -/

/-- **A quote on the screen belongs to the inputs**, in all that is shown in a run, exactly if every
answer is timely. -/
theorem fits_iff_timely (isNotPositive : String → Bool) (params : Params)
    (acts : List (Act Answer QuoteOccurrence)) (P : Pool Hook QuoteRequest Report)
    (h : (Hook.rules isNotPositive).run ⟨.mount isNotPositive params, [], []⟩ acts = some P) :
    (∀ r ∈ P.log, r.Fits) ↔ Along (Hook.rules isNotPositive).exec (Timely isNotPositive)
      ⟨.mount isNotPositive params, [], []⟩ acts := by
  refine Rules.well_iff_along (I := AllFit isNotPositive) (W := fun P => ∀ r ∈ P.log, r.Fits)
    ?_ ?_ (fun P hI => hI.log) ?_ ?_ h ?_
  · intro s before request after log answer s' ps seen hI hC hs
    have htimely := forall_at_iff.mp hC
    have hnow := (fits_receive_iff hI.coherent (by simp) hI.now).mpr htimely
    cases hs
    exact ⟨hI.coherent.receive, hnow, List.forall_mem_append.mpr
      ⟨hI.log, List.forall_mem_singleton.mpr hnow⟩⟩
  · intro s running log e s' ps seen hI _ hs
    obtain ⟨hnow, rfl⟩ := seen_of_outside hI.now hs
    exact ⟨hI.coherent.outside hs, hnow, List.forall_mem_append.mpr
      ⟨hI.log, List.forall_mem_singleton.mpr hnow⟩⟩
  · rintro ⟨s, running, log⟩ a P' seen hI hexec hend
    rcases exec_cases hexec with ⟨before, request, after, answer, s', ps, rfl, hrun, hs, rfl⟩ |
      ⟨e, s', ps, rfl, hs, rfl⟩
    · obtain rfl : running = before ++ request :: after := hrun
      cases hs
      exact forall_at_iff.mpr ((fits_receive_iff hI.coherent (by simp) hI.now).mp
        (hend _ (List.mem_append_right _ (.head _))))
    · trivial
  · intro P a P' seen hexec hend r hr
    refine hend r ?_
    rw [log_exec hexec]
    exact List.mem_append_left _ hr
  · exact ⟨coherent_mount params, fits_effect _, fun _ hr => absurd hr List.not_mem_nil⟩

/-- An amount of one token for another. -/
def swapOf (amountIn : String) : Params := ⟨some "p", some "a", some "b", amountIn, 50⟩

instance (s : Hook) (answer : Answer) :
    DecidablePred (QuoteRequest.Timely isNotPositive s answer)
  | .debounced sequence _ => inferInstanceAs
    (Decidable (answer = .quoted → sequence = s.sequence → s.params.Usable isNotPositive))
  | .live params => inferInstanceAs
    (Decidable (answer = .quoted → s.loading = false → params = s.params))

instance (P : Pool Hook QuoteRequest Report) : DecidablePred (Timely isNotPositive P)
  | .step i answer => inferInstanceAs
    (Decidable (∀ request ∈ P.running[i]?, request.Timely isNotPositive P.shared answer))
  | .outside _ => instDecidableTrue

/-- A quote, a price and another quote, and only then another amount. -/
theorem fits_iff_timely_inOrder :
    ∃ P, (Hook.rules (· = "0")).run ⟨.mount (· = "0") (swapOf "1"), [], []⟩
        [.outside .timerFires, .step 0 .quoted, .outside (.price "p"), .step 0 .quoted,
          .outside (.change (swapOf "2"))] = some P ∧ ∀ r ∈ P.log, r.Fits := by
  have hsome : ((Hook.rules (· = "0")).run ⟨.mount (· = "0") (swapOf "1"), [], []⟩
      [.outside .timerFires, .step 0 .quoted, .outside (.price "p"), .step 0 .quoted,
        .outside (.change (swapOf "2"))]).isSome := by
    decide +kernel
  obtain ⟨P, hP⟩ := Option.isSome_iff_exists.mp hsome
  exact ⟨P, hP, (fits_iff_timely _ _ _ P hP).mpr (by decide +kernel)⟩

/-- The live answer for the amount of one comes after the answer for the amount of two. -/
theorem not_fits_overtaken :
    ¬ ∀ isNotPositive params acts P,
      (Hook.rules isNotPositive).run ⟨.mount isNotPositive params, [], []⟩ acts = some P →
        ∀ r ∈ P.log, r.Fits := by
  intro h
  have hlast : ((Hook.rules (· = "0")).run ⟨.mount (· = "0") (swapOf "1"), [], []⟩
      [.outside (.price "p"), .outside (.change (swapOf "2")), .outside .timerFires,
        .step 0 .quoted, .step 0 .quoted]).map (fun P => P.log.getLast?) =
          some (some ⟨swapOf "2", some (swapOf "1"), false⟩) := by
    decide +kernel
  obtain ⟨P, hP, hlast⟩ := Option.map_eq_some_iff.mp hlast
  have hfits := h _ _ _ P hP _ (List.mem_of_getLast? hlast)
  exact absurd hfits (by decide)

end Swyft.Web
