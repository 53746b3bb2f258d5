import Swyft.Indexer.DeadLetters
import Swyft.Lib.Interleaving
import Swyft.Lib.OrderedMap

/-!
# Replaying dead letters once

`replayDeadLettersIdempotent` of `apps/api/src/indexer/indexer-replay.service.ts`. Requests for
the same target with the same key share one execution of `replayDeadLetters`: while it is in
progress they wait for it, and for ten minutes after it began they are given its result, if the
key is an explicit one and it succeeded.

A request runs without interruption up to the first `await`, and from there to its end. In
between any other may run, and time may pass. An execution is a promise: it is settled at some
moment with a summary or an error, and its owner goes on some time after that.

## What is deliberately absent

The counter of outcomes and the logs. The clock does not go back. What an execution does to the
table and the queues is the subject of `DeadLetters`; here it is settled with any outcome.
-/

namespace Swyft.Indexer.Deduplication

open Interleaving

/-! ### Requests -/

structure DeadLetterReplayRequest where
  jobId : Option String
  idempotencyKey : Option String
  correlationId : String

/-- `jobId ? "job:" + jobId : "all"`. -/
def DeadLetterReplayRequest.target (r : DeadLetterReplayRequest) : String :=
  match r.jobId with
  | some id => if id ≠ "" then "job:" ++ id else "all"
  | none => "all"

/-- The key of both maps. -/
def DeadLetterReplayRequest.key (r : DeadLetterReplayRequest) : String :=
  r.target ++ "|" ++ r.idempotencyKey.getD ""

/-- The request comes with a key of its own. -/
def DeadLetterReplayRequest.explicit (r : DeadLetterReplayRequest) : Bool :=
  r.idempotencyKey.any (· ≠ "")

/-- What `replayDeadLetters` comes to. -/
abbrev ReplayOutcome := Except ReplayError DeadLetterReplaySummary

/-- An exception with the fields of its body. -/
structure ReplayException where
  status : ℕ
  code : String
  message : String
  correlationId : String

inductive ReplayReply where
  /-- `DeadLetterReplayResponse`. -/
  | response (summary : DeadLetterReplaySummary) (correlationId : String) (deduplicated : Bool)
  | exception (e : ReplayException)
  | thrown (err : ReplayError)

/-- How the owner of an execution answers. -/
def ownerReply (r : DeadLetterReplayRequest) : ReplayOutcome → ReplayReply
  | .ok summary => .response summary r.correlationId false
  | .error .notFound =>
    .exception ⟨404, "DLQ_REPLAY_NOT_FOUND", "Dead-letter job not found", r.correlationId⟩
  | .error .storeUnavailable =>
    .exception ⟨503, "DLQ_REPLAY_DEPENDENCY_UNAVAILABLE",
      "Dead-letter store unavailable; nothing was replayed", r.correlationId⟩
  | .error err => .thrown err

/-- How one that waited answers: an error passes through it as it is. -/
def waiterReply (r : DeadLetterReplayRequest) : ReplayOutcome → ReplayReply
  | .ok summary => .response summary r.correlationId true
  | .error err => .thrown err

/-! ### The service -/

/-- `DLQ_REPLAY_RESULT_TTL_MS`. -/
def resultTtl : ℕ := 10 * 60 * 1000

/-- `DLQ_REPLAY_RESULT_MAX`. -/
def resultMax : ℕ := 1000

/-- The clock, both maps and the promises. An execution has a number, by which its promise is
known. -/
structure ReplayService where
  now : ℕ
  inFlight : String → Option ℕ
  completed : OrderedMap String (ℕ × DeadLetterReplaySummary)
  outcomes : ℕ → Option ReplayOutcome
  executions : ℕ

def ReplayService.start (now : ℕ) : ReplayService :=
  ⟨now, fun _ => none, .empty, fun _ => none, 0⟩

/-- A request past its first `await`. -/
inductive Call where
  /-- Its execution is in progress. -/
  | running (r : DeadLetterReplayRequest) (n since : ℕ)
  /-- Its execution is settled. -/
  | finishing (r : DeadLetterReplayRequest) (n since : ℕ)
  /-- It waits for the execution of another. -/
  | waiting (r : DeadLetterReplayRequest) (n : ℕ)

/-- What an observer sees: how a request begins, executions that are settled, how a request
ends. -/
inductive Seen where
  | started (r : DeadLetterReplayRequest) (n time : ℕ)
  | joined (r : DeadLetterReplayRequest) (n time : ℕ)
  | served (r : DeadLetterReplayRequest) (time : ℕ) (reply : ReplayReply)
  | settled (n : ℕ) (outcome : ReplayOutcome)
  | ended (r : DeadLetterReplayRequest) (n : ℕ) (outcome : ReplayOutcome) (reply : ReplayReply)
  | released (r : DeadLetterReplayRequest) (n : ℕ) (reply : ReplayReply)

/-- A request that begins, and when. -/
def Seen.call : Seen → Option (DeadLetterReplayRequest × ℕ)
  | .started r _ time | .joined r _ time | .served r time _ => some (r, time)
  | _ => none

/-- The completed result that answers a request. -/
def ReplayService.recent (s : ReplayService) (r : DeadLetterReplayRequest) :
    Option (ℕ × DeadLetterReplaySummary) :=
  if r.explicit then (s.completed.get r.key).filter fun c => s.now - c.1 < resultTtl else none

/-- A request up to its first `await`. -/
def ReplayService.begin (s : ReplayService) (r : DeadLetterReplayRequest) :
    ReplayService × List Call × List Seen :=
  match s.recent r with
  | some (_, summary) => (s, [], [.served r s.now (.response summary r.correlationId true)])
  | none =>
    match s.inFlight r.key with
    | some n => (s, [.waiting r n], [.joined r n s.now])
    | none =>
      ({ s with
          inFlight := Function.update s.inFlight r.key (some s.executions)
          executions := s.executions + 1 },
        [.running r s.executions s.now], [.started r s.executions s.now])

/-- `rememberDlqReplay`. -/
def rememberDlqReplay (completed : OrderedMap String (ℕ × DeadLetterReplaySummary)) (key : String)
    (summary : DeadLetterReplaySummary) (now : ℕ) :
    OrderedMap String (ℕ × DeadLetterReplaySummary) :=
  let kept := completed.filter fun e => now - e.2.1 < resultTtl
  (if kept.size ≥ resultMax then kept.dropOldest else kept).set key (now, summary)

/-- The owner of an execution, to its end. -/
def ReplayService.finish (s : ReplayService) (r : DeadLetterReplayRequest) (since : ℕ)
    (outcome : ReplayOutcome) : ReplayService :=
  { s with
    completed :=
      match outcome with
      | .ok summary =>
        if r.explicit then rememberDlqReplay s.completed r.key summary since else s.completed
      | .error _ => s.completed
    inFlight := Function.update s.inFlight r.key none }

/-- A step of a request: its execution is settled, it ends, or it is given what it waited for. -/
def stepCall (s : ReplayService) : Call → ReplayOutcome →
    Option (ReplayService × List Call × List Seen)
  | .running r n since, outcome =>
    some ({ s with outcomes := Function.update s.outcomes n (some outcome) },
      [.finishing r n since], [.settled n outcome])
  | .finishing r n since, _ =>
    (s.outcomes n).map fun outcome =>
      (s.finish r since outcome, [], [.ended r n outcome (ownerReply r outcome)])
  | .waiting r n, _ =>
    (s.outcomes n).map fun outcome => (s, [], [.released r n (waiterReply r outcome)])

/-- Time passes, or a request comes in. -/
inductive Arrival where
  | tick (ms : ℕ)
  | request (r : DeadLetterReplayRequest)

def replayRules : Rules ReplayService Call ReplayOutcome Arrival Seen where
  step := stepCall
  outside
    | s, .tick ms => some ({ s with now := s.now + ms }, [], [])
    | s, .request r => some (s.begin r)

/-- Before the first request. -/
def idle (now : ℕ) : Pool ReplayService Call Seen := ⟨.start now, [], []⟩

end Swyft.Indexer.Deduplication
