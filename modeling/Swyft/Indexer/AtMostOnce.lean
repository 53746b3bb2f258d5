import Swyft.Indexer.Deduplication

/-!
# One execution at a time, and one that counts

The requests that own an execution are those whose keys are in the map of executions in progress,
each key once. A key whose execution failed is in neither map, one whose execution succeeded is in
the second for ten minutes, unless that map is full.

## Main results

* `replays_deduplicated` — one execution at a time, none that repeats one that succeeded less than
  ten minutes after it began, and always one after one that failed
-/

namespace Swyft.Indexer.Deduplication

open Interleaving

variable {s s' : ReplayService} {p q : Call} {ps : List Call} {seen log : List Seen}
  {r r' : DeadLetterReplayRequest} {n n' since time : ℕ} {outcome : ReplayOutcome}
  {summary : DeadLetterReplaySummary} {reply : ReplayReply} {key : String} {x : Seen}

/-! ### What a step does -/

theorem stepCall_cases (h : stepCall s p outcome = some (s', ps, seen)) :
    (∃ r n since, p = .running r n since ∧
      s' = { s with outcomes := Function.update s.outcomes n (some outcome) } ∧
      ps = [.finishing r n since] ∧ seen = [.settled n outcome]) ∨
    (∃ r n since o, p = .finishing r n since ∧ s.outcomes n = some o ∧
      s' = s.finish r since o ∧ ps = [] ∧ seen = [.ended r n o (ownerReply r o)]) ∨
    ∃ r n o, p = .waiting r n ∧ s.outcomes n = some o ∧
      s' = s ∧ ps = [] ∧ seen = [.released r n (waiterReply r o)] := by
  cases p with
  | running r n since =>
    cases h
    exact .inl ⟨r, n, since, rfl, rfl, rfl, rfl⟩
  | finishing r n since =>
    obtain ⟨o, ho, heq⟩ := Option.map_eq_some_iff.mp h
    cases heq
    exact .inr (.inl ⟨r, n, since, o, rfl, ho, rfl, rfl, rfl⟩)
  | waiting r n =>
    obtain ⟨o, ho, heq⟩ := Option.map_eq_some_iff.mp h
    cases heq
    exact .inr (.inr ⟨r, n, o, rfl, ho, rfl, rfl, rfl⟩)

/-- A request is served, waits, or starts an execution. -/
theorem begin_cases (s : ReplayService) (r : DeadLetterReplayRequest) :
    (∃ t summary, s.recent r = some (t, summary) ∧
      s.begin r = (s, [], [.served r s.now (.response summary r.correlationId true)])) ∨
    (∃ n, s.recent r = none ∧ s.inFlight r.key = some n ∧
      s.begin r = (s, [.waiting r n], [.joined r n s.now])) ∨
    (s.recent r = none ∧ s.inFlight r.key = none ∧
      s.begin r =
        ({ s with
            inFlight := Function.update s.inFlight r.key (some s.executions)
            executions := s.executions + 1 },
          [.running r s.executions s.now], [.started r s.executions s.now])) := by
  unfold ReplayService.begin
  cases hrecent : s.recent r with
  | some c => exact .inl ⟨c.1, c.2, rfl, rfl⟩
  | none =>
    cases hin : s.inFlight r.key with
    | some n => exact .inr (.inl ⟨n, rfl, rfl, rfl⟩)
    | none => exact .inr (.inr ⟨rfl, rfl, rfl⟩)

/-! ### Who owns which execution -/

/-- The key and the number of the execution that a request owns. -/
def Call.owned : Call → Option (String × ℕ)
  | .running r n _ | .finishing r n _ => some (r.key, n)
  | .waiting _ _ => none

/-- How a request began that owns an execution. -/
def Call.origin : Call → Option Seen
  | .running r n since | .finishing r n since => some (.started r n since)
  | .waiting _ _ => none

def owners (running : List Call) : List (String × ℕ) := running.filterMap Call.owned

/-- The maps, the promises and the log agree with what is in progress. -/
structure Consistent (P : Pool ReplayService Call Seen) : Prop where
  /-- No two requests own executions of one key. -/
  apart : ((owners P.running).map Prod.fst).Nodup
  held : ∀ key n, P.shared.inFlight key = some n ↔ (key, n) ∈ owners P.running
  began : ∀ p ∈ P.running, ∀ x, p.origin = some x → x ∈ P.log
  bounds : ∀ r n time, .started r n time ∈ P.log → n < P.shared.executions ∧ time ≤ P.shared.now
  unique : ∀ r r' n time time', .started r n time ∈ P.log → .started r' n time' ∈ P.log →
    r = r' ∧ time = time'
  settled : ∀ n o, .settled n o ∈ P.log ↔ P.shared.outcomes n = some o
  pending : ∀ r n since, .running r n since ∈ P.running → P.shared.outcomes n = none
  unborn : ∀ n, P.shared.executions ≤ n → P.shared.outcomes n = none

theorem consistent_idle (now : ℕ) : Consistent (idle now) := by
  constructor <;> simp [idle, owners, ReplayService.start]

theorem mem_owners {running : List Call} (hp : p ∈ running) {k : String × ℕ}
    (hk : p.owned = some k) : k ∈ owners running := List.mem_filterMap.mpr ⟨p, hp, hk⟩

/-- An event that neither begins an execution nor settles one. -/
def Seen.plain : Seen → Bool
  | .started _ _ _ | .settled _ _ => false
  | _ => true

/-- A step that leaves the owners, the map of executions in progress and the promises alone. -/
theorem Consistent.of_plain {running running' : List Call}
    (h : Consistent ⟨s, running, log⟩) (hin : s'.inFlight = s.inFlight)
    (hout : s'.outcomes = s.outcomes) (hexec : s'.executions = s.executions)
    (hnow : s.now ≤ s'.now) (howners : owners running' = owners running)
    (hold : ∀ p ∈ running', p ∈ running ∨ ∃ r n, p = .waiting r n)
    (hseen : ∀ x ∈ seen, x.plain) : Consistent ⟨s', running', log ++ seen⟩ := by
  have hstarted : ∀ r n time, .started r n time ∈ log ++ seen → .started r n time ∈ log := by
    intro r n time hmem
    rcases List.mem_append.mp hmem with hmem | hmem
    · exact hmem
    · cases hseen _ hmem
  constructor
  · rw [howners]
    exact h.apart
  · intro key n
    rw [howners, hin]
    exact h.held key n
  · intro p hp x hx
    rcases hold p hp with hp | ⟨r, n, rfl⟩
    · exact List.mem_append_left _ (h.began p hp x hx)
    · cases hx
  · intro r n time hmem
    obtain ⟨hn, htime⟩ := h.bounds r n time (hstarted r n time hmem)
    exact ⟨hexec ▸ hn, Nat.le_trans htime hnow⟩
  · intro r r' n time time' hmem hmem'
    exact h.unique r r' n time time' (hstarted _ _ _ hmem) (hstarted _ _ _ hmem')
  · intro n o
    rw [hout, ← h.settled n o, List.mem_append]
    refine or_iff_left fun hmem => ?_
    cases hseen _ hmem
  · intro r n since hp
    rw [hout]
    rcases hold _ hp with hp | ⟨r, n, heq⟩
    · exact h.pending r n since hp
    · cases heq
  · intro n hn
    rw [hout]
    exact h.unborn n (hexec ▸ hn)

theorem mem_middle {before after : List Call} :
    q ∈ before ++ p :: after ↔ q = p ∨ q ∈ before ++ after := by
  simp only [List.mem_append, List.mem_cons]
  tauto

/-- The other requests own executions of other keys. -/
theorem Consistent.key_ne {before after : List Call} {k k' : String × ℕ}
    (h : Consistent ⟨s, before ++ p :: after, log⟩) (hp : p.owned = some k)
    (hq : q ∈ before ++ after) (hk : q.owned = some k') : k'.1 ≠ k.1 := by
  have hsplit : owners (before ++ p :: after) = owners before ++ k :: owners after := by
    simp [owners, hp]
  have hnodup := h.apart
  rw [hsplit, List.map_append, List.map_cons, List.nodup_middle, List.nodup_cons,
    ← List.map_append] at hnodup
  rintro heq
  refine hnodup.1 (heq ▸ List.mem_map_of_mem ?_)
  have hmem := mem_owners hq hk
  simpa [owners] using hmem

/-- So they own other executions. -/
theorem Consistent.number_ne {before after : List Call}
    (h : Consistent ⟨s, before ++ p :: after, log⟩) (hp : p.origin = some (.started r n since))
    (hpk : p.owned = some (r.key, n)) (hq : q ∈ before ++ after)
    (hqo : q.origin = some (.started r' n' time)) (hqk : q.owned = some (r'.key, n')) :
    n' ≠ n := by
  rintro rfl
  have hqmem : q ∈ before ++ p :: after := mem_middle.mpr (.inr hq)
  obtain ⟨rfl, -⟩ := h.unique _ _ _ _ _ (h.began q hqmem _ hqo) (h.began p (by simp) _ hp)
  exact h.key_ne hpk hq hqk rfl

/-- An execution in progress has its owner. -/
theorem Consistent.exists_owner {running : List Call} (h : Consistent ⟨s, running, log⟩)
    (hheld : s.inFlight key = some n) (hstarted : .started r n time ∈ log) :
    ∃ p ∈ running, p.origin = some (.started r n time) := by
  obtain ⟨p, hp, howned⟩ := List.mem_filterMap.mp ((h.held key n).mp hheld)
  refine ⟨p, hp, ?_⟩
  cases p with
  | running r' n' since | finishing r' n' since =>
    cases howned
    obtain ⟨rfl, rfl⟩ := h.unique _ _ _ _ _ (h.began _ hp _ rfl) hstarted
    rfl
  | waiting r' n' => cases howned

/-- An execution is settled. -/
theorem Consistent.settle {before after : List Call}
    (h : Consistent ⟨s, before ++ .running r n since :: after, log⟩) (outcome : ReplayOutcome) :
    Consistent ⟨{ s with outcomes := Function.update s.outcomes n (some outcome) },
      before ++ [.finishing r n since] ++ after, log ++ [.settled n outcome]⟩ := by
  have howners : owners (before ++ [.finishing r n since] ++ after) =
      owners (before ++ .running r n since :: after) := by
    simp [owners, Call.owned]
  have hself : Call.running r n since ∈ before ++ .running r n since :: after := by simp
  have hstarted : .started r n since ∈ log := h.began _ hself _ rfl
  have hpending : s.outcomes n = none := h.pending r n since hself
  have hrunning : ∀ p ∈ before ++ [.finishing r n since] ++ after,
      p = .finishing r n since ∨ p ∈ before ++ after := by
    intro p hp
    rw [List.append_assoc] at hp
    exact mem_middle.mp hp
  have hold : ∀ r' n' time, .started r' n' time ∈ log ++ [.settled n outcome] →
      .started r' n' time ∈ log := by
    simp
  constructor
  · exact howners ▸ h.apart
  · exact howners ▸ h.held
  · intro p hp x hx
    refine List.mem_append_left _ ?_
    rcases hrunning p hp with rfl | hp
    · cases hx
      exact hstarted
    · exact h.began p (mem_middle.mpr (.inr hp)) x hx
  · exact fun r' n' time hmem => h.bounds r' n' time (hold _ _ _ hmem)
  · exact fun r' r'' n' time time' hmem hmem' =>
      h.unique r' r'' n' time time' (hold _ _ _ hmem) (hold _ _ _ hmem')
  · intro n' o
    rw [List.mem_append, h.settled n' o, List.mem_singleton, Seen.settled.injEq]
    by_cases hn : n' = n
    · subst hn
      simp [hpending, eq_comm]
    · simp [hn]
  · intro r' n' since' hp
    rcases hrunning _ hp with heq | hp
    · cases heq
    · have hne := h.number_ne (p := .running r n since) rfl rfl hp rfl rfl
      exact (Function.update_of_ne hne ..).trans
        (h.pending r' n' since' (mem_middle.mpr (.inr hp)))
  · intro n' hn'
    have hlt := (h.bounds r n since hstarted).1
    have hne : n' ≠ n := fun heq => Nat.not_lt.mpr hn' (heq ▸ hlt)
    exact (Function.update_of_ne hne ..).trans (h.unborn n' hn')

/-- A request that owns an execution ends. -/
theorem Consistent.finish {before after : List Call}
    (h : Consistent ⟨s, before ++ .finishing r n since :: after, log⟩) (outcome : ReplayOutcome) :
    Consistent ⟨s.finish r since outcome, before ++ [] ++ after,
      log ++ [.ended r n outcome (ownerReply r outcome)]⟩ := by
  have hsplit : owners (before ++ .finishing r n since :: after) =
      owners before ++ (r.key, n) :: owners after := by
    simp [owners, Call.owned]
  have howners : owners (before ++ [] ++ after) = owners before ++ owners after := by
    simp [owners]
  have hrunning : ∀ p ∈ before ++ [] ++ after, p ∈ before ++ .finishing r n since :: after := by
    intro p hp
    rw [List.append_nil] at hp
    exact mem_middle.mpr (.inr hp)
  have hold : ∀ r' n' time,
      .started r' n' time ∈ log ++ [.ended r n outcome (ownerReply r outcome)] →
        .started r' n' time ∈ log := by
    simp
  have hnodup : r.key ∉ (owners before ++ owners after).map Prod.fst ∧
      ((owners before ++ owners after).map Prod.fst).Nodup := by
    have hnodup := h.apart
    rw [hsplit, List.map_append, List.map_cons, List.nodup_middle, List.nodup_cons,
      ← List.map_append] at hnodup
    exact hnodup
  constructor
  · rw [howners]
    exact hnodup.2
  · intro key' n'
    have hheld := h.held key' n'
    rw [hsplit, List.mem_append, List.mem_cons] at hheld
    rw [howners, List.mem_append]
    by_cases hkey : key' = r.key
    · subst hkey
      refine iff_of_false (by simp [ReplayService.finish]) fun hmem => hnodup.1 ?_
      exact List.mem_map.mpr ⟨_, List.mem_append.mpr hmem, rfl⟩
    · refine Iff.trans (by simp [ReplayService.finish, hkey]) (hheld.trans ?_)
      simp [hkey]
  · exact fun p hp x hx => List.mem_append_left _ (h.began p (hrunning p hp) x hx)
  · exact fun r' n' time hmem => h.bounds r' n' time (hold _ _ _ hmem)
  · exact fun r' r'' n' time time' hmem hmem' =>
      h.unique r' r'' n' time time' (hold _ _ _ hmem) (hold _ _ _ hmem')
  · intro n' o
    rw [List.mem_append, h.settled n' o, List.mem_singleton]
    simp [ReplayService.finish]
  · exact fun r' n' since' hp => h.pending r' n' since' (hrunning _ hp)
  · exact h.unborn

/-- A request starts an execution. -/
theorem Consistent.start {running : List Call} (h : Consistent ⟨s, running, log⟩)
    (hfree : s.inFlight r.key = none) :
    Consistent
      ⟨{ s with
          inFlight := Function.update s.inFlight r.key (some s.executions)
          executions := s.executions + 1 },
        [.running r s.executions s.now] ++ running, log ++ [.started r s.executions s.now]⟩ := by
  have hnot : r.key ∉ (owners running).map Prod.fst := by
    intro hmem
    obtain ⟨⟨key, n⟩, hk, heq⟩ := List.mem_map.mp hmem
    have hheld := (h.held r.key n).mpr (heq ▸ hk)
    rw [hfree] at hheld
    cases hheld
  have hmem_log : ∀ r' n' time, .started r' n' time ∈ log ++ [.started r s.executions s.now] →
      .started r' n' time ∈ log ∨ r' = r ∧ n' = s.executions ∧ time = s.now := by
    intro r' n' time hmem
    simpa using hmem
  constructor
  · exact List.nodup_cons.mpr ⟨hnot, h.apart⟩
  · intro key' n'
    have howners : (key', n') ∈ owners ([.running r s.executions s.now] ++ running) ↔
        key' = r.key ∧ n' = s.executions ∨ (key', n') ∈ owners running := by
      simp [owners, Call.owned]
    rw [howners]
    by_cases hkey : key' = r.key
    · subst hkey
      have hout : (r.key, n') ∉ owners running := fun hk =>
        hnot (List.mem_map.mpr ⟨_, hk, rfl⟩)
      simp [hout, eq_comm]
    · simp only [Function.update_of_ne hkey, hkey, false_and, false_or]
      exact h.held key' n'
  · intro p hp x hx
    rcases List.mem_cons.mp hp with rfl | hp
    · cases hx
      simp
    · exact List.mem_append_left _ (h.began p hp x hx)
  · intro r' n' time hmem
    rcases hmem_log _ _ _ hmem with hmem | ⟨rfl, rfl, rfl⟩
    · obtain ⟨hn, htime⟩ := h.bounds r' n' time hmem
      exact ⟨Nat.lt_succ_of_lt hn, htime⟩
    · exact ⟨Nat.lt_succ_self _, Nat.le_refl _⟩
  · intro r₁ r₂ n' t₁ t₂ h₁ h₂
    rcases hmem_log _ _ _ h₁ with hin₁ | ⟨rfl, hn₁, rfl⟩
    · rcases hmem_log _ _ _ h₂ with hin₂ | ⟨rfl, hn₂, rfl⟩
      · exact h.unique _ _ _ _ _ hin₁ hin₂
      · exact absurd (h.bounds _ _ _ hin₁).1 (hn₂ ▸ Nat.lt_irrefl _)
    · rcases hmem_log _ _ _ h₂ with hin₂ | ⟨rfl, hn₂, rfl⟩
      · exact absurd (h.bounds _ _ _ hin₂).1 (hn₁ ▸ Nat.lt_irrefl _)
      · exact ⟨rfl, rfl⟩
  · intro n' o
    rw [List.mem_append, h.settled n' o]
    simp
  · intro r' n' since' hp
    rcases List.mem_cons.mp hp with heq | hp
    · cases heq
      exact h.unborn _ (Nat.le_refl _)
    · exact h.pending r' n' since' hp
  · exact fun n' hn' => h.unborn n' (Nat.le_of_succ_le hn')

/-- Everything that a run leads to is consistent. -/
theorem consistent_of_reaches {C : Pool ReplayService Call Seen → Act ReplayOutcome Arrival → Prop}
    {P P' : Pool ReplayService Call Seen} (h : Reaches replayRules C P P') (hP : Consistent P) :
    Consistent P' := by
  refine h.invariant (I := Consistent) ?_ ?_ hP
  · intro s before p after log outcome s' ps seen hI _ hstep
    rcases stepCall_cases hstep with ⟨r, n, since, rfl, rfl, rfl, rfl⟩ |
      ⟨r, n, since, o, rfl, ho, rfl, rfl, rfl⟩ | ⟨r, n, o, rfl, ho, rfl, rfl, rfl⟩
    · exact hI.settle outcome
    · exact hI.finish o
    · refine hI.of_plain rfl rfl rfl (Nat.le_refl _)
        (by simp [owners, List.filterMap_cons, Call.owned]) (fun p hp => .inl ?_)
        (by simp [Seen.plain])
      rw [List.append_nil] at hp
      exact mem_middle.mpr (.inr hp)
  · intro s running log e s' ps seen hI _ hout
    cases e with
    | tick ms =>
      cases hout
      exact hI.of_plain rfl rfl rfl (Nat.le_add_right ..) rfl (fun p hp => .inl hp) (by simp)
    | request r =>
      have hbegin := Option.some.inj hout
      rcases begin_cases s r with ⟨t, summary, -, heq⟩ | ⟨n, -, -, heq⟩ | ⟨-, hfree, heq⟩
      · cases heq.symm.trans hbegin
        exact hI.of_plain rfl rfl rfl (Nat.le_refl _) rfl (fun p hp => .inl hp)
          (by simp [Seen.plain])
      · cases heq.symm.trans hbegin
        refine hI.of_plain rfl rfl rfl (Nat.le_refl _) rfl (fun p hp => ?_) (by simp [Seen.plain])
        rcases List.mem_cons.mp hp with rfl | hp
        · exact .inr ⟨r, n, rfl⟩
        · exact .inl hp
      · cases heq.symm.trans hbegin
        exact hI.start hfree

/-! ### What is remembered -/

/-- What is remembered of a key is its own result, or was remembered before. -/
theorem mem_of_mem_remember {completed : OrderedMap String (ℕ × DeadLetterReplaySummary)}
    {key' : String} {c : ℕ × DeadLetterReplaySummary}
    (h : (key', c) ∈ rememberDlqReplay completed key summary time) :
    key' = key ∧ c = (time, summary) ∨ key' ≠ key ∧ (key', c) ∈ completed := by
  rcases OrderedMap.mem_set.mp h with hself | ⟨hne, hmem⟩
  · exact .inl hself
  · refine .inr ⟨hne, ?_⟩
    split at hmem
    · exact (OrderedMap.mem_filter.mp (OrderedMap.mem_of_mem_dropOldest hmem)).1
    · exact (OrderedMap.mem_filter.mp hmem).1

theorem mem_remember_self {completed : OrderedMap String (ℕ × DeadLetterReplaySummary)} :
    (key, (time, summary)) ∈ rememberDlqReplay completed key summary time :=
  OrderedMap.mem_set.mpr (.inl ⟨rfl, rfl⟩)

/-- A result of another key is forgotten after ten minutes, or when there is no room. -/
theorem mem_remember_of_ne {completed : OrderedMap String (ℕ × DeadLetterReplaySummary)}
    {key' : String} {c : ℕ × DeadLetterReplaySummary} (hsize : completed.size < resultMax)
    (hne : key' ≠ key) (h : (key', c) ∈ completed) :
    (key', c) ∈ rememberDlqReplay completed key summary time ∨ c.1 + resultTtl ≤ time := by
  by_cases hage : time - c.1 < resultTtl
  · refine .inl (OrderedMap.mem_set.mpr (.inr ⟨hne, ?_⟩))
    have hroom : ¬ (completed.filter fun e => time - e.2.1 < resultTtl).size ≥ resultMax :=
      Nat.not_le.mpr (Nat.lt_of_le_of_lt (OrderedMap.size_filter_le _) hsize)
    rw [if_neg hroom]
    exact OrderedMap.mem_filter.mpr ⟨h, decide_eq_true hage⟩
  · simp only [resultTtl] at hage ⊢
    omega

/-- A request that ends remembers its own result only, and only if it succeeded. -/
theorem mem_of_mem_finish {key' : String} {c : ℕ × DeadLetterReplaySummary}
    (h : (key', c) ∈ (s.finish r since outcome).completed) :
    key' = r.key ∧ r.explicit = true ∧ outcome = .ok c.2 ∧ c.1 = since ∨
      (key', c) ∈ s.completed := by
  cases outcome with
  | error err => exact .inr h
  | ok summary =>
    by_cases hexplicit : r.explicit = true
    · simp only [ReplayService.finish, hexplicit, if_true] at h
      rcases mem_of_mem_remember h with ⟨rfl, rfl⟩ | ⟨-, hmem⟩
      · exact .inl ⟨rfl, hexplicit, rfl, rfl⟩
      · exact .inr hmem
    · rw [ReplayService.finish, if_neg hexplicit] at h
      exact .inr h

/-- What the map of completed executions holds. -/
structure Remembers (P : Pool ReplayService Call Seen) : Prop where
  /-- An execution under an explicit key begins when nothing recent is remembered of it. -/
  stale : ∀ p ∈ P.running, ∀ r n since, p.origin = some (.started r n since) → r.explicit = true →
    ∀ c, (r.key, c) ∈ P.shared.completed → c.1 + resultTtl ≤ since
  earned : ∀ key c, (key, c) ∈ P.shared.completed → ∃ r n, r.key = key ∧ r.explicit = true ∧
    .started r n c.1 ∈ P.log ∧ .settled n (.ok c.2) ∈ P.log
  /-- Until the next request, a key whose execution failed is in progress no more and has nothing
  recent to answer with. -/
  failed : ∀ pre post r n err reply, P.log = pre ++ .ended r n (.error err) reply :: post →
    (∀ x ∈ post, ∀ c, x.call = some c → c.1.key ≠ r.key) →
    P.shared.inFlight r.key = none ∧ (r.explicit = true → ∀ c, (r.key, c) ∈ P.shared.completed →
      c.1 + resultTtl ≤ P.shared.now)

theorem remembers_idle (now : ℕ) : Remembers (idle now) := by
  constructor
  · simp [idle]
  · exact fun _ _ hmem => absurd hmem List.not_mem_nil
  · simp [idle]

def Seen.isEnd : Seen → Bool
  | .ended _ _ _ _ => true
  | _ => false

/-- A step that leaves both maps alone. -/
theorem Remembers.of_same {running running' : List Call} (h : Remembers ⟨s, running, log⟩)
    (hin : s'.inFlight = s.inFlight) (hcompleted : s'.completed = s.completed)
    (hnow : s.now ≤ s'.now)
    (horigin : ∀ p ∈ running', ∀ x, p.origin = some x → ∃ q ∈ running, q.origin = some x)
    (hseen : ∀ x ∈ seen, x.isEnd = false) : Remembers ⟨s', running', log ++ seen⟩ := by
  constructor
  · intro p hp r n since hx hexplicit c hc
    obtain ⟨q, hq, hqx⟩ := horigin p hp _ hx
    exact h.stale q hq r n since hqx hexplicit c (hcompleted ▸ hc)
  · intro key c hc
    obtain ⟨r, n, hkey, hexplicit, hstarted, hsettled⟩ := h.earned key c (hcompleted ▸ hc)
    exact ⟨r, n, hkey, hexplicit, List.mem_append_left _ hstarted, List.mem_append_left _ hsettled⟩
  · intro pre post r n err reply hlog hpost
    rcases append_eq_append_cons hlog with ⟨new, -, hnew⟩ | ⟨post', rfl, hlog'⟩
    · cases hseen _ (hnew ▸ List.mem_append_right _ List.mem_cons_self)
    · obtain ⟨hfree, hstale⟩ := h.failed pre post' r n err reply hlog' fun x hx =>
        hpost x (List.mem_append_left _ hx)
      refine ⟨hin ▸ hfree, fun hexplicit c hc => ?_⟩
      exact Nat.le_trans (hstale hexplicit c (hcompleted ▸ hc)) hnow

theorem Remembers.finish {before after : List Call}
    (hI : Consistent ⟨s, before ++ .finishing r n since :: after, log⟩)
    (h : Remembers ⟨s, before ++ .finishing r n since :: after, log⟩)
    (ho : s.outcomes n = some outcome) :
    Remembers ⟨s.finish r since outcome, before ++ [] ++ after,
      log ++ [.ended r n outcome (ownerReply r outcome)]⟩ := by
  have hself : Call.finishing r n since ∈ before ++ .finishing r n since :: after := by simp
  have hstarted : .started r n since ∈ log := hI.began _ hself _ rfl
  have hheld : s.inFlight r.key = some n := (hI.held r.key n).mpr (mem_owners hself rfl)
  constructor
  · intro p hp r' n' since' hx hexplicit c hc
    rw [List.append_nil] at hp
    rcases mem_of_mem_finish hc with ⟨hkey, -⟩ | hc
    · have hk : p.owned = some (r'.key, n') := by
        cases p <;> cases hx <;> rfl
      exact absurd hkey (hI.key_ne rfl hp hk)
    · exact h.stale p (mem_middle.mpr (.inr hp)) r' n' since' hx hexplicit c hc
  · intro key c hc
    rcases mem_of_mem_finish hc with ⟨rfl, hexplicit, rfl, hsince⟩ | hc
    · refine ⟨r, n, rfl, hexplicit, ?_, ?_⟩
      · rw [hsince]
        exact List.mem_append_left _ hstarted
      · exact List.mem_append_left _ ((hI.settled n _).mpr ho)
    · obtain ⟨r', n', hkey, hexplicit, hstarted, hsettled⟩ := h.earned key c hc
      exact ⟨r', n', hkey, hexplicit, List.mem_append_left _ hstarted,
        List.mem_append_left _ hsettled⟩
  · intro pre post r' n' err reply hlog hpost
    rcases append_eq_append_cons hlog with ⟨new, -, hnew⟩ | ⟨post', rfl, hlog'⟩
    · obtain ⟨rfl, rfl, rfl⟩ : r = r' ∧ n = n' ∧ outcome = .error err := by
        cases new <;> simp_all
      refine ⟨Function.update_self .., fun hexplicit c hc => ?_⟩
      rcases mem_of_mem_finish hc with ⟨-, -, hok, -⟩ | hc
      · cases hok
      · exact Nat.le_trans (h.stale _ hself r n since rfl hexplicit c hc)
          (hI.bounds r n since hstarted).2
    · obtain ⟨hfree, hstale⟩ := h.failed pre post' r' n' err reply hlog' fun x hx =>
        hpost x (List.mem_append_left _ hx)
      have hne : r'.key ≠ r.key := by
        intro heq
        rw [heq, hheld] at hfree
        cases hfree
      refine ⟨(Function.update_of_ne hne ..).trans hfree, fun hexplicit c hc => ?_⟩
      rcases mem_of_mem_finish hc with ⟨hkey, -⟩ | hc
      · exact absurd hkey hne
      · exact hstale hexplicit c hc

theorem recent_eq_some {c : ℕ × DeadLetterReplaySummary} : s.recent r = some c ↔
    r.explicit = true ∧ (r.key, c) ∈ s.completed ∧ s.now < c.1 + resultTtl := by
  have hage : s.now - c.1 < resultTtl ↔ s.now < c.1 + resultTtl := by
    simp only [resultTtl]
    omega
  unfold ReplayService.recent
  by_cases hexplicit : r.explicit = true
  · rw [if_pos hexplicit, Option.filter_eq_some_iff, OrderedMap.get_eq_some, decide_eq_true_eq,
      hage, and_iff_right hexplicit]
  · simp [hexplicit]

/-- Nothing recent answers the request. -/
theorem stale_of_recent (h : s.recent r = none) (hexplicit : r.explicit = true)
    {c : ℕ × DeadLetterReplaySummary} (hc : (r.key, c) ∈ s.completed) :
    c.1 + resultTtl ≤ s.now := by
  refine Nat.le_of_not_lt fun hlt => ?_
  rw [recent_eq_some.mpr ⟨hexplicit, hc, hlt⟩] at h
  cases h

theorem Remembers.start {running : List Call} (h : Remembers ⟨s, running, log⟩)
    (hrecent : s.recent r = none) :
    Remembers
      ⟨{ s with
          inFlight := Function.update s.inFlight r.key (some s.executions)
          executions := s.executions + 1 },
        [.running r s.executions s.now] ++ running, log ++ [.started r s.executions s.now]⟩ := by
  constructor
  · intro p hp r' n' since' hx hexplicit c hc
    rcases List.mem_cons.mp hp with rfl | hp
    · cases hx
      exact stale_of_recent hrecent hexplicit hc
    · exact h.stale p hp r' n' since' hx hexplicit c hc
  · intro key c hc
    obtain ⟨r', n', hkey, hexplicit, hstarted, hsettled⟩ := h.earned key c hc
    exact ⟨r', n', hkey, hexplicit, List.mem_append_left _ hstarted,
      List.mem_append_left _ hsettled⟩
  · intro pre post r' n' err reply hlog hpost
    rcases append_eq_append_cons hlog with ⟨new, -, hnew⟩ | ⟨post', rfl, hlog'⟩
    · cases new <;> simp_all
    · obtain ⟨hfree, hstale⟩ := h.failed pre post' r' n' err reply hlog' fun x hx =>
        hpost x (List.mem_append_left _ hx)
      have hne : r'.key ≠ r.key :=
        (hpost _ (List.mem_append_right _ List.mem_cons_self) (r, s.now) rfl).symm
      exact ⟨(Function.update_of_ne hne ..).trans hfree, hstale⟩

/-- Every run from a quiet service. -/
def Reachable (now : ℕ) (P : Pool ReplayService Call Seen) : Prop :=
  Reaches replayRules (fun _ _ => True) (idle now) P

theorem Reachable.consistent {now : ℕ} {P : Pool ReplayService Call Seen} (h : Reachable now P) :
    Consistent P :=
  consistent_of_reaches h (consistent_idle now)

theorem Reachable.remembers {now : ℕ} {P : Pool ReplayService Call Seen} (h : Reachable now P) :
    Remembers P := by
  refine h.invariant_along (I := Remembers) ?_ ?_ (remembers_idle now)
  · intro s before p after log outcome s' ps seen hreach hI _ hstep
    have hconsistent : Consistent _ := Reachable.consistent hreach
    rcases stepCall_cases hstep with ⟨r, n, since, rfl, rfl, rfl, rfl⟩ |
      ⟨r, n, since, o, rfl, ho, rfl, rfl, rfl⟩ | ⟨r, n, o, rfl, ho, rfl, rfl, rfl⟩
    · refine hI.of_same rfl rfl (Nat.le_refl _) (fun p hp x hx => ?_) (by simp [Seen.isEnd])
      rw [List.append_assoc] at hp
      rcases mem_middle.mp hp with rfl | hp
      · exact ⟨.running r n since, by simp, hx⟩
      · exact ⟨p, mem_middle.mpr (.inr hp), hx⟩
    · exact hI.finish hconsistent ho
    · refine hI.of_same rfl rfl (Nat.le_refl _) (fun p hp x hx => ?_) (by simp [Seen.isEnd])
      rw [List.append_nil] at hp
      exact ⟨p, mem_middle.mpr (.inr hp), hx⟩
  · intro s running log e s' ps seen _ hI _ hout
    cases e with
    | tick ms =>
      cases hout
      exact hI.of_same rfl rfl (Nat.le_add_right ..) (fun p hp x hx => ⟨p, hp, hx⟩) (by simp)
    | request r =>
      have hbegin := Option.some.inj hout
      rcases begin_cases s r with ⟨t, summary, -, heq⟩ | ⟨n, -, -, heq⟩ | ⟨hrecent, -, heq⟩
      · cases heq.symm.trans hbegin
        exact hI.of_same rfl rfl (Nat.le_refl _) (fun p hp x hx => ⟨p, hp, hx⟩)
          (by simp [Seen.isEnd])
      · cases heq.symm.trans hbegin
        refine hI.of_same rfl rfl (Nat.le_refl _) (fun p hp x hx => ?_) (by simp [Seen.isEnd])
        rcases List.mem_cons.mp hp with rfl | hp
        · cases hx
        · exact ⟨p, hp, hx⟩
      · cases heq.symm.trans hbegin
        exact hI.start hrecent

/-! ### After a failure -/

/-- The next request for a key whose execution failed starts one. -/
def RunsAgain (pre : List Seen) (x : Seen) : Prop :=
  ∀ before mid r n err reply, pre = before ++ .ended r n (.error err) reply :: mid →
    (∀ y ∈ mid, ∀ c, y.call = some c → c.1.key ≠ r.key) →
    ∀ r' time, x.call = some (r', time) → r'.key = r.key → r'.explicit = r.explicit →
      ∃ n', x = .started r' n' time

theorem runsAgain_of_call {pre : List Seen} (h : x.call = none) : RunsAgain pre x := by
  intro before mid r n err reply _ _ r' time hcall
  rw [h] at hcall
  cases hcall

theorem Remembers.runsAgain {running : List Call} (h : Remembers ⟨s, running, log⟩)
    (hx : x ∈ (s.begin r).2.2) : RunsAgain log x := by
  intro before mid r₀ n err reply hlog hmid r' time hcall hkey hexplicit
  obtain ⟨hfree, hstale⟩ := h.failed before mid r₀ n err reply hlog hmid
  rcases begin_cases s r with ⟨t, summary, hrecent, hbegin⟩ | ⟨n, -, hheld, hbegin⟩ |
    ⟨-, -, hbegin⟩
  · rw [hbegin, List.mem_singleton] at hx
    subst hx
    cases hcall
    obtain ⟨hexp, hmem, hage⟩ := recent_eq_some.mp hrecent
    have hold := hstale (hexplicit ▸ hexp) _ (hkey ▸ hmem)
    exact absurd hage (Nat.not_lt.mpr hold)
  · rw [hbegin, List.mem_singleton] at hx
    subst hx
    cases hcall
    rw [hkey, hfree] at hheld
    cases hheld
  · rw [hbegin, List.mem_singleton] at hx
    subst hx
    cases hcall
    exact ⟨_, rfl⟩

/-- A request begins with one event. -/
theorem exists_begin_eq (s : ReplayService) (r : DeadLetterReplayRequest) :
    ∃ x, (s.begin r).2.2 = [x] ∧ x.call = some (r, s.now) := by
  rcases begin_cases s r with ⟨t, summary, -, hbegin⟩ | ⟨n, -, -, hbegin⟩ | ⟨-, -, hbegin⟩ <;>
    exact ⟨_, congrArg (·.2.2) hbegin, rfl⟩

/-- A step of a request under way is seen as one event, which begins none. -/
theorem exists_step_eq (h : stepCall s p outcome = some (s', ps, seen)) :
    ∃ x, seen = [x] ∧ x.call = none := by
  rcases stepCall_cases h with ⟨r, n, since, rfl, rfl, rfl, rfl⟩ |
    ⟨r, n, since, o, rfl, ho, rfl, rfl, rfl⟩ | ⟨r, n, o, rfl, ho, rfl, rfl, rfl⟩ <;>
    exact ⟨_, rfl, rfl⟩

theorem Reachable.runsAgain {now : ℕ} {P : Pool ReplayService Call Seen} (h : Reachable now P) :
    Preceded RunsAgain P.log := by
  refine h.invariant_along (I := fun P => Preceded RunsAgain P.log) ?_ ?_ preceded_nil
  · intro s before p after log outcome s' ps seen _ hI _ hstep
    obtain ⟨x, rfl, hcall⟩ := exists_step_eq hstep
    exact hI.snoc (runsAgain_of_call hcall)
  · intro s running log e s' ps seen hreach hI _ hout
    cases e with
    | tick ms =>
      cases hout
      rwa [List.append_nil]
    | request r =>
      obtain ⟨x, hx, -⟩ := exists_begin_eq s r
      obtain rfl : (s.begin r).2.2 = seen := congrArg (·.2.2) (Option.some.inj hout)
      rw [hx]
      exact hI.snoc ((Reachable.remembers hreach).runsAgain (r := r) (hx ▸ List.mem_cons_self))

/-- What waited is given what it waited for. -/
theorem Reachable.released {now : ℕ} {P : Pool ReplayService Call Seen} (h : Reachable now P) :
    ∀ r n reply, .released r n reply ∈ P.log →
      ∃ o, .settled n o ∈ P.log ∧ reply = waiterReply r o := by
  refine h.invariant_along (I := fun P => ∀ r n reply, .released r n reply ∈ P.log →
    ∃ o, .settled n o ∈ P.log ∧ reply = waiterReply r o) ?_ ?_ (by simp [idle])
  · intro s before p after log outcome s' ps seen hreach hI _ hstep r n reply hmem
    rcases List.mem_append.mp hmem with hold | hnew
    · obtain ⟨o, ho, hreply⟩ := hI r n reply hold
      exact ⟨o, List.mem_append_left _ ho, hreply⟩
    · rcases stepCall_cases hstep with ⟨r', n', since, rfl, rfl, rfl, rfl⟩ |
        ⟨r', n', since, o, rfl, ho, rfl, rfl, rfl⟩ | ⟨r', n', o, rfl, ho, rfl, rfl, rfl⟩
      · cases List.mem_singleton.mp hnew
      · cases List.mem_singleton.mp hnew
      · cases List.mem_singleton.mp hnew
        exact ⟨o, List.mem_append_left _ (((Reachable.consistent hreach).settled _ o).mpr ho), rfl⟩
  · intro s running log e s' ps seen hreach hI _ hout r n reply hmem
    rcases List.mem_append.mp hmem with hold | hnew
    · obtain ⟨o, ho, hreply⟩ := hI r n reply hold
      exact ⟨o, List.mem_append_left _ ho, hreply⟩
    · cases e with
      | tick ms =>
        cases hout
        cases hnew
      | request r' =>
        obtain ⟨x, hx, hcall⟩ := exists_begin_eq s r'
        obtain rfl : (s.begin r').2.2 = seen := congrArg (·.2.2) (Option.some.inj hout)
        rw [hx, List.mem_singleton] at hnew
        subst hnew
        cases hcall

/-! ### While there is room -/

/-- A request that ends forgets no recent result of another key. -/
theorem mem_finish_of_mem {key' : String} {c : ℕ × DeadLetterReplaySummary}
    (hsize : s.completed.size < resultMax) (h : (key', c) ∈ s.completed) :
    (key', c) ∈ (s.finish r since outcome).completed ∨ c.1 + resultTtl ≤ since ∨
      key' = r.key ∧ r.explicit = true := by
  cases outcome with
  | error err => exact .inl h
  | ok summary =>
    by_cases hexplicit : r.explicit = true
    · by_cases hkey : key' = r.key
      · exact .inr (.inr ⟨hkey, hexplicit⟩)
      · rw [ReplayService.finish, if_pos hexplicit]
        exact (mem_remember_of_ne hsize hkey h).imp_right .inl
    · left
      rw [ReplayService.finish, if_neg hexplicit]
      exact h

/-- Fewer results are remembered than fit. -/
def Room (P : Pool ReplayService Call Seen) (_ : Act ReplayOutcome Arrival) : Prop :=
  P.shared.completed.size < resultMax

instance decidableRoom (P : Pool ReplayService Call Seen) (a : Act ReplayOutcome Arrival) :
    Decidable (Room P a) :=
  inferInstanceAs (Decidable (P.shared.completed.size < resultMax))

/-- For ten minutes an execution under an explicit key has failed, or is in progress, or its
summary is remembered. -/
def Known (s : ReplayService) (log : List Seen) (r : DeadLetterReplayRequest) (n time : ℕ) :
    Prop :=
  time + resultTtl ≤ s.now ∨ (∃ err, .settled n (.error err) ∈ log) ∨ s.inFlight r.key = some n ∨
    ∃ summary, .settled n (.ok summary) ∈ log ∧ (r.key, (time, summary)) ∈ s.completed

theorem Known.of_same (h : Known s log r n time) (hin : s'.inFlight = s.inFlight)
    (hcompleted : s'.completed = s.completed) (hnow : s.now ≤ s'.now) :
    Known s' (log ++ seen) r n time := by
  rcases h with hold | ⟨err, herr⟩ | hheld | ⟨summary, hok, hmem⟩
  · exact .inl (Nat.le_trans hold hnow)
  · exact .inr (.inl ⟨err, List.mem_append_left _ herr⟩)
  · exact .inr (.inr (.inl (hin ▸ hheld)))
  · exact .inr (.inr (.inr ⟨summary, List.mem_append_left _ hok, hcompleted ▸ hmem⟩))

theorem Known.finish {before after : List Call}
    (hI : Consistent ⟨s, before ++ .finishing r n since :: after, log⟩)
    (hR : Remembers ⟨s, before ++ .finishing r n since :: after, log⟩)
    (hsize : s.completed.size < resultMax) (ho : s.outcomes n = some outcome)
    (hstarted : .started r' n' time ∈ log) (hexplicit : r'.explicit = true)
    (h : Known s log r' n' time) :
    Known (s.finish r since outcome) (log ++ seen) r' n' time := by
  have hself : Call.finishing r n since ∈ before ++ .finishing r n since :: after := by simp
  have hown : .started r n since ∈ log := hI.began _ hself _ rfl
  have hheld : s.inFlight r.key = some n := (hI.held r.key n).mpr (mem_owners hself rfl)
  have hsettled : .settled n outcome ∈ log ++ seen :=
    List.mem_append_left _ ((hI.settled n outcome).mpr ho)
  rcases h with hold | ⟨err, herr⟩ | hheld' | ⟨summary, hok, hmem⟩
  · exact .inl hold
  · exact .inr (.inl ⟨err, List.mem_append_left _ herr⟩)
  · by_cases hkey : r'.key = r.key
    · rw [hkey, hheld, Option.some.injEq] at hheld'
      subst hheld'
      obtain ⟨rfl, rfl⟩ := hI.unique _ _ _ _ _ hstarted hown
      cases outcome with
      | error err => exact .inr (.inl ⟨err, hsettled⟩)
      | ok summary =>
        refine .inr (.inr (.inr ⟨summary, hsettled, ?_⟩))
        rw [ReplayService.finish, if_pos hexplicit]
        exact mem_remember_self
    · exact .inr (.inr (.inl ((Function.update_of_ne hkey ..).trans hheld')))
  · have hsince : since ≤ s.now := (hI.bounds r n since hown).2
    have hfinish : _ ∈ (s.finish r since outcome).completed ∨ _ := mem_finish_of_mem hsize hmem
    rcases hfinish with hkept | hold | ⟨hkey, hexp⟩
    · exact .inr (.inr (.inr ⟨summary, List.mem_append_left _ hok, hkept⟩))
    · exact .inl (Nat.le_trans hold hsince)
    · have hstale := hR.stale _ hself r n since rfl hexp _ (hkey ▸ hmem)
      exact .inl (Nat.le_trans hstale hsince)

theorem Known.start (h : Known s log r' n' time) (hfree : s.inFlight r.key = none) :
    Known { s with
        inFlight := Function.update s.inFlight r.key (some n)
        executions := s.executions + 1 } (log ++ seen) r' n' time := by
  rcases h with hold | ⟨err, herr⟩ | hheld | ⟨summary, hok, hmem⟩
  · exact .inl hold
  · exact .inr (.inl ⟨err, List.mem_append_left _ herr⟩)
  · refine .inr (.inr (.inl ?_))
    have hne : r'.key ≠ r.key := by
      intro heq
      rw [heq, hfree] at hheld
      cases hheld
    exact (Function.update_of_ne hne ..).trans hheld
  · exact .inr (.inr (.inr ⟨summary, List.mem_append_left _ hok, hmem⟩))

/-- What a request comes to, in the ten minutes after an execution under its own explicit key
began: unless that one failed, it is joined, or its summary is served. -/
def Deduplicated (old pre : List Seen) (x : Seen) : Prop :=
  ∀ r n time, .started r n time ∈ pre → r.explicit = true →
    ∀ r' time', x.call = some (r', time') → r'.explicit = true → r'.key = r.key →
      time' < time + resultTtl →
      (∃ err, .settled n (.error err) ∈ old ++ pre) ∨ x = .joined r' n time' ∨
        ∃ summary, .settled n (.ok summary) ∈ old ++ pre ∧
          x = .served r' time' (.response summary r'.correlationId true)

theorem deduplicated_begin {running : List Call} {old new : List Seen}
    (hI : Consistent ⟨s, running, old ++ new⟩) (hR : Remembers ⟨s, running, old ++ new⟩)
    (hknown : ∀ r n time, .started r n time ∈ new → r.explicit = true →
      Known s (old ++ new) r n time) (hx : (s.begin r).2.2 = [x]) :
    Deduplicated old new x := by
  intro r₀ n time hstarted hexplicit r' time' hcall hexplicit' hkey hage
  have hmem : .started r₀ n time ∈ old ++ new := List.mem_append_right _ hstarted
  obtain ⟨rfl, rfl⟩ : r = r' ∧ s.now = time' := by
    obtain ⟨y, hy, hycall⟩ := exists_begin_eq s r
    rw [hx, List.singleton_inj] at hy
    rw [hy, hycall, Option.some.injEq, Prod.mk.injEq] at hcall
    exact hcall
  rcases hknown r₀ n time hstarted hexplicit with hold | herr | hheld | ⟨summary, hok, hdone⟩
  · exact absurd hage (Nat.not_lt.mpr hold)
  · exact .inl herr
  · refine .inr (.inl ?_)
    obtain ⟨p, hp, horigin⟩ := hI.exists_owner hheld hmem
    rcases begin_cases s r with ⟨t, summary, hrecent, hbegin⟩ | ⟨n', -, hheld', hbegin⟩ |
      ⟨-, hfree, -⟩
    · obtain ⟨-, hdone, hfresh⟩ := recent_eq_some.mp hrecent
      have hstale := hR.stale p hp r₀ n time horigin hexplicit _ (hkey ▸ hdone)
      have hsince := (hI.bounds r₀ n time hmem).2
      exact absurd hfresh (Nat.not_lt.mpr (Nat.le_trans hstale hsince))
    · rw [hkey, hheld, Option.some.injEq] at hheld'
      subst hheld'
      rw [hbegin] at hx
      exact (List.singleton_inj.mp hx).symm
    · rw [hkey, hheld] at hfree
      cases hfree
  · refine .inr (.inr ⟨summary, hok, ?_⟩)
    have hrecent : s.recent r = some (time, summary) :=
      recent_eq_some.mpr ⟨hexplicit', hkey ▸ hdone, hage⟩
    unfold ReplayService.begin at hx
    rw [hrecent] at hx
    exact (List.singleton_inj.mp hx).symm

/-- While there is room, no request is answered in another way. -/
theorem Reachable.deduplicated {now : ℕ} {P P' : Pool ReplayService Call Seen}
    (h : Reachable now P) (h' : Reaches replayRules Room P P') :
    ∃ new, P'.log = P.log ++ new ∧ Preceded (Deduplicated P.log) new ∧
      ∀ r n time, .started r n time ∈ new → r.explicit = true →
        Known P'.shared P'.log r n time := by
  refine h'.invariant_along (I := fun Q => ∃ new, Q.log = P.log ++ new ∧
    Preceded (Deduplicated P.log) new ∧ ∀ r n time, .started r n time ∈ new →
      r.explicit = true → Known Q.shared Q.log r n time) ?_ ?_ ⟨[], by simp, preceded_nil, by simp⟩
  · rintro s before p after log outcome s' ps seen hreach ⟨new, hlog, hdedup, hknown⟩ hroom hstep
    have hQ : Reachable now _ := h.trans (hreach.mono fun _ _ _ => trivial)
    obtain rfl : log = P.log ++ new := hlog
    obtain ⟨x, rfl, hcall⟩ := exists_step_eq hstep
    refine ⟨new ++ [x], by simp, hdedup.snoc ?_, fun r n time hmem hexplicit => ?_⟩
    · intro r₀ n time _ _ r' time' hcall'
      rw [hcall] at hcall'
      cases hcall'
    · have hnew : .started r n time ∈ new := by
        refine (List.mem_append.mp hmem).resolve_right fun hx => ?_
        rw [← List.mem_singleton.mp hx] at hcall
        cases hcall
      have hk := hknown r n time hnew hexplicit
      rcases stepCall_cases hstep with ⟨r', n', since, rfl, rfl, rfl, -⟩ |
        ⟨r', n', since, o, rfl, ho, rfl, rfl, -⟩ | ⟨r', n', o, rfl, ho, rfl, rfl, -⟩
      · exact hk.of_same rfl rfl (Nat.le_refl _)
      · exact hk.finish hQ.consistent hQ.remembers hroom ho (List.mem_append_right _ hnew)
          hexplicit
      · exact hk.of_same rfl rfl (Nat.le_refl _)
  · rintro s running log e s' ps seen hreach ⟨new, hlog, hdedup, hknown⟩ hroom hout
    have hQ : Reachable now _ := h.trans (hreach.mono fun _ _ _ => trivial)
    obtain rfl : log = P.log ++ new := hlog
    cases e with
    | tick ms =>
      cases hout
      exact ⟨new, by simp, hdedup, fun r n time hmem hexplicit =>
        (hknown r n time hmem hexplicit).of_same rfl rfl (Nat.le_add_right ..)⟩
    | request r =>
      obtain ⟨x, hx, -⟩ := exists_begin_eq s r
      have hbegin := Option.some.inj hout
      obtain rfl : [x] = seen := hx.symm.trans (congrArg (·.2.2) hbegin)
      refine ⟨new ++ [x], by simp, hdedup.snoc ?_, fun r' n time hmem hexplicit => ?_⟩
      · exact deduplicated_begin hQ.consistent hQ.remembers hknown hx
      · rcases begin_cases s r with ⟨t, summary, -, heq⟩ | ⟨n', -, -, heq⟩ | ⟨-, hfree, heq⟩
        · cases heq.symm.trans hbegin
          have hnew : .started r' n time ∈ new := by simpa using hmem
          exact (hknown r' n time hnew hexplicit).of_same rfl rfl (Nat.le_refl _)
        · cases heq.symm.trans hbegin
          have hnew : .started r' n time ∈ new := by simpa using hmem
          exact (hknown r' n time hnew hexplicit).of_same rfl rfl (Nat.le_refl _)
        · cases heq.symm.trans hbegin
          rcases List.mem_append.mp hmem with hnew | hself
          · exact (hknown r' n time hnew hexplicit).start hfree
          · cases List.mem_singleton.mp hself
            exact .inr (.inr (.inl (Function.update_self ..)))

/-! ### The guarantee -/

/-- The execution in progress is one of the key. -/
def Call.executes (key : String) : Call → Bool
  | .running r _ _ => r.key = key
  | _ => false

theorem Consistent.countP_executes {P : Pool ReplayService Call Seen} (h : Consistent P)
    (key : String) : P.running.countP (·.executes key) ≤ 1 := by
  have hcount := List.nodup_iff_count_le_one.mp h.apart key
  rw [List.count_eq_countP, List.countP_map, owners, List.countP_filterMap] at hcount
  refine Nat.le_trans (List.countP_mono_left fun p _ hp => ?_) hcount
  cases p with
  | running r n since => simpa [Call.executes, Call.owned] using hp
  | finishing r n since => cases hp
  | waiting r n => cases hp

/-- **Replays are deduplicated.** In every run, with any requests, outcomes and passing of time,
no two executions of one key are in progress, what is remembered is the summary of an execution
that succeeded, and the next request for a key whose execution failed starts another. While there
is room, in the ten minutes after an execution under an explicit key began that succeeds, no
request with that key starts another: each waits for it or is served, and is given its summary. -/
theorem replays_deduplicated {now : ℕ} {P P' : Pool ReplayService Call Seen}
    (h : Reachable now P) (h' : Reaches replayRules Room P P') :
    (∀ key, P'.running.countP (·.executes key) ≤ 1) ∧
    (∀ key c, (key, c) ∈ P'.shared.completed → ∃ r n, r.key = key ∧
      .started r n c.1 ∈ P'.log ∧ .settled n (.ok c.2) ∈ P'.log) ∧
    Preceded RunsAgain P'.log ∧
    (∃ new, P'.log = P.log ++ new ∧
      ∀ pre mid post r n time summary x r' time',
        new = pre ++ .started r n time :: mid ++ x :: post → r.explicit = true →
        .settled n (.ok summary) ∈ P'.log → x.call = some (r', time') → r'.explicit = true →
        r'.key = r.key → time' < time + resultTtl →
        x = .joined r' n time' ∨ x = .served r' time' (.response summary r'.correlationId true)) ∧
    ∀ r n reply summary, .released r n reply ∈ P'.log → .settled n (.ok summary) ∈ P'.log →
      reply = .response summary r.correlationId true := by
  have hreach : Reachable now P' := h.trans (h'.mono fun _ _ _ => trivial)
  have hI := hreach.consistent
  have hsettled : ∀ n o o', .settled n o ∈ P'.log → .settled n o' ∈ P'.log → o = o' := by
    intro n o o' ho ho'
    exact Option.some.inj (((hI.settled n o).mp ho).symm.trans ((hI.settled n o').mp ho'))
  refine ⟨hI.countP_executes, fun key c hc => ?_, hreach.runsAgain, ?_, ?_⟩
  · obtain ⟨r, n, hkey, -, hstarted, hok⟩ := hreach.remembers.earned key c hc
    exact ⟨r, n, hkey, hstarted, hok⟩
  · obtain ⟨new, hlog, hdedup, -⟩ := h.deduplicated h'
    refine ⟨new, hlog, ?_⟩
    intro pre mid post r n time summary x r' time' hnew hexplicit hok hcall hexplicit' hkey hage
    have hlog' : P'.log = P.log ++ (pre ++ .started r n time :: mid) ++ x :: post := by
      rw [hlog, hnew]
      simp only [List.append_assoc, List.cons_append]
    have hseen : ∀ y ∈ P.log ++ (pre ++ .started r n time :: mid), y ∈ P'.log := by
      intro y hy
      rw [hlog']
      exact List.mem_append_left _ hy
    rcases hdedup _ x post hnew r n time (by simp) hexplicit r' time' hcall hexplicit' hkey hage
      with ⟨err, herr⟩ | hjoined | ⟨summary', hok', hserved⟩
    · cases hsettled n _ _ hok (hseen _ herr)
    · exact .inl hjoined
    · cases hsettled n _ _ hok (hseen _ hok')
      exact .inr hserved
  · intro r n reply summary hreleased hok
    obtain ⟨o, ho, rfl⟩ := hreach.released r n reply hreleased
    cases hsettled n _ _ hok ho
    rfl

/-! ### A replay, two retries and an outage -/

def sampleRequest (correlationId : String) : DeadLetterReplayRequest :=
  ⟨none, some "k", correlationId⟩

def sampleSummary : DeadLetterReplaySummary := ⟨["7"], []⟩

/-- The first request is joined by the second and its summary served to the third. Ten minutes
after it began, the fourth meets an outage, and the fifth starts again. -/
def sampleRun : List (Act ReplayOutcome Arrival) :=
  [.outside (.request (sampleRequest "a")), .outside (.request (sampleRequest "b")),
    .step 1 (.ok sampleSummary), .step 1 (.error .notFound), .step 0 (.error .notFound),
    .outside (.tick 1000), .outside (.request (sampleRequest "c")), .outside (.tick 599000),
    .outside (.request (sampleRequest "d")), .step 0 (.error .storeUnavailable),
    .step 0 (.error .notFound), .outside (.request (sampleRequest "e"))]

theorem replays_deduplicated_sample :
    ∃ P : Pool ReplayService Call Seen,
      P.log = [.started (sampleRequest "a") 0 0, .joined (sampleRequest "b") 0 0,
        .settled 0 (.ok sampleSummary),
        .ended (sampleRequest "a") 0 (.ok sampleSummary) (.response sampleSummary "a" false),
        .released (sampleRequest "b") 0 (.response sampleSummary "b" true),
        .served (sampleRequest "c") 1000 (.response sampleSummary "c" true),
        .started (sampleRequest "d") 1 600000, .settled 1 (.error .storeUnavailable),
        .ended (sampleRequest "d") 1 (.error .storeUnavailable)
          (ownerReply (sampleRequest "d") (.error .storeUnavailable)),
        .started (sampleRequest "e") 2 600000] ∧
      (∀ key, P.running.countP (·.executes key) ≤ 1) ∧ Preceded RunsAgain P.log := by
  have hrun : (replayRules.run (idle 0) sampleRun).map (·.log) = some _ := rfl
  obtain ⟨P, hP, hlog⟩ := Option.map_eq_some_iff.mp hrun
  have hroom : Along replayRules.exec Room (idle 0) sampleRun := by decide
  have hguarantee := replays_deduplicated (.refl (idle 0)) (reaches_of_run hP hroom)
  exact ⟨P, hlog, hguarantee.1, hguarantee.2.2.1⟩

end Swyft.Indexer.Deduplication
