import Swyft.Lib.OrderedMap
import Swyft.Lib.OrderedSet
import Mathlib.Data.List.Induction
import Mathlib.Data.Set.Insert

/-!
# Who is subscribed to which pool

`apps/api/src/price/price.service.ts` keeps for every pool the clients that are subscribed to its
price, for every client the pools it is subscribed to, and a subscription of its own to the Redis
channel of every pool that has clients. Abstractly there is one relation between clients and pools,
of which the two maps are the two readings.

The commands to Redis are sent over one connection and carried out later, in their order. Each
succeeds.

## Main definitions

* `PriceService` — the maps, the commands on their way and the channels Redis has
* `Represents` — the maps and the channels agree with a relation

## Main results

* `Represents.subscribe`, `Represents.unsubscribe`, `Represents.removeClient`,
  `Represents.broadcastPrice` — what each operation does to the relation
* `bookkeeping_exact` — the maps and the channels agree after any calls
-/

namespace Swyft.Price

/-- A price as it is sent to clients, without a time where that is no number. -/
structure PriceEvent where
  poolId : String
  currentPrice : String
  sqrtPrice : String
  tick : Int32
  liquidity : String
  timestamp : Option ℤ
  change24h : Option String
  deriving DecidableEq

/-! ### Redis channels -/

/-- The channel of a pool. -/
def channel (poolId : String) : String := "prices:" ++ poolId

theorem channel_inj {p q : String} : channel p = channel q ↔ p = q := String.append_right_inj _

inductive Command where
  | subscribe (channel : String)
  | unsubscribe (channel : String)
  deriving DecidableEq

/-- The channels a connection is subscribed to once a command has been carried out. -/
def Command.apply (channels : OrderedSet String) : Command → OrderedSet String
  | .subscribe ch => channels.add ch
  | .unsubscribe ch => channels.delete ch

/-! ### The service -/

variable {ω : Type}

/-- The state of the service, whose clients are web sockets. -/
structure PriceService (ω : Type) where
  subscriptions : OrderedMap String (OrderedSet ω)
  clientPools : OrderedMap ω (OrderedSet String)
  /-- Commands that were sent to Redis and not yet carried out. -/
  commands : List Command
  /-- The channels that Redis has `subscriber` subscribed to. -/
  channels : OrderedSet String

/-- What a broadcast meets at a client: it is not open, it takes the message, or `send` throws. -/
inductive Socket where
  | notOpen
  | accepts
  | throws
  deriving DecidableEq

namespace PriceService

def init : PriceService ω := ⟨.empty, .empty, [], .empty⟩

/-- The clients of a pool. -/
def clients (s : PriceService ω) (poolId : String) : OrderedSet ω :=
  (s.subscriptions.get poolId).getD .empty

theorem clients_of_get {s : PriceService ω} {p : String} {cs : OrderedSet ω}
    (h : s.subscriptions.get p = some cs) : s.clients p = cs := by
  rw [clients, h, Option.getD_some]

theorem clients_of_get_none {s : PriceService ω} {p : String}
    (h : s.subscriptions.get p = none) : s.clients p = .empty := by
  rw [clients, h, Option.getD_none]

variable [DecidableEq ω]

/-- The pools of a client. -/
def pools (s : PriceService ω) (client : ω) : OrderedSet String :=
  (s.clientPools.get client).getD .empty

/-- The channels once the commands sent so far have been carried out. -/
def settled (s : PriceService ω) : OrderedSet String := s.commands.foldl Command.apply s.channels

/-- `subscribe`. -/
def subscribe (s : PriceService ω) (client : ω) (poolId : String) : PriceService ω :=
  let isNew := (s.subscriptions.get poolId).isNone
  { s with
    subscriptions := s.subscriptions.set poolId ((s.clients poolId).add client)
    clientPools := s.clientPools.set client ((s.pools client).add poolId)
    commands := if isNew then s.commands ++ [.subscribe (channel poolId)] else s.commands }

/-- The first part of `unsubscribe`: `pool.delete(client)`, and the pool goes with its last
client. -/
def leavePool (s : PriceService ω) (client : ω) (poolId : String) : PriceService ω :=
  match s.subscriptions.get poolId with
  | none => s
  | some pool =>
    let pool := pool.delete client
    if pool.size = 0 then
      { s with
        subscriptions := s.subscriptions.delete poolId
        commands := s.commands ++ [.unsubscribe (channel poolId)] }
    else { s with subscriptions := s.subscriptions.set poolId pool }

/-- `clientPools.get(client)?.delete(poolId)`. -/
def forgetPool (s : PriceService ω) (client : ω) (poolId : String) : PriceService ω :=
  match s.clientPools.get client with
  | none => s
  | some pools => { s with clientPools := s.clientPools.set client (pools.delete poolId) }

/-- `unsubscribe`. -/
def unsubscribe (s : PriceService ω) (client : ω) (poolId : String) : PriceService ω :=
  (s.leavePool client poolId).forgetPool client poolId

/-- `removeClient`. -/
def removeClient (s : PriceService ω) (client : ω) : PriceService ω :=
  match s.clientPools.get client with
  | none => s
  | some pools =>
    let s := OrderedSet.forEach (fun s => s.pools client) (fun s p => s.unsubscribe client p)
      pools.elems s
    { s with clientPools := s.clientPools.delete client }

/-- The body of the loop of `broadcastPrice`, with the clients that were sent the message. -/
def sendTo (sockets : ω → Socket) (t : PriceService ω × List ω) (client : ω) :
    PriceService ω × List ω :=
  match sockets client with
  | .notOpen => t
  | .accepts => (t.1, t.2 ++ [client])
  | .throws => (t.1.removeClient client, t.2)

/-- `broadcastPrice`, with the clients that were sent the event. -/
def broadcastPrice (s : PriceService ω) (event : PriceEvent) (sockets : ω → Socket) :
    PriceService ω × List ω :=
  OrderedSet.forEach (fun t => t.1.clients event.poolId) (sendTo sockets)
    (s.clients event.poolId).elems (s, [])

/-- Redis carries out the first command that is on its way. -/
def carryOut (s : PriceService ω) : PriceService ω :=
  match s.commands with
  | [] => s
  | c :: cs => { s with commands := cs, channels := c.apply s.channels }

end PriceService

/-! ### The relation -/

variable [DecidableEq ω]

/-- The service has the clients subscribed to the pools that a relation says: both maps read it,
no pool is listed without clients, and the channels are those of the pools listed. -/
structure Represents (s : PriceService ω) (R : Set (ω × String)) : Prop where
  clients : ∀ c p, c ∈ s.clients p ↔ (c, p) ∈ R
  pools : ∀ c p, p ∈ s.pools c ↔ (c, p) ∈ R
  inhabited : ∀ p cs, s.subscriptions.get p = some cs → cs.size ≠ 0
  channels : ∀ ch, ch ∈ s.settled ↔ ∃ p, ch = channel p ∧ (s.subscriptions.get p).isSome

namespace PriceService

variable {s : PriceService ω} {c c' : ω} {p p' : String}

/-! ### What the operations do to the maps -/

theorem get_subscribe : (s.subscribe c p).subscriptions.get p' =
    if p' = p then some ((s.clients p).add c) else s.subscriptions.get p' := OrderedMap.get_set

theorem mem_clients_subscribe :
    c' ∈ (s.subscribe c p).clients p' ↔ (c', p') = (c, p) ∨ c' ∈ s.clients p' := by
  rw [clients, get_subscribe, Prod.mk.injEq]
  split
  · rename_i hp
    rw [hp, Option.getD_some, OrderedSet.mem_add, eq_self p, and_true]
  · rename_i hp
    rw [clients, iff_false_intro hp, and_false, false_or]

theorem mem_pools_subscribe :
    p' ∈ (s.subscribe c p).pools c' ↔ (c', p') = (c, p) ∨ p' ∈ s.pools c' := by
  show p' ∈ ((s.clientPools.set c ((s.pools c).add p)).get c').getD .empty ↔ _
  rw [OrderedMap.get_set, Prod.mk.injEq]
  split
  · rename_i hc
    rw [hc, Option.getD_some, OrderedSet.mem_add, eq_self c, true_and]
  · rename_i hc
    rw [pools, iff_false_intro hc, false_and, false_or]

/-- What leaving a pool leaves of the pool, and whether the channel is left. -/
theorem leavePool_cases (s : PriceService ω) (c : ω) (p : String) :
    s.subscriptions.get p = none ∧ s.leavePool c p = s ∨
    (∃ cs, s.subscriptions.get p = some cs ∧ (cs.delete c).size = 0 ∧
      s.leavePool c p = { s with
        subscriptions := s.subscriptions.delete p
        commands := s.commands ++ [.unsubscribe (channel p)] }) ∨
    ∃ cs, s.subscriptions.get p = some cs ∧ (cs.delete c).size ≠ 0 ∧
      s.leavePool c p = { s with subscriptions := s.subscriptions.set p (cs.delete c) } := by
  cases hget : s.subscriptions.get p with
  | none => exact .inl ⟨rfl, by rw [leavePool, hget]⟩
  | some cs =>
    by_cases hsize : (cs.delete c).size = 0
    · exact .inr (.inl ⟨cs, rfl, hsize, by simp only [leavePool, hget, hsize, if_true]⟩)
    · exact .inr (.inr ⟨cs, rfl, hsize, by simp only [leavePool, hget, hsize, if_false]⟩)

theorem mem_clients_leavePool :
    c' ∈ (s.leavePool c p).clients p' ↔ (c', p') ≠ (c, p) ∧ c' ∈ s.clients p' := by
  by_cases hp : p' = p
  · subst hp
    have hne : ((c', p') ≠ (c, p')) ↔ c' ≠ c := by simp
    rw [hne]
    rcases s.leavePool_cases c p' with ⟨hget, heq⟩ | ⟨cs, hget, hsize, heq⟩ | ⟨cs, hget, -, heq⟩
    · rw [heq, clients_of_get_none hget]
      exact iff_of_false (OrderedSet.notMem_empty c')
        fun h => OrderedSet.notMem_empty c' h.2
    · rw [heq, clients_of_get hget, ← OrderedSet.mem_delete, clients, OrderedMap.get_delete,
        if_pos rfl, Option.getD_none]
      exact iff_of_false (OrderedSet.notMem_empty c') (OrderedSet.notMem_of_size_eq_zero hsize c')
    · rw [heq, clients_of_get hget, ← OrderedSet.mem_delete, clients, OrderedMap.get_set,
        if_pos rfl, Option.getD_some]
  · have hne : (c', p') ≠ (c, p) := by simp [hp]
    rw [and_iff_right hne]
    rcases s.leavePool_cases c p with ⟨-, heq⟩ | ⟨cs, -, -, heq⟩ | ⟨cs, -, -, heq⟩
    · rw [heq]
    · rw [heq, clients, OrderedMap.get_delete, if_neg hp, clients]
    · rw [heq, clients, OrderedMap.get_set, if_neg hp, clients]

theorem clientPools_leavePool : (s.leavePool c p).clientPools = s.clientPools := by
  rcases s.leavePool_cases c p with ⟨-, heq⟩ | ⟨cs, -, -, heq⟩ | ⟨cs, -, -, heq⟩ <;> rw [heq]

@[simp] theorem pools_leavePool : (s.leavePool c p).pools c' = s.pools c' := by
  rw [pools, clientPools_leavePool, pools]

theorem forgetPool_eq (s : PriceService ω) (c : ω) (p : String) :
    s.forgetPool c p = { s with clientPools := (s.forgetPool c p).clientPools } := by
  unfold forgetPool
  split <;> rfl

theorem mem_pools_forgetPool :
    p' ∈ (s.forgetPool c p).pools c' ↔ (c', p') ≠ (c, p) ∧ p' ∈ s.pools c' := by
  unfold forgetPool
  split
  · rename_i hget
    constructor
    · intro h
      refine ⟨?_, h⟩
      rintro ⟨rfl, rfl⟩
      rw [pools, hget] at h
      exact OrderedSet.notMem_empty _ h
    · exact And.right
  · rename_i ps hget
    show p' ∈ ((s.clientPools.set c (ps.delete p)).get c').getD .empty ↔ _
    rw [OrderedMap.get_set]
    split
    · rename_i hc
      subst hc
      rw [pools, hget, Option.getD_some, Option.getD_some, OrderedSet.mem_delete]
      simp
    · rename_i hc
      rw [pools, and_iff_right]
      simp [hc]

theorem mem_clients_unsubscribe :
    c' ∈ (s.unsubscribe c p).clients p' ↔ (c', p') ≠ (c, p) ∧ c' ∈ s.clients p' := by
  rw [unsubscribe, forgetPool_eq, ← mem_clients_leavePool]
  rfl

theorem mem_pools_unsubscribe :
    p' ∈ (s.unsubscribe c p).pools c' ↔ (c', p') ≠ (c, p) ∧ p' ∈ s.pools c' := by
  rw [unsubscribe, mem_pools_forgetPool, pools_leavePool]

theorem get_unsubscribe : (s.unsubscribe c p).subscriptions.get p' =
    (s.leavePool c p).subscriptions.get p' := by
  rw [unsubscribe, forgetPool_eq]

/-! ### Clients that have an entry -/

/-- A client has an entry in `clientPools`. -/
def Known (s : PriceService ω) (c : ω) : Prop := (s.clientPools.get c).isSome

theorem known_of_mem_pools (h : p ∈ s.pools c) : s.Known c := by
  by_contra hnone
  rw [Known, Option.not_isSome_iff_eq_none] at hnone
  rw [pools, hnone] at h
  exact OrderedSet.notMem_empty p h

theorem known_subscribe (h : (s.subscribe c p).Known c') : c' = c ∨ s.Known c' := by
  have hget : ((s.clientPools.set c ((s.pools c).add p)).get c').isSome := h
  rw [OrderedMap.get_set] at hget
  split at hget
  · rename_i hc
    exact .inl hc
  · exact .inr hget

theorem known_unsubscribe : (s.unsubscribe c p).Known c' ↔ s.Known c' := by
  unfold Known unsubscribe forgetPool
  split
  · rw [clientPools_leavePool]
  · rename_i ps hget
    rw [clientPools_leavePool] at hget ⊢
    rw [OrderedMap.get_set]
    split
    · rename_i hc
      rw [hc, hget]
      exact Iff.rfl
    · exact Iff.rfl

theorem known_removeClient (h : (s.removeClient c).Known c') : c' ≠ c ∧ s.Known c' := by
  unfold removeClient at h
  split at h
  · rename_i hget
    refine ⟨?_, h⟩
    rintro rfl
    rw [Known, hget] at h
    cases h
  · rename_i ps hget
    rw [Known, OrderedMap.get_delete] at h
    split at h
    · cases h
    · rename_i hc
      refine ⟨hc, ?_⟩
      have hloop := OrderedSet.forEach_rule (fun s : PriceService ω => s.pools c)
        (fun s p => s.unsubscribe c p) (t := s)
        (I := fun _ (t : PriceService ω) => t.Known c' → s.Known c') ?_ ?_ ps.elems id
      · exact hloop h
      · intro p todo t ht _ hknown
        exact ht (known_unsubscribe.mp hknown)
      · intro p todo t ht _
        exact ht

end PriceService

/-! ### What the operations do to the relation -/

/-- A client of a pool at which `send` throws. -/
def Failing (R : Set (ω × String)) (sockets : ω → Socket) (p : String) (c : ω) : Prop :=
  (c, p) ∈ R ∧ sockets c = .throws

namespace Represents

open PriceService

variable {s : PriceService ω} {R R' : Set (ω × String)} {c : ω} {p : String}

theorem init : Represents (PriceService.init : PriceService ω) ∅ := by
  refine ⟨fun c p => ?_, fun c p => ?_, fun p cs h => ?_, fun ch => ?_⟩
  · exact iff_of_false (OrderedSet.notMem_empty c) (Set.notMem_empty _)
  · exact iff_of_false (OrderedSet.notMem_empty p) (Set.notMem_empty _)
  · cases h
  · refine iff_of_false (OrderedSet.notMem_empty ch) ?_
    rintro ⟨p, -, hp⟩
    cases hp

theorem congr (h : Represents s R) (hR : ∀ c p, (c, p) ∈ R ↔ (c, p) ∈ R') : Represents s R' where
  clients c p := (h.clients c p).trans (hR c p)
  pools c p := (h.pools c p).trans (hR c p)
  inhabited := h.inhabited
  channels := h.channels

/-- A pool is listed if it has a client. -/
theorem isSome_get (h : Represents s R) : (s.subscriptions.get p).isSome ↔ ∃ c, (c, p) ∈ R := by
  constructor
  · intro hsome
    obtain ⟨cs, hget⟩ := Option.isSome_iff_exists.mp hsome
    obtain ⟨c, hc⟩ := OrderedSet.size_ne_zero.mp (h.inhabited p cs hget)
    exact ⟨c, (h.clients c p).mp (by rwa [clients_of_get hget])⟩
  · rintro ⟨c, hc⟩
    by_contra hnone
    rw [Option.not_isSome_iff_eq_none] at hnone
    have hmem := (h.clients c p).mpr hc
    rw [clients_of_get_none hnone] at hmem
    exact OrderedSet.notMem_empty c hmem

theorem subscribe (h : Represents s R) (c : ω) (p : String) :
    Represents (s.subscribe c p) (insert (c, p) R) := by
  refine ⟨fun c' p' => ?_, fun c' p' => ?_, fun p' cs hget => ?_, fun ch => ?_⟩
  · rw [mem_clients_subscribe, Set.mem_insert_iff, h.clients]
  · rw [mem_pools_subscribe, Set.mem_insert_iff, h.pools]
  · rw [get_subscribe] at hget
    split at hget
    · cases hget
      exact OrderedSet.size_ne_zero.mpr ⟨c, OrderedSet.mem_add.mpr (.inl rfl)⟩
    · exact h.inhabited p' cs hget
  · have hlisted : (∃ p', ch = channel p' ∧ ((s.subscribe c p).subscriptions.get p').isSome) ↔
        ch = channel p ∨ ch ∈ s.settled := by
      rw [h.channels]
      constructor
      · rintro ⟨p', hch, hp'⟩
        rw [get_subscribe] at hp'
        split at hp'
        · rename_i heq
          exact .inl (heq ▸ hch)
        · exact .inr ⟨p', hch, hp'⟩
      · rintro (hch | ⟨p', hch, hp'⟩)
        · exact ⟨p, hch, by rw [get_subscribe, if_pos rfl]; rfl⟩
        · refine ⟨p', hch, ?_⟩
          rw [get_subscribe]
          split
          · rfl
          · exact hp'
    rw [hlisted]
    cases hget : s.subscriptions.get p with
    | none =>
      have hsettled : (s.subscribe c p).settled = s.settled.add (channel p) := by
        simp [settled, PriceService.subscribe, hget, Command.apply]
      rw [hsettled, OrderedSet.mem_add]
    | some cs =>
      have hsettled : (s.subscribe c p).settled = s.settled := by
        simp [settled, PriceService.subscribe, hget]
      rw [hsettled, or_iff_right_of_imp]
      rintro rfl
      exact (h.channels _).mpr ⟨p, rfl, by rw [hget]; rfl⟩

theorem unsubscribe (h : Represents s R) (c : ω) (p : String) :
    Represents (s.unsubscribe c p) (R \ {(c, p)}) := by
  have hsettled : (s.unsubscribe c p).settled = (s.leavePool c p).settled := by
    rw [PriceService.unsubscribe, forgetPool_eq]
    rfl
  refine ⟨fun c' p' => ?_, fun c' p' => ?_, fun p' cs hget => ?_, fun ch => ?_⟩
  · rw [mem_clients_unsubscribe, h.clients, Set.mem_sdiff, Set.mem_singleton_iff, and_comm]
  · rw [mem_pools_unsubscribe, h.pools, Set.mem_sdiff, Set.mem_singleton_iff, and_comm]
  · rw [get_unsubscribe] at hget
    rcases s.leavePool_cases c p with ⟨-, heq⟩ | ⟨cs', -, -, heq⟩ | ⟨cs', -, hsize, heq⟩
    · exact h.inhabited p' cs (heq ▸ hget)
    · simp only [heq, OrderedMap.get_delete] at hget
      split at hget
      · cases hget
      · exact h.inhabited p' cs hget
    · simp only [heq, OrderedMap.get_set] at hget
      split at hget
      · cases hget
        exact hsize
      · exact h.inhabited p' cs hget
  · simp only [get_unsubscribe, hsettled]
    rcases s.leavePool_cases c p with ⟨-, heq⟩ | ⟨cs', -, -, heq⟩ | ⟨cs', hget, -, heq⟩
    · rw [heq]
      exact h.channels ch
    · have hch : (s.leavePool c p).settled = s.settled.delete (channel p) := by
        simp [heq, settled, Command.apply]
      rw [hch, OrderedSet.mem_delete, h.channels, heq]
      constructor
      · rintro ⟨hne, p', rfl, hp'⟩
        refine ⟨p', rfl, ?_⟩
        rwa [OrderedMap.get_delete, if_neg (mt channel_inj.mpr hne)]
      · rintro ⟨p', rfl, hp'⟩
        rw [OrderedMap.get_delete] at hp'
        split at hp'
        · cases hp'
        · rename_i hne
          exact ⟨fun heq => hne (channel_inj.mp heq), p', rfl, hp'⟩
    · have hch : (s.leavePool c p).settled = s.settled := by
        rw [heq]
        rfl
      have hlisted (p' : String) : ((s.leavePool c p).subscriptions.get p').isSome =
          (s.subscriptions.get p').isSome := by
        rw [heq, OrderedMap.get_set]
        split
        · rename_i hp'
          rw [hp', hget]
          rfl
        · rfl
      rw [hch, h.channels]
      simp only [hlisted]

/-- The loop of `removeClient`: the pairs of the client that are left are those with the pools
still to come. -/
theorem unsubscribeAll (h : Represents s R) (c : ω) :
    Represents (OrderedSet.forEach (fun s => s.pools c) (fun s p => s.unsubscribe c p)
      (s.pools c).elems s) {x ∈ R | x.1 ≠ c} := by
  have hloop := OrderedSet.forEach_rule (fun s => s.pools c) (fun s p => s.unsubscribe c p) (t := s)
    (I := fun todo s => todo.Nodup ∧ Represents s {x ∈ R | x.1 = c → x.2 ∈ todo})
    ?_ ?_ (s.pools c).elems ?_
  · refine hloop.2.congr fun c' p => ?_
    simp only [Set.mem_ofPred_eq, List.not_mem_nil, imp_false, ne_eq]
  · rintro p todo t ⟨hnodup, ht⟩ -
    obtain ⟨hp, hnodup⟩ := List.nodup_cons.mp hnodup
    refine ⟨hnodup, (ht.unsubscribe c p).congr fun c' p' => ?_⟩
    simp only [Set.mem_sdiff, Set.mem_ofPred_eq, Set.mem_singleton_iff, Prod.mk.injEq,
      List.mem_cons]
    constructor
    · rintro ⟨⟨hR, hin⟩, hne⟩
      exact ⟨hR, fun hc => (hin hc).resolve_left fun hp' => hne ⟨hc, hp'⟩⟩
    · rintro ⟨hR, hin⟩
      refine ⟨⟨hR, fun hc => .inr (hin hc)⟩, ?_⟩
      rintro ⟨hc, rfl⟩
      exact hp (hin hc)
  · rintro p todo t ⟨hnodup, ht⟩ hgone
    have hmem : (c, p) ∉ R := by
      intro hR
      exact hgone ((ht.pools c p).mpr ⟨hR, fun _ => List.mem_cons_self⟩)
    refine ⟨(List.nodup_cons.mp hnodup).2, ht.congr fun c' p' => ?_⟩
    simp only [Set.mem_ofPred_eq, List.mem_cons]
    refine and_congr_right fun hR => forall_congr' fun hc => or_iff_right ?_
    rintro rfl
    exact hmem (hc ▸ hR)
  · refine ⟨(s.pools c).nodup, h.congr fun c' p => ?_⟩
    simp only [Set.mem_ofPred_eq]
    refine (and_iff_left_of_imp fun hR => ?_).symm
    rintro rfl
    exact (h.pools c' p).mpr hR

theorem removeClient (h : Represents s R) (c : ω) :
    Represents (s.removeClient c) {x ∈ R | x.1 ≠ c} := by
  unfold PriceService.removeClient
  split
  · rename_i hget
    refine h.congr fun c' p => ⟨fun hR => ⟨hR, ?_⟩, And.left⟩
    rintro rfl
    have hmem := (h.pools c' p).mpr hR
    rw [PriceService.pools, hget] at hmem
    exact OrderedSet.notMem_empty p hmem
  · rename_i ps hget
    have hps : s.pools c = ps := by rw [PriceService.pools, hget, Option.getD_some]
    have hall := hps ▸ h.unsubscribeAll c
    refine ⟨hall.clients, fun c' p => ?_, hall.inhabited, hall.channels⟩
    rw [← hall.pools, PriceService.pools, PriceService.pools, OrderedMap.get_delete]
    split
    · rename_i hc
      refine iff_of_false (OrderedSet.notMem_empty p) fun hp => ?_
      exact ((hall.pools c' p).mp hp).2 hc
    · rfl

end Represents

/-- What holds in the course of a broadcast to a pool, with the clients that are still to come:
those that were passed and fail are removed, and those that were passed and accept were sent the
event. -/
structure Broadcasting (s : PriceService ω) (R : Set (ω × String)) (p : String)
    (sockets : ω → Socket) (todo : List ω) (t : PriceService ω × List ω) : Prop where
  nodup : todo.Nodup
  subscribed : ∀ c ∈ todo, (c, p) ∈ R
  represents : Represents t.1 {x ∈ R | Failing R sockets p x.1 → x.1 ∈ todo}
  sent : t.2 ++ todo.filter (sockets · = .accepts) =
    (s.clients p).elems.filter (sockets · = .accepts)
  known : ∀ c, t.1.Known c → (Failing R sockets p c → c ∈ todo) ∧ s.Known c

namespace Broadcasting

open PriceService

variable {s t : PriceService ω} {R : Set (ω × String)} {p : String} {sockets : ω → Socket}
  {c : ω} {todo sent : List ω}

theorem start (h : Represents s R) :
    Broadcasting s R p sockets (s.clients p).elems (s, []) where
  nodup := (s.clients p).nodup
  subscribed c hc := (h.clients c p).mp hc
  represents := h.congr fun c _ =>
    (and_iff_left_of_imp fun _ hf => (h.clients c p).mpr hf.1).symm
  sent := rfl
  known c hc := ⟨(h.clients c p).mpr ∘ And.left, hc⟩

/-- A client at which `send` does not throw stays: it is none of those that are to be removed. -/
theorem stays {sent' : List ω} (h : Broadcasting s R p sockets (c :: todo) (t, sent))
    (hok : sockets c ≠ .throws)
    (hsent : sent' ++ todo.filter (sockets · = .accepts) =
      sent ++ (c :: todo).filter (sockets · = .accepts)) :
    Broadcasting s R p sockets todo (t, sent') := by
  have hrest (c' : ω) (hfail : Failing R sockets p c') : c' ∈ c :: todo ↔ c' ∈ todo := by
    refine List.mem_cons.trans (or_iff_right ?_)
    rintro rfl
    exact hok hfail.2
  refine ⟨(List.nodup_cons.mp h.nodup).2, fun c' hc' => h.subscribed c' (.tail c hc'), ?_,
    hsent.trans h.sent, fun c' hc' => ⟨fun hfail => ?_, (h.known c' hc').2⟩⟩
  · exact h.represents.congr fun c' p' => and_congr_right fun _ => forall_congr' (hrest c')
  · exact (hrest c' hfail).mp ((h.known c' hc').1 hfail)

/-- A client at which `send` throws is removed. -/
theorem removed (h : Broadcasting s R p sockets (c :: todo) (t, sent))
    (hthrows : sockets c = .throws) :
    Broadcasting s R p sockets todo (t.removeClient c, sent) := by
  obtain ⟨hc, hnodup⟩ := List.nodup_cons.mp h.nodup
  refine ⟨hnodup, fun c' hc' => h.subscribed c' (.tail c hc'), ?_, ?_, fun c' hc' => ?_⟩
  · refine (h.represents.removeClient c).congr fun c' p' => ?_
    simp only [Set.mem_ofPred_eq, List.mem_cons]
    constructor
    · rintro ⟨⟨hR, hfail⟩, hne⟩
      exact ⟨hR, fun hf => (hfail hf).resolve_left hne⟩
    · rintro ⟨hR, hfail⟩
      refine ⟨⟨hR, fun hf => .inr (hfail hf)⟩, ?_⟩
      rintro rfl
      exact hc (hfail ⟨h.subscribed c' (.head _), hthrows⟩)
  · rw [← h.sent, List.filter_cons_of_neg (by simp [hthrows])]
  · obtain ⟨hne, hc'⟩ := known_removeClient hc'
    obtain ⟨hfail, hold⟩ := h.known c' hc'
    exact ⟨fun hf => (List.mem_cons.mp (hfail hf)).resolve_left hne, hold⟩

/-- One round of the loop. -/
theorem sendTo (h : Broadcasting s R p sockets (c :: todo) (t, sent)) :
    Broadcasting s R p sockets todo (PriceService.sendTo sockets (t, sent) c) := by
  cases hsocket : sockets c with
  | notOpen =>
    rw [PriceService.sendTo, hsocket]
    exact h.stays (by simp [hsocket]) (by simp [hsocket])
  | accepts =>
    rw [PriceService.sendTo, hsocket]
    exact h.stays (by simp [hsocket]) (by simp [hsocket])
  | throws =>
    rw [PriceService.sendTo, hsocket]
    exact h.removed hsocket

end Broadcasting

namespace Represents

open PriceService

variable {s : PriceService ω} {R : Set (ω × String)}

/-- A broadcast removes the clients at which `send` throws, and sends the event to those that
take it. -/
theorem broadcastPrice (h : Represents s R) (event : PriceEvent) (sockets : ω → Socket) :
    Represents (s.broadcastPrice event sockets).1
      {x ∈ R | ¬ Failing R sockets event.poolId x.1} ∧
    (s.broadcastPrice event sockets).2 =
      (s.clients event.poolId).elems.filter (sockets · = .accepts) ∧
    ∀ c, (s.broadcastPrice event sockets).1.Known c →
      ¬ Failing R sockets event.poolId c ∧ s.Known c := by
  have hloop := OrderedSet.forEach_rule
    (fun t : PriceService ω × List ω => t.1.clients event.poolId) (sendTo sockets)
    (I := Broadcasting s R event.poolId sockets) ?_ ?_ _ (.start h)
  · have hsent := hloop.sent
    rw [List.filter_nil, List.append_nil] at hsent
    refine ⟨hloop.represents.congr fun c p => ?_, hsent, fun c hc => ?_⟩
    · simp only [Set.mem_ofPred_eq, List.not_mem_nil, imp_false]
    · exact ⟨fun hfail => List.not_mem_nil ((hloop.known c hc).1 hfail), (hloop.known c hc).2⟩
  · rintro c todo ⟨t, sent⟩ ht -
    exact ht.sendTo
  · -- No client goes before the loop has come to it.
    rintro c todo ⟨t, sent⟩ ht hgone
    have hmem : (c, event.poolId) ∈ R := ht.subscribed c (.head _)
    exact absurd ((ht.represents.clients c _).mpr ⟨hmem, fun _ => .head _⟩) hgone

/-- Redis carrying out a command leaves the relation as it is. -/
theorem carryOut (h : Represents s R) : Represents s.carryOut R := by
  unfold PriceService.carryOut
  split
  · exact h
  · rename_i c cs hcommands
    refine ⟨h.clients, h.pools, h.inhabited, fun ch => ?_⟩
    rw [← h.channels, settled, settled, hcommands, List.foldl_cons]

end Represents

/-! ### Runs -/

/-- A call, or Redis carrying out the next command. -/
inductive Call (ω : Type) where
  | subscribe (client : ω) (poolId : String)
  | unsubscribe (client : ω) (poolId : String)
  | removeClient (client : ω)
  | broadcastPrice (event : PriceEvent) (sockets : ω → Socket)
  | carryOut

namespace Call

/-- What a call does to the service. -/
def perform (s : PriceService ω) : Call ω → PriceService ω
  | subscribe c p => s.subscribe c p
  | unsubscribe c p => s.unsubscribe c p
  | removeClient c => s.removeClient c
  | broadcastPrice event sockets => (s.broadcastPrice event sockets).1
  | carryOut => s.carryOut

/-- What a call does to the relation. -/
def effect (R : Set (ω × String)) : Call ω → Set (ω × String)
  | subscribe c p => insert (c, p) R
  | unsubscribe c p => R \ {(c, p)}
  | removeClient c => {x ∈ R | x.1 ≠ c}
  | broadcastPrice event sockets => {x ∈ R | ¬ Failing R sockets event.poolId x.1}
  | carryOut => R

/-- A call removes a client: it says so, or sending to the client throws. -/
def Removes (s : PriceService ω) (c : ω) : Call ω → Prop
  | removeClient c' => c' = c
  | broadcastPrice event sockets => c ∈ s.clients event.poolId ∧ sockets c = .throws
  | _ => False

end Call

/-- The service after a list of calls. -/
def run (calls : List (Call ω)) : PriceService ω := calls.foldl Call.perform .init

/-- The service carries out what the calls mean for the relation. -/
theorem Represents.perform {s : PriceService ω} {R : Set (ω × String)} (h : Represents s R)
    (call : Call ω) : Represents (call.perform s) (call.effect R) := by
  cases call with
  | subscribe c p => exact h.subscribe c p
  | unsubscribe c p => exact h.unsubscribe c p
  | removeClient c => exact h.removeClient c
  | broadcastPrice event sockets => exact (h.broadcastPrice event sockets).1
  | carryOut => exact h.carryOut

/-- **Refinement.** The maps and the channels read the relation that the calls lead to. -/
theorem represents_run (calls : List (Call ω)) :
    Represents (run calls) (calls.foldl Call.effect ∅) := by
  induction calls using List.reverseRecOn with
  | nil => exact .init
  | append_singleton calls call ih =>
    rw [run, List.foldl_append, List.foldl_append]
    exact ih.perform call

/-! ### Removed clients -/

/-- What a call leaves known was known before and is not removed by it, unless it subscribes. -/
theorem Represents.known_perform {s : PriceService ω} {R : Set (ω × String)} (h : Represents s R)
    {call : Call ω} {c : ω} (hknown : (call.perform s).Known c) :
    (∃ p, call = .subscribe c p) ∨ ¬ call.Removes s c ∧ s.Known c := by
  cases call with
  | subscribe c' p =>
    rcases PriceService.known_subscribe hknown with rfl | hknown
    · exact .inl ⟨p, rfl⟩
    · exact .inr ⟨not_false, hknown⟩
  | unsubscribe c' p =>
    exact .inr ⟨not_false, PriceService.known_unsubscribe.mp hknown⟩
  | removeClient c' =>
    obtain ⟨hne, hknown⟩ := PriceService.known_removeClient hknown
    exact .inr ⟨Ne.symm hne, hknown⟩
  | broadcastPrice event sockets =>
    obtain ⟨hfail, hknown⟩ := (h.broadcastPrice event sockets).2.2 c hknown
    exact .inr ⟨fun hr => hfail ⟨(h.clients c _).mp hr.1, hr.2⟩, hknown⟩
  | carryOut =>
    refine .inr ⟨not_false, ?_⟩
    have hpools : s.carryOut.clientPools = s.clientPools := by
      unfold PriceService.carryOut
      split <;> rfl
    show (s.clientPools.get c).isSome
    rw [← hpools]
    exact hknown

/-- A client that was removed stays unknown until it subscribes. -/
theorem not_known_of_removes {before after : List (Call ω)} {call : Call ω} {c : ω}
    (hremoves : call.Removes (run before) c) (hafter : ∀ p, .subscribe c p ∉ after) :
    ¬ (run (before ++ call :: after)).Known c := by
  induction after using List.reverseRecOn with
  | nil =>
    intro hknown
    rw [run, List.foldl_append] at hknown
    rcases (represents_run before).known_perform hknown with ⟨p, rfl⟩ | ⟨hnot, -⟩
    · exact hremoves
    · exact hnot hremoves
  | append_singleton after last ih =>
    intro hknown
    have hrun : run (before ++ call :: (after ++ [last])) =
        last.perform (run (before ++ call :: after)) := by
      rw [← List.cons_append, ← List.append_assoc, run, List.foldl_append]
      rfl
    rw [hrun] at hknown
    rcases (represents_run _).known_perform hknown with ⟨p, rfl⟩ | ⟨-, hold⟩
    · exact hafter p (by simp)
    · exact ih (fun p hp => hafter p (List.mem_append_left _ hp)) hold

/-- **Subscriptions are kept exactly.** After any calls, a client is listed for a pool exactly if
the pool is listed for it, no pool is listed without clients, the channels are those of the pools
listed, and a client that was removed and has not subscribed since is in neither map. -/
theorem bookkeeping_exact (calls : List (Call ω)) :
    (∀ c p, c ∈ (run calls).clients p ↔ p ∈ (run calls).pools c) ∧
    (∀ p cs, (run calls).subscriptions.get p = some cs → cs.size ≠ 0) ∧
    (∀ ch, ch ∈ (run calls).settled ↔
      ∃ p, ch = channel p ∧ ((run calls).subscriptions.get p).isSome) ∧
    ∀ before call after c, calls = before ++ call :: after → call.Removes (run before) c →
      (∀ p, .subscribe c p ∉ after) →
      (run calls).clientPools.get c = none ∧ ∀ p, c ∉ (run calls).clients p := by
  have hrep := represents_run calls
  have hsame (c : ω) (p : String) : c ∈ (run calls).clients p ↔ p ∈ (run calls).pools c :=
    (hrep.clients c p).trans (hrep.pools c p).symm
  refine ⟨hsame, hrep.inhabited, hrep.channels, ?_⟩
  rintro before call after c rfl hremoves hafter
  have hnone := not_known_of_removes hremoves hafter
  refine ⟨Option.not_isSome_iff_eq_none.mp hnone, fun p hp => hnone ?_⟩
  exact PriceService.known_of_mem_pools ((hsame c p).mp hp)

end Swyft.Price
