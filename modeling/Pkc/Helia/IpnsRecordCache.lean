import Mathlib.Data.Rat.Defs
import Mathlib.Algebra.Order.Field.Rat
import Pkc.Helia.IpnsRecordStore

/-!
# Resolving a name from the cache of its records

`name.resolve` answers with the record in the local store while that is fresh, and asks the network
otherwise: first peers and providers directly, then the routers.

* A record is fresh for its effective ttl after the network confirmed it last, which is when it was
  written to the store or when a fetch was validated.
* It is fresh for longer while the push channel is healthy.  Every record that is validated is a
  heartbeat of the channel, unless its sequence number is below the highest known one.
* `Honest` is what the cache promises of every run, and `cache_honest` that it keeps the promise as
  long as no fetch returns a record older than the one that is held.

What was confirmed, served and yielded is kept in the state for the sake of `Honest`; nothing reads
it.
-/

set_option autoImplicit false

namespace Pkc
namespace Ipns

open Runs Tasks

/-! ## Freshness -/

/-- FNV-1a over the routing key. -/
def ipnsCacheTtlHash (routingKey : List UInt8) : UInt32 :=
  routingKey.foldl (fun hash byte => (hash ^^^ byte.toUInt32) * 0x01000193) 0x811c9dc5

/-- Between three quarters and one, the same for a name each time. -/
def ipnsCacheTtlJitterFactor (routingKey : List UInt8) : ℚ :=
  3 / 4 + (ipnsCacheTtlHash routingKey).toNat / 0x100000000 * (1 / 4)

/-- In ms, for a record without a ttl. -/
def defaultCachedIpnsRecordTtl : Nat := 20000

/-- What the code relies on of `@helia/ipns` and the options. -/
structure CacheConfig (ρ κ : Type) where
  rank : ρ → κ
  sequence : ρ → Nat
  /-- In ns. -/
  ttl : ρ → Option Nat
  routingKey : List UInt8
  watchdogMs : Nat

def CacheConfig.effectiveTtlMs {ρ κ : Type} (c : CacheConfig ρ κ) (record : ρ) : ℚ :=
  (((c.ttl record).map (· / 1000000)).getD defaultCachedIpnsRecordTtl : Nat) *
    ipnsCacheTtlJitterFactor c.routingKey

/-- What is known of the push channel of a name. -/
structure Channel (ρ : Type) where
  subscribers : Nat
  /-- The routing key is registered, so gossip can be validated. -/
  registered : Bool
  highestKnownSequence : Option Nat
  lastValidRecordArrivalMs : Option Nat
  /-- The records that were validated, each with the time. -/
  known : List (ρ × Nat)

/-- What the cache gate has read before its first `await`. -/
structure Gate (ρ : Type) where
  lastNetworkValidatedAtMs : Option Nat
  channel : Channel ρ
  readAt : Nat

/-- Where a call of `name.resolve` is. -/
inductive Resolve (ρ ι : Type)
  /-- `await localStore.has` of the cache gate. -/
  | asking (gate : Gate ρ)
  /-- `await localStore.get` of the cache gate. -/
  | reading (gate : Gate ρ)
  /-- `await ipnsValidator` of the record of the cache. -/
  | validating (gate : Gate ρ) (record : ρ) (created : Nat)
  /-- `await directFetchIpnsRecordFromProviders` -/
  | fetching
  /-- `await localStore.has` for the record that was fetched; `heldThen` was held at that time. -/
  | caching (record : ρ) (heldThen : Option ρ)
  /-- `await localStore.get` for it. -/
  | comparing (record : ρ) (heldThen : Option ρ)
  /-- `await localStore.put`, which is the write `write`. -/
  | storing (record : ρ) (heldThen : Option ρ) (write : ι)
  /-- `await router.get` -/
  | routing

/-- A record that was served from the cache. -/
structure Served (ρ : Type) where
  record : ρ
  servedAt : Nat
  gate : Gate ρ

structure Cache (ρ ι : Type) where
  now : Nat
  store : Store ρ ι
  channel : Channel ρ
  /-- The topic is among the ones of pubsub. -/
  subscribed : Bool
  networkValidatedAtMs : Option Nat
  resolves : ι → Option (Resolve ρ ι)
  /-- The records the network confirmed, each with the time. -/
  confirmed : List (ρ × Nat)
  served : List (Served ρ)
  /-- The records that were fetched and yielded, each with the one that was held when it came. -/
  yielded : List (ρ × Option ρ)

inductive CacheEvent (ρ ι : Type)
  | tick (ms : Nat)
  /-- Others join or leave the topic. -/
  | subscribers (n : Nat)
  | subscription (subscribed : Bool)
  /-- A record that was gossiped is valid. -/
  | gossip (record : ρ)
  /-- A write by anybody but a direct fetch. -/
  | store (event : StoreEvent ρ ι)
  | resolve (i : ι) (nocache : Bool)
  /-- The store answers the call, which may start the write `write` thereupon. -/
  | answered (i : ι) (write : ι)
  | storeFails (i : ι)
  | validated (i : ι) (valid : Bool)
  | directHit (i : ι) (record : ρ)
  | directMiss (i : ι)
  | aborted (i : ι)
  | routerHit (i : ι) (record : ρ)
  | routerFails (i : ι)

section Cache

variable {ρ κ ι : Type} [DecidableEq ρ] [LinearOrder κ] [DecidableEq ι]

namespace Channel

/-- `isIpnsPushChannelHealthy`. -/
def healthy (c : CacheConfig ρ κ) (channel : Channel ρ) (now : Nat) : Bool :=
  0 < channel.subscribers && now - channel.lastValidRecordArrivalMs.getD 0 < c.watchdogMs

/-- `stampIpnsPushChannelArrival`. -/
def stamp (c : CacheConfig ρ κ) (channel : Channel ρ) (now : Nat) (record : ρ) : Channel ρ :=
  let channel := { channel with known := channel.known ++ [(record, now)] }
  if channel.highestKnownSequence.any (c.sequence record < ·) then channel
  else
    { channel with
      highestKnownSequence := some (c.sequence record)
      lastValidRecordArrivalMs := some now }

end Channel

/-- The rest of `readFreshCachedIpnsRecordFromPubsubLocalStore` for a valid record. -/
def fresh (c : CacheConfig ρ κ) (gate : Gate ρ) (record : ρ) (created now : Nat) : Bool :=
  gate.channel.healthy c gate.readAt ||
    ((now - max created (gate.lastNetworkValidatedAtMs.getD 0) : Nat) : ℚ) < c.effectiveTtlMs record

namespace Cache

def init (now : Nat) : Cache ρ ι :=
  ⟨now, .init, ⟨0, false, none, none, []⟩, false, none, fun _ => none, [], [], []⟩

def heldRecord (s : Cache ρ ι) : Option ρ := s.store.held.map Prod.fst

def setResolve (s : Cache ρ ι) (i : ι) (resolve : Option (Resolve ρ ι)) : Cache ρ ι :=
  { s with resolves := Function.update s.resolves i resolve }

/-- On to the network, up to the direct fetch: the topic is subscribed and its key registered. -/
def toNetwork (s : Cache ρ ι) (i : ι) : Cache ρ ι :=
  { s.setResolve i (some .fetching) with
    subscribed := true
    channel := { s.channel with registered := true } }

def readGate (s : Cache ρ ι) : Gate ρ := ⟨s.networkValidatedAtMs, s.channel, s.now⟩

/-- A fetch has returned a record that is valid. -/
def validatedFetch (c : CacheConfig ρ κ) (s : Cache ρ ι) (record : ρ) : Cache ρ ι :=
  { s with
    networkValidatedAtMs := some s.now
    channel := s.channel.stamp c s.now record
    confirmed := s.confirmed ++ [(record, s.now)] }

def serve (s : Cache ρ ι) (i : ι) (gate : Gate ρ) (record : ρ) : Cache ρ ι :=
  { s.setResolve i none with served := s.served ++ [⟨record, s.now, gate⟩] }

def yieldFetched (s : Cache ρ ι) (i : ι) (record : ρ) (heldThen : Option ρ) : Cache ρ ι :=
  { s.setResolve i none with yielded := s.yielded ++ [(record, heldThen)] }

/-- The store after a step of a write, and what follows from the step. -/
def afterStore (c : CacheConfig ρ κ) (s : Cache ρ ι) : Store ρ ι × StoreEffect ρ → Cache ρ ι
  | (store, .none) => { s with store := store }
  | (store, .written record) =>
    { s with
      store := store
      confirmed := s.confirmed ++ [(record, s.now)] }
  | (store, .arrived record) =>
    { s with
      store := store
      channel := s.channel.stamp c s.now record }

/-- `cacheIpnsRecordInPubsubLocalStore` calls `put`. -/
def putFetched (c : CacheConfig ρ κ) (s : Cache ρ ι) (i write : ι) (record : ρ)
    (heldThen : Option ρ) : Option (Cache ρ ι) :=
  (s.store.step c.rank s.now (.put write record)).map fun result =>
    (s.afterStore c result).setResolve i (some (.storing record heldThen write))

def answered (c : CacheConfig ρ κ) (s : Cache ρ ι) (i write : ι) :
    Resolve ρ ι → Option (Cache ρ ι)
  | .asking gate =>
    some (if s.store.held.isSome then s.setResolve i (some (.reading gate)) else s.toNetwork i)
  | .reading gate =>
    match s.store.held with
    | some (record, created) => some (s.setResolve i (some (.validating gate record created)))
    | none => some (s.toNetwork i)
  | .caching record heldThen =>
    if s.store.held.isSome then some (s.setResolve i (some (.comparing record heldThen)))
    else s.putFetched c i write record heldThen
  | .comparing record heldThen =>
    match s.store.held with
    | some (held, _) =>
      if keeps c.rank held record then some (s.yieldFetched i record heldThen)
      else s.putFetched c i write record heldThen
    | none => some (s.yieldFetched i record heldThen)
  | .storing record heldThen write =>
    if (s.store.puts write).isNone then some (s.yieldFetched i record heldThen) else none
  | .validating .. | .fetching | .routing => none

/-- A failure of the store fails neither the cache gate nor a fetch. -/
def storeFails (s : Cache ρ ι) (i : ι) : Resolve ρ ι → Option (Cache ρ ι)
  | .asking _ | .reading _ => some (s.toNetwork i)
  | .caching record heldThen | .comparing record heldThen =>
    some (s.yieldFetched i record heldThen)
  | _ => none

def step (c : CacheConfig ρ κ) (s : Cache ρ ι) : CacheEvent ρ ι → Option (Cache ρ ι)
  | .tick ms => some { s with now := s.now + ms }
  | .subscribers n => some { s with channel := { s.channel with subscribers := n } }
  | .subscription subscribed => some { s with subscribed := subscribed }
  | .gossip record =>
    if s.channel.registered then some { s with channel := s.channel.stamp c s.now record }
    else none
  | .store event => (s.store.step c.rank s.now event).map (s.afterStore c)
  | .resolve i nocache =>
    if (s.resolves i).isSome then none
    else if !nocache && s.subscribed then some (s.setResolve i (some (.asking s.readGate)))
    else some (s.toNetwork i)
  | .answered i write => (s.resolves i).bind (s.answered c i write)
  | .storeFails i => (s.resolves i).bind (s.storeFails i)
  | .validated i valid =>
    match s.resolves i with
    | some (.validating gate record created) =>
      some (if valid && fresh c gate record created s.now then s.serve i gate record
        else s.toNetwork i)
    | _ => none
  | .directHit i record =>
    match s.resolves i with
    | some .fetching =>
      some ((s.validatedFetch c record).setResolve i (some (.caching record s.heldRecord)))
    | _ => none
  | .directMiss i =>
    match s.resolves i with
    | some .fetching => some (s.setResolve i (some .routing))
    | _ => none
  | .aborted i =>
    match s.resolves i with
    | some .fetching => some (s.setResolve i none)
    | _ => none
  | .routerHit i record =>
    match s.resolves i with
    | some .routing => some ((s.validatedFetch c record).yieldFetched i record s.heldRecord)
    | _ => none
  | .routerFails i =>
    match s.resolves i with
    | some .routing => some (s.setResolve i none)
    | _ => none

end Cache

end Cache

/-! ## The push channel -/

section Promise

variable {ρ κ ι : Type}

/-- The push channel is healthy through a record at least as new as every one that was validated. -/
def Channel.Attested (c : CacheConfig ρ κ) (channel : Channel ρ) (now : Nat) : Prop :=
  0 < channel.subscribers ∧ ∃ e ∈ channel.known, e.2 ≤ now ∧ now - e.2 < c.watchdogMs ∧
    ∀ other ∈ channel.known, c.sequence other.1 ≤ c.sequence e.1

/-- The last arrival is one of a record with the highest sequence number. -/
structure ChannelOk (c : CacheConfig ρ κ) (channel : Channel ρ) (now : Nat) : Prop where
  arrival : ∀ t ∈ channel.lastValidRecordArrivalMs, t ≤ now ∧
    ∃ record, (record, t) ∈ channel.known ∧ channel.highestKnownSequence = some (c.sequence record)
  highest : ∀ e ∈ channel.known, ∃ highest ∈ channel.highestKnownSequence,
    c.sequence e.1 ≤ highest

variable {c : CacheConfig ρ κ} {channel : Channel ρ} {now now' : Nat}

theorem ChannelOk.mono (h : ChannelOk c channel now) (hle : now ≤ now') :
    ChannelOk c channel now' :=
  ⟨fun t ht => ⟨(h.arrival t ht).1.trans hle, (h.arrival t ht).2⟩, h.highest⟩

/-- **A stale replay is no heartbeat.** -/
theorem ChannelOk.stamp (h : ChannelOk c channel now) (record : ρ) :
    ChannelOk c (channel.stamp c now record) now := by
  rw [Channel.stamp]
  by_cases hstale : channel.highestKnownSequence.any (c.sequence record < ·) = true
  · rw [if_pos hstale]
    refine ⟨fun t ht => ?_, fun e he => ?_⟩
    · obtain ⟨hle, before, hbefore, hhighest⟩ := h.arrival t ht
      exact ⟨hle, before, List.mem_append_left _ hbefore, hhighest⟩
    · rcases List.mem_append.1 he with hold | hnew
      · exact h.highest e hold
      · obtain ⟨highest, hhighest, hlt⟩ := (Option.any_eq_true _ _).1 hstale
        rw [List.mem_singleton.1 hnew]
        exact ⟨highest, hhighest, le_of_lt (by simpa using hlt)⟩
  · rw [if_neg hstale]
    refine ⟨fun t ht => ?_, fun e he => ⟨_, rfl, ?_⟩⟩
    · obtain rfl : now = t := Option.some.inj ht
      exact ⟨le_rfl, record, by simp, rfl⟩
    · rcases List.mem_append.1 he with hold | hnew
      · obtain ⟨highest, hhighest, hle⟩ := h.highest e hold
        have hnot : ¬ c.sequence record < highest := fun hlt =>
          hstale ((Option.any_eq_true _ _).2 ⟨highest, hhighest, by simpa using hlt⟩)
        exact hle.trans (not_lt.1 hnot)
      · rw [List.mem_singleton.1 hnew]

theorem ChannelOk.attested (h : ChannelOk c channel now) (htime : c.watchdogMs ≤ now)
    (hhealthy : channel.healthy c now = true) : channel.Attested c now := by
  rw [Channel.healthy, Bool.and_eq_true, decide_eq_true_eq, decide_eq_true_eq] at hhealthy
  obtain ⟨hsubscribers, hlate⟩ := hhealthy
  cases harrival : channel.lastValidRecordArrivalMs with
  | none =>
    rw [harrival, Option.getD_none] at hlate
    omega
  | some t =>
    rw [harrival, Option.getD_some] at hlate
    obtain ⟨hle, record, hknown, hhighest⟩ := h.arrival t harrival
    refine ⟨hsubscribers, (record, t), hknown, hle, hlate, fun other hother => ?_⟩
    obtain ⟨highest, heq, hle⟩ := h.highest other hother
    rw [hhighest] at heq
    rwa [Option.some.inj heq]

/-! ## What the cache promises -/

variable [LinearOrder κ]

/-- Within its effective ttl the network confirmed a record at least as new, or the push channel was
healthy. -/
def ServedFresh (c : CacheConfig ρ κ) (confirmed : List (ρ × Nat)) (e : Served ρ) : Prop :=
  (∃ source ∈ confirmed, c.rank e.record ≤ c.rank source.1 ∧ source.2 ≤ e.servedAt ∧
    ((e.servedAt - source.2 : Nat) : ℚ) < c.effectiveTtlMs e.record) ∨
  e.gate.channel.Attested c e.gate.readAt

/-- The records that are held one after the other get newer, and the listeners hear each of them
once and in that order. -/
structure Store.Monotone (rank : ρ → κ) (s : Store ρ ι) : Prop where
  increasing : s.accepted.Pairwise fun a b => rank a < rank b
  last : s.held.map Prod.fst = s.accepted.getLast?
  heard : s.arrivals <+: s.accepted
  heardAll : (∀ i put, s.puts i = some put → put.phase ≠ .stored) → s.arrivals = s.accepted

structure Honest (c : CacheConfig ρ κ) (s : Cache ρ ι) : Prop where
  store : s.store.Monotone c.rank
  served : ∀ e ∈ s.served, ServedFresh c s.confirmed e
  yielded : ∀ e ∈ s.yielded, ∀ held ∈ e.2, c.rank held ≤ c.rank e.1

/-- The fetch returns a record that is not older than the one that is held. -/
def Sound (c : CacheConfig ρ κ) (s : Cache ρ ι) : CacheEvent ρ ι → Prop
  | .directHit _ record | .routerHit _ record => ∀ held ∈ s.heldRecord, c.rank held ≤ c.rank record
  | _ => True

/-! ## The invariant -/

/-- The network confirmed at `t` a record at least as new as the one that is held, unless that was
written later. -/
def Confirms (c : CacheConfig ρ κ) (s : Cache ρ ι) (t : Nat) : Prop :=
  t ≤ s.now ∧ ∃ record, (record, t) ∈ s.confirmed ∧
    ∀ held ∈ s.store.held, t ≤ held.2 ∨ c.rank held.1 ≤ c.rank record

def GateOk (c : CacheConfig ρ κ) (gate : Gate ρ) : Prop :=
  ChannelOk c gate.channel gate.readAt ∧ c.watchdogMs ≤ gate.readAt

/-- What a call of `name.resolve` may rely on. -/
def ResolveOk (c : CacheConfig ρ κ) (s : Cache ρ ι) : Resolve ρ ι → Prop
  | .asking gate | .reading gate =>
    GateOk c gate ∧ ∀ t ∈ gate.lastNetworkValidatedAtMs, Confirms c s t
  | .validating gate record created =>
    GateOk c gate ∧ (record, created) ∈ s.confirmed ∧ created ≤ s.now ∧
      ∀ t ∈ gate.lastNetworkValidatedAtMs, t ≤ s.now ∧ ∃ other, (other, t) ∈ s.confirmed ∧
        (t ≤ created ∨ c.rank record ≤ c.rank other)
  | .caching record heldThen | .comparing record heldThen | .storing record heldThen _ =>
    ∀ held ∈ heldThen, c.rank held ≤ c.rank record
  | .fetching | .routing => True

structure CacheOk (c : CacheConfig ρ κ) (s : Cache ρ ι) : Prop where
  store : StoreOk c.rank s.store
  time : c.watchdogMs ≤ s.now
  channel : ChannelOk c s.channel s.now
  held : ∀ held ∈ s.store.held, held ∈ s.confirmed ∧ held.2 ≤ s.now
  networkValidated : ∀ t ∈ s.networkValidatedAtMs, Confirms c s t
  resolves : ∀ i resolve, s.resolves i = some resolve → ResolveOk c s resolve
  served : ∀ e ∈ s.served, ServedFresh c s.confirmed e
  yielded : ∀ e ∈ s.yielded, ∀ held ∈ e.2, c.rank held ≤ c.rank e.1

theorem cacheOk_init (htime : c.watchdogMs ≤ now) : CacheOk c (Cache.init now : Cache ρ ι) where
  store := storeOk_init c.rank
  time := htime
  channel := ⟨nofun, by simp [Cache.init]⟩
  held := nofun
  networkValidated := nofun
  resolves := nofun
  served := by simp [Cache.init]
  yielded := by simp [Cache.init]

/-! ### Later states -/

/-- What is confirmed stays so, and what is held afterwards was held or is written now. -/
structure Later (s s' : Cache ρ ι) : Prop where
  now : s.now ≤ s'.now
  confirmed : s.confirmed ⊆ s'.confirmed
  held : ∀ held ∈ s'.store.held, held ∈ s.store.held ∨ s.now ≤ held.2

variable {s s' : Cache ρ ι} {i : ι} {record : ρ} {heldThen : Option ρ} {gate : Gate ρ}

theorem Confirms.later (hlater : Later s s') {t : Nat} (h : Confirms c s t) : Confirms c s' t := by
  obtain ⟨hle, record, hmem, hheld⟩ := h
  refine ⟨hle.trans hlater.now, record, hlater.confirmed hmem, fun held hnew => ?_⟩
  rcases hlater.held held hnew with hold | hwritten
  · exact hheld held hold
  · exact .inl (hle.trans hwritten)

theorem ResolveOk.later (hlater : Later s s') :
    ∀ {resolve : Resolve ρ ι}, ResolveOk c s resolve → ResolveOk c s' resolve
  | .asking _, ⟨hgate, h⟩ | .reading _, ⟨hgate, h⟩ => ⟨hgate, fun t ht => (h t ht).later hlater⟩
  | .validating _ _ _, ⟨hgate, hmem, hle, h⟩ =>
    ⟨hgate, hlater.confirmed hmem, hle.trans hlater.now, fun t ht =>
      let ⟨hle, other, hother, hnewer⟩ := h t ht
      ⟨hle.trans hlater.now, other, hlater.confirmed hother, hnewer⟩⟩
  | .caching _ _, h | .comparing _ _, h | .storing _ _ _, h => h
  | .fetching, h | .routing, h => h

theorem ServedFresh.mono {confirmed confirmed' : List (ρ × Nat)} (hsub : confirmed ⊆ confirmed')
    {e : Served ρ} (h : ServedFresh c confirmed e) : ServedFresh c confirmed' e :=
  h.imp (fun ⟨source, hmem, hrest⟩ => ⟨source, hsub hmem, hrest⟩) id

/-- What a step does not concern stays as it is. -/
theorem CacheOk.later (h : CacheOk c s) (hlater : Later s s')
    (hstore : StoreOk c.rank s'.store) (hchannel : ChannelOk c s'.channel s'.now)
    (hheld : ∀ held ∈ s'.store.held, held ∈ s'.confirmed ∧ held.2 ≤ s'.now)
    (hvalidated : s'.networkValidatedAtMs = s.networkValidatedAtMs)
    (hresolves : s'.resolves = s.resolves) (hserved : s'.served = s.served)
    (hyielded : s'.yielded = s.yielded) : CacheOk c s' where
  store := hstore
  time := h.time.trans hlater.now
  channel := hchannel
  held := hheld
  networkValidated := by
    rw [hvalidated]
    exact fun t ht => (h.networkValidated t ht).later hlater
  resolves := by
    rw [hresolves]
    exact fun j resolve hj => (h.resolves j resolve hj).later hlater
  served := by
    rw [hserved]
    exact fun e he => (h.served e he).mono hlater.confirmed
  yielded := by
    rw [hyielded]
    exact h.yielded

/-! ### The steps -/

/-- **A fetch that returns a record at least as new as the held one confirms it.** -/
theorem CacheOk.validatedFetch (h : CacheOk c s)
    (hsound : ∀ held ∈ s.heldRecord, c.rank held ≤ c.rank record) :
    CacheOk c (s.validatedFetch c record) := by
  have hlater : Later s (s.validatedFetch c record) :=
    ⟨le_rfl, List.subset_append_left _ _, fun held hheld => .inl hheld⟩
  exact
  { h with
    channel := h.channel.stamp record
    held := fun held hheld =>
      ⟨List.mem_append_left _ (h.held held hheld).1, (h.held held hheld).2⟩
    networkValidated := fun t ht => by
      obtain rfl : s.now = t := Option.some.inj ht
      refine ⟨le_rfl, record, List.mem_append_right _ (by simp), fun held hheld => .inr ?_⟩
      exact hsound held.1 (Option.mem_map_of_mem Prod.fst hheld)
    resolves := fun j resolve hj => (h.resolves j resolve hj).later hlater
    served := fun e he => (h.served e he).mono hlater.confirmed }

variable [DecidableEq ι]

theorem CacheOk.setResolve (h : CacheOk c s) {resolve : Option (Resolve ρ ι)}
    (hresolve : ∀ x, resolve = some x → ResolveOk c s x) : CacheOk c (s.setResolve i resolve) where
  __ := h
  resolves := forall_update hresolve fun j resolve _ hj => h.resolves j resolve hj

theorem CacheOk.toNetwork (h : CacheOk c s) : CacheOk c (s.toNetwork i) :=
  have hset : CacheOk c (s.setResolve i (some .fetching)) :=
    h.setResolve fun _ hx => by
      rw [← Option.some.inj hx]
      trivial
  { hset with channel := ⟨h.channel.arrival, h.channel.highest⟩ }

theorem CacheOk.serve (h : CacheOk c s)
    (hserved : ServedFresh c s.confirmed ⟨record, s.now, gate⟩) :
    CacheOk c (s.serve i gate record) :=
  have hset : CacheOk c (s.setResolve i none) := h.setResolve nofun
  { hset with
    served := fun e he => by
      rcases List.mem_append.1 he with hold | hnew
      · exact h.served e hold
      · rwa [List.mem_singleton.1 hnew] }

theorem CacheOk.yieldFetched (h : CacheOk c s)
    (hnewer : ∀ held ∈ heldThen, c.rank held ≤ c.rank record) :
    CacheOk c (s.yieldFetched i record heldThen) :=
  have hset : CacheOk c (s.setResolve i none) := h.setResolve nofun
  { hset with
    yielded := fun e he => by
      rcases List.mem_append.1 he with hold | hnew
      · exact h.yielded e hold
      · rwa [List.mem_singleton.1 hnew] }

variable [DecidableEq ρ]

theorem CacheOk.afterStore (h : CacheOk c s) {event : StoreEvent ρ ι}
    {result : Store ρ ι × StoreEffect ρ} (hstep : s.store.step c.rank s.now event = some result) :
    CacheOk c (s.afterStore c result) := by
  obtain ⟨store, effect⟩ := result
  have hstore := h.store.step hstep
  have heffect := Store.step_effect hstep
  cases effect with
  | none =>
    obtain ⟨hheld, -, -⟩ := heffect
    have hold : ∀ held ∈ store.held, held ∈ s.store.held := by
      rw [hheld]
      exact fun _ h => h
    exact h.later ⟨le_rfl, List.Subset.refl _, fun held hnew => .inl (hold held hnew)⟩ hstore
      h.channel (fun held hnew => h.held held (hold held hnew)) rfl rfl rfl rfl
  | written record =>
    obtain ⟨hheld, -, -⟩ := heffect
    have hnew : ∀ held ∈ store.held, held = (record, s.now) := by
      rw [hheld]
      exact fun _ h => (Option.some.inj h).symm
    refine h.later ⟨le_rfl, List.subset_append_left _ _, fun held hmem => .inr ?_⟩ hstore
      h.channel (fun held hmem => ?_) rfl rfl rfl rfl
    · rw [hnew held hmem]
    · rw [hnew held hmem]
      exact ⟨List.mem_append_right _ (by simp), le_rfl⟩
  | arrived record =>
    obtain ⟨hheld, -, -⟩ := heffect
    have hold : ∀ held ∈ store.held, held ∈ s.store.held := by
      rw [hheld]
      exact fun _ h => h
    exact h.later ⟨le_rfl, List.Subset.refl _, fun held hnew => .inl (hold held hnew)⟩ hstore
      (h.channel.stamp record) (fun held hnew => h.held held (hold held hnew)) rfl rfl rfl rfl

theorem CacheOk.putFetched (h : CacheOk c s) {write : ι}
    (hnewer : ∀ held ∈ heldThen, c.rank held ≤ c.rank record)
    (hput : s.putFetched c i write record heldThen = some s') : CacheOk c s' := by
  obtain ⟨result, hstep, rfl⟩ := Option.map_eq_some_iff.1 hput
  refine (h.afterStore hstep).setResolve fun x hx => ?_
  rw [← Option.some.inj hx]
  exact hnewer

theorem CacheOk.answered (h : CacheOk c s) {write : ι} {resolve : Resolve ρ ι}
    (hresolve : s.resolves i = some resolve) (hstep : s.answered c i write resolve = some s') :
    CacheOk c s' := by
  have hok := h.resolves i resolve hresolve
  cases resolve with
  | asking gate =>
    cases hstep
    split
    · refine h.setResolve fun x hx => ?_
      rw [← Option.some.inj hx]
      exact hok
    · exact h.toNetwork
  | reading gate =>
    rw [Cache.answered] at hstep
    split at hstep
    · rename_i record created hheld
      cases hstep
      refine h.setResolve fun x hx => ?_
      rw [← Option.some.inj hx]
      have hconfirmed := h.held _ hheld
      refine ⟨hok.1, hconfirmed.1, hconfirmed.2, fun t ht => ?_⟩
      obtain ⟨hle, other, hother, hnewer⟩ := hok.2 t ht
      exact ⟨hle, other, hother, hnewer _ hheld⟩
    · cases hstep
      exact h.toNetwork
  | caching record heldThen =>
    rw [Cache.answered] at hstep
    split at hstep
    · cases hstep
      refine h.setResolve fun x hx => ?_
      rw [← Option.some.inj hx]
      exact hok
    · exact h.putFetched hok hstep
  | comparing record heldThen =>
    rw [Cache.answered] at hstep
    split at hstep
    · split at hstep
      · cases hstep
        exact h.yieldFetched hok
      · exact h.putFetched hok hstep
    · cases hstep
      exact h.yieldFetched hok
  | storing record heldThen write =>
    rw [Cache.answered] at hstep
    split at hstep
    · cases hstep
      exact h.yieldFetched hok
    · cases hstep
  | _ => cases hstep

omit [DecidableEq ρ] in
theorem CacheOk.storeFails (h : CacheOk c s) {resolve : Resolve ρ ι}
    (hresolve : s.resolves i = some resolve) (hstep : s.storeFails i resolve = some s') :
    CacheOk c s' := by
  have hok := h.resolves i resolve hresolve
  cases resolve with
  | asking | reading =>
    cases hstep
    exact h.toNetwork
  | caching | comparing =>
    cases hstep
    exact h.yieldFetched hok
  | _ => cases hstep

omit [DecidableEq ι] [DecidableEq ρ] in
/-- **The record of the cache is fresh when it is served.**  The later of the two times is that of a
record at least as new, whichever it is. -/
theorem CacheOk.servedFresh (h : CacheOk c s) {created : Nat}
    (hresolve : s.resolves i = some (.validating gate record created))
    (hfresh : fresh c gate record created s.now = true) :
    ServedFresh c s.confirmed ⟨record, s.now, gate⟩ := by
  obtain ⟨⟨hchannel, htime⟩, hcreated, hle, hvalidated⟩ := h.resolves i _ hresolve
  rw [fresh, Bool.or_eq_true, decide_eq_true_eq] at hfresh
  rcases hfresh with hhealthy | hage
  · exact .inr (hchannel.attested htime hhealthy)
  · have hwritten : max created (gate.lastNetworkValidatedAtMs.getD 0) = created →
        ServedFresh c s.confirmed ⟨record, s.now, gate⟩ := fun hmax => by
      rw [hmax] at hage
      exact .inl ⟨(record, created), hcreated, le_rfl, hle, hage⟩
    cases hlast : gate.lastNetworkValidatedAtMs with
    | none => exact hwritten (by rw [hlast, Option.getD_none, Nat.max_zero])
    | some t =>
      rw [hlast, Option.getD_some] at hage hwritten
      obtain ⟨hle', other, hother, hbefore | hnewer⟩ := hvalidated t hlast
      · exact hwritten (Nat.max_eq_left hbefore)
      · rcases Nat.le_total t created with hbefore | hafter
        · exact hwritten (Nat.max_eq_left hbefore)
        · rw [Nat.max_eq_right hafter] at hage
          exact .inl ⟨(other, t), hother, hnewer, hle', hage⟩

/-- **Every step whose fetch is sound keeps the invariant.** -/
theorem CacheOk.step (h : CacheOk c s) {event : CacheEvent ρ ι} (hsound : Sound c s event)
    (hstep : s.step c event = some s') : CacheOk c s' := by
  cases event with
  | tick ms =>
    cases hstep
    have hle : s.now ≤ s.now + ms := Nat.le_add_right _ _
    exact h.later ⟨hle, List.Subset.refl _, fun _ hheld => .inl hheld⟩ h.store
      (h.channel.mono hle)
      (fun held hheld => ⟨(h.held held hheld).1, (h.held held hheld).2.trans hle⟩) rfl rfl rfl rfl
  | subscribers n =>
    cases hstep
    exact { h with channel := ⟨h.channel.arrival, h.channel.highest⟩ }
  | subscription subscribed =>
    cases hstep
    exact { h with }
  | gossip record =>
    simp only [Cache.step] at hstep
    split at hstep
    · cases hstep
      exact { h with channel := h.channel.stamp record }
    · cases hstep
  | store event =>
    obtain ⟨result, hresult, rfl⟩ := Option.map_eq_some_iff.1 hstep
    exact h.afterStore hresult
  | resolve i nocache =>
    simp only [Cache.step] at hstep
    split at hstep
    · cases hstep
    · split at hstep
      · cases hstep
        refine h.setResolve fun x hx => ?_
        rw [← Option.some.inj hx]
        exact ⟨⟨h.channel, h.time⟩, h.networkValidated⟩
      · cases hstep
        exact h.toNetwork
  | answered i write =>
    obtain ⟨resolve, hresolve, hanswered⟩ := Option.bind_eq_some_iff.1 hstep
    exact h.answered hresolve hanswered
  | storeFails i =>
    obtain ⟨resolve, hresolve, hfails⟩ := Option.bind_eq_some_iff.1 hstep
    exact h.storeFails hresolve hfails
  | validated i valid =>
    simp only [Cache.step] at hstep
    split at hstep
    · rename_i gate record created hresolve
      cases hstep
      split
      · rename_i hserves
        rw [Bool.and_eq_true] at hserves
        exact h.serve (h.servedFresh hresolve hserves.2)
      · exact h.toNetwork
    · cases hstep
  | directHit i record =>
    simp only [Cache.step] at hstep
    split at hstep
    · cases hstep
      refine (h.validatedFetch hsound).setResolve fun x hx => ?_
      rw [← Option.some.inj hx]
      exact hsound
    · cases hstep
  | directMiss i =>
    simp only [Cache.step] at hstep
    split at hstep
    · cases hstep
      refine h.setResolve fun x hx => ?_
      rw [← Option.some.inj hx]
      trivial
    · cases hstep
  | aborted i | routerFails i =>
    simp only [Cache.step] at hstep
    split at hstep
    · cases hstep
      exact h.setResolve nofun
    · cases hstep
  | routerHit i record =>
    simp only [Cache.step] at hstep
    split at hstep
    · cases hstep
      exact (h.validatedFetch hsound).yieldFetched hsound
    · cases hstep

/-! ## Every run -/

omit [DecidableEq ι] [DecidableEq ρ] in
theorem StoreOk.monotone {store : Store ρ ι} (h : StoreOk c.rank store) :
    store.Monotone c.rank where
  __ := h
  heard := by
    by_cases hstored : ∃ i put, store.puts i = some put ∧ put.phase = .stored
    · obtain ⟨i, put, hput, hphase⟩ := hstored
      exact ⟨[put.record], (h.stored i put hput hphase).symm⟩
    · have heq := h.arrived fun i put hput hphase => hstored ⟨i, put, hput, hphase⟩
      exact heq ▸ List.prefix_rfl
  heardAll := fun hnone => (h.arrived hnone).symm

omit [DecidableEq ι] [DecidableEq ρ] in
theorem CacheOk.honest (h : CacheOk c s) : Honest c s := ⟨h.store.monotone, h.served, h.yielded⟩

/-- **The cache is monotone and honestly fresh while no fetch returns an older record.**  The
records that are held get newer and are announced once each; one is served from the cache only if it
was confirmed within its ttl or the push channel is healthy; what a fetch yields is not older than
what was held. -/
theorem cache_honest (c : CacheConfig ρ κ) (start : Nat) (htime : c.watchdogMs ≤ start)
    {events : List (CacheEvent ρ ι)} {s : Cache ρ ι}
    (hrun : Run (Cache.step c) (Sound c) (Cache.init start) events s) : Honest c s :=
  hrun.invariant_of (fun _ h => h.honest) (fun _ _ _ h hsound hstep => h.step hsound hstep)
    (cacheOk_init htime)

end Promise

/-! ## An older record -/

/-- A record is its sequence number, without a ttl. -/
def plainRecords : CacheConfig Nat Nat := ⟨id, id, fun _ => none, [], 900000⟩

/-- The write of a record to an empty store. -/
def acceptedWrite (record : Nat) : List (CacheEvent Nat Nat) :=
  [.store (.put 0 record), .store (.goOn 0), .store (.goOn 0), .store (.goOn 0), .store (.goOn 0)]

/-- A minute later a direct fetch of a record that the store does not need, and then a call that is
served from the cache. -/
def fetchThenServe (record : Nat) : List (CacheEvent Nat Nat) :=
  [.tick 60000, .resolve 1 false, .directHit 1 record, .answered 1 1, .answered 1 1,
    .resolve 2 false, .answered 2 2, .answered 2 2, .validated 2 true]

theorem idle_name_served :
    ∃ s : Cache Nat Nat, s.served.map Served.record = [5] ∧ Honest plainRecords s := by
  have hsound : ∀ held ∈ some 5, plainRecords.rank held ≤ plainRecords.rank 5 :=
    fun _ hheld => le_of_eq (congrArg _ (Option.some.inj hheld).symm)
  obtain ⟨s, hrun, hserved⟩ : ∃ s : Cache Nat Nat,
      Run (Cache.step plainRecords) (Sound plainRecords) (Cache.init 1000000)
        (acceptedWrite 5 ++ fetchThenServe 5) s ∧ s.served.map Served.record = [5] :=
    ⟨_, .cons trivial rfl <| .cons trivial rfl <| .cons trivial rfl <| .cons trivial rfl <|
      .cons trivial rfl <| .cons trivial rfl <| .cons trivial rfl <| .cons (by exact hsound) rfl <|
      .cons trivial rfl <| .cons trivial rfl <| .cons trivial rfl <| .cons trivial rfl <|
      .cons trivial rfl <|
      .cons trivial (by exact congrArg some (if_pos (by decide +kernel))) (.nil _), rfl⟩
  exact ⟨s, hserved, cache_honest plainRecords 1000000 (by decide) hrun⟩

/-- The older record renews the freshness of the one that is held, and is yielded in its place. -/
theorem older_record_renews :
    ∃ s : Cache Nat Nat, Run (Cache.step plainRecords) anyStep (Cache.init 1000000)
      (acceptedWrite 5 ++ fetchThenServe 3) s ∧
      s.served.map Served.record = [5] ∧
      (∀ e ∈ s.served, ¬ ServedFresh plainRecords s.confirmed e) ∧
      s.yielded = [(3, some 5)] ∧ ¬ Honest plainRecords s := by
  refine ⟨_, .cons trivial rfl <| .cons trivial rfl <| .cons trivial rfl <| .cons trivial rfl <|
    .cons trivial rfl <| .cons trivial rfl <| .cons trivial rfl <| .cons trivial rfl <|
    .cons trivial rfl <| .cons trivial rfl <| .cons trivial rfl <| .cons trivial rfl <|
    .cons trivial rfl <| .cons trivial (congrArg some (if_pos (by decide +kernel))) (.nil _),
    rfl, ?_, rfl, fun h => ?_⟩
  · intro e he
    obtain rfl := List.mem_singleton.1 he
    rintro (⟨source, hsource, hnewer, -, hage⟩ | ⟨hsubscribers, -⟩)
    · have hsources : source ∈ [(5, 1000000), (3, 1060000)] := hsource
      rw [List.mem_cons, List.mem_singleton] at hsources
      rcases hsources with rfl | rfl
      · -- the ttl is over
        exact absurd hage (by decide +kernel)
      · exact absurd hnewer (by decide)
    · exact absurd hsubscribers (by decide)
  · exact absurd (h.yielded (3, some 5) (List.mem_singleton_self _) 5 rfl) (by decide)

end Ipns
end Pkc
