import Mathlib.Algebra.BigOperators.Group.List.Basic
import Mathlib.Algebra.Field.Rat
import Mathlib.Algebra.Order.Field.Rat
import Mathlib.Data.List.Basic
import Mathlib.Tactic.FieldSimp
import Mathlib.Tactic.NormNum
import Mathlib.Tactic.Ring
import Pkc.Library.Runs

/-!
# The statistics of the providers

For each provider and each type of request the storage has the number of failures, the number of
successes and the mean of what they took.  A record of one more reads what is there, computes and
writes, with an await before each of these.

* `Call` is a record that is under way, and `step` what happens between two awaits; other calls may
  come in between.
* `Ok` is the guard that nobody reads what somebody else has read and not written yet.
* `Inv` is what the storage holds then, in terms of the calls that have written, and `Inv.exact`
  that nothing is lost.
* `sortGatewaysAccordingToScore` sorts promises, which are all alike, so the providers stay in the
  order in which they are configured: `sortGatewaysAccordingToScore_eq`.
* `exact_and_bestFirst` is both together.
-/

set_option autoImplicit false

namespace Pkc
namespace Stats

open Runs

/-! ## The storage -/

inductive StatType
  | ipns | ipfs | pubsubPublish | pubsubSubscribe | pubsubUnsubscribe
deriving DecidableEq, Repr

def StatType.text : StatType → String
  | .ipns => "ipns"
  | .ipfs => "ipfs"
  | .pubsubPublish => "pubsub-publish"
  | .pubsubSubscribe => "pubsub-subscribe"
  | .pubsubUnsubscribe => "pubsub-unsubscribe"

def getBaseKey (url : String) (type : StatType) : String := "STATS_" ++ url ++ "_" ++ type.text

def getSuccessCountKey (gatewayUrl : String) (type : StatType) : String :=
  getBaseKey gatewayUrl type ++ "_COUNT_SUCCESS"

def getSuccessAverageKey (gatewayUrl : String) (type : StatType) : String :=
  getBaseKey gatewayUrl type ++ "_AVERAGE_SUCCESS"

def getFailuresCountKey (url : String) (type : StatType) : String :=
  getBaseKey url type ++ "_COUNT_FAILURE"

inductive Stat
  | countSuccess | averageSuccess | countFailure
deriving DecidableEq, Repr

/-- What a key of the storage stands for. -/
@[ext]
structure Key where
  stat : Stat
  url : String
  type : StatType
deriving DecidableEq

def Key.text (key : Key) : String :=
  match key.stat with
  | .countSuccess => getSuccessCountKey key.url key.type
  | .averageSuccess => getSuccessAverageKey key.url key.type
  | .countFailure => getFailuresCountKey key.url key.type

abbrev Storage := String → Option Rat

/-- `(await getItem(key)) || 0` -/
def Storage.getItem (storage : Storage) (key : Key) : Rat := (storage key.text).getD 0

def Storage.setItem (storage : Storage) (key : Key) (value : Rat) : Storage :=
  Function.update storage key.text (some value)

/-! ## Recording -/

inductive Record
  | success (timeElapsedMs : Rat)
  | failure
deriving DecidableEq

inductive Phase
  | called
  /-- Of a success, which reads the average first. -/
  | readAverage (curAverage : Rat)
  /-- What is still to be written. -/
  | writing (newAverage newCount : Option Rat)
deriving DecidableEq

structure Call where
  url : String
  type : StatType
  record : Record
  phase : Phase
deriving DecidableEq

def Call.averageKey (call : Call) : Key := ⟨.averageSuccess, call.url, call.type⟩

def Call.countKey (call : Call) : Key :=
  match call.record with
  | .success _ => ⟨.countSuccess, call.url, call.type⟩
  | .failure => ⟨.countFailure, call.url, call.type⟩

/-- `recordGatewaySuccess` or `recordGatewayFailure` up to the await after its next read. -/
def Call.read (storage : Storage) (call : Call) : Option Call :=
  match call.record, call.phase with
  | .success _, .called =>
    some { call with phase := .readAverage (storage.getItem call.averageKey) }
  | .success timeElapsedMs, .readAverage curAverage =>
    let curCount := storage.getItem call.countKey
    let newAverage := curAverage + (timeElapsedMs - curAverage) / (curCount + 1)
    some { call with phase := .writing (some newAverage) (some (curCount + 1)) }
  | .failure, .called =>
    some { call with phase := .writing none (some (storage.getItem call.countKey + 1)) }
  | _, _ => none

structure State where
  storage : Storage
  /-- All calls that were made. -/
  calls : List Call

def State.init : State := ⟨fun _ => none, []⟩

inductive Action
  | call (url : String) (type : StatType) (record : Record)
  | read (i : Nat)
  | setAverage (i : Nat)
  | setCount (i : Nat)

def step (s : State) : Action → Option State
  | .call url type record => some { s with calls := s.calls ++ [⟨url, type, record, .called⟩] }
  | .read i =>
    (s.calls[i]?.bind (Call.read s.storage)).map fun call => { s with calls := s.calls.set i call }
  | .setAverage i =>
    match s.calls[i]? with
    | some call =>
      match call.phase with
      | .writing (some newAverage) newCount =>
        some ⟨s.storage.setItem call.averageKey newAverage,
          s.calls.set i { call with phase := .writing none newCount }⟩
      | _ => none
    | none => none
  | .setCount i =>
    match s.calls[i]? with
    | some call =>
      match call.phase with
      | .writing newAverage (some newCount) =>
        some ⟨s.storage.setItem call.countKey newCount,
          s.calls.set i { call with phase := .writing newAverage none }⟩
      | _ => none
    | none => none

/-- The call has returned. -/
def Call.Returned (call : Call) : Prop := call.phase = .writing none none

instance : DecidablePred Call.Returned := fun call =>
  inferInstanceAs (Decidable (call.phase = .writing none none))

/-- The call has read the key and not written it yet. -/
def Call.holds (call : Call) (key : Key) : Bool :=
  match call.phase with
  | .called => false
  | .readAverage _ => key = call.averageKey
  | .writing newAverage newCount =>
    (newAverage.isSome && key = call.averageKey) || (newCount.isSome && key = call.countKey)

/-- What the call reads next. -/
def Call.nextKey (call : Call) : Key :=
  match call.record, call.phase with
  | .success _, .called => call.averageKey
  | _, _ => call.countKey

/-- Nobody reads what somebody else has read and not written yet. -/
def Ok (s : State) : Action → Prop
  | .read i => ∀ call, s.calls[i]? = some call → ∀ other ∈ s.calls, other.holds call.nextKey = false
  | _ => True

/-! ## What is recorded -/

def Record.duration : Record → Option Rat
  | .success timeElapsedMs => some timeElapsedMs
  | .failure => none

def mean (durations : List Rat) : Rat := durations.sum / durations.length

/-- What the successes took. -/
def State.durations (s : State) (url : String) (type : StatType) : List Rat :=
  (s.calls.filter fun call => call.url = url ∧ call.type = type).filterMap fun call =>
    call.record.duration

def State.failures (s : State) (url : String) (type : StatType) : Nat :=
  s.calls.countP fun call => call.url = url ∧ call.type = type ∧ call.record = .failure

/-- Nothing is lost of what was recorded. -/
structure Exact (s : State) (url : String) (type : StatType) : Prop where
  successes : s.storage.getItem ⟨.countSuccess, url, type⟩ = (s.durations url type).length
  failures : s.storage.getItem ⟨.countFailure, url, type⟩ = s.failures url type
  average : s.storage.getItem ⟨.averageSuccess, url, type⟩ = mean (s.durations url type)

/-! ## Sorting -/

structure Clients where
  ipfsGateways : List String
  pubsubKuboRpcClients : List String
  libp2pJsClients : List String

/-- The keys of the clients that are sorted for a type. -/
def Clients.gateways (clients : Clients) : StatType → Option (List String)
  | .ipfs | .ipns => some clients.ipfsGateways
  | .pubsubPublish | .pubsubSubscribe =>
    if clients.pubsubKuboRpcClients.length > 0 then some clients.pubsubKuboRpcClients
    else if clients.libp2pJsClients.length > 0 then some clients.libp2pJsClients
    else none
  | .pubsubUnsubscribe => none

def gatewayScore (failureCounts successCounts successAverageMs : Rat) : Rat :=
  (1 / (successAverageMs + 150) / (1 / (successAverageMs + 100) + 1 / 150)) * (2 / 10) +
    ((successCounts + 288 / 1000) / (failureCounts * 2 + successCounts + 1)) * (8 / 10)

def score (storage : Storage) (type : StatType) (gatewayUrl : String) : Rat :=
  gatewayScore (storage.getItem ⟨.countFailure, gatewayUrl, type⟩)
    (storage.getItem ⟨.countSuccess, gatewayUrl, type⟩)
    (storage.getItem ⟨.averageSuccess, gatewayUrl, type⟩)

/-- What an asynchronous function returns at once. -/
structure Promise (α : Type) where
  resolvesTo : α

/-- What an object is compared by. -/
def Promise.toPrimitive {α : Type} (_ : Promise α) : String := "[object Promise]"

def Promise.less {α : Type} (p q : Promise α) : Bool := p.toPrimitive < q.toPrimitive

/-- A stable sort, the lesser first. -/
def IsSortBy (sortBy : List String → (String → Promise Rat) → List String) : Prop :=
  ∀ gateways score, sortBy gateways score =
    gateways.mergeSort fun gateway gateway' => !(score gateway').less (score gateway)

def sortGatewaysAccordingToScore (sortBy : List String → (String → Promise Rat) → List String)
    (storage : Storage) (clients : Clients) (type : StatType) : Except String (List String) :=
  match clients.gateways type with
  | some gateways => .ok (sortBy gateways fun gatewayUrl => ⟨score storage type gatewayUrl⟩)
  | none => .error "Can't find the gateway type to sort"

/-- No provider comes before one with a higher score. -/
def BestFirst (storage : Storage) (type : StatType) (gateways : List String) : Prop :=
  gateways.Pairwise fun before after => ¬ score storage type before < score storage type after

/-! ## The keys -/

def Stat.text : Stat → String
  | .countSuccess => "_COUNT_SUCCESS"
  | .averageSuccess => "_AVERAGE_SUCCESS"
  | .countFailure => "_COUNT_FAILURE"

def Stat.all : List Stat := [.countSuccess, .averageSuccess, .countFailure]

def StatType.all : List StatType :=
  [.ipns, .ipfs, .pubsubPublish, .pubsubSubscribe, .pubsubUnsubscribe]

theorem Stat.mem_all (stat : Stat) : stat ∈ Stat.all := by
  cases stat <;> decide

theorem StatType.mem_all (type : StatType) : type ∈ StatType.all := by
  cases type <;> decide

/-- What comes after the URL. -/
def ending (stat : Stat) (type : StatType) : List Char :=
  '_' :: type.text.toList ++ stat.text.toList

/-- No ending is the end of another one. -/
theorem ending_suffix :
    ∀ stat ∈ Stat.all, ∀ type ∈ StatType.all, ∀ stat' ∈ Stat.all, ∀ type' ∈ StatType.all,
      ending stat type <:+ ending stat' type' → stat = stat' ∧ type = type' := by
  decide +kernel

theorem Key.text_toList (key : Key) :
    key.text.toList = "STATS_".toList ++ (key.url.toList ++ ending key.stat key.type) := by
  obtain ⟨stat, url, type⟩ := key
  cases stat <;>
    simp [Key.text, getSuccessCountKey, getSuccessAverageKey, getFailuresCountKey, getBaseKey,
      ending, Stat.text]

/-- **No two statistics share a key.** -/
theorem Key.text_injective : Function.Injective Key.text := by
  intro key key' h
  have hlist := congrArg String.toList h
  rw [Key.text_toList, Key.text_toList, List.append_cancel_left_eq] at hlist
  have hsuffix := List.suffix_or_suffix_of_suffix
    (List.suffix_append key.url.toList (ending key.stat key.type))
    (hlist ▸ List.suffix_append key'.url.toList (ending key'.stat key'.type))
  have hsame : key.stat = key'.stat ∧ key.type = key'.type := by
    rcases hsuffix with hsuffix | hsuffix
    · exact ending_suffix _ (Stat.mem_all _) _ (StatType.mem_all _) _ (Stat.mem_all _) _
        (StatType.mem_all _) hsuffix
    · have hback := ending_suffix _ (Stat.mem_all _) _ (StatType.mem_all _) _ (Stat.mem_all _) _
        (StatType.mem_all _) hsuffix
      exact ⟨hback.1.symm, hback.2.symm⟩
  rw [hsame.1, hsame.2, List.append_cancel_right_eq] at hlist
  exact Key.ext hsame.1 (String.toList_inj.1 hlist) hsame.2

variable {storage : Storage} {key key' : Key} {value : Rat}

@[simp] theorem getItem_setItem_self : (storage.setItem key value).getItem key = value := by
  rw [Storage.getItem, Storage.setItem, Function.update_self, Option.getD_some]

theorem getItem_setItem_of_ne (h : key' ≠ key) :
    (storage.setItem key value).getItem key' = storage.getItem key' := by
  rw [Storage.getItem, Storage.setItem, Function.update_of_ne (Key.text_injective.ne h),
    Storage.getItem]

/-! ## What the storage holds -/

def Call.wroteAverage (call : Call) : Bool :=
  match call.record, call.phase with
  | .success _, .writing none _ => true
  | _, _ => false

def Call.wroteCount (call : Call) : Bool :=
  match call.phase with
  | .writing _ none => true
  | _ => false

/-- What the successes took that are in an average. -/
def averagedAt (key : Key) (calls : List Call) : List Rat :=
  (calls.filter fun call => call.averageKey = key && call.wroteAverage).filterMap fun call =>
    call.record.duration

/-- The calls that are in a count. -/
def countedAt (key : Key) (calls : List Call) : Nat :=
  calls.countP fun call => call.countKey = key && call.wroteCount

/-- What a call is about to write is right as long as nobody else writes it. -/
def Consistent (storage : Storage) (calls : List Call) (call : Call) : Prop :=
  match call.record, call.phase with
  | _, .called => True
  | .success _, .readAverage curAverage => curAverage = storage.getItem call.averageKey
  | .failure, .readAverage _ => False
  | .success timeElapsedMs, .writing newAverage newCount =>
    (∀ value ∈ newAverage, value = mean (timeElapsedMs :: averagedAt call.averageKey calls)) ∧
      ∀ value ∈ newCount, value = storage.getItem call.countKey + 1
  | .failure, .writing newAverage newCount =>
    newAverage = none ∧ ∀ value ∈ newCount, value = storage.getItem call.countKey + 1

/-- What holds in every state. -/
structure Inv (s : State) : Prop where
  counts : ∀ key, key.stat ≠ .averageSuccess →
    s.storage.getItem key = countedAt key s.calls
  averages : ∀ key, key.stat = .averageSuccess →
    s.storage.getItem key = mean (averagedAt key s.calls)
  one : ∀ key, s.calls.countP (fun call => call.holds key) ≤ 1
  consistent : ∀ call ∈ s.calls, Consistent s.storage s.calls call

section Calls

variable {storage storage' : Storage} {calls calls' before after : List Call} {call call' : Call}
  {key : Key}

theorem averagedAt_split (key : Key) (before after : List Call) (call : Call) :
    averagedAt key (before ++ call :: after) =
      averagedAt key before ++ (averagedAt key [call] ++ averagedAt key after) := by
  rw [averagedAt, List.filter_append, List.filter_cons, List.filterMap_append]
  simp only [averagedAt, List.filter_cons, List.filter_nil]
  split <;> simp [List.filterMap_cons]
  split <;> rfl

theorem averagedAt_singleton (key : Key) (call : Call) : averagedAt key [call] =
    if call.averageKey = key ∧ call.wroteAverage then call.record.duration.toList else [] := by
  rw [averagedAt, List.filter_singleton]
  by_cases h : call.averageKey = key ∧ call.wroteAverage
  · rw [if_pos h]
    cases hduration : call.record.duration <;> simp [h.1, h.2, hduration]
  · rw [if_neg h]
    have hnot : (decide (call.averageKey = key) && call.wroteAverage) = false := by
      simpa using h
    simp [hnot]

theorem countedAt_singleton (key : Key) (call : Call) : countedAt key [call] =
    if call.countKey = key ∧ call.wroteCount then 1 else 0 := by
  simp [countedAt, List.countP_cons]

theorem countedAt_split (key : Key) (before after : List Call) (call : Call) :
    countedAt key (before ++ call :: after) =
      countedAt key before + (countedAt key [call] + countedAt key after) := by
  simp only [countedAt, List.countP_append, List.countP_cons, List.countP_nil]
  omega

/-- A call at its place among the others. -/
theorem exists_split {i : Nat} (h : calls[i]? = some call) :
    ∃ before after, calls = before ++ call :: after ∧
      ∀ call', calls.set i call' = before ++ call' :: after := by
  obtain ⟨hlt, rfl⟩ := List.getElem?_eq_some_iff.1 h
  refine ⟨calls.take i, calls.drop (i + 1), ?_, fun call' => ?_⟩
  · rw [← List.drop_eq_getElem_cons hlt, List.take_append_drop]
  · rw [List.set_eq_take_append_cons_drop, if_pos hlt]

theorem countKey_stat (call : Call) : call.countKey.stat ≠ .averageSuccess := by
  rw [Call.countKey]
  split <;> simp

theorem countKey_ne_averageKey (call call' : Call) : call.countKey ≠ call'.averageKey :=
  fun h => countKey_stat call (congrArg Key.stat h)

/-- What a call has not read, or what nobody has written since, is still right. -/
theorem Consistent.frame (h : Consistent storage calls call)
    (haverage : call.holds call.averageKey →
      storage'.getItem call.averageKey = storage.getItem call.averageKey ∧
        averagedAt call.averageKey calls' = averagedAt call.averageKey calls)
    (hcount : call.holds call.countKey →
      storage'.getItem call.countKey = storage.getItem call.countKey) :
    Consistent storage' calls' call := by
  obtain ⟨url, type, record, phase⟩ := call
  cases phase with
  | called => cases record <;> trivial
  | readAverage curAverage =>
    cases record with
    | success timeElapsedMs => exact h.trans (haverage (by simp [Call.holds])).1.symm
    | failure => exact h
  | writing newAverage newCount =>
    have hcounts : newCount.isSome → _ := fun hsome => hcount (by simp [Call.holds, hsome])
    cases record with
    | success timeElapsedMs =>
      refine ⟨fun value hvalue => ?_, fun value hvalue => ?_⟩
      · have hholds : newAverage.isSome := Option.isSome_of_mem hvalue
        rw [(haverage (by simp [Call.holds, hholds])).2]
        exact h.1 value hvalue
      · rw [hcounts (Option.isSome_of_mem hvalue)]
        exact h.2 value hvalue
    | failure =>
      refine ⟨h.1, fun value hvalue => ?_⟩
      rw [hcounts (Option.isSome_of_mem hvalue)]
      exact h.2 value hvalue

/-- Who holds a key is the only one. -/
theorem Inv.not_holds (h : Inv ⟨storage, before ++ call :: after⟩) (hholds : call.holds key) :
    ∀ other ∈ before ++ after, other.holds key = false := by
  have hone := h.one key
  dsimp only at hone
  rw [List.countP_append, List.countP_cons_of_pos (p := fun call => Call.holds call key) hholds]
    at hone
  have hzero : (before ++ after).countP (fun call => call.holds key) = 0 := by
    rw [List.countP_append]
    omega
  intro other hother
  exact Bool.eq_false_iff.2 (List.countP_eq_zero.1 hzero other hother)

theorem mean_cons (value : Rat) (durations : List Rat) :
    mean durations + (value - mean durations) / (durations.length + 1) =
      mean (value :: durations) := by
  have hpos : (durations.length : Rat) + 1 ≠ 0 := by positivity
  rw [mean, mean, List.sum_cons, List.length_cons, Nat.cast_succ]
  cases durations with
  | nil => simp
  | cons duration durations =>
    have hlength : ((duration :: durations).length : Rat) ≠ 0 := by
      rw [List.length_cons]
      positivity
    field_simp
    ring

theorem mean_perm {durations durations' : List Rat} (h : durations.Perm durations') :
    mean durations = mean durations' := by
  rw [mean, mean, h.sum_eq, h.length_eq]

end Calls

/-! ## Every step -/

namespace Inv

variable {storage : Storage} {before after : List Call} {call : Call}

theorem init : Inv State.init where
  counts _ _ := rfl
  averages _ _ := by simp [State.init, Storage.getItem, averagedAt, mean]
  one _ := Nat.zero_le 1
  consistent := by simp [State.init]

theorem called {s : State} (h : Inv s) (url : String) (type : StatType) (record : Record) :
    Inv { s with calls := s.calls ++ [⟨url, type, record, .called⟩] } := by
  have haverage : ∀ key, averagedAt key (s.calls ++ [⟨url, type, record, .called⟩]) =
      averagedAt key s.calls := by
    intro key
    rw [averagedAt_split]
    cases record <;> simp [averagedAt, Call.wroteAverage]
  have hcount : ∀ key, countedAt key (s.calls ++ [⟨url, type, record, .called⟩]) =
      countedAt key s.calls := by
    intro key
    rw [countedAt_split]
    simp [countedAt, Call.wroteCount]
  constructor
  case counts =>
    intro key hkey
    rw [hcount]
    exact h.counts key hkey
  case averages =>
    intro key hkey
    rw [haverage]
    exact h.averages key hkey
  case one =>
    intro key
    rw [List.countP_append]
    simpa [Call.holds] using h.one key
  case consistent =>
    intro call hcall
    rcases List.mem_append.1 hcall with hcall | hcall
    · exact (h.consistent call hcall).frame (fun _ => ⟨rfl, haverage _⟩) fun _ => rfl
    · rw [List.mem_singleton.1 hcall]
      cases record <;> trivial

/-- **A call reads** what nobody is about to write: the storage stays, and the call holds one key
more. -/
theorem read_of {phase : Phase} (h : Inv ⟨storage, before ++ call :: after⟩)
    (hok : ∀ other ∈ before ++ call :: after, other.holds call.nextKey = false)
    (hwrote : ∀ call' : Call, call' = call ∨ call' = { call with phase := phase } →
      call'.wroteAverage = false ∧ call'.wroteCount = false)
    (hholds : ∀ key, key ≠ call.nextKey →
      Call.holds { call with phase := phase } key = true → call.holds key = true)
    (hconsistent : Consistent storage (before ++ call :: after) { call with phase := phase }) :
    Inv ⟨storage, before ++ { call with phase := phase } :: after⟩ := by
  have hold := hwrote call (.inl rfl)
  have hnew := hwrote _ (.inr rfl)
  have haverage : ∀ key, averagedAt key (before ++ { call with phase := phase } :: after) =
      averagedAt key (before ++ call :: after) := by
    intro key
    rw [averagedAt_split, averagedAt_split]
    simp [averagedAt, hold.1, hnew.1]
  have hcount : ∀ key, countedAt key (before ++ { call with phase := phase } :: after) =
      countedAt key (before ++ call :: after) := by
    intro key
    rw [countedAt_split, countedAt_split]
    simp [countedAt, hold.2, hnew.2]
  constructor
  case counts =>
    intro key hkey
    rw [hcount]
    exact h.counts key hkey
  case averages =>
    intro key hkey
    rw [haverage]
    exact h.averages key hkey
  case one =>
    intro key
    by_cases hkey : key = call.nextKey
    · -- nobody else holds it
      have hnone : ∀ other ∈ before ++ after, other.holds key = false := fun other hother =>
        hkey ▸ hok other (by
          rcases List.mem_append.1 hother with hother | hother <;> simp [hother])
      have hzero : (before ++ after).countP (fun call => call.holds key) = 0 :=
        List.countP_eq_zero.2 fun other hother => by simp [hnone other hother]
      rw [List.countP_append] at hzero
      simp only [List.countP_append, List.countP_cons]
      split <;> omega
    · have hle := h.one key
      have himp := hholds key hkey
      simp only [List.countP_append, List.countP_cons] at hle ⊢
      split
      · rename_i hnewHolds
        rw [if_pos (himp hnewHolds)] at hle
        exact hle
      · omega
  case consistent =>
    have hothers : ∀ other ∈ before ++ call :: after, Consistent storage
        (before ++ { call with phase := phase } :: after) other := fun other hother =>
      (h.consistent other hother).frame (fun _ => ⟨rfl, haverage _⟩) fun _ => rfl
    intro other hother
    rcases List.mem_append.1 hother with hbefore | hcons
    · exact hothers other (List.mem_append_left _ hbefore)
    · rcases List.mem_cons.1 hcons with rfl | hafter
      · exact hconsistent.frame (fun _ => ⟨rfl, haverage _⟩) fun _ => rfl
      · exact hothers other (List.mem_append_right _ (List.mem_cons_of_mem _ hafter))

/-- Who has written the average has written the count, when a call reads the count after it has
read the average. -/
theorem length_averagedAt (h : Inv ⟨storage, before ++ call :: after⟩) {timeElapsedMs : Rat}
    {curAverage : Rat} (hrecord : call.record = .success timeElapsedMs)
    (hphase : call.phase = .readAverage curAverage)
    (hok : ∀ other ∈ before ++ call :: after, other.holds call.countKey = false) :
    (averagedAt call.averageKey (before ++ call :: after)).length =
      countedAt call.countKey (before ++ call :: after) := by
  have hholds : call.holds call.averageKey = true := by simp [Call.holds, hphase]
  have hothers := h.not_holds hholds
  have hkey : call.countKey = ⟨.countSuccess, call.url, call.type⟩ := by
    rw [Call.countKey, hrecord]
  rw [averagedAt, List.length_filterMap_eq_countP, List.countP_filter, countedAt]
  refine List.countP_congr fun other hother => ?_
  have hnotCount := hok other hother
  rw [hkey] at hnotCount ⊢
  obtain ⟨url, type, record, phase⟩ := other
  cases record with
  | failure => simp [Call.countKey, Record.duration]
  | success timeElapsedMs' =>
    simp only [Record.duration, Option.isSome_some, Bool.true_and, Call.averageKey, Call.countKey,
      Key.mk.injEq, true_and]
    by_cases hsame : url = call.url ∧ type = call.type
    · obtain ⟨rfl, rfl⟩ := hsame
      cases phase with
      | called => simp [Call.wroteAverage, Call.wroteCount]
      | readAverage curAverage => simp [Call.wroteAverage, Call.wroteCount]
      | writing newAverage newCount =>
        have hcount : newCount = none := by
          simp only [Call.holds, Call.countKey, Bool.or_eq_false_iff] at hnotCount
          simpa using hnotCount.2
        have hmem : (⟨call.url, call.type, .success timeElapsedMs',
            .writing newAverage newCount⟩ : Call) ∈ before ++ after := by
          rcases List.mem_append.1 hother with hbefore | hcons
          · exact List.mem_append_left _ hbefore
          · rcases List.mem_cons.1 hcons with heq | hafter
            · rw [← heq] at hphase
              cases hphase
            · exact List.mem_append_right _ hafter
        have haverage : newAverage = none := by
          simpa [Call.holds, Call.averageKey, hcount] using hothers _ hmem
        simp [Call.wroteAverage, Call.wroteCount, hcount, haverage]
    · simp [hsame]

theorem newAverage_eq {calls : List Call} (h : Inv ⟨storage, calls⟩) {averageKey countKey : Key}
    (haverage : averageKey.stat = .averageSuccess) (hcount : countKey.stat ≠ .averageSuccess)
    (hlength : (averagedAt averageKey calls).length = countedAt countKey calls)
    (timeElapsedMs : Rat) :
    storage.getItem averageKey +
        (timeElapsedMs - storage.getItem averageKey) / (storage.getItem countKey + 1) =
      mean (timeElapsedMs :: averagedAt averageKey calls) := by
  rw [h.averages averageKey haverage, h.counts countKey hcount, ← hlength]
  exact mean_cons timeElapsedMs _

theorem read {s : State} (h : Inv s) {i : Nat} (hok : Ok s (.read i)) {s' : State}
    (hstep : step s (.read i) = some s') : Inv s' := by
  obtain ⟨storage, calls⟩ := s
  obtain ⟨call', hread, rfl⟩ := Option.map_eq_some_iff.1 hstep
  obtain ⟨call, hcall, hread⟩ := Option.bind_eq_some_iff.1 hread
  obtain ⟨before, after, rfl, hset⟩ := exists_split hcall
  have hok := hok call hcall
  have hconsistent := h.consistent call (by simp)
  rw [hset]
  obtain ⟨url, type, record, phase⟩ := call
  cases record with
  | success timeElapsedMs =>
    cases phase with
    | called =>
      cases hread
      refine h.read_of hok (by simp [Call.wroteAverage, Call.wroteCount])
        (fun key hkey hholds => ?_) rfl
      exact absurd (of_decide_eq_true hholds) hkey
    | readAverage curAverage =>
      cases hread
      refine h.read_of hok (by simp [Call.wroteAverage, Call.wroteCount])
        (fun key hkey hholds => ?_) ⟨?_, by rintro value ⟨⟩; rfl⟩
      · simp only [Call.holds, Option.isSome_some, Bool.true_and, Bool.or_eq_true,
          decide_eq_true_eq] at hholds ⊢
        exact hholds.resolve_right hkey
      · rintro value ⟨⟩
        obtain rfl : curAverage = storage.getItem ⟨.averageSuccess, url, type⟩ := hconsistent
        exact h.newAverage_eq rfl (countKey_stat _) (h.length_averagedAt rfl rfl hok) timeElapsedMs
    | writing newAverage newCount => cases hread
  | failure =>
    cases phase with
    | called =>
      cases hread
      refine h.read_of hok (by simp [Call.wroteAverage, Call.wroteCount])
        (fun key hkey hholds => ?_) ⟨rfl, by rintro value ⟨⟩; rfl⟩
      simp only [Call.holds, Option.isSome_none, Bool.false_and, Bool.false_or, Option.isSome_some,
        Bool.true_and] at hholds
      exact absurd (of_decide_eq_true hholds) hkey
    | readAverage curAverage => cases hread
    | writing newAverage newCount => cases hread

/-- **A call writes what it holds**, and the others do not hold it. -/
theorem write_of {key : Key} {value : Rat} {phase : Phase}
    (h : Inv ⟨storage, before ++ call :: after⟩) (hholds : call.holds key = true)
    (hless : ∀ key, Call.holds { call with phase := phase } key = true → call.holds key = true)
    (hcounts : ∀ key', key'.stat ≠ .averageSuccess → (storage.setItem key value).getItem key' =
      countedAt key' (before ++ { call with phase := phase } :: after))
    (haverages : ∀ key', key'.stat = .averageSuccess → (storage.setItem key value).getItem key' =
      mean (averagedAt key' (before ++ { call with phase := phase } :: after)))
    (hothers : ∀ key', key' ≠ key →
      averagedAt key' (before ++ { call with phase := phase } :: after) =
        averagedAt key' (before ++ call :: after))
    (hconsistent : Consistent (storage.setItem key value)
      (before ++ { call with phase := phase } :: after) { call with phase := phase }) :
    Inv ⟨storage.setItem key value, before ++ { call with phase := phase } :: after⟩ := by
  have hnot := h.not_holds hholds
  refine ⟨hcounts, haverages, fun key' => ?_, fun other hother => ?_⟩
  · have hle := h.one key'
    have himp := hless key'
    simp only [List.countP_append, List.countP_cons] at hle ⊢
    split
    · rename_i hnewHolds
      rw [if_pos (himp hnewHolds)] at hle
      exact hle
    · omega
  · have hframe : other ∈ before ++ after → Consistent (storage.setItem key value)
        (before ++ { call with phase := phase } :: after) other := by
      intro hmem
      have hne : ∀ key', other.holds key' = true → key' ≠ key := by
        rintro key' hheld rfl
        rw [hnot other hmem] at hheld
        cases hheld
      refine (h.consistent other ?_).frame (fun hheld => ⟨getItem_setItem_of_ne (hne _ hheld),
        hothers _ (hne _ hheld)⟩) fun hheld => getItem_setItem_of_ne (hne _ hheld)
      rcases List.mem_append.1 hmem with hmem | hmem <;> simp [hmem]
    rcases List.mem_append.1 hother with hbefore | hcons
    · exact hframe (List.mem_append_left _ hbefore)
    · rcases List.mem_cons.1 hcons with rfl | hafter
      · exact hconsistent
      · exact hframe (List.mem_append_right _ hafter)

theorem setAverage {newAverage : Rat} {newCount : Option Rat}
    (h : Inv ⟨storage, before ++ call :: after⟩)
    (hphase : call.phase = .writing (some newAverage) newCount) :
    Inv ⟨storage.setItem call.averageKey newAverage,
      before ++ { call with phase := .writing none newCount } :: after⟩ := by
  have hconsistent := h.consistent call (by simp)
  obtain ⟨url, type, record, phase⟩ := call
  obtain rfl := hphase
  cases record with
  | failure => exact absurd hconsistent.1 (by simp)
  | success timeElapsedMs =>
    have hvalue := hconsistent.1 newAverage rfl
    refine h.write_of (by simp [Call.holds]) (fun key hheld => ?_) (fun key' hkey' => ?_)
      (fun key' hkey' => ?_) (fun key' hkey' => ?_) ⟨by simp, fun value hmem => ?_⟩
    · simp only [Call.holds, Option.isSome_none, Bool.false_and, Bool.false_or] at hheld
      simp only [Call.holds, Bool.or_eq_true]
      exact .inr hheld
    · have hne : key' ≠ (⟨.averageSuccess, url, type⟩ : Key) := by
        rintro rfl
        exact hkey' rfl
      refine (getItem_setItem_of_ne hne).trans ((h.counts key' hkey').trans ?_)
      dsimp only
      rw [countedAt_split, countedAt_split, countedAt_singleton, countedAt_singleton]
      cases newCount <;> rfl
    · by_cases hkey : key' = ⟨.averageSuccess, url, type⟩
      · subst hkey
        rw [show Call.averageKey _ = (⟨.averageSuccess, url, type⟩ : Key) from rfl,
          getItem_setItem_self, hvalue, averagedAt_split, averagedAt_split, averagedAt_singleton,
          averagedAt_singleton]
        refine mean_perm ?_
        rw [if_neg (by simp [Call.wroteAverage]), if_pos ⟨rfl, rfl⟩]
        exact List.perm_middle.symm
      · refine (getItem_setItem_of_ne hkey).trans ((h.averages key' hkey').trans ?_)
        dsimp only
        rw [averagedAt_split, averagedAt_split, averagedAt_singleton, averagedAt_singleton,
          if_neg fun heq => hkey heq.1.symm, if_neg fun heq => hkey heq.1.symm]
    · rw [averagedAt_split, averagedAt_split, averagedAt_singleton, averagedAt_singleton,
        if_neg fun heq => hkey' heq.1.symm, if_neg fun heq => hkey' heq.1.symm]
    · rw [hconsistent.2 value hmem]
      exact congrArg (· + 1) (getItem_setItem_of_ne (countKey_ne_averageKey _ _)).symm

theorem setCount {newAverage : Option Rat} {newCount : Rat}
    (h : Inv ⟨storage, before ++ call :: after⟩)
    (hphase : call.phase = .writing newAverage (some newCount)) :
    Inv ⟨storage.setItem call.countKey newCount,
      before ++ { call with phase := .writing newAverage none } :: after⟩ := by
  have hconsistent := h.consistent call (by simp)
  have hvalue : newCount = storage.getItem call.countKey + 1 := by
    obtain ⟨url, type, record, phase⟩ := call
    obtain rfl := hphase
    cases record <;> exact hconsistent.2 newCount rfl
  have haverage : ∀ key', averagedAt key'
      (before ++ { call with phase := .writing newAverage none } :: after) =
        averagedAt key' (before ++ call :: after) := by
    intro key'
    obtain ⟨url, type, record, phase⟩ := call
    obtain rfl := hphase
    rw [averagedAt_split, averagedAt_split, averagedAt_singleton, averagedAt_singleton]
    cases record <;> cases newAverage <;> rfl
  refine h.write_of (by simp [Call.holds, hphase]) (fun key hheld => ?_) (fun key' hkey' => ?_)
    (fun key' hkey' => ?_) (fun key' _ => haverage key') ?_
  · simp only [Call.holds, Option.isSome_none, Bool.false_and, Bool.or_false] at hheld
    simp only [Call.holds, hphase, Bool.or_eq_true]
    exact .inl hheld
  · rw [countedAt_split]
    have hcounts := h.counts key' hkey'
    dsimp only at hcounts
    rw [countedAt_split] at hcounts
    by_cases hkey : key' = call.countKey
    · subst hkey
      rw [getItem_setItem_self, hvalue, hcounts]
      have hnew : countedAt call.countKey
          [{ call with phase := .writing newAverage none }] = 1 := by
        rw [countedAt_singleton]
        exact if_pos ⟨rfl, rfl⟩
      have hold : countedAt call.countKey [call] = 0 := by
        rw [countedAt_singleton]
        exact if_neg (by simp [Call.wroteCount, hphase])
      rw [hnew, hold]
      push_cast
      ring
    · rw [getItem_setItem_of_ne hkey, hcounts, countedAt_singleton, countedAt_singleton,
        if_neg fun heq => hkey heq.1.symm, if_neg fun heq => hkey heq.1.symm]
  · have hne : key' ≠ call.countKey := by
      rintro rfl
      exact countKey_stat call hkey'
    rw [getItem_setItem_of_ne hne, haverage]
    exact h.averages key' hkey'
  · obtain ⟨url, type, record, phase⟩ := call
    obtain rfl := hphase
    cases record with
    | success timeElapsedMs =>
      refine ⟨fun value hmem => ?_, by simp⟩
      rw [haverage]
      exact hconsistent.1 value hmem
    | failure => exact ⟨hconsistent.1, by simp⟩

theorem step {s : State} (h : Inv s) {a : Action} (hok : Ok s a) {s' : State}
    (hstep : step s a = some s') : Inv s' := by
  cases a with
  | call url type record =>
    cases hstep
    exact h.called url type record
  | read i => exact h.read hok hstep
  | setAverage i =>
    rw [Stats.step] at hstep
    split at hstep
    · rename_i call hcall
      obtain ⟨before, after, hcalls, hset⟩ := exists_split hcall
      split at hstep
      · rename_i newAverage newCount hphase
        cases hstep
        rw [hset]
        obtain ⟨storage, calls⟩ := s
        obtain rfl : calls = _ := hcalls
        exact h.setAverage hphase
      · cases hstep
    · cases hstep
  | setCount i =>
    rw [Stats.step] at hstep
    split at hstep
    · rename_i call hcall
      obtain ⟨before, after, hcalls, hset⟩ := exists_split hcall
      split at hstep
      · rename_i newAverage newCount hphase
        cases hstep
        rw [hset]
        obtain ⟨storage, calls⟩ := s
        obtain rfl : calls = _ := hcalls
        exact h.setCount hphase
      · cases hstep
    · cases hstep

/-- **Nothing is lost** once all calls have returned. -/
theorem exact {s : State} (h : Inv s) (hreturned : ∀ call ∈ s.calls, call.Returned) (url : String)
    (type : StatType) : Exact s url type := by
  have haverage : averagedAt ⟨.averageSuccess, url, type⟩ s.calls = s.durations url type := by
    simp only [averagedAt, State.durations, List.filterMap_filter]
    refine List.filterMap_congr fun call hcall => ?_
    obtain ⟨url', type', record, phase⟩ := call
    obtain rfl : phase = _ := hreturned _ hcall
    cases record <;> simp [Call.averageKey, Call.wroteAverage, Record.duration]
  constructor
  case successes =>
    rw [h.counts _ (by simp), countedAt, State.durations, List.length_filterMap_eq_countP,
      List.countP_filter]
    refine congrArg Nat.cast (List.countP_congr fun call hcall => ?_)
    obtain ⟨url', type', record, phase⟩ := call
    obtain rfl : phase = _ := hreturned _ hcall
    cases record <;> simp [Call.countKey, Call.wroteCount, Record.duration]
  case failures =>
    rw [h.counts _ (by simp), countedAt, State.failures]
    refine congrArg Nat.cast (List.countP_congr fun call hcall => ?_)
    obtain ⟨url', type', record, phase⟩ := call
    obtain rfl : phase = _ := hreturned _ hcall
    cases record <;> simp [Call.countKey, Call.wroteCount]
  case average => rw [h.averages _ rfl, haverage]

end Inv

/-! ## The order of the providers -/

theorem Promise.less_eq_false {α : Type} (p q : Promise α) : p.less q = false :=
  decide_eq_false (String.lt_irrefl _)

/-- **The sort leaves the providers as they are configured.** -/
theorem sortGatewaysAccordingToScore_eq
    {sortBy : List String → (String → Promise Rat) → List String} (hsortBy : IsSortBy sortBy)
    {storage : Storage} {clients : Clients} {type : StatType} {gateways : List String}
    (h : clients.gateways type = some gateways) :
    sortGatewaysAccordingToScore sortBy storage clients type = .ok gateways := by
  rw [sortGatewaysAccordingToScore, h]
  dsimp only
  rw [hsortBy, List.mergeSort_of_pairwise]
  exact List.pairwise_of_forall fun before after => by simp [Promise.less_eq_false]

/-- **Nothing is lost, and the best come first exactly when they are configured so.**  After calls
of which none reads what another has read and not written yet, and which have all returned, the
counts are those of the calls and the averages the means of what they took; and the sort gives the
configured providers, in which no one comes before a better one if and only if that is how they are
configured. -/
theorem exact_and_bestFirst {as : List Action} {s : State} (hrun : Run step Ok State.init as s)
    (hreturned : ∀ call ∈ s.calls, call.Returned)
    {sortBy : List String → (String → Promise Rat) → List String} (hsortBy : IsSortBy sortBy)
    {clients : Clients} {type : StatType} {gateways : List String}
    (hgateways : clients.gateways type = some gateways) :
    (∀ url type, Exact s url type) ∧
      ∃ sorted, sortGatewaysAccordingToScore sortBy s.storage clients type = .ok sorted ∧
        sorted.Perm gateways ∧
        (BestFirst s.storage type sorted ↔ BestFirst s.storage type gateways) := by
  have hinv : Inv s := hrun.invariant (fun _ _ _ hinv hok hstep => hinv.step hok hstep) Inv.init
  exact ⟨hinv.exact hreturned, gateways, sortGatewaysAccordingToScore_eq hsortBy hgateways,
    List.Perm.refl _, Iff.rfl⟩

/-! ### Two runs -/

/-- The sort that is documented. -/
def stableSort (gateways : List String) (score : String → Promise Rat) : List String :=
  gateways.mergeSort fun gateway gateway' => !(score gateway').less (score gateway)

def twoGateways : Clients := ⟨["https://slow.example", "https://fast.example"], [], []⟩

theorem ok_read {s : State} {i : Nat} {call : Call} (hcall : s.calls[i]? = some call)
    (hothers : ∀ other ∈ s.calls, other.holds call.nextKey = false) : Ok s (.read i) := by
  intro call' hcall'
  obtain rfl := Option.some.inj (hcall.symm.trans hcall')
  exact hothers

/-- A success and the failure of another provider overlap, and a second success follows. -/
def threeCalls : List Action :=
  [.call "https://slow.example" .ipfs (.success 100), .call "https://fast.example" .ipfs .failure,
    .read 0, .read 1, .read 0, .setCount 1, .setAverage 0, .setCount 0,
    .call "https://slow.example" .ipfs (.success 200), .read 2, .read 2, .setCount 2, .setAverage 2]

theorem exact_of_three_calls : ∃ s, Run step Ok State.init threeCalls s ∧
    (∀ url type, Exact s url type) ∧
    ∃ sorted, sortGatewaysAccordingToScore stableSort s.storage twoGateways .ipfs = .ok sorted ∧
      sorted.Perm twoGateways.ipfsGateways ∧
      (BestFirst s.storage .ipfs sorted ↔ BestFirst s.storage .ipfs twoGateways.ipfsGateways) := by
  have hrun : ∃ s, Run step Ok State.init threeCalls s ∧ ∀ call ∈ s.calls, call.Returned := by
    refine ⟨_, .cons trivial rfl <| .cons trivial rfl <| .cons (ok_read rfl ?_) rfl <|
      .cons (ok_read rfl ?_) rfl <| .cons (ok_read rfl ?_) rfl <| .cons trivial rfl <|
      .cons trivial rfl <| .cons trivial rfl <| .cons trivial rfl <| .cons (ok_read rfl ?_) rfl <|
      .cons (ok_read rfl ?_) rfl <| .cons trivial rfl <| .cons trivial rfl <| .nil _, ?_⟩
    all_goals decide
  obtain ⟨s, hrun, hreturned⟩ := hrun
  exact ⟨s, hrun, exact_and_bestFirst hrun hreturned (fun _ _ => rfl) rfl⟩

/-- Two failures are recorded at once and one is lost; and the gateway that failed stays first. -/
theorem not_exact_of_overlap :
    ∃ s, Run step anyStep State.init [.call "https://slow.example" .ipfs .failure,
        .call "https://slow.example" .ipfs .failure, .read 0, .read 1, .setCount 0, .setCount 1] s ∧
      (∀ call ∈ s.calls, call.Returned) ∧
      s.failures "https://slow.example" .ipfs = 2 ∧
      s.storage.getItem ⟨.countFailure, "https://slow.example", .ipfs⟩ = 1 ∧
      ¬ Exact s "https://slow.example" .ipfs ∧
      ∃ sorted, sortGatewaysAccordingToScore stableSort s.storage twoGateways .ipfs = .ok sorted ∧
        ¬ BestFirst s.storage .ipfs sorted := by
  refine ⟨_, Run.of_exec rfl, ?_⟩
  generalize hs : State.mk _ _ = s
  have hstored : s.storage.getItem ⟨.countFailure, "https://slow.example", .ipfs⟩ = 1 := by
    subst hs
    refine getItem_setItem_self.trans ?_
    exact zero_add 1
  have hothers : ∀ key : Key, key ≠ ⟨.countFailure, "https://slow.example", .ipfs⟩ →
      s.storage.getItem key = 0 := by
    intro key hkey
    subst hs
    exact (getItem_setItem_of_ne hkey).trans (getItem_setItem_of_ne hkey)
  have hfailures : s.failures "https://slow.example" .ipfs = 2 := by
    subst hs
    decide
  have hreturned : ∀ call ∈ s.calls, call.Returned := by
    subst hs
    decide
  refine ⟨hreturned, hfailures, hstored, fun hexact => ?_, _,
    sortGatewaysAccordingToScore_eq (fun _ _ => rfl) rfl, fun hbest => ?_⟩
  · have hcount := hexact.failures
    rw [hstored, hfailures] at hcount
    norm_num at hcount
  · have hfirst := (List.pairwise_cons.1 hbest).1 "https://fast.example" (by simp)
    simp only [score, hstored, hothers _ (by decide : (⟨.countSuccess, "https://slow.example",
      .ipfs⟩ : Key) ≠ _), hothers _ (by decide : (⟨.averageSuccess, "https://slow.example",
      .ipfs⟩ : Key) ≠ _), hothers _ (by decide : (⟨.countFailure, "https://fast.example",
      .ipfs⟩ : Key) ≠ _), hothers _ (by decide : (⟨.countSuccess, "https://fast.example",
      .ipfs⟩ : Key) ≠ _), hothers _ (by decide : (⟨.averageSuccess, "https://fast.example",
      .ipfs⟩ : Key) ≠ _), gatewayScore] at hfirst
    norm_num at hfirst

end Stats
end Pkc
