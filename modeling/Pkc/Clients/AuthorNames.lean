import Mathlib.Data.Finset.Basic
import Mathlib.Data.List.Nodup
import Pkc.Library.Runs

/-!
# Resolving the names of authors

Whoever shows comments asks for the names of their authors to be resolved, and is told when there is
something new to show.  The verdicts, the resolves that are under way and those that failed lately
are shared by all who ask; what is shown, and the signal that ends it, are each caller's own.

* `collect` is what a call starts, `resolveOne` what a resolve does between two awaits, and `step`
  what may happen: calls, aborts, steps of the resolves, callbacks, and entries that lapse from the
  caches.
* `Inv` holds in every state: a name is only said not to be the signer's if a resolver answered so,
  and no two resolves are under way for one name and signer.
* A call whose name is being resolved for somebody else is dropped.  `Ok` is the guard that nobody
  asks for what somebody else has asked for and has no verdict, and `Told` what holds then: who is
  owed a callback gets it.
* `told_who_asked` is all of it together.
-/

set_option autoImplicit false

namespace Pkc
namespace AuthorNames

open Runs

/-! ## Names and resolvers -/

structure NameResolver where
  key : String
  provider : String
  canResolve : String → Bool

/-- The code around. -/
structure Env where
  nameResolvers : List NameResolver
  sha256 : String → String
  isIpns : String → Bool
  /-- `none` is that it throws. -/
  getPKCAddressFromPublicKey : String → Option String

structure Author where
  authorName : String
  signaturePublicKey : String
deriving DecidableEq, Repr

def isStringDomain (address : String) : Bool := address.toList.contains '.'

def canResolveName (env : Env) (name : String) : Bool :=
  env.nameResolvers.any fun nameResolver => nameResolver.canResolve name

def cacheKey (env : Env) (author : Author) : String :=
  env.sha256 (author.authorName ++ author.signaturePublicKey)

/-- What a resolver has said of a name; `none` is that there is no record. -/
structure Answer where
  resolverKey : String
  provider : String
  name : String
  record : Option String
deriving DecidableEq, Repr

/-! ## One resolve -/

inductive Phase
  /-- Behind the limit. -/
  | queued
  /-- At the resolvers that are left. -/
  | looking (rest : List NameResolver) (anyResolverAnswered : Bool)
  | asking (nameResolver : NameResolver) (rest : List NameResolver) (anyResolverAnswered : Bool)
  | resolvedTo (record : String)
  | settled (newlySet : Bool)

structure Resolve where
  caller : Nat
  author : Author
  phase : Phase

inductive Reply
  | record (publicKey : String)
  | noRecord
  | error
  /-- An abort error of the resolver's own. -/
  | abort

/-- What a resolve waits for. -/
inductive Event
  | start
  /-- The lookup in the persistent cache. -/
  | look (cached : Option String)
  | reply (reply : Reply)
  | conclude

inductive Outcome
  | goOn (phase : Phase) (answer : Option Answer)
  /-- Without a verdict; `failed` if nobody is to ask again soon. -/
  | giveUp (failed : Bool)
  | verdict (value : Bool)

/-- `_resolveViaNameResolvers` at the resolvers that are left. -/
def lookUp (answers : List Answer) (aborted : Bool) (name : String) (rest : List NameResolver)
    (anyResolverAnswered : Bool) (cached : Option String) : Option Outcome :=
  match rest.dropWhile fun nameResolver => !nameResolver.canResolve name with
  -- no record, or nobody could say
  | [] => some (if anyResolverAnswered then .verdict false else .giveUp true)
  | nameResolver :: rest =>
    match cached with
    | some record =>
      -- the cache has what was answered at some time
      if ⟨nameResolver.key, nameResolver.provider, name, some record⟩ ∈ answers then
        some (.goOn (.resolvedTo record) none)
      else none
    | none =>
      some (if aborted then .giveUp false
        else .goOn (.asking nameResolver rest anyResolverAnswered) none)

def hear (aborted : Bool) (name : String) (nameResolver : NameResolver) (rest : List NameResolver)
    (anyResolverAnswered : Bool) (reply : Reply) : Outcome :=
  if aborted then .giveUp false
  else
    let answer (record : Option String) : Answer :=
      ⟨nameResolver.key, nameResolver.provider, name, record⟩
    match reply with
    | .record publicKey =>
      if publicKey = "" then .goOn (.looking rest true) (some (answer none))
      else .goOn (.resolvedTo publicKey) (some (answer (some publicKey)))
    | .noRecord => .goOn (.looking rest true) (some (answer none))
    | .error => .goOn (.looking rest anyResolverAnswered) none
    | .abort => .giveUp false

/-- `resolveOne` up to the next await; `answers` is what the persistent cache may have. -/
def resolveOne (env : Env) (answers : List Answer) (aborted : Bool) (resolve : Resolve) :
    Event → Option Outcome
  | .start =>
    match resolve.phase with
    | .queued =>
      some (if aborted then .giveUp false else .goOn (.looking env.nameResolvers false) none)
    | _ => none
  | .look cached =>
    match resolve.phase with
    | .looking rest anyResolverAnswered =>
      lookUp answers aborted resolve.author.authorName rest anyResolverAnswered cached
    | _ => none
  | .reply reply =>
    match resolve.phase with
    | .asking nameResolver rest anyResolverAnswered =>
      some (hear aborted resolve.author.authorName nameResolver rest anyResolverAnswered reply)
    | _ => none
  | .conclude =>
    match resolve.phase with
    | .resolvedTo resolved =>
      -- `ERR_RESOLVED_TEXT_RECORD_TO_NON_IPNS`
      if !env.isIpns resolved then some (.verdict false)
      else
        match env.getPKCAddressFromPublicKey resolve.author.signaturePublicKey with
        | some signerAddress => some (.verdict (resolved = signerAddress))
        | none => some (.giveUp true)
    | _ => none

/-! ## All calls -/

structure Call where
  /-- The names and signers that it asks for. -/
  asked : List String
  aborted : Bool
  /-- Its resolves have settled and it has been told, if there is something new. -/
  finished : Bool
  /-- History: a verdict it asked for was cached, and `onResolved` has not run since. -/
  owed : Bool

structure State where
  nameResolvedCache : String → Option Bool
  nameResolveFailedCache : String → Bool
  authorNameResolvesInFlight : Finset String
  /-- What the resolvers have answered, also in earlier sessions. -/
  answers : List Answer
  resolves : List Resolve
  calls : Nat → Call
  /-- How many calls there were. -/
  count : Nat

def init (answers : List Answer) : State where
  nameResolvedCache := fun _ => none
  nameResolveFailedCache := fun _ => false
  authorNameResolvesInFlight := ∅
  answers := answers
  resolves := []
  calls := fun _ => ⟨[], false, true, false⟩
  count := 0

/-- What a call resolves, and what is in flight then. -/
def collect (env : Env) (s : State) (caller : Nat) :
    List Author → List String → Finset String → List Resolve × Finset String
  | [], _, inFlight => ([], inFlight)
  | author :: authors, seen, inFlight =>
    let key := cacheKey env author
    if !isStringDomain author.authorName then collect env s caller authors seen inFlight
    else if !canResolveName env author.authorName then collect env s caller authors seen inFlight
    else if key ∈ seen then collect env s caller authors seen inFlight
    else if (s.nameResolvedCache key).isSome then
      collect env s caller authors (key :: seen) inFlight
    else if key ∈ inFlight then collect env s caller authors (key :: seen) inFlight
    else if s.nameResolveFailedCache key then collect env s caller authors (key :: seen) inFlight
    else
      let rest := collect env s caller authors (key :: seen) (insert key inFlight)
      (⟨caller, author, .queued⟩ :: rest.1, rest.2)

/-- The authors with a name that somebody can resolve. -/
def asks (env : Env) (author : Author) : Bool :=
  isStringDomain author.authorName && canResolveName env author.authorName

def resolveAuthorNamesInBackground (env : Env) (authors : List Author) (aborted : Bool)
    (s : State) : State :=
  let collected := collect env s s.count authors [] s.authorNameResolvesInFlight
  { s with
    authorNameResolvesInFlight := collected.2
    resolves := s.resolves ++ collected.1
    calls := Function.update s.calls s.count
      ⟨(authors.filter (asks env)).map (cacheKey env), aborted, collected.1.isEmpty, false⟩
    count := s.count + 1 }

/-- Whoever has asked for the verdict is owed a callback. -/
def setVerdict (key : String) (verdict : Bool) (s : State) : State :=
  { s with
    nameResolvedCache := Function.update s.nameResolvedCache key (some verdict)
    calls := fun c =>
      if key ∈ (s.calls c).asked then { s.calls c with owed := true } else s.calls c }

def settle (env : Env) (i : Nat) (resolve : Resolve) (newlySet : Bool) (s : State) : State :=
  { s with
    resolves := s.resolves.set i { resolve with phase := .settled newlySet }
    authorNameResolvesInFlight :=
      s.authorNameResolvesInFlight.erase (cacheKey env resolve.author) }

def apply (env : Env) (i : Nat) (resolve : Resolve) (s : State) : Outcome → State
  | .goOn phase answer =>
    { s with
      resolves := s.resolves.set i { resolve with phase := phase }
      answers := answer.toList ++ s.answers }
  | .giveUp failed =>
    let s := if failed then
        { s with nameResolveFailedCache :=
            Function.update s.nameResolveFailedCache (cacheKey env resolve.author) true }
      else s
    settle env i resolve false s
  | .verdict value =>
    settle env i resolve true (setVerdict (cacheKey env resolve.author) value s)

def Resolve.outstanding (resolve : Resolve) : Bool :=
  match resolve.phase with
  | .settled _ => false
  | _ => true

def Resolve.isNewlySet (resolve : Resolve) : Bool :=
  match resolve.phase with
  | .settled newlySet => newlySet
  | _ => false

inductive Action
  | call (authors : List Author) (aborted : Bool)
  | abort (c : Nat)
  | resolve (i : Nat) (event : Event)
  /-- All resolves of the call have settled. -/
  | finish (c : Nat)
  | forgetVerdict (key : String)
  | forgetFailure (key : String)

def State.setCall (s : State) (c : Nat) (call : Call) : State :=
  { s with calls := Function.update s.calls c call }

def step (env : Env) (s : State) : Action → Option State
  | .call authors aborted => some (resolveAuthorNamesInBackground env authors aborted s)
  | .abort c =>
    if c < s.count then some (s.setCall c { s.calls c with aborted := true }) else none
  | .resolve i event => do
    let resolve ← s.resolves[i]?
    let outcome ← resolveOne env s.answers (s.calls resolve.caller).aborted resolve event
    some (apply env i resolve s outcome)
  | .finish c =>
    let own := s.resolves.filter fun resolve => resolve.caller = c
    if (s.calls c).finished = false ∧ own.all (fun resolve => !resolve.outstanding) then
      some (s.setCall c { s.calls c with
        finished := true
        owed := (s.calls c).owed && !own.any Resolve.isNewlySet })
    else none
  | .forgetVerdict key =>
    some { s with nameResolvedCache := Function.update s.nameResolvedCache key none }
  | .forgetFailure key =>
    some { s with nameResolveFailedCache := Function.update s.nameResolveFailedCache key false }

/-! ## What everybody relies on -/

/-- A resolver that can handle the name has answered. -/
def Answered (env : Env) (answers : List Answer) (name : String) (record : Option String) : Prop :=
  ∃ nameResolver ∈ env.nameResolvers, nameResolver.canResolve name ∧
    ⟨nameResolver.key, nameResolver.provider, name, record⟩ ∈ answers

/-- The record is the key of the signer. -/
def IsSignersKey (env : Env) (author : Author) (record : Option String) : Prop :=
  ∃ address, record = some address ∧ env.isIpns address ∧
    env.getPKCAddressFromPublicKey author.signaturePublicKey = some address

/-- A resolver has answered that the name is not the signer's. -/
def Denied (env : Env) (answers : List Answer) (author : Author) : Prop :=
  ∃ record, Answered env answers author.authorName record ∧ ¬ IsSignersKey env author record

def outstandingKeys (env : Env) (resolves : List Resolve) : List String :=
  (resolves.filter Resolve.outstanding).map fun resolve => cacheKey env resolve.author

structure Sound (env : Env) (s : State) : Prop where
  denied : ∀ key, s.nameResolvedCache key = some false →
    ∃ author, cacheKey env author = key ∧ Denied env s.answers author
  single : (outstandingKeys env s.resolves).Nodup
  emptied : (∀ resolve ∈ s.resolves, resolve.outstanding = false) →
    s.authorNameResolvesInFlight = ∅
  told : (∀ c, (s.calls c).finished = true) →
    ∀ c, (s.calls c).aborted = false → (s.calls c).owed = false

/-- Nobody asks for a name without a verdict that is being resolved, or that somebody who has not
aborted has asked for. -/
def Ok (env : Env) (s : State) : Action → Prop
  | .call authors _ => ∀ author ∈ authors, asks env author →
    s.nameResolvedCache (cacheKey env author) = none →
      cacheKey env author ∉ s.authorNameResolvesInFlight ∧
        ∀ c, (s.calls c).aborted = false → cacheKey env author ∉ (s.calls c).asked
  | _ => True

/-! ## The resolves of a call -/

section Calls

variable {env : Env} {s : State} {caller : Nat} {authors : List Author} {seen : List String}
  {inFlight : Finset String} {resolves : List Resolve}

def Resolve.key (env : Env) (resolve : Resolve) : String := cacheKey env resolve.author

/-- What a call starts: names without a verdict that are not in flight, each once. -/
structure Collected (env : Env) (s : State) (caller : Nat) (authors : List Author)
    (inFlight : Finset String) (collected : List Resolve × Finset String) : Prop where
  caller : ∀ resolve ∈ collected.1, resolve.caller = caller ∧ resolve.phase = .queued
  asked : ∀ resolve ∈ collected.1, resolve.author ∈ authors ∧ asks env resolve.author
  fresh : ∀ resolve ∈ collected.1, s.nameResolvedCache (resolve.key env) = none ∧
    resolve.key env ∉ inFlight
  nodup : (collected.1.map (Resolve.key env)).Nodup
  inFlight : ∀ key, key ∈ collected.2 ↔ key ∈ inFlight ∨ key ∈ collected.1.map (Resolve.key env)

theorem Collected.skip {collected : List Resolve × Finset String} {author : Author}
    (h : Collected env s caller authors inFlight collected) :
    Collected env s caller (author :: authors) inFlight collected :=
  { h with asked := fun resolve hmem =>
      ⟨List.mem_cons_of_mem author (h.asked resolve hmem).1, (h.asked resolve hmem).2⟩ }

theorem Collected.cons {collected : List Resolve × Finset String} {author : Author}
    (hasks : asks env author) (hnone : s.nameResolvedCache (cacheKey env author) = none)
    (hnot : cacheKey env author ∉ inFlight)
    (h : Collected env s caller authors (insert (cacheKey env author) inFlight) collected) :
    Collected env s caller (author :: authors) inFlight
      (⟨caller, author, .queued⟩ :: collected.1, collected.2) where
  caller := List.forall_mem_cons.2 ⟨⟨rfl, rfl⟩, h.caller⟩
  asked := List.forall_mem_cons.2 ⟨⟨List.mem_cons_self, hasks⟩, h.skip.asked⟩
  fresh := List.forall_mem_cons.2 ⟨⟨hnone, hnot⟩, fun resolve hmem => ⟨(h.fresh resolve hmem).1,
    fun hold => (h.fresh resolve hmem).2 (Finset.mem_insert_of_mem hold)⟩⟩
  nodup := by
    refine List.nodup_cons.2 ⟨fun hmem => ?_, h.nodup⟩
    obtain ⟨resolve, hresolve, hkey⟩ := List.mem_map.1 hmem
    exact (h.fresh resolve hresolve).2 (hkey ▸ Finset.mem_insert_self _ _)
  inFlight key := by
    have hhead : (⟨caller, author, .queued⟩ : Resolve).key env = cacheKey env author := rfl
    rw [h.inFlight, Finset.mem_insert, List.map_cons, List.mem_cons, hhead]
    grind

theorem collected_collect (env : Env) (s : State) (caller : Nat) (authors : List Author)
    (seen : List String) (inFlight : Finset String) :
    Collected env s caller authors inFlight (collect env s caller authors seen inFlight) := by
  induction authors generalizing seen inFlight with
  | nil => exact ⟨by simp [collect], by simp [collect], by simp [collect], List.nodup_nil,
      by simp [collect]⟩
  | cons author authors ih =>
    rw [collect]
    dsimp only
    split
    · exact (ih _ _).skip
    split
    · exact (ih _ _).skip
    split
    · exact (ih _ _).skip
    split
    · exact (ih _ _).skip
    split
    · exact (ih _ _).skip
    split
    · exact (ih _ _).skip
    rename_i hdomain hcan _ hnone hnot _
    refine Collected.cons ?_ ?_ hnot (ih _ _)
    · rw [Bool.not_eq_true, Bool.not_eq_false'] at hdomain hcan
      rw [asks, hdomain, hcan, Bool.and_self]
    · simpa using hnone

/-! ## What a resolve does -/

variable {answers answers' : List Answer} {resolve : Resolve} {event : Event} {aborted : Bool}

theorem Answered.mono {name : String} {record : Option String} (hsub : answers ⊆ answers')
    (h : Answered env answers name record) : Answered env answers' name record := by
  obtain ⟨nameResolver, hmem, hcan, hanswer⟩ := h
  exact ⟨nameResolver, hmem, hcan, hsub hanswer⟩

/-- What a resolve has heard so far. -/
def Heard (env : Env) (answers : List Answer) (resolve : Resolve) : Prop :=
  match resolve.phase with
  | .looking rest anyResolverAnswered =>
    rest ⊆ env.nameResolvers ∧
      (anyResolverAnswered → Answered env answers resolve.author.authorName none)
  | .asking nameResolver rest anyResolverAnswered =>
    nameResolver ∈ env.nameResolvers ∧ nameResolver.canResolve resolve.author.authorName ∧
      rest ⊆ env.nameResolvers ∧
      (anyResolverAnswered → Answered env answers resolve.author.authorName none)
  | .resolvedTo record => Answered env answers resolve.author.authorName (some record)
  | _ => True

theorem Heard.mono (hsub : answers ⊆ answers') (h : Heard env answers resolve) :
    Heard env answers' resolve := by
  obtain ⟨caller, author, phase⟩ := resolve
  cases phase with
  | looking rest anyResolverAnswered => exact ⟨h.1, fun hany => (h.2 hany).mono hsub⟩
  | asking nameResolver rest anyResolverAnswered =>
    exact ⟨h.1, h.2.1, h.2.2.1, fun hany => (h.2.2.2 hany).mono hsub⟩
  | resolvedTo record => exact Answered.mono hsub h
  | _ => trivial

/-- **What a resolve leads to.**  It goes on with what it has heard, and says no only after a
resolver has. -/
def Justified (env : Env) (answers : List Answer) (resolve : Resolve) : Outcome → Prop
  | .goOn phase answer =>
    Resolve.outstanding { resolve with phase := phase } ∧
      Heard env (answer.toList ++ answers) { resolve with phase := phase }
  | .giveUp _ => True
  | .verdict value => value = false → Denied env answers resolve.author

theorem denied_of_none {author : Author} (h : Answered env answers author.authorName none) :
    Denied env answers author :=
  ⟨none, h, by rintro ⟨address, ⟨⟩, -⟩⟩

theorem justified_lookUp {rest : List NameResolver} {anyResolverAnswered : Bool}
    {cached : Option String} {outcome : Outcome} (hrest : rest ⊆ env.nameResolvers)
    (hany : anyResolverAnswered → Answered env answers resolve.author.authorName none)
    (h : lookUp answers aborted resolve.author.authorName rest anyResolverAnswered cached
      = some outcome) : Justified env answers resolve outcome := by
  rw [lookUp] at h
  split at h
  · cases h
    split
    · rename_i hanswered
      exact fun _ => denied_of_none (hany hanswered)
    · trivial
  rename_i nameResolver left hleft
  have hsub : nameResolver :: left ⊆ env.nameResolvers :=
    hleft ▸ List.Subset.trans (List.dropWhile_subset _) hrest
  have hcan : nameResolver.canResolve resolve.author.authorName := by
    have hhead := List.head?_dropWhile_not (fun nameResolver : NameResolver =>
      !nameResolver.canResolve resolve.author.authorName) rest
    rw [hleft] at hhead
    simpa using hhead
  split at h
  · rename_i record
    obtain ⟨hanswer, hs⟩ := Option.ite_none_right_eq_some.1 h
    cases hs
    exact ⟨rfl, nameResolver, hsub List.mem_cons_self, hcan, hanswer⟩
  · cases h
    split
    · trivial
    · exact ⟨rfl, hsub List.mem_cons_self, hcan,
        fun other hother => hsub (List.mem_cons_of_mem _ hother), hany⟩

theorem justified_hear {nameResolver : NameResolver} {rest : List NameResolver}
    {anyResolverAnswered : Bool} {reply : Reply} (hmem : nameResolver ∈ env.nameResolvers)
    (hcan : nameResolver.canResolve resolve.author.authorName) (hrest : rest ⊆ env.nameResolvers)
    (hany : anyResolverAnswered → Answered env answers resolve.author.authorName none) :
    Justified env answers resolve (hear aborted resolve.author.authorName nameResolver rest
      anyResolverAnswered reply) := by
  have hanswered : ∀ record, Answered env
      (⟨nameResolver.key, nameResolver.provider, resolve.author.authorName, record⟩ :: answers)
      resolve.author.authorName record := fun record =>
    ⟨nameResolver, hmem, hcan, List.mem_cons_self⟩
  rw [hear]
  split
  · trivial
  cases reply with
  | record publicKey =>
    dsimp only
    split
    · exact ⟨rfl, hrest, fun _ => hanswered none⟩
    · exact ⟨rfl, hanswered (some publicKey)⟩
  | noRecord => exact ⟨rfl, hrest, fun _ => hanswered none⟩
  | error => exact ⟨rfl, hrest, hany⟩
  | abort => trivial

theorem justified_resolveOne {outcome : Outcome} (hheard : Heard env answers resolve)
    (h : resolveOne env answers aborted resolve event = some outcome) :
    Justified env answers resolve outcome := by
  obtain ⟨caller, author, phase⟩ := resolve
  cases event with
  | start =>
    cases phase with
    | queued =>
      cases h
      split
      · trivial
      · exact ⟨rfl, List.Subset.refl _, by simp⟩
    | _ => cases h
  | look cached =>
    cases phase with
    | looking rest anyResolverAnswered => exact justified_lookUp hheard.1 hheard.2 h
    | _ => cases h
  | reply reply =>
    cases phase with
    | asking nameResolver rest anyResolverAnswered =>
      cases h
      exact justified_hear hheard.1 hheard.2.1 hheard.2.2.1 hheard.2.2.2
    | _ => cases h
  | conclude =>
    cases phase with
    | resolvedTo resolved =>
      simp only [resolveOne] at h
      split at h
      · rename_i hnotKey
        cases h
        refine fun _ => ⟨some resolved, hheard, ?_⟩
        rintro ⟨address, ⟨⟩, hkey, -⟩
        simp [hkey] at hnotKey
      split at h
      · rename_i signerAddress haddress
        cases h
        intro hvalue
        refine ⟨some resolved, hheard, ?_⟩
        rintro ⟨address, ⟨⟩, -, hsame⟩
        have hne : resolved ≠ signerAddress := by simpa using hvalue
        exact hne (Option.some.inj (hsame.symm.trans haddress))
      · cases h
        trivial
    | _ => cases h

/-- A resolve that does something is under way. -/
theorem outstanding_of_resolveOne {outcome : Outcome}
    (h : resolveOne env answers aborted resolve event = some outcome) : resolve.outstanding := by
  obtain ⟨caller, author, phase⟩ := resolve
  cases phase with
  | settled newlySet => cases event <;> cases h
  | _ => rfl

end Calls

/-! ## Every state -/

section Steps

variable {env : Env} {s s' : State} {resolve : Resolve} {before after : List Resolve} {i : Nat}
  {key : String}

theorem outstandingKeys_append (env : Env) (resolves resolves' : List Resolve) :
    outstandingKeys env (resolves ++ resolves') =
      outstandingKeys env resolves ++ outstandingKeys env resolves' := by
  rw [outstandingKeys, List.filter_append, List.map_append]
  rfl

theorem outstandingKeys_cons_of_pos (h : resolve.outstanding) :
    outstandingKeys env (resolve :: after) =
      resolve.key env :: outstandingKeys env after := by
  rw [outstandingKeys, List.filter_cons_of_pos h]
  rfl

theorem outstandingKeys_cons_of_neg (h : resolve.outstanding = false) :
    outstandingKeys env (resolve :: after) = outstandingKeys env after := by
  rw [outstandingKeys, List.filter_cons_of_neg (by simp [h])]
  rfl

theorem mem_outstandingKeys {resolves : List Resolve} :
    key ∈ outstandingKeys env resolves ↔
      ∃ resolve ∈ resolves, resolve.outstanding ∧ resolve.key env = key := by
  simp only [outstandingKeys, List.mem_map, List.mem_filter, and_assoc]
  rfl

/-- A resolve at its place among the others. -/
theorem exists_split {resolves : List Resolve} (h : resolves[i]? = some resolve) :
    ∃ before after, resolves = before ++ resolve :: after ∧
      ∀ resolve', resolves.set i resolve' = before ++ resolve' :: after := by
  obtain ⟨hlt, rfl⟩ := List.getElem?_eq_some_iff.1 h
  refine ⟨resolves.take i, resolves.drop (i + 1), ?_, fun resolve' => ?_⟩
  · rw [← List.drop_eq_getElem_cons hlt, List.take_append_drop]
  · rw [List.set_eq_take_append_cons_drop, if_pos hlt]

/-- What holds in every state. -/
structure Inv (env : Env) (s : State) : Prop where
  inFlight : ∀ key, key ∈ s.authorNameResolvesInFlight ↔ key ∈ outstandingKeys env s.resolves
  single : (outstandingKeys env s.resolves).Nodup
  /-- Only a name without a verdict is resolved. -/
  unknown : ∀ key ∈ s.authorNameResolvesInFlight, s.nameResolvedCache key = none
  heard : ∀ resolve ∈ s.resolves, Heard env s.answers resolve
  denied : ∀ key, s.nameResolvedCache key = some false →
    ∃ author, cacheKey env author = key ∧ Denied env s.answers author

namespace Inv

theorem init (answers : List Answer) : Inv env (init answers) where
  inFlight key := by simp [AuthorNames.init, outstandingKeys]
  single := List.nodup_nil
  unknown key hkey := by simp [AuthorNames.init] at hkey
  heard resolve hmem := by cases hmem
  denied key hkey := by cases hkey

theorem call (h : Inv env s) (authors : List Author) (aborted : Bool) :
    Inv env (resolveAuthorNamesInBackground env authors aborted s) := by
  have hcollected :=
    collected_collect env s s.count authors [] s.authorNameResolvesInFlight
  rw [resolveAuthorNamesInBackground]
  generalize collect env s s.count authors [] s.authorNameResolvesInFlight = collected at *
  have hkeys : outstandingKeys env collected.1 = collected.1.map (Resolve.key env) := by
    rw [outstandingKeys, List.filter_eq_self.2]
    · rfl
    · intro resolve hmem
      rw [Resolve.outstanding, (hcollected.caller resolve hmem).2]
  constructor
  case inFlight =>
    intro key
    simp only [hcollected.inFlight, outstandingKeys_append, List.mem_append, hkeys, h.inFlight]
  case single =>
    simp only [outstandingKeys_append, hkeys]
    refine List.Nodup.append h.single hcollected.nodup fun key hold hnew => ?_
    obtain ⟨resolve, hmem, rfl⟩ := List.mem_map.1 hnew
    exact (hcollected.fresh resolve hmem).2 ((h.inFlight _).2 hold)
  case unknown =>
    intro key hkey
    rcases (hcollected.inFlight key).1 hkey with hold | hnew
    · exact h.unknown key hold
    · obtain ⟨resolve, hmem, rfl⟩ := List.mem_map.1 hnew
      exact (hcollected.fresh resolve hmem).1
  case heard =>
    intro resolve hmem
    rcases List.mem_append.1 hmem with hold | hnew
    · exact h.heard resolve hold
    · rw [Heard, (hcollected.caller resolve hnew).2]
      trivial
  case denied => exact h.denied

theorem settle (h : Inv env s) (hresolve : s.resolves[i]? = some resolve)
    (hout : resolve.outstanding) (newlySet : Bool) :
    Inv env (settle env i resolve newlySet s) := by
  obtain ⟨before, after, hsplit, hset⟩ := exists_split hresolve
  have hsingle := h.single
  have hflight := h.inFlight
  have hheard := h.heard
  rw [hsplit] at hsingle hheard
  simp only [hsplit, outstandingKeys_append, outstandingKeys_cons_of_pos hout] at hsingle hflight
  have hnodup := (List.perm_middle.nodup_iff.1 hsingle)
  obtain ⟨hnot, hrest⟩ := List.nodup_cons.1 hnodup
  have hkeys : outstandingKeys env
      (before ++ { resolve with phase := .settled newlySet } :: after) =
      outstandingKeys env before ++ outstandingKeys env after := by
    rw [outstandingKeys_append, outstandingKeys_cons_of_neg rfl]
  rw [AuthorNames.settle, hset]
  constructor
  case inFlight =>
    intro key
    have hmem := hflight key
    rw [List.perm_middle.mem_iff, List.mem_cons] at hmem
    simp only [hkeys, Finset.mem_erase, hmem]
    constructor
    · rintro ⟨hne, rfl | hkey⟩
      · exact absurd rfl hne
      · exact hkey
    · intro hkey
      refine ⟨?_, .inr hkey⟩
      rintro rfl
      exact hnot hkey
  case single => simpa only [hkeys] using hrest
  case unknown => exact fun key hkey => h.unknown key (Finset.mem_of_mem_erase hkey)
  case heard =>
    intro other hmem
    rcases List.mem_append.1 hmem with hbefore | hcons
    · exact hheard other (List.mem_append_left _ hbefore)
    · rcases List.mem_cons.1 hcons with rfl | hafter
      · trivial
      · exact hheard other (List.mem_append_right _ (List.mem_cons_of_mem _ hafter))
  case denied => exact h.denied

theorem goOn (h : Inv env s) (hresolve : s.resolves[i]? = some resolve)
    (hout : resolve.outstanding) {phase : Phase} {answer : Option Answer}
    (hjustified : Justified env s.answers resolve (.goOn phase answer)) :
    Inv env (apply env i resolve s (.goOn phase answer)) := by
  obtain ⟨before, after, hsplit, hset⟩ := exists_split hresolve
  have hheard := h.heard
  rw [hsplit] at hheard
  have hgrown : s.answers ⊆ answer.toList ++ s.answers := List.subset_append_right _ _
  have hkeys : outstandingKeys env (before ++ { resolve with phase := phase } :: after) =
      outstandingKeys env s.resolves := by
    rw [hsplit, outstandingKeys_append, outstandingKeys_append, outstandingKeys_cons_of_pos hout,
      outstandingKeys_cons_of_pos hjustified.1]
    rfl
  rw [apply, hset]
  constructor
  case inFlight =>
    intro key
    simp only [hkeys]
    exact h.inFlight key
  case single => simpa only [hkeys] using h.single
  case unknown => exact h.unknown
  case heard =>
    intro other hmem
    rcases List.mem_append.1 hmem with hbefore | hcons
    · exact (hheard other (List.mem_append_left _ hbefore)).mono hgrown
    · rcases List.mem_cons.1 hcons with rfl | hafter
      · exact hjustified.2
      · exact (hheard other (List.mem_append_right _ (List.mem_cons_of_mem _ hafter))).mono hgrown
  case denied =>
    intro key hkey
    obtain ⟨author, hauthor, record, hanswered, hnot⟩ := h.denied key hkey
    exact ⟨author, hauthor, record, hanswered.mono hgrown, hnot⟩

theorem setVerdict (h : Inv env s) {verdict : Bool} {author : Author}
    (hnot : cacheKey env author ∉ s.authorNameResolvesInFlight)
    (hdenied : verdict = false → Denied env s.answers author) :
    Inv env (setVerdict (cacheKey env author) verdict s) := by
  refine { h with unknown := fun key hkey => ?_, denied := fun key hkey => ?_ }
  · have hne : key ≠ cacheKey env author := by
      rintro rfl
      exact hnot hkey
    exact (Function.update_of_ne hne _ _).trans (h.unknown key hkey)
  · by_cases heq : key = cacheKey env author
    · subst heq
      have hvalue := (Function.update_self _ _ _).symm.trans hkey
      exact ⟨author, rfl, hdenied (Option.some.inj hvalue)⟩
    · exact h.denied key ((Function.update_of_ne heq _ _).symm.trans hkey)

theorem proceed {event : Event} (h : Inv env s)
    (hstep : step env s (.resolve i event) = some s') : Inv env s' := by
  obtain ⟨resolve, hresolve, hstep⟩ := Option.bind_eq_some_iff.1 hstep
  obtain ⟨outcome, houtcome, hs⟩ := Option.bind_eq_some_iff.1 hstep
  cases hs
  have hout := outstanding_of_resolveOne houtcome
  have hjustified :=
    justified_resolveOne (h.heard resolve (List.mem_of_getElem? hresolve)) houtcome
  cases outcome with
  | goOn phase answer => exact h.goOn hresolve hout hjustified
  | giveUp failed =>
    cases failed with
    | true => exact { h.settle hresolve hout false with }
    | false => exact h.settle hresolve hout false
  | verdict value =>
    -- the verdict is not about anything that is still in flight
    exact (h.settle hresolve hout true).setVerdict (Finset.notMem_erase _ _) hjustified

theorem step (h : Inv env s) {a : Action} (hstep : step env s a = some s') : Inv env s' := by
  cases a with
  | call authors aborted =>
    cases hstep
    exact h.call authors aborted
  | abort c =>
    obtain ⟨-, hs⟩ := Option.ite_none_right_eq_some.1 hstep
    cases hs
    exact { h with }
  | resolve i event => exact h.proceed hstep
  | finish c =>
    obtain ⟨-, hs⟩ := Option.ite_none_right_eq_some.1 hstep
    cases hs
    exact { h with }
  | forgetVerdict key =>
    cases hstep
    refine { h with unknown := fun key' hkey => ?_, denied := fun key' hkey => ?_ }
    · by_cases heq : key' = key
      · rw [heq]
        exact Function.update_self _ _ _
      · exact (Function.update_of_ne heq _ _).trans (h.unknown key' hkey)
    · by_cases heq : key' = key
      · subst heq
        cases (Function.update_self _ _ _).symm.trans hkey
      · exact h.denied key' ((Function.update_of_ne heq _ _).symm.trans hkey)
  | forgetFailure key =>
    cases hstep
    exact { h with }

end Inv

/-! ## Who is owed a callback -/

theorem Resolve.not_outstanding_of_isNewlySet (h : resolve.isNewlySet) :
    resolve.outstanding = false := by
  obtain ⟨caller, author, phase⟩ := resolve
  cases phase with
  | settled newlySet => rfl
  | _ => cases h

/-- What holds if nobody asks for what somebody else is waiting for. -/
structure Told (env : Env) (s : State) : Prop where
  /-- Whoever waits for the name has started the resolve. -/
  alone : ∀ resolve ∈ s.resolves, resolve.outstanding → ∀ c, (s.calls c).aborted = false →
    resolve.key env ∈ (s.calls c).asked → c = resolve.caller
  waiting : ∀ resolve ∈ s.resolves, resolve.outstanding →
    (s.calls resolve.caller).finished = false
  /-- Whoever is owed a callback has a resolve of its own that came to a verdict. -/
  owed : ∀ c, (s.calls c).aborted = false → (s.calls c).owed →
    (s.calls c).finished = false ∧
      ∃ resolve ∈ s.resolves, resolve.caller = c ∧ resolve.isNewlySet
  counted : ∀ resolve ∈ s.resolves, resolve.caller < s.count

namespace Told

theorem init (answers : List Answer) : Told env (init answers) where
  alone resolve hmem := by cases hmem
  waiting resolve hmem := by cases hmem
  owed c _ howed := by cases howed
  counted resolve hmem := by cases hmem

theorem call (h : Told env s) (hinv : Inv env s) {authors : List Author} {aborted : Bool}
    (hok : Ok env s (.call authors aborted)) :
    Told env (resolveAuthorNamesInBackground env authors aborted s) := by
  have hcollected :=
    collected_collect env s s.count authors [] s.authorNameResolvesInFlight
  rw [resolveAuthorNamesInBackground]
  generalize collect env s s.count authors [] s.authorNameResolvesInFlight = collected at *
  have hother : ∀ resolve ∈ s.resolves, resolve.caller ≠ s.count := fun resolve hmem =>
    (h.counted resolve hmem).ne
  constructor
  case alone =>
    intro resolve hmem hout c haborted hasked
    rcases List.mem_append.1 hmem with hold | hnew
    · by_cases hc : c = s.count
      · -- the new call does not ask for what is in flight
        subst hc
        simp only [Function.update_self, List.mem_map, List.mem_filter] at hasked
        obtain ⟨author, ⟨hauthor, hasks⟩, hkey⟩ := hasked
        have hflight : cacheKey env author ∈ s.authorNameResolvesInFlight :=
          (hinv.inFlight _).2 (mem_outstandingKeys.2 ⟨resolve, hold, hout, hkey.symm⟩)
        exact absurd hflight (hok author hauthor hasks (hinv.unknown _ hflight)).1
      · simp only [Function.update_of_ne hc] at haborted hasked
        exact h.alone resolve hold hout c haborted hasked
    · rw [(hcollected.caller resolve hnew).1]
      by_contra hc
      simp only [Function.update_of_ne hc] at haborted hasked
      obtain ⟨hauthor, hasks⟩ := hcollected.asked resolve hnew
      have hnone := (hcollected.fresh resolve hnew).1
      exact (hok resolve.author hauthor hasks hnone).2 c haborted hasked
  case waiting =>
    intro resolve hmem hout
    rcases List.mem_append.1 hmem with hold | hnew
    · simp only [Function.update_of_ne (hother resolve hold)]
      exact h.waiting resolve hold hout
    · simp only [(hcollected.caller resolve hnew).1, Function.update_self,
        List.isEmpty_eq_false_iff_exists_mem]
      exact ⟨resolve, hnew⟩
  case owed =>
    intro c haborted howed
    by_cases hc : c = s.count
    · subst hc
      simp only [Function.update_self] at howed
      cases howed
    · simp only [Function.update_of_ne hc] at haborted howed ⊢
      obtain ⟨hfinished, resolve, hmem, hset⟩ := h.owed c haborted howed
      exact ⟨hfinished, resolve, List.mem_append_left _ hmem, hset⟩
  case counted =>
    intro resolve hmem
    rcases List.mem_append.1 hmem with hold | hnew
    · exact (h.counted resolve hold).trans s.count.lt_succ_self
    · simp only [(hcollected.caller resolve hnew).1]
      exact s.count.lt_succ_self

/-- A resolve has moved on, to another phase before its verdict or to its end. -/
theorem change (h : Told env s) (hresolve : s.resolves[i]? = some resolve)
    (hout : resolve.outstanding) {phase : Phase} (hs : s'.resolves =
      s.resolves.set i { resolve with phase := phase })
    (hcalls : s'.calls = s.calls) (hcount : s'.count = s.count) : Told env s' := by
  obtain ⟨before, after, hsplit, hset⟩ := exists_split hresolve
  have hmem : ∀ other ∈ s'.resolves, other ∈ s.resolves ∨
      other = { resolve with phase := phase } := by
    intro other hother
    rw [hs] at hother
    exact List.mem_or_eq_of_mem_set hother
  have hself := List.mem_of_getElem? hresolve
  constructor
  case alone =>
    intro other hother houtstanding c
    rw [hcalls]
    rcases hmem other hother with hold | rfl
    · exact h.alone other hold houtstanding c
    · exact h.alone resolve hself hout c
  case waiting =>
    intro other hother houtstanding
    rw [hcalls]
    rcases hmem other hother with hold | rfl
    · exact h.waiting other hold houtstanding
    · exact h.waiting resolve hself hout
  case owed =>
    intro c haborted howed
    rw [hcalls] at haborted howed ⊢
    obtain ⟨hfinished, other, hother, hcaller, hnewlySet⟩ := h.owed c haborted howed
    refine ⟨hfinished, other, ?_, hcaller, hnewlySet⟩
    -- the one that has come to a verdict is not the one that moves
    have hne : other ≠ resolve := by
      rintro rfl
      rw [Resolve.not_outstanding_of_isNewlySet hnewlySet] at hout
      cases hout
    rw [hsplit] at hother
    rw [hs, hset]
    simp only [List.mem_append, List.mem_cons] at hother ⊢
    rcases hother with hbefore | heq | hafter
    · exact .inl hbefore
    · exact absurd heq hne
    · exact .inr (.inr hafter)
  case counted =>
    intro other hother
    rw [hcount]
    rcases hmem other hother with hold | rfl
    · exact h.counted other hold
    · exact h.counted resolve hself

/-- A verdict is due to whoever started the resolve, and to nobody else. -/
theorem verdict (h : Told env s) (hresolve : s.resolves[i]? = some resolve)
    (hout : resolve.outstanding) (value : Bool) :
    Told env (apply env i resolve s (.verdict value)) := by
  have hsettled : Told env (settle env i resolve true s) :=
    h.change hresolve hout rfl rfl rfl
  have hself := List.mem_of_getElem? hresolve
  obtain ⟨hlt, -⟩ := List.getElem?_eq_some_iff.1 hresolve
  have hcall : ∀ c, ((apply env i resolve s (.verdict value)).calls c).aborted =
      (s.calls c).aborted ∧ ((apply env i resolve s (.verdict value)).calls c).asked =
        (s.calls c).asked ∧ ((apply env i resolve s (.verdict value)).calls c).finished =
          (s.calls c).finished := by
    intro c
    simp only [apply, AuthorNames.settle, AuthorNames.setVerdict]
    split
    · exact ⟨rfl, rfl, rfl⟩
    · exact ⟨rfl, rfl, rfl⟩
  constructor
  case alone =>
    intro other hother houtstanding c haborted hasked
    rw [(hcall c).1] at haborted
    rw [(hcall c).2.1] at hasked
    exact hsettled.alone other hother houtstanding c haborted hasked
  case waiting =>
    intro other hother houtstanding
    rw [(hcall _).2.2]
    exact hsettled.waiting other hother houtstanding
  case owed =>
    intro c haborted howed
    rw [(hcall c).1] at haborted
    rw [(hcall c).2.2]
    by_cases hasked : resolve.key env ∈ (s.calls c).asked
    · obtain rfl := h.alone resolve hself hout c haborted hasked
      exact ⟨h.waiting resolve hself hout, { resolve with phase := .settled true },
        List.mem_set hlt _, rfl, rfl⟩
    · have hsame : ((apply env i resolve s (.verdict value)).calls c) = s.calls c := if_neg hasked
      rw [hsame] at howed
      exact hsettled.owed c haborted howed
  case counted => exact hsettled.counted

theorem proceed {event : Event} (h : Told env s)
    (hstep : step env s (.resolve i event) = some s') : Told env s' := by
  obtain ⟨resolve, hresolve, hstep⟩ := Option.bind_eq_some_iff.1 hstep
  obtain ⟨outcome, houtcome, hs⟩ := Option.bind_eq_some_iff.1 hstep
  cases hs
  have hout := outstanding_of_resolveOne houtcome
  cases outcome with
  | goOn phase answer => exact h.change hresolve hout rfl rfl rfl
  | giveUp failed =>
    cases failed with
    | true => exact h.change hresolve hout rfl rfl rfl
    | false => exact h.change hresolve hout rfl rfl rfl
  | verdict value => exact h.verdict hresolve hout value

/-- A caller whose resolves have all settled is told if one of them came to a verdict. -/
theorem finish (h : Told env s) {c : Nat}
    (hstep : AuthorNames.step env s (.finish c) = some s') : Told env s' := by
  obtain ⟨⟨hopen, hall⟩, hs⟩ := Option.ite_none_right_eq_some.1 hstep
  cases hs
  have hcall : ∀ d, d ≠ c → ∀ call, (s.setCall c call).calls d = s.calls d := fun d hd call =>
    Function.update_of_ne hd _ _
  constructor
  case alone =>
    intro resolve hmem hout d haborted hasked
    by_cases hd : d = c
    · subst hd
      simp only [State.setCall, Function.update_self] at haborted hasked
      exact h.alone resolve hmem hout d haborted hasked
    · rw [hcall d hd] at haborted hasked
      exact h.alone resolve hmem hout d haborted hasked
  case waiting =>
    intro resolve hmem hout
    have hne : resolve.caller ≠ c := by
      intro heq
      have hsettled := List.all_eq_true.1 hall resolve (List.mem_filter.2 ⟨hmem, by simp [heq]⟩)
      simp [hout] at hsettled
    rw [hcall _ hne]
    exact h.waiting resolve hmem hout
  case owed =>
    intro d haborted howed
    by_cases hd : d = c
    · subst hd
      simp only [State.setCall, Function.update_self, Bool.and_eq_true, Bool.not_eq_true']
        at haborted howed
      obtain ⟨-, resolve, hmem, hcaller, hnewlySet⟩ := h.owed d haborted howed.1
      have hnone := List.any_eq_false.1 howed.2 resolve
        (List.mem_filter.2 ⟨hmem, by simp [hcaller]⟩)
      exact absurd hnewlySet hnone
    · rw [hcall d hd] at haborted howed ⊢
      exact h.owed d haborted howed
  case counted => exact h.counted

theorem abort (h : Told env s) (c : Nat) :
    Told env (s.setCall c { s.calls c with aborted := true }) := by
  have hcall : ∀ d, ((s.setCall c { s.calls c with aborted := true }).calls d).aborted = false →
      (s.setCall c { s.calls c with aborted := true }).calls d = s.calls d := by
    intro d haborted
    refine Function.update_of_ne ?_ _ _
    rintro rfl
    simp [State.setCall] at haborted
  have hfinished : ∀ d, ((s.setCall c { s.calls c with aborted := true }).calls d).finished =
      (s.calls d).finished := by
    intro d
    by_cases hd : d = c
    · subst hd
      simp [State.setCall]
    · simp [State.setCall, hd]
  constructor
  case alone =>
    intro resolve hmem hout d haborted hasked
    rw [hcall d haborted] at hasked
    rw [hcall d haborted] at haborted
    exact h.alone resolve hmem hout d haborted hasked
  case waiting =>
    intro resolve hmem hout
    rw [hfinished]
    exact h.waiting resolve hmem hout
  case owed =>
    intro d haborted howed
    rw [hcall d haborted] at howed ⊢
    rw [hcall d haborted] at haborted
    exact h.owed d haborted howed
  case counted => exact h.counted

theorem step (h : Told env s) (hinv : Inv env s) {a : Action} (hok : Ok env s a)
    (hstep : step env s a = some s') : Told env s' := by
  cases a with
  | call authors aborted =>
    cases hstep
    exact h.call hinv hok
  | abort c =>
    obtain ⟨-, hs⟩ := Option.ite_none_right_eq_some.1 hstep
    cases hs
    exact h.abort c
  | resolve i event => exact h.proceed hstep
  | finish c => exact h.finish hstep
  | forgetVerdict key =>
    cases hstep
    exact { h with }
  | forgetFailure key =>
    cases hstep
    exact { h with }

end Told

end Steps

/-- **Whoever asked is told.**  However the calls interleave and whatever the resolvers do, a name
is only said not to be the signer's after a resolver that can handle it answered so, there is one
resolve for a name and signer, and nothing stays in flight.  If nobody asks for a name that has no
verdict and that is being resolved for somebody else, whoever has not aborted is told of the verdict
it asked for. -/
theorem told_who_asked {env : Env} {answers : List Answer} {as : List Action} {s : State}
    (hrun : Run (step env) (Ok env) (init answers) as s) : Sound env s := by
  have hinv : Inv env s ∧ Told env s := by
    refine hrun.invariant (I := fun s => Inv env s ∧ Told env s) ?_ ⟨.init answers, .init answers⟩
    rintro s a s' ⟨hinv, htold⟩ hok hstep
    exact ⟨hinv.step hstep, htold.step hinv hok hstep⟩
  obtain ⟨hinv, htold⟩ := hinv
  constructor
  case denied => exact hinv.denied
  case single => exact hinv.single
  case emptied =>
    intro hsettled
    refine Finset.eq_empty_of_forall_notMem fun key hkey => ?_
    obtain ⟨resolve, hmem, hout, -⟩ := mem_outstandingKeys.1 ((hinv.inFlight key).1 hkey)
    rw [hsettled resolve hmem] at hout
    cases hout
  case told =>
    intro hfinished c haborted
    by_contra howed
    rw [Bool.not_eq_false] at howed
    have hopen := (htold.owed c haborted howed).1
    rw [hfinished c] at hopen
    cases hopen

/-! ## A page and a comment -/

def oneResolver : Env where
  nameResolvers :=
    [⟨"eth", "https://eth.example", fun name => ".eth".toList.isSuffixOf name.toList⟩]
  sha256 := id
  isIpns _ := true
  getPKCAddressFromPublicKey publicKey := some publicKey

def alice : Author := ⟨"alice.eth", "12D3KooWAlice"⟩

/-- The steps of the first resolve, from the start to its verdict. -/
def toVerdict : List Action :=
  [.resolve 0 .start, .resolve 0 (.look none), .resolve 0 (.reply (.record "12D3KooWAlice")),
    .resolve 0 .conclude]

def bob : Author := ⟨"bob.eth", "12D3KooWBob"⟩

/-- A page asks for two authors, whose resolves take turns, and then a comment for the first. -/
def pageThenComment : List Action :=
  [.call [alice, bob] false, .resolve 0 .start, .resolve 1 .start, .resolve 1 (.look none),
    .resolve 0 (.look none), .resolve 1 (.reply (.record "12D3KooWEve")),
    .resolve 0 (.reply (.record "12D3KooWAlice")), .resolve 1 .conclude, .resolve 0 .conclude,
    .finish 0, .call [alice] false]

/-- One name is the signer's and the other one is not. -/
theorem told_of_pageThenComment : ∃ s,
    Run (step oneResolver) (Ok oneResolver) (init []) pageThenComment s ∧
      s.nameResolvedCache (cacheKey oneResolver alice) = some true ∧
      s.nameResolvedCache (cacheKey oneResolver bob) = some false ∧ Sound oneResolver s := by
  have hpage : Ok oneResolver (init []) (.call [alice, bob] false) := fun author _ _ _ =>
    ⟨Finset.notMem_empty _, fun _ _ hasked => List.not_mem_nil hasked⟩
  have hrun : ∃ s, Run (step oneResolver) (Ok oneResolver) (init []) pageThenComment s ∧
      s.nameResolvedCache (cacheKey oneResolver alice) = some true ∧
      s.nameResolvedCache (cacheKey oneResolver bob) = some false := by
    refine ⟨_, .cons hpage rfl <| .cons trivial rfl <| .cons trivial rfl <| .cons trivial rfl <|
      .cons trivial rfl <| .cons trivial rfl <| .cons trivial rfl <| .cons trivial rfl <|
      .cons trivial rfl <| .cons trivial rfl <| .cons ?_ rfl <| .nil _, ?_, ?_⟩
    · -- the comment finds the verdict
      intro author hauthor _ hnone
      obtain rfl := List.mem_singleton.1 hauthor
      cases hnone
    · rfl
    · rfl
  obtain ⟨s, hrun, halice, hbob⟩ := hrun
  exact ⟨s, hrun, halice, hbob, told_who_asked hrun⟩

/-- **A caller that is not told.**  A comment asks for an author whose name is being resolved for a
page: when the name is known, only the page is told. -/
theorem not_told_of_in_flight : ∃ s, Run (step oneResolver) anyStep (init [])
    (.call [alice] false :: .call [alice] false :: toVerdict ++ [.finish 0]) s ∧
      (∀ c, (s.calls c).finished) ∧ (s.calls 1).aborted = false ∧
      s.nameResolvedCache (cacheKey oneResolver alice) = some true ∧ (s.calls 1).owed ∧
      ¬ Sound oneResolver s := by
  have hrun : ∃ s, Run (step oneResolver) anyStep (init [])
      (.call [alice] false :: .call [alice] false :: toVerdict ++ [.finish 0]) s ∧
        (∀ c, (s.calls c).finished) ∧ (s.calls 1).aborted = false ∧
        s.nameResolvedCache (cacheKey oneResolver alice) = some true ∧ (s.calls 1).owed := by
    refine ⟨_, Run.of_exec rfl, fun c => ?_, ?_, ?_, ?_⟩
    · match c with
      | 0 => rfl
      | 1 => rfl
      | c + 2 => rfl
    · rfl
    · rfl
    · rfl
  obtain ⟨s, hrun, hfinished, haborted, hcached, howed⟩ := hrun
  refine ⟨s, hrun, hfinished, haborted, hcached, howed, fun hsound => ?_⟩
  rw [hsound.told hfinished 1 haborted] at howed
  cases howed

end AuthorNames
end Pkc
