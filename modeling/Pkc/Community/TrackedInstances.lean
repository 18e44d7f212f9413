import Mathlib.Logic.Function.Basic
import Pkc.Community.IdentityRule
import Pkc.Community.TrackedInstanceRegistry
import Pkc.Library.Runs

/-!
# Instances that are found again by a name or a key

A client keeps the community instances that are being updated in a registry, so that whoever asks
for the same community gets the same instance.  An instance is tracked under its name, in both
spellings of the top-level name, its key, and the key that signs its records.  What it was tracked
under before is kept in a history, and comes back when it is tracked again.

* `step` is what happens to the registry and the names: instances are tracked and untracked, and a
  record with another name is loaded.
* `Tidy` says that every tracked instance is found by what it is known by now, and by nothing else;
  `Tidy.step` that it stays so as long as names and keys are of one instance (`Proper`).
* `registry_of_run`: in every run the index is sound, and in a proper one the look-ups find what
  they should, those apart whose name and key are of two instances.
* `not_found_by_two`: with a name of one instance and the key of another the look-up throws.
-/

set_option autoImplicit false

namespace Pkc
namespace TrackedInstances

open IdentityRule Runs

universe u

/-! ## Names -/

section Names

variable (lower : LowerCase)

/-- The same as `getEquivalentCommunityAddresses`, which the source has twice. -/
def getEquivalentCommunityAliases (address : String) : List Alias :=
  getEquivalentCommunityAddresses lower address

def dedupeAliases (aliases : List (Option String)) : List Alias :=
  ((aliases.filterMap id).filter (· ≠ "")).eraseDups

structure CommunityLookup where
  name : Option String
  publicKey : Option String

structure CommunityWithAliases where
  name : Option String
  publicKey : Option String
  /-- `signer.address` -/
  signerAddress : Option String

/-- The aliases of an instance or a look-up.  The registries of a client are its own, so they have
no scope. -/
def getCommunityRegistryAliases (community : CommunityWithAliases) :
    Except RegistryError (List Alias) :=
  let aliases := dedupeAliases [community.name, community.publicKey, community.signerAddress]
  if aliases.isEmpty then .error .ERR_COMMUNITY_REGISTRY_LOOKUP_HAS_NO_ALIASES
  else
    .ok (dedupeAliases ((aliases.flatMap fun aka =>
      if isEthAliasDomain lower aka then getEquivalentCommunityAliases lower aka
      else [aka]).map some))

/-- What an instance that is being updated keeps: what it was loaded by, and its keys. -/
structure TrackedCommunity where
  address : String
  publicKey : Option String
  signerAddress : Option String
  publicKey_ok : ∀ key, publicKey = some key → key ≠ "" ∧ isStringDomain key = false
  signerAddress_ok : ∀ key, signerAddress = some key → key ≠ "" ∧ isStringDomain key = false

/-- A name that is not the domain an instance was loaded by is left out. -/
def withOnlyProvenUpdatingName (community : TrackedCommunity) (name : Option String) :
    CommunityWithAliases :=
  let loadedByDomain := if isStringDomain community.address then some community.address else none
  match loadedByDomain, truthy name with
  | some domain, some claimed =>
    if areEquivalentNames lower claimed domain then
      ⟨name, community.publicKey, community.signerAddress⟩
    else ⟨none, community.publicKey, community.signerAddress⟩
  | _, _ => ⟨name, community.publicKey, community.signerAddress⟩

def findCommunityInRegistry {V : Type u} [DecidableEq V] (registry : Registry V)
    (lookup : CommunityLookup) : Except RegistryError (Option V) :=
  (getCommunityRegistryAliases lower ⟨lookup.name, lookup.publicKey, none⟩).bind
    registry.findByAliases

end Names

/-! ## The steps -/

/-- The registry of what is being updated, with what changes of the instances. -/
structure State (V : Type u) where
  registry : Registry V
  name : V → Option String
  aliasHistory : V → List Alias

inductive Event (V : Type u)
  | track (value : V) (aliases : List Alias)
  | addAliases (value : V) (aliases : List Alias)
  | removeAliases (value : V) (aliases : List Alias)
  | untrack (value : V)
  | trackUpdatingCommunity (value : V)
  | forgetTrackedUpdatingCommunityName (value : V) (name : String)
  /-- A record is loaded, with the name it claims. -/
  | initRemoteCommunityProps (value : V) (name : Option String)

section Steps

variable {V : Type u} [DecidableEq V] (lower : LowerCase) (community : V → TrackedCommunity)

/-- The aliases that an instance has by its name and keys. -/
def currentAliases (s : State V) (value : V) : Except RegistryError (List Alias) :=
  getCommunityRegistryAliases lower
    (withOnlyProvenUpdatingName lower (community value) (s.name value))

def setHistory (s : State V) (value : V) (history : List Alias) : State V :=
  { s with aliasHistory := Function.update s.aliasHistory value history }

def syncUpdatingCommunityRegistryEntry (s : State V) (value : V) :
    Except RegistryError (State V) :=
  (currentAliases lower community s value).bind fun aliases =>
    let history := aliases.foldl setAdd (s.aliasHistory value)
    (s.registry.track value history).map fun registry =>
      { setHistory s value history with registry }

def refreshTrackedCommunityAliases (s : State V) (value : V) : Except RegistryError (State V) :=
  if s.registry.has value then syncUpdatingCommunityRegistryEntry lower community s value else .ok s

def forgetTrackedUpdatingCommunityName (s : State V) (value : V) (name : String) :
    Except RegistryError (State V) :=
  if s.registry.has value then
    let staleAliases :=
      if isEthAliasDomain lower name then getEquivalentCommunityAliases lower name else [name]
    (currentAliases lower community s value).map fun current =>
      let aliasesToForget := staleAliases.filter (· ∉ current)
      { setHistory s value ((s.aliasHistory value).filter (· ∉ aliasesToForget)) with
        registry := s.registry.removeAliases value aliasesToForget }
  else .ok s

/-- The name of the record replaces that of the instance, and what it was tracked under by the old
one is forgotten.  What is thrown on the way leaves the state as it is there. -/
def initRemoteCommunityProps (s : State V) (value : V) (name : Option String) : State V :=
  let nameBeforeProps := s.name value
  let s := { s with name := Function.update s.name value name }
  let forgotten : Except RegistryError (State V) :=
    match nameBeforeProps with
    | none => .ok s
    | some nameBeforeProps =>
      if name.all fun name => !areEquivalentCommunityAddresses lower name nameBeforeProps then
        forgetTrackedUpdatingCommunityName lower community s value nameBeforeProps
      else .ok s
  match forgotten with
  | .error _ => s
  | .ok s => (refreshTrackedCommunityAliases lower community s value).toOption.getD s

def step (s : State V) : Event V → State V
  | .track value aliases =>
    match s.registry.track value aliases with
    | .ok registry => { s with registry }
    | .error _ => s
  | .addAliases value aliases =>
    match s.registry.addAliases value aliases with
    | .ok registry => { s with registry }
    | .error _ => s
  | .removeAliases value aliases => { s with registry := s.registry.removeAliases value aliases }
  | .untrack value => { s with registry := s.registry.untrack value }
  | .trackUpdatingCommunity value =>
    (syncUpdatingCommunityRegistryEntry lower community s value).toOption.getD s
  | .forgetTrackedUpdatingCommunityName value name =>
    (forgetTrackedUpdatingCommunityName lower community s value name).toOption.getD s
  | .initRemoteCommunityProps value name => initRemoteCommunityProps lower community s value name

/-- Every event is possible in every state. -/
def takeStep (s : State V) (event : Event V) : Option (State V) :=
  some (step lower community s event)

/-- Instances that were just made, and nothing is tracked. -/
def start (name : V → Option String) : State V := ⟨.empty, name, fun _ => []⟩

end Steps

/-! ### The index is always sound -/

section Soundness

variable {V : Type u} [DecidableEq V] {lower : LowerCase} {community : V → TrackedCommunity}
  {s s' : State V} {value : V}

theorem ok_sync (h : s.registry.Ok)
    (hsync : syncUpdatingCommunityRegistryEntry lower community s value = .ok s') :
    s'.registry.Ok := by
  rw [syncUpdatingCommunityRegistryEntry] at hsync
  cases haliases : currentAliases lower community s value with
  | error e =>
    rw [haliases] at hsync
    cases hsync
  | ok aliases =>
    obtain ⟨r', htrack, hok, -⟩ :=
      Registry.owns_track h value (aliases.foldl setAdd (s.aliasHistory value))
    rw [haliases, Except.bind] at hsync
    dsimp only at hsync
    rw [htrack] at hsync
    cases hsync
    exact hok

theorem ok_forget (h : s.registry.Ok) {name : String}
    (hforget : forgetTrackedUpdatingCommunityName lower community s value name = .ok s') :
    s'.registry.Ok := by
  rw [forgetTrackedUpdatingCommunityName] at hforget
  split at hforget
  · cases haliases : currentAliases lower community s value with
    | error e =>
      rw [haliases] at hforget
      cases hforget
    | ok aliases =>
      rw [haliases] at hforget
      cases hforget
      exact (Registry.owns_removeAliases h _ _).1
  · cases hforget
    exact h

theorem ok_refresh (h : s.registry.Ok) :
    ((refreshTrackedCommunityAliases lower community s value).toOption.getD s).registry.Ok := by
  rw [refreshTrackedCommunityAliases]
  split
  · cases hsync : syncUpdatingCommunityRegistryEntry lower community s value with
    | error e => exact h
    | ok s' => exact ok_sync h hsync
  · exact h

theorem ok_step (h : s.registry.Ok) (event : Event V) :
    (step lower community s event).registry.Ok := by
  cases event with
  | track value aliases =>
    obtain ⟨r', htrack, hok, -⟩ := Registry.owns_track h value aliases
    rw [step, htrack]
    exact hok
  | addAliases value aliases =>
    rw [step]
    by_cases hhas : s.registry.has value = true
    · obtain ⟨r', hadd, hok, -⟩ := Registry.owns_addAliases h hhas aliases
      rw [hadd]
      exact hok
    · rw [Registry.addAliases, if_neg hhas]
      exact h
  | removeAliases value aliases => exact (Registry.owns_removeAliases h value aliases).1
  | untrack value => exact (Registry.owns_untrack h value).1
  | trackUpdatingCommunity value =>
    rw [step]
    cases hsync : syncUpdatingCommunityRegistryEntry lower community s value with
    | error e => exact h
    | ok s' => exact ok_sync h hsync
  | forgetTrackedUpdatingCommunityName value name =>
    rw [step]
    cases hforget : forgetTrackedUpdatingCommunityName lower community s value name with
    | error e => exact h
    | ok s' => exact ok_forget h hforget
  | initRemoteCommunityProps value name =>
    rw [step, initRemoteCommunityProps]
    split
    · exact h
    · rename_i s' hforgotten
      refine ok_refresh ?_
      split at hforgotten
      · cases hforgotten
        exact h
      · split at hforgotten
        · have hnamed : ({ s with name := Function.update s.name value name } :
              State V).registry.Ok := h
          exact ok_forget hnamed hforgotten
        · cases hforgotten
          exact h

end Soundness

/-! ## Aliases and names -/

section Aliases

variable {lower : LowerCase} {name other x : String}

/-- A name of a domain, with no capital letters. -/
def Plain (lower : LowerCase) (name : String) : Prop :=
  isStringDomain name = true ∧ lower.toLowerCase name = name

theorem mem_getEquivalent_of_end {stem : String} (hplain : lower.toLowerCase name = name)
    (h : name = stem ++ ".bso" ∨ name = stem ++ ".eth") :
    x ∈ getEquivalentCommunityAliases lower name ↔ x = stem ++ ".eth" ∨ x = stem ++ ".bso" := by
  rw [getEquivalentCommunityAliases, getEquivalentCommunityAddresses, hplain]
  rcases h with rfl | rfl
  · rw [if_pos (endsWith_iff.2 ⟨stem, rfl⟩), withoutEnd_append (length_topLevel (.inr rfl)),
      List.mem_pair]
    exact or_comm
  · have hbso : ¬ endsWith (stem ++ ".eth") ".bso" = true := by
      intro hbso
      obtain ⟨start, heq⟩ := endsWith_iff.1 hbso
      have hlists := congrArg (fun s => s.toList.reverse) heq
      simp at hlists
    rw [if_neg hbso, if_pos (endsWith_iff.2 ⟨stem, rfl⟩),
      withoutEnd_append (length_topLevel (.inl rfl)), List.mem_pair]

/-- A name ends in `.bso` or `.eth`, or it has one spelling. -/
theorem end_or_single (hplain : lower.toLowerCase name = name) :
    (∃ stem, name = stem ++ ".bso" ∨ name = stem ++ ".eth") ∨
      isEthAliasDomain lower name = false ∧ getEquivalentCommunityAliases lower name = [name] := by
  by_cases hbso : endsWith name ".bso" = true
  · obtain ⟨stem, hstem⟩ := endsWith_iff.1 hbso
    exact .inl ⟨stem, .inl hstem⟩
  · by_cases heth : endsWith name ".eth" = true
    · obtain ⟨stem, hstem⟩ := endsWith_iff.1 heth
      exact .inl ⟨stem, .inr hstem⟩
    · right
      rw [isEthAliasDomain, getEquivalentCommunityAliases, getEquivalentCommunityAddresses, hplain,
        if_neg hbso, if_neg heth]
      exact ⟨by simp [hbso, heth], rfl⟩

theorem isEth_of_end {stem : String} (hplain : lower.toLowerCase name = name)
    (h : name = stem ++ ".bso" ∨ name = stem ++ ".eth") : isEthAliasDomain lower name = true := by
  rw [isEthAliasDomain, hplain, Bool.or_eq_true]
  rcases h with rfl | rfl
  · exact .inr (endsWith_iff.2 ⟨stem, rfl⟩)
  · exact .inl (endsWith_iff.2 ⟨stem, rfl⟩)

theorem normalize_of_end {stem : String} (h : name = stem ++ ".bso" ∨ name = stem ++ ".eth") :
    normalizeEthAliasDomain name = stem ++ ".eth" := by
  rcases h with rfl | rfl
  · exact normalize_bso
  · exact normalize_eth (endsWith_iff.2 ⟨stem, rfl⟩)

theorem append_right_cancel {s t u : String} (h : s ++ u = t ++ u) : s = t := by
  rw [← String.toList_inj] at h ⊢
  rw [String.toList_append, String.toList_append] at h
  exact List.append_cancel_right h

theorem eth_ne_bso {s t : String} : s ++ ".eth" ≠ t ++ ".bso" := by
  intro h
  have hlists := congrArg (fun s => s.toList.reverse) h
  simp at hlists

/-- **Equivalent names have the same aliases, and others none in common.** -/
theorem equivalent_iff (hname : lower.toLowerCase name = name)
    (hother : lower.toLowerCase other = other) :
    (areEquivalentNames lower name other = true ↔ ∃ x,
      x ∈ getEquivalentCommunityAliases lower name ∧
        x ∈ getEquivalentCommunityAliases lower other) ∧
    (areEquivalentNames lower name other = true → ∀ x,
      x ∈ getEquivalentCommunityAliases lower name ↔
        x ∈ getEquivalentCommunityAliases lower other) := by
  by_cases hsame : name = other
  · rw [hsame]
    refine ⟨iff_of_true areEquivalentNames_self ⟨other, ?_, ?_⟩, fun _ _ => Iff.rfl⟩
    all_goals
      rw [getEquivalentCommunityAliases, getEquivalentCommunityAddresses]
      repeat' split
      all_goals exact List.mem_cons_self
  · rw [areEquivalentNames, if_neg hsame, hname, hother]
    rcases end_or_single hname with ⟨stem, hstem⟩ | ⟨hnot, hsingle⟩
    · rcases end_or_single hother with ⟨stem', hstem'⟩ | ⟨hnot', hsingle'⟩
      · rw [isEth_of_end hname hstem, isEth_of_end hother hstem', normalize_of_end hstem,
          normalize_of_end hstem']
        have hiff : (decide (stem ++ ".eth" = stem' ++ ".eth") = true) ↔ stem = stem' := by
          rw [decide_eq_true_eq]
          exact ⟨append_right_cancel, fun h => h ▸ rfl⟩
        simp only [Bool.not_true, Bool.or_self, Bool.false_eq_true, if_false, hiff,
          mem_getEquivalent_of_end hname hstem, mem_getEquivalent_of_end hother hstem']
        refine ⟨⟨?_, ?_⟩, ?_⟩
        · rintro rfl
          exact ⟨stem ++ ".eth", .inl rfl, .inl rfl⟩
        · rintro ⟨x, rfl | rfl, h | h⟩
          · exact append_right_cancel h
          · exact absurd h eth_ne_bso
          · exact absurd h.symm eth_ne_bso
          · exact append_right_cancel h
        · rintro rfl x
          rfl
      · rw [hnot', hsingle']
        simp only [Bool.not_false, Bool.or_true, if_true, Bool.false_eq_true, false_iff,
          List.mem_singleton, mem_getEquivalent_of_end hname hstem]
        refine ⟨?_, fun h => h.elim⟩
        rintro ⟨x, hx, rfl⟩
        have hend : isEthAliasDomain lower x = true := by
          rcases hx with hx | hx
          · exact isEth_of_end hother (.inr hx)
          · exact isEth_of_end hother (.inl hx)
        rw [hnot'] at hend
        cases hend
    · rw [hnot, hsingle]
      simp only [Bool.not_false, Bool.true_or, if_true, Bool.false_eq_true, false_iff,
        List.mem_singleton]
      refine ⟨?_, fun h => h.elim⟩
      rintro ⟨x, rfl, hx⟩
      rcases end_or_single hother with ⟨stem', hstem'⟩ | ⟨hnot', hsingle'⟩
      · have hend : isEthAliasDomain lower x = true := by
          rcases (mem_getEquivalent_of_end hother hstem').1 hx with hx | hx
          · exact isEth_of_end hname (.inr hx)
          · exact isEth_of_end hname (.inl hx)
        rw [hnot] at hend
        cases hend
      · rw [hsingle', List.mem_singleton] at hx
        exact hsame hx

theorem isStringDomain_of_mem (hname : Plain lower name)
    (h : x ∈ getEquivalentCommunityAliases lower name) : isStringDomain x = true := by
  rcases end_or_single hname.2 with ⟨stem, hstem⟩ | ⟨-, hsingle⟩
  · rcases (mem_getEquivalent_of_end hname.2 hstem).1 h with rfl | rfl <;> simp [isStringDomain]
  · rw [hsingle, List.mem_singleton] at h
    rw [h]
    exact hname.1

theorem ne_empty_of_domain (h : isStringDomain x = true) : x ≠ "" := by
  rintro rfl
  simp [isStringDomain] at h

/-- A plain name has the same aliases whether it is asked first that it is an ENS name or not. -/
theorem mem_spellings (hname : Plain lower name) :
    x ∈ (if isEthAliasDomain lower name then getEquivalentCommunityAliases lower name
      else [name]) ↔ x ∈ getEquivalentCommunityAliases lower name := by
  split
  · rfl
  · rename_i hnot
    rcases end_or_single hname.2 with ⟨stem, hstem⟩ | ⟨-, hsingle⟩
    · exact absurd (isEth_of_end hname.2 hstem) hnot
    · rw [hsingle]

/-- A key is looked up as it is. -/
theorem isEth_of_key (h : isStringDomain x = false) : isEthAliasDomain lower x = false := by
  have hnot : '.' ∉ (lower.toLowerCase x).toList := by
    intro hdot
    rw [isStringDomain, List.contains_eq_mem, decide_eq_false_iff_not] at h
    exact h (lower.dot x hdot)
  rw [isEthAliasDomain, Bool.or_eq_false_iff]
  constructor <;>
  · rw [Bool.eq_false_iff]
    intro hends
    obtain ⟨start, hstart⟩ := endsWith_iff.1 hends
    rw [hstart] at hnot
    simp at hnot

end Aliases

/-! ## What an instance is tracked under -/

section Current

variable {lower : LowerCase} {x : String}

theorem mem_dedupeAliases {aliases : List (Option String)} :
    x ∈ dedupeAliases aliases ↔ some x ∈ aliases ∧ x ≠ "" := by
  rw [dedupeAliases, List.mem_eraseDups, List.mem_filter, List.mem_filterMap]
  simp

/-- What the aliases are made of is a plain name and keys. -/
structure PlainAliases (lower : LowerCase) (c : CommunityWithAliases) : Prop where
  name : ∀ name, c.name = some name → Plain lower name
  publicKey : ∀ key, c.publicKey = some key → key ≠ "" ∧ isStringDomain key = false
  signerAddress : ∀ key, c.signerAddress = some key → key ≠ "" ∧ isStringDomain key = false

/-- An alias of what has this name and these keys. -/
def HasAlias (lower : LowerCase) (c : CommunityWithAliases) (x : Alias) : Prop :=
  (∃ name, c.name = some name ∧ x ∈ getEquivalentCommunityAliases lower name) ∨
    c.publicKey = some x ∨ c.signerAddress = some x

theorem getCommunityRegistryAliases_eq_ok {c : CommunityWithAliases} (h : PlainAliases lower c)
    (hsome : ∃ x, c.name = some x ∨ c.publicKey = some x ∨ c.signerAddress = some x) :
    ∃ aliases, getCommunityRegistryAliases lower c = .ok aliases ∧
      ∀ x, x ∈ aliases ↔ HasAlias lower c x := by
  have hmem : ∀ x, x ∈ dedupeAliases [c.name, c.publicKey, c.signerAddress] ↔
      c.name = some x ∨ c.publicKey = some x ∨ c.signerAddress = some x := by
    intro x
    rw [mem_dedupeAliases]
    simp only [List.mem_cons, List.not_mem_nil, or_false, eq_comm (a := some x)]
    refine and_iff_left_of_imp fun hx => ?_
    rcases hx with hx | hx | hx
    · exact ne_empty_of_domain (h.name x hx).1
    · exact (h.publicKey x hx).1
    · exact (h.signerAddress x hx).1
  obtain ⟨first, hfirst⟩ := hsome
  have hne : ¬ (dedupeAliases [c.name, c.publicKey, c.signerAddress]).isEmpty = true := by
    intro hempty
    have := (hmem first).2 hfirst
    rw [List.isEmpty_iff.1 hempty] at this
    exact List.not_mem_nil this
  refine ⟨_, by rw [getCommunityRegistryAliases]; exact if_neg hne, fun x => ?_⟩
  rw [mem_dedupeAliases, List.mem_map]
  simp only [List.mem_flatMap, hmem, Option.some_inj, exists_eq_right]
  have hkey : ∀ key, isStringDomain key = false →
      (x ∈ (if isEthAliasDomain lower key then getEquivalentCommunityAliases lower key else [key]) ↔
        x = key) := by
    intro key hkey
    rw [isEth_of_key hkey]
    exact List.mem_singleton
  constructor
  · rintro ⟨⟨y, hy, hx⟩, -⟩
    rcases hy with hy | hy | hy
    · exact .inl ⟨y, hy, (mem_spellings (h.name y hy)).1 hx⟩
    · rw [(hkey y (h.publicKey y hy).2).1 hx]
      exact .inr (.inl hy)
    · rw [(hkey y (h.signerAddress y hy).2).1 hx]
      exact .inr (.inr hy)
  · rintro (⟨y, hy, hx⟩ | hx | hx)
    · exact ⟨⟨y, .inl hy, (mem_spellings (h.name y hy)).2 hx⟩,
        ne_empty_of_domain (isStringDomain_of_mem (h.name y hy) hx)⟩
    · exact ⟨⟨x, .inr (.inl hx), (hkey x (h.publicKey x hx).2).2 rfl⟩, (h.publicKey x hx).1⟩
    · exact ⟨⟨x, .inr (.inr hx), (hkey x (h.signerAddress x hx).2).2 rfl⟩,
        (h.signerAddress x hx).1⟩

/-- The name of an instance is plain, and equivalent to the domain it was loaded by. -/
def NameOk (lower : LowerCase) (c : TrackedCommunity) (name : Option String) : Prop :=
  ∀ n, name = some n → Plain lower n ∧
    (isStringDomain c.address = true → areEquivalentNames lower n c.address = true)

/-- What an instance is known by. -/
def identity (c : TrackedCommunity) (name : Option String) : CommunityWithAliases :=
  ⟨name, c.publicKey, c.signerAddress⟩

theorem NameOk.plainAliases {c : TrackedCommunity} {name : Option String}
    (h : NameOk lower c name) : PlainAliases lower (identity c name) where
  name n hn := (h n hn).1
  publicKey := c.publicKey_ok
  signerAddress := c.signerAddress_ok

theorem NameOk.proven {c : TrackedCommunity} {name : Option String} (h : NameOk lower c name) :
    withOnlyProvenUpdatingName lower c name = identity c name := by
  rw [withOnlyProvenUpdatingName]
  split
  · rename_i domain claimed hdomain hclaimed
    split at hdomain
    · rename_i hisDomain
      cases hdomain
      have hname : name = some claimed := (Option.filter_eq_some_iff.1 hclaimed).1
      rw [if_pos ((h claimed hname).2 hisDomain)]
      rfl
    · cases hdomain
  · rfl

/-- There is something to track the instance under. -/
def HasIdentity (c : TrackedCommunity) (name : Option String) : Prop :=
  ∃ x, name = some x ∨ c.publicKey = some x ∨ c.signerAddress = some x

variable {V : Type u} {community : V → TrackedCommunity} {s : State V} {value : V}

theorem currentAliases_eq_ok (h : NameOk lower (community value) (s.name value))
    (hidentity : HasIdentity (community value) (s.name value)) :
    ∃ aliases, currentAliases lower community s value = .ok aliases ∧
      ∀ x, x ∈ aliases ↔ HasAlias lower (identity (community value) (s.name value)) x := by
  rw [currentAliases, h.proven]
  exact getCommunityRegistryAliases_eq_ok h.plainAliases hidentity

end Current

/-! ## Runs in which names and keys belong to one instance -/

section Runs

variable {V : Type u} [DecidableEq V] (lower : LowerCase) (community : V → TrackedCommunity)

/-- The aliases of an instance by the name that it has. -/
def Named (s : State V) (value : V) (x : Alias) : Prop :=
  HasAlias lower (identity (community value) (s.name value)) x

/-- No other instance is tracked under a name or key of this one. -/
def Unclaimed (s : State V) (value : V) : Prop :=
  ∀ x, Named lower community s value x → ∀ other, x ∈ s.registry.aliasesOf other → other = value

/-- The name is one that the instance can be tracked under. -/
def Trackable (s : State V) (value : V) : Prop :=
  NameOk lower (community value) (s.name value) ∧
    HasIdentity (community value) (s.name value) ∧ Unclaimed lower community s value

/-- What is asked of an event: an instance is tracked under names and keys of its own, which no
other instance is tracked under, and its name changes to such a name, while it is tracked or before
it ever was. -/
def Proper (s : State V) : Event V → Prop
  | .track value aliases =>
    Trackable lower community s value ∧ (∀ x ∈ aliases, x ≠ "" → Named lower community s value x) ∧
      (s.registry.has value = true ∨ ∀ x, Named lower community s value x → x ∈ aliases)
  | .addAliases value aliases =>
    Trackable lower community s value ∧ ∀ x ∈ aliases, x ≠ "" → Named lower community s value x
  | .removeAliases value aliases => ∀ x ∈ aliases, ¬ Named lower community s value x
  | .untrack _ => True
  | .trackUpdatingCommunity value => Trackable lower community s value
  | .forgetTrackedUpdatingCommunityName _ _ => True
  | .initRemoteCommunityProps value name =>
    Trackable lower community { s with name := Function.update s.name value name } value ∧
      (s.registry.has value = true ∨ s.aliasHistory value = [] ∨
        ∃ old new, s.name value = some old ∧ name = some new ∧
          areEquivalentNames lower new old = true)

/-- Every tracked instance is found by what it is known by now, and by nothing else. -/
structure Tidy (s : State V) : Prop where
  ok : s.registry.Ok
  owns : ∀ value, s.registry.has value = true → ∀ x,
    x ∈ s.registry.aliasesOf value ↔ Named lower community s value x
  history : ∀ value, ∀ x ∈ s.aliasHistory value, Named lower community s value x
  nameOk : ∀ value, s.registry.has value = true ∨ s.aliasHistory value ≠ [] →
    NameOk lower (community value) (s.name value) ∧
      HasIdentity (community value) (s.name value)

variable {lower : LowerCase} {community : V → TrackedCommunity} {s s' : State V} {value : V}

omit [DecidableEq V] in
theorem Named.ne_empty (hname : NameOk lower (community value) (s.name value)) {x : Alias}
    (h : Named lower community s value x) : x ≠ "" := by
  rcases h with ⟨n, hn, hx⟩ | hx | hx
  · exact ne_empty_of_domain (isStringDomain_of_mem (hname n hn).1 hx)
  · exact ((community value).publicKey_ok x hx).1
  · exact ((community value).signerAddress_ok x hx).1

omit [DecidableEq V] in
/-- A name that is kept, or replaced by an equivalent one, leaves the aliases as they are. -/
theorem Named.of_equivalent {name : V → Option String} {old new : String} {x : Alias}
    (hold : s.name value = some old) (hnew : name value = some new)
    (hplain : Plain lower old) (hplain' : Plain lower new)
    (hequivalent : areEquivalentNames lower new old = true)
    (h : Named lower community s value x) : Named lower community { s with name } value x := by
  rcases h with ⟨n, hn, hx⟩ | hx
  · cases hold.symm.trans hn
    exact .inl ⟨new, hnew, ((equivalent_iff hplain'.2 hplain.2).2 hequivalent x).2 hx⟩
  · exact .inr hx

/-- `Tidy`, but for one instance that may lack some of its aliases, and have some that are stale. -/
structure Near (lower : LowerCase) (community : V → TrackedCommunity) (s : State V) (value : V)
    (stale : List Alias) : Prop where
  ok : s.registry.Ok
  owns : ∀ other, other ≠ value → s.registry.has other = true → ∀ x,
    x ∈ s.registry.aliasesOf other ↔ Named lower community s other x
  within : ∀ x ∈ s.registry.aliasesOf value, Named lower community s value x ∨ x ∈ stale
  history : ∀ other, ∀ x ∈ s.aliasHistory other,
    Named lower community s other x ∨ other = value ∧ x ∈ stale
  nameOk : ∀ other, s.registry.has other = true ∨ s.aliasHistory other ≠ [] →
    NameOk lower (community other) (s.name other) ∧
      HasIdentity (community other) (s.name other)

variable {stale : List Alias}

theorem Tidy.near (h : Tidy lower community s) (value : V) :
    Near lower community s value [] where
  __ := h
  owns other _ := h.owns other
  within x hx := .inl ((h.owns value (Registry.has_of_mem hx) x).1 hx)
  history other x hx := .inl (h.history other x hx)

theorem Near.within_nil (h : Near lower community s value []) {x : Alias}
    (hx : x ∈ s.registry.aliasesOf value) : Named lower community s value x :=
  (h.within x hx).resolve_right List.not_mem_nil

theorem Near.history_nil (h : Near lower community s value []) {other : V} {x : Alias}
    (hx : x ∈ s.aliasHistory other) : Named lower community s other x :=
  (h.history other x hx).resolve_right fun hstale => List.not_mem_nil hstale.2

theorem Near.tidy (h : Near lower community s value [])
    (hall : s.registry.has value = true → ∀ x, Named lower community s value x →
      x ∈ s.registry.aliasesOf value) : Tidy lower community s where
  __ := h
  owns other hhas x := by
    by_cases heq : other = value
    · rw [heq] at hhas ⊢
      exact ⟨h.within_nil, hall hhas x⟩
    · exact h.owns other heq hhas x
  history _ _ hx := h.history_nil hx

theorem setHistory_self (s : State V) (value : V) (history : List Alias) :
    (setHistory s value history).aliasHistory value = history := by
  simp [setHistory]

theorem setHistory_of_ne (s : State V) (history : List Alias) {other : V} (h : other ≠ value) :
    (setHistory s value history).aliasHistory other = s.aliasHistory other := by
  simp [setHistory, h]

/-- An instance gets aliases that it is known by, and then has them all. -/
theorem Near.added (h : Near lower community s value []) {r' : Registry V}
    {aliases history : List Alias} (htrackable : Trackable lower community s value) (hok : r'.Ok)
    (hhas : ∀ other, other ≠ value → r'.has other = true → s.registry.has other = true)
    (howns : ∀ other x, x ∈ r'.aliasesOf other ↔
      if x ∈ aliases ∧ x ≠ "" then other = value else x ∈ s.registry.aliasesOf other)
    (haliases : ∀ x ∈ aliases, x ≠ "" → Named lower community s value x)
    (hall : r'.has value = true → ∀ x, Named lower community s value x →
      x ∈ aliases ∨ x ∈ s.registry.aliasesOf value)
    (hhistory : ∀ x ∈ history, Named lower community s value x) :
    Tidy lower community { setHistory s value history with registry := r' } := by
  obtain ⟨hnameOk, hidentity, hunclaimed⟩ := htrackable
  have hnear :
      Near lower community { setHistory s value history with registry := r' } value [] := by
    refine ⟨hok, fun other hne hother x => ?_, fun x hx => .inl ?_, fun other x hx => .inl ?_,
      fun other hother => ?_⟩
    · rw [howns other x]
      split
      · rename_i hx
        refine iff_of_false hne fun hnamed => hne ?_
        exact hunclaimed x (haliases x hx.1 hx.2) other
          ((h.owns other hne (hhas other hne hother) x).2 hnamed)
      · exact h.owns other hne (hhas other hne hother) x
    · rw [howns value x] at hx
      split at hx
      · rename_i hmem
        exact haliases x hmem.1 hmem.2
      · exact h.within_nil hx
    · by_cases heq : other = value
      · rw [heq] at hx ⊢
        exact hhistory x (setHistory_self s value history ▸ hx)
      · exact h.history_nil (setHistory_of_ne s history heq ▸ hx)
    · by_cases heq : other = value
      · rw [heq]
        exact ⟨hnameOk, hidentity⟩
      · exact h.nameOk other (hother.imp (hhas other heq) fun hne =>
          setHistory_of_ne s history heq ▸ hne)
  refine hnear.tidy fun hvalue x hnamed => (howns value x).2 ?_
  split
  · rfl
  · rename_i hx
    refine (hall hvalue x hnamed).resolve_left fun hmem => hx ⟨hmem, ?_⟩
    exact Named.ne_empty hnameOk hnamed

theorem mem_foldl_setAdd {aliases history : List Alias} {x : Alias} :
    x ∈ aliases.foldl setAdd history ↔ x ∈ history ∨ x ∈ aliases := by
  induction aliases generalizing history with
  | nil => simp
  | cons aka aliases ih => rw [List.foldl_cons, ih, mem_setAdd, List.mem_cons, or_assoc]

/-- An instance that is tracked again has what it is known by. -/
theorem Near.synced (h : Near lower community s value [])
    (htrackable : Trackable lower community s value) :
    ∃ s', syncUpdatingCommunityRegistryEntry lower community s value = .ok s' ∧
      Tidy lower community s' := by
  obtain ⟨aliases, hcurrent, hnamed⟩ := currentAliases_eq_ok htrackable.1 htrackable.2.1
  have hhistory : ∀ x ∈ aliases.foldl setAdd (s.aliasHistory value),
      Named lower community s value x := fun x hx =>
    (mem_foldl_setAdd.1 hx).elim h.history_nil (hnamed x).1
  obtain ⟨r', htrack, hok, hhas, howns⟩ :=
    Registry.owns_track h.ok value (aliases.foldl setAdd (s.aliasHistory value))
  have hsync : syncUpdatingCommunityRegistryEntry lower community s value =
      .ok { setHistory s value (aliases.foldl setAdd (s.aliasHistory value)) with
        registry := r' } := by
    rw [syncUpdatingCommunityRegistryEntry, hcurrent]
    show (s.registry.track value _).map _ = _
    rw [htrack]
    rfl
  refine ⟨_, hsync, ?_⟩
  exact h.added htrackable hok (fun other hne hother => ((hhas other).1 hother).resolve_right hne)
    howns (fun x hx _ => hhistory x hx)
    (fun _ x hx => .inl (mem_foldl_setAdd.2 (.inr ((hnamed x).2 hx)))) hhistory

/-- Aliases are taken from an instance, from its history too. -/
theorem Near.removed (h : Near lower community s value stale) {toForget : List Alias}
    (hstale : ∀ x ∈ stale, Named lower community s value x ∨ x ∈ toForget) :
    Near lower community
      { setHistory s value ((s.aliasHistory value).filter (· ∉ toForget)) with
        registry := s.registry.removeAliases value toForget } value [] := by
  obtain ⟨hok, hhas, howns⟩ := Registry.owns_removeAliases h.ok value toForget
  refine ⟨hok, fun other hne hother x => ?_, fun x hx => .inl ?_, fun other x hx => .inl ?_,
    fun other hother => ?_⟩
  · rw [hhas] at hother
    exact (howns other x).trans ((and_iff_left fun hboth => hne hboth.2).trans
      (h.owns other hne hother x))
  · obtain ⟨hx, hkept⟩ := (howns value x).1 hx
    exact (h.within x hx).elim id fun hmem => (hstale x hmem).resolve_right fun hmem =>
      hkept ⟨hmem, rfl⟩
  · by_cases heq : other = value
    · rw [heq] at hx ⊢
      rw [setHistory_self, List.mem_filter] at hx
      exact (h.history value x hx.1).elim id fun hmem => (hstale x hmem.2).resolve_right fun hmem =>
        absurd hx.2 (by simpa using hmem)
    · rw [setHistory_of_ne s _ heq] at hx
      exact (h.history other x hx).resolve_right fun hmem => heq hmem.1
  · rw [hhas] at hother
    refine h.nameOk other (hother.imp id fun hne hnil => hne ?_)
    by_cases heq : other = value
    · rw [heq] at hnil ⊢
      rw [setHistory_self, hnil]
      rfl
    · rw [setHistory_of_ne s _ heq, hnil]

/-- A name that the instance no longer has is forgotten, and nothing that it still has. -/
theorem Near.forgot {name : String} (h : Near lower community s value stale)
    (hstale : ∀ x ∈ stale, x ∈ (if isEthAliasDomain lower name then
      getEquivalentCommunityAliases lower name else [name]))
    (hhas : s.registry.has value = true) :
    ∃ s', forgetTrackedUpdatingCommunityName lower community s value name = .ok s' ∧
      Near lower community s' value [] ∧ s'.name = s.name ∧ s'.registry.has value = true ∧
      (∀ other x, x ∈ s'.registry.aliasesOf other → x ∈ s.registry.aliasesOf other) ∧
      ∀ x, Named lower community s value x → x ∈ s.registry.aliasesOf value →
        x ∈ s'.registry.aliasesOf value := by
  obtain ⟨hnameOk, hidentity⟩ := h.nameOk value (.inl hhas)
  obtain ⟨aliases, hcurrent, hnamed⟩ := currentAliases_eq_ok hnameOk hidentity
  generalize hstaleAliases : (if isEthAliasDomain lower name then
    getEquivalentCommunityAliases lower name else [name]) = staleAliases at hstale
  have hforget :
      ∀ x, x ∈ staleAliases.filter (· ∉ aliases) → ¬ Named lower community s value x := by
    intro x hx hcurrent
    have hnot := (List.mem_filter.1 hx).2
    exact absurd ((hnamed x).2 hcurrent) (by simpa using hnot)
  have hkept : ∀ x ∈ stale, Named lower community s value x ∨
      x ∈ staleAliases.filter (· ∉ aliases) := by
    intro x hx
    by_cases hmem : x ∈ aliases
    · exact .inl ((hnamed x).1 hmem)
    · exact .inr (List.mem_filter.2 ⟨hstale x hx, by simpa using hmem⟩)
  obtain ⟨-, hhas', howns⟩ :=
    Registry.owns_removeAliases h.ok value (staleAliases.filter (· ∉ aliases))
  refine ⟨_, ?_, h.removed hkept, rfl, (hhas' value).trans hhas, ?_, ?_⟩
  · rw [forgetTrackedUpdatingCommunityName, if_pos hhas, hcurrent, hstaleAliases]
    rfl
  · exact fun other x hx => ((howns other x).1 hx).1
  · exact fun x hx hlisted => (howns value x).2 ⟨hlisted, fun hboth => hforget x hboth.1 hx⟩

theorem Tidy.refreshed (h : Near lower community s value [])
    (htrackable : Trackable lower community s value) :
    Tidy lower community
      ((refreshTrackedCommunityAliases lower community s value).toOption.getD s) := by
  rw [refreshTrackedCommunityAliases]
  split
  · obtain ⟨s', hsync, htidy⟩ := h.synced htrackable
    rw [hsync]
    exact htidy
  · rename_i hhas
    exact h.tidy fun htracked => absurd htracked hhas

/-- The spellings of a name that is replaced are what may be stale. -/
theorem Tidy.renamed (h : Tidy lower community s) {name : V → Option String} {stale : List Alias}
    (hothers : ∀ other, other ≠ value → name other = s.name other)
    (hnameOk : s.registry.has value = true ∨ s.aliasHistory value ≠ [] →
      NameOk lower (community value) (name value) ∧ HasIdentity (community value) (name value))
    (hstale : s.registry.has value = true ∨ s.aliasHistory value ≠ [] → ∀ x,
      Named lower community s value x → Named lower community { s with name } value x ∨ x ∈ stale) :
    Near lower community { s with name } value stale := by
  have hnamed : ∀ other, other ≠ value → ∀ x,
      Named lower community { s with name } other x ↔ Named lower community s other x := by
    intro other hne x
    show HasAlias lower (identity (community other) (name other)) x ↔ _
    rw [hothers other hne]
    rfl
  refine ⟨h.ok, fun other hne hhas x => ?_, fun x hx => ?_, fun other x hx => ?_,
    fun other hother => ?_⟩
  · exact (h.owns other hhas x).trans (hnamed other hne x).symm
  · have hhas := Registry.has_of_mem hx
    exact hstale (.inl hhas) x ((h.owns value hhas x).1 hx)
  · by_cases heq : other = value
    · rw [heq] at hx ⊢
      have hne : s.aliasHistory value ≠ [] := List.ne_nil_of_mem hx
      exact (hstale (.inr hne) x (h.history value x hx)).imp id fun hx => ⟨rfl, hx⟩
    · exact .inl ((hnamed other heq x).2 (h.history other x hx))
  · by_cases heq : other = value
    · rw [heq] at hother ⊢
      exact hnameOk hother
    · show NameOk lower _ (name other) ∧ HasIdentity _ (name other)
      rw [hothers other heq]
      exact h.nameOk other hother

/-- **A record with another name.** -/
theorem Tidy.initRemoteCommunityProps (h : Tidy lower community s) {name : Option String}
    (hproper : Proper lower community s (.initRemoteCommunityProps value name)) :
    Tidy lower community (initRemoteCommunityProps lower community s value name) := by
  obtain ⟨htrackable, hwhen⟩ := hproper
  generalize hnames : Function.update s.name value name = names at htrackable
  have hothers : ∀ other, other ≠ value → names other = s.name other := fun other hne => by
    rw [← hnames, Function.update_of_ne hne]
  have hthis : names value = name := by rw [← hnames, Function.update_self]
  have hnameOk := fun _ : s.registry.has value = true ∨ s.aliasHistory value ≠ [] =>
    And.intro htrackable.1 htrackable.2.1
  have hkeys : ∀ x,
      (community value).publicKey = some x ∨ (community value).signerAddress = some x →
      Named lower community { s with name := names } value x := fun x hx => .inr hx
  rw [TrackedInstances.initRemoteCommunityProps, hnames]
  cases hbefore : s.name value with
  | none =>
    refine Tidy.refreshed (h.renamed hothers hnameOk fun _ x hx => .inl ?_) htrackable
    rcases hx with ⟨n, hn, -⟩ | hx
    · exact absurd (hbefore.symm.trans hn) (by simp)
    · exact hkeys x hx
  | some old =>
    dsimp only
    by_cases hdifferent :
        (name.all fun name => !areEquivalentCommunityAddresses lower name old) = true
    · -- another name: the old one is forgotten, if the instance is tracked
      rw [if_pos hdifferent]
      have hstale : Near lower community { s with name := names } value
          (if s.registry.has value = true then
            (if isEthAliasDomain lower old then getEquivalentCommunityAliases lower old else [old])
          else []) := by
        refine h.renamed hothers hnameOk fun hknown x hx => ?_
        rcases hx with ⟨n, hn, hx⟩ | hx
        · have hn : n = old := Option.some.inj (hn.symm.trans hbefore)
          rw [hn] at hx
          have hplain : Plain lower old := ((h.nameOk value hknown).1 old hbefore).1
          rcases hwhen with hhas | hnil | ⟨old', new, hold, hnew, hequivalent⟩
          · rw [if_pos hhas]
            exact .inr ((mem_spellings hplain).2 hx)
          · by_cases hhas : s.registry.has value = true
            · rw [if_pos hhas]
              exact .inr ((mem_spellings hplain).2 hx)
            · exact absurd hnil (hknown.resolve_left hhas)
          · have hold : old' = old := Option.some.inj (hold.symm.trans hbefore)
            rw [hnew, Option.all_some] at hdifferent
            rw [areEquivalentCommunityAddresses, ← hold, hequivalent] at hdifferent
            cases hdifferent
        · exact .inl (hkeys x hx)
      by_cases hhas : s.registry.has value = true
      · rw [if_pos hhas] at hstale
        obtain ⟨s', hforget, hnear, hname, -, hsub, -⟩ :=
          hstale.forgot (fun _ hx => hx) hhas
        rw [hforget]
        refine Tidy.refreshed hnear ⟨?_, ?_, fun x hx other hlisted => ?_⟩
        · rw [hname]
          exact htrackable.1
        · rw [hname]
          exact htrackable.2.1
        · refine htrackable.2.2 x ?_ other (hsub other x hlisted)
          rwa [Named, hname] at hx
      · rw [if_neg hhas] at hstale
        rw [forgetTrackedUpdatingCommunityName, if_neg hhas]
        exact Tidy.refreshed hstale htrackable
    · -- the same name, or one that is spelled in another way
      rename' hdifferent => hsame
      rw [if_neg hsame]
      refine Tidy.refreshed (h.renamed hothers hnameOk fun hknown x hx => .inl ?_) htrackable
      cases hname : name with
      | none =>
        rw [hname] at hsame
        exact absurd rfl hsame
      | some new =>
        rw [hname, Option.all_some, Bool.not_eq_true, Bool.not_eq_false'] at hsame
        have hnew : names value = some new := hthis.trans hname
        exact Named.of_equivalent hbefore hnew ((h.nameOk value hknown).1 old hbefore).1
          (htrackable.1 new hnew).1 hsame hx

theorem setHistory_eq_self (s : State V) (value : V) :
    setHistory s value (s.aliasHistory value) = s := by
  rw [setHistory, Function.update_eq_self]

/-- **One step.** -/
theorem Tidy.step (h : Tidy lower community s) {event : Event V}
    (hproper : Proper lower community s event) :
    Tidy lower community (step lower community s event) := by
  cases event with
  | track value aliases =>
    obtain ⟨htrackable, haliases, hall⟩ := hproper
    obtain ⟨r', htrack, hok, hhas, howns⟩ := Registry.owns_track h.ok value aliases
    have hadded := (h.near value).added htrackable hok
      (fun other hne hother => ((hhas other).1 hother).resolve_right hne) howns haliases
      (fun _ x hx => hall.symm.imp (fun hall => hall x hx) fun hhas => (h.owns value hhas x).2 hx)
      (h.history value)
    rw [setHistory_eq_self] at hadded
    rw [TrackedInstances.step, htrack]
    exact hadded
  | addAliases value aliases =>
    obtain ⟨htrackable, haliases⟩ := hproper
    rw [TrackedInstances.step]
    by_cases hhas : s.registry.has value = true
    · obtain ⟨r', hadd, hok, hkept, howns⟩ := Registry.owns_addAliases h.ok hhas aliases
      have hadded := (h.near value).added htrackable hok
        (fun other _ hother => (hkept other).symm.trans hother) howns haliases
        (fun _ x hx => .inr ((h.owns value hhas x).2 hx)) (h.history value)
      rw [setHistory_eq_self] at hadded
      rw [hadd]
      exact hadded
    · rw [Registry.addAliases, if_neg hhas]
      exact h
  | removeAliases value aliases =>
    obtain ⟨hok, hhas, howns⟩ := Registry.owns_removeAliases h.ok value aliases
    refine ⟨hok, fun other hother x => ?_, h.history, fun other hother => ?_⟩
    · refine (howns other x).trans ((and_iff_left_of_imp fun hx hboth => ?_).trans
        (h.owns other (hhas other ▸ hother) x))
      have hnamed := (h.owns other (Registry.has_of_mem hx) x).1 hx
      exact hproper x hboth.1 (hboth.2 ▸ hnamed)
    · exact h.nameOk other (hother.imp (fun hother => hhas other ▸ hother) id)
  | untrack value =>
    obtain ⟨hok, hhas, howns⟩ := Registry.owns_untrack h.ok value
    refine ⟨hok, fun other hother x => ?_, h.history, fun other hother => ?_⟩
    · obtain ⟨hbefore, hne⟩ := (hhas other).1 hother
      exact (howns other x).trans ((and_iff_left hne).trans (h.owns other hbefore x))
    · exact h.nameOk other (hother.imp (fun hother => ((hhas other).1 hother).1) id)
  | trackUpdatingCommunity value =>
    obtain ⟨s', hsync, htidy⟩ := (h.near value).synced hproper
    rw [TrackedInstances.step, hsync]
    exact htidy
  | forgetTrackedUpdatingCommunityName value name =>
    rw [TrackedInstances.step]
    by_cases hhas : s.registry.has value = true
    · obtain ⟨s', hforget, hnear, hname, -, -, hkept⟩ :=
        (h.near value).forgot (fun _ hx => absurd hx List.not_mem_nil) hhas
      rw [hforget]
      refine hnear.tidy fun _ x hx => ?_
      rw [Named, hname] at hx
      exact hkept x hx ((h.owns value hhas x).2 hx)
    · rw [forgetTrackedUpdatingCommunityName, if_neg hhas]
      exact h
  | initRemoteCommunityProps value name => exact h.initRemoteCommunityProps hproper

theorem tidy_start (name : V → Option String) : Tidy lower community (start name) where
  ok := Registry.ok_empty
  owns _ h := by cases h
  history _ _ h := absurd h List.not_mem_nil
  nameOk _ h := h.elim (fun h => by cases h) fun h => absurd rfl h

end Runs

/-! ## What a look-up finds -/

section Lookups

variable {V : Type u} [DecidableEq V] (lower : LowerCase) (community : V → TrackedCommunity)

/-- A look-up by a plain name, a key or both. -/
structure LookupOk (lookup : CommunityLookup) : Prop where
  name : ∀ name, lookup.name = some name → Plain lower name
  publicKey : ∀ key, lookup.publicKey = some key → key ≠ "" ∧ isStringDomain key = false
  some : ∃ x, lookup.name = some x ∨ lookup.publicKey = some x

/-- A tracked instance has an equivalent name. -/
def MatchesName (s : State V) (lookup : CommunityLookup) (value : V) : Prop :=
  s.registry.has value = true ∧ ∃ name own, lookup.name = some name ∧ s.name value = some own ∧
    areEquivalentNames lower name own = true

/-- A tracked instance has the key. -/
def MatchesKey (s : State V) (lookup : CommunityLookup) (value : V) : Prop :=
  s.registry.has value = true ∧ ∃ key, lookup.publicKey = some key ∧
    ((community value).publicKey = some key ∨ (community value).signerAddress = some key)

/-- The name and the key of the look-up are not those of two instances. -/
def OneInstance (s : State V) (lookup : CommunityLookup) : Prop :=
  ∀ value other, MatchesName lower s lookup value → MatchesKey community s lookup other →
    value = other

/-- The look-up gives the instance that has the name or the key. -/
def Finds (s : State V) (lookup : CommunityLookup) : Prop :=
  ∃ result, findCommunityInRegistry lower s.registry lookup = .ok result ∧
    ∀ value, result = some value ↔
      MatchesName lower s lookup value ∨ MatchesKey community s lookup value

variable {lower : LowerCase} {community : V → TrackedCommunity} {s : State V}
  {lookup : CommunityLookup} {value other : V}

/-- What a look-up asks for. -/
def Asked (lower : LowerCase) (lookup : CommunityLookup) (x : Alias) : Prop :=
  HasAlias lower ⟨lookup.name, lookup.publicKey, none⟩ x

theorem LookupOk.aliases_eq_ok (h : LookupOk lower lookup) :
    ∃ aliases, getCommunityRegistryAliases lower ⟨lookup.name, lookup.publicKey, none⟩ =
      .ok aliases ∧ ∀ x, x ∈ aliases ↔ Asked lower lookup x := by
  refine getCommunityRegistryAliases_eq_ok ⟨h.name, h.publicKey, fun key hkey => by cases hkey⟩ ?_
  obtain ⟨x, hx⟩ := h.some
  exact ⟨x, hx.imp id Or.inl⟩

/-- An alias that is asked for and listed is of the name or the key. -/
theorem Tidy.asked_iff (h : Tidy lower community s) (hlookup : LookupOk lower lookup) :
    (∃ x, Asked lower lookup x ∧ x ∈ s.registry.aliasesOf value) ↔
      MatchesName lower s lookup value ∨ MatchesKey community s lookup value := by
  constructor
  · rintro ⟨x, hasked, hlisted⟩
    have hhas := Registry.has_of_mem hlisted
    have hnameOk := (h.nameOk value (.inl hhas)).1
    have hkey : ∀ x, ((community value).publicKey = some x ∨
        (community value).signerAddress = some x) → isStringDomain x = false := fun x hx =>
      hx.elim (fun hx => ((community value).publicKey_ok x hx).2)
        fun hx => ((community value).signerAddress_ok x hx).2
    rcases hasked with ⟨name, hname, hx⟩ | hx | hx
    · have hdomain := isStringDomain_of_mem (hlookup.name name hname) hx
      rcases (h.owns value hhas x).1 hlisted with ⟨own, hown, hx'⟩ | hx'
      · refine .inl ⟨hhas, name, own, hname, hown, ?_⟩
        exact (equivalent_iff (hlookup.name name hname).2 (hnameOk own hown).1.2).1.2 ⟨x, hx, hx'⟩
      · rw [hkey x hx'] at hdomain
        cases hdomain
    · rcases (h.owns value hhas x).1 hlisted with ⟨own, hown, hx'⟩ | hx'
      · have hdomain := isStringDomain_of_mem (hnameOk own hown).1 hx'
        rw [(hlookup.publicKey x hx).2] at hdomain
        cases hdomain
      · exact .inr ⟨hhas, x, hx, hx'⟩
    · cases hx
  · rintro (⟨hhas, name, own, hname, hown, hequivalent⟩ | ⟨hhas, key, hkey, hown⟩)
    · have hnameOk := (h.nameOk value (.inl hhas)).1
      obtain ⟨x, hx, hx'⟩ := (equivalent_iff (hlookup.name name hname).2
        (hnameOk own hown).1.2).1.1 hequivalent
      exact ⟨x, .inl ⟨name, hname, hx⟩, (h.owns value hhas x).2 (.inl ⟨own, hown, hx'⟩)⟩
    · exact ⟨key, .inr (.inl hkey), (h.owns value hhas key).2 (.inr hown)⟩

/-- Two instances have no name and no key in common. -/
theorem Tidy.eq_of_matchesName (h : Tidy lower community s) (hlookup : LookupOk lower lookup)
    (hvalue : MatchesName lower s lookup value) (hother : MatchesName lower s lookup other) :
    value = other := by
  obtain ⟨hhas, name, own, hname, hown, hequivalent⟩ := hvalue
  obtain ⟨hhas', name', own', hname', hown', hequivalent'⟩ := hother
  cases hname.symm.trans hname'
  have hplain := (hlookup.name name hname).2
  have hplain₁ := ((h.nameOk value (.inl hhas)).1 own hown).1.2
  have hplain₂ := ((h.nameOk other (.inl hhas')).1 own' hown').1.2
  obtain ⟨x, hx, hx'⟩ := (equivalent_iff hplain hplain₁).1.1 hequivalent
  refine h.ok.eq_of_mem ((h.owns value hhas x).2 (.inl ⟨own, hown, hx'⟩))
    ((h.owns other hhas' x).2 (.inl ⟨own', hown', ?_⟩))
  exact ((equivalent_iff hplain hplain₂).2 hequivalent' x).1 hx

theorem Tidy.eq_of_matchesKey (h : Tidy lower community s)
    (hvalue : MatchesKey community s lookup value) (hother : MatchesKey community s lookup other) :
    value = other := by
  obtain ⟨hhas, key, hkey, hown⟩ := hvalue
  obtain ⟨hhas', key', hkey', hown'⟩ := hother
  cases hkey.symm.trans hkey'
  exact h.ok.eq_of_mem ((h.owns value hhas key).2 (.inr hown))
    ((h.owns other hhas' key).2 (.inr hown'))

/-- **A look-up does what it should unless two instances are meant.**  Then it throws. -/
theorem Tidy.finds_iff (h : Tidy lower community s) (hlookup : LookupOk lower lookup) :
    Finds lower community s lookup ↔ OneInstance lower community s lookup := by
  obtain ⟨aliases, haliases, hasked⟩ := hlookup.aliases_eq_ok
  have hfind :
      findCommunityInRegistry lower s.registry lookup = s.registry.findByAliases aliases := by
    rw [findCommunityInRegistry, haliases]
    rfl
  have hlisted : ∀ value, (∃ aka ∈ aliases, aka ∈ s.registry.aliasesOf value) ↔
      MatchesName lower s lookup value ∨ MatchesKey community s lookup value := by
    intro value
    simp only [hasked]
    exact h.asked_iff hlookup
  obtain ⟨hone, htwo⟩ := Registry.findByAliases_spec h.ok aliases
  simp only [hlisted] at hone htwo
  rw [Finds, hfind]
  constructor
  · rintro ⟨result, hresult, -⟩ value other hvalue hother
    by_contra hne
    rw [htwo value other hne (.inl hvalue) (.inr hother)] at hresult
    cases hresult
  · intro hsame
    refine hone fun value other hvalue hother => ?_
    rcases hvalue with hvalue | hvalue
    · rcases hother with hother | hother
      · exact h.eq_of_matchesName hlookup hvalue hother
      · exact hsame value other hvalue hother
    · rcases hother with hother | hother
      · exact (hsame other value hother hvalue).symm
      · exact h.eq_of_matchesKey hvalue hother

/-- **The registry over whole runs.**  The index is always sound, and the look-ups by one alias
never throw.  If each name and key is of one instance, look-ups find what they should, those apart
whose name and key are of two instances. -/
theorem registry_of_run (lower : LowerCase) (community : V → TrackedCommunity)
    (name : V → Option String) :
    (∀ events t, Run (takeStep lower community) anyStep (start name) events t →
      (∀ aka, (t.registry.ownersOf aka).length ≤ 1) ∧
      (∀ value aka, aka ∈ t.registry.aliasesOf value ↔ value ∈ t.registry.ownersOf aka) ∧
      ∀ aka, t.registry.findByAlias aka = .ok (t.registry.ownersOf aka).head?) ∧
    ∀ events t, Run (takeStep lower community) (Proper lower community) (start name) events t →
      ∀ lookup, LookupOk lower lookup →
        (Finds lower community t lookup ↔ OneInstance lower community t lookup) := by
  constructor
  · intro events t hrun
    have hok : t.registry.Ok := by
      refine hrun.invariant (I := fun s : State V => s.registry.Ok)
        (fun s event s' hok _ hstep => ?_) Registry.ok_empty
      cases hstep
      exact ok_step hok event
    exact ⟨hok.length_le, hok.twoWay, Registry.findByAlias_eq hok⟩
  · intro events t hrun lookup hlookup
    have htidy : Tidy lower community t := by
      refine hrun.invariant (fun s event s' htidy hproper hstep => ?_) (tidy_start name)
      cases hstep
      exact htidy.step hproper
    exact htidy.finds_iff hlookup

end Lookups

/-! ### A name and a key of two instances -/

/-- One instance was loaded by its domain, the other by its key. -/
def loaded : Bool → TrackedCommunity
  | true => ⟨"board.bso", some "K1", none, by simp [isStringDomain], fun _ h => by cases h⟩
  | false => ⟨"K2", some "K2", none, by simp [isStringDomain], fun _ h => by cases h⟩

def loadedName : Bool → Option String
  | true => some "board.bso"
  | false => none

def bothTracked : List (Event Bool) :=
  [.trackUpdatingCommunity true, .trackUpdatingCommunity false]

/-- Both are tracked, and the second one learns its name. -/
def nameLearnt : List (Event Bool) :=
  bothTracked ++ [.initRemoteCommunityProps false (some "shop.bso")]

theorem trackable_of_plain {s : State Bool} {value : Bool}
    (hname : ∀ name, s.name value = some name → Plain asciiLowerCase name ∧
      (isStringDomain (loaded value).address = true →
        areEquivalentNames asciiLowerCase name (loaded value).address = true))
    (hothers : ∀ x ∈ (s.name value).toList.flatMap (getEquivalentCommunityAliases asciiLowerCase) ++
      (loaded value).publicKey.toList, x ∉ s.registry.aliasesOf (!value)) :
    Trackable asciiLowerCase loaded s value := by
  refine ⟨hname, ?_, fun x hx other hlisted => ?_⟩
  · cases value
    · exact ⟨"K2", .inr (.inl rfl)⟩
    · exact ⟨"K1", .inr (.inl rfl)⟩
  · by_contra hne
    obtain rfl : other = !value := by
      cases value <;> cases other <;> first | rfl | exact absurd rfl hne
    refine hothers x ?_ hlisted
    rcases hx with ⟨name, hsome, hx⟩ | hx | hx
    · replace hsome : s.name value = some name := hsome
      simp only [hsome, Option.toList_some, List.flatMap_cons]
      exact List.mem_append_left _ (List.mem_append_left _ hx)
    · replace hx : (loaded value).publicKey = some x := hx
      exact List.mem_append_right _ (by simp [hx])
    · cases value <;> cases hx

/-- Each of two instances is found by the other spelling of its name and by its key. -/
theorem registry_of_two :
    ∃ t, Run (takeStep asciiLowerCase loaded) (Proper asciiLowerCase loaded) (start loadedName)
        nameLearnt t ∧
      ∀ lookup ∈ [⟨some "board.eth", some "K1"⟩, ⟨some "shop.eth", some "K2"⟩],
        (Finds asciiLowerCase loaded t lookup ↔ OneInstance asciiLowerCase loaded t lookup) := by
  have hrun : ∃ t, Run (takeStep asciiLowerCase loaded) (Proper asciiLowerCase loaded)
      (start loadedName) nameLearnt t := by
    refine ⟨_, .cons (trackable_of_plain ?_ ?_) rfl <| .cons (trackable_of_plain ?_ ?_) rfl <|
      .cons ⟨trackable_of_plain ?_ ?_, .inl ?_⟩ rfl <| .nil _⟩
    · intro name hname
      cases hname
      exact ⟨⟨by decide, by decide⟩, fun _ => by decide⟩
    · exact fun _ _ => List.not_mem_nil
    · exact fun _ hname => by cases hname
    · decide +kernel
    · intro name hname
      cases hname
      exact ⟨⟨by decide, by decide⟩, fun h => absurd h (by decide)⟩
    · decide +kernel
    · decide +kernel
  obtain ⟨t, hrun⟩ := hrun
  refine ⟨t, hrun, fun lookup hlookup =>
    (registry_of_run asciiLowerCase loaded loadedName).2 _ _ hrun lookup ?_⟩
  rcases List.mem_pair.1 hlookup with rfl | rfl
  · exact ⟨fun _ h => by cases h; exact ⟨by decide, by decide⟩,
      fun _ h => by cases h; exact ⟨by decide, by decide⟩, ⟨"K1", .inr rfl⟩⟩
  · exact ⟨fun _ h => by cases h; exact ⟨by decide, by decide⟩,
      fun _ h => by cases h; exact ⟨by decide, by decide⟩, ⟨"K2", .inr rfl⟩⟩

/-- A comment that was signed for a key, with a name that has since been given another key. -/
theorem not_found_by_two :
    ∃ t, Run (takeStep asciiLowerCase loaded) anyStep (start loadedName) bothTracked t ∧
      findCommunityInRegistry asciiLowerCase t.registry ⟨some "board.eth", some "K2"⟩ =
        .error .invariantViolatedForLookup := by
  exact ⟨_, .cons trivial rfl (.cons trivial rfl (.nil _)), rfl⟩

end TrackedInstances
end Pkc
