import Mathlib.Data.List.Nodup
import Pkc.Library.Dictionary

/-!
# A registry with one instance for each alias

`TrackedInstanceRegistry` keeps instances of some kind under aliases, so that they are found again
by any of them.  It has the aliases of each instance and the instances of each alias; an alias that
an instance is given is taken from the one that had it.

* `Registry.Ok` says that the two directions agree and that an alias has one owner.
* `owns_addAliases`, `owns_track`, `owns_removeAliases` and `owns_untrack` are all that is used of
  the operations, each in terms of what an instance lists.
* `findByAlias_eq` and `findByAliases_spec` are the look-ups: by one alias they never throw, by
  several exactly if these are of two instances.
-/

set_option autoImplicit false

namespace Pkc
namespace TrackedInstances

universe u

abbrev Alias := String

/-! ## The registry -/

/-- `Set.add` -/
def setAdd {α : Type u} [DecidableEq α] (l : List α) (x : α) : List α :=
  if x ∈ l then l else l ++ [x]

theorem mem_setAdd {α : Type u} [DecidableEq α] {l : List α} {x y : α} :
    y ∈ setAdd l x ↔ y ∈ l ∨ y = x := by
  rw [setAdd]
  split
  · rename_i hmem
    exact ⟨Or.inl, fun h => h.elim id fun h => h ▸ hmem⟩
  · simp

theorem nodup_setAdd {α : Type u} [DecidableEq α] {l : List α} {x : α} (h : l.Nodup) :
    (setAdd l x).Nodup := by
  rw [setAdd]
  split
  · exact h
  · rename_i hmem
    exact List.nodup_append.2 ⟨h, List.nodup_singleton _, fun a ha b hb hab =>
      hmem (List.mem_singleton.1 hb ▸ hab ▸ ha)⟩

inductive RegistryError
  | cannotAddAliasesForAnUntrackedValue
  | invariantViolatedForAlias
  | invariantViolatedForLookup
  | ERR_COMMUNITY_REGISTRY_LOOKUP_HAS_NO_ALIASES
deriving DecidableEq, Repr

/-- `TrackedInstanceRegistry` -/
structure Registry (V : Type u) where
  entries : Dictionary V (List Alias)
  aliases : Dictionary Alias (List V)

namespace Registry

variable {V : Type u} [DecidableEq V]

def empty : Registry V := ⟨[], []⟩

def has (r : Registry V) (value : V) : Bool := (r.entries.get value).isSome

/-- The aliases that an instance lists. -/
def aliasesOf (r : Registry V) (value : V) : List Alias := (r.entries.get value).getD []

/-- The instances that are listed under an alias. -/
def ownersOf (r : Registry V) (aka : Alias) : List V := (r.aliases.get aka).getD []

/-- An alias is taken from an instance. -/
def revoke (aka : Alias) (entries : Dictionary V (List Alias)) (existingValue : V) :
    Dictionary V (List Alias) :=
  match entries.get existingValue with
  | some otherEntry => entries.set existingValue (otherEntry.filter (· ≠ aka))
  | none => entries

/-- One alias of `addAliases`. -/
def addAlias (value : V) (r : Registry V) (aka : Alias) : Registry V :=
  let entry := r.aliasesOf value
  if aka = "" ∨ aka ∈ entry then r
  else
    let entries := r.entries.set value (setAdd entry aka)
    match r.aliases.get aka with
    | some trackedValues =>
      ⟨(trackedValues.filter (· ≠ value)).foldl (revoke aka) entries,
        r.aliases.set aka (setAdd (trackedValues.filter (· = value)) value)⟩
    | none => ⟨entries, r.aliases.set aka [value]⟩

def addAliases (r : Registry V) (value : V) (aliases : List Alias) :
    Except RegistryError (Registry V) :=
  if r.has value then .ok (aliases.foldl (addAlias value) r)
  else .error .cannotAddAliasesForAnUntrackedValue

def track (r : Registry V) (value : V) (aliases : List Alias) : Except RegistryError (Registry V) :=
  let r := if r.has value then r else { r with entries := r.entries.set value [] }
  r.addAliases value aliases

/-- An instance is taken from the list of an alias. -/
def release (value : V) (aliases : Dictionary Alias (List V)) (aka : Alias) :
    Dictionary Alias (List V) :=
  match aliases.get aka with
  | none => aliases
  | some trackedValues =>
    let trackedValues := trackedValues.filter (· ≠ value)
    if trackedValues.isEmpty then aliases.delete aka else aliases.set aka trackedValues

/-- One alias of `removeAliases`. -/
def removeAlias (value : V) (r : Registry V) (aka : Alias) : Registry V :=
  if aka ∈ r.aliasesOf value then
    ⟨r.entries.set value ((r.aliasesOf value).filter (· ≠ aka)), release value r.aliases aka⟩
  else r

def removeAliases (r : Registry V) (value : V) (aliases : List Alias) : Registry V :=
  if r.has value then aliases.foldl (removeAlias value) r else r

def untrack (r : Registry V) (value : V) : Registry V :=
  match r.entries.get value with
  | none => r
  | some aliases => ⟨r.entries.delete value, aliases.foldl (release value) r.aliases⟩

def findByAlias (r : Registry V) (aka : Alias) : Except RegistryError (Option V) :=
  match r.aliases.get aka with
  | none => .ok none
  | some trackedValues =>
    if trackedValues.length > 1 then .error .invariantViolatedForAlias
    else .ok trackedValues.head?

/-- The instances that a look-up comes across. -/
def matchesOf (r : Registry V) : List Alias → List V → Except RegistryError (List V)
  | [], found => .ok found
  | aka :: aliases, found =>
    (r.findByAlias aka).bind fun
      | some value => matchesOf r aliases (setAdd found value)
      | none => matchesOf r aliases found

def findByAliases (r : Registry V) (aliases : List Alias) : Except RegistryError (Option V) :=
  (r.matchesOf aliases []).bind fun found =>
    if found.length > 1 then .error .invariantViolatedForLookup else .ok found.head?

/-! ### The two directions agree -/

/-- The aliases of an instance are those it is listed under, and nobody else is listed there. -/
structure Ok (r : Registry V) : Prop where
  twoWay : ∀ value aka, aka ∈ r.aliasesOf value ↔ value ∈ r.ownersOf aka
  unique : ∀ aka value value', value ∈ r.ownersOf aka → value' ∈ r.ownersOf aka →
    value = value'
  nodup : ∀ aka, (r.ownersOf aka).Nodup
  nonempty : ∀ value, "" ∉ r.aliasesOf value

variable {r : Registry V} {value other : V} {aka aka' : Alias} {aliases : List Alias}

theorem ok_empty : (empty : Registry V).Ok where
  twoWay _ _ := iff_of_false List.not_mem_nil List.not_mem_nil
  unique _ _ _ h := absurd h List.not_mem_nil
  nodup _ := List.nodup_nil
  nonempty _ := List.not_mem_nil

theorem Ok.eq_of_mem (h : r.Ok) (hvalue : aka ∈ r.aliasesOf value)
    (hother : aka ∈ r.aliasesOf other) : value = other :=
  h.unique aka value other ((h.twoWay _ _).1 hvalue) ((h.twoWay _ _).1 hother)

theorem has_of_mem (h : aka ∈ r.aliasesOf value) : r.has value = true := by
  rw [aliasesOf] at h
  rw [has]
  cases hentry : r.entries.get value with
  | none =>
    rw [hentry] at h
    exact absurd h List.not_mem_nil
  | some entry => rfl

theorem get_foldl_revoke (aka : Alias) (others : List V) (entries : Dictionary V (List Alias))
    (value : V) : (others.foldl (revoke aka) entries).get value =
      if value ∈ others then (entries.get value).map (·.filter (· ≠ aka))
      else entries.get value := by
  induction others generalizing entries with
  | nil => rfl
  | cons first others ih =>
    have hfirst : (revoke aka entries first).get value =
        if value = first then (entries.get value).map (·.filter (· ≠ aka))
        else entries.get value := by
      rw [revoke]
      split
      · rename_i hget
        rw [Dictionary.get_set]
        split
        · rename_i heq
          rw [heq, hget]
          rfl
        · rfl
      · rename_i hget
        split
        · rename_i heq
          rw [heq, hget]
          rfl
        · rfl
    rw [List.foldl_cons, ih, hfirst]
    by_cases heq : value = first
    · rw [if_pos heq, if_pos (List.mem_cons.2 (.inl heq))]
      split
      · rw [Option.map_map]
        congr 1
        funext entry
        simp
      · rfl
    · rw [if_neg heq]
      by_cases hmem : value ∈ others
      · rw [if_pos hmem, if_pos (List.mem_cons_of_mem _ hmem)]
      · rw [if_neg hmem, if_neg (fun h => (List.mem_cons.1 h).elim heq hmem)]

/-! ### What the operations change -/

/-- `addAlias`, where the instance does not have the alias yet. -/
theorem addAlias_of_not_mem (hne : aka ≠ "") (hmem : aka ∉ r.aliasesOf value) :
    addAlias value r aka =
      ⟨((r.ownersOf aka).filter (· ≠ value)).foldl (revoke aka)
          (r.entries.set value (setAdd (r.aliasesOf value) aka)),
        r.aliases.set aka (setAdd ((r.ownersOf aka).filter (· = value)) value)⟩ := by
  rw [addAlias, if_neg (not_or.2 ⟨hne, hmem⟩), ownersOf]
  cases r.aliases.get aka with
  | none => rfl
  | some trackedValues => rfl

theorem has_addAlias : (addAlias value r aka).has other = true ↔
    r.has other = true ∨ other = value ∧ aka ≠ "" ∧ aka ∉ r.aliasesOf value := by
  by_cases hskip : aka = "" ∨ aka ∈ r.aliasesOf value
  · rw [addAlias, if_pos hskip]
    exact ⟨Or.inl, fun h => h.elim id fun h => absurd hskip (not_or.2 h.2)⟩
  · obtain ⟨hne, hmem⟩ := not_or.1 hskip
    rw [addAlias_of_not_mem hne hmem, has, has, get_foldl_revoke, Dictionary.get_set]
    by_cases heq : other = value
    · rw [if_pos heq, if_neg (by simp [heq])]
      exact iff_of_true rfl (.inr ⟨heq, hne, hmem⟩)
    · rw [if_neg heq]
      split
      · simp [heq]
      · simp [heq]

theorem mem_aliasesOf_addAlias (h : r.Ok) (hne : aka ≠ "") {x : Alias} :
    x ∈ (addAlias value r aka).aliasesOf other ↔
      if x = aka then other = value else x ∈ r.aliasesOf other := by
  by_cases hmem : aka ∈ r.aliasesOf value
  · rw [addAlias, if_pos (.inr hmem)]
    split
    · rename_i heq
      rw [heq]
      exact ⟨fun hother => h.eq_of_mem hother hmem, fun heq => heq ▸ hmem⟩
    · rfl
  · rw [addAlias_of_not_mem hne hmem, aliasesOf, get_foldl_revoke, Dictionary.get_set]
    by_cases heq : other = value
    · rw [if_pos heq, if_neg (by simp [heq]), Option.getD_some, mem_setAdd, heq]
      split
      · rename_i hx
        exact iff_of_true (.inr hx) rfl
      · rename_i hx
        exact or_iff_left hx
    · rw [if_neg heq]
      by_cases howner : other ∈ r.ownersOf aka
      · have hfilter : other ∈ (r.ownersOf aka).filter (· ≠ value) :=
          List.mem_filter.2 ⟨howner, by simpa using heq⟩
        have hget : ((r.entries.get other).map (·.filter (· ≠ aka))).getD [] =
            (r.aliasesOf other).filter (· ≠ aka) := by
          rw [aliasesOf]
          cases r.entries.get other <;> rfl
        rw [if_pos hfilter, hget, List.mem_filter]
        split
        · rename_i hx
          simp [hx, heq]
        · rename_i hx
          simp [hx]
      · rw [if_neg fun hmem => howner (List.mem_filter.1 hmem).1]
        split
        · rename_i hx
          refine iff_of_false (fun hlisted => howner ?_) heq
          exact (h.twoWay other aka).1 (hx ▸ hlisted)
        · rfl

theorem mem_ownersOf_addAlias (h : r.Ok) (hne : aka ≠ "") {x : Alias} :
    other ∈ (addAlias value r aka).ownersOf x ↔
      if x = aka then other = value else other ∈ r.ownersOf x := by
  by_cases hmem : aka ∈ r.aliasesOf value
  · rw [addAlias, if_pos (.inr hmem)]
    have howner := (h.twoWay value aka).1 hmem
    split
    · rename_i heq
      rw [heq]
      exact ⟨fun hother => h.unique aka other value hother howner, fun heq => heq ▸ howner⟩
    · rfl
  · rw [addAlias_of_not_mem hne hmem, ownersOf, Dictionary.get_set]
    split
    · rw [Option.getD_some, mem_setAdd, List.mem_filter]
      simp
    · rfl

theorem Ok.addAlias (h : r.Ok) (hne : aka ≠ "") : (addAlias value r aka).Ok where
  twoWay other x := by
    rw [mem_aliasesOf_addAlias h hne, mem_ownersOf_addAlias h hne]
    split
    · rfl
    · exact h.twoWay other x
  unique x other other' hmem hmem' := by
    rw [mem_ownersOf_addAlias h hne] at hmem hmem'
    split at hmem
    · rename_i heq
      rw [if_pos heq] at hmem'
      exact hmem.trans hmem'.symm
    · rename_i heq
      rw [if_neg heq] at hmem'
      exact h.unique x other other' hmem hmem'
  nodup x := by
    by_cases hmem : aka ∈ r.aliasesOf value
    · rw [Registry.addAlias, if_pos (.inr hmem)]
      exact h.nodup x
    · rw [addAlias_of_not_mem hne hmem, ownersOf, Dictionary.get_set]
      split
      · exact nodup_setAdd ((h.nodup aka).filter _)
      · exact h.nodup x
  nonempty other hempty := by
    rw [mem_aliasesOf_addAlias h hne, if_neg hne.symm] at hempty
    exact h.nonempty other hempty

/-- **Adding aliases.**  Each of them is now of this instance, whoever had it. -/
theorem owns_addAliases (h : r.Ok) (hhas : r.has value = true) (aliases : List Alias) :
    ∃ r', r.addAliases value aliases = .ok r' ∧ r'.Ok ∧
      (∀ other, r'.has other = r.has other) ∧
      ∀ other x, x ∈ r'.aliasesOf other ↔
        if x ∈ aliases ∧ x ≠ "" then other = value else x ∈ r.aliasesOf other := by
  refine ⟨aliases.foldl (addAlias value) r, by rw [addAliases, if_pos hhas], ?_⟩
  induction aliases generalizing r with
  | nil => exact ⟨h, fun _ => rfl, fun _ _ => by simp⟩
  | cons aka aliases ih =>
    by_cases hne : aka = ""
    · have hskip : addAlias value r aka = r := by rw [addAlias, if_pos (.inl hne)]
      rw [List.foldl_cons, hskip]
      obtain ⟨hok, hkept, howns⟩ := ih h hhas
      refine ⟨hok, hkept, fun other x => (howns other x).trans ?_⟩
      have hiff : x ∈ aliases ∧ x ≠ "" ↔ x ∈ aka :: aliases ∧ x ≠ "" := by
        refine and_congr_left fun hx => ?_
        rw [List.mem_cons, hne]
        exact (or_iff_right hx).symm
      simp only [hiff]
    · have hstep : ∀ other, (addAlias value r aka).has other = r.has other := by
        intro other
        rw [Bool.eq_iff_iff, has_addAlias]
        exact ⟨fun h => h.elim id fun h => h.1 ▸ hhas, Or.inl⟩
      obtain ⟨hok, hkept, howns⟩ := ih (h.addAlias hne) ((hstep value).trans hhas)
      refine ⟨hok, fun other => (hkept other).trans (hstep other), fun other x => ?_⟩
      rw [List.foldl_cons, howns other x, mem_aliasesOf_addAlias h hne]
      by_cases hx : x = aka
      · rw [if_pos hx, ite_self, if_pos ⟨List.mem_cons.2 (.inl hx), hx ▸ hne⟩]
      · have hiff : x ∈ aka :: aliases ↔ x ∈ aliases := by
          rw [List.mem_cons]
          exact or_iff_right hx
        rw [if_neg hx]
        simp only [hiff]

theorem mem_release {aliases : Dictionary Alias (List V)} {x : Alias} :
    other ∈ ((release value aliases aka).get x).getD [] ↔
      other ∈ (aliases.get x).getD [] ∧ ¬(x = aka ∧ other = value) := by
  rw [release]
  split
  · rename_i hget
    refine ⟨fun hmem => ⟨hmem, fun hboth => ?_⟩, fun h => h.1⟩
    rw [hboth.1, hget] at hmem
    exact absurd hmem List.not_mem_nil
  · rename_i trackedValues hget
    dsimp only
    split
    · rename_i hempty
      rw [Dictionary.get_delete]
      split
      · rename_i heq
        have hall : ∀ w ∈ trackedValues, w = value := by
          intro w hw
          by_contra hne
          have hmem : w ∈ trackedValues.filter (· ≠ value) :=
            List.mem_filter.2 ⟨hw, by simpa using hne⟩
          rw [List.isEmpty_iff.1 hempty] at hmem
          exact List.not_mem_nil hmem
        rw [heq, hget]
        exact iff_of_false List.not_mem_nil fun h => h.2 ⟨rfl, hall other h.1⟩
      · rename_i hne
        exact (and_iff_left fun h => hne h.1).symm
    · rw [Dictionary.get_set]
      split
      · rename_i heq
        rw [Option.getD_some, List.mem_filter, heq, hget, Option.getD_some]
        simp
      · rename_i hne
        exact (and_iff_left fun h => hne h.1).symm

theorem nodup_release {aliases : Dictionary Alias (List V)}
    (h : ∀ x, ((aliases.get x).getD []).Nodup) (x : Alias) :
    (((release value aliases aka).get x).getD []).Nodup := by
  rw [release]
  split
  · exact h x
  · rename_i trackedValues hget
    have hnodup : trackedValues.Nodup := by
      have haka := h aka
      rwa [hget] at haka
    dsimp only
    split
    · rw [Dictionary.get_delete]
      split
      · exact List.nodup_nil
      · exact h x
    · rw [Dictionary.get_set]
      split
      · exact hnodup.filter _
      · exact h x

/-- What is left when instances and aliases are taken apart. -/
theorem Ok.of_sub {r' : Registry V} (gone : V → Alias → Prop) (h : r.Ok)
    (hnodup : ∀ x, (r'.ownersOf x).Nodup)
    (haliases : ∀ other x, x ∈ r'.aliasesOf other ↔ x ∈ r.aliasesOf other ∧ ¬ gone other x)
    (howners : ∀ other x, other ∈ r'.ownersOf x ↔ other ∈ r.ownersOf x ∧ ¬ gone other x) :
    r'.Ok where
  twoWay other x := by rw [haliases, howners, h.twoWay]
  unique x other other' hmem hmem' :=
    h.unique x other other' ((howners _ _).1 hmem).1 ((howners _ _).1 hmem').1
  nodup := hnodup
  nonempty other hempty := h.nonempty other ((haliases _ _).1 hempty).1

theorem mem_aliasesOf_removeAlias {x : Alias} :
    x ∈ (removeAlias value r aka).aliasesOf other ↔
      x ∈ r.aliasesOf other ∧ ¬(x = aka ∧ other = value) := by
  rw [removeAlias]
  split
  · rw [aliasesOf, Dictionary.get_set]
    split
    · rename_i heq
      rw [Option.getD_some, List.mem_filter, heq]
      simp
    · rename_i hne
      exact (and_iff_left fun h => hne h.2).symm
  · rename_i hmem
    refine (and_iff_left_of_imp fun hx hboth => hmem ?_).symm
    exact hboth.1 ▸ hboth.2 ▸ hx

theorem mem_ownersOf_removeAlias (h : r.Ok) {x : Alias} :
    other ∈ (removeAlias value r aka).ownersOf x ↔
      other ∈ r.ownersOf x ∧ ¬(x = aka ∧ other = value) := by
  rw [removeAlias]
  split
  · exact mem_release
  · rename_i hmem
    refine (and_iff_left_of_imp fun hx hboth => hmem ?_).symm
    exact (h.twoWay value aka).2 (hboth.1 ▸ hboth.2 ▸ hx)

theorem Ok.removeAlias (h : r.Ok) : (removeAlias value r aka).Ok := by
  refine Ok.of_sub _ h (fun x => ?_) (fun _ _ => mem_aliasesOf_removeAlias)
    fun _ _ => mem_ownersOf_removeAlias h
  rw [Registry.removeAlias]
  split
  · exact nodup_release h.nodup x
  · exact h.nodup x

theorem has_removeAlias : (removeAlias value r aka).has other = r.has other := by
  rw [removeAlias]
  split
  · rename_i hmem
    rw [has, Dictionary.get_set]
    split
    · rename_i heq
      rw [heq]
      exact (has_of_mem hmem).symm
    · rfl
  · rfl

/-- **Taking aliases away.** -/
theorem owns_removeAliases (h : r.Ok) (value : V) (aliases : List Alias) :
    (r.removeAliases value aliases).Ok ∧
      (∀ other, (r.removeAliases value aliases).has other = r.has other) ∧
      ∀ other x, x ∈ (r.removeAliases value aliases).aliasesOf other ↔
        x ∈ r.aliasesOf other ∧ ¬(x ∈ aliases ∧ other = value) := by
  by_cases hhas : r.has value = true
  · rw [removeAliases, if_pos hhas]
    clear hhas
    induction aliases generalizing r with
    | nil => exact ⟨h, fun _ => rfl, fun _ _ => by simp⟩
    | cons aka aliases ih =>
      have hfirst : (removeAlias value r aka).Ok := h.removeAlias
      obtain ⟨hok, hkept, howns⟩ := ih hfirst
      refine ⟨hok, fun other => (hkept other).trans has_removeAlias, fun other x => ?_⟩
      rw [List.foldl_cons, howns other x, mem_aliasesOf_removeAlias, List.mem_cons, and_assoc]
      refine and_congr_right fun _ => ?_
      rw [← not_or, ← or_and_right]
  · rw [removeAliases, if_neg hhas]
    refine ⟨h, fun _ => rfl, fun other x => (and_iff_left_of_imp fun hx hboth => hhas ?_).symm⟩
    exact has_of_mem (hboth.2 ▸ hx)

theorem mem_foldl_release {aliases : List Alias} {d : Dictionary Alias (List V)} {x : Alias} :
    other ∈ ((aliases.foldl (release value) d).get x).getD [] ↔
      other ∈ (d.get x).getD [] ∧ ¬(x ∈ aliases ∧ other = value) := by
  induction aliases generalizing d with
  | nil => simp
  | cons aka aliases ih =>
    rw [List.foldl_cons, ih, mem_release, List.mem_cons, and_assoc]
    refine and_congr_right fun _ => ?_
    rw [← not_or, ← or_and_right]

theorem nodup_foldl_release {aliases : List Alias} {d : Dictionary Alias (List V)}
    (h : ∀ x, ((d.get x).getD []).Nodup) (x : Alias) :
    (((aliases.foldl (release value) d).get x).getD []).Nodup := by
  induction aliases generalizing d with
  | nil => exact h x
  | cons aka aliases ih => exact ih fun x => nodup_release h x

/-- **Untracking.**  The instance is gone, and nothing else. -/
theorem owns_untrack (h : r.Ok) (value : V) :
    (r.untrack value).Ok ∧
      (∀ other, (r.untrack value).has other = true ↔ r.has other = true ∧ other ≠ value) ∧
      ∀ other x, x ∈ (r.untrack value).aliasesOf other ↔
        x ∈ r.aliasesOf other ∧ other ≠ value := by
  rw [untrack]
  split
  · rename_i hget
    have hnone : ∀ x, x ∉ r.aliasesOf value := by
      intro x hx
      rw [aliasesOf, hget] at hx
      exact List.not_mem_nil hx
    refine ⟨h, fun other => (and_iff_left_of_imp ?_).symm,
      fun other x => (and_iff_left_of_imp ?_).symm⟩
    · rintro hhas rfl
      rw [has, hget] at hhas
      cases hhas
    · rintro hx rfl
      exact hnone x hx
  · rename_i aliases hget
    have haliases : r.aliasesOf value = aliases := by rw [aliasesOf, hget]; rfl
    have hlisted : ∀ other x, x ∈ ((r.entries.delete value).get other).getD [] ↔
        x ∈ r.aliasesOf other ∧ other ≠ value := by
      intro other x
      rw [Dictionary.get_delete]
      split
      · rename_i heq
        exact iff_of_false List.not_mem_nil fun h => h.2 heq
      · rename_i hne
        exact (and_iff_left hne).symm
    refine ⟨Ok.of_sub (fun other _ => other = value) h (nodup_foldl_release h.nodup) hlisted
      fun other x => ?_, fun other => ?_, hlisted⟩
    · refine mem_foldl_release.trans (and_congr_right fun howner => not_congr ?_)
      refine ⟨fun h => h.2, fun heq => ⟨?_, heq⟩⟩
      rw [← haliases]
      exact (h.twoWay value x).2 (heq ▸ howner)
    · rw [has, Dictionary.get_delete]
      split
      · rename_i heq
        exact iff_of_false (fun h => by cases h) fun h => h.2 heq
      · rename_i hne
        exact (and_iff_left hne).symm

/-! ### Look-ups -/

theorem Ok.length_le (h : r.Ok) (aka : Alias) : (r.ownersOf aka).length ≤ 1 := by
  cases howners : r.ownersOf aka with
  | nil => exact Nat.zero_le 1
  | cons first rest =>
    cases rest with
    | nil => exact Nat.le_refl 1
    | cons second rest =>
      have hnodup := h.nodup aka
      have heq := h.unique aka first second (by rw [howners]; simp) (by rw [howners]; simp)
      rw [howners, heq] at hnodup
      simp at hnodup

theorem findByAlias_eq (h : r.Ok) (aka : Alias) :
    r.findByAlias aka = .ok (r.ownersOf aka).head? := by
  have hlength := h.length_le aka
  rw [ownersOf] at hlength
  rw [findByAlias, ownersOf]
  split
  · rename_i hget
    rw [hget]
    rfl
  · rename_i trackedValues hget
    rw [hget, Option.getD_some] at hlength
    rw [if_neg (by omega), hget]
    rfl

theorem head_eq_some (h : r.Ok) :
    (r.ownersOf aka).head? = some value ↔ aka ∈ r.aliasesOf value := by
  rw [h.twoWay]
  constructor
  · exact fun hhead => List.mem_of_mem_head? hhead
  · intro hmem
    cases howners : r.ownersOf aka with
    | nil =>
      rw [howners] at hmem
      exact absurd hmem List.not_mem_nil
    | cons first rest =>
      have hfirst : first ∈ r.ownersOf aka := by rw [howners]; exact List.mem_cons_self
      rw [h.unique aka value first hmem hfirst]
      rfl

/-- A look-up comes across the owners of the aliases, each of them once. -/
theorem matchesOf_eq (h : r.Ok) (aliases : List Alias) (found : List V) (hfound : found.Nodup) :
    ∃ found', r.matchesOf aliases found = .ok found' ∧ found'.Nodup ∧
      ∀ value, value ∈ found' ↔ value ∈ found ∨ ∃ aka ∈ aliases, aka ∈ r.aliasesOf value := by
  induction aliases generalizing found with
  | nil => exact ⟨found, rfl, hfound, fun _ => by simp⟩
  | cons aka aliases ih =>
    rw [matchesOf, findByAlias_eq h]
    cases hhead : (r.ownersOf aka).head? with
    | none =>
      obtain ⟨found', heq, hnodup, hmem⟩ := ih found hfound
      refine ⟨found', heq, hnodup, fun value => (hmem value).trans ?_⟩
      have hnot : aka ∉ r.aliasesOf value := by
        intro hlisted
        rw [(head_eq_some h).2 hlisted] at hhead
        cases hhead
      simp [hnot]
    | some first =>
      obtain ⟨found', heq, hnodup, hmem⟩ := ih (setAdd found first) (nodup_setAdd hfound)
      refine ⟨found', heq, hnodup, fun value => (hmem value).trans ?_⟩
      have hiff : value = first ↔ aka ∈ r.aliasesOf value := by
        rw [← head_eq_some h, hhead, Option.some_inj]
        exact eq_comm
      rw [mem_setAdd, or_assoc, hiff]
      simp

/-- **A look-up by several aliases.**  It throws exactly when two instances are meant. -/
theorem findByAliases_spec (h : r.Ok) (aliases : List Alias) :
    ((∀ value other, (∃ aka ∈ aliases, aka ∈ r.aliasesOf value) →
        (∃ aka ∈ aliases, aka ∈ r.aliasesOf other) → value = other) →
      ∃ result, r.findByAliases aliases = .ok result ∧
        ∀ value, result = some value ↔ ∃ aka ∈ aliases, aka ∈ r.aliasesOf value) ∧
    ∀ value other, value ≠ other → (∃ aka ∈ aliases, aka ∈ r.aliasesOf value) →
      (∃ aka ∈ aliases, aka ∈ r.aliasesOf other) →
      r.findByAliases aliases = .error .invariantViolatedForLookup := by
  obtain ⟨found, heq, hnodup, hmem⟩ := matchesOf_eq h aliases [] List.nodup_nil
  simp only [List.not_mem_nil, false_or] at hmem
  have hfind : r.findByAliases aliases =
      if found.length > 1 then .error .invariantViolatedForLookup else .ok found.head? := by
    rw [findByAliases, heq]
    rfl
  rw [hfind]
  refine ⟨fun hone => ?_, fun value other hne hvalue hother => if_pos ?_⟩
  · cases found with
    | nil =>
      refine ⟨none, rfl, fun value => ?_⟩
      rw [← hmem value]
      simp
    | cons first rest =>
      cases rest with
      | nil =>
        refine ⟨some first, rfl, fun value => ?_⟩
        rw [← hmem value, List.mem_singleton, Option.some_inj]
        exact eq_comm
      | cons second rest =>
        have hsame := hone first second ((hmem first).1 (by simp)) ((hmem second).1 (by simp))
        rw [hsame] at hnodup
        simp at hnodup
  · have hmem₁ := (hmem value).2 hvalue
    have hmem₂ := (hmem other).2 hother
    cases found with
    | nil => exact absurd hmem₁ List.not_mem_nil
    | cons first rest =>
      cases rest with
      | nil =>
        exact absurd ((List.mem_singleton.1 hmem₁).trans (List.mem_singleton.1 hmem₂).symm) hne
      | cons second rest => simp

theorem ok_track_start (h : r.Ok) (value : V) (hhas : ¬ r.has value = true) :
    let r' : Registry V := { r with entries := r.entries.set value [] }
    r'.Ok ∧ (∀ other, r'.has other = true ↔ r.has other = true ∨ other = value) ∧
      ∀ other, r'.aliasesOf other = r.aliasesOf other := by
  have hlisted : ∀ other, ((r.entries.set value []).get other).getD [] = r.aliasesOf other := by
    intro other
    rw [Dictionary.get_set, aliasesOf]
    split
    · rename_i heq
      rw [heq]
      cases hget : r.entries.get value with
      | none => rfl
      | some entry =>
        rw [has, hget] at hhas
        exact absurd rfl hhas
    · rfl
  refine ⟨⟨fun other x => ?_, h.unique, h.nodup, fun other => ?_⟩, fun other => ?_, hlisted⟩
  · rw [aliasesOf, hlisted]
    exact h.twoWay other x
  · rw [aliasesOf, hlisted]
    exact h.nonempty other
  · rw [has, Dictionary.get_set]
    split
    · rename_i heq
      exact iff_of_true rfl (.inr heq)
    · rename_i hne
      exact (or_iff_left hne).symm

/-- **Tracking.** -/
theorem owns_track (h : r.Ok) (value : V) (aliases : List Alias) :
    ∃ r', r.track value aliases = .ok r' ∧ r'.Ok ∧
      (∀ other, r'.has other = true ↔ r.has other = true ∨ other = value) ∧
      ∀ other x, x ∈ r'.aliasesOf other ↔
        if x ∈ aliases ∧ x ≠ "" then other = value else x ∈ r.aliasesOf other := by
  rw [track]
  by_cases hhas : r.has value = true
  · obtain ⟨r', heq, hok, hkept, howns⟩ := owns_addAliases h hhas aliases
    refine ⟨r', by rw [if_pos hhas]; exact heq, hok, fun other => ?_, howns⟩
    rw [hkept]
    exact (or_iff_left_of_imp fun heq => heq ▸ hhas).symm
  · obtain ⟨hstart, hkept, hsame⟩ := ok_track_start h value hhas
    obtain ⟨r', heq, hok, hkept', howns⟩ :=
      owns_addAliases hstart ((hkept value).2 (.inr rfl)) aliases
    refine ⟨r', by rw [if_neg hhas]; exact heq, hok, fun other => ?_, fun other x => ?_⟩
    · rw [hkept', hkept]
    · rw [howns other x, hsame]

end Registry

end TrackedInstances
end Pkc
