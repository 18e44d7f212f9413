import Mathlib.Data.List.Dedup
import Mathlib.Data.List.Sort
import Mathlib.Data.String.Basic

/-!
# JSON values

`Json` is a parsed JSON document; an object is the list of its members in the order they were
written, and `Fields` is such a list.  Reading a member twice gives the first of that name.

* `same` decides equality; the instance that is derived for such a type cannot be reasoned about.
* `truthy` is the conversion to a Boolean that `if`, `||` and `&&` apply to a value.
* `sortKeysDeep` writes the members of every object in the order of their names, so two documents
  are equal up to the order of members when it makes them equal (`isDeepEqual`).
* `spread`, `tabulate`, `pick` and `omitKeys` build objects, each with a lemma that says what
  reading a member of the result gives.
* `members` is an object as a function of the name, up to the order of members at every depth, and
  `canonical` the one list of members it stands for: a text that is written with sorted names is a
  function of it (`canonical_congr`).
-/

set_option autoImplicit false

inductive Json
  | null
  | bool (b : Bool)
  | num (q : Rat)
  | str (s : String)
  | arr (items : List Json)
  | obj (fields : List (String × Json))
deriving Repr

namespace Json

/-- The members of an object. -/
abbrev Fields := List (String × Json)

/-! ## Equality -/

mutual

/-- Whether two documents are the same, the order of members included. -/
def same : Json → Json → Bool
  | .null, .null => true
  | .bool a, .bool b => a = b
  | .num a, .num b => a = b
  | .str a, .str b => a = b
  | .arr as, .arr bs => sameItems as bs
  | .obj as, .obj bs => sameFields as bs
  | _, _ => false

def sameItems : List Json → List Json → Bool
  | [], [] => true
  | a :: as, b :: bs => same a b && sameItems as bs
  | _, _ => false

def sameFields : Fields → Fields → Bool
  | [], [] => true
  | (k, a) :: as, (l, b) :: bs => k = l && same a b && sameFields as bs
  | _, _ => false

end

mutual

theorem same_iff : ∀ a b : Json, same a b = true ↔ a = b
  | .arr as, .arr bs => by rw [same, sameItems_iff, arr.injEq]
  | .obj as, .obj bs => by rw [same, sameFields_iff, obj.injEq]
  | .null, b => by cases b <;> simp [same]
  | .bool _, b => by cases b <;> simp [same]
  | .num _, b => by cases b <;> simp [same]
  | .str _, b => by cases b <;> simp [same]
  | .arr _, .null | .arr _, .bool _ | .arr _, .num _ | .arr _, .str _ | .arr _, .obj _ => by
    simp [same]
  | .obj _, .null | .obj _, .bool _ | .obj _, .num _ | .obj _, .str _ | .obj _, .arr _ => by
    simp [same]

theorem sameItems_iff : ∀ as bs : List Json, sameItems as bs = true ↔ as = bs
  | [], bs => by cases bs <;> simp [sameItems]
  | _ :: _, [] => by simp [sameItems]
  | a :: as, b :: bs => by
    rw [sameItems, Bool.and_eq_true, same_iff, sameItems_iff, List.cons.injEq]

theorem sameFields_iff : ∀ as bs : Fields, sameFields as bs = true ↔ as = bs
  | [], bs => by cases bs <;> simp [sameFields]
  | _ :: _, [] => by simp [sameFields]
  | (k, a) :: as, (l, b) :: bs => by
    rw [sameFields, Bool.and_eq_true, Bool.and_eq_true, decide_eq_true_iff, same_iff,
      sameFields_iff, List.cons.injEq, Prod.mk.injEq]

end

instance : DecidableEq Json := fun a b => decidable_of_iff (same a b = true) (same_iff a b)

/-! ## Reading a document -/

/-- Everything but `null`, `false`, `0` and the empty string. -/
def truthy : Json → Bool
  | .null => false
  | .bool b => b
  | .num q => q ≠ 0
  | .str s => s ≠ ""
  | .arr _ => true
  | .obj _ => true

/-- The string a value is, if it is one. -/
def asString : Json → Option String
  | .str s => some s
  | _ => none

/-- The items of a value that is an array. -/
def asArray : Json → Option (List Json)
  | .arr items => some items
  | _ => none

/-- A member of a value that is an object. -/
def get (key : String) : Json → Option Json
  | .obj fields => fields.lookup key
  | _ => none

/-- The members that every object inherits: to read one of a fresh object is not `undefined`. -/
def objectPrototypeMembers : List String :=
  ["constructor", "__defineGetter__", "__defineSetter__", "hasOwnProperty", "__lookupGetter__",
    "__lookupSetter__", "isPrototypeOf", "propertyIsEnumerable", "toString", "valueOf", "__proto__",
    "toLocaleString"]

/-- The text of such a member: of the prototype, or of a built-in function. -/
def inheritedText (name : String) : Option String :=
  if name ∉ objectPrototypeMembers then none
  else if name = "__proto__" then some "[object Object]"
  else
    some ("function " ++ (if name = "constructor" then "Object" else name) ++
      "() \x7b [native code] \x7d")

/-- Members in the order of their names. -/
def sortFields (fields : Fields) : Fields :=
  fields.insertionSort fun a b => a.1 ≤ b.1

mutual

/-- The same document with the members of every object in the order of their names. -/
def sortKeysDeep : Json → Json
  | .arr items => .arr (sortKeysDeepItems items)
  | .obj fields => .obj (sortFields (sortKeysDeepFields fields))
  | .null => .null
  | .bool b => .bool b
  | .num q => .num q
  | .str s => .str s

def sortKeysDeepItems : List Json → List Json
  | [] => []
  | item :: items => sortKeysDeep item :: sortKeysDeepItems items

def sortKeysDeepFields : Fields → Fields
  | [] => []
  | (key, value) :: fields => (key, sortKeysDeep value) :: sortKeysDeepFields fields

end

/-- Equal up to the order of members. -/
def isDeepEqual (a b : Json) : Bool := sortKeysDeep a == sortKeysDeep b

/-! ## Sorting the members -/

theorem lookup_cons_eq {α : Type*} (key k : String) (value : α) (fields : List (String × α)) :
    ((key, value) :: fields).lookup k = if k = key then some value else fields.lookup k := by
  rw [List.lookup_cons]
  by_cases h : k = key
  · rw [if_pos h, beq_iff_eq.2 h]
  · rw [if_neg h, beq_eq_false_iff_ne.2 h]

/-- Inserting a member before the first one of a larger or equal name does not hide it. -/
theorem lookup_orderedInsert (field : String × Json) (fields : Fields) (k : String) :
    (fields.orderedInsert (fun a b => a.1 ≤ b.1) field).lookup k = (field :: fields).lookup k := by
  induction fields with
  | nil => rfl
  | cons first rest ih =>
    rw [List.orderedInsert]
    split
    · rfl
    · rename_i hlt
      rw [lookup_cons_eq, ih, lookup_cons_eq, lookup_cons_eq, lookup_cons_eq]
      by_cases hk : k = first.1
      · have hne : k ≠ field.1 := by
          rw [hk]
          exact (not_le.1 hlt).ne
        rw [if_pos hk, if_neg hne, if_pos hk]
      · rw [if_neg hk, if_neg hk]

theorem lookup_sortFields (fields : Fields) (k : String) :
    (sortFields fields).lookup k = fields.lookup k := by
  rw [sortFields]
  induction fields with
  | nil => rfl
  | cons field rest ih =>
    rw [List.insertionSort_cons, lookup_orderedInsert, lookup_cons_eq, ih, lookup_cons_eq]

theorem sortKeysDeepFields_eq_map (fields : Fields) :
    sortKeysDeepFields fields = fields.map fun field => (field.1, sortKeysDeep field.2) := by
  induction fields with
  | nil => rfl
  | cons field rest ih => rw [sortKeysDeepFields, ih, List.map_cons]

theorem keys_sortKeysDeepFields (fields : Fields) :
    (sortKeysDeepFields fields).map Prod.fst = fields.map Prod.fst := by
  rw [sortKeysDeepFields_eq_map, List.map_map]
  rfl

/-- The members of a sorted object have the names of the object. -/
theorem keys_sortFields (fields : Fields) :
    ((sortFields fields).map Prod.fst).Perm (fields.map Prod.fst) :=
  (List.perm_insertionSort (fun a b : String × Json => a.1 ≤ b.1) fields).map _

/-- Sorting the members and sorting their values commute. -/
theorem sortKeysDeepFields_sortFields (fields : Fields) :
    sortKeysDeepFields (sortFields fields) = sortFields (sortKeysDeepFields fields) := by
  rw [sortKeysDeepFields_eq_map, sortKeysDeepFields_eq_map]
  exact List.map_insertionSort _ _ _ _ fun a _ b _ => Iff.rfl

theorem sortFields_sortFields (fields : Fields) :
    sortFields (sortFields fields) = sortFields fields := by
  have htotal : Std.Total fun a b : String × Json => a.1 ≤ b.1 := ⟨fun a b => le_total a.1 b.1⟩
  have htrans : IsTrans (String × Json) fun a b => a.1 ≤ b.1 := ⟨fun _ _ _ => le_trans⟩
  exact (List.pairwise_insertionSort (fun a b : String × Json => a.1 ≤ b.1) fields).insertionSort_eq

/-! ## Objects made from objects -/

/-- `{...a, ...b}`: a member of `b` hides the one of that name in `a`. -/
def spread (a b : Fields) : Fields := b ++ a

/-- The object that has, for each of the names in their order, the value `f` gives it, if any. -/
def tabulate (names : List String) (f : String → Option Json) : Fields :=
  names.filterMap fun name => (f name).map fun value => (name, value)

/-- The members of the given names, in their order. -/
def pick (fields : Fields) (names : List String) : Fields := tabulate names fun k => fields.lookup k

/-- The members but those of the given names. -/
def omitKeys (fields : Fields) (names : List String) : Fields :=
  fields.filter fun field => field.1 ∉ names

theorem lookup_spread (a b : Fields) (k : String) :
    (spread a b).lookup k = (b.lookup k).or (a.lookup k) := List.lookup_append

theorem lookup_tabulate (names : List String) (f : String → Option Json) (k : String) :
    (tabulate names f).lookup k = if k ∈ names then f k else none := by
  induction names with
  | nil => rfl
  | cons name names ih =>
    have hcons : tabulate (name :: names) f =
        ((f name).map fun value => (name, value)).toList ++ tabulate names f := by
      rw [tabulate, List.filterMap_cons]
      cases f name <;> rfl
    rw [hcons, List.lookup_append, ih]
    by_cases hk : k = name
    · subst hk
      cases h : f k <;> simp
    · cases h : f name <;> simp [hk, lookup_cons_eq]

theorem lookup_pick (fields : Fields) (names : List String) (k : String) :
    (pick fields names).lookup k = if k ∈ names then fields.lookup k else none :=
  lookup_tabulate names _ k

/-- The names of a tabulated object are among those it was made from, in their order. -/
theorem keys_tabulate_sublist (names : List String) (f : String → Option Json) :
    ((tabulate names f).map Prod.fst).Sublist names := by
  induction names with
  | nil => exact List.Sublist.refl _
  | cons name names ih =>
    rw [tabulate, List.filterMap_cons]
    cases f name with
    | none => exact ih.cons _
    | some value => exact ih.cons_cons _

theorem lookup_omitKeys (fields : Fields) (names : List String) (k : String) :
    (omitKeys fields names).lookup k = if k ∈ names then none else fields.lookup k := by
  induction fields with
  | nil => simp [omitKeys]
  | cons field rest ih =>
    obtain ⟨key, value⟩ := field
    by_cases hmem : key ∈ names
    · have hcons : omitKeys ((key, value) :: rest) names = omitKeys rest names := by
        simp [omitKeys, hmem]
      rw [hcons, ih, lookup_cons_eq]
      by_cases hk : k = key
      · rw [hk, if_pos hmem, if_pos hmem]
      · rw [if_neg hk]
    · have hcons : omitKeys ((key, value) :: rest) names =
          (key, value) :: omitKeys rest names := by
        simp [omitKeys, hmem]
      rw [hcons, lookup_cons_eq, ih, lookup_cons_eq]
      by_cases hk : k = key
      · rw [hk, if_pos rfl, if_neg hmem, if_pos rfl]
      · rw [if_neg hk, if_neg hk]

theorem lookup_if_omitKeys (p : Prop) [Decidable p] (fields : Fields) (names : List String)
    (k : String) : (if p then omitKeys fields names else fields).lookup k =
      if p ∧ k ∈ names then none else fields.lookup k := by
  by_cases h : p
  · rw [if_pos h, lookup_omitKeys]
    simp [h]
  · rw [if_neg h, if_neg fun hand => h hand.1]

theorem lookup_isSome_iff_mem_keys {α : Type*} {fields : List (String × α)} {k : String} :
    (fields.lookup k).isSome = true ↔ k ∈ fields.map Prod.fst := by
  induction fields with
  | nil => exact ⟨nofun, nofun⟩
  | cons field rest ih =>
    obtain ⟨key, value⟩ := field
    rw [lookup_cons_eq, List.map_cons, List.mem_cons, ← ih]
    by_cases hk : k = key
    · rw [if_pos hk]
      exact ⟨fun _ => .inl hk, fun _ => rfl⟩
    · rw [if_neg hk]
      exact ⟨.inr, fun h => h.resolve_left hk⟩

theorem lookup_eq_none_of_notMem {α : Type*} {fields : List (String × α)} {k : String}
    (h : k ∉ fields.map Prod.fst) : fields.lookup k = none := by
  rw [← Option.not_isSome_iff_eq_none, lookup_isSome_iff_mem_keys]
  exact h

/-- Where names are not repeated, a member is what reading its name gives. -/
theorem lookup_eq_some_of_mem {α : Type*} {fields : List (String × α)}
    (hnames : (fields.map Prod.fst).Nodup) {k : String} {v : α} (h : (k, v) ∈ fields) :
    fields.lookup k = some v := by
  induction fields with
  | nil => simp at h
  | cons field fields ih =>
    rw [List.map_cons, List.nodup_cons] at hnames
    rw [lookup_cons_eq]
    rcases List.mem_cons.1 h with rfl | h
    · rw [if_pos rfl]
    · have hne : k ≠ field.1 := by
        rintro rfl
        exact hnames.1 (List.mem_map.2 ⟨_, h, rfl⟩)
      rw [if_neg hne, ih hnames.2 h]

/-! ## The record an object stands for -/

/-- An object as a function of the name, up to the order of members at every depth. -/
def members (fields : Fields) (k : String) : Option Json := (fields.lookup k).map sortKeysDeep

/-- The members of an object, once each and in the order of their names. -/
def canonical (fields : Fields) : Fields :=
  tabulate ((fields.map Prod.fst).dedup.insertionSort (· ≤ ·)) (members fields)

/-- Two objects with the same members are written the same. -/
theorem canonical_congr {a b : Fields} (h : members a = members b) : canonical a = canonical b := by
  have hkeys : (a.map Prod.fst).dedup.insertionSort (· ≤ ·) =
      (b.map Prod.fst).dedup.insertionSort (· ≤ ·) := by
    have hmem : ∀ k, k ∈ (a.map Prod.fst).dedup ↔ k ∈ (b.map Prod.fst).dedup := by
      intro k
      have hsame : (a.lookup k).isSome = (b.lookup k).isSome := by
        have hk := congrArg Option.isSome (congrFun h k)
        rwa [members, members, Option.isSome_map, Option.isSome_map] at hk
      rw [List.mem_dedup, List.mem_dedup, ← lookup_isSome_iff_mem_keys,
        ← lookup_isSome_iff_mem_keys, hsame]
    have hperm : (a.map Prod.fst).dedup.Perm (b.map Prod.fst).dedup :=
      (List.perm_ext_iff_of_nodup (List.nodup_dedup _) (List.nodup_dedup _)).2 hmem
    refine List.Perm.eq_of_sortedLE ?_ ?_ ?_
    · exact List.sortedLE_insertionSort
    · exact List.sortedLE_insertionSort
    · exact (List.perm_insertionSort _ _).trans (hperm.trans (List.perm_insertionSort _ _).symm)
  rw [canonical, canonical, hkeys, h]

end Json
