import Mathlib.Data.List.Basic

/-!
# A cache of bounded size whose entries expire

This is the cache of the `lru-cache` package as its documentation describes it, with a `max` and a
`ttl`.  An `LruCache` holds its entries from the least to the most recently used one.  An entry that
is too old is `stale`: it is not found any more, but takes up room until it is replaced or pushed
out.

* `set`, `delete`, `touch` and `expire` are the operations; `evicted` is the key that setting a new
  one pushes out.
* The lookup lemmas say what each operation does to the keys it is not about, the entry lemmas that
  only `set` adds an entry.
* `restrict` keeps the entries of some keys.  The operations on those keys commute with it, and the
  operations on other keys leave the restriction as it is, as long as what `set` pushes out is none
  of them (`Spares`).
* `Recent` is a bound on how many entries were used after one.  An entry outlives as many further
  `set`s as the cache has room for, `Recent.setAll`.
-/

set_option autoImplicit false

universe u v

/-- One entry of a cache. -/
structure LruEntry (κ : Type u) (α : Type v) where
  key : κ
  value : α
  stale : Bool := false
deriving DecidableEq, Repr

/-- The entries, the least recently used one first. -/
abbrev LruCache (κ : Type u) (α : Type v) := List (LruEntry κ α)

namespace LruCache

variable {κ : Type u} {α : Type v} [DecidableEq κ]

/-- The value of a key whose entry is not stale. -/
def lookup (cache : LruCache κ α) (key : κ) : Option α :=
  (cache.find? fun entry => entry.key = key).bind fun entry =>
    if entry.stale then none else some entry.value

def has (cache : LruCache κ α) (key : κ) : Bool := (cache.lookup key).isSome

def delete (cache : LruCache κ α) (key : κ) : LruCache κ α :=
  cache.filter fun entry => entry.key ≠ key

def expire (cache : LruCache κ α) (key : κ) : LruCache κ α :=
  cache.map fun entry => if entry.key = key then { entry with stale := true } else entry

/-- The key that setting `key` pushes out. -/
def evicted (max : Nat) (cache : LruCache κ α) (key : κ) : Option κ :=
  if (cache.any fun entry => entry.key = key) || cache.length < max then none
  else cache.head?.map LruEntry.key

def set (max : Nat) (cache : LruCache κ α) (key : κ) (value : α) : LruCache κ α :=
  (match evicted max cache key with
    | none => delete cache key
    | some _ => cache.tail) ++ [{ key := key, value := value }]

/-- Reading an entry makes it the most recently used one, and deletes it if it is stale. -/
def touch (cache : LruCache κ α) (key : κ) : LruCache κ α :=
  match cache.find? fun entry => entry.key = key with
  | none => cache
  | some entry => if entry.stale then delete cache key else delete cache key ++ [entry]

/-- The entries of the keys that satisfy `p`. -/
def restrict (p : κ → Bool) (cache : LruCache κ α) : LruCache κ α :=
  cache.filter fun entry => p entry.key

/-! ## Lookups -/

section Lookup

variable {cache : LruCache κ α} {key other : κ} {value : α} {max : Nat}

theorem find?_delete_self : (cache.delete key).find? (fun entry => entry.key = key) = none := by
  refine List.find?_eq_none.2 fun entry hentry => ?_
  simpa [delete] using (List.mem_filter.1 hentry).2

theorem find?_delete_of_ne (h : other ≠ key) :
    (cache.delete key).find? (fun entry => entry.key = other) =
      cache.find? fun entry => entry.key = other := by
  rw [delete, List.find?_filter]
  congr 1
  funext entry
  by_cases hkey : entry.key = other
  · simp [hkey, h]
  · simp [hkey]

@[simp] theorem lookup_delete_self : (cache.delete key).lookup key = none := by
  rw [lookup, find?_delete_self]
  rfl

@[simp] theorem lookup_delete_of_ne (h : other ≠ key) :
    (cache.delete key).lookup other = cache.lookup other := by
  rw [lookup, find?_delete_of_ne h, lookup]

theorem lookup_append_of_ne {entry : LruEntry κ α} (h : other ≠ entry.key) :
    lookup (cache ++ [entry]) other = cache.lookup other := by
  rw [lookup, List.find?_append, lookup]
  have hentry : decide (entry.key = other) = false := by simpa using Ne.symm h
  simp [hentry]

theorem lookup_append_self (h : cache.find? (fun entry => entry.key = key) = none) :
    lookup (cache ++ [{ key := key, value := value }]) key = some value := by
  rw [lookup, List.find?_append, h]
  simp

@[simp] theorem lookup_set_self : (cache.set max key value).lookup key = some value := by
  refine lookup_append_self ?_
  cases hevicted : evicted max cache key with
  | none => exact find?_delete_self
  | some out =>
    refine List.find?_eq_none.2 fun entry hentry => ?_
    rw [evicted] at hevicted
    split at hevicted
    · cases hevicted
    · rename_i h
      rw [Bool.or_eq_true, not_or, Bool.not_eq_true, List.any_eq_false] at h
      exact h.1 entry (List.mem_of_mem_tail hentry)

/-- Setting a key changes no other one but the one it pushes out. -/
theorem lookup_set_of_ne (h : other ≠ key) (hout : evicted max cache key ≠ some other) :
    (cache.set max key value).lookup other = cache.lookup other := by
  rw [set, lookup_append_of_ne h]
  cases hevicted : evicted max cache key with
  | none => exact lookup_delete_of_ne h
  | some out =>
    cases cache with
    | nil => rfl
    | cons entry rest =>
      have hkey : entry.key ≠ other := by
        rintro rfl
        rw [evicted] at hevicted hout
        split at hevicted
        · cases hevicted
        · rename_i hfull
          rw [if_neg hfull] at hout
          exact hout rfl
      simp [lookup, hkey]

theorem lookup_expire_of_ne (h : other ≠ key) :
    (cache.expire key).lookup other = cache.lookup other := by
  induction cache with
  | nil => rfl
  | cons entry rest ih =>
    rw [lookup, lookup] at ih
    rw [expire, List.map_cons, lookup, lookup, List.find?_cons, List.find?_cons]
    by_cases hkey : entry.key = key
    · have hother : entry.key ≠ other := fun heq => h (heq.symm.trans hkey)
      simpa [hkey, hkey ▸ hother, expire] using ih
    · rw [if_neg hkey]
      by_cases hother : entry.key = other
      · simp [hother]
      · simpa [hother, expire] using ih

theorem lookup_touch (other : κ) : (cache.touch key).lookup other = cache.lookup other := by
  rw [touch]
  split
  · rfl
  · rename_i entry hentry
    have hkey : entry.key = key := by simpa using List.find?_some hentry
    by_cases h : other = key
    · subst h
      have hold : cache.lookup other = if entry.stale then none else some entry.value := by
        rw [lookup, hentry]
        rfl
      rw [hold]
      split
      · exact lookup_delete_self
      · rename_i hstale
        rw [lookup, List.find?_append, find?_delete_self]
        simp [hkey, hstale]
    · split
      · exact lookup_delete_of_ne h
      · rw [lookup_append_of_ne (by rwa [hkey]), lookup_delete_of_ne h]

end Lookup

/-! ## Entries -/

section Entries

variable {cache : LruCache κ α} {key : κ} {value : α} {entry : LruEntry κ α} {max : Nat}

theorem exists_mem_of_lookup (h : cache.lookup key = some value) :
    ∃ entry ∈ cache, entry.key = key ∧ entry.value = value := by
  obtain ⟨entry, hentry, hvalue⟩ := Option.bind_eq_some_iff.1 h
  refine ⟨entry, List.mem_of_find?_eq_some hentry, by simpa using List.find?_some hentry, ?_⟩
  split at hvalue
  · cases hvalue
  · exact Option.some.inj hvalue

theorem mem_of_mem_delete (h : entry ∈ cache.delete key) : entry ∈ cache :=
  List.mem_of_mem_filter h

theorem mem_of_mem_set (h : entry ∈ cache.set max key value) :
    entry ∈ cache ∨ entry = { key := key, value := value } := by
  rw [set, List.mem_append, List.mem_singleton] at h
  refine h.imp_left fun hold => ?_
  split at hold
  · exact mem_of_mem_delete hold
  · exact List.mem_of_mem_tail hold

theorem mem_of_mem_touch (h : entry ∈ cache.touch key) : entry ∈ cache := by
  rw [touch] at h
  split at h
  · exact h
  · rename_i found hfound
    split at h
    · exact mem_of_mem_delete h
    · rcases List.mem_append.1 h with hold | hlast
      · exact mem_of_mem_delete hold
      · rw [List.mem_singleton.1 hlast]
        exact List.mem_of_find?_eq_some hfound

theorem exists_mem_of_mem_expire (h : entry ∈ cache.expire key) :
    ∃ old ∈ cache, entry.key = old.key ∧ entry.value = old.value := by
  obtain ⟨old, hold, rfl⟩ := List.mem_map.1 h
  refine ⟨old, hold, ?_⟩
  split
  · exact ⟨rfl, rfl⟩
  · exact ⟨rfl, rfl⟩

end Entries

/-! ## The entries of some keys -/

section Restrict

variable {p : κ → Bool} {cache : LruCache κ α} {key : κ} {value : α} {max : Nat}

theorem lookup_restrict (h : p key = true) : (cache.restrict p).lookup key = cache.lookup key := by
  rw [lookup, lookup, restrict, List.find?_filter]
  congr 2
  funext entry
  by_cases hkey : entry.key = key
  · simp [hkey, h]
  · simp [hkey]

theorem restrict_delete_of_not (h : p key = false) :
    (cache.delete key).restrict p = cache.restrict p := by
  rw [restrict, restrict, delete, List.filter_filter]
  congr 1
  funext entry
  by_cases hkey : entry.key = key
  · simp [hkey, h]
  · simp [hkey]

theorem restrict_delete : (cache.delete key).restrict p = (cache.restrict p).delete key := by
  rw [restrict, restrict, delete, delete, List.filter_comm]

omit [DecidableEq κ] in
theorem restrict_append (rest : LruCache κ α) :
    restrict p (cache ++ rest) = cache.restrict p ++ rest.restrict p :=
  List.filter_append ..

theorem set_eq_of_not_evicted (h : evicted max cache key = none) :
    cache.set max key value = cache.delete key ++ [{ key := key, value := value }] := by
  rw [set, h]

theorem evicted_restrict (h : evicted max cache key = none) (hkey : p key = true) :
    evicted max (cache.restrict p) key = none := by
  rw [evicted] at h ⊢
  split at h
  · rename_i hroom
    rw [if_pos]
    rw [Bool.or_eq_true] at hroom ⊢
    refine hroom.imp (fun hany => ?_) fun hlength => ?_
    · obtain ⟨entry, hentry, heq⟩ := List.any_eq_true.1 hany
      have heq' : entry.key = key := by simpa using heq
      exact List.any_eq_true.2 ⟨entry, List.mem_filter.2 ⟨hentry, by rwa [heq']⟩, heq⟩
    · have hle := List.length_filter_le (fun entry : LruEntry κ α => p entry.key) cache
      rw [restrict]
      simp only [decide_eq_true_eq] at hlength ⊢
      omega
  · cases hhead : cache.head? with
    | none =>
      rw [List.head?_eq_none_iff] at hhead
      rw [hhead]
      simp [restrict]
    | some entry =>
      rw [hhead] at h
      cases h

theorem restrict_set (h : evicted max cache key = none) (hkey : p key = true) :
    (cache.set max key value).restrict p = (cache.restrict p).set max key value := by
  rw [set_eq_of_not_evicted h, set_eq_of_not_evicted (evicted_restrict h hkey), restrict_append,
    restrict_delete]
  simp [restrict, hkey]

theorem restrict_set_of_not (h : evicted max cache key = none) (hkey : p key = false) :
    (cache.set max key value).restrict p = cache.restrict p := by
  rw [set_eq_of_not_evicted h, restrict_append, restrict_delete_of_not hkey]
  simp [restrict, hkey]

theorem restrict_expire_of_not (h : p key = false) :
    (cache.expire key).restrict p = cache.restrict p := by
  induction cache with
  | nil => rfl
  | cons entry rest ih =>
    rw [restrict, restrict, expire] at ih
    rw [expire, List.map_cons, restrict, restrict, List.filter_cons, List.filter_cons]
    by_cases hkey : entry.key = key
    · simpa [hkey, h] using ih
    · rw [if_neg hkey, ih]

theorem restrict_expire : (cache.expire key).restrict p = (cache.restrict p).expire key := by
  rw [restrict, expire, List.filter_map, expire, restrict]
  congr 2
  funext entry
  simp only [Function.comp]
  split <;> rfl

theorem find?_restrict (hkey : p key = true) :
    (cache.restrict p).find? (fun entry => entry.key = key) =
      cache.find? fun entry => entry.key = key := by
  rw [restrict, List.find?_filter]
  congr 1
  funext entry
  by_cases heq : entry.key = key
  · simp [heq, hkey]
  · simp [heq]

theorem restrict_touch (hkey : p key = true) :
    (cache.touch key).restrict p = (cache.restrict p).touch key := by
  rw [touch, touch, find?_restrict hkey]
  split
  · rfl
  · rename_i entry hentry
    have heq : entry.key = key := by simpa using List.find?_some hentry
    split
    · exact restrict_delete
    · rw [restrict_append, restrict_delete]
      simp [restrict, heq, hkey]

/-- What it takes to push an entry out: the key is new and there is no room. -/
theorem of_evicted {out : κ} (h : evicted max cache key = some out) :
    (∀ entry ∈ cache, entry.key ≠ key) ∧ max ≤ cache.length ∧
      ∃ entry rest, cache = entry :: rest ∧ entry.key = out := by
  rw [evicted] at h
  split at h
  · cases h
  · rename_i hfull
    rw [Bool.or_eq_true, not_or, Bool.not_eq_true, List.any_eq_false] at hfull
    refine ⟨fun entry hentry => by simpa using hfull.1 entry hentry, by simpa using hfull.2, ?_⟩
    cases cache with
    | nil => cases h
    | cons entry rest => exact ⟨entry, rest, rfl, Option.some.inj h⟩

theorem delete_eq_self (h : ∀ entry ∈ cache, entry.key ≠ key) : cache.delete key = cache :=
  List.filter_eq_self.2 fun entry hentry => by simpa using h entry hentry

omit [DecidableEq κ] in
variable (p cache) in
theorem length_restrict_le : (cache.restrict p).length ≤ cache.length :=
  List.length_filter_le ..

/-- Setting `key` pushes out an entry of `p` only where `p` has the whole cache. -/
def Spares (max : Nat) (p : κ → Bool) (cache : LruCache κ α) (key : κ) : Prop :=
  ∀ out ∈ cache.evicted max key, p out = true → p key = true ∧ cache.restrict p = cache

theorem restrict_set_of_spares (hlength : cache.length ≤ max) (hspares : Spares max p cache key)
    (hkey : p key = true) :
    (cache.set max key value).restrict p = (cache.restrict p).set max key value := by
  cases hevicted : evicted max cache key with
  | none => exact restrict_set hevicted hkey
  | some out =>
    obtain ⟨hnew, hfull, entry, rest, rfl, rfl⟩ := of_evicted hevicted
    cases hout : p entry.key with
    | true =>
      -- every entry is one of `p`, so nothing is left out
      have hall := (hspares entry.key hevicted hout).2
      rw [hall, set, hevicted]
      have hmem := List.filter_eq_self.1 hall
      refine List.filter_eq_self.2 fun other hother => ?_
      rcases List.mem_append.1 hother with hold | hlast
      · exact hmem other (List.mem_of_mem_tail hold)
      · rw [List.mem_singleton.1 hlast]
        exact hkey
    | false =>
      have hrestrict : restrict p (entry :: rest) = restrict p rest :=
        List.filter_cons_of_neg (by simp [hout])
      have hroom : (restrict p rest).length < max := by
        have hle := length_restrict_le p rest
        rw [List.length_cons] at hlength
        omega
      have hnone : evicted max (restrict p rest) key = none := by
        rw [evicted, if_pos]
        simp [hroom]
      have hnot : ∀ other ∈ restrict p rest, other.key ≠ key := fun other hother =>
        hnew other (List.mem_cons_of_mem _ (List.mem_of_mem_filter hother))
      rw [hrestrict, set_eq_of_not_evicted hnone, delete_eq_self hnot, set, hevicted]
      rw [List.tail_cons, restrict_append]
      simp [restrict, hkey]

theorem restrict_set_of_spares_of_not (hspares : Spares max p cache key) (hkey : p key = false) :
    (cache.set max key value).restrict p = cache.restrict p := by
  cases hevicted : evicted max cache key with
  | none => exact restrict_set_of_not hevicted hkey
  | some out =>
    obtain ⟨-, -, entry, rest, rfl, rfl⟩ := of_evicted hevicted
    have hout : p entry.key = false := by
      by_contra hp
      have htrue := (hspares entry.key hevicted (by simpa using hp)).1
      rw [hkey] at htrue
      cases htrue
    rw [set, hevicted, List.tail_cons, restrict_append]
    simp [restrict, hkey, hout]

end Restrict

/-! ## The size -/

section Size

variable {cache : LruCache κ α} {key : κ} {value : α} {max : Nat}

theorem length_delete_le : (cache.delete key).length ≤ cache.length := List.length_filter_le ..

omit [DecidableEq κ] in
theorem length_append_singleton {entry : LruEntry κ α} :
    List.length (cache ++ [entry]) = cache.length + 1 := by
  rw [List.length_append, List.length_singleton]

theorem length_delete_lt (h : ∃ entry ∈ cache, entry.key = key) :
    (cache.delete key).length < cache.length := by
  obtain ⟨entry, hentry, hkey⟩ := h
  refine Nat.lt_of_le_of_ne length_delete_le fun heq => ?_
  have hall := List.length_filter_eq_length_iff.1 heq entry hentry
  simp [hkey] at hall

theorem length_set_le (hmax : 0 < max) (h : cache.length ≤ max) :
    (cache.set max key value).length ≤ max := by
  cases hevicted : evicted max cache key with
  | some out =>
    obtain ⟨-, hfull, entry, rest, rfl, -⟩ := of_evicted hevicted
    rw [set, hevicted, List.tail_cons, length_append_singleton]
    exact h
  | none =>
    rw [set_eq_of_not_evicted hevicted, length_append_singleton]
    by_cases hpresent : ∃ entry ∈ cache, entry.key = key
    · have hlt := length_delete_lt hpresent
      omega
    · have hle : (cache.delete key).length ≤ cache.length := length_delete_le
      refine Nat.lt_of_not_le fun hfull => ?_
      have hnot : (cache.any fun entry => entry.key = key) = false :=
        List.any_eq_false.2 fun entry hentry => by
          simpa using fun hkey => hpresent ⟨entry, hentry, hkey⟩
      have hlength : ¬ cache.length < max := by omega
      rw [evicted, hnot, Bool.false_or, if_neg (by simpa using hlength)] at hevicted
      cases cache with
      | nil =>
        rw [List.length_nil] at hlength
        omega
      | cons entry rest => cases hevicted

theorem length_touch_le : (cache.touch key).length ≤ cache.length := by
  rw [touch]
  split
  · exact Nat.le_refl _
  · rename_i entry hentry
    split
    · exact length_delete_le
    · have hlt := length_delete_lt ⟨entry, List.mem_of_find?_eq_some hentry,
        by simpa using List.find?_some hentry⟩
      rw [length_append_singleton]
      exact hlt

theorem length_expire_le : (cache.expire key).length ≤ cache.length :=
  Nat.le_of_eq (List.length_map _)

end Size

/-! ## Entries used not long ago -/

section Recent

variable {cache : LruCache κ α} {key other : κ} {value value' : α} {max n : Nat}

/-- `key` has `value`, and at most `n` entries were used after it. -/
def Recent (n : Nat) (cache : LruCache κ α) (key : κ) (value : α) : Prop :=
  ∃ older newer : LruCache κ α, cache = older ++ { key := key, value := value } :: newer ∧
    (∀ entry ∈ older, entry.key ≠ key) ∧ newer.length ≤ n

theorem Recent.lookup (h : Recent n cache key value) : cache.lookup key = some value := by
  obtain ⟨older, newer, rfl, holder, -⟩ := h
  have hnone : older.find? (fun entry => entry.key = key) = none :=
    List.find?_eq_none.2 fun entry hentry => by simpa using holder entry hentry
  simp [LruCache.lookup, List.find?_append, hnone]

omit [DecidableEq κ] in
theorem Recent.mono {m : Nat} (h : Recent n cache key value) (hnm : n ≤ m) :
    Recent m cache key value := by
  obtain ⟨older, newer, hcache, holder, hnewer⟩ := h
  exact ⟨older, newer, hcache, holder, Nat.le_trans hnewer hnm⟩

theorem recent_set : Recent 0 (cache.set max key value) key value := by
  cases hevicted : evicted max cache key with
  | none =>
    refine ⟨cache.delete key, [], set_eq_of_not_evicted hevicted, fun entry hentry => ?_, Nat.le_refl _⟩
    simpa [delete] using (List.mem_filter.1 hentry).2
  | some out =>
    obtain ⟨hnew, -⟩ := of_evicted hevicted
    refine ⟨cache.tail, [], by rw [set, hevicted], fun entry hentry => ?_, Nat.le_refl _⟩
    exact hnew entry (List.mem_of_mem_tail hentry)

/-- Setting another key leaves the entry where it is, as long as there is room behind it. -/
theorem Recent.set_of_ne (h : Recent n cache key value) (hne : other ≠ key)
    (hroom : n + 1 < max) : Recent (n + 1) (cache.set max other value') key value := by
  obtain ⟨older, newer, rfl, holder, hnewer⟩ := h
  cases hevicted : evicted max (older ++ { key := key, value := value } :: newer) other with
  | none =>
    refine ⟨older.delete other, newer.delete other ++ [{ key := other, value := value' }], ?_,
      fun entry hentry => holder entry (mem_of_mem_delete hentry), ?_⟩
    · rw [set_eq_of_not_evicted hevicted]
      simp [delete, Ne.symm hne]
    · have hle : (newer.delete other).length ≤ newer.length := length_delete_le
      rw [length_append_singleton]
      omega
  | some out =>
    obtain ⟨-, hfull, -⟩ := of_evicted hevicted
    cases older with
    | nil =>
      rw [List.nil_append, List.length_cons] at hfull
      omega
    | cons first older =>
      refine ⟨older, newer ++ [{ key := other, value := value' }], ?_,
        fun entry hentry => holder entry (List.mem_cons_of_mem _ hentry), ?_⟩
      · rw [LruCache.set, hevicted]
        simp
      · rw [length_append_singleton]
        omega

theorem Recent.set_self (h : Recent n cache key value) (hroom : n + 1 < max) (other : κ) :
    Recent (n + 1) (cache.set max other value) key value := by
  by_cases hne : other = key
  · subst hne
    exact recent_set.mono (Nat.zero_le _)
  · exact h.set_of_ne hne hroom

/-- Sets one key after the other to the same value. -/
def setAll (max : Nat) (cache : LruCache κ α) (keys : List κ) (value : α) : LruCache κ α :=
  keys.foldl (fun cache key => cache.set max key value) cache

theorem setAll_append (keys others : List κ) :
    cache.setAll max (keys ++ others) value = (cache.setAll max keys value).setAll max others value :=
  List.foldl_append

theorem Recent.setAll (h : Recent n cache key value) {keys : List κ}
    (hroom : n + keys.length < max) :
    Recent (n + keys.length) (cache.setAll max keys value) key value := by
  induction keys generalizing n cache with
  | nil => exact h
  | cons other keys ih =>
    rw [List.length_cons] at hroom ⊢
    have hset : Recent (n + 1) (cache.set max other value) key value :=
      h.set_self (by omega) other
    have hall := ih hset (by omega)
    exact hall.mono (by omega)

/-- A key that is set with fewer than `max` keys after it is still there. -/
theorem recent_setAll {keys others : List κ} (hroom : others.length < max) :
    Recent others.length (cache.setAll max (keys ++ key :: others) value) key value := by
  have hset : Recent 0 ((cache.setAll max keys value).set max key value) key value := recent_set
  have hall := hset.setAll (show 0 + others.length < max by omega)
  rw [Nat.zero_add] at hall
  rw [setAll_append]
  exact hall

theorem value_of_mem_setAll {keys : List κ}
    (h : ∀ entry ∈ cache, entry.key = key → entry.value = value) :
    ∀ entry ∈ cache.setAll max keys value, entry.key = key → entry.value = value := by
  induction keys generalizing cache with
  | nil => exact h
  | cons other keys ih =>
    refine ih fun entry hentry hkey => ?_
    rcases mem_of_mem_set hentry with hold | rfl
    · exact h entry hold hkey
    · rfl

/-- A key that is set has this value, if it is still there. -/
theorem value_of_mem_setAll_of_mem {keys : List κ} (hkey : key ∈ keys) :
    ∀ entry ∈ cache.setAll max keys value, entry.key = key → entry.value = value := by
  obtain ⟨before, after, rfl⟩ := List.append_of_mem hkey
  rw [setAll_append]
  show ∀ entry ∈ ((cache.setAll max before value).set max key value).setAll max after value, _
  refine value_of_mem_setAll ?_
  have hset : Recent 0 ((cache.setAll max before value).set max key value) key value := recent_set
  obtain ⟨older, newer, hcache, holder, hnewer⟩ := hset
  rw [hcache, List.length_eq_zero_iff.1 (Nat.le_zero.1 hnewer)]
  intro entry hentry hkey
  rcases List.mem_append.1 hentry with hold | hlast
  · exact absurd hkey (holder entry hold)
  · rw [List.mem_singleton.1 hlast]

end Recent

end LruCache
