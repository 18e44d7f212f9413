import Mathlib.Data.List.Basic
import Pkc.Publish.Tables

/-!
# Paths of the postUpdates tree

The update of a post is a file in the MFS of the community's node, in the directory of the post's
bucket: `/<address>/postUpdates/<bucket>/<cid>/update`.  Files are removed by paths that are made of
strings.

* `localMfsPath` is the file of an entry, and `removesPath` says which files a path removes.
* A purge removes the file by its own path.  A post that moves to another bucket has the directory
  of the old one removed; its path is that of the file with the first `/update` taken out
  (`oldPostUpdates`).
* `removesPath_of_names`: the paths of an entry remove its own file and no other.
* `oldPostUpdates_eq`: what is taken out is the last segment, unless there is a `/update` before it,
  as for a community whose address begins with `update`.
-/

set_option autoImplicit false

namespace Pkc
namespace PostUpdates

/-! ## Segments -/

/-- A CID has no slash, and is not the name of the file. -/
structure PostCid where
  cid : Cid
  no_slash : '/' ∉ cid.toList
  not_update : ¬ "update".toList <+: cid.toList
deriving DecidableEq

/-- A post in the directory of a bucket. -/
abbrev Entry := Nat × PostCid

theorem segment_inj {a b s t : List Char} (ha : '/' ∉ a) (hb : '/' ∉ b)
    (h : a ++ '/' :: s = b ++ '/' :: t) : a = b ∧ s = t := by
  induction a generalizing b with
  | nil =>
    cases b with
    | nil => exact ⟨rfl, (List.cons.inj h).2⟩
    | cons c b => exact absurd (List.cons.inj h).1 fun heq => hb (heq ▸ List.mem_cons_self ..)
  | cons c a ih =>
    cases b with
    | nil => exact absurd (List.cons.inj h).1 fun heq => ha (heq ▸ List.mem_cons_self ..)
    | cons d b =>
      obtain ⟨rfl, htail⟩ := List.cons.inj h
      obtain ⟨rfl, rfl⟩ := ih (fun hmem => ha (List.mem_cons_of_mem _ hmem))
        (fun hmem => hb (List.mem_cons_of_mem _ hmem)) htail
      exact ⟨rfl, rfl⟩

theorem isDigit_of_mem_toString {n : Nat} {c : Char} (h : c ∈ (toString n).toList) :
    c.isDigit = true := by
  rw [Nat.toString_eq_repr, Nat.toList_repr] at h
  exact Nat.isDigit_of_mem_toDigits (by decide) (by decide) h

theorem toDigits_injective (m n : Nat) (h : Nat.toDigits 10 m = Nat.toDigits 10 n) : m = n := by
  have hdigit {a b : Nat} (ha : a < 10) (hb : b < 10) (hab : a.digitChar = b.digitChar) :
      a = b := by
    rw [← Nat.toNat_digitChar_sub_48_of_lt_ten ha, hab, Nat.toNat_digitChar_sub_48_of_lt_ten hb]
  induction m using Nat.strongRecOn generalizing n with
  | _ m ih =>
    rw [Nat.toDigits_eq_if (n := m) (by decide), Nat.toDigits_eq_if (n := n) (by decide)] at h
    split at h <;> split at h
    · exact hdigit ‹m < 10› ‹n < 10› (List.cons.inj h).1
    · simpa using congrArg List.length h
    · simpa using congrArg List.length h
    · obtain ⟨hinit, hlast⟩ := List.append_inj' h rfl
      have hdiv := ih (m / 10) (by omega) (n / 10) hinit
      have hmod := hdigit (Nat.mod_lt m (by decide)) (Nat.mod_lt n (by decide))
        (List.cons.inj hlast).1
      omega

theorem slash_not_mem_toString (n : Nat) : '/' ∉ (toString n).toList :=
  fun h => absurd (isDigit_of_mem_toString h) (by decide)

theorem update_not_prefix_toString (n : Nat) : ¬ "update".toList <+: (toString n).toList := by
  rintro ⟨rest, h⟩
  have hmem : 'u' ∈ (toString n).toList := by
    rw [← h]
    exact List.mem_append_left _ (by decide)
  exact absurd (isDigit_of_mem_toString hmem) (by decide)

/-! ## Paths -/

section Paths

variable (address : String)

/-- `/<address>/postUpdates/<bucket>/<cid>`, up to the last segment. -/
def directoryOf (e : Entry) : String :=
  "/" ++ address ++ "/" ++ "postUpdates" ++ "/" ++ toString e.1 ++ "/" ++ e.2.cid

/-- `calculateLocalMfsPathForCommentUpdate` -/
def localMfsPath (e : Entry) : String := directoryOf address e ++ "/" ++ "update"

/-- `path.replace(pattern, "")`: without the first occurrence, if there is one. -/
def removeFirst (pattern : List Char) : List Char → List Char
  | [] => []
  | c :: cs =>
    if pattern.isPrefixOf (c :: cs) then (c :: cs).drop pattern.length
    else c :: removeFirst pattern cs

/-- What is removed when a post leaves a bucket. -/
def oldPostUpdates (e : Entry) : String :=
  String.ofList (removeFirst "/update".toList (localMfsPath address e).toList)

/-- `files.rm`, recursive, removes a file that has the path or is below it. -/
def removesPath (path file : String) : Bool :=
  file = path || (path ++ "/").toList.isPrefixOf file.toList

/-- The path removes the entry's file. -/
def Removes (path : String) (e : Entry) : Prop := removesPath path (localMfsPath address e) = true

instance (path : String) (e : Entry) : Decidable (Removes address path e) :=
  inferInstanceAs (Decidable (removesPath path (localMfsPath address e) = true))

/-- The path is one of the entry's: its file, or its directory. -/
def Names (path : String) (e : Entry) : Prop :=
  path = localMfsPath address e ∨ path = directoryOf address e

variable {address} {e e' : Entry} {path : String}

/-- The part of a path behind that which all entries have. -/
theorem directoryOf_toList (e : Entry) : (directoryOf address e).toList =
    ("/" ++ address ++ "/" ++ "postUpdates" ++ "/").toList ++
      ((toString e.1).toList ++ '/' :: e.2.cid.toList) := by
  have hslash : "/".toList = ['/'] := rfl
  simp only [directoryOf, String.toList_append, hslash, List.append_assoc, List.cons_append,
    List.nil_append]

theorem localMfsPath_toList (e : Entry) : (localMfsPath address e).toList =
    ("/" ++ address ++ "/" ++ "postUpdates" ++ "/").toList ++
      ((toString e.1).toList ++ '/' :: (e.2.cid.toList ++ '/' :: "update".toList)) := by
  have hslash : "/".toList = ['/'] := rfl
  rw [localMfsPath, String.toList_append, String.toList_append, directoryOf_toList, hslash]
  simp only [List.append_assoc, List.cons_append, List.nil_append]

/-- The bucket and the post of a path. -/
theorem entry_inj {s t : List Char}
    (h : (toString e.1).toList ++ '/' :: (e.2.cid.toList ++ '/' :: s) =
      (toString e'.1).toList ++ '/' :: (e'.2.cid.toList ++ '/' :: t)) : e = e' ∧ s = t := by
  obtain ⟨hbucket, hrest⟩ := segment_inj (slash_not_mem_toString _) (slash_not_mem_toString _) h
  obtain ⟨hcid, hend⟩ := segment_inj e.2.no_slash e'.2.no_slash hrest
  obtain ⟨bucket, cid, _, _⟩ := e
  obtain ⟨bucket', cid', _, _⟩ := e'
  have hbuckets : bucket = bucket' := by
    rw [Nat.toString_eq_repr, Nat.toString_eq_repr, Nat.toList_repr, Nat.toList_repr] at hbucket
    exact toDigits_injective bucket bucket' hbucket
  have hcids : cid = cid' := String.toList_inj.1 hcid
  subst hbuckets hcids
  exact ⟨rfl, hend⟩

/-- **The paths of an entry remove its file, and no other.** -/
theorem removesPath_of_names (h : Names address path e) : Removes address path e' ↔ e = e' := by
  have hslash : "/".toList = ['/'] := rfl
  rw [Removes, removesPath, Bool.or_eq_true, decide_eq_true_eq, List.isPrefixOf_iff_prefix]
  rcases h with rfl | rfl
  · constructor
    · rintro (heq | ⟨rest, hrest⟩)
      · rw [← String.toList_inj, localMfsPath_toList, localMfsPath_toList,
          List.append_cancel_left_eq] at heq
        exact (entry_inj heq).1.symm
      · -- a path below the file of an entry is longer than a file's
        rw [String.toList_append, localMfsPath_toList, localMfsPath_toList, hslash] at hrest
        simp only [List.append_assoc, List.cons_append, List.nil_append,
          List.append_cancel_left_eq] at hrest
        have hlength := congrArg List.length (entry_inj hrest).2
        simp at hlength
    · rintro rfl
      exact .inl rfl
  · constructor
    · rintro (heq | ⟨rest, hrest⟩)
      · rw [← String.toList_inj, localMfsPath_toList, directoryOf_toList,
          List.append_cancel_left_eq] at heq
        obtain ⟨-, hcid⟩ := segment_inj (slash_not_mem_toString _) (slash_not_mem_toString _) heq
        exact absurd (hcid ▸ List.mem_append_right _ (List.mem_cons_self ..)) e.2.no_slash
      · rw [String.toList_append, directoryOf_toList, localMfsPath_toList, hslash] at hrest
        simp only [List.append_assoc, List.cons_append, List.nil_append,
          List.append_cancel_left_eq] at hrest
        exact (entry_inj hrest).1
    · rintro rfl
      refine .inr ⟨"update".toList, ?_⟩
      rw [localMfsPath, String.toList_append, String.toList_append, String.toList_append]

/-! ## The path of a bucket that is left -/

/-- What has no occurrence of the pattern is kept, where the pattern's first letter follows. -/
theorem removeFirst_of_not_infix {pattern w rest : List Char} {c : Char} (hpattern : c ∉ pattern)
    (hw : ¬ (c :: pattern) <:+: w) :
    removeFirst (c :: pattern) (w ++ c :: rest) = w ++ removeFirst (c :: pattern) (c :: rest) := by
  induction w with
  | nil => rfl
  | cons d w ih =>
    have hne : ¬ (c :: pattern).isPrefixOf (d :: (w ++ c :: rest)) = true := by
      intro h
      obtain ⟨end_, heq⟩ := List.isPrefixOf_iff_prefix.1 h
      -- the occurrence would end in `w`, or have the first letter of the pattern twice
      rw [← List.cons_append (a := d)] at heq
      rcases List.append_eq_append_iff.1 heq with ⟨s, hs, -⟩ | ⟨s, hs, hrest⟩
      · exact hw ⟨[], s, by rw [hs]; rfl⟩
      · cases s with
        | nil => exact hw ⟨[], [], by rw [hs]; simp⟩
        | cons e s =>
          obtain ⟨rfl, -⟩ := List.cons.inj hrest
          obtain ⟨-, rfl⟩ := List.cons.inj hs
          exact hpattern (List.mem_append_right _ (List.mem_cons_self ..))
    rw [List.cons_append, removeFirst, if_neg hne,
      ih fun hinside => hw (hinside.trans (List.suffix_cons d w).isInfix), List.cons_append]

/-- A segment that does not begin with the rest of the pattern is kept. -/
theorem removeFirst_segment {pattern w rest : List Char} {c : Char} (hpattern : c ∉ pattern)
    (hw : c ∉ w) (hstarts : ¬ pattern <+: w) :
    removeFirst (c :: pattern) (c :: (w ++ c :: rest)) =
      c :: (w ++ removeFirst (c :: pattern) (c :: rest)) := by
  refine removeFirst_of_not_infix (w := c :: w) hpattern ?_
  rintro ⟨s, t, heq⟩
  cases s with
  | nil => exact hstarts ⟨t, (List.cons.inj heq).2⟩
  | cons d s =>
    refine hw ((List.cons.inj heq).2 ▸ ?_)
    simp

/-- **The directory is what is left of the path of its file**, if there is no `/update` in the
path up to the address. -/
theorem oldPostUpdates_eq (haddress : ¬ "/update".toList <:+: ("/" ++ address).toList) (e : Entry) :
    oldPostUpdates address e = directoryOf address e := by
  have hone : "/".toList = ['/'] := rfl
  have hpattern : "/update".toList = '/' :: "update".toList := rfl
  have htop {rest : List Char} : removeFirst ('/' :: "update".toList)
      ('/' :: (address.toList ++ '/' :: rest)) =
        '/' :: (address.toList ++ removeFirst ('/' :: "update".toList) ('/' :: rest)) := by
    rw [String.toList_append, hone, hpattern] at haddress
    exact removeFirst_of_not_infix (by decide) haddress
  rw [oldPostUpdates, ← String.toList_inj, String.toList_ofList, localMfsPath_toList,
    directoryOf_toList, hpattern]
  simp only [String.toList_append, hone, List.append_assoc, List.cons_append, List.nil_append]
  rw [htop, removeFirst_segment (by decide) (by decide) (by decide),
    removeFirst_segment (by decide) (slash_not_mem_toString _) (update_not_prefix_toString _),
    removeFirst_segment (by decide) e.2.no_slash e.2.not_update]
  have hlast : removeFirst ('/' :: "update".toList) ('/' :: "update".toList) = [] := by decide
  rw [hlast, List.append_nil]

end Paths

end PostUpdates
end Pkc
