import Mathlib.Data.List.Basic
import Mathlib.Data.List.Nodup

/-!
# Walking a forest with a stack

The children of a node are entries, each with the node that it leads to.  A walk takes a node from a
stack, collects its children, and puts them on the stack in their order, so that the last of them is
the next one.  Nothing in the walk itself ends it; it ends where the nodes have a height, which
falls from a node to its children.

* `walk` is the loop, with the number of rounds that it may take.
* `subtree` is what a walk collects below a node, and `walk_subtree` says so.
* `mem_subtree` and `nodup_subtree`: these are the entries below the node, each of them once if
  every node is a child of one other only.
* `walk_congr`: a walk sees no more than the nodes that it reaches.
-/

set_option autoImplicit false

namespace ForestWalk

universe u v

variable {κ : Type u} {ε : Type v}

section Walk

variable (key : ε → κ) (kids : κ → List ε)

def walk : Nat → List κ → List ε → Option (List ε)
  | 0, _, _ => none
  | _ + 1, [], collected => some collected
  | rounds + 1, k :: stack, collected =>
    walk rounds (((kids k).map key).reverse ++ stack) (collected ++ kids k)

/-- The entries below a node. -/
inductive Below (root : κ) : ε → Prop
  | child {e : ε} (h : e ∈ kids root) : Below root e
  | under {e e' : ε} (h : Below root e) (h' : e' ∈ kids (key e)) : Below root e'

/-- The entries below a node down to some level, in the order in which a walk collects them. -/
def subtree : Nat → κ → List ε
  | 0, _ => []
  | levels + 1, k => kids k ++ ((kids k).map key).reverse.flatMap (subtree levels)

/-- The height of a node is above that of its children. -/
def Falls (height : κ → Nat) : Prop := ∀ k, ∀ e ∈ kids k, height (key e) < height k

end Walk

variable {key : ε → κ} {kids : κ → List ε} {height : κ → Nat} {levels : Nat} {k : κ} {e : ε}

/-! ## What a walk collects -/

theorem walk_add {rounds : Nat} {stack : List κ} {collected l : List ε}
    (h : walk key kids rounds stack collected = some l) (more : Nat) :
    walk key kids (rounds + more) stack collected = some l := by
  induction rounds generalizing stack collected with
  | zero => cases h
  | succ rounds ih =>
    rw [Nat.succ_add]
    cases stack with
    | nil => exact h
    | cons k stack => exact ih h

theorem walk_list (ks : List κ)
    (h : ∀ k ∈ ks, ∃ n, ∀ rounds stack collected, walk key kids (rounds + n) (k :: stack) collected =
      walk key kids rounds stack (collected ++ subtree key kids levels k)) :
    ∃ n, ∀ rounds stack collected, walk key kids (rounds + n) (ks ++ stack) collected =
      walk key kids rounds stack (collected ++ ks.flatMap (subtree key kids levels)) := by
  induction ks with
  | nil => exact ⟨0, fun rounds stack collected => by simp⟩
  | cons k ks ih =>
    obtain ⟨n, hn⟩ := h k List.mem_cons_self
    obtain ⟨m, hm⟩ := ih fun k hk => h k (List.mem_cons_of_mem _ hk)
    refine ⟨m + n, fun rounds stack collected => ?_⟩
    rw [← Nat.add_assoc, List.cons_append, hn, hm, List.flatMap_cons, List.append_assoc]

/-- **A walk ends.**  What it collects at a node is the subtree of the node, and it goes on with the
rest of the stack. -/
theorem walk_subtree (hfalls : Falls key kids height) (h : height k < levels) :
    ∃ n, ∀ rounds stack collected, walk key kids (rounds + n) (k :: stack) collected =
      walk key kids rounds stack (collected ++ subtree key kids levels k) := by
  induction levels generalizing k with
  | zero => exact absurd h (Nat.not_lt_zero _)
  | succ levels ih =>
    obtain ⟨n, hn⟩ := walk_list ((kids k).map key).reverse fun k' hk' => by
      obtain ⟨e, he, rfl⟩ := List.mem_map.1 (List.mem_reverse.1 hk')
      exact ih (Nat.lt_of_lt_of_le (hfalls k e he) (Nat.le_of_lt_succ h))
    refine ⟨n + 1, fun rounds stack collected => ?_⟩
    rw [← Nat.add_assoc, walk, hn, subtree, List.append_assoc]

theorem walk_root (hfalls : Falls key kids height) (h : height k < levels) :
    ∃ n, ∀ rounds, n ≤ rounds → walk key kids rounds [k] [] = some (subtree key kids levels k) := by
  obtain ⟨n, hn⟩ := walk_subtree hfalls h
  refine ⟨1 + n, fun rounds hle => ?_⟩
  obtain ⟨more, rfl⟩ := Nat.exists_eq_add_of_le hle
  refine walk_add ?_ more
  rw [hn, List.nil_append]
  rfl

/-- A walk that starts in a set from which the children do not lead out sees this set only. -/
theorem walk_congr {kids' : κ → List ε} {S : κ → Prop} (hsame : ∀ k, S k → kids k = kids' k)
    (hclosed : ∀ k, S k → ∀ e ∈ kids k, S (key e)) {rounds : Nat} {stack : List κ}
    {collected : List ε} (hstack : ∀ k ∈ stack, S k) :
    walk key kids rounds stack collected = walk key kids' rounds stack collected := by
  induction rounds generalizing stack collected with
  | zero => rfl
  | succ rounds ih =>
    cases stack with
    | nil => rfl
    | cons k stack =>
      have hk := hstack k List.mem_cons_self
      rw [walk, walk, ← hsame k hk]
      refine ih fun k' hk' => ?_
      rcases List.mem_append.1 hk' with hkid | hrest
      · obtain ⟨e, he, rfl⟩ := List.mem_map.1 (List.mem_reverse.1 hkid)
        exact hclosed k hk e he
      · exact hstack k' (List.mem_cons_of_mem _ hrest)

/-! ## The entries of a subtree -/

theorem Below.cases_root (h : Below key kids k e) :
    e ∈ kids k ∨ ∃ child ∈ kids k, Below key kids (key child) e := by
  induction h with
  | child h => exact .inl h
  | under _ h' ih =>
    rcases ih with hchild | ⟨child, hchild, hbelow⟩
    · exact .inr ⟨_, hchild, .child h'⟩
    · exact .inr ⟨child, hchild, .under hbelow h'⟩

theorem Below.of_child {child : ε} (hchild : child ∈ kids k) (h : Below key kids (key child) e) :
    Below key kids k e := by
  induction h with
  | child h => exact .under (.child hchild) h
  | under _ h' ih => exact .under ih h'

theorem Below.height_lt (hfalls : Falls key kids height) (h : Below key kids k e) :
    height (key e) < height k := by
  induction h with
  | child h => exact hfalls _ _ h
  | under _ h' ih => exact Nat.lt_trans (hfalls _ _ h') ih

theorem mem_subtree (hfalls : Falls key kids height) (h : height k < levels) :
    e ∈ subtree key kids levels k ↔ Below key kids k e := by
  induction levels generalizing k with
  | zero => exact absurd h (Nat.not_lt_zero _)
  | succ levels ih =>
    have hlt : ∀ child ∈ kids k, height (key child) < levels := fun child hchild =>
      Nat.lt_of_lt_of_le (hfalls k child hchild) (Nat.le_of_lt_succ h)
    rw [subtree, List.mem_append, List.mem_flatMap]
    constructor
    · rintro (hchild | ⟨k', hk', he⟩)
      · exact .child hchild
      · obtain ⟨child, hchild, rfl⟩ := List.mem_map.1 (List.mem_reverse.1 hk')
        exact .of_child hchild ((ih (hlt child hchild)).1 he)
    · intro hbelow
      rcases hbelow.cases_root with hchild | ⟨child, hchild, hbelow⟩
      · exact .inl hchild
      · exact .inr ⟨key child, List.mem_reverse.2 (List.mem_map.2 ⟨child, hchild, rfl⟩),
          (ih (hlt child hchild)).2 hbelow⟩

/-- Every node is a child of one other only, and once. -/
structure OneParent (key : ε → κ) (kids : κ → List ε) : Prop where
  nodup : ∀ k, ((kids k).map key).Nodup
  eq : ∀ k k', ∀ e ∈ kids k, ∀ e' ∈ kids k', key e = key e' → k = k'

theorem Below.cases_parent (h : Below key kids k e) :
    e ∈ kids k ∨ ∃ e', Below key kids k e' ∧ e ∈ kids (key e') := by
  cases h with
  | child h => exact .inl h
  | under h h' => exact .inr ⟨_, h, h'⟩

/-- Of two nodes that an entry is below, one is below the other. -/
theorem Below.comparable (hone : OneParent key kids) {k' : κ} {e' : ε} (h : Below key kids k e)
    (h' : Below key kids k' e') (heq : key e = key e') :
    k = k' ∨ (∃ a, key a = k ∧ Below key kids k' a) ∨ ∃ a, key a = k' ∧ Below key kids k a := by
  induction h generalizing e' with
  | child hchild =>
    rcases h'.cases_parent with hchild' | ⟨a, ha, hchild'⟩
    · exact .inl (hone.eq _ _ _ hchild _ hchild' heq)
    · exact .inr (.inl ⟨a, (hone.eq _ _ _ hchild _ hchild' heq).symm, ha⟩)
  | under hbelow hunder ih =>
    rcases h'.cases_parent with hchild' | ⟨a, ha, hchild'⟩
    · exact .inr (.inr ⟨_, hone.eq _ _ _ hunder _ hchild' heq, hbelow⟩)
    · exact ih ha (hone.eq _ _ _ hunder _ hchild' heq)

/-- An entry is not below another child of its parent. -/
theorem not_below_sibling (hfalls : Falls key kids height) (hone : OneParent key kids) {a b : ε}
    (ha : a ∈ kids k) (hb : b ∈ kids k) (h : Below key kids (key a) e) : key e ≠ key b := by
  intro heq
  have hup := h.cases_parent
  have hlt := hfalls k a ha
  rcases hup with hchild | ⟨e', hbelow, hchild⟩
  · rw [hone.eq _ _ _ hchild _ hb heq] at hlt
    exact Nat.lt_irrefl _ hlt
  · have hpath := hbelow.height_lt hfalls
    rw [hone.eq _ _ _ hchild _ hb heq] at hpath
    exact Nat.lt_asymm hlt hpath

theorem nodup_subtree (hfalls : Falls key kids height) (hone : OneParent key kids)
    (h : height k < levels) : ((subtree key kids levels k).map key).Nodup := by
  induction levels generalizing k with
  | zero => exact .nil
  | succ levels ih =>
    have hlt : ∀ child ∈ kids k, height (key child) < levels := fun child hchild =>
      Nat.lt_of_lt_of_le (hfalls k child hchild) (Nat.le_of_lt_succ h)
    have hbelow : ∀ k' ∈ ((kids k).map key).reverse, ∀ e ∈ subtree key kids levels k',
        ∃ child ∈ kids k, key child = k' ∧ Below key kids (key child) e := by
      intro k' hk' e he
      obtain ⟨child, hchild, rfl⟩ := List.mem_map.1 (List.mem_reverse.1 hk')
      exact ⟨child, hchild, rfl, (mem_subtree hfalls (hlt child hchild)).1 he⟩
    rw [subtree, List.map_append, List.map_flatMap]
    refine List.nodup_append'.2 ⟨hone.nodup k, List.nodup_flatMap.2 ⟨fun k' hk' => ?_, ?_⟩, ?_⟩
    · obtain ⟨child, hchild, rfl⟩ := List.mem_map.1 (List.mem_reverse.1 hk')
      exact ih (hlt child hchild)
    · refine (List.nodup_reverse.2 (hone.nodup k)).imp_of_mem fun {a b} ha hb hne => ?_
      -- The subtrees of two children have nothing in common.
      intro x hxa hxb
      obtain ⟨e, he, rfl⟩ := List.mem_map.1 hxa
      obtain ⟨e', he', heq⟩ := List.mem_map.1 hxb
      obtain ⟨child, hchild, rfl, hunder⟩ := hbelow a ha e he
      obtain ⟨child', hchild', rfl, hunder'⟩ := hbelow b hb e' he'
      rcases hunder.comparable hone hunder' heq.symm with
        hsame | ⟨a', ha', hbelow'⟩ | ⟨b', hb', hbelow'⟩
      · exact hne hsame
      · exact not_below_sibling hfalls hone hchild' hchild hbelow' ha'
      · exact not_below_sibling hfalls hone hchild hchild' hbelow' hb'
    · intro x hx hxs
      obtain ⟨child, hchild, rfl⟩ := List.mem_map.1 hx
      obtain ⟨k', hk', hxs⟩ := List.mem_flatMap.1 hxs
      obtain ⟨e, he, heq⟩ := List.mem_map.1 hxs
      obtain ⟨child', hchild', rfl, hunder⟩ := hbelow k' hk' e he
      exact not_below_sibling hfalls hone hchild' hchild hunder heq

end ForestWalk
