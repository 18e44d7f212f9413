import Mathlib.Data.List.Basic

/-!
# The first element with each key

`remeda`'s `uniqueBy` goes through a list and keeps an element if none before it has its key.  Here
are the three facts about it that do not depend on the key: what it keeps is in the list
(`uniqueBy_sublist`), every key stays (`exists_mem_uniqueBy`), and none is there twice
(`nodup_uniqueBy`).
-/

set_option autoImplicit false

universe u v

variable {α : Type u} {κ : Type v} [DecidableEq κ] {key : α → κ} {a : α} {as : List α}

def uniqueBy (key : α → κ) : List α → List α
  | [] => []
  | a :: as => a :: (uniqueBy key as).filter fun b => key b ≠ key a

theorem uniqueBy_sublist (key : α → κ) (as : List α) : (uniqueBy key as).Sublist as := by
  induction as with
  | nil => exact .slnil
  | cons a as ih => exact (List.filter_sublist.trans ih).cons_cons a

theorem exists_mem_uniqueBy (key : α → κ) (h : a ∈ as) : ∃ b ∈ uniqueBy key as, key b = key a := by
  induction as with
  | nil => cases h
  | cons first as ih =>
    by_cases hkey : key a = key first
    · exact ⟨first, List.mem_cons_self, hkey.symm⟩
    · rcases List.mem_cons.1 h with rfl | h
      · exact absurd rfl hkey
      · obtain ⟨b, hb, heq⟩ := ih h
        refine ⟨b, List.mem_cons_of_mem _ (List.mem_filter.2 ⟨hb, ?_⟩), heq⟩
        simpa [heq] using hkey

/-- All elements are kept if no two of them have one key. -/
theorem mem_uniqueBy (hinj : ∀ b ∈ as, ∀ c ∈ as, key b = key c → b = c) :
    a ∈ uniqueBy key as ↔ a ∈ as := by
  refine ⟨fun h => (uniqueBy_sublist key as).subset h, fun h => ?_⟩
  obtain ⟨b, hb, heq⟩ := exists_mem_uniqueBy key h
  rwa [← hinj b ((uniqueBy_sublist key as).subset hb) a h heq]

theorem nodup_uniqueBy (key : α → κ) (as : List α) : ((uniqueBy key as).map key).Nodup := by
  induction as with
  | nil => simp [uniqueBy]
  | cons a as ih =>
    rw [uniqueBy, List.map_cons, List.nodup_cons]
    exact ⟨by simp, ih.sublist (List.filter_sublist.map key)⟩
