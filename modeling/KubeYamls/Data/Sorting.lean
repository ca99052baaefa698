import Mathlib.Data.List.Chain
import Mathlib.Data.List.Sort
import Mathlib.Data.List.TakeWhile

/-! # Sorting and filtering

A stable sort does not care about the elements that are left out: to sort and
then to filter is to filter and then to sort. What is searched for is found in
every order, if there is only one. -/
namespace KubeYamls.Data
open List

variable {α : Type} {r : α → α → Prop} [DecidableRel r] [IsTrans α r] (p : α → Bool)

theorem filter_orderedInsert (a : α) {l : List α} (hl : l.Pairwise r) :
    (l.orderedInsert r a).filter p = if p a then (l.filter p).orderedInsert r a else l.filter p := by
  induction l with
  | nil => cases h : p a <;> simp [h]
  | cons b l ih =>
    obtain ⟨hb, hl⟩ := pairwise_cons.mp hl
    by_cases hab : r a b
    · rw [orderedInsert_cons_of_le r l hab, filter_cons]
      split
      · -- the element goes before all that are left, since it goes before the first
        have hle : ∀ c ∈ (b :: l).filter p, r a c := by
          intro c hc
          rcases mem_cons.mp (mem_of_mem_filter hc) with rfl | hc
          · exact hab
          · exact trans_of r hab (hb c hc)
        cases hf : (b :: l).filter p with
        | nil => rfl
        | cons c cs => rw [orderedInsert_cons_of_le r cs (hle c (hf ▸ mem_cons_self))]
      · rfl
    · rw [orderedInsert_of_not_le r l hab, filter_cons, ih hl, filter_cons]
      cases p b <;> cases p a <;> simp [hab]

theorem filter_insertionSort [Std.Total r] (l : List α) :
    (l.insertionSort r).filter p = (l.filter p).insertionSort r := by
  induction l with
  | nil => rfl
  | cons a l ih =>
    rw [insertionSort_cons, filter_orderedInsert p a (pairwise_insertionSort r l), ih, filter_cons]
    split <;> rfl

theorem insertionSort_cons_split (r : α → α → Prop) [DecidableRel r] (a : α) (l : List α) :
    ∃ before after, (a :: l).insertionSort r = before ++ a :: after ∧ ∀ b ∈ before, ¬r a b := by
  refine ⟨_, _, insertionSort_cons_eq_take_drop r a l, fun b hb => ?_⟩
  simpa using mem_takeWhile_imp hb

section find
variable {l l' : List α}

theorem find?_eq_of_perm {p} (h : l.Perm l')
    (hone : ∀ a ∈ l, ∀ b ∈ l, p a = true → p b = true → a = b) : l.find? p = l'.find? p := by
  cases hf : l.find? p with
  | none =>
    refine (find?_eq_none.mpr fun a ha => ?_).symm
    exact find?_eq_none.mp hf a (h.mem_iff.mpr ha)
  | some a =>
    have ha := mem_of_find?_eq_some hf
    have hpa := find?_some hf
    obtain ⟨b, hb⟩ := Option.isSome_iff_exists.mp (find?_isSome.mpr ⟨a, h.mem_iff.mp ha, hpa⟩)
    rw [hb, hone a ha b (h.mem_iff.mpr (mem_of_find?_eq_some hb)) hpa (find?_some hb)]

end find

/-! ## Sorting by a comparison -/

/-- What is known of `sort.Sort`: it moves elements only, and leaves none that is less than the one before.
In which order it leaves elements that are not told apart is not known. -/
structure Sorter (less : α → α → Bool) where
  sort : List α → List α
  perm : ∀ l, (sort l).Perm l
  sorted : ∀ l, (sort l).IsChain fun a b => less b a = false

section key
variable {κ : Type} [LinearOrder κ] {key : α → κ} {less : α → α → Bool}

theorem Sorter.sortedLE (hless : ∀ a b, less a b = true ↔ key a < key b) (s : Sorter less) (l : List α) :
    ((s.sort l).map key).SortedLE := by
  refine List.IsChain.sortedLE (isChain_map_of_isChain key (fun a b h => ?_) (s.sorted l))
  rw [Bool.eq_false_iff, ne_eq, hless, not_lt] at h
  exact h

theorem Sorter.map_key_eq_iff (hless : ∀ a b, less a b = true ↔ key a < key b) (s t : Sorter less) (l m : List α) :
    (s.sort l).map key = (t.sort m).map key ↔ (l.map key).Perm (m.map key) := by
  have hl := (s.perm l).map key
  have hm := (t.perm m).map key
  constructor
  · intro h
    exact hl.symm.trans (h ▸ hm)
  · intro h
    exact ((hl.trans h).trans hm.symm).eq_of_sortedLE (s.sortedLE hless l) (t.sortedLE hless m)

end key

end KubeYamls.Data
