import Mathlib.Data.List.Nodup
import Mathlib.Logic.Function.Basic

/-! # First come, first served

Claimants come one after the other, each with a list of things it wants. A thing
is known by its key, and goes to the first who wants it. Where a function is
updated again and again, it is the other way round: the last update counts. -/
namespace KubeYamls.Data
open List

variable {α β κ : Type} [DecidableEq κ] (key : α → κ)

/-- The elements whose key is not taken, neither before nor by an element of the list itself. -/
def firsts (taken : List κ) : List α → List α
  | [] => []
  | a :: as => if key a ∈ taken then firsts taken as else a :: firsts (taken ++ [key a]) as

def shares (taken : List κ) : List (β × List α) → List (β × List α)
  | [] => []
  | c :: cs => (c.1, firsts key taken c.2) :: shares (taken ++ c.2.map key) cs

section firsts
variable {key} {taken : List κ} {as : List α}

theorem firsts_sublist : (firsts key taken as).Sublist as := by
  fun_induction firsts key taken as with
  | case1 => exact .slnil
  | case2 _ a _ _ ih => exact ih.cons a
  | case3 _ a _ _ ih => exact ih.cons_cons a

theorem firsts_append (taken taken' : List κ) (as : List α) :
    firsts key (taken ++ taken') as = firsts key taken' (as.filter (key · ∉ taken)) := by
  induction as generalizing taken' with
  | nil => rfl
  | cons a as ih =>
    by_cases ha : key a ∈ taken
    · simp [firsts, ha, ih]
    · simp only [firsts, ha, mem_append, false_or, append_assoc, ih, not_false_eq_true,
        decide_true, filter_cons_of_pos]

theorem firsts_eq_filter : firsts key taken as = firsts key [] (as.filter (key · ∉ taken)) := by
  have happend : firsts key (taken ++ []) as = firsts key [] (as.filter (key · ∉ taken)) :=
    firsts_append taken [] as
  rwa [append_nil] at happend

theorem mem_map_firsts {k} : k ∈ (firsts key taken as).map key ↔ k ∈ as.map key ∧ k ∉ taken := by
  fun_induction firsts key taken as with
  | case1 => simp
  | case2 taken a as ha ih =>
    rw [ih, map_cons, mem_cons]
    refine ⟨fun h => ⟨.inr h.1, h.2⟩, fun h => ⟨h.1.resolve_left fun he => h.2 (he ▸ ha), h.2⟩⟩
  | case3 taken a as ha ih =>
    rw [map_cons, mem_cons, ih, map_cons, mem_cons, mem_append, mem_singleton]
    by_cases hk : k = key a
    · simp [hk, ha]
    · simp [hk]

theorem nodup_map_firsts : ((firsts key taken as).map key).Nodup := by
  fun_induction firsts key taken as with
  | case1 => exact nodup_nil
  | case2 _ _ _ _ ih => exact ih
  | case3 taken a as ha ih => exact nodup_cons.mpr ⟨by simp [mem_map_firsts], ih⟩

end firsts

section shares
variable {key} {taken : List κ} {cs : List (β × List α)}

theorem shares_claimants : (shares key taken cs).map Prod.fst = cs.map Prod.fst := by
  fun_induction shares key taken cs with
  | case1 => rfl
  | case2 _ c cs ih => simp [ih]

theorem mem_shares {c} : c ∈ shares key taken cs ↔ ∃ before as after,
    cs = before ++ (c.1, as) :: after ∧ c.2 = firsts key (taken ++ before.flatMap (·.2.map key)) as := by
  induction cs generalizing taken with
  | nil => simp [shares]
  | cons d cs ih =>
    rw [shares, mem_cons, ih]
    constructor
    · rintro (rfl | ⟨before, as, after, rfl, hc⟩)
      · exact ⟨[], d.2, cs, rfl, by simp⟩
      · exact ⟨d :: before, as, after, rfl, by rw [hc, flatMap_cons, append_assoc]⟩
    · rintro ⟨before, as, after, hcs, hc⟩
      cases before with
      | nil =>
        obtain ⟨rfl, rfl⟩ := cons_eq_cons.mp hcs
        exact .inl (Prod.ext rfl (by simpa using hc))
      | cons e before =>
        obtain ⟨rfl, rfl⟩ := cons_eq_cons.mp hcs
        exact .inr ⟨before, as, after, rfl, by rw [hc, flatMap_cons, append_assoc]⟩

theorem shares_filter {p : β → Bool} {f : β × List α → List α}
    (h : ∀ before c after, cs = before ++ c :: after → p c.1 = true →
      firsts key (taken ++ before.flatMap (·.2.map key)) c.2 = f c) :
    (shares key taken cs).filter (p ·.1) = (cs.filter (p ·.1)).map fun c => (c.1, f c) := by
  induction cs generalizing taken with
  | nil => rfl
  | cons c cs ih =>
    have hrest : (shares key (taken ++ c.2.map key) cs).filter (p ·.1) =
        (cs.filter (p ·.1)).map fun c => (c.1, f c) := ih fun before d after hcs hd => by
      have hd' := h (c :: before) d after (by rw [hcs, cons_append]) hd
      rwa [flatMap_cons, ← append_assoc] at hd'
    by_cases hc : p c.1 = true
    · have hfirst : firsts key taken c.2 = f c := by simpa using h [] c cs rfl hc
      simp [shares, hc, hrest, hfirst]
    · simp [shares, hc, hrest]

end shares

/-- After a loop of updates a function has the last value it was given. -/
theorem foldl_update_apply {V : Type} (val : α → V) (as : List α) (f : κ → V) (k : κ) :
    as.foldl (fun f a => Function.update f (key a) (val a)) f k =
      ((as.reverse.find? (key · = k)).map val).getD (f k) := by
  induction as generalizing f with
  | nil => rfl
  | cons a as ih =>
    rw [foldl_cons, ih, reverse_cons, find?_append]
    cases hf : as.reverse.find? (key · = k) with
    | some b => simp
    | none =>
      by_cases hk : key a = k
      · subst hk
        simp
      · simp [hk, Function.update_of_ne (Ne.symm hk)]

end KubeYamls.Data
