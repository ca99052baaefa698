import Mathlib.Data.List.Basic

/-! # Runs of one state machine

A system that takes its steps one at a time, each chosen by a label. A run is
kept together with a condition that each of its steps meets, so a statement about
the runs of a certain kind is an induction over `Run`. -/
namespace KubeYamls.Conc

variable {S L : Type}

/-- Steps that each meet `C` lead from `s` to the state. -/
inductive Run (step : L → S → Option S) (C : S → L → Prop) (s : S) : S → Prop where
  | nil : Run step C s s
  | snoc {t u : S} {l : L} (h : Run step C s t) (hC : C t l) (hs : step l t = some u) : Run step C s u

variable {step : L → S → Option S} {C : S → L → Prop} {s t : S}

theorem Run.keeps {I : S → Prop} (h : Run step C s t) (hs : I s)
    (hstep : ∀ t l u, I t → C t l → step l t = some u → I u) : I t := by
  induction h with
  | nil => exact hs
  | snoc _ hC hu ih => exact hstep _ _ _ ih hC hu

theorem Run.mono {C'} (hC : ∀ t l, C t l → C' t l) (h : Run step C s t) : Run step C' s t := by
  induction h with
  | nil => exact .nil
  | snoc _ hc hu ih => exact ih.snoc (hC _ _ hc) hu

theorem Run.cons {l u} (hC : C s l) (hs : step l s = some t) (h : Run step C t u) : Run step C s u := by
  induction h with
  | nil => exact Run.nil.snoc hC hs
  | snoc _ hc hu ih => exact ih.snoc hc hu

/-- The run of given labels, if each of them can be taken and meets the condition. -/
def follow (step : L → S → Option S) (C : S → L → Prop) [∀ s l, Decidable (C s l)] (s : S) :
    List L → Option S
  | [] => some s
  | l :: ls => if C s l then (step l s).bind fun t => follow step C t ls else none

theorem Run.of_follow [∀ s l, Decidable (C s l)] {ls} (h : follow step C s ls = some t) : Run step C s t := by
  induction ls generalizing s with
  | nil =>
    cases h
    exact .nil
  | cons l ls ih =>
    rw [follow] at h
    split at h
    · rename_i hC
      obtain ⟨u, hu, h⟩ := Option.bind_eq_some_iff.mp h
      exact Run.cons hC hu (ih h)
    · cases h

/-- A run of given labels that ends in a state with a property that can be checked. -/
theorem Run.of_labels [∀ s l, Decidable (C s l)] {P} [DecidablePred P] (ls : List L)
    (h : (follow step C s ls).any (fun t => P t) = true) : ∃ t, Run step C s t ∧ P t := by
  obtain ⟨t, ht, hp⟩ := (Option.any_eq_true _ _).mp h
  exact ⟨t, Run.of_follow ht, of_decide_eq_true hp⟩

end KubeYamls.Conc
