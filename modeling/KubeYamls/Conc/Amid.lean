import KubeYamls.Conc.Prog
import Mathlib.Logic.Relation

/-! # Programs among others

A program makes its calls on a world that others change in between. What the others
may have done from one call to the next is one relation, and nothing is said of how
they did it; an interleaving of any number of programs is such an execution of each
of them. -/
namespace KubeYamls.Conc
open List

/-- A call that was made, with its reply and the world before and after it. -/
structure Made (S : Sig) (W : Type) where
  op : S.Op
  res : S.Res op
  pre : W
  post : W

def Made.ev {S : Sig} {W : Type} (c : Made S W) : Ev S := ⟨c.op, c.res⟩

namespace Prog
variable {S : Sig} {W α β : Type}

/-- From `w` the program can make these calls, return `a` and leave `w'`, while the
others do what they may before each call and before the return. -/
inductive Amid (step : (o : S.Op) → S.Res o → W → W → Prop) (others : W → W → Prop) :
    Prog S α → W → List (Made S W) → α → W → Prop where
  | ret {w w' : W} (a : α) (ho : others w w') : Amid step others (.ret a) w [] a w'
  | act {o : S.Op} {k : S.Res o → Prog S α} {r : S.Res o} {w pre post w' : W} {tr : List (Made S W)} {a : α}
    (ho : others w pre) (hs : step o r pre post) (h : Amid step others (k r) post tr a w') :
    Amid step others (.act o k) w (⟨o, r, pre, post⟩ :: tr) a w'

namespace Amid
variable {step : (o : S.Op) → S.Res o → W → W → Prop} {others : W → W → Prop} {w w' : W}
  {tr : List (Made S W)} {p : Prog S α} {a : α}

theorem pure_inv {b} (h : Amid step others (pure a : Prog S α) w tr b w') : tr = [] ∧ b = a ∧ others w w' := by
  cases h with
  | ret _ ho => exact ⟨rfl, rfl, ho⟩

theorem step_inv {o f} {b : β} (h : Amid step others (op o >>= f) w tr b w') :
    ∃ r pre post tr', others w pre ∧ step o r pre post ∧ Amid step others (f r) post tr' b w' ∧
      tr = ⟨o, r, pre, post⟩ :: tr' := by
  cases h with
  | act ho hs h => exact ⟨_, _, _, _, ho, hs, h, rfl⟩

theorem map_inv {o} {g : S.Res o → β} {b : β} (h : Amid step others (op o >>= fun r => pure (g r)) w tr b w') :
    ∃ r pre post, others w pre ∧ step o r pre post ∧ others post w' ∧ b = g r ∧ tr = [⟨o, r, pre, post⟩] := by
  obtain ⟨r, pre, post, tr', hpre, hs, hrest, rfl⟩ := h.step_inv
  obtain ⟨rfl, rfl, hpost⟩ := hrest.pure_inv
  exact ⟨r, pre, post, hpre, hs, hpost, rfl, rfl⟩

theorem bind_inv {f} {b : β} (hrefl : ∀ w, others w w) (h : Amid step others (p >>= f) w tr b w') :
    ∃ a w1 tr1 tr2, Amid step others p w tr1 a w1 ∧ Amid step others (f a) w1 tr2 b w' ∧ tr = tr1 ++ tr2 := by
  induction p generalizing w tr with
  | ret a => exact ⟨a, w, [], tr, .ret a (hrefl w), h, rfl⟩
  | act o k ih =>
    cases h with
    | act ho hs h =>
      obtain ⟨a, w1, tr1, tr2, h1, h2, rfl⟩ := ih _ h
      exact ⟨a, w1, _ :: tr1, tr2, .act ho hs h1, h2, rfl⟩

theorem before {v} (htrans : ∀ {w1 w2 w3}, others w1 w2 → others w2 w3 → others w1 w3)
    (ho : others v w) (h : Amid step others p w tr a w') : Amid step others p v tr a w' := by
  cases h with
  | ret a ho' => exact .ret a (htrans ho ho')
  | act ho' hs h => exact .act (htrans ho ho') hs h

theorem steps (h : Amid step others p w tr a w') : ∀ c ∈ tr, step c.op c.res c.pre c.post := by
  induction h with
  | ret a ho => simp
  | act ho hs h ih => exact forall_mem_cons.mpr ⟨hs, ih⟩

theorem lasts {P : W → Prop} (ho : ∀ w w', others w w' → P w → P w') (h : Amid step others p w tr a w')
    (hs : ∀ c ∈ tr, P c.pre → P c.post) (hw : P w) : P w' := by
  induction h with
  | ret a ho' => exact ho _ _ ho' hw
  | act ho' _ _ ih =>
    obtain ⟨hc, hs⟩ := forall_mem_cons.mp hs
    exact ih hs (hc (ho _ _ ho' hw))

theorem lasts_of_mem {P : W → Prop} (ho : ∀ w w', others w w' → P w → P w')
    (h : Amid step others p w tr a w') (hs : ∀ c ∈ tr, P c.pre → P c.post) {c} (hc : c ∈ tr)
    (hP : P c.post) : P w' := by
  induction h with
  | ret a ho' => cases hc
  | act ho' hs' h' ih =>
    have hs := (forall_mem_cons.mp hs).2
    rcases mem_cons.mp hc with rfl | hc
    · exact h'.lasts ho hs hP
    · exact ih hs hc

/-- If each call is carried out by a program that comes down to one step, then the whole
is an execution with these steps. `view` finds the calls in what was really called. -/
theorem of_subst {T} {impl : (o : S.Op) → Prog T (S.Res o)} {stepT view trT}
    (hrefl : ∀ w, others w w) (htrans : ∀ {w1 w2 w3}, others w1 w2 → others w2 w3 → others w1 w3)
    (himpl : ∀ o w trT r w', Amid stepT others (impl o) w trT r w' → ∃ pre post, others w pre ∧
      step o r pre post ∧ others post w' ∧ trT.filterMap view = [⟨o, r, pre, post⟩])
    (h : Amid stepT others (p.subst impl) w trT a w') : Amid step others p w (trT.filterMap view) a w' := by
  induction p generalizing w trT with
  | ret b =>
    cases h with
    | ret _ ho => exact .ret a ho
  | act o k ih =>
    obtain ⟨r, w1, tr1, tr2, h1, h2, rfl⟩ := bind_inv hrefl h
    obtain ⟨pre, post, hpre, hs, hpost, hview⟩ := himpl o w tr1 r w1 h1
    rw [filterMap_append, hview]
    exact .act hpre hs ((ih r h2).before htrans hpost)

end Amid

/-! ## Calls with answers from outside -/

/-- A step in which some answer is given. -/
def stepOf {A : Type} (exec : (o : S.Op) → A → W → Option (S.Res o × W)) (o : S.Op) (r : S.Res o) (w w' : W) : Prop :=
  ∃ ans, exec o ans w = some (r, w')

/-- The execution in which the others make these changes and the calls get these
answers, if there is a turn for each call. -/
def play {A : Type} (exec : (o : S.Op) → A → W → Option (S.Res o × W)) :
    Prog S α → List ((W → W) × A) → W → Option (List (Made S W) × α × W)
  | .ret a, [], w => some ([], a, w)
  | .ret _, _ :: _, _ => none
  | .act _ _, [], _ => none
  | .act o k, turn :: turns, w =>
    match exec o turn.2 (turn.1 w) with
    | none => none
    | some (r, post) =>
      match (k r).play exec turns post with
      | none => none
      | some (tr, a, w') => some (⟨o, r, turn.1 w, post⟩ :: tr, a, w')

theorem amid_of_play {A : Type} {exec others p} {turns : List ((W → W) × A)} {w w'} {tr : List (Made S W)} {a : α}
    (hrefl : ∀ w, others w w) (hturns : ∀ t ∈ turns, ∀ w, others w (t.1 w))
    (h : p.play exec turns w = some (tr, a, w')) : Amid (stepOf exec) others p w tr a w' := by
  induction p generalizing turns w tr with
  | ret b =>
    cases turns with
    | nil =>
      cases h
      exact .ret _ (hrefl _)
    | cons => cases h
  | act o k ih =>
    cases turns with
    | nil => cases h
    | cons turn turns =>
      obtain ⟨hturn, hturns⟩ := forall_mem_cons.mp hturns
      simp only [play] at h
      split at h
      · cases h
      · rename_i r post hx
        split at h
        · cases h
        · rename_i tr' b w'' hrest
          cases h
          exact .act (hturn w) ⟨_, hx⟩ (ih _ hturns hrest)

end Prog

end KubeYamls.Conc
