import KubeYamls.Data.Paging

/-! Computations with loops that may have no last turn. A computation is given a number
of turns for each of its loops and has an outcome or none. That more turns never change
an outcome is part of the type, so an outcome can be spoken of without the number. -/
namespace KubeYamls.Data
open Option

/-- A computation that fails with `ε` or returns `α` if it has turns enough. -/
structure Fuelled (ε α : Type) where
  run : Nat → Option (Except ε α)
  mono : ∀ {n m : Nat} {r : Except ε α}, n ≤ m → run n = some r → run m = some r

namespace Fuelled
variable {ε ε' α β : Type}

/-- With turns enough, this is the outcome. -/
def Ends (x : Fuelled ε α) (r : Except ε α) : Prop := ∃ fuel, x.run fuel = some r

variable {x : Fuelled ε α} {r : Except ε α}

theorem Ends.unique {r'} (h : x.Ends r) (h' : x.Ends r') : r = r' := by
  obtain ⟨n, hn⟩ := h
  obtain ⟨m, hm⟩ := h'
  have hr := x.mono (Nat.le_max_left n m) hn
  have hr' := x.mono (Nat.le_max_right n m) hm
  exact some.inj (hr.symm.trans hr')

/-! ## Without a loop -/

theorem ofExcept_mono {x n m} (_ : n ≤ m)
    (h : (fun _ : Nat => some x) n = some r) : (fun _ : Nat => some x) m = some r := h

def ofExcept (x : Except ε α) : Fuelled ε α := ⟨fun _ => some x, ofExcept_mono⟩

@[simp] theorem ends_ofExcept {x} : (ofExcept x).Ends r ↔ x = r := by
  simp [Ends, ofExcept]

/-! ## One after the other -/

def bindRun (x : Fuelled ε α) (f : α → Fuelled ε β) (fuel : Nat) : Option (Except ε β) :=
  match x.run fuel with
  | none => none
  | some (.error e) => some (.error e)
  | some (.ok a) => (f a).run fuel

theorem bindRun_mono {f n m} {r : Except ε β} (hnm : n ≤ m)
    (h : bindRun x f n = some r) : bindRun x f m = some r := by
  unfold bindRun at h ⊢
  cases hx : x.run n with
  | none => simp [hx] at h
  | some r' =>
    rw [x.mono hnm hx]
    rw [hx] at h
    cases r' with
    | error e => exact h
    | ok a => exact (f a).mono hnm h

instance : Monad (Fuelled ε) where
  pure a := ofExcept (.ok a)
  bind x f := ⟨bindRun x f, bindRun_mono⟩

@[simp] theorem ends_pure {a} : (pure a : Fuelled ε α).Ends r ↔ .ok a = r :=
  ends_ofExcept

@[simp] theorem ends_bind {f} {b : β} : (x >>= f).Ends (.ok b) ↔ ∃ a, x.Ends (.ok a) ∧ (f a).Ends (.ok b) := by
  constructor
  · rintro ⟨fuel, h⟩
    simp only [bind, bindRun] at h
    cases hx : x.run fuel with
    | none => simp [hx] at h
    | some r =>
      rw [hx] at h
      cases r with
      | error e => cases h
      | ok a => exact ⟨a, ⟨fuel, hx⟩, fuel, h⟩
  · rintro ⟨a, ⟨n, hn⟩, m, hm⟩
    refine ⟨max n m, ?_⟩
    simp only [bind, bindRun, x.mono (Nat.le_max_left n m) hn]
    exact (f a).mono (Nat.le_max_right n m) hm

/-! ## Errors -/

def mapErrorRun (wrap : ε → ε') (x : Fuelled ε α) (fuel : Nat) : Option (Except ε' α) :=
  (x.run fuel).map (Except.mapError wrap)

theorem mapErrorRun_mono {wrap n m} {r : Except ε' α} (hnm : n ≤ m)
    (h : mapErrorRun wrap x n = some r) : mapErrorRun wrap x m = some r := by
  obtain ⟨r', hx, rfl⟩ := map_eq_some_iff.mp h
  simp only [mapErrorRun, x.mono hnm hx, map_some]

def mapError (wrap : ε → ε') (x : Fuelled ε α) : Fuelled ε' α := ⟨mapErrorRun wrap x, mapErrorRun_mono⟩

@[simp] theorem ends_mapError {wrap : ε → ε'} {a} : (x.mapError wrap).Ends (.ok a) ↔ x.Ends (.ok a) := by
  simp only [Ends, mapError, mapErrorRun, map_eq_some_iff]
  constructor
  · rintro ⟨fuel, r, hx, hr⟩
    cases r with
    | error e => cases hr
    | ok a' =>
      cases hr
      exact ⟨fuel, hx⟩
  · rintro ⟨fuel, hx⟩
    exact ⟨fuel, .ok a, hx, rfl⟩

/-! ## A loop over pages -/

section
variable {U σ : Type}

theorem loop_mono {turn} {u : U} {s : σ} {n m} (hnm : n ≤ m) (h : (Paging.run turn n u s).2 = some r) :
    (Paging.run turn m u s).2 = some r := by
  obtain ⟨k, rfl⟩ := Nat.exists_eq_add_of_le hnm
  rw [Paging.run_add (Prod.ext rfl h) k]

def loop (turn : U → σ → Paging.Turn U σ (Except ε α)) (u : U) (s : σ) : Fuelled ε α :=
  ⟨fun fuel => (Paging.run turn fuel u s).2, loop_mono⟩

end

end Fuelled

end KubeYamls.Data
