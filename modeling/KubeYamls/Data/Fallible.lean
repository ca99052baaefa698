import Mathlib.Data.List.Basic

/-! Go functions that return early with an error, as `Except`. What a function that
succeeded has been through is read off step by step. -/
namespace KubeYamls.Data
open List Option

variable {ε ε' α β : Type}

/-- `if bad { return err }` -/
def refuse (bad : Prop) [Decidable bad] (err : ε) : Except ε Unit := if bad then .error err else .ok ()

@[simp] theorem refuse_eq_ok {bad : Prop} [Decidable bad] {err : ε} {u} : refuse bad err = .ok u ↔ ¬bad := by
  unfold refuse
  split <;> simp_all

theorem bind_eq_ok {x} {f : α → Except ε β} {b} : (x >>= f) = .ok b ↔ ∃ a, x = .ok a ∧ f a = .ok b := by
  cases x <;> simp [bind, Except.bind]

theorem map_eq_ok {x : Except ε α} {f} {b : β} : (f <$> x) = .ok b ↔ ∃ a, x = .ok a ∧ f a = b := by
  cases x <;> simp [Functor.map, Except.map]

theorem mapError_eq_ok {x : Except ε α} {f : ε → ε'} {a} : x.mapError f = .ok a ↔ x = .ok a := by
  cases x <;> simp [Except.mapError]

/-- A nil pointer that is refused. -/
def present (err : ε) : Option α → Except ε α
  | none => .error err
  | some a => .ok a

@[simp] theorem present_eq_ok {err : ε} {x} {a : α} : present err x = .ok a ↔ x = some a := by
  cases x <;> simp [present]

def ifPresent (f : α → Except ε Unit) : Option α → Except ε Unit
  | none => .ok ()
  | some a => f a

@[simp] theorem ifPresent_eq_ok {f : α → Except ε Unit} {x u} :
    ifPresent f x = .ok u ↔ ∀ a ∈ x, f a = .ok () := by
  cases x <;> simp [ifPresent]

def onlyIf (c : Bool) (x : Except ε Unit) : Except ε Unit := if c then x else .ok ()

@[simp] theorem onlyIf_eq_ok {c} {x : Except ε Unit} {u} : onlyIf c x = .ok u ↔ (c = true → x = .ok ()) := by
  cases c <;> simp [onlyIf]

/-- A loop that stops at the first error got to its end exactly if there was none. -/
theorem isOk_forM (f : α → Except ε Unit) (as : List α) : (as.forM f).isOk = as.all fun a => (f a).isOk := by
  induction as with
  | nil => rfl
  | cons a as ih =>
    rw [all_cons, ← ih]
    cases hf : f a <;> simp [forM_cons, hf, bind, Except.bind, Except.isOk, Except.toBool]

theorem foldlM_keeps {σ γ : Type} {f : σ → α → Except ε σ} {g : σ → γ}
    (hf : ∀ s a s', f s a = .ok s' → g s' = g s) {l : List α} {s s'}
    (h : l.foldlM f s = .ok s') : g s' = g s := by
  induction l generalizing s with
  | nil =>
    cases h
    rfl
  | cons a l ih =>
    rw [foldlM_cons] at h
    obtain ⟨s1, hs1, h⟩ := bind_eq_ok.mp h
    exact (ih h).trans (hf s a s1 hs1)

variable {as : List α} {f : α → Option (Option β)}

/-- A loop none of whose turns fails does not fail. -/
theorem isSome_foldlM {σ : Type} {f : σ → α → Option σ} {s}
    (h : ∀ s, ∀ a ∈ as, (f s a).isSome = true) : (as.foldlM f s).isSome = true := by
  induction as generalizing s with
  | nil => rfl
  | cons a as ih =>
    obtain ⟨s1, hs1⟩ := isSome_iff_exists.mp (h s a mem_cons_self)
    rw [foldlM_cons, hs1]
    exact ih fun s b hb => h s b (mem_cons_of_mem a hb)

/-- Elements that change nothing can be left out of a loop. -/
theorem foldlM_filter {σ : Type} {f p} (h : ∀ a ∈ as, p a = false → ∀ s, f s a = some s) (s : σ) :
    as.foldlM f s = (as.filter p).foldlM f s := by
  induction as generalizing s with
  | nil => rfl
  | cons a as ih =>
    have htail := ih fun b hb => h b (mem_cons_of_mem a hb)
    rw [foldlM_cons, filter_cons]
    cases hp : p a with
    | true => simp [htail]
    | false => simp [h a mem_cons_self hp, htail]

/-- A loop that may panic, which is `none`, and that skips some elements. -/
def gather (f : α → Option (Option β)) : List α → Option (List β)
  | [] => some []
  | a :: as => (f a).bind fun b => (gather f as).map fun bs => b.toList ++ bs

theorem gather_cons {a bs} (h : gather f (a :: as) = some bs) :
    ∃ b bs', f a = some b ∧ gather f as = some bs' ∧ bs = b.toList ++ bs' := by
  obtain ⟨b, hb, h⟩ := bind_eq_some_iff.mp h
  obtain ⟨bs', hbs, rfl⟩ := map_eq_some_iff.mp h
  exact ⟨b, bs', hb, hbs, rfl⟩

theorem exists_of_gather {bs} (h : gather f as = some bs) {a} (ha : a ∈ as) : ∃ b, f a = some b := by
  induction as generalizing bs with
  | nil => cases ha
  | cons a' as ih =>
    obtain ⟨b, bs', hb, hbs, _⟩ := gather_cons h
    rcases mem_cons.mp ha with rfl | ha
    · exact ⟨b, hb⟩
    · exact ih hbs ha

theorem isSome_gather (h : ∀ a ∈ as, (f a).isSome = true) : (gather f as).isSome = true := by
  induction as with
  | nil => rfl
  | cons a as ih =>
    obtain ⟨b, hb⟩ := isSome_iff_exists.mp (h a mem_cons_self)
    rw [gather, hb, bind_some, isSome_map]
    exact ih fun a' ha' => h a' (mem_cons_of_mem a ha')

theorem mem_gather {bs} (h : gather f as = some bs) {b} : b ∈ bs ↔ ∃ a ∈ as, f a = some (some b) := by
  induction as generalizing bs with
  | nil =>
    cases h
    simp
  | cons a as ih =>
    obtain ⟨b', bs', ha, has, rfl⟩ := gather_cons h
    simp [ih has, ha]

theorem sublist_of_gather {f} (hf : ∀ a b, f a = some (some b) → b = a)
    {bs} (h : gather f as = some bs) : bs.Sublist as := by
  induction as generalizing bs with
  | nil =>
    obtain rfl := some.inj h
    exact List.Sublist.slnil
  | cons a as ih =>
    obtain ⟨b, bs', ha, has, rfl⟩ := gather_cons h
    cases b with
    | none => exact (ih has).cons a
    | some b =>
      obtain rfl := hf a b ha
      exact (ih has).cons_cons b

/-- A loop that skips what is bad. If it takes all it should, it yields no more than that only by taking
nothing else. -/
theorem forall_eq_of_filterMap_eq {f g : α → Option β} {l : List α} (hle : ∀ a ∈ l, ∀ b ∈ g a, f a = some b)
    (heq : l.filterMap f = l.filterMap g) : ∀ a ∈ l, f a = g a := by
  induction l with
  | nil => simp
  | cons a l ih =>
    obtain ⟨ha, hl⟩ := forall_mem_cons.mp hle
    cases hg : g a with
    | some b =>
      rw [filterMap_cons_some (ha b hg), filterMap_cons_some hg] at heq
      exact forall_mem_cons.mpr ⟨by rw [ha b hg, hg], ih hl (List.cons.inj heq).2⟩
    | none =>
      cases hf : f a with
      | none =>
        rw [filterMap_cons_none hf, filterMap_cons_none hg] at heq
        exact forall_mem_cons.mpr ⟨by rw [hf, hg], ih hl heq⟩
      | some b =>
        -- the rest yields at least as much with f, so it cannot make up for b
        have hrest : (l.filterMap g).length ≤ (l.filterMap f).length := by
          rw [length_filterMap_eq_countP, length_filterMap_eq_countP]
          refine countP_mono_left fun a' ha' hsome => ?_
          obtain ⟨b', hb'⟩ := isSome_iff_exists.mp hsome
          rw [hl a' ha' b' hb']
          rfl
        rw [filterMap_cons_some hf, filterMap_cons_none hg] at heq
        rw [← heq, length_cons] at hrest
        omega

end KubeYamls.Data
