import Mathlib.Data.List.Infix

/-! Loops that fetch a list page by page. A turn asks for one page and ends with the
next one to ask for or with the result of the loop; whether there is a last turn is a
question of what the pages name. -/
namespace KubeYamls.Data.Paging
open List Prod

/-- What one turn of a loop leads to. -/
inductive Turn (U σ ρ : Type) where
  | more (u : U) (s : σ)
  | stop (r : ρ)

variable {U α σ ρ ε : Type}

/-- At most so many turns: what was asked for, and the result if there was a last one. -/
def run (turn : U → σ → Turn U σ ρ) : Nat → U → σ → List U × Option ρ
  | 0, _, _ => ([], none)
  | fuel + 1, u, s =>
    match turn u s with
    | .stop r => ([u], some r)
    | .more u' s' => (u :: (run turn fuel u' s').1, (run turn fuel u' s').2)

section
variable {turn : U → σ → Turn U σ ρ} {u u' : U} {s s' : σ} {visited : List U} {r : ρ}

/-- The loop ends with this result after these requests. -/
def Ends (turn : U → σ → Turn U σ ρ) (u : U) (s : σ) (visited : List U) (r : ρ) : Prop :=
  run turn visited.length u s = (visited, some r)

theorem ends_stop (h : turn u s = .stop r) : Ends turn u s [u] r := by
  simp [Ends, run, h]

theorem Ends.more (h : turn u s = .more u' s') (he : Ends turn u' s' visited r) :
    Ends turn u s (u :: visited) r := by
  unfold Ends at he
  simp [Ends, run, h, he]

theorem run_add {fuel} (h : run turn fuel u s = (visited, some r)) (n : Nat) :
    run turn (fuel + n) u s = (visited, some r) := by
  induction fuel generalizing u s visited with
  | zero => cases h
  | succ fuel ih =>
    rw [Nat.succ_add]
    unfold run at h ⊢
    cases ht : turn u s with
    | stop r' =>
      rw [ht] at h
      exact h
    | more u' s' =>
      rw [ht] at h
      obtain ⟨rfl, hres⟩ := mk.inj h
      have hrest : run turn fuel u' s' = ((run turn fuel u' s').1, some r) := Prod.ext rfl hres
      simp only [ih hrest]

theorem Ends.run_eq (h : Ends turn u s visited r) {fuel} (hf : visited.length ≤ fuel) :
    run turn fuel u s = (visited, some r) := by
  obtain ⟨n, rfl⟩ := Nat.exists_eq_add_of_le hf
  exact run_add h n

/-- However many turns it is given, the loop has no result. -/
def NeverEnds (turn : U → σ → Turn U σ ρ) (u : U) (s : σ) : Prop := ∀ fuel, (run turn fuel u s).2 = none

theorem NeverEnds.not_ends (h : NeverEnds turn u s) : ¬ Ends turn u s visited r := by
  intro he
  have hnone := h visited.length
  rw [he] at hnone
  cases hnone

theorem neverEnds_of_invariant {I : U → σ → Prop}
    (hI : ∀ u s, I u s → ∃ u' s', turn u s = .more u' s' ∧ I u' s') (h : I u s) : NeverEnds turn u s := by
  intro fuel
  induction fuel generalizing u s with
  | zero => rfl
  | succ fuel ih =>
    obtain ⟨u', s', ht, h'⟩ := hI u s h
    simp only [run, ht, ih h']

end

/-! ## Loops over the items of all pages -/

/-- Go through the items of one page; `.error` is a return from the middle of it. -/
def items (body : σ → α → Except ρ σ) (s : σ) (l : List α) : Except ρ σ := l.foldlM body s

def result (body : σ → α → Except ρ σ) (finish : σ → ρ) (s : σ) (l : List α) : ρ :=
  match items body s l with
  | .error r => r
  | .ok s' => finish s'

/-- A turn that asks for the page `u` and goes on with the one it names. -/
def follow (get : U → Except ε (List α × Option U)) (fail : ε → ρ) (body : σ → α → Except ρ σ)
    (finish : σ → ρ) (u : U) (s : σ) : Turn U σ ρ :=
  match get u with
  | .error e => .stop (fail e)
  | .ok (l, next) =>
    match items body s l with
    | .error r => .stop r
    | .ok s' =>
      match next with
      | none => .stop (finish s')
      | some u' => .more u' s'

/-- Pages that name one another, from the first to a last one that names none. -/
inductive Chain (get : U → Except ε (List α × Option U)) : List (U × List α) → Prop where
  | last {u : U} {l : List α} (h : get u = .ok (l, none)) : Chain get [(u, l)]
  | more {u u' : U} {l l' : List α} {rest : List (U × List α)} (h : get u = .ok (l, some u'))
    (hc : Chain get ((u', l') :: rest)) : Chain get ((u, l) :: (u', l') :: rest)

section
variable {get : U → Except ε (List α × Option U)} {fail : ε → ρ} {body : σ → α → Except ρ σ}
  {finish : σ → ρ}

theorem result_append (s : σ) (l l' : List α) : result body finish s (l ++ l') = match items body s l with
    | .error r => r
    | .ok s' => result body finish s' l' := by
  unfold result items
  rw [foldlM_append]
  cases l.foldlM body s <;> rfl

theorem foldl_snoc {β : Type} (f : α → β) (l : List α) (acc : List β) :
    l.foldl (fun acc a => acc ++ [f a]) acc = acc ++ l.map f := by
  induction l generalizing acc with
  | nil => simp
  | cons a l ih => rw [foldl_cons, ih, map_cons, append_assoc, singleton_append]

theorem items_ok (f : σ → α → σ) (s : σ) (l : List α) :
    items (ρ := ρ) (fun s a => .ok (f s a)) s l = .ok (l.foldl f s) := by
  induction l generalizing s with
  | nil => rfl
  | cons a l ih => exact ih (f s a)

/-- Along a chain the loop asks for the pages in order, not for all of them if it
returns early, and its result is that of the items of all pages together. -/
theorem follow_ends (fail : ε → ρ) (body : σ → α → Except ρ σ) (finish : σ → ρ)
    {pages} (h : Chain get pages) (s : σ) {u}
    (hu : pages.head?.map fst = some u) : ∃ visited, visited <+: pages.map fst ∧
      Ends (follow get fail body finish) u s visited (result body finish s (pages.flatMap snd)) ∧
      ∀ s', items body s (pages.flatMap snd) = .ok s' → visited = pages.map fst := by
  induction h generalizing s u with
  | @last u0 l h =>
    obtain rfl : u0 = u := by simpa using hu
    refine ⟨[u0], prefix_rfl, ends_stop ?_, fun _ _ => rfl⟩
    simp only [follow, h, result, flatMap_cons, flatMap_nil, append_nil]
    cases items body s l <;> rfl
  | @more u0 u' l l' rest h hc ih =>
    obtain rfl : u0 = u := by simpa using hu
    rw [flatMap_cons, result_append]
    cases hl : items body s l with
    | error r =>
      -- the loop returns on this page
      refine ⟨[u0], by simp, ends_stop (by simp [follow, h, hl]), fun s' hs' => ?_⟩
      simp only [items, foldlM_append] at hl hs'
      rw [hl] at hs'
      cases hs'
    | ok s1 =>
      obtain ⟨visited, hpre, hends, hall⟩ := ih s1 (u := u') rfl
      refine ⟨u0 :: visited, cons_prefix_cons.mpr ⟨rfl, hpre⟩,
        hends.more (by simp [follow, h, hl]), fun s' hs' => ?_⟩
      simp only [items, foldlM_append] at hl hs'
      rw [hl] at hs'
      rw [hall s' hs']
      rfl

/-- With enough turns, a loop whose body never returns asks for every page. -/
theorem run_follow {pages} (h : Chain get pages) (f : σ → α → σ) (s : σ) {u}
    (hu : pages.head?.map fst = some u) {fuel} (hf : pages.length ≤ fuel) :
    run (follow get fail (fun s a => .ok (f s a)) finish) fuel u s =
      (pages.map fst, some (finish ((pages.flatMap snd).foldl f s))) := by
  obtain ⟨visited, -, hends, hall⟩ := 
    follow_ends fail (fun s a => .ok (f s a)) finish h s hu
  obtain rfl := hall _ (items_ok f s _)
  rw [hends.run_eq (by simpa using hf), result, items_ok]

def Listed (get : U → Except ε (List α × Option U)) (u : U) (l : List α) : Prop :=
  ∃ pages, Chain get pages ∧ pages.head?.map fst = some u ∧ pages.flatMap snd = l

theorem listed_last {u l} (h : get u = .ok (l, none)) : Listed get u l :=
  ⟨[(u, l)], .last h, rfl, by simp⟩

theorem Listed.more {u u' l l'} (h : get u = .ok (l, some u')) (hl : Listed get u' l') :
    Listed get u (l ++ l') := by
  obtain ⟨pages, hchain, hhead, rfl⟩ := hl
  match pages, hchain, hhead with
  | (v, items) :: rest, hchain, hhead =>
    obtain rfl : v = u' := by simpa using hhead
    exact ⟨(u, l) :: (v, items) :: rest, .more h hchain, rfl, rfl⟩

/-- A loop whose body never returns ends without an error exactly if there is a list to
read, and its result is that of the list. -/
theorem run_ok_iff {ε' : Type} (wrap : ε → ε') (f : σ → α → σ) (u : U) (s r : σ) :
    (∃ fuel, (run (follow get (fun e => .error (wrap e)) (fun s a => .ok (f s a)) Except.ok) fuel u s).2 =
      some (.ok r)) ↔ ∃ l, Listed get u l ∧ l.foldl f s = r := by
  constructor
  · rintro ⟨fuel, h⟩
    induction fuel generalizing u s with
    | zero => cases h
    | succ fuel ih =>
      cases hg : get u with
      | error e => simp [run, follow, hg] at h
      | ok p =>
        obtain ⟨l, next⟩ := p
        cases next with
        | none =>
          refine ⟨l, listed_last hg, ?_⟩
          simpa [run, follow, hg, items_ok] using h
        | some u' =>
          simp only [run, follow, hg, items_ok] at h
          obtain ⟨l', hl', hr⟩ := ih u' _ h
          exact ⟨l ++ l', hl'.more hg, by rw [foldl_append, hr]⟩
  · rintro ⟨l, ⟨pages, hchain, hhead, rfl⟩, rfl⟩
    exact ⟨pages.length, by rw [run_follow hchain f s hhead (Nat.le_refl _)]⟩

end

end KubeYamls.Data.Paging
