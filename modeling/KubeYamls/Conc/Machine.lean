import KubeYamls.Conc.Prog
import Mathlib.Data.List.Basic

/-! # Interleaved runs

Any number of threads, each started by a request and running the program that
serves it, share one world. A step starts a thread, lets one thread perform its
next call, or lets the world move by itself (time passing). The history records
every step with the world before and after it, newest first, so a property of a
run is a property of the state it ends in. -/
namespace KubeYamls.Conc
open Option List

/-- What the calls do, and which program serves a request. `Ans` is what the
outside world contributes to one call: a random value, the reply of a remote
party, a failure. -/
structure Machine (S : Sig) where
  World : Type
  Req : Type
  Ans : Type
  Move : Type
  main : Req → Prog S Unit
  exec : Req → (o : S.Op) → Ans → World → Option (S.Res o × World)
  move : Move → World → Option World

variable {S : Sig} (M : Machine S)

structure Thread where
  req : M.Req
  prog : Prog S Unit

inductive Entry where
  | start (tid : Nat) (req : M.Req)
  | act (tid : Nat) (req : M.Req) (o : S.Op) (r : S.Res o) (pre post : M.World)
  | move (m : M.Move) (pre post : M.World)

structure Sys where
  world : M.World
  threads : List (Thread M)
  hist : List (Entry M)

inductive Label where
  | start (req : M.Req)
  | act (tid : Nat) (ans : M.Ans)
  | move (m : M.Move)

variable {M}

def Sys.init (w : M.World) : Sys M := ⟨w, [], []⟩

def Sys.spawn (s : Sys M) (req : M.Req) : Sys M :=
  { s with
    threads := s.threads ++ [⟨req, M.main req⟩]
    hist := .start s.threads.length req :: s.hist }

/-- Thread `tid`, serving `req`, got the reply `r` to its call `o`. -/
def Sys.acted (s : Sys M) (tid : Nat) (req : M.Req) (o : S.Op) (k : S.Res o → Prog S Unit)
    (r : S.Res o) (w : M.World) : Sys M :=
  { world := w
    threads := s.threads.set tid ⟨req, k r⟩
    hist := .act tid req o r s.world w :: s.hist }

def Sys.moved (s : Sys M) (m : M.Move) (w : M.World) : Sys M :=
  { s with
    world := w
    hist := .move m s.world w :: s.hist }

def step (s : Sys M) : Label M → Option (Sys M)
  | .start req => some (s.spawn req)
  | .act tid ans =>
    match s.threads[tid]? with
    | none => none
    | some th =>
      match th.prog with
      | .ret _ => none
      | .act o k =>
        match M.exec th.req o ans s.world with
        | none => none
        | some (r, w) => some (s.acted tid th.req o k r w)
  | .move m =>
    match M.move m s.world with
    | none => none
    | some w => some (s.moved m w)

def run (s : Sys M) : List (Label M) → Option (Sys M)
  | [] => some s
  | l :: ls => (step s l).bind fun s => run s ls

/-- The states of all runs that start in a world satisfying `Init`. -/
inductive Reach (Init : M.World → Prop) : Sys M → Prop where
  | init {w} (h : Init w) : Reach Init (.init w)
  | step {s s' l} (h : Reach Init s) (hs : Conc.step s l = some s') : Reach Init s'

variable {Init : M.World → Prop} {s : Sys M} {w : M.World} {hist l1 l2 : List (Entry M)}

theorem Reach.run {s' ls} (h : Reach Init s) (hr : Conc.run s ls = some s') : Reach Init s' := by
  induction ls generalizing s with
  | nil => cases hr; exact h
  | cons l ls ih =>
    obtain ⟨t, hs, ht⟩ := bind_eq_some_iff.mp hr
    exact ih (h.step hs) ht

/-- Where a run of given labels ends, if all of them can be taken. -/
def Sys.after (w : M.World) (ls : List (Label M)) : Sys M := (run (.init w) ls).getD (.init w)

theorem Reach.after (hw : Init w) (ls : List (Label M)) : Reach Init (Sys.after w ls) := by
  unfold Sys.after
  cases hr : Conc.run (.init w) ls with
  | none => exact .init hw
  | some s => exact Reach.run (.init hw) hr

theorem Reach.after_self (w : M.World) (ls : List (Label M)) : Reach (· = w) (Sys.after w ls) :=
  @Reach.after S M (· = w) w rfl ls

theorem Reach.mono {Init'} (hi : ∀ w, Init w → Init' w) (h : Reach Init s) : Reach Init' s := by
  induction h with
  | init hw => exact .init (hi _ hw)
  | step _ hs ih => exact ih.step hs

theorem step_cases {s' l} (h : step s l = some s') : (∃ req, s' = s.spawn req) ∨
    (∃ tid req o k ans r w, s.threads[tid]? = some ⟨req, .act o k⟩ ∧
      M.exec req o ans s.world = some (r, w) ∧ s' = s.acted tid req o k r w) ∨
    (∃ m w, M.move m s.world = some w ∧ s' = s.moved m w) := by
  cases l with
  | start req => exact .inl ⟨req, (some.inj h).symm⟩
  | act tid ans =>
    simp only [step] at h
    split at h
    · cases h
    · rename_i th hth
      split at h
      · cases h
      · rename_i o k hp
        split at h
        · cases h
        · rename_i r w he
          obtain ⟨req, prog⟩ := th
          subst hp
          exact .inr (.inl ⟨tid, req, o, k, ans, r, w, hth, he, (some.inj h).symm⟩)
  | move m =>
    simp only [step] at h
    split at h
    · cases h
    · rename_i w hw
      exact .inr (.inr ⟨m, w, hw, (some.inj h).symm⟩)

theorem Reach.acted (h : Reach Init s) {tid req o k ans r}
    (hth : s.threads[tid]? = some ⟨req, .act o k⟩) (hx : M.exec req o ans s.world = some (r, w)) :
    Reach Init (s.acted tid req o k r w) :=
  h.step (l := .act tid ans) (by simp [Conc.step, hth, hx])

/-- The calls thread `tid` has made, newest first. -/
def past (tid : Nat) (hist : List (Entry M)) : List (Ev S) :=
  hist.filterMap fun e => match e with
    | .act t _ o r _ _ => if t = tid then some ⟨o, r⟩ else none
    | _ => none

@[simp] theorem past_nil (tid : Nat) : past tid ([] : List (Entry M)) = [] := rfl

@[simp] theorem past_start (tid t : Nat) (req : M.Req) (hist : List (Entry M)) :
    past tid (.start t req :: hist) = past tid hist := rfl

@[simp] theorem past_move (tid : Nat) (m : M.Move) (pre post : M.World) (hist : List (Entry M)) :
    past tid (.move m pre post :: hist) = past tid hist := rfl

@[simp] theorem past_act_self (tid : Nat) (req : M.Req) (o : S.Op) (r : S.Res o)
    (pre post : M.World) (hist : List (Entry M)) :
    past tid (.act tid req o r pre post :: hist) = ⟨o, r⟩ :: past tid hist := by
  simp [past]

theorem past_act_ne {tid t} (h : t ≠ tid) (req : M.Req) (o : S.Op) (r : S.Res o)
    (pre post : M.World) (hist : List (Entry M)) :
    past tid (.act t req o r pre post :: hist) = past tid hist := by
  simp [past, h]

theorem mem_past {tid o r} :
    (⟨o, r⟩ : Ev S) ∈ past tid hist ↔ ∃ req pre post, Entry.act tid req o r pre post ∈ hist := by
  simp only [past, mem_filterMap]
  constructor
  · rintro ⟨e, he, hm⟩
    cases e with
    | act t req o' r' pre post =>
      dsimp only at hm
      split at hm
      · rename_i ht
        subst ht
        cases hm
        exact ⟨req, pre, post, he⟩
      · cases hm
    | _ => cases hm
  · rintro ⟨req, pre, post, he⟩
    exact ⟨_, he, by simp⟩

theorem past_sublist {tid} {l l' : List (Entry M)} (h : l.Sublist l') :
    (past tid l).Sublist (past tid l') := h.filterMap _

theorem past_sublist_of_eq {tid} {l : List (Entry M)} {e} (h : l = l1 ++ e :: l2) :
    (past tid l2).Sublist (past tid l) :=
  past_sublist (h ▸ (sublist_cons_self e l2).trans (sublist_append_right l1 (e :: l2)))

@[simp] theorem past_append (tid : Nat) (l1 l2 : List (Entry M)) :
    past tid (l1 ++ l2) = past tid l1 ++ past tid l2 := filterMap_append

theorem past_split {tid a b o r} (h : past tid hist = a ++ ⟨o, r⟩ :: b) : ∃ l1 req pre post l2,
      hist = l1 ++ .act tid req o r pre post :: l2 ∧ past tid l1 = a ∧ past tid l2 = b := by
  obtain ⟨l, l', rfl, h1, h⟩ := filterMap_eq_append_iff.mp h
  obtain ⟨l0, e, l2, rfl, hnone, he, h2⟩ := filterMap_eq_cons_iff.mp h
  have h0 : past tid l0 = [] := filterMap_eq_nil_iff.mpr hnone
  cases e with
  | act t req o' r' pre post =>
    dsimp only at he
    split at he
    · rename_i ht
      subst ht
      cases he
      refine ⟨l ++ l0, req, pre, post, l2, by simp, ?_, h2⟩
      rw [past_append, h0, append_nil]
      exact h1
    · cases he
  | _ => cases he

theorem first_unique {α : Type} {p : α → Prop} {a a' b b' x x'}
    (h : a ++ x :: b = a' ++ x' :: b') (ha : ∀ e ∈ a, ¬ p e) (ha' : ∀ e ∈ a', ¬ p e)
    (hx : p x) (hx' : p x') : a = a' ∧ x = x' ∧ b = b' := by
  induction a generalizing a' with
  | nil =>
    cases a' with
    | nil =>
      obtain ⟨rfl, rfl⟩ := cons.inj h
      exact ⟨rfl, rfl, rfl⟩
    | cons y a' =>
      obtain ⟨rfl, _⟩ := cons.inj h
      exact absurd hx (ha' x mem_cons_self)
  | cons y a ih =>
    cases a' with
    | nil =>
      obtain ⟨rfl, _⟩ := cons.inj h
      exact absurd hx' (ha y mem_cons_self)
    | cons y' a' =>
      obtain ⟨rfl, ht⟩ := cons.inj h
      obtain ⟨rfl, hxx, hbb⟩ := ih ht (fun e he => ha e (mem_cons_of_mem _ he))
        (fun e he => ha' e (mem_cons_of_mem _ he))
      exact ⟨rfl, hxx, hbb⟩

theorem mem_order {e1 e2} (h1 : e1 ∈ hist) (h2 : e2 ∈ hist) :
    e1 = e2 ∨ (∃ l1 l2, hist = l1 ++ e2 :: l2 ∧ e1 ∈ l2) ∨ ∃ l1 l2, hist = l1 ++ e1 :: l2 ∧ e2 ∈ l2 := by
  induction hist with
  | nil => cases h1
  | cons e hist ih =>
    rcases mem_cons.mp h1 with rfl | m1 <;> rcases mem_cons.mp h2 with rfl | m2
    · exact .inl rfl
    · exact .inr (.inr ⟨[], hist, rfl, m2⟩)
    · exact .inr (.inl ⟨[], hist, rfl, m1⟩)
    · rcases ih m1 m2 with h | ⟨l1, l2, rfl, hm⟩ | ⟨l1, l2, rfl, hm⟩
      · exact .inl h
      · exact .inr (.inl ⟨e :: l1, l2, rfl, hm⟩)
      · exact .inr (.inr ⟨e :: l1, l2, rfl, hm⟩)

/-- The worlds before and after the calls of a history. -/
inductive Saw (hist : List (Entry M)) : M.World → Prop where
  | pre {tid req o r pre post} (h : Entry.act tid req o r pre post ∈ hist) : Saw hist pre
  | post {tid req o r pre post} (h : Entry.act tid req o r pre post ∈ hist) : Saw hist post

theorem Saw.mono {hist'} (h : Saw hist w) (hs : ∀ e ∈ hist, e ∈ hist') : Saw hist' w := by
  cases h with
  | pre h => exact .pre (hs _ h)
  | post h => exact .post (hs _ h)

variable {tid : Nat} {req : M.Req} {pre post : M.World}

theorem Saw.of_cons {o r} (h : Saw (.act tid req o r pre post :: hist) w) : w = pre ∨ w = post ∨ Saw hist w := by
  cases h with
  | pre h =>
    rcases mem_cons.mp h with heq | h
    · cases heq; exact .inl rfl
    · exact .inr (.inr (.pre h))
  | post h =>
    rcases mem_cons.mp h with heq | h
    · cases heq; exact .inr (.inl rfl)
    · exact .inr (.inr (.post h))

theorem Saw.of_move {m} (h : Saw (.move m pre post :: hist) w) : Saw hist w := by
  cases h with
  | pre h => exact .pre (by simpa using h)
  | post h => exact .post (by simpa using h)

theorem Saw.of_start (h : Saw (.start tid req :: hist) w) : Saw hist w := by
  cases h with
  | pre h => exact .pre (by simpa using h)
  | post h => exact .post (by simpa using h)

section
variable {α : Type}

/-- What some step of a history opened and no later one has closed. -/
def ongoing (opens : Entry M → Option α) (closes : Entry M → α → Bool) : List (Entry M) → List α
  | [] => []
  | e :: hist => (opens e).toList ++ (ongoing opens closes hist).filter fun a => !closes e a

variable {opens : Entry M → Option α} {closes : Entry M → α → Bool} {e : Entry M}
  {hist : List (Entry M)} {a : α}

@[simp] theorem ongoing_nil : ongoing opens closes [] = [] := rfl

@[simp] theorem mem_ongoing_cons : a ∈ ongoing opens closes (e :: hist) ↔
    opens e = some a ∨ a ∈ ongoing opens closes hist ∧ closes e a = false := by
  simp [ongoing]

theorem mem_ongoing (he : e ∈ hist) (ho : opens e = some a) (hc : ∀ e ∈ hist, closes e a = false) :
    a ∈ ongoing opens closes hist := by
  induction hist with
  | nil => cases he
  | cons e' hist ih =>
    refine mem_ongoing_cons.mpr ?_
    rcases mem_cons.mp he with rfl | he
    · exact .inl ho
    · exact .inr ⟨ih he fun e he => hc e (mem_cons_of_mem _ he), hc e' mem_cons_self⟩

end

/-- A condition on every step of a run, given the history before the step. -/
def Along (C : List (Entry M) → Entry M → Prop) : List (Entry M) → Prop
  | [] => True
  | e :: hist => C hist e ∧ Along C hist

instance Along.decidable {C : List (Entry M) → Entry M → Prop} [∀ hist e, Decidable (C hist e)] :
    ∀ hist, Decidable (Along C hist)
  | [] => .isTrue trivial
  | e :: hist =>
    have := Along.decidable (C := C) hist
    inferInstanceAs (Decidable (C hist e ∧ Along C hist))

theorem Along.at {C e} (h : Along C (l1 ++ e :: l2)) : C l2 e ∧ Along C l2 := by
  induction l1 with
  | nil => exact h
  | cons a l1 ih => exact ih h.2

variable {Init : M.World → Prop}

theorem Reach.induct {C} {I : Sys M → Prop} (hinit : ∀ w, Init w → I (.init w))
    (hspawn : ∀ s req, Reach Init s → Along C (s.spawn req).hist → I s → I (s.spawn req))
    (hact : ∀ s tid req o k ans r w, Reach Init s → Along C (s.acted tid req o k r w).hist → I s →
      s.threads[tid]? = some ⟨req, .act o k⟩ → M.exec req o ans s.world = some (r, w) →
      I (s.acted tid req o k r w)) (hmove : ∀ s m w, Reach Init s → Along C (s.moved m w).hist → I s →
      M.move m s.world = some w → I (s.moved m w)) (h : Reach Init s) (hC : Along C s.hist) : I s := by
  induction h with
  | init hw => exact hinit _ hw
  | step hr hs ih =>
    rcases step_cases hs with ⟨req, rfl⟩ | ⟨tid, req, o, k, ans, r, w, hth, he, rfl⟩ | ⟨m, w, hm, rfl⟩
    · exact hspawn _ _ hr hC (ih hC.2)
    · exact hact _ _ _ _ _ _ _ _ hr hC (ih hC.2) hth he
    · exact hmove _ _ _ hr hC (ih hC.2) hm

theorem along_true (hist : List (Entry M)) : Along (fun _ _ => True) hist := by
  induction hist with
  | nil => trivial
  | cons e hist ih => exact ⟨trivial, ih⟩

theorem Reach.induct' {I : Sys M → Prop} (hinit : ∀ w, Init w → I (.init w))
    (hspawn : ∀ s req, Reach Init s → I s → I (s.spawn req)) (hact : ∀ s tid req o k ans r w, Reach Init s → I s →
      s.threads[tid]? = some ⟨req, .act o k⟩ → M.exec req o ans s.world = some (r, w) →
      I (s.acted tid req o k r w))
    (hmove : ∀ s m w, Reach Init s → I s → M.move m s.world = some w → I (s.moved m w))
    (h : Reach Init s) : I s :=
  Reach.induct (C := fun _ _ => True) hinit (fun s req hr _ => hspawn s req hr)
    (fun s tid req o k ans r w hr _ => hact s tid req o k ans r w hr)
    (fun s m w hr _ => hmove s m w hr) h (along_true _)

theorem Reach.since {P : List (Entry M) → M.World → Prop} {o r}
    (hbase : P [] post) (hstart : ∀ l w tid req, P l w → P (.start tid req :: l) w)
    (hact : ∀ s l t q o' k ans r' w, Reach Init s → s.hist = l ++ .act tid req o r pre post :: l2 →
      P l s.world → s.threads[t]? = some ⟨q, .act o' k⟩ → M.exec q o' ans s.world = some (r', w) →
      P (.act t q o' r' s.world w :: l) w)
    (hmove : ∀ l m w w', P l w → M.move m w = some w' → P (.move m w w' :: l) w') (h : Reach Init s)
    (hs : s.hist = l1 ++ .act tid req o r pre post :: l2) : P l1 s.world := by
  induction h generalizing l1 with
  | init hw => simp [Sys.init] at hs
  | step hr hst ih =>
    rcases step_cases hst with ⟨q, rfl⟩ | ⟨t, q, o', k, ans, r', w, hth, hx, rfl⟩ | ⟨m, w, hm, rfl⟩
    · cases l1 with
      | nil => cases (cons.inj hs).1
      | cons a l1 =>
        obtain ⟨rfl, hl⟩ := cons.inj hs
        exact hstart _ _ _ _ (ih hl)
    · cases l1 with
      | nil =>
        cases (cons.inj hs).1
        exact hbase
      | cons a l1 =>
        obtain ⟨rfl, hl⟩ := cons.inj hs
        exact hact _ _ _ _ _ _ _ _ _ hr hl (ih hl) hth hx
    · cases l1 with
      | nil => cases (cons.inj hs).1
      | cons a l1 =>
        obtain ⟨rfl, hl⟩ := cons.inj hs
        exact hmove _ _ _ _ (ih hl) hm

def Machine.Total (M : Machine S) : Prop :=
  ∀ req o w, ∃ ans r w', M.exec req o ans w = some (r, w')

theorem exists_finish (hM : M.Total) {p} (hth : s.threads[tid]? = some ⟨req, p⟩) :
    ∃ (answers : List M.Ans) (s' : Sys M),
      Conc.run s (answers.map (Label.act tid)) = some s' ∧ s'.threads[tid]? = some ⟨req, .ret ()⟩ := by
  induction p generalizing s with
  | ret _ => exact ⟨[], s, rfl, hth⟩
  | act o k ih =>
    obtain ⟨ans, r, w, hx⟩ := hM req o s.world
    have hlt := (List.getElem?_eq_some_iff.mp hth).1
    have hnext : (s.acted tid req o k r w).threads[tid]? = some ⟨req, k r⟩ := by
      simp [Sys.acted, hlt]
    obtain ⟨answers, s', hrun, hend⟩ := ih r hnext
    exact ⟨ans :: answers, s', by simp [Conc.run, Conc.step, hth, hx, hrun], hend⟩

/-- Every entry of a history was the newest one in some earlier state. -/
theorem Reach.split (h : Reach Init s) {e} (hs : s.hist = l1 ++ e :: l2) :
    ∃ s0 s1 l, Reach Init s0 ∧ s0.hist = l2 ∧ Conc.step s0 l = some s1 ∧ s1.hist = e :: l2 := by
  induction h generalizing l1 with
  | init hw => simp [Sys.init] at hs
  | @step s s' l hr hst ih =>
    obtain ⟨e', he'⟩ : ∃ e', s'.hist = e' :: s.hist := by
      rcases step_cases hst with ⟨req, rfl⟩ | ⟨tid, req, o, k, ans, r, w, _, _, rfl⟩ | ⟨m, w, _, rfl⟩
      · exact ⟨_, rfl⟩
      · exact ⟨_, rfl⟩
      · exact ⟨_, rfl⟩
    rw [he'] at hs
    cases l1 with
    | nil =>
      obtain ⟨rfl, rfl⟩ := cons.inj hs
      exact ⟨s, s', l, hr, rfl, hst, he'⟩
    | cons a l1 => exact ih (cons.inj hs).2

theorem Reach.split_act (h : Reach Init s) {o r} (hs : s.hist = l1 ++ .act tid req o r pre post :: l2) :
    ∃ s0 k ans, Reach Init s0 ∧ s0.hist = l2 ∧ s0.world = pre ∧
      s0.threads[tid]? = some ⟨req, .act o k⟩ ∧ M.exec req o ans pre = some (r, post) := by
  obtain ⟨s0, s1, l, hr, rfl, hst, he⟩ := h.split hs
  rcases step_cases hst with ⟨q, rfl⟩ | ⟨t, q, o', k, ans, r', w, hth, hx, rfl⟩ | ⟨m, w, _, rfl⟩
  · cases (cons.inj he).1
  · cases (cons.inj he).1
    exact ⟨s0, k, ans, hr, rfl, rfl, hth, hx⟩
  · cases (cons.inj he).1

theorem Reach.split_start (h : Reach Init s) (hs : s.hist = l1 ++ .start tid req :: l2) :
    ∃ s0, Reach Init s0 ∧ s0.hist = l2 ∧ s0.threads.length = tid := by
  obtain ⟨s0, s1, l, hr, rfl, hst, he⟩ := h.split hs
  rcases step_cases hst with ⟨q, rfl⟩ | ⟨t, q, o', k, ans, r', w, _, _, rfl⟩ | ⟨m, w, _, rfl⟩
  · cases (cons.inj he).1
    exact ⟨s0, hr, rfl, rfl⟩
  · cases (cons.inj he).1
  · cases (cons.inj he).1

/-- The thread of a step and the request it serves. -/
def Entry.owner : Entry M → Option (Nat × M.Req)
  | .start tid req => some (tid, req)
  | .act tid req _ _ _ _ => some (tid, req)
  | .move _ _ _ => none

section
variable (h : Reach Init s)
include h

/-- Steps in the history belong to threads, and carry the thread's request. -/
theorem Reach.thread_of_owner {e : Entry M} (hm : e ∈ s.hist)
    (he : e.owner = some (tid, req)) : ∃ p, s.threads[tid]? = some ⟨req, p⟩ := by
  revert hm
  refine Reach.induct' (I := fun s => e ∈ s.hist → ∃ p, s.threads[tid]? = some ⟨req, p⟩)
    ?_ ?_ ?_ ?_ h
  · intro w _ hm
    cases hm
  · intro s q _ ih hm
    rcases mem_cons.mp hm with rfl | hm
    · cases he
      exact ⟨M.main req, by simp [Sys.spawn]⟩
    · obtain ⟨p, hp⟩ := ih hm
      have hlt := (List.getElem?_eq_some_iff.mp hp).1
      exact ⟨p, by simpa [Sys.spawn, getElem?_append_left hlt] using hp⟩
  · intro s t q o' k ans r' w _ ih hth hx hm
    have hlt := (List.getElem?_eq_some_iff.mp hth).1
    rcases mem_cons.mp hm with rfl | hm
    · cases he
      exact ⟨k r', by simp [Sys.acted, hlt]⟩
    · obtain ⟨p, hp⟩ := ih hm
      by_cases ht : t = tid
      · subst ht
        rw [hth] at hp
        cases hp
        exact ⟨k r', by simp [Sys.acted, hlt]⟩
      · exact ⟨p, by simpa [Sys.acted, getElem?_set_ne ht] using hp⟩
  · intro s m w _ ih _ hm
    rcases mem_cons.mp hm with rfl | hm
    · cases he
    · exact ih hm

theorem Reach.thread_of_mem {o r} (hm : Entry.act tid req o r pre post ∈ s.hist) :
    ∃ p, s.threads[tid]? = some ⟨req, p⟩ := h.thread_of_owner hm rfl

theorem Reach.started {p : Prog S Unit} (hth : s.threads[tid]? = some ⟨req, p⟩) :
    Entry.start tid req ∈ s.hist := by
  revert p
  refine Reach.induct' (I := fun s => ∀ {p}, s.threads[tid]? = some ⟨req, p⟩ →
    Entry.start tid req ∈ s.hist) ?_ ?_ ?_ ?_ h
  · intro w _ p hth
    simp [Sys.init] at hth
  · intro s q _ ih p hth
    simp only [Sys.spawn] at hth ⊢
    by_cases hlt : tid < s.threads.length
    · rw [getElem?_append_left hlt] at hth
      exact mem_cons_of_mem _ (ih hth)
    · obtain ⟨hle, heq⟩ := List.getElem?_eq_some_iff.mp hth
      obtain rfl : tid = s.threads.length := by
        simp only [length_append, length_singleton] at hle
        omega
      cases (getElem_concat_length rfl _).symm.trans heq
      exact mem_cons_self
  · intro s t q o k ans r w _ ih hth hx p hth'
    refine mem_cons_of_mem _ ?_
    by_cases ht : t = tid
    · subst ht
      simp only [Sys.acted, List.getElem?_set_self (List.getElem?_eq_some_iff.mp hth).1] at hth'
      cases hth'
      exact ih hth
    · exact ih (by simpa [Sys.acted, List.getElem?_set_ne ht] using hth')
  · intro s m w _ ih _ p hth
    exact List.mem_cons_of_mem _ (ih hth)

theorem Reach.past_unstarted (hle : s.threads.length ≤ tid) : past tid s.hist = [] := by
  refine List.eq_nil_iff_forall_not_mem.mpr fun ⟨o, r⟩ hd => ?_
  obtain ⟨_, _, _, hm⟩ := mem_past.mp hd
  obtain ⟨_, hth⟩ := h.thread_of_mem hm
  have hlt := (List.getElem?_eq_some_iff.mp hth).1
  omega

theorem Reach.past_start (hs : s.hist = l1 ++ .start tid req :: l2) : past tid l2 = [] := by
  obtain ⟨s0, hr, rfl, hlen⟩ := h.split_start hs
  exact hr.past_unstarted (Nat.le_of_eq hlen)

theorem Reach.since_start (hs : s.hist = l1 ++ .start tid req :: l2) {o r} (hd : (⟨o, r⟩ : Ev S) ∈ past tid s.hist) :
    ∃ a b q pre post, l1 = a ++ .act tid q o r pre post :: b := by
  rw [hs, past_append, Conc.past_start, h.past_start hs, append_nil] at hd
  obtain ⟨q, pre, post, hm⟩ := mem_past.mp hd
  obtain ⟨a, b, rfl⟩ := append_of_mem hm
  exact ⟨a, b, q, pre, post, rfl⟩

end

/-- If every program meets its contract when run alone, and the replies of the
machine are as the contracts take for granted, then every thread of every run
is at a point of its program where the contract still holds. -/
theorem Reach.contract {C : M.Req → Contract S} {Q : M.Req → List (Ev S) → Unit → Prop}
    (hmain : ∀ req, (M.main req).wp (C req) (Q req) [])
    (hgrant : ∀ s tid req o k ans r w, Reach Init s → s.threads[tid]? = some ⟨req, .act o k⟩ →
      M.exec req o ans s.world = some (r, w) → (C req).grant (past tid s.hist) o r)
    (h : Reach Init s) : ∀ tid (th : Thread M), s.threads[tid]? = some th →
      th.prog.wp (C th.req) (Q th.req) (past tid s.hist) := by
  refine Reach.induct' (I := fun s => ∀ tid (th : Thread M), s.threads[tid]? = some th →
    th.prog.wp (C th.req) (Q th.req) (past tid s.hist)) ?_ ?_ ?_ ?_ h
  · intro w _ tid th hth
    simp [Sys.init] at hth
  · intro s req hr hwp tid th hth
    simp only [Sys.spawn, Conc.past_start] at hth ⊢
    by_cases hlt : tid < s.threads.length
    · rw [getElem?_append_left hlt] at hth
      exact hwp tid th hth
    · rw [getElem?_append_right (by omega)] at hth
      have hmem := mem_of_getElem? hth
      simp only [mem_singleton] at hmem
      subst hmem
      rw [hr.past_unstarted (by omega)]
      exact hmain req
  · intro s t req o k ans r w hr hwp hth hx tid th hth'
    have hlt := (List.getElem?_eq_some_iff.mp hth).1
    simp only [Sys.acted] at hth' ⊢
    by_cases ht : t = tid
    · subst ht
      rw [getElem?_set_self hlt] at hth'
      cases hth'
      rw [past_act_self]
      exact (hwp t _ hth).2 r (hgrant s t req o k ans r w hr hth hx)
    · rw [getElem?_set_ne ht] at hth'
      rw [past_act_ne ht]
      exact hwp tid th hth'
  · intro s m w _ hwp _ tid th hth
    simpa [Sys.moved] using hwp tid th hth

end KubeYamls.Conc
