import KubeYamls.Conc.Machine

/-! # Names that are drawn once

Threads draw names from a supply that never repeats, and a thread puts a name it
drew into the world at most once. Then no interleaving brings a name back: one
that has left the world is never in it again. -/
namespace KubeYamls.Conc
open List
variable {S : Sig} {M : Machine S} {N : Type}

/-- A source of names that gives out each at most once. -/
structure Supply (M : Machine S) (N : Type) where
  /-- what is no longer given out -/
  taken : M.World → N → Prop
  draw : Ev S → N → Prop
  fresh : ∀ {req o ans w r w' n}, M.exec req o ans w = some (r, w') → draw ⟨o, r⟩ n → ¬ taken w n ∧ taken w' n
  keep : ∀ {req o ans w r w' n}, M.exec req o ans w = some (r, w') → taken w n → taken w' n
  keep_move : ∀ {m w w' n}, M.move m w = some w' → taken w n → taken w' n

/-- Names of type `N'` that are told apart by a name of the supply. -/
def Supply.comap {N' : Type} (A : Supply M N) (f : N' → N) : Supply M N' where
  taken w n := A.taken w (f n)
  draw e n := A.draw e (f n)
  fresh := A.fresh
  keep := A.keep
  keep_move := A.keep_move

def Supply.drawn (A : Supply M N) (hist : List (Entry M)) (tid : Nat) (n : N) : Prop :=
  ∃ e ∈ past tid hist, A.draw e n

/-- Names that calls bring into the world. -/
structure Names (M : Machine S) (N : Type) extends Supply M N where
  present : M.World → N → Prop
  make : Ev S → N → Prop

def Names.made (A : Names M N) (hist : List (Entry M)) (tid : Nat) (n : N) : Prop :=
  ∃ e ∈ past tid hist, A.make e n

/-- A name comes into the world only by being made; a thread makes only what it
drew itself, and makes it once. -/
structure Names.Lawful (A : Names M N) (Init : M.World → Prop) : Prop where
  init : ∀ {w n}, Init w → A.present w n → A.taken w n
  enter : ∀ {s : Sys M} {tid : Nat} {req o k ans r w n}, Reach Init s →
    s.threads[tid]? = some ⟨req, .act o k⟩ → M.exec req o ans s.world = some (r, w) →
    A.present w n → A.present s.world n ∨ A.make ⟨o, r⟩ n
  enter_move : ∀ {m w w' n}, M.move m w = some w' → A.present w' n → A.present w n
  make : ∀ {s tid req o k ans r w n}, Reach Init s → s.threads[tid]? = some ⟨req, .act o k⟩ →
    M.exec req o ans s.world = some (r, w) → A.make ⟨o, r⟩ n →
    A.drawn s.hist tid n ∧ ¬ A.made s.hist tid n

variable {Init : M.World → Prop} {s : Sys M} {n : N} {tid t : Nat} {req : M.Req} {o : S.Op}
  {r : S.Res o} {k : S.Res o → Prog S Unit} {ans : M.Ans} {w : M.World}

theorem exists_past_acted {P : Ev S → Prop} : (∃ e ∈ past tid (s.acted t req o k r w).hist, P e) ↔
      (t = tid ∧ P ⟨o, r⟩) ∨ ∃ e ∈ past tid s.hist, P e := by
  by_cases ht : t = tid
  · subst ht
    simp [Sys.acted]
  · simp [Sys.acted, past_act_ne ht, ht]

namespace Supply
variable {A : Supply M N}

theorem taken_of_drawn (h : Reach Init s) (hd : A.drawn s.hist tid n) : A.taken s.world n := by
  revert hd
  refine Reach.induct' (I := fun s => A.drawn s.hist tid n → A.taken s.world n) ?_ ?_ ?_ ?_ h
  · rintro w _ ⟨e, he, _⟩
    cases he
  · intro s req _ ih hd
    exact ih hd
  · intro s t req o k ans r w _ ih _ hx hd
    rcases exists_past_acted.mp hd with ⟨_, hd⟩ | hd
    · exact (A.fresh hx hd).2
    · exact A.keep hx (ih hd)
  · intro s m w _ ih hm hd
    exact A.keep_move hm (ih hd)

theorem drawn_unique (h : Reach Init s) {t1 t2 : Nat} (h1 : A.drawn s.hist t1 n)
    (h2 : A.drawn s.hist t2 n) : t1 = t2 := by
  revert h1 h2
  refine Reach.induct' (I := fun s => A.drawn s.hist t1 n → A.drawn s.hist t2 n → t1 = t2)
    ?_ ?_ ?_ ?_ h
  · rintro w _ ⟨e, he, _⟩
    cases he
  · intro s req _ ih h1 h2
    exact ih h1 h2
  · intro s t req o k ans r w hr ih _ hx h1 h2
    rcases exists_past_acted.mp h1 with ⟨rfl, hd1⟩ | hd1 <;>
      rcases exists_past_acted.mp h2 with ⟨ht, hd2⟩ | hd2
    · exact ht
    · exact absurd (taken_of_drawn hr hd2) (A.fresh hx hd1).1
    · exact absurd (taken_of_drawn hr hd1) (A.fresh hx hd2).1
    · exact ih hd1 hd2
  · intro s m w _ ih _ h1 h2
    exact ih h1 h2

end Supply

namespace Names
variable {A : Names M N}

/-- Nobody can make `n` any more: the supply is through with it, and whoever
drew it has made it. -/
def Known (A : Names M N) (s : Sys M) (n : N) : Prop :=
  A.taken s.world n ∧ ∀ tid, A.drawn s.hist tid n → A.made s.hist tid n

theorem known_acted (hx : M.exec req o ans s.world = some (r, w)) (hk : A.Known s n) :
    A.Known (s.acted t req o k r w) n := by
  refine ⟨A.keep hx hk.1, fun tid hd => exists_past_acted.mpr ?_⟩
  rcases exists_past_acted.mp hd with ⟨_, hd⟩ | hd
  · exact absurd hk.1 (A.fresh hx hd).1
  · exact .inr (hk.2 tid hd)

theorem known_moved {m} (hm : M.move m s.world = some w) (hk : A.Known s n) : A.Known (s.moved m w) n :=
  ⟨A.keep_move hm hk.1, hk.2⟩

variable (L : A.Lawful Init)
include L

section
variable (h : Reach Init s)
include h

theorem not_known_of_make (hth : s.threads[tid]? = some ⟨req, .act o k⟩)
    (hx : M.exec req o ans s.world = some (r, w)) (hm : A.make ⟨o, r⟩ n) : ¬ A.Known s n := fun hk =>
  have ⟨hd, hn⟩ := L.make h hth hx hm
  hn (hk.2 tid hd)

theorem known_of_present (hp : A.present s.world n) : A.Known s n := by
  revert hp
  refine Reach.induct' (I := fun s => A.present s.world n → A.Known s n) ?_ ?_ ?_ ?_ h
  · intro w hw hp
    refine ⟨L.init hw hp, ?_⟩
    rintro tid ⟨e, he, _⟩
    cases he
  · intro s req _ ih hp
    exact ih hp
  · intro s t req o k ans r w hr ih hth hx hp
    rcases L.enter hr hth hx hp with hp | hm
    · exact known_acted hx (ih hp)
    · -- the thread that makes the name is the only one that drew it
      obtain ⟨hd, _⟩ := L.make hr hth hx hm
      refine ⟨A.keep hx (Supply.taken_of_drawn hr hd), fun tid hd' => exists_past_acted.mpr ?_⟩
      rcases exists_past_acted.mp hd' with ⟨ht, _⟩ | hd'
      · exact .inl ⟨ht, hm⟩
      · exact .inl ⟨Supply.drawn_unique hr hd hd', hm⟩
  · intro s m w _ ih hm hp
    exact known_moved hm (ih (L.enter_move hm hp))

theorem not_present_of_make (hth : s.threads[tid]? = some ⟨req, .act o k⟩)
    (hx : M.exec req o ans s.world = some (r, w)) (hm : A.make ⟨o, r⟩ n) : ¬ A.present s.world n :=
  fun hp => not_known_of_make L h hth hx hm (known_of_present L h hp)

theorem known_of_saw {w0} (hw : Saw s.hist w0) (hp : A.present w0 n) : A.Known s n := by
  revert hw
  refine Reach.induct' (I := fun s => Saw s.hist w0 → A.Known s n) ?_ ?_ ?_ ?_ h
  · rintro w _ (h | h) <;> cases h
  · intro s q _ ih hw
    exact ih hw.of_start
  · intro s t q o k ans r w hr ih hth hx hw
    rcases hw.of_cons with rfl | rfl | hw
    · exact known_acted hx (known_of_present L hr hp)
    · exact known_of_present L (hr.acted hth hx) hp
    · exact known_acted hx (ih hw)
  · intro s m w _ ih hm hw
    exact known_moved hm (ih hw.of_move)

/-- A name that was in the world, and is missing after some step, never comes back. -/
theorem gone {l1 l2 pre post w0} (hs : s.hist = l1 ++ .act tid req o r pre post :: l2)
    (hw : Saw (.act tid req o r pre post :: l2) w0) (hp0 : A.present w0 n)
    (hpost : ¬ A.present post n) : ¬ A.present s.world n := by
  refine Reach.since (P := fun _ w => ¬ A.present w n) hpost ?_ ?_ ?_ h hs
  · intro _ _ _ _ hn
    exact hn
  · intro s l t1 q o1 k ans r1 w hr hs hn hth hx hp
    rcases L.enter hr hth hx hp with hp | hm
    · exact hn hp
    · have hsaw : Saw s.hist w0 := hw.mono fun e he => hs ▸ mem_append_right _ he
      exact not_known_of_make L hr hth hx hm (known_of_saw L hr hsaw hp0)
  · intro l m w w' hn hm hp
    exact hn (L.enter_move hm hp)

theorem leave_once {t1 t2 q1 q2 o1 o2 r1 r2 pre1 post1 pre2 post2}
    (he1 : Entry.act t1 q1 o1 r1 pre1 post1 ∈ s.hist) (he2 : Entry.act t2 q2 o2 r2 pre2 post2 ∈ s.hist)
    (hp1 : A.present pre1 n) (hn1 : ¬ A.present post1 n) (hp2 : A.present pre2 n) (hn2 : ¬ A.present post2 n) :
    Entry.act t1 q1 o1 r1 pre1 post1 = Entry.act t2 q2 o2 r2 pre2 post2 := by
  -- the later step would find the name missing
  have key : ∀ {t q o r pre post} {l1 l2 : List (Entry M)} {t' q' o' r' pre' post'},
      s.hist = l1 ++ .act t q o r pre post :: l2 → Entry.act t' q' o' r' pre' post' ∈ l2 →
      A.present pre n → A.present pre' n → A.present post' n := by
    intro t q o r pre post l1 l2 t' q' o' r' pre' post' hs hm hp hp'
    obtain ⟨s0, _, _, hr0, rfl, rfl, _⟩ := h.split_act hs
    obtain ⟨l3, l4, hs0⟩ := append_of_mem hm
    by_contra hn
    exact gone L hr0 hs0 (.pre mem_cons_self) hp' hn hp
  rcases mem_order he1 he2 with heq | ⟨l1, l2, hs, hm⟩ | ⟨l1, l2, hs, hm⟩
  · exact heq
  · exact absurd (key hs hm hp2 hp1) hn1
  · exact absurd (key hs hm hp1 hp2) hn2

/-- So a call that takes a name out of the world succeeds in one thread only. -/
theorem leave_thread {t1 t2} (h1 : (⟨o, r⟩ : Ev S) ∈ past t1 s.hist)
    (h2 : (⟨o, r⟩ : Ev S) ∈ past t2 s.hist) (hleave : ∀ {t q pre post},
      Entry.act t q o r pre post ∈ s.hist → A.present pre n ∧ ¬ A.present post n) : t1 = t2 := by
  obtain ⟨_, _, _, he1⟩ := mem_past.mp h1
  obtain ⟨_, _, _, he2⟩ := mem_past.mp h2
  obtain ⟨hp1, hn1⟩ := hleave he1
  obtain ⟨hp2, hn2⟩ := hleave he2
  cases leave_once L h he1 he2 hp1 hn1 hp2 hn2
  rfl

end

end Names

/-! ## Labels -/

/-- Labels that names carry while they are in the world: a call that brings a
name in gives it one label, and no other call gives it one. -/
structure Labels (A : Names M N) (Init : M.World → Prop) (L : Type) where
  label : M.World → N → L → Prop
  present : ∀ {w n l}, label w n l → A.present w n
  init : ∀ {w n l l'}, Init w → label w n l → label w n l' → l = l'
  enter : ∀ {s : Sys M} {tid : Nat} {req o k ans r w n l}, Reach Init s →
    s.threads[tid]? = some ⟨req, .act o k⟩ → M.exec req o ans s.world = some (r, w) →
    label w n l → label s.world n l ∨ A.make ⟨o, r⟩ n
  make : ∀ {s : Sys M} {tid : Nat} {req o k ans r w n l l'}, Reach Init s →
    s.threads[tid]? = some ⟨req, .act o k⟩ → M.exec req o ans s.world = some (r, w) →
    A.make ⟨o, r⟩ n → label w n l → label w n l' → l = l'
  enter_move : ∀ {m w w' n l}, M.move m w = some w' → label w' n l → label w n l

namespace Labels
variable {A : Names M N} {Lab : Type} (B : Labels A Init Lab) {l l' : Lab}
include B

theorem unique (h : Reach Init s) (hl : B.label s.world n l) (hl' : B.label s.world n l') : l = l' := by
  revert hl hl'
  refine Reach.induct' (I := fun s => B.label s.world n l → B.label s.world n l' → l = l') ?_ ?_ ?_ ?_ h
  · intro w hw
    exact B.init hw
  · intro s q _ ih
    exact ih
  · intro s t q o k ans r w hr ih hth hx hl hl'
    rcases B.enter hr hth hx hl with h1 | hm
    · rcases B.enter hr hth hx hl' with h2 | hm
      · exact ih h1 h2
      · exact B.make hr hth hx hm hl hl'
    · exact B.make hr hth hx hm hl hl'
  · intro s m w _ ih hm hl hl'
    exact ih (B.enter_move hm hl) (B.enter_move hm hl')

theorem same (L : A.Lawful Init) (h : Reach Init s) {w0} (hw : Saw s.hist w0)
    (hl0 : B.label w0 n l) (hl : B.label s.world n l') : l = l' := by
  revert hw hl
  refine Reach.induct' (I := fun s => Saw s.hist w0 → B.label s.world n l' → l = l') ?_ ?_ ?_ ?_ h
  · rintro w _ (h | h) <;> cases h
  · intro s q _ ih hw
    exact ih hw.of_start
  · intro s t q o k ans r w hr ih hth hx hw hl
    rcases hw.of_cons with rfl | rfl | hw
    · rcases B.enter hr hth hx hl with hl | hm
      · exact B.unique hr hl0 hl
      · exact absurd (B.present hl0) (Names.not_present_of_make L hr hth hx hm)
    · exact B.unique (hr.acted hth hx) hl0 hl
    · rcases B.enter hr hth hx hl with hl | hm
      · exact ih hw hl
      · exact absurd (Names.known_of_saw L hr hw (B.present hl0)) (Names.not_known_of_make L hr hth hx hm)
  · intro s m w _ ih hm hw hl
    exact ih hw.of_move (B.enter_move hm hl)

theorem same_saw (L : A.Lawful Init) (h : Reach Init s) {w1 w2} (hw1 : Saw s.hist w1)
    (hw2 : Saw s.hist w2) (hl1 : B.label w1 n l) (hl2 : B.label w2 n l') : l = l' := by
  revert hw1 hw2
  refine Reach.induct' (I := fun s => Saw s.hist w1 → Saw s.hist w2 → l = l') ?_ ?_ ?_ ?_ h
  · rintro w _ (h | h) <;> cases h
  · intro s q _ ih hw1 hw2
    exact ih hw1.of_start hw2.of_start
  · intro s t q o k ans r w hr ih hth hx hw1 hw2
    have hr' := hr.acted hth hx
    -- a world of the last step is compared with the present one
    rcases hw1.of_cons with rfl | rfl | h1
    · rcases hw2.of_cons with rfl | rfl | h2
      · exact B.unique hr hl1 hl2
      · exact B.same L hr' hw1 hl1 hl2
      · exact (B.same L hr h2 hl2 hl1).symm
    · exact (B.same L hr' hw2 hl2 hl1).symm
    · rcases hw2.of_cons with rfl | rfl | h2
      · exact B.same L hr h1 hl1 hl2
      · exact B.same L hr' hw1 hl1 hl2
      · exact ih h1 h2
  · intro s m w _ ih hm hw1 hw2
    exact ih hw1.of_move hw2.of_move

end Labels

end KubeYamls.Conc
