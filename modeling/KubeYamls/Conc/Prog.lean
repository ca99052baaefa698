import Mathlib.Init

/-! # Programs made of atomic calls

A program is a tree: it returns, or it performs one atomic call and goes on
with the reply. Nothing is said here about what a call does; that is the
machine's part (`KubeYamls.Conc.Machine`). What can be said of a program alone
is which calls it makes after which replies, and `wp` is the logic for that:
an assertion is about the calls the program itself has made so far, newest
first, so no other program can invalidate it. -/
namespace KubeYamls.Conc

/-- The calls a program may make and the type of the reply to each. -/
structure Sig where
  Op : Type
  Res : Op → Type

/-- A call together with the reply it got. -/
abbrev Ev (S : Sig) := (o : S.Op) × S.Res o

inductive Prog (S : Sig) (α : Type) : Type where
  | ret (a : α)
  | act (o : S.Op) (k : S.Res o → Prog S α)

/-- What a program promises of each call it makes, and what it may take for
granted about the reply. Both see the calls made before. -/
structure Contract (S : Sig) where
  duty : List (Ev S) → S.Op → Prop
  grant : List (Ev S) → (o : S.Op) → S.Res o → Prop

def Contract.free (S : Sig) : Contract S := ⟨fun _ _ => True, fun _ _ _ => True⟩

namespace Prog
variable {S : Sig} {α β : Type}

def bind : Prog S α → (α → Prog S β) → Prog S β
  | .ret a, f => f a
  | .act o k, f => .act o fun r => (k r).bind f

instance : Monad (Prog S) where
  pure := .ret
  bind := bind

/-- One call, returning its reply. -/
def op (o : S.Op) : Prog S (S.Res o) := .act o .ret

def done : Prog S α → Bool
  | .ret _ => true
  | .act _ _ => false

/-- `p.wp C Q past`: after the calls `past`, every call of `p` meets its duty
whatever granted replies it gets, and `Q` holds where it returns. -/
def wp (C : Contract S) : Prog S α → (List (Ev S) → α → Prop) → List (Ev S) → Prop
  | .ret a, Q, past => Q past a
  | .act o k, Q, past =>
    C.duty past o ∧ ∀ r, C.grant past o r → (k r).wp C Q (⟨o, r⟩ :: past)

variable {C : Contract S} {past : List (Ev S)}

variable {Q : List (Ev S) → α → Prop}

theorem wp_ret {a} (h : Q past a) : (pure a : Prog S α).wp C Q past := h

theorem wp_bind {Q} (p : Prog S α) (f : α → Prog S β) :
    (p >>= f).wp C Q past ↔ p.wp C (fun past a => (f a).wp C Q past) past := by
  induction p generalizing past with
  | ret a => rfl
  | act o k ih =>
    have hk : ((Prog.act o k) >>= f) = Prog.act o fun r => (k r) >>= f := rfl
    rw [hk]
    simp only [wp, ih]

theorem wp_op {o Q} (hd : C.duty past o)
    (hk : ∀ r, C.grant past o r → Q (⟨o, r⟩ :: past) r) : (op o).wp C Q past :=
  ⟨hd, hk⟩

/-- The step rule: one call, then the rest of the program. -/
theorem wp_step {o f} {Q : List (Ev S) → β → Prop}
    (hd : C.duty past o) (hk : ∀ r, C.grant past o r → (f r).wp C Q (⟨o, r⟩ :: past)) :
    (op o >>= f).wp C Q past :=
  ⟨hd, hk⟩

theorem wp_mono {R} {p : Prog S α} (h : p.wp C Q past) (hQR : ∀ past a, Q past a → R past a) : p.wp C R past := by
  induction p generalizing past with
  | ret a => exact hQR _ _ h
  | act o k ih => exact ⟨h.1, fun r hr => ih r (h.2 r hr)⟩

/-- Sequencing, for a first part whose own specification is known. -/
theorem wp_seq {Q} {R : List (Ev S) → α → Prop} {p} {f : α → Prog S β} (hp : p.wp C R past)
    (hf : ∀ past a, R past a → (f a).wp C Q past) : (p >>= f).wp C Q past :=
  (wp_bind p f).mpr (wp_mono hp hf)

variable {p : Prog S α}

/-- The calls before a program began are still below those it has made. -/
theorem wp_extends (h : p.wp C Q past) : p.wp C (fun past' a => Q past' a ∧ ∃ l, past' = l ++ past) past := by
  induction p generalizing past with
  | ret a => exact ⟨h, [], rfl⟩
  | act o k ih =>
    refine ⟨h.1, fun r hr => wp_mono (ih r (h.2 r hr)) fun past' a ⟨hQ, l, hl⟩ => ?_⟩
    exact ⟨hQ, l ++ [⟨o, r⟩], by simp [hl]⟩

/-- Where nothing is demanded of the calls, there is nothing to prove but the end. -/
theorem wp_free (hd : ∀ past o, C.duty past o) (p : Prog S α) : p.wp C (fun _ _ => True) past := by
  induction p generalizing past with
  | ret a => trivial
  | act o k ih => exact ⟨hd past o, fun r _ => ih r⟩

/-! ## Which calls a program can make -/

/-- Every call that the program can make is one of these. -/
def Only (P : S.Op → Prop) : Prog S α → Prop
  | .ret _ => True
  | .act o k => P o ∧ ∀ r, (k r).Only P

section
variable {P : S.Op → Prop}

theorem only_pure (a : α) : (pure a : Prog S α).Only P := trivial

theorem only_op {o} (ho : P o) : (op o).Only P := ⟨ho, fun _ => trivial⟩

theorem only_step {o} {f : S.Res o → Prog S β} (ho : P o) (hf : ∀ r, (f r).Only P) :
    (op o >>= f).Only P := ⟨ho, hf⟩

theorem only_bind {f : α → Prog S β} (hp : p.Only P) (hf : ∀ a, (f a).Only P) : (p >>= f).Only P := by
  induction p with
  | ret a => exact hf a
  | act o k ih => exact ⟨hp.1, fun r => ih r (hp.2 r)⟩

/-- An assertion that these calls keep is kept by the program. -/
theorem Only.wp_keeps {I : List (Ev S) → Prop} (hp : p.Only P) (hd : ∀ past o, P o → C.duty past o)
    (hI : ∀ past o (r : S.Res o), P o → I past → I (⟨o, r⟩ :: past)) (h : I past) :
    p.wp C (fun past' _ => I past') past := by
  induction p generalizing past with
  | ret a => exact h
  | act o k ih => exact ⟨hd past o hp.1, fun r _ => ih r (hp.2 r) (hI past o r hp.1 h)⟩

end

/-! ## Programs that run alone

Where nothing else runs, the reply to a call is a function of the call. -/

/-- What a program returns if its calls are answered by `reply`. -/
def eval (reply : (o : S.Op) → S.Res o) : Prog S α → α
  | .ret a => a
  | .act o k => (k (reply o)).eval reply

def calls (reply : (o : S.Op) → S.Res o) : Prog S α → List (Ev S)
  | .ret _ => []
  | .act o k => ⟨o, reply o⟩ :: (k (reply o)).calls reply

variable {reply : (o : S.Op) → S.Res o}

@[simp] theorem eval_pure (a : α) : (pure a : Prog S α).eval reply = a := rfl

@[simp] theorem eval_op (o : S.Op) : (op o : Prog S (S.Res o)).eval reply = reply o := rfl

@[simp] theorem eval_bind (p : Prog S α) (f : α → Prog S β) :
    (p >>= f).eval reply = (f (p.eval reply)).eval reply := by
  induction p with
  | ret a => rfl
  | act o k ih => exact ih (reply o)

@[simp] theorem calls_op (o : S.Op) : (op o : Prog S (S.Res o)).calls reply = [⟨o, reply o⟩] := rfl

@[simp] theorem calls_bind (p : Prog S α) (f : α → Prog S β) :
    (p >>= f).calls reply = p.calls reply ++ (f (p.eval reply)).calls reply := by
  induction p with
  | ret a => rfl
  | act o k ih =>
    show ⟨o, reply o⟩ :: ((k (reply o)) >>= f).calls reply = _
    rw [ih (reply o)]
    rfl

/-- With a state that the calls read and change. -/
def alone {σ : Type} (step : (o : S.Op) → σ → S.Res o × σ) : Prog S α → σ → α × σ
  | .ret a, w => (a, w)
  | .act o k, w => (k (step o w).1).alone step (step o w).2

section
variable {σ : Type} {step : (o : S.Op) → σ → S.Res o × σ}

@[simp] theorem alone_pure (a : α) (w : σ) : (pure a : Prog S α).alone step w = (a, w) := rfl

@[simp] theorem alone_bind (p : Prog S α) (f : α → Prog S β) (w : σ) :
    (p >>= f).alone step w = (f (p.alone step w).1).alone step (p.alone step w).2 := by
  induction p generalizing w with
  | ret a => rfl
  | act o k ih => exact ih (step o w).1 (step o w).2

theorem alone_map (p : Prog S α) (f : α → β) (w : σ) :
    (p >>= fun a => pure (f a)).alone step w = Prod.map f id (p.alone step w) := by
  rw [alone_bind, alone_pure]
  rfl

end

/-- With calls that also take an answer from outside: alone in `w`, the program can
make the calls `es`, in this order, return `a` and leave `w'`. -/
inductive Runs {A W : Type} (exec : (o : S.Op) → A → W → Option (S.Res o × W)) :
    Prog S α → W → List (Ev S) → α → W → Prop where
  | ret (a : α) (w : W) : Runs exec (.ret a) w [] a w
  | act {o : S.Op} {k : S.Res o → Prog S α} {ans : A} {r : S.Res o} {w w1 w' : W} {es : List (Ev S)}
    {a : α} (hx : exec o ans w = some (r, w1)) (h : Runs exec (k r) w1 es a w') :
    Runs exec (.act o k) w (⟨o, r⟩ :: es) a w'

namespace Runs
variable {A W : Type} {exec : (o : S.Op) → A → W → Option (S.Res o × W)} {w w' : W} {es : List (Ev S)}

theorem pure_inv {a b} (h : Runs exec (pure a : Prog S α) w es b w') : es = [] ∧ b = a ∧ w' = w := by
  cases h
  exact ⟨rfl, rfl, rfl⟩

theorem step_inv {o f} {b : β} (h : Runs exec (op o >>= f) w es b w') :
    ∃ ans r w1 es', exec o ans w = some (r, w1) ∧ Runs exec (f r) w1 es' b w' ∧ es = ⟨o, r⟩ :: es' := by
  cases h with
  | act hx h => exact ⟨_, _, _, _, hx, h, rfl⟩

theorem op_inv {o r} (h : Runs exec (op o) w es r w') : ∃ ans, exec o ans w = some (r, w') ∧ es = [⟨o, r⟩] := by
  cases h with
  | act hx h =>
    cases h
    exact ⟨_, hx, rfl⟩

theorem bind_inv {f} {b : β} (h : Runs exec (p >>= f) w es b w') :
    ∃ a w1 es1 es2, Runs exec p w es1 a w1 ∧ Runs exec (f a) w1 es2 b w' ∧ es = es1 ++ es2 := by
  induction p generalizing w es with
  | ret a => exact ⟨a, w, [], es, .ret a w, h, rfl⟩
  | act o k ih =>
    cases h with
    | act hx h =>
      obtain ⟨a, w1, es1, es2, h1, h2, rfl⟩ := ih _ h
      exact ⟨a, w1, _ :: es1, es2, .act hx h1, h2, rfl⟩

theorem post {a} (h : Runs exec p w es a w')
    (hg : ∀ past o ans w r w', exec o ans w = some (r, w') → C.grant past o r) (hwp : p.wp C Q past) :
    Q (es.reverse ++ past) a := by
  induction h generalizing past with
  | ret a w => exact hwp
  | act hx _ ih => simpa using ih (hwp.2 _ (hg _ _ _ _ _ _ hx))

theorem post_free {a} (h : Runs exec p w es a w') (hwp : p.wp (.free S) Q []) : Q es.reverse a := by
  simpa using h.post (C := .free S) (fun _ _ _ _ _ _ _ => trivial) hwp

theorem keeps {P a} {R : W → W → Prop} (hp : p.Only P) (hrefl : ∀ w, R w w)
    (htrans : ∀ {w1 w2 w3}, R w1 w2 → R w2 w3 → R w1 w3)
    (hstep : ∀ o ans r w w', P o → exec o ans w = some (r, w') → R w w') (h : Runs exec p w es a w') :
    R w w' ∧ ∀ e ∈ es, P e.1 := by
  induction h with
  | ret a w => exact ⟨hrefl w, by simp⟩
  | act hx _ ih =>
    obtain ⟨hR, hes⟩ := ih (hp.2 _)
    exact ⟨htrans (hstep _ _ _ _ _ hp.1 hx) hR, List.forall_mem_cons.mpr ⟨hp.1, hes⟩⟩

end Runs

/-- The run with these answers, if there is one for each call. -/
def drive {A W : Type} (exec : (o : S.Op) → A → W → Option (S.Res o × W)) :
    Prog S α → List A → W → Option (List (Ev S) × α × W)
  | .ret a, [], w => some ([], a, w)
  | .ret _, _ :: _, _ => none
  | .act _ _, [], _ => none
  | .act o k, ans :: answers, w => do
    let (r, w1) ← exec o ans w
    let (es, a, w') ← (k r).drive exec answers w1
    return (⟨o, r⟩ :: es, a, w')

theorem runs_of_drive {A W : Type} {exec} {answers : List A} {w w' : W} {es a}
    (h : p.drive exec answers w = some (es, a, w')) : Runs exec p w es a w' := by
  induction p generalizing answers w es with
  | ret b =>
    cases answers with
    | nil =>
      cases h
      exact .ret _ _
    | cons => cases h
  | act o k ih =>
    cases answers with
    | nil => cases h
    | cons ans answers =>
      simp only [drive, Option.bind_eq_bind, Option.bind_eq_some_iff] at h
      obtain ⟨⟨r, w1⟩, hx, ⟨es', b, w''⟩, hrest, heq⟩ := h
      cases heq
      exact .act hx (ih _ hrest)

/-- The replies can also be fixed for each call beforehand. -/
def replying (reply : (o : S.Op) → S.Res o) (o : S.Op) (_ : Unit) (_ : Unit) : Option (S.Res o × Unit) :=
  some (reply o, ())

theorem runs_eval (reply : (o : S.Op) → S.Res o) (p : Prog S α) :
    Runs (replying reply) p () (p.calls reply) (p.eval reply) () := by
  induction p with
  | ret a => exact .ret a ()
  | act o k ih =>
    have hx : replying reply o () () = some (reply o, ()) := rfl
    exact .act hx (ih (reply o))

/-! ## Programs over programs -/

variable {T : Sig}

/-- Carry out each call of a program by a program of another signature. -/
def subst (impl : (o : S.Op) → Prog T (S.Res o)) : Prog S α → Prog T α
  | .ret a => .ret a
  | .act o k => impl o >>= fun r => (k r).subst impl

theorem seq_assoc {γ : Type} (p : Prog S α) (f : α → Prog S β) (g : β → Prog S γ) :
    (p >>= f) >>= g = p >>= fun a => f a >>= g := by
  induction p with
  | ret a => rfl
  | act o k ih => exact congrArg (Prog.act o) (funext ih)

theorem subst_bind (impl : (o : S.Op) → Prog T (S.Res o)) (p : Prog S α) (f : α → Prog S β) :
    (p >>= f).subst impl = p.subst impl >>= fun a => (f a).subst impl := by
  induction p with
  | ret a => rfl
  | act o k ih =>
    show (impl o >>= fun r => ((k r) >>= f).subst impl) = ((impl o >>= fun r => (k r).subst impl) >>= _)
    rw [seq_assoc]
    exact congrArg (impl o >>= ·) (funext ih)

/-- What all implementations keep to, whatever was called before, the whole does. -/
theorem wp_subst {C impl}
    (h : ∀ o past, (impl o).wp C (fun _ _ => True) past) (p : Prog S α) (past : List (Ev T)) :
    (p.subst impl).wp C (fun _ _ => True) past := by
  induction p generalizing past with
  | ret a => trivial
  | act o k ih => exact wp_seq (h o past) fun past r _ => ih r past

end Prog

end KubeYamls.Conc
