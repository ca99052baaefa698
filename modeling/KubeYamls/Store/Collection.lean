import KubeYamls.Conc.Amid
import KubeYamls.Store.Etcd
import KubeYamls.Store.Kubernetes

/-! # Garbage collection among other instances

`GarbageCollect` of the etcd and of the Kubernetes storage: list, delete what has
expired, and the same for the codes. Both are one program over list and delete
requests. Other instances change the store between the requests in any way. -/
namespace KubeYamls.Store
open Data Conc List
open Dex (Time Error GCResult)

namespace Collection

/-! ## The program -/

inductive Op where
  /-- the names of what has expired -/
  | list (k : Kind)
  | delete (k : Kind) (name : String)
  deriving DecidableEq

@[reducible] def Res : Op → Type
  | .list _ => Except Error (List String)
  | .delete _ _ => Except Error Unit

abbrev sig : Sig := ⟨Op, Res⟩

abbrev list (k : Kind) : Prog sig (Except Error (List String)) := Prog.op (S := sig) (.list k)

abbrev delete (k : Kind) (name : String) : Prog sig (Except Error Unit) := Prog.op (S := sig) (.delete k name)

def sweep (k : Kind) (what : String) : List String → Option Error → Prog sig (Option Error)
  | [], delErr => return delErr
  | name :: names, delErr => do
    match ← delete k name with
    | .error e => sweep k what names (some (.other ("failed to delete " ++ what ++ ": " ++ e.text)))
    | .ok () => sweep k what names delErr

def collect : Prog sig (GCResult × Option Error) := do
  match ← list .authRequest with
  | .error e => return (⟨0, 0⟩, some e)
  | .ok requests =>
    match ← sweep .authRequest "auth request" requests none with
    | some delErr => return (⟨requests.length, 0⟩, some delErr)
    | none =>
      match ← list .authCode with
      | .error e => return (⟨requests.length, 0⟩, some e)
      | .ok codes =>
        let delErr ← sweep .authCode "auth code" codes none
        return (⟨requests.length, codes.length⟩, delErr)

/-! ## What a storage does with the requests -/

structure Backend (W : Type) where
  stored : W → Kind → String → Bool
  /-- The objects that have expired: the key of each, and the name it is deleted by. -/
  listing : W → Kind → List (String × String)

namespace Backend
variable {W : Type} (B : Backend W)

def Shrinks (w w' : W) : Prop := ∀ k name, B.stored w' k name = true → B.stored w k name = true

variable {B} in
theorem Shrinks.gone {w w' k name} (hs : B.Shrinks w w') (h : B.stored w k name = false) :
    B.stored w' k name = false := by
  apply Bool.eq_false_iff.mpr
  intro hstored
  rw [hs k name hstored] at h
  cases h

/-- A deletion that fails may have taken effect. -/
inductive Step : (o : Op) → Res o → W → W → Prop where
  | listed (k : Kind) (w : W) : Step (.list k) (.ok ((B.listing w k).map Prod.snd)) w w
  | unlisted (k : Kind) (e : Error) (w : W) : Step (.list k) (.error e) w w
  | deleted {k : Kind} {name : String} {w w' : W} (hpre : B.stored w k name = true)
    (hpost : B.stored w' k name = false) (hs : B.Shrinks w w') : Step (.delete k name) (.ok ()) w w'
  | missing {k : Kind} {name : String} {w : W} (hpre : B.stored w k name = false) :
    Step (.delete k name) (.error .notFound) w w
  | failed {k : Kind} {name : String} {w w' : W} {e : Error} (he : e ≠ .notFound) (hs : B.Shrinks w w') :
    Step (.delete k name) (.error e) w w'

end Backend

def isOk : (o : Op) → Res o → Bool
  | .list _, r => r.toBool
  | .delete _ _, r => r.toBool

def isBroken : (o : Op) → Res o → Bool
  | .list _, .error _ => true
  | .delete _ _, .error e => e ≠ .notFound
  | _, _ => false

section
variable {W : Type}

def isDelete (k : Kind) (c : Made sig W) : Bool :=
  match c.op with
  | .delete k' _ => k' = k
  | .list _ => false

def Backend.removes (B : Backend W) (c : Made sig W) : Bool :=
  match c.op with
  | .delete k name => B.stored c.pre k name && !B.stored c.post k name
  | .list _ => false

/-- What a collection is to achieve. -/
structure Completes (B : Backend W) (tr : List (Made sig W)) (result : GCResult) (w' : W) : Prop where
  authRequests : result.authRequests = tr.countP fun c => isDelete .authRequest c && B.removes c
  authCodes : result.authCodes = tr.countP fun c => isDelete .authCode c && B.removes c
  /-- objects that are missing do not stop it -/
  goesOn : (∀ c ∈ tr, isBroken c.op c.res = false) → ∃ c ∈ tr, c.op = .list .authCode
  /-- nothing that was listed is left, unless its deletion has failed -/
  nothingLeft : ∀ c ∈ tr, ∀ k names, c.ev = ⟨.list k, .ok names⟩ → ∀ obj ∈ B.listing c.pre k,
    B.stored w' k obj.1 = true → ∃ c' ∈ tr, c'.op = .delete k obj.2 ∧ isBroken c'.op c'.res = true

/-- Every deletion finds its object and takes effect. -/
def EachRemoves (B : Backend W) (tr : List (Made sig W)) : Prop :=
  ∀ c ∈ tr, ∀ k name, c.op = .delete k name → B.removes c = true

def eachRemoves (B : Backend W) (tr : List (Made sig W)) : Bool :=
  tr.all fun c => match c.op with
    | .delete _ _ => B.removes c
    | .list _ => true

theorem eachRemoves_iff {B} {tr : List (Made sig W)} : eachRemoves B tr = true ↔ EachRemoves B tr := by
  rw [eachRemoves, all_eq_true]
  refine forall₂_congr fun c _ => ?_
  cases hop : c.op with
  | list | delete => simp

/-! ## The calls of a collection -/

section
variable {B : Backend W} {others : W → W → Prop} {w w' : W} {tr : List (Made sig W)}

theorem sweep_calls {k what names e e'} (h : (sweep k what names e).Amid B.Step others w tr e' w') :
    tr.map Made.op = names.map (.delete k) ∧ (e' = none ↔ e = none ∧ ∀ c ∈ tr, isOk c.op c.res = true) := by
  induction names generalizing e w tr with
  | nil =>
    obtain ⟨rfl, rfl, -⟩ := h.pure_inv
    simp
  | cons name names ih =>
    obtain ⟨r, pre, post, tr', -, -, hrest, rfl⟩ := h.step_inv
    cases r with
    | error err =>
      obtain ⟨hops, hnone⟩ := ih hrest
      refine ⟨by simp [hops], ?_⟩
      simp [hnone, isOk, Except.toBool]
    | ok u =>
      obtain ⟨hops, hnone⟩ := ih hrest
      refine ⟨by simp [hops], ?_⟩
      simp [hnone, isOk, Except.toBool]

/-- The calls of a collection and the numbers it reports. -/
structure Calls (tr : List (Made sig W)) (result : GCResult) : Prop where
  authRequests : result.authRequests = tr.countP (isDelete .authRequest)
  authCodes : result.authCodes = tr.countP (isDelete .authCode)
  kinds : ∀ c ∈ tr, ∀ k name, c.op = .delete k name → isDelete .authRequest c = true ∨ isDelete .authCode c = true
  goesOn : (∀ c ∈ tr, isOk c.op c.res = true) → ∃ c ∈ tr, c.op = .list .authCode
  deletes : ∀ c ∈ tr, ∀ k names, c.ev = ⟨.list k, .ok names⟩ → ∀ name ∈ names, ∃ c' ∈ tr, c'.op = .delete k name

variable {names : List String} {env : W → W → Prop}

theorem countP_isDelete {k k'} (h : tr.map Made.op = names.map (.delete k)) :
    tr.countP (isDelete k') = if k = k' then names.length else 0 := by
  have hop : ∀ c ∈ tr, ∃ name, c.op = .delete k name := by
    intro c hc
    obtain ⟨name, -, hname⟩ := mem_map.mp (h ▸ mem_map_of_mem hc)
    exact ⟨name, hname.symm⟩
  have hlen : tr.length = names.length := by simpa using congrArg List.length h
  split_ifs with hk
  · rw [← hlen, countP_eq_length]
    intro c hc
    obtain ⟨name, hname⟩ := hop c hc
    simp [isDelete, hname, hk]
  · rw [countP_eq_zero]
    intro c hc
    obtain ⟨name, hname⟩ := hop c hc
    simp [isDelete, hname, hk]

theorem exists_of_ops {k} (h : tr.map Made.op = names.map (.delete k)) {name}
    (hname : name ∈ names) : ∃ c ∈ tr, c.op = .delete k name := by
  obtain ⟨c, hc, hop⟩ := mem_map.mp (h ▸ mem_map_of_mem hname : (Op.delete k name) ∈ tr.map Made.op)
  exact ⟨c, hc, hop⟩

/-- A list request and the deletions after it. -/
structure Phase (k : Kind) (tr : List (Made sig W)) (n : Nat) : Prop where
  count : ∀ k', tr.countP (isDelete k') = if k = k' then n else 0
  kinds : ∀ c ∈ tr, ∀ k' name, c.op = .delete k' name → k' = k
  deletes : ∀ c ∈ tr, ∀ k' names, c.ev = ⟨.list k', .ok names⟩ → ∀ name ∈ names, ∃ c' ∈ tr, c'.op = .delete k' name

theorem phase_nil (k : Kind) : Phase k ([] : List (Made sig W)) 0 := ⟨by simp, by simp, by simp⟩

theorem phase_error (k : Kind) (e : Error) (pre post : W) : Phase k [⟨.list k, .error e, pre, post⟩] 0 := by
  refine ⟨by simp [isDelete], by simp, ?_⟩
  intro c hc k' names hev
  obtain rfl := mem_singleton.mp hc
  cases hev

theorem phase_ok {k} (pre post : W) (h : tr.map Made.op = names.map (.delete k)) :
    Phase k (⟨.list k, .ok names, pre, post⟩ :: tr) names.length := by
  refine ⟨?_, ?_, ?_⟩
  · intro k'
    rw [countP_cons_of_neg (by simp [isDelete]), countP_isDelete h]
  · intro c hc k' name hop
    rcases mem_cons.mp hc with rfl | hc
    · cases hop
    · obtain ⟨name', -, heq⟩ := mem_map.mp (h ▸ mem_map_of_mem hc)
      exact (Op.delete.inj (heq.trans hop)).1.symm
  · intro c hc k' names' hev name hname
    rcases mem_cons.mp hc with rfl | hc
    · cases hev
      obtain ⟨c', hc', hop⟩ := exists_of_ops h hname
      exact ⟨c', mem_cons_of_mem _ hc', hop⟩
    · obtain ⟨name', -, heq⟩ := mem_map.mp (h ▸ mem_map_of_mem hc)
      exact absurd (heq.trans (congrArg Sigma.fst hev)) (by simp)

theorem calls_of_phases {tr' n m} (h : Phase .authRequest tr n) (h' : Phase .authCode tr' m)
    (hgo : (∀ c ∈ tr, isOk c.op c.res = true) → ∃ c ∈ tr', c.op = .list .authCode) :
    Calls (tr ++ tr') ⟨n, m⟩ := by
  constructor
  · simp [h.count, h'.count]
  · simp [h.count, h'.count]
  · intro c hc k name hop
    rcases mem_append.mp hc with hc | hc
    · exact .inl (by simp [isDelete, hop, h.kinds c hc k name hop])
    · exact .inr (by simp [isDelete, hop, h'.kinds c hc k name hop])
  · intro hok
    obtain ⟨c, hc, hop⟩ := hgo fun c hc => hok c (mem_append_left _ hc)
    exact ⟨c, mem_append_right _ hc, hop⟩
  · intro c hc k names hev name hname
    rcases mem_append.mp hc with hc | hc
    · obtain ⟨c', hc', hop⟩ := h.deletes c hc k names hev name hname
      exact ⟨c', mem_append_left _ hc', hop⟩
    · obtain ⟨c', hc', hop⟩ := h'.deletes c hc k names hev name hname
      exact ⟨c', mem_append_right _ hc', hop⟩

theorem collect_calls (hrefl : ∀ w, others w w) {result}
    (h : collect.Amid B.Step others w tr result w') : Calls tr result.1 := by
  obtain ⟨r, pre, post, tr1, -, -, h1, rfl⟩ := h.step_inv
  cases r with
  | error e =>
    obtain ⟨rfl, rfl, -⟩ := h1.pure_inv
    exact calls_of_phases (phase_error .authRequest e pre post) (phase_nil _) (by simp [isOk, Except.toBool])
  | ok requests =>
    obtain ⟨delErr, w1, tr1, tr2, hsweep, h2, rfl⟩ := h1.bind_inv hrefl
    obtain ⟨hops, hnone⟩ := sweep_calls hsweep
    cases delErr with
    | some e =>
      obtain ⟨rfl, rfl, -⟩ := h2.pure_inv
      refine calls_of_phases (phase_ok pre post hops) (phase_nil _) ?_
      intro hok
      exact absurd (hnone.mpr ⟨rfl, (forall_mem_cons.mp hok).2⟩) (by simp)
    | none =>
      obtain ⟨r, pre', post', tr3, -, -, h3, rfl⟩ := h2.step_inv
      cases r with
      | error e =>
        obtain ⟨rfl, rfl, -⟩ := h3.pure_inv
        exact calls_of_phases (phase_ok pre post hops) (phase_error .authCode e pre' post') (by simp)
      | ok codes =>
        obtain ⟨delErr, w2, tr3, tr4, hsweep', h4, rfl⟩ := h3.bind_inv hrefl
        obtain ⟨rfl, rfl, -⟩ := h4.pure_inv
        obtain ⟨hops', -⟩ := sweep_calls hsweep'
        rw [append_nil]
        exact calls_of_phases (phase_ok pre post hops) (phase_ok pre' post' hops') (by simp)

/-! ## When a collection completes -/

/-- Others do not create again what was listed. -/
def NoReturn (B : Backend W) (env : W → W → Prop) (tr : List (Made sig W)) : Prop :=
  ∀ c ∈ tr, ∀ k names, c.ev = ⟨.list k, .ok names⟩ → ∀ obj ∈ B.listing c.pre k,
    ∀ v v', env v v' → B.stored v k obj.1 = false → B.stored v' k obj.1 = false

theorem noReturn_of_shrinks (h : ∀ v v', env v v' → B.Shrinks v v') : NoReturn B env tr := by
  intro c _ k names _ obj _ v v' henv
  exact (h v v' henv).gone

/-- What is listed is deleted by the key it is stored under. -/
def OwnKeys (B : Backend W) (tr : List (Made sig W)) : Prop :=
  ∀ c ∈ tr, ∀ k names, c.ev = ⟨.list k, .ok names⟩ → ∀ obj ∈ B.listing c.pre k, obj.1 = obj.2

def ownKeys (B : Backend W) (tr : List (Made sig W)) : Bool :=
  tr.all fun c => match c.op with
    | .list k => (B.listing c.pre k).all fun obj => obj.1 = obj.2
    | .delete _ _ => true

theorem OwnKeys.of_all (h : ownKeys B tr = true) : OwnKeys B tr := by
  intro c hc k names hev obj hobj
  have hop : c.op = .list k := congrArg Sigma.fst hev
  have hall := all_eq_true.mp h c hc
  simp only [hop, all_eq_true, decide_eq_true_eq] at hall
  exact hall obj hobj

theorem step_shrinks {o r v v'} (h : B.Step o r v v') : B.Shrinks v v' := by
  cases h with
  | listed | unlisted => exact fun _ _ h => h
  | deleted _ _ hs => exact hs
  | missing => exact fun _ _ h => h
  | failed _ hs => exact hs

theorem step_list {k r pre post} (hs : B.Step (.list k) r pre post) :
    r = .ok ((B.listing pre k).map Prod.snd) ∨ ∃ e, r = .error e := by
  cases hs with
  | listed => exact .inl rfl
  | unlisted => exact .inr ⟨_, rfl⟩

theorem names_of_listed {k} {c : Made sig W} (hs : B.Step c.op c.res c.pre c.post)
    (hev : c.ev = ⟨.list k, .ok names⟩) : names = (B.listing c.pre k).map Prod.snd := by
  obtain ⟨o, r, pre, post⟩ := c
  cases hev
  rcases step_list hs with heq | ⟨e, heq⟩
  · exact Except.ok.inj heq
  · cases heq

theorem isOk_of_removes {o r pre post} (hs : B.Step o r pre post)
    (hbroken : isBroken o r = false) (hr : ∀ k name, o = .delete k name → B.removes ⟨o, r, pre, post⟩ = true) :
    isOk o r = true := by
  cases hs with
  | listed => rfl
  | unlisted => cases hbroken
  | deleted => rfl
  | missing hpre =>
    have hremoves := hr _ _ rfl
    simp [Backend.removes, hpre] at hremoves
  | failed he => simp [isBroken, he] at hbroken

theorem all_of_countP {α : Type} {p q : α → Bool} {l : List α} (h : l.countP p = l.countP fun a => p a && q a) :
    ∀ a ∈ l, p a = true → q a = true := by
  have hlen : ((l.filter p).filter q).length = (l.filter p).length := by
    rw [countP_eq_length_filter, countP_eq_length_filter] at h
    rw [filter_filter, h]
    simp [Bool.and_comm]
  intro a ha hp
  exact length_filter_eq_length_iff.mp hlen a (mem_filter.mpr ⟨ha, hp⟩)

theorem countP_removes (heach : EachRemoves B tr) (k : Kind) :
    tr.countP (isDelete k) = tr.countP fun c => isDelete k c && B.removes c := by
  refine countP_congr fun c hc => ?_
  obtain ⟨o, r, pre, post⟩ := c
  cases o with
  | list k' => simp [isDelete]
  | delete k' name => simp [heach _ hc k' name rfl]

/-- Where nobody creates again what was listed, a collection completes exactly if each of
its deletions removes an object. -/
theorem completes_iff {result : GCResult × Option Error}
    (h : collect.Amid B.Step (Relation.ReflTransGen env) w tr result w')
    (hreturn : NoReturn B env tr) (hkeys : OwnKeys B tr) : Completes B tr result.1 w' ↔ EachRemoves B tr := by
  have hcalls := collect_calls (fun _ => .refl) h
  constructor
  · intro hc c hmem k name hop
    have hrequests := hcalls.authRequests.symm.trans hc.authRequests
    have hcodes := hcalls.authCodes.symm.trans hc.authCodes
    rcases hcalls.kinds c hmem k name hop with hk | hk
    · exact all_of_countP hrequests c hmem hk
    · exact all_of_countP hcodes c hmem hk
  · intro heach
    refine ⟨hcalls.authRequests.trans (countP_removes heach _), hcalls.authCodes.trans (countP_removes heach _),
      ?_, ?_⟩
    · intro hbroken
      exact hcalls.goesOn fun c hc => isOk_of_removes (h.steps c hc) (hbroken c hc) (heach c hc)
    · intro c hc k names hev obj hobj hstored
      have hname : obj.2 ∈ names := names_of_listed (h.steps c hc) hev ▸ mem_map_of_mem hobj
      obtain ⟨c', hc', hop⟩ := hcalls.deletes c hc k names hev obj.2 hname
      have hgone : B.stored c'.post k obj.1 = false := by
        have hremoves := heach c' hc' k obj.2 hop
        simp only [Backend.removes, hop, Bool.and_eq_true, Bool.not_eq_true'] at hremoves
        rw [hkeys c hc k names hev obj hobj]
        exact hremoves.2
      have hlast : B.stored w' k obj.1 = false := by
        refine h.lasts_of_mem (P := fun v => B.stored v k obj.1 = false) ?_ ?_ hc' hgone
        · intro v v' hothers hv
          induction hothers with
          | refl => exact hv
          | tail _ henv ih => exact hreturn c hc k names hev obj hobj _ _ henv ih
        · intro c hc
          exact (step_shrinks (h.steps c hc)).gone
      rw [hlast] at hstored
      cases hstored

theorem exists_incomplete {T} {A : Type} {exec}
    {p : Prog T (GCResult × Option Error)} {turns : List ((W → W) × A)} {view}
    (hplay : ((p.play exec turns w).any fun run => decide (run.2.1.1.authRequests = 1) &&
      ((run.1.filterMap view).all (·.op ≠ .list .authCode) &&
      (run.1.filterMap view).countP (fun c => isDelete .authRequest c && B.removes c) == 0)) = true)
    (hturns : ∀ t ∈ turns, ∀ w, Relation.ReflTransGen env w (t.1 w)) :
    ∃ tr result w', p.Amid (Prog.stepOf exec) (Relation.ReflTransGen env) w tr result w' ∧
      result.1.authRequests = 1 ∧ (tr.filterMap view).all (·.op ≠ .list .authCode) ∧
      ¬ Completes B (tr.filterMap view) result.1 w' := by
  obtain ⟨⟨tr, result, w'⟩, hrun, hbad⟩ := (Option.any_eq_true _ _).mp hplay
  simp only [Bool.and_eq_true, decide_eq_true_eq, beq_iff_eq] at hbad
  obtain ⟨hone, hcodes, hzero⟩ := hbad
  refine ⟨tr, result, w', Prog.amid_of_play (fun _ => .refl) hturns hrun, hone, hcodes, ?_⟩
  intro hcompletes
  have hcount := hcompletes.authRequests
  omega

end

end

end Collection

end KubeYamls.Store
