import KubeYamls.Conc.Machine

/-! # The order of commits

The program of a request may take several calls to do its work, and take effect
at one of them. If at that call it does what the request means, then the state is
at any time what the committed requests make of the first one, in commit order
(`Ledger.Kept.replay`). -/
namespace KubeYamls.Conc
open List
variable {S : Sig} {M : Machine S} {Init : M.World → Prop}

/-! ## The commit log -/

/-- How the steps of a machine are read as requests taking effect: `view` is the
state they act on, `means` what a request does to it when it runs alone (if it
can), and `commits` tells at which call of its program it does so. -/
structure Ledger (M : Machine S) (σ : Type) where
  view : M.World → σ
  means : M.Req → σ → Option σ
  commits : Ev S → Bool

namespace Ledger
variable {σ : Type} (L : Ledger M σ)

/-- The commit a step is, if it is one: the thread and its request. -/
def commit : Entry M → Option (Nat × M.Req)
  | .act tid req o r _ _ => if L.commits ⟨o, r⟩ then some (tid, req) else none
  | _ => none

def log (hist : List (Entry M)) : List (Nat × M.Req) := hist.filterMap L.commit

section
variable {tid : Nat} {req : M.Req} {o : S.Op} {r : S.Res o} {pre post : M.World}
  {hist : List (Entry M)}

theorem log_of_commits (h : L.commits ⟨o, r⟩ = true) :
    L.log (.act tid req o r pre post :: hist) = (tid, req) :: L.log hist :=
  filterMap_cons_some (by simp [commit, h])

theorem log_of_not_commits (h : L.commits ⟨o, r⟩ = false) :
    L.log (.act tid req o r pre post :: hist) = L.log hist :=
  filterMap_cons_none (by simp [commit, h])

end

/-- No call of a thread was a commit so far. -/
def Clean (past : List (Ev S)) : Prop := ∀ ev ∈ past, L.commits ev = false

theorem clean_cons {past ev} : L.Clean (ev :: past) ↔ L.commits ev = false ∧ L.Clean past := forall_mem_cons

theorem mem_log {tid hist} : tid ∈ (L.log hist).map Prod.fst ↔ ¬ L.Clean (past tid hist) := by
  induction hist with
  | nil => simp [log, Clean]
  | cons e hist ih =>
    cases e with
    | start | move => exact ih
    | act t req o r pre post =>
      by_cases ht : t = tid
      · subst ht
        rw [past_act_self, clean_cons]
        cases hc : L.commits ⟨o, r⟩ with
        | true => simp [L.log_of_commits hc]
        | false => simpa [L.log_of_not_commits hc] using ih
      · rw [past_act_ne ht]
        cases hc : L.commits ⟨o, r⟩ with
        | true => simpa [L.log_of_commits hc, Ne.symm ht] using ih
        | false => simpa [L.log_of_not_commits hc] using ih

/-- What holds of the steps of a machine whose ledger is kept. -/
structure Kept (Init : M.World → Prop) : Prop where
  commit : ∀ {s tid req o k ans r w}, Reach Init s → s.threads[tid]? = some ⟨req, .act o k⟩ →
    M.exec req o ans s.world = some (r, w) → L.commits ⟨o, r⟩ = true →
    L.means req (L.view s.world) = some (L.view w) ∧ L.Clean (past tid s.hist)
  quiet : ∀ {req o ans w r w'}, M.exec req o ans w = some (r, w') → L.commits ⟨o, r⟩ = false →
    L.view w' = L.view w
  move : ∀ {m w w'}, M.move m w = some w' → L.view w' = L.view w

variable {L}

theorem Kept.replay {w0} (hL : L.Kept (· = w0)) {s} (h : Reach (· = w0) s) :
    (L.log s.hist).foldrM (fun c st => L.means c.2 st) (L.view w0) = some (L.view s.world) := by
  refine Reach.induct' (I := fun s => (L.log s.hist).foldrM (fun c st => L.means c.2 st)
    (L.view w0) = some (L.view s.world)) ?_ (fun _ _ _ ih => ih) ?_ ?_ h
  · intro w hw
    subst hw
    rfl
  · intro s tid req o k ans r w hr ih hth hx
    cases hc : L.commits ⟨o, r⟩ with
    | true =>
      show (L.log (.act tid req o r s.world w :: s.hist)).foldrM _ _ = _
      rw [L.log_of_commits hc, foldrM_cons, ih]
      exact (hL.commit hr hth hx hc).1
    | false =>
      show (L.log (.act tid req o r s.world w :: s.hist)).foldrM _ _ = _
      rw [L.log_of_not_commits hc, ih]
      exact congrArg some (hL.quiet hx hc).symm
  · intro s m w _ ih hm
    show (L.log s.hist).foldrM (fun c st => L.means c.2 st) (L.view w0) = some (L.view w)
    rw [ih, hL.move hm]

theorem Kept.once (hL : L.Kept Init) {s} (h : Reach Init s) : ((L.log s.hist).map Prod.fst).Nodup := by
  refine Reach.induct' (I := fun s => ((L.log s.hist).map Prod.fst).Nodup) ?_
    (fun _ _ _ ih => ih) ?_ (fun _ _ _ _ ih _ => ih) h
  · intro w _
    exact nodup_nil
  · intro s tid req o k ans r w hr ih hth hx
    cases hc : L.commits ⟨o, r⟩ with
    | true =>
      show ((L.log (.act tid req o r s.world w :: s.hist)).map Prod.fst).Nodup
      rw [L.log_of_commits hc, map_cons, nodup_cons]
      exact ⟨fun hm => L.mem_log.mp hm (hL.commit hr hth hx hc).2, ih⟩
    | false =>
      show ((L.log (.act tid req o r s.world w :: s.hist)).map Prod.fst).Nodup
      rw [L.log_of_not_commits hc]
      exact ih

/-- A thread that has not committed has changed nothing. -/
theorem Kept.unchanged (hL : L.Kept Init) {s} (h : Reach Init s) {tid req o r pre post} (hm : Entry.act tid req o r pre post ∈ s.hist)
    (hc : L.Clean (past tid s.hist)) : L.view post = L.view pre := by
  obtain ⟨l1, l2, hs⟩ := append_of_mem hm
  obtain ⟨_, _, _, _, _, _, _, hx⟩ := h.split_act hs
  exact hL.quiet hx (hc _ (mem_past.mpr ⟨req, pre, post, hm⟩))

end Ledger

/-! ## Programs that report

A program that takes effect at most once and whose last call is a report: `nil`
if it has taken effect, something else if not. Where the report is in a thread's
past it is the newest call, so it still tells whether the thread has committed. -/

structure Reporting (S : Sig) (ρ : Type) where
  commits : Ev S → Bool
  report : ρ → S.Op
  nil : ρ
  report_inj : Function.Injective report
  report_quiet : ∀ r x, commits ⟨report r, x⟩ = false

namespace Reporting
variable {ρ : Type} (P : Reporting S ρ)

def Clean (past : List (Ev S)) : Prop := ∀ ev ∈ past, P.commits ev = false

def Open (past : List (Ev S)) : Prop := ∀ r x, (⟨P.report r, x⟩ : Ev S) ∉ past

/-- The program has neither taken effect nor reported. -/
structure Pending (past : List (Ev S)) : Prop where
  opened : P.Open past
  clean : P.Clean past

/-- The program may report `r`. -/
structure Settled (past : List (Ev S)) (r : ρ) : Prop where
  opened : P.Open past
  nil_iff : r = P.nil ↔ ¬ P.Clean past

/-- The last call was a report, made when it might be. -/
def Reported (past : List (Ev S)) : Prop :=
  ∃ r x before, past = ⟨P.report r, x⟩ :: before ∧ P.Settled before r

variable {P} {past : List (Ev S)} {o : S.Op} {x : S.Res o} {r : ρ}

theorem clean_cons {ev} : P.Clean (ev :: past) ↔ P.commits ev = false ∧ P.Clean past :=
  forall_mem_cons

theorem pending_nil : P.Pending [] :=
  ⟨fun _ _ => not_mem_nil, fun _ hm => absurd hm not_mem_nil⟩

theorem Open.cons (h : P.Open past) (ho : ∀ r, o ≠ P.report r) : P.Open (⟨o, x⟩ :: past) :=
  fun r y hm => by
    rcases mem_cons.mp hm with he | hm
    · exact ho r (congrArg Sigma.fst he).symm
    · exact h r y hm

theorem Pending.quiet (h : P.Pending past) (ho : ∀ r, o ≠ P.report r)
    (hx : P.commits ⟨o, x⟩ = false) : P.Pending (⟨o, x⟩ :: past) :=
  ⟨h.opened.cons ho, clean_cons.mpr ⟨hx, h.clean⟩⟩

theorem Pending.settled (h : P.Pending past) (hr : r ≠ P.nil) : P.Settled past r :=
  ⟨h.opened, fun he => absurd he hr, fun hn => absurd h.clean hn⟩

theorem Pending.committed (h : P.Pending past) (ho : ∀ r, o ≠ P.report r)
    (hx : P.commits ⟨o, x⟩ = true) : P.Settled (⟨o, x⟩ :: past) P.nil := by
  refine ⟨h.opened.cons ho, fun _ hc => ?_, fun _ => rfl⟩
  rw [hc _ mem_cons_self] at hx
  cases hx

/-- The contract of a program that reports, with more on the calls besides. -/
def contract (P : Reporting S ρ) (D : List (Ev S) → S.Op → Prop)
    (G : (o : S.Op) → S.Res o → Prop) : Contract S where
  duty past o := P.Open past ∧ (∀ r, o = P.report r → P.Settled past r) ∧ D past o
  grant _ := G

variable {D : M.Req → List (Ev S) → S.Op → Prop} {G : (o : S.Op) → S.Res o → Prop}

theorem nil_iff (hmain : ∀ req, (M.main req).wp (P.contract (D req) G) (fun past _ => P.Reported past) [])
    (hgrant : ∀ req o ans w r w', M.exec req o ans w = some (r, w') → G o r)
    {s} (h : Reach Init s) {tid y} (hr : (⟨P.report r, y⟩ : Ev S) ∈ Conc.past tid s.hist) :
    r = P.nil ↔ ¬ P.Clean (Conc.past tid s.hist) := by
  obtain ⟨req, pre, post, hm⟩ := mem_past.mp hr
  obtain ⟨p, hth⟩ := h.thread_of_mem hm
  have hwp := h.contract hmain
    (fun s tid req o k ans r w _ _ hx => hgrant req o ans s.world r w hx) tid _ hth
  cases p with
  | act o k => exact absurd hr (hwp.1.1 r y)
  | ret _ =>
    obtain ⟨r', y', before, heq, hset⟩ : P.Reported (Conc.past tid s.hist) := hwp
    rw [heq] at hr ⊢
    rcases mem_cons.mp hr with he | hr
    · obtain rfl : r = r' := P.report_inj (congrArg Sigma.fst he)
      have hc : P.Clean (⟨P.report r, y'⟩ :: before) ↔ P.Clean before :=
        clean_cons.trans (and_iff_right (P.report_quiet r y'))
      rw [hc]
      exact hset.nil_iff
    · exact absurd hr (hset.opened r y)

end Reporting

end KubeYamls.Conc
