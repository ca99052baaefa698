import KubeYamls.Conc.Steps
import KubeYamls.Data.Table
import Mathlib.Data.List.Infix
import Mathlib.Data.List.Nodup
import Mathlib.Data.List.Perm.Basic

/-! # The plugin installer

`install-plugins.sh` downloads the plugins of a list and, each in a process of its own, what
they depend on. The processes share one directory and keep out of each other's way by locks:
directories, made before a download begins and removed when all is done. The locks of the
list are made before any process starts. A process that waits for others waits for those it
has started itself. -/
namespace KubeYamls.Jenkins.Installer
open Data Conc Option List

/-- What `unzip` finds in an archive: the version, whether it is intact, and the entries of
`Plugin-Dependencies`. -/
structure Archive where
  version : String
  intact : Bool
  dependencies : List String
deriving DecidableEq

/-- The first arguments of `download`. -/
structure Spec where
  plugin : String
  version : String := "latest"
  url : String := ""
deriving DecidableEq

/-- How far a call of `download` is, and how it can end: without the lock, without an archive,
with one that is not intact, or well. -/
inductive Phase where
  | lock
  | fetch
  | check
  | resolve (todo : List String)
  | wait
  | skipped
  | died
  | corrupt
  | done
deriving DecidableEq

def Phase.ended : Phase → Bool
  | .skipped | .died | .corrupt | .done => true
  | _ => false

/-- A process with its call of `download`, and the process that started it, unless that is
the script itself. -/
structure Download extends Spec where
  parent : Option Nat
  phase : Phase
deriving DecidableEq

structure State where
  locks : List String
  files : Table String Archive
  failed : List String := []
  processes : List Download := []
  /-- plugins of the list that are still to be started -/
  queue : List Spec

/-- What `curl` brings, or leaves behind if it fails. -/
inductive Answer where
  | fetched (a : Archive)
  | failed (left : Option Archive)

inductive Label where
  | launch
  | go (i : Nat) (answer : Answer)

/-- `cut -d':' -f1` -/
def pluginOf (entry : String) : String := String.ofList (entry.toList.takeWhile (· ≠ ':'))

/-- `${plugin##*:}`, if there is a colon. -/
def versionFromPlugin (entry : String) : String :=
  if ':' ∈ entry.toList then String.ofList (entry.toList.reverse.takeWhile (· ≠ ':')).reverse
  else "latest"

/-- What the script is called with: the plugins of the WAR and those that are installed, of
which the last one counts; the locks that are there, left by a script that failed; and the
list. -/
structure Setup where
  versionLT : String → String → Bool
  /-- Does `grep` find the version, taken for a pattern, in the other? -/
  grep : String → String → Bool
  installed : List (String × String)
  left : List String
  listed : List Spec

section
variable (w : Setup)

/-- Is a dependency to be downloaded? -/
def needed (entry : String) : Bool :=
  !decide ("resolution:=optional".toList <:+: entry.toList) &&
    (w.installed.reverse.find? (·.1 = pluginOf entry)).all fun p =>
      w.versionLT p.2 (versionFromPlugin entry)

def State.goTo (s : State) (i : Nat) (d : Download) (phase : Phase) : State :=
  { s with processes := s.processes.set i { d with phase } }

def State.spawn (s : State) (d : Download) : State := { s with processes := s.processes ++ [d] }

/-- The archive that is there may do. Without it and without a URL the script stumbles over a
version from the repository of incrementals; and where a download fails, over the missing
argument of the second try. -/
def doDownload (s : State) (i : Nat) (d : Download) (answer : Answer) : State :=
  if (s.files.lookup d.plugin).any (w.grep d.version ·.version) then s.goTo i d .check
  else if d.url = "" ∧ "incrementals".toList.isPrefixOf d.version.toList then s.goTo i d .died
  else match answer with
    | .fetched a => { s.goTo i d .check with files := s.files.insert d.plugin a }
    | .failed none => s.goTo i d .died
    | .failed (some a) => { s.goTo i d .died with files := s.files.insert d.plugin a }

/-- The process of an archive without dependencies ends here: `grep` finds none, and fails. -/
def checkIntegrity (s : State) (i : Nat) (d : Download) : State :=
  match (s.files.lookup d.plugin).filter (·.intact) with
  | some a => s.goTo i d (if a.dependencies = [] then .done else .resolve a.dependencies)
  | none => { s.goTo i d .corrupt with failed := s.failed ++ ["Download integrity: " ++ d.plugin] }

/-- One step of a process. A dependency is downloaded in its latest version. -/
def download (s : State) (i : Nat) (d : Download) (answer : Answer) : Option State :=
  match d.phase with
  | .lock =>
    if d.plugin ∈ s.locks then s.goTo i d .skipped
    else some { s.goTo i d .fetch with locks := d.plugin :: s.locks }
  | .fetch => doDownload w s i d answer
  | .check => checkIntegrity s i d
  | .resolve (entry :: todo) =>
    if needed w entry then (s.spawn ⟨{ plugin := pluginOf entry }, some i, .lock⟩).goTo i d (.resolve todo)
    else s.goTo i d (.resolve todo)
  | .resolve [] => s.goTo i d .wait
  | .wait => if s.processes.all fun c => c.parent ≠ some i || c.phase.ended then s.goTo i d .done else none
  | _ => none

def step : Label → State → Option State
  | .launch, s =>
    match s.queue with
    | [] => none
    | q :: queue => some { s.spawn ⟨q, none, .fetch⟩ with queue }
  | .go i answer, s => s.processes[i]?.bind fun d => download w s i d answer

/-- The script makes the locks of its list. It gives up if one is there or two are the same. -/
def start (files : Table String Archive) : Option State :=
  let locks := w.listed.map (·.plugin) ++ w.left
  if locks.Nodup then some { locks, files, queue := w.listed } else none

end

/-- The script has waited for all that it has started. -/
def State.finished (s : State) : Bool :=
  s.queue.isEmpty && s.processes.all fun d => d.parent ≠ none || d.phase.ended

def State.exitCode (s : State) : Nat := if s.failed = [] then 0 else 1

def Download.owns (d : Download) : Bool := d.phase ≠ .lock && d.phase ≠ .skipped

/-- The dependencies that are still to be looked at, once the archive has been checked. -/
def Phase.todo : Phase → Option (List String)
  | .resolve todo => some todo
  | .wait | .done => some []
  | _ => none

theorem Phase.ended_iff {p : Phase} {todo} (h : p.todo = some todo) : p.ended = true ↔ p = .done := by
  cases p <;> simp_all [Phase.todo, Phase.ended]

section
variable {w : Setup} {s s' : State} {i : Nat} {d c : Download}

theorem download_isSome {answer} (hend : d.phase.ended = false)
    (hwait : d.phase = .wait → ∀ c ∈ s.processes, c.parent = some i → c.phase.ended = true) :
    (download w s i d answer).isSome := by
  fun_cases download <;> try rfl
  · rename_i hp hnot
    refine absurd (all_eq_true.mpr fun c hc => ?_) hnot
    have := hwait hp c hc
    grind
  · cases hp : d.phase with
    | resolve todo => cases todo <;> simp_all
    | _ => simp_all [Phase.ended]

/-! ## The invariant -/

def held (ds : List Download) : List String := (ds.filter (·.owns)).map (·.plugin)

theorem set_perm {α} {l : List α} {a b : α} (h : l[i]? = some a) : (a :: l.set i b).Perm (b :: l) := by
  obtain ⟨hi, rfl⟩ := List.getElem?_eq_some_iff.mp h
  have hset := (set_perm_cons_eraseIdx hi b).cons l[i]
  exact hset.trans ((List.Perm.swap _ _ _).trans ((getElem_cons_eraseIdx_perm hi).cons b))

theorem held_set {ds : List Download} (hd : ds[i]? = some d) :
    (held [d] ++ held (ds.set i c)).Perm (held [c] ++ held ds) := by
  have := ((set_perm (b := c) hd).filter (·.owns)).map (·.plugin)
  simpa only [held, ← map_append, ← filter_append]

theorem getElem?_spawn (hd : s.processes[i]? = some d) (c : Download) : (s.spawn c).processes[i]? = some d :=
  (List.getElem?_append_left (List.getElem?_eq_some_iff.mp hd).1).trans hd

theorem plugins_goTo (hd : s.processes[i]? = some d) (phase : Phase) :
    (s.goTo i d phase).processes.map (·.plugin) = s.processes.map (·.plugin) := by
  refine ext_getElem? fun k => ?_
  grind [State.goTo]

section
variable (w : Setup) (s : State)

/-- What is right about a process. Only the script itself downloads what is listed; a lock was
in the way of a process that was skipped; an archive that is not intact is reported; and of
the dependencies of one that is, those that were looked at are in the hands of a process. -/
structure Right (d : Download) : Prop where
  spec : d.owns = true → d.toSpec ∈ w.listed ∨ ∀ q ∈ w.listed, q.plugin ≠ d.plugin
  skipped : d.phase = .skipped → d.plugin ∈ s.locks
  corrupt : d.phase = .corrupt → s.failed ≠ []
  resolved : ∀ todo ∈ d.phase.todo, ∃ a, s.files.lookup d.plugin = some a ∧ a.intact = true ∧
    ∀ entry ∈ a.dependencies, entry ∈ todo ∨ needed w entry = false ∨
      pluginOf entry ∈ s.processes.map (·.plugin)

/-- Each lock was left, or belongs to one process or to one plugin of the list that is still to
be started; only what is not intact is reported; and a process has ended before the one that
waits for it. -/
structure Orderly : Prop where
  owned : (held s.processes ++ (s.queue.map (·.plugin) ++ w.left)).Perm s.locks
  nodup : s.locks.Nodup
  known : ∀ q ∈ w.listed, q.plugin ∈ s.locks
  queue : ∀ q ∈ s.queue, q ∈ w.listed
  right : ∀ d ∈ s.processes, Right w s d
  reported : s.failed ≠ [] → ∃ d ∈ s.processes, d.phase = .corrupt
  tree : ∀ (j : Nat) (c : Download) (i : Nat), s.processes[j]? = some c → c.parent = some i → i < j ∧
    ∃ d : Download, s.processes[i]? = some d ∧ d.phase.todo.isSome ∧ (d.phase = .done → c.phase.ended = true)

end

theorem Right.later (h : Right w s d) (hlocks : s.locks ⊆ s'.locks) (hfailed : s.failed ≠ [] → s'.failed ≠ [])
    (hplugins : s.processes.map (·.plugin) ⊆ s'.processes.map (·.plugin))
    (hfile : d.phase.todo.isSome → s'.files.lookup d.plugin = s.files.lookup d.plugin) : Right w s' d := by
  refine ⟨h.spec, fun hp => hlocks (h.skipped hp), fun hp => hfailed (h.corrupt hp), fun todo htodo => ?_⟩
  obtain ⟨a, ha, hi, hall⟩ := h.resolved todo htodo
  exact ⟨a, (hfile (isSome_of_mem htodo)).trans ha, hi, fun entry he =>
    (hall entry he).imp_right (Or.imp_right (hplugins ·))⟩

theorem Right.goesOn (h : Right w s d) {phase} (howns : d.owns = true)
    (hskipped : phase ≠ .skipped) (hcorrupt : phase = .corrupt → s'.failed ≠ [])
    (hresolved : ∀ todo ∈ phase.todo, ∃ a, s'.files.lookup d.plugin = some a ∧ a.intact = true ∧
      ∀ entry ∈ a.dependencies, entry ∈ todo ∨ needed w entry = false ∨
        pluginOf entry ∈ s'.processes.map (·.plugin)) : Right w s' { d with phase } :=
  ⟨fun _ => h.spec howns, fun hp => absurd hp hskipped, hcorrupt, hresolved⟩

namespace Orderly

section
variable (h : Orderly w s)
include h

theorem spawn {queue} (hqueue : ∀ q ∈ queue, q ∈ w.listed)
    (hq : held [c] ++ queue.map (·.plugin) = s.queue.map (·.plugin)) (hc : Right w { s.spawn c with queue } c)
    (hparent : ∀ i, c.parent = some i → ∃ d, s.processes[i]? = some d ∧ d.phase.todo.isSome ∧ d.phase ≠ .done) :
    Orderly w { s.spawn c with queue } := by
  have hheld : held (s.processes ++ [c]) = held s.processes ++ held [c] := by
    simp [held]
  refine ⟨?_, h.nodup, h.known, hqueue, ?_, fun hf => ?_, ?_⟩
  · show (held (s.processes ++ [c]) ++ _).Perm _
    rw [hheld, append_assoc, ← append_assoc (held [c]), hq]
    exact h.owned
  · intro e he
    rcases mem_append.mp he with he | he
    · exact (h.right e he).later (List.Subset.refl _) id (by simp [State.spawn]) fun _ => rfl
    · exact mem_singleton.mp he ▸ hc
  · obtain ⟨e, he, hcorrupt⟩ := h.reported hf
    exact ⟨e, mem_append_left _ he, hcorrupt⟩
  · intro j e i hj hi
    have hcase : s.processes[j]? = some e ∨ j = s.processes.length ∧ e = c := by
      simp only [State.spawn] at hj
      grind
    rcases hcase with hj | ⟨rfl, rfl⟩
    · obtain ⟨hlt, d, hd, htodo, hdone⟩ := h.tree j e i hj hi
      exact ⟨hlt, d, getElem?_spawn hd c, htodo, hdone⟩
    · obtain ⟨d, hd, htodo, hdone⟩ := hparent i hi
      exact ⟨(List.getElem?_eq_some_iff.mp hd).1, d, getElem?_spawn hd e, htodo, fun hp => absurd hp hdone⟩

theorem goTo (hd : s.processes[i]? = some d) {phase}
    (new : List String) (hp : s'.processes = (s.goTo i d phase).processes) (hq : s'.queue = s.queue)
    (hl : s'.locks = new ++ s.locks) (hnew : held [{ d with phase }] = held [d] ++ new)
    (hnodup : s'.locks.Nodup) (hfailed : s'.failed = s.failed ∨ phase = .corrupt ∧ s'.failed ≠ [])
    (hfiles : ∀ e ∈ s.processes, e.phase.todo.isSome → s'.files.lookup e.plugin = s.files.lookup e.plugin)
    (hright : Right w s' { d with phase }) (hend : d.phase.ended = false)
    (htodo : d.phase.todo.isSome → phase.todo.isSome)
    (hdone : phase = .done → ∀ c ∈ s.processes, c.parent = some i → c.phase.ended = true) : Orderly w s' := by
  have hsub : s.locks ⊆ s'.locks := hl ▸ subset_append_right _ _
  have hplugins : s'.processes.map (·.plugin) = s.processes.map (·.plugin) := hp ▸ plugins_goTo hd phase
  have hlook : ∀ m : Nat, s'.processes[m]? = if i = m then some { d with phase } else s.processes[m]? := by
    intro m
    rw [hp, State.goTo, getElem?_set]
    grind
  refine ⟨?_, hnodup, fun q hin => hsub (h.known q hin), hq ▸ h.queue, ?_, fun hf => ?_, ?_⟩
  · have hset := held_set (c := { d with phase }) hd
    rw [hnew] at hset
    have hcons : (held s'.processes).Perm (new ++ held s.processes) := by
      rw [hp]
      exact (perm_append_left_iff (held [d])).mp (hset.trans (by simp))
    rw [hq, hl]
    exact (hcons.append_right _).trans (by simpa using h.owned.append_left new)
  · rw [hp]
    intro e he
    rcases mem_or_eq_of_mem_set he with he | rfl
    · exact (h.right e he).later hsub (by grind) (by rw [hplugins]; exact List.Subset.refl _) (hfiles e he)
    · exact hright
  · rcases hfailed with heq | ⟨hcorrupt, -⟩
    · obtain ⟨e, he, hcorrupt⟩ := h.reported (heq ▸ hf)
      obtain ⟨j, hj⟩ := mem_iff_getElem?.mp he
      refine ⟨e, mem_of_getElem? ((hlook j).trans (if_neg ?_) |>.trans hj), hcorrupt⟩
      rintro rfl
      cases hd.symm.trans hj
      rw [hcorrupt] at hend
      cases hend
    · exact ⟨_, mem_of_getElem? ((hlook i).trans (if_pos rfl)), hcorrupt⟩
  · intro j c k hj hk
    obtain ⟨c0, hc0, hk0, hended⟩ : ∃ c0, s.processes[j]? = some c0 ∧ c0.parent = some k ∧
        (c0.phase.ended = true → c = c0) := by
      rw [hlook] at hj
      split_ifs at hj with hij
      · cases hj
        exact ⟨d, hij ▸ hd, hk, by simp [hend]⟩
      · exact ⟨c, hj, hk, fun _ => rfl⟩
    obtain ⟨hlt, e, he, hresolved, hwaits⟩ := h.tree j c0 k hc0 hk0
    rw [hlook]
    refine ⟨hlt, ?_⟩
    split_ifs with hik
    · subst hik
      cases hd.symm.trans he
      refine ⟨_, rfl, htodo hresolved, fun hp => ?_⟩
      have hc : c0.phase.ended = true := hdone hp c0 (mem_of_getElem? hc0) hk0
      exact hended hc ▸ hc
    · exact ⟨e, he, hresolved, fun hp => hended (hwaits hp) ▸ hwaits hp⟩

theorem goesOn (hd : s.processes[i]? = some d) {phase}
    (howns : d.owns = true) (howns' : Download.owns { d with phase } = true)
    (hright : Right w (s.goTo i d phase) { d with phase }) (hend : d.phase.ended = false)
    (htodo : d.phase.todo.isSome → phase.todo.isSome)
    (hdone : phase = .done → ∀ c ∈ s.processes, c.parent = some i → c.phase.ended = true) :
    Orderly w (s.goTo i d phase) :=
  h.goTo hd [] rfl rfl rfl (by simp [held, howns, howns']) h.nodup (.inl rfl) (fun _ _ _ => rfl)
    hright hend htodo hdone

theorem resolves (hd : s.processes[i]? = some d) {phase todo todo'}
    (htodo : d.phase.todo = some todo) (htodo' : phase.todo = some todo') (hnot : d.phase ≠ .done)
    (hdone : phase = .done → ∀ c ∈ s.processes, c.parent = some i → c.phase.ended = true)
    (hstep : ∀ entry ∈ todo, entry ∈ todo' ∨ needed w entry = false ∨
      pluginOf entry ∈ s.processes.map (·.plugin)) : Orderly w (s.goTo i d phase) := by
  have howns : d.owns = true := by grind [Download.owns, Phase.todo]
  have hright : Right w (s.goTo i d phase) d :=
    (h.right d (mem_of_getElem? hd)).later (List.Subset.refl _) id
      (by rw [plugins_goTo hd]; exact List.Subset.refl _) fun _ => rfl
  refine h.goesOn hd howns (by grind [Download.owns, Phase.todo]) ?_
    (by simp [← Bool.not_eq_true, Phase.ended_iff htodo, hnot]) (by simp [htodo']) hdone
  refine hright.goesOn howns (by grind [Phase.todo]) (by grind [Phase.todo]) fun t ht => ?_
  obtain rfl : todo' = t := some.inj (htodo'.symm.trans ht)
  obtain ⟨a, ha, hi, hall⟩ := hright.resolved todo htodo
  refine ⟨a, ha, hi, fun entry he => ?_⟩
  rcases hall entry he with hmem | hrest
  · rw [plugins_goTo hd]
    exact hstep entry hmem
  · exact .inr hrest

theorem held_nodup : (held s.processes).Nodup :=
  (h.owned.nodup_iff.mpr h.nodup).of_append_left

theorem owner_unique (hd : d ∈ s.processes) (hc : c ∈ s.processes)
    (hd' : d.owns = true) (hc' : c.owns = true) (hp : c.plugin = d.plugin) : c = d :=
  inj_on_of_nodup_map h.held_nodup (by simp [hc, hc']) (by simp [hd, hd']) hp

theorem doDownload (hd : s.processes[i]? = some d) (hp : d.phase = .fetch) (answer : Answer) :
    Orderly w (doDownload w s i d answer) := by
  have hin : d ∈ s.processes := mem_of_getElem? hd
  have howns : d.owns = true := by simp [Download.owns, hp]
  have hfetch : ∀ {phase files}, phase = .check ∨ phase = .died →
      (∀ x ≠ d.plugin, files.lookup x = s.files.lookup x) → Orderly w { s.goTo i d phase with files } := by
    intro phase files hphase hfiles
    refine h.goTo hd [] rfl rfl rfl ?_ h.nodup (.inl rfl) ?_ ?_ (by rw [hp]; rfl) (by simp [hp, Phase.todo]) ?_
    · rcases hphase with rfl | rfl <;> simp [held, Download.owns, hp]
    · -- no other process has the plugin, and this one has not looked at the archive yet
      intro e he htodo
      refine hfiles _ fun hplugin => ?_
      have : e = d := h.owner_unique hin he howns (by grind [Download.owns, Phase.todo]) hplugin
      simp [this, hp, Phase.todo] at htodo
    · rcases hphase with rfl | rfl <;> exact (h.right d hin).goesOn howns (by simp) (by simp) (by simp [Phase.todo])
    · rcases hphase with rfl | rfl <;> simp
  unfold Installer.doDownload
  split_ifs
  · exact hfetch (.inl rfl) fun _ _ => rfl
  · exact hfetch (.inr rfl) fun _ _ => rfl
  · split
    · exact hfetch (.inl rfl) fun _ hx => AList.lookup_insert_ne hx
    · exact hfetch (.inr rfl) fun _ _ => rfl
    · exact hfetch (.inr rfl) fun _ hx => AList.lookup_insert_ne hx

theorem checkIntegrity (hd : s.processes[i]? = some d) (hp : d.phase = .check) :
    Orderly w (checkIntegrity s i d) := by
  have hright := h.right d (mem_of_getElem? hd)
  have howns : d.owns = true := by simp [Download.owns, hp]
  unfold Installer.checkIntegrity
  split
  · rename_i a ha
    obtain ⟨ha, hi⟩ := filter_eq_some_iff.mp ha
    split_ifs with hnone
    · -- a process that has started no other yet
      refine h.goesOn hd howns (by simp [Download.owns]) ?_ (by rw [hp]; rfl) (by simp [hp, Phase.todo]) fun _ c hc hi => ?_
      · exact hright.goesOn howns (by simp) (by simp) fun todo _ => ⟨a, ha, hi, by simp [hnone]⟩
      · obtain ⟨j, hj⟩ := mem_iff_getElem?.mp hc
        obtain ⟨-, d', hd', htodo, -⟩ := h.tree j c i hj hi
        cases hd.symm.trans hd'
        simp [hp, Phase.todo] at htodo
    · refine h.goesOn hd howns (by simp [Download.owns]) ?_ (by rw [hp]; rfl) (by simp [hp, Phase.todo]) (by simp)
      refine hright.goesOn howns (by simp) (by simp) fun todo htodo => ?_
      cases htodo
      exact ⟨a, ha, hi, fun _ => .inl⟩
  · refine h.goTo hd [] rfl rfl rfl ?_ h.nodup (.inr ⟨rfl, by simp⟩) (fun _ _ _ => rfl) ?_ (by rw [hp]; rfl)
      (by simp [hp, Phase.todo]) (by simp)
    · simp [held, Download.owns, hp]
    · exact hright.goesOn howns (by simp) (by simp) (by simp [Phase.todo])

theorem download {answer} (hd : s.processes[i]? = some d)
    (hs : download w s i d answer = some s') : Orderly w s' := by
  unfold Installer.download at hs
  split at hs
  · rename_i hp
    split_ifs at hs with hl <;> cases hs
    · refine h.goTo hd [] rfl rfl rfl ?_ h.nodup (.inl rfl) (fun _ _ _ => rfl) ?_ (by rw [hp]; rfl)
        (by simp [hp, Phase.todo]) (by simp)
      · simp [held, Download.owns, hp]
      · exact ⟨by simp [Download.owns], fun _ => hl, by simp, by simp [Phase.todo]⟩
    · refine h.goTo hd [d.plugin] rfl rfl rfl ?_ (nodup_cons.mpr ⟨hl, h.nodup⟩) (.inl rfl)
        (fun _ _ _ => rfl) ?_ (by rw [hp]; rfl) (by simp [Phase.todo, hp]) (by simp)
      · simp [held, Download.owns, hp]
      · exact ⟨fun _ => .inr fun q hq he => hl (he ▸ h.known q hq), by simp, by simp, by simp [Phase.todo]⟩
  · rename_i hp
    cases hs
    exact h.doDownload hd hp answer
  · rename_i hp
    cases hs
    exact h.checkIntegrity hd hp
  · rename_i entry todo hp
    split_ifs at hs with hn <;> cases hs
    · have hspawn : Orderly w (s.spawn ⟨{ plugin := pluginOf entry }, some i, .lock⟩) := by
        refine h.spawn (c := ⟨{ plugin := pluginOf entry }, some i, .lock⟩) h.queue rfl ?_ ?_
        · exact ⟨by simp [Download.owns], by simp, by simp, by simp [Phase.todo]⟩
        · intro k hk
          cases hk
          exact ⟨d, hd, by simp [hp, Phase.todo], by simp [hp]⟩
      refine hspawn.resolves (getElem?_spawn hd _) (by rw [hp]; rfl) rfl (by simp [hp]) (by simp) fun e he => ?_
      rcases mem_cons.mp he with rfl | he
      · exact .inr (.inr (by simp [State.spawn]))
      · exact .inl he
    · refine h.resolves hd (by rw [hp]; rfl) rfl (by simp [hp]) (by simp) fun e he => ?_
      rcases mem_cons.mp he with rfl | he
      · exact .inr (.inl (by simpa using hn))
      · exact .inl he
  · rename_i hp
    cases hs
    exact h.resolves hd (by rw [hp]; rfl) rfl (by simp [hp]) (by simp) fun _ => .inl
  · rename_i hp
    split_ifs at hs with hc
    cases hs
    refine h.resolves hd (by rw [hp]; rfl) rfl (by simp [hp]) (fun _ c hm hparent => ?_) fun _ => .inl
    simpa [hparent] using all_eq_true.mp hc c hm
  · cases hs

theorem step {label} (hs : step w label s = some s') : Orderly w s' := by
  cases label with
  | launch =>
    simp only [Installer.step] at hs
    split at hs
    · cases hs
    · rename_i q queue hq
      cases hs
      have hin : q ∈ w.listed := h.queue q (by simp [hq])
      refine h.spawn (fun p hp => h.queue p (by simp [hq, hp])) (by simp [hq, held, Download.owns]) ?_ (by simp)
      exact ⟨fun _ => .inl hin, by simp, by simp, by simp [Phase.todo]⟩
  | go i answer =>
    obtain ⟨d, hd, hs⟩ := bind_eq_some_iff.mp hs
    exact h.download hd hs

end

theorem of_start {files} (h : start w files = some s) : Orderly w s := by
  obtain ⟨hnodup, hs⟩ := ite_none_right_eq_some.mp h
  cases hs
  exact ⟨List.Perm.refl _, hnodup, fun q hq => mem_append_left _ (mem_map_of_mem hq), fun _ => id,
    by simp, by simp, by simp⟩

theorem goes (h : Orderly w s) (answer : Answer) :
    ∀ (j : Nat) d, s.processes[j]? = some d → d.phase.ended = false →
      ∃ i, (Installer.step w (.go i answer) s).isSome := by
  intro j
  induction hn : s.processes.length - j using Nat.strong_induction_on generalizing j with
  | _ n ih =>
    intro d hd hend
    by_cases hchild : ∃ c ∈ s.processes, c.parent = some j ∧ c.phase.ended = false
    · obtain ⟨c, hc, hparent, hcend⟩ := hchild
      obtain ⟨k, hk⟩ := mem_iff_getElem?.mp hc
      have hlt := (h.tree k c j hk hparent).1
      have hlen := (List.getElem?_eq_some_iff.mp hk).1
      exact ih (s.processes.length - k) (by omega) k rfl c hk hcend
    · refine ⟨j, ?_⟩
      rw [Installer.step, hd]
      exact download_isSome hend fun _ c hc hparent => by grind

theorem owner (h : Orderly w s) (hf : s.finished = true) {x : String}
    (hx : x ∈ s.locks) (hleft : x ∉ w.left) : ∃ d ∈ s.processes, d.owns = true ∧ d.plugin = x := by
  have hq : s.queue = [] := isEmpty_iff.mp (Bool.and_eq_true_iff.mp hf).1
  have hx := h.owned.symm.subset hx
  simp only [hq, held, mem_append, List.mem_map, mem_filter, map_nil, not_mem_nil, hleft, or_false] at hx
  obtain ⟨d, ⟨hd, howns⟩, rfl⟩ := hx
  exact ⟨d, hd, howns, rfl⟩

end Orderly

/-- `git` and `credentials` are listed. The first needs the second and a newer `scm-api`. -/
def sample : Setup where
  versionLT := (· != ·)
  grep := (· == ·)
  installed := [("scm-api", "2.1")]
  left := []
  listed := [⟨"git", "3.9", ""⟩, ⟨"credentials", "2.1", ""⟩]

def sampleStart : State := { locks := ["git", "credentials"], files := ∅, queue := sample.listed }

/-- The archive of `credentials` cannot be had. -/
def sampleLabels : List Label :=
  [.launch, .launch, .go 0 (.fetched ⟨"3.9", true,
      ["credentials:2.0", "scm-api:2.2", "mailer:1.1;resolution:=optional"]⟩), .go 1 (.failed none)] ++
    [0, 0, 0, 0, 0, 2, 3].map (.go · (.failed none)) ++ [.go 3 (.fetched ⟨"2.3", true, []⟩)] ++ [3, 0].map (.go · (.failed none))

theorem start_sample : start sample ∅ = some sampleStart := rfl

section
variable {s0 : State} {files : Table String Archive}

theorem orderly_run (hs : start w files = some s0) (h : Run (step w) (fun _ _ => True) s0 s) : Orderly w s :=
  h.keeps (.of_start hs) fun _ _ _ ht _ hu => ht.step hu

/-- However the downloads interleave, no plugin is in the hands of two processes, and a plugin
of the list is downloaded as it is listed, never as what another plugin depends on. -/
theorem listed_as_given (hs : start w files = some s0) (h : Run (step w) (fun _ _ => True) s0 s) :
    (held s.processes).Nodup ∧
      ∀ d ∈ s.processes, d.owns = true → ∀ q ∈ w.listed, q.plugin = d.plugin → d.toSpec = q := by
  have horderly := orderly_run hs h
  have hnodup : (w.listed.map (·.plugin)).Nodup := (ite_none_right_eq_some.mp hs).1.of_append_left
  refine ⟨horderly.held_nodup, fun d hd howns q hq hp => ?_⟩
  rcases (horderly.right d hd).spec howns with hin | hnone
  · exact inj_on_of_nodup_map hnodup hin hq hp.symm
  · exact absurd hp (hnone q hq)

theorem sample_as_given : ∃ s, Run (step sample) (fun _ _ => True) sampleStart s ∧
    held s.processes = ["git", "credentials", "scm-api"] ∧ (held s.processes).Nodup := by
  have hrun : ∃ s, Run (step sample) (fun _ _ => True) sampleStart s ∧
      held s.processes = ["git", "credentials", "scm-api"] := Run.of_labels sampleLabels (by decide +kernel)
  obtain ⟨s, h, howned⟩ := hrun
  exact ⟨s, h, howned, (listed_as_given start_sample h).1⟩

/-- The script is never stuck: until it has finished there is a process that can go on, or one
to start, even if nothing can be downloaded any more. -/
theorem never_stuck (hs : start w files = some s0) (h : Run (step w) (fun _ _ => True) s0 s)
    (hf : s.finished = false) (answer : Answer) :
    (step w .launch s).isSome ∨ ∃ i, (step w (.go i answer) s).isSome := by
  cases hq : s.queue with
  | cons q queue => exact .inl (by simp [step, hq])
  | nil =>
    obtain ⟨d, hd, -, hend⟩ : ∃ d ∈ s.processes, d.parent = none ∧ d.phase.ended = false := by
      simpa [State.finished, hq] using hf
    obtain ⟨j, hj⟩ := mem_iff_getElem?.mp hd
    exact .inr ((orderly_run hs h).goes answer j d hj hend)

theorem sample_not_stuck : ∃ s, Run (step sample) (fun _ _ => True) sampleStart s ∧ s.finished = false ∧
    s.queue = [] ∧ ∃ i, (step sample (.go i (.failed none)) s).isSome := by
  have hrun : ∃ s, Run (step sample) (fun _ _ => True) sampleStart s ∧ s.finished = false ∧ s.queue = [] :=
    Run.of_labels (sampleLabels.take 9) (by decide +kernel)
  obtain ⟨s, h, hf, hq⟩ := hrun
  refine ⟨s, h, hf, hq, (never_stuck start_sample h hf (.failed none)).resolve_left ?_⟩
  simp [step, hq]

end

end

end KubeYamls.Jenkins.Installer
