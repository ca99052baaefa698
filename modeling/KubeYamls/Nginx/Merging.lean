import KubeYamls.Nginx.Watched
import KubeYamls.Data.Sorting

/-! # Merged hosts follow their minions

The configuration of a master holds the locations of its minions. It is
generated again if the master changes, or through the minion that changes: the
event of a minion leads to the master of the host the minion has now. A minion
that is taken away from a host by an update is forgotten there only if something
else makes the master of that host be synced. -/
namespace KubeYamls.Nginx
open Data Conc Lister Ingress List Option

def Ingress.host (ing : Ingress) : String := (ing.rules.head?.map Rule.host).getD ""

/-- What masters, minions and regular ingresses have to look like to be accepted. -/
def Ingress.isValid (ing : Ingress) : Bool :=
  if ing.isMaster then
    ing.rules.length = 1 ∧ ∀ rule ∈ ing.rules, rule.host ≠ "" ∧ rule.http.getD [] = []
  else if ing.isMinion then
    ing.rules.length = 1 ∧ (∀ rule ∈ ing.rules, rule.host ≠ "" ∧ rule.http.isSome = true) ∧ ing.tls = []
  else (validateRules ing.rules).isOk

def isMinionFor (lbc : LBC) (host : String) (ing : Ingress) : Bool :=
  lbc.isNginxIngress ing && ing.isMinion && ing.host = host

namespace Ingress
variable {ing : Ingress}

theorem isValid_master (h : ing.isValid = true) (hm : ing.isMaster = true) :
    ∃ http, ing.rules = [⟨ing.host, http⟩] ∧ ing.host ≠ "" ∧ http.getD [] = [] := by
  obtain ⟨hlen, hrule⟩ : ing.rules.length = 1 ∧ ∀ rule ∈ ing.rules, rule.host ≠ "" ∧ rule.http.getD [] = [] := by
    simpa [isValid, hm] using h
  obtain ⟨rule, hrules⟩ := length_eq_one_iff.mp hlen
  have hhost : ing.host = rule.host := by simp [host, hrules]
  exact ⟨rule.http, by rw [hrules, hhost], hhost ▸ hrule rule (by simp [hrules])⟩

theorem isValid_minion (h : ing.isValid = true) (hm : ing.isMinion = true) :
    ∃ paths, ing.rules = [⟨ing.host, some paths⟩] ∧ ing.host ≠ "" := by
  have hmaster : ing.isMaster = false := by
    cases hmaster : ing.isMaster with
    | false => rfl
    | true => simp [not_isMinion_of_isMaster hmaster] at hm
  obtain ⟨hlen, hrule, _⟩ : ing.rules.length = 1 ∧
      (∀ rule ∈ ing.rules, rule.host ≠ "" ∧ rule.http.isSome = true) ∧ ing.tls = [] := by
    simpa [isValid, hm, hmaster] using h
  obtain ⟨rule, hrules⟩ := length_eq_one_iff.mp hlen
  obtain ⟨hne, hhttp⟩ := hrule rule (by simp [hrules])
  obtain ⟨paths, hpaths⟩ := isSome_iff_exists.mp hhttp
  have hhost : ing.host = rule.host := by simp [host, hrules]
  exact ⟨paths, by rw [hrules, hhost, ← hpaths], hhost ▸ hne⟩

end Ingress

variable {minion master : Ingress}

section minions
variable {lbc : LBC} {l : Listers} {o : Order} {master : Ingress} {host : String}

theorem createMergableIngresses_of_isValid (hv : master.isValid = true) (hm : master.isMaster = true) :
    createMergableIngresses lbc l o master =
      (getMinionsForMaster lbc l o master.objectMeta master.host).map fun minions =>
        .ok ⟨ingressEx lbc l (emptyPaths master master.host), minions, ⟨_, _, rfl⟩⟩ := by
  obtain ⟨http, hrules, hhost, hpaths⟩ := isValid_master hv hm
  have hok : validateRules (emptyPaths master master.host).rules = .ok () := by
    simp [validateRules, emptyPaths, hhost]
  unfold createMergableIngresses
  split
  · rename_i rule hrule
    obtain rfl : rule = ⟨master.host, http⟩ := by simpa [hrules] using hrule.symm
    simp [hpaths, hok]
  · rename_i hno
    exact absurd hrules (hno _)

theorem addMinion_of_not {ing} (hv : ing.isValid = true) (hno : isMinionFor lbc host ing = false)
    (st : Collected) : addMinion lbc l host st ing = some st := by
  unfold addMinion
  split
  · rename_i hmin
    obtain ⟨hn, hm⟩ := Bool.and_eq_true_iff.mp hmin
    obtain ⟨paths, hrules, _⟩ := isValid_minion hv hm
    have hhost : ing.host ≠ host := by simpa [isMinionFor, hn, hm] using hno
    simp [hrules, hhost]
  · rfl

theorem getMinionsForMaster_eq (hv : ∀ ing ∈ l.ingresses.items, ing.isValid = true) (m : ObjectMeta)
    (host : String) : getMinionsForMaster lbc l o m host =
      ((((o.list (.minionsOf m) l.ingresses.items).filter (isMinionFor lbc host)).insertionSort
        OlderEq).foldlM (addMinion lbc l host) {}).map (·.minions) := by
  unfold getMinionsForMaster
  dsimp only
  rw [foldlM_filter (p := isMinionFor lbc host), filter_insertionSort]
  intro ing hing hno
  have hmem := (o.perm _ _).mem_iff.mp ((mem_insertionSort _).mp hing)
  exact addMinion_of_not (hv ing hmem) hno

theorem exists_order (c : Caller) (p : Ingress → Bool) {items rel}
    (h : rel.Perm (items.filter p)) : ∃ o : Order, (o.list c items).filter p = rel := by
  have hperm : (rel ++ items.filter (!p ·)).Perm items :=
    (h.append_right _).trans (filter_append_perm p items)
  let o : Order :=
    { Order.same with
      list := fun _ l => if l = items then rel ++ items.filter (!p ·) else l
      perm := fun _ l => by
        split
        · rename_i hl
          exact hl ▸ hperm
        · exact .rfl }
  refine ⟨o, ?_⟩
  have hrel : rel.filter p = rel := filter_eq_self.mpr fun a ha =>
    (mem_filter.mp (h.mem_iff.mp ha)).2
  simp [o, hrel]

theorem createMergableIngresses_transfer {items m}
    (hv : ∀ ing ∈ l.ingresses.items, ing.isValid = true) (hv' : ∀ ing ∈ items.items, ing.isValid = true)
    (hmem : master ∈ l.ingresses.items) (hm : master.isMaster = true)
    (hsame : ∀ ing, isMinionFor lbc master.host ing = true → (ing ∈ items.items ↔ ing ∈ l.ingresses.items))
    (h : createMergableIngresses lbc l o master = some (.ok m)) :
    ∃ o', createMergableIngresses lbc { l with ingresses := items } o' master = some (.ok m) := by
  have hperm : ((o.list (.minionsOf master.objectMeta) l.ingresses.items).filter
      (isMinionFor lbc master.host)).Perm (items.items.filter (isMinionFor lbc master.host)) := by
    refine ((o.perm _ _).filter _).trans ?_
    rw [perm_ext_iff_of_nodup (l.ingresses.nodup_items.filter _) (items.nodup_items.filter _)]
    intro ing
    simp only [mem_filter]
    exact ⟨fun ⟨hi, hp⟩ => ⟨(hsame ing hp).mpr hi, hp⟩, fun ⟨hi, hp⟩ => ⟨(hsame ing hp).mp hi, hp⟩⟩
  obtain ⟨o', ho'⟩ := exists_order (.minionsOf master.objectMeta) (isMinionFor lbc master.host) hperm
  refine ⟨o', ?_⟩
  have hvm := hv master hmem
  rw [createMergableIngresses_of_isValid hvm hm, getMinionsForMaster_eq hv] at h
  rw [createMergableIngresses_of_isValid hvm hm, getMinionsForMaster_eq hv', ho']
  exact h

theorem findMaster_error {cnf ings err}
    (h : findMaster lbc cnf minion ings = some (.error err)) (hmem : master ∈ ings)
    (hn : lbc.isNginxIngress master = true) (hc : cnf.hasIngress master = true)
    (hm : master.isMaster = true) : master.host ≠ minion.host := by
  fun_induction findMaster lbc cnf minion ings with
  | case1 => cases hmem
  | case2 => cases h
  | case3 ing rest hcond rule rs rule' rs' hr' hr hhost ih =>
    rcases mem_cons.mp hmem with rfl | hmem
    · simpa [host, hr, hr'] using hhost
    · exact ih h hmem
  | case4 => cases h
  | case5 ing rest hcond ih =>
    rcases mem_cons.mp hmem with rfl | hmem
    · simp [hn, hc, hm] at hcond
    · exact ih h hmem

theorem findMasterForMinion_ok {cnf} (h : findMasterForMinion lbc l o cnf minion = some (.ok master)) :
    master ∈ l.ingresses.items ∧ lbc.isNginxIngress master = true ∧ master.isMaster = true ∧
      master.host = minion.host := by
  obtain ⟨hmem, hn, _, hm, rule, rest, rule', rest', hr, hr', hhost⟩ := findMaster_ok h
  exact ⟨(o.perm _ _).mem_iff.mp hmem, hn, hm, by simpa [host, hr, hr'] using hhost⟩

end minions

section runs
variable (lbc : LBC) (s : State)

structure ConfiguredMaster (master : Ingress) : Prop where
  mem : master ∈ s.listers.ingresses.items
  own : lbc.isNginxIngress master = true
  isMaster : master.isMaster = true
  configured : s.cnf.hasIngress master = true

def IngressNginxConfig.locations (cfg : IngressNginxConfig) : List Location := cfg.servers.flatMap (·.locations)

/-- The locations of every configured master are those that merging it gives now. -/
def Merged : Prop :=
  ∀ master, ConfiguredMaster lbc s master → ∃ g o m,
    s.cnf.generated.lookup master.objectMeta.fileName = some g ∧
    createMergableIngresses lbc s.listers o master = some (.ok m) ∧
    (g.nginxCfg lbc.isNginxPlus).locations =
      ((Resource.mergeable m).nginxCfg lbc.isNginxPlus s.cnf.config).locations

def ValidEvent : Label → Prop
  | .ingress c _ => ∀ ing ∈ c.entering.toList, ing.isValid = true ∧
      (∀ old ∈ s.listers.ingresses.items, old.objectMeta = ing.objectMeta →
        old.annotated ingressClassKey = ing.annotated ingressClassKey) ∧
      (lbc.isNginxIngress ing = true → ing.isMaster = true → ∀ other ∈ s.listers.ingresses.items,
        lbc.isNginxIngress other = true → other.isMaster = true → other.host = ing.host →
        other.objectMeta = ing.objectMeta)
  | _ => True

/-- The configuration of a master is about to be generated, without the help of one ingress. -/
def PendingWithout (m : ObjectMeta) (master : Ingress) : Prop :=
  ⟨.ingress, master.objectMeta.key⟩ ∈ s.queue ∨ ∃ minion ∈ s.listers.ingresses.items, minion.objectMeta ≠ m ∧
      isMinionFor lbc master.host minion = true ∧ ⟨.ingressMinion, minion.objectMeta.key⟩ ∈ s.queue

/-- The ingress of an event has a file name of its own, and if it was a minion of a configured master
it stays one, or the master is about to be generated anyway. -/
def KeepsMinions : Label → Prop
  | .ingress c _ => ∀ ing ∈ c.entering.toList, (∀ other ∈ s.listers.ingresses.items,
        other.objectMeta.fileName = ing.objectMeta.fileName → other.objectMeta = ing.objectMeta) ∧
      ∀ old ∈ s.listers.ingresses.items, old.objectMeta = ing.objectMeta →
        ∀ master ∈ s.listers.ingresses.items, lbc.isNginxIngress master = true → master.isMaster = true →
          s.cnf.hasIngress master = true → isMinionFor lbc master.host old = true →
          isMinionFor lbc master.host ing = true ∨ PendingWithout lbc s ing.objectMeta master
  | _ => True

instance : DecidablePred (ValidEvent lbc s)
  | .ingress _ _ => inferInstanceAs (Decidable (∀ ing ∈ _, _ ∧ _ ∧ _))
  | .service _ _ | .endpoints _ | .secret _ | .configMap _ _ | .sync _ | .wake _ => .isTrue trivial

instance (m : ObjectMeta) (master : Ingress) : Decidable (PendingWithout lbc s m master) :=
  inferInstanceAs (Decidable (_ ∨ ∃ minion ∈ _, _))

instance : DecidablePred (KeepsMinions lbc s)
  | .ingress _ _ => inferInstanceAs (Decidable (∀ ing ∈ _, _ ∧ _))
  | .service _ _ | .endpoints _ | .secret _ | .configMap _ _ | .sync _ | .wake _ => .isTrue trivial

def Fresh (master : Ingress) : Prop :=
  ∃ o m, createMergableIngresses lbc s.listers o master = some (.ok m) ∧
    s.cnf.generated.lookup master.objectMeta.fileName = some ⟨.mergeable m, s.cnf.config⟩

/-- A task is queued that leads to its generation: for the master or for one of its minions. -/
def Pending (master : Ingress) : Prop :=
  ⟨.ingress, master.objectMeta.key⟩ ∈ s.queue ∨
    ∃ minion ∈ s.listers.ingresses.items, isMinionFor lbc master.host minion = true ∧
      ⟨.ingressMinion, minion.objectMeta.key⟩ ∈ s.queue

/-- The configuration is up to date, or about to be. -/
def Awaits (master : Ingress) : Prop := Fresh lbc s master ∨ Pending lbc s master

/-- What the lister is like: valid ingresses, one master for a host, and file names of their own. -/
structure WellMerged (items : Lister Ingress objectMeta) : Prop where
  valid : ∀ ing ∈ items.items, ing.isValid = true
  hosts : ∀ ing ∈ items.items, ∀ ing' ∈ items.items, lbc.isNginxIngress ing = true → ing.isMaster = true →
    lbc.isNginxIngress ing' = true → ing'.isMaster = true → ing.host = ing'.host → ing = ing'
  files : ∀ ing ∈ items.items, ∀ ing' ∈ items.items,
    ing.objectMeta.fileName = ing'.objectMeta.fileName → ing = ing'

/-- Between the events: what is not up to date is about to be generated. -/
structure Merging : Prop where
  kinds : s.OnlyKinds [.ingress, .ingressMinion]
  lister : WellMerged lbc s.listers.ingresses
  masters : ∀ master, ConfiguredMaster lbc s master → Awaits lbc s master

end runs

namespace WellMerged
variable {lbc : LBC} {items : Lister Ingress objectMeta}

theorem put (h : WellMerged lbc items) {ing} (hv : ing.isValid = true)
    (hhost : lbc.isNginxIngress ing = true → ing.isMaster = true → ∀ other ∈ items.items,
      lbc.isNginxIngress other = true → other.isMaster = true → other.host = ing.host →
      other.objectMeta = ing.objectMeta) (hfile : ∀ other ∈ items.items,
      other.objectMeta.fileName = ing.objectMeta.fileName → other.objectMeta = ing.objectMeta) :
    WellMerged lbc (items.put ing) where
  valid a ha := by
    rcases mem_put.mp ha with rfl | ⟨_, ha⟩
    · exact hv
    · exact h.valid a ha
  hosts a ha b hb hna hma hnb hmb hab := by
    rcases mem_put.mp ha with rfl | ⟨hka, ha'⟩ <;> rcases mem_put.mp hb with rfl | ⟨hkb, hb'⟩
    · rfl
    · exact absurd (congrArg ObjectMeta.key (hhost hna hma b hb' hnb hmb hab.symm)) hkb
    · exact absurd (congrArg ObjectMeta.key (hhost hnb hmb a ha' hna hma hab)) hka
    · exact h.hosts a ha' b hb' hna hma hnb hmb hab
  files a ha b hb hab := by
    rcases mem_put.mp ha with rfl | ⟨hka, ha'⟩ <;> rcases mem_put.mp hb with rfl | ⟨hkb, hb'⟩
    · rfl
    · exact absurd (congrArg ObjectMeta.key (hfile b hb' hab.symm)) hkb
    · exact absurd (congrArg ObjectMeta.key (hfile a ha' hab)) hka
    · exact h.files a ha' b hb' hab

theorem remove (h : WellMerged lbc items) (m : ObjectMeta) : WellMerged lbc (items.remove m) where
  valid a ha := h.valid a (mem_remove.mp ha).2
  hosts a ha b hb := h.hosts a (mem_remove.mp ha).2 b (mem_remove.mp hb).2
  files a ha b hb := h.files a (mem_remove.mp ha).2 b (mem_remove.mp hb).2

end WellMerged

namespace Merging
variable {lbc : LBC} {o : Order} {s s' : State}

theorem merged (h : Merging lbc s) (hq : s.queue = []) : Merged lbc s := by
  intro master hmaster
  rcases h.masters master hmaster with ⟨o, m, hm, hgen⟩ | hpending
  · exact ⟨_, o, m, hgen, hm, rfl⟩
  · simp [Pending, hq] at hpending

theorem of_empty (hempty : s.listers.ingresses.items = []) (hq : s.queue = []) (hd : s.delayed = []) :
    Merging lbc s where
  kinds := .of_nil hq hd
  lister := ⟨by simp [hempty], by simp [hempty], by simp [hempty]⟩
  masters master hmaster := by simpa [hempty] using hmaster.mem

theorem awaits_enqueue (h : Awaits lbc s master) (t : Task) : Awaits lbc (s.enqueue t) master := by
  simp only [Awaits, Fresh, Pending, State.mem_enqueue, State.enqueue_listers, State.enqueue_cnf]
  rcases h with hfresh | hin | ⟨minion, hmem, hfor, hin⟩
  · exact .inl hfresh
  · exact .inr (.inl (.inl hin))
  · exact .inr (.inr ⟨minion, hmem, hfor, .inl hin⟩)

theorem kind_task (ing : Ingress) : ing.task.kind ∈ [Kind.ingress, .ingressMinion] := by
  cases hm : ing.isMinion <;> simp [task, hm]

theorem enqueue (h : Merging lbc s) {t} (hkind : t.kind ∈ [Kind.ingress, .ingressMinion]) :
    Merging lbc (s.enqueue t) where
  kinds := h.kinds.enqueue hkind
  lister := by simpa using h.lister
  masters master hmaster := awaits_enqueue (h.masters master ⟨by simpa using hmaster.mem, hmaster.own,
    hmaster.isMaster, by simpa using hmaster.configured⟩) t

theorem transfer (h : Merging lbc s) {items}
    (hitems : WellMerged lbc items) (hsame : ∀ ing, isMinionFor lbc master.host ing = true →
      (ing ∈ items.items ↔ ing ∈ s.listers.ingresses.items))
    (hmaster : ConfiguredMaster lbc s master) : Awaits lbc (s.withIngresses items) master := by
  rcases h.masters master hmaster with ⟨o, m, hm, hgen⟩ | hin | ⟨minion, hmem, hfor, hin⟩
  · obtain ⟨o', ho'⟩ := createMergableIngresses_transfer h.lister.valid hitems.valid hmaster.mem
      hmaster.isMaster hsame hm
    exact .inl ⟨o', m, ho', hgen⟩
  · exact .inr (.inl hin)
  · exact .inr (.inr ⟨minion, (hsame minion hfor).mpr hmem, hfor, hin⟩)

theorem put_other (h : Merging lbc s) {c ing}
    (hing : ing ∈ c.entering.toList) (hitems : WellMerged lbc (s.listers.ingresses.put ing))
    (hkeep : KeepsMinions lbc s (.ingress c o)) (hnot : isMinionFor lbc master.host ing = false)
    (hmaster : ConfiguredMaster lbc s master) :
    Awaits lbc (s.withIngresses (s.listers.ingresses.put ing)) master := by
  by_cases hwas : ∃ old ∈ s.listers.ingresses.items, old.objectMeta = ing.objectMeta ∧
      isMinionFor lbc master.host old = true
  · obtain ⟨old, hold, hmeta, hfor⟩ := hwas
    have hpending := (hkeep ing hing).2 old hold hmeta master hmaster.mem hmaster.own hmaster.isMaster
      hmaster.configured hfor
    rcases hpending.resolve_left (by simp [hnot]) with hin | ⟨minion, hmem, hne, hfor, hin⟩
    · exact .inr (.inl hin)
    · exact .inr (.inr ⟨minion, mem_put.mpr (.inr ⟨mt ObjectMeta.key_inj.mp hne, hmem⟩), hfor, hin⟩)
  · refine h.transfer hitems (fun a ha => ?_) hmaster
    rw [mem_put]
    constructor
    · intro hmem
      exact (hmem.resolve_left fun he => by simp [he, hnot] at ha).2
    · intro hmem
      exact .inr ⟨fun hkey => hwas ⟨a, hmem, ObjectMeta.key_inj.mp hkey, ha⟩, hmem⟩

section put
variable {c : Change Ingress} {ing : Ingress}

section
variable (h : Merging lbc s) (hing : ing ∈ c.entering.toList)
include h hing

theorem lister_put (hvalid : ValidEvent lbc s (.ingress c o)) (hkeep : KeepsMinions lbc s (.ingress c o)) :
    WellMerged lbc (s.listers.ingresses.put ing) :=
  h.lister.put (hvalid ing hing).1 (hvalid ing hing).2.2 (hkeep ing hing).1

theorem put_enqueue (hvalid : ValidEvent lbc s (.ingress c o)) (hkeep : KeepsMinions lbc s (.ingress c o)) :
    Merging lbc ((s.withIngresses (s.listers.ingresses.put ing)).enqueue ing.task) where
  kinds := State.OnlyTasks.enqueue (s := s.withIngresses _) h.kinds (kind_task ing)
  lister := by
    rw [State.enqueue_listers]
    exact h.lister_put hing hvalid hkeep
  masters master hmaster := by
    have hmem : master ∈ (s.listers.ingresses.put ing).items := by simpa using hmaster.mem
    have hconf : s.cnf.hasIngress master = true := by simpa using hmaster.configured
    rcases mem_put.mp hmem with rfl | ⟨_, hold⟩
    · refine .inr (.inl ?_)
      simp [task, not_isMinion_of_isMaster hmaster.isMaster]
    · cases hfor : isMinionFor lbc master.host ing with
      | true =>
        have hm : ing.isMinion = true := by
          simp only [isMinionFor, Bool.and_eq_true] at hfor
          exact hfor.1.2
        refine .inr (.inr ⟨ing, ?_, hfor, by simp [task, hm]⟩)
        rw [State.enqueue_listers]
        exact mem_put.mpr (.inl rfl)
      | false =>
        exact awaits_enqueue (h.put_other hing (h.lister_put hing hvalid hkeep) hkeep hfor
          ⟨hold, hmaster.own, hmaster.isMaster, hconf⟩) _

theorem put_foreign (hn : lbc.isNginxIngress ing = false)
    (hvalid : ValidEvent lbc s (.ingress c o)) (hkeep : KeepsMinions lbc s (.ingress c o)) :
    Merging lbc (s.withIngresses (s.listers.ingresses.put ing)) where
  kinds := h.kinds
  lister := h.lister_put hing hvalid hkeep
  masters master hmaster := by
    rcases mem_put.mp hmaster.mem with rfl | ⟨_, hold⟩
    · exact absurd hmaster.own (by simp [hn])
    · exact h.put_other hing (h.lister_put hing hvalid hkeep) hkeep (by simp [isMinionFor, hn])
        ⟨hold, hmaster.own, hmaster.isMaster, hmaster.configured⟩

theorem put_same (hold : ing ∈ s.listers.ingresses.items)
    (hvalid : ValidEvent lbc s (.ingress c o)) (hkeep : KeepsMinions lbc s (.ingress c o)) :
    Merging lbc (s.withIngresses (s.listers.ingresses.put ing)) := by
  exact ⟨h.kinds, h.lister_put hing hvalid hkeep, fun master hmaster =>
    h.transfer (h.lister_put hing hvalid hkeep) (fun a _ => mem_put_of_mem hold)
      ⟨(mem_put_of_mem hold).mp hmaster.mem, hmaster.own, hmaster.isMaster, hmaster.configured⟩⟩

end

end put

theorem remove (h : Merging lbc s) {m old} (hold : s.listers.ingresses.get m.key = some old)
    (hnot : ∀ master, ConfiguredMaster lbc (s.withIngresses (s.listers.ingresses.remove m)) master →
      isMinionFor lbc master.host old = true →
      Awaits lbc (s.withIngresses (s.listers.ingresses.remove m)) master) :
    Merging lbc (s.withIngresses (s.listers.ingresses.remove m)) where
  kinds := h.kinds
  lister := h.lister.remove m
  masters master hmaster := by
    cases hfor : isMinionFor lbc master.host old with
    | true => exact hnot master hmaster hfor
    | false =>
      refine h.transfer (h.lister.remove m) (fun a ha => ?_)
        ⟨(mem_remove.mp hmaster.mem).2, hmaster.own, hmaster.isMaster, hmaster.configured⟩
      rw [mem_remove]
      refine ⟨And.right, fun hmem => ⟨fun hkey => ?_, hmem⟩⟩
      obtain rfl : a = old := some.inj ((mem_items.mp hmem).symm.trans (hkey ▸ hold))
      simp [hfor] at ha

variable {ts : List Task}

theorem awaits_tail {t} (h : Awaits lbc s master) (hq : s.queue = t :: ts) :
    Awaits lbc { s with queue := ts } master ∨ t = ⟨.ingress, master.objectMeta.key⟩ ∨
      ∃ minion ∈ s.listers.ingresses.items, isMinionFor lbc master.host minion = true ∧
        t = ⟨.ingressMinion, minion.objectMeta.key⟩ := by
  rcases h with hfresh | hin | ⟨minion, hmem, hfor, hin⟩
  · exact .inl (.inl hfresh)
  · rcases mem_cons.mp (hq ▸ hin) with rfl | hin
    · exact .inr (.inl rfl)
    · exact .inl (.inr (.inl hin))
  · rcases mem_cons.mp (hq ▸ hin) with rfl | hin
    · exact .inr (.inr ⟨minion, hmem, hfor, rfl⟩)
    · exact .inl (.inr (.inr ⟨minion, hmem, hfor, hin⟩))

theorem awaits_configure {cnf} (h : Awaits lbc s master)
    (hgen : cnf.generated.lookup master.objectMeta.fileName = s.cnf.generated.lookup master.objectMeta.fileName)
    (hconfig : cnf.config = s.cnf.config) : Awaits lbc { s with cnf := cnf } master := by
  rcases h with ⟨o, m, hm, hfresh⟩ | hpending
  · exact .inl ⟨o, m, hm, by rw [hgen, hfresh, hconfig]⟩
  · exact .inr hpending

theorem syncIng (h : Merging lbc s) {key} (hq : s.queue = ⟨.ingress, key⟩ :: ts)
    (hs : Nginx.syncIng lbc o { s with queue := ts } key = some s') : Merging lbc s' := by
  -- a master with another key does not wait for the task
  have htail : ∀ master, ConfiguredMaster lbc s master → master.objectMeta.key ≠ key →
      Awaits lbc { s with queue := ts } master := by
    intro master hmaster hne
    rcases awaits_tail (h.masters master hmaster) hq with h | h | ⟨minion, _, _, h⟩
    · exact h
    · exact absurd (congrArg Task.key h).symm hne
    · cases h
  obtain ⟨hnone, v, rfl⟩ | ⟨ing, hget, hcase⟩ := syncIng_cases hs
  · refine ⟨h.kinds.tail hq, h.lister, fun master hmaster => ?_⟩
    obtain ⟨hfile, hconf⟩ := Configurator.hasIngress_of_forget hmaster.configured
    have hkey : master.objectMeta.key ≠ key := by
      rintro rfl
      exact absurd (mem_items.mp hmaster.mem) (by simp [hnone])
    exact awaits_configure (htail master ⟨hmaster.mem, hmaster.own, hmaster.isMaster, hconf⟩ hkey)
      (AList.lookup_erase_ne hfile) rfl
  · have hkey : ing.objectMeta.key = key := s.listers.ingresses.keyed key ing hget
    have hmem : ing ∈ s.listers.ingresses.items := mem_items.mpr (hkey ▸ hget)
    have hother : ∀ master ∈ s.listers.ingresses.items, master ≠ ing → master.objectMeta.key ≠ key :=
      fun master hm hne he => hne (eq_of_key hm hmem (he.trans hkey.symm))
    rcases hcase with ⟨r, v, hr, rfl⟩ | ⟨err, hr, rfl⟩
    · refine ⟨h.kinds.tail hq, h.lister, fun master hmaster => ?_⟩
      have hname : r.name = ing.objectMeta.fileName := by rw [Resource.name, resourceOf_objectMeta hr]
      by_cases hing : master = ing
      · -- the master that is synced
        subst hing
        obtain ⟨res, hres, hr⟩ : ∃ res, createMergableIngresses lbc s.listers o master = some res ∧
            res.map Resource.mergeable = .ok r := by
          simpa [resourceOf, hmaster.isMaster] using hr
        obtain ⟨m, rfl, rfl⟩ := map_eq_ok.mp hr
        refine .inl ⟨o, m, hres, ?_⟩
        simp only [Configurator.regenerate_generated, Configurator.regenerate_config]
        rw [← hname, AList.lookup_insert]
      · have hfile : master.objectMeta.fileName ≠ r.name := by
          rw [hname]
          exact mt (h.lister.files master hmaster.mem ing hmem) hing
        have hconf := (Configurator.regenerate_hasIngress hfile).symm.trans hmaster.configured
        refine awaits_configure (htail master ⟨hmaster.mem, hmaster.own, hmaster.isMaster, hconf⟩
          (hother master hmaster.mem hing)) ?_ Configurator.regenerate_config
        simp [AList.lookup_insert_ne hfile]
    · cases hm : ing.isMaster with
      | true =>
        -- a valid master is accepted
        simp [resourceOf, hm, createMergableIngresses_of_isValid (h.lister.valid ing hmem) hm, Except.map] at hr
      | false =>
        refine ⟨h.kinds.tail hq, h.lister, fun master hmaster => ?_⟩
        have hne : master ≠ ing := fun he => by simpa [he, hm] using hmaster.isMaster
        exact htail master ⟨hmaster.mem, hmaster.own, hmaster.isMaster, hmaster.configured⟩
          (hother master hmaster.mem hne)

theorem tail (h : Merging lbc s) {key} (hq : s.queue = ⟨.ingressMinion, key⟩ :: ts)
    (hl : s'.listers = s.listers) (hcnf : s'.cnf = s.cnf)
    (hkinds : s'.OnlyKinds [.ingress, .ingressMinion]) (hqueue : ∀ t ∈ ts, t ∈ s'.queue)
    (hmaster : ∀ master, ConfiguredMaster lbc s master → ∀ minion, s.listers.ingresses.get key = some minion →
      isMinionFor lbc master.host minion = true → ⟨.ingress, master.objectMeta.key⟩ ∈ s'.queue) :
    Merging lbc s' := by
  refine ⟨hkinds, hl ▸ h.lister, fun master hm => ?_⟩
  have hm' : ConfiguredMaster lbc s master := ⟨hl ▸ hm.mem, hm.own, hm.isMaster, hcnf ▸ hm.configured⟩
  unfold Awaits Fresh Pending
  rw [hl, hcnf]
  rcases awaits_tail (h.masters master hm') hq with (hfresh | hin | ⟨minion, hmem, hfor, hin⟩) | he |
    ⟨minion, hmem, hfor, he⟩
  · exact .inl hfresh
  · exact .inr (.inl (hqueue _ hin))
  · exact .inr (.inr ⟨minion, hmem, hfor, hqueue _ hin⟩)
  · cases he
  · obtain rfl : key = minion.objectMeta.key := congrArg Task.key he
    exact .inr (.inl (hmaster master hm' minion (mem_items.mp hmem) hfor))

theorem eq_of_found (h : WellMerged lbc s.listers.ingresses) {found}
    (hfound : findMasterForMinion lbc s.listers o s.cnf minion = some (.ok found))
    (hmaster : ConfiguredMaster lbc s master) (hfor : isMinionFor lbc master.host minion = true) :
    found = master := by
  obtain ⟨hmem, hn, hm, hhost⟩ := findMasterForMinion_ok hfound
  have hhost' : minion.host = master.host := by
    simp only [isMinionFor, Bool.and_eq_true, decide_eq_true_eq] at hfor
    exact hfor.2
  exact h.hosts found hmem master hmaster.mem hn hm hmaster.own hmaster.isMaster (hhost.trans hhost')

theorem not_error {err} (herr : findMasterForMinion lbc s.listers o s.cnf minion = some (.error err))
    (hmaster : ConfiguredMaster lbc s master) : isMinionFor lbc master.host minion = false := by
  have hne := findMaster_error herr ((o.perm _ _).mem_iff.mpr hmaster.mem) hmaster.own hmaster.configured
    hmaster.isMaster
  simp [isMinionFor, Ne.symm hne]

theorem task_of_isMaster (h : master.isMaster = true) : master.task = ⟨.ingress, master.objectMeta.key⟩ := by
  simp [task, not_isMinion_of_isMaster h]

theorem createIngress_of_isMinion (hv : minion.isValid = true) (hm : minion.isMinion = true)
    (l : Listers) : (createIngress lbc l minion).isOk = true := by
  obtain ⟨paths, hrules, hhost⟩ := isValid_minion hv hm
  simp [createIngress, validateRules, hrules, hhost, Except.map, Except.isOk, Except.toBool]

theorem syncIngMinion (h : Merging lbc s) {key} (hq : s.queue = ⟨.ingressMinion, key⟩ :: ts)
    (hs : Nginx.syncIngMinion lbc o { s with queue := ts } key = some s') : Merging lbc s' := by
  have hkinds := h.kinds.tail hq
  have hlater := hkinds.requeueAfter (t := ⟨.ingressMinion, key⟩) (by simp)
  obtain ⟨hnone, rfl⟩ | ⟨minion, hget, hcase⟩ := syncIngMinion_cases hs
  · exact h.tail hq rfl rfl hkinds (fun _ ht => ht) fun master _ minion hget => by simp [hget] at hnone
  · have hone : ∀ minion', s.listers.ingresses.get key = some minion' → minion' = minion :=
      fun minion' hget' => some.inj (hget'.symm.trans hget)
    have hmem : minion ∈ s.listers.ingresses.items :=
      mem_items.mpr (s.listers.ingresses.keyed key minion hget ▸ hget)
    rcases hcase with ⟨err, herr, rfl⟩ | ⟨found, hfound, ⟨_, rfl⟩ | ⟨hbad, hcase⟩⟩
    · refine h.tail hq rfl rfl hlater (fun _ ht => ht) fun master hmaster minion' hget' hfor => ?_
      rw [hone minion' hget', not_error (s := s) herr hmaster] at hfor
      cases hfor
    · refine h.tail hq (by simp) (by simp) (hkinds.enqueue (kind_task found)) (by simp +contextual)
        fun master hmaster minion' hget' hfor => ?_
      obtain rfl := eq_of_found h.lister hfound hmaster (hone minion' hget' ▸ hfor)
      simp [task_of_isMaster hmaster.isMaster]
    · -- a valid minion is accepted, so that no master waits for this one
      have hno : ∀ host minion', s.listers.ingresses.get key = some minion' →
          isMinionFor lbc host minion' = false := by
        intro host minion' hget'
        obtain rfl := hone minion' hget'
        cases hm : minion'.isMinion with
        | false => simp [isMinionFor, hm]
        | true => simp [createIngress_of_isMinion (h.lister.valid minion' hmem) hm] at hbad
      rcases hcase with rfl | rfl
      · exact h.tail hq rfl rfl hlater (fun _ ht => ht) fun master _ minion' hget' hfor => by
          simp [hno _ minion' hget'] at hfor
      · exact h.tail hq (by simp [State.requeueAfter]) (by simp [State.requeueAfter])
          (hlater.enqueue (kind_task found)) (by simp +contextual [State.requeueAfter])
          fun master _ minion' hget' hfor => by simp [hno _ minion' hget'] at hfor

theorem delete (h : Merging lbc s) {m unknown old} (hold : s.listers.ingresses.get m.key = some old)
    (hd : ingressHandler lbc o (s.withIngresses (s.listers.ingresses.remove m)) (some old)
      (.delete m unknown) = some s') : Merging lbc s' := by
  obtain ⟨hn, rfl⟩ | ⟨_, _, ⟨err, herr, rfl⟩ | ⟨found, hfound, rfl⟩⟩ | ⟨_, hm, rfl⟩ := ingressHandler_delete hd
  · exact h.remove hold fun master _ hfor => by simp [isMinionFor, hn] at hfor
  · exact h.remove hold fun master hmaster hfor => by simp [not_error herr hmaster] at hfor
  · rw [State.enqueue_withIngresses, ← State.enqueue_listers s found.task]
    refine (h.enqueue (kind_task found)).remove (by simpa using hold) fun master hmaster hfor => ?_
    have hmaster' : ConfiguredMaster lbc (s.withIngresses (s.listers.ingresses.remove m)) master :=
      ⟨by simpa using hmaster.mem, hmaster.own, hmaster.isMaster, by simpa using hmaster.configured⟩
    obtain rfl := eq_of_found (h.lister.remove m) hfound hmaster' hfor
    exact .inr (.inl (by simp [task_of_isMaster hmaster.isMaster]))
  · have hremove := h.remove hold fun master _ hfor => by simp [isMinionFor, hm] at hfor
    split
    · exact hremove
    · exact hremove.enqueue (kind_task old)

theorem step (h : Merging lbc s) {l} (hl : IngressEvent l) (hvalid : ValidEvent lbc s l)
    (hkeep : KeepsMinions lbc s l) (hs : Nginx.step lbc l s = some s') : Merging lbc s' := by
  cases l with
  | ingress c o =>
    obtain ⟨ing, rfl, _, rfl⟩ | ⟨cur, others, old, rfl, hold, rfl⟩ | ⟨m, unknown, old, rfl, hold, hd⟩ :=
      step_ingress_cases hs
    · have hing : ing ∈ (Change.add ing).entering.toList := by simp [Change.entering]
      split
      · rename_i hn
        exact h.put_enqueue hing hvalid hkeep
      · rename_i hn
        exact h.put_foreign hing (by simpa using hn) hvalid hkeep
    · have hing : cur ∈ (Change.update cur others).entering.toList := by simp [Change.entering]
      split
      · rename_i hn
        exact h.put_enqueue hing hvalid hkeep
      · rename_i hn
        cases hcur : lbc.isNginxIngress cur with
        | false => exact h.put_foreign hing hcur hvalid hkeep
        | true =>
          obtain rfl : old = cur := by
            by_contra hne
            exact hn ⟨hcur, .inr hne⟩
          exact h.put_same hing (mem_items.mpr hold) hvalid hkeep
    · exact h.delete hold hd
  | sync o =>
    obtain ⟨⟨kind, key⟩, ts, hq, hs⟩ := step_sync_cases hs
    have hkind := h.kinds.head hq
    simp only [mem_cons, not_mem_nil, or_false] at hkind
    rcases hkind with rfl | rfl
    · exact h.syncIng hq hs
    · exact h.syncIngMinion hq hs
  | wake t =>
    obtain ⟨hd, rfl⟩ := step_wake_cases hs
    refine ⟨h.kinds.wake hd, by simpa using h.lister, fun master hmaster => ?_⟩
    exact awaits_enqueue (s := { s with delayed := s.delayed.erase t }) (h.masters master ⟨by simpa using hmaster.mem,
      hmaster.own, hmaster.isMaster, by simpa using hmaster.configured⟩) t
  | service | endpoints | secret | configMap => exact hl.elim

end Merging

/-- Once the queue is empty, every configured master has the locations of its current minions. -/
theorem merged_once_synced (lbc : LBC) {s0 s : State} (h0 : s0.listers.ingresses.items = [])
    (hq0 : s0.queue = []) (hd0 : s0.delayed = [])
    (h : Run (step lbc) (fun s l => (IngressEvent l ∧ ValidEvent lbc s l) ∧ KeepsMinions lbc s l) s0 s)
    (hq : s.queue = []) : Merged lbc s := by
  have hmerging := h.keeps (Merging.of_empty h0 hq0 hd0) fun _ _ _ hm hC hs => hm.step hC.1.1 hC.1.2 hC.2 hs
  exact hmerging.merged hq

def generatedPaths (isPlus : Bool) (s : State) (m : ObjectMeta) : List String :=
  (s.cnf.generated.lookup m.fileName).toList.flatMap fun g => (g.nginxCfg isPlus).locations.map (·.path)

theorem merged_shop : ∃ s, s.queue = [] ∧ generatedPaths false s shopMaster.objectMeta = ["/cart", "/pay"] ∧
    Merged (plainLBC false) s := by
  obtain ⟨s, hs, hq, hpaths⟩ : ∃ s, Run (step (plainLBC false))
      (fun s l => (IngressEvent l ∧ ValidEvent (plainLBC false) s l) ∧ KeepsMinions (plainLBC false) s l) started s ∧
      s.queue = [] ∧ generatedPaths false s shopMaster.objectMeta = ["/cart", "/pay"] :=
    Run.of_labels [.ingress (.add shopMaster) .same, .sync .same, .ingress (.add shopMinion) .same, .sync .same,
      .sync .same, .ingress (.update { shopMinion with rules := [⟨"shop.example.com",
        some [⟨"/cart", "cart-svc", .int 80⟩, ⟨"/pay", "pay-svc", .int 80⟩]⟩] } false) .same,
      .sync .same, .sync .same] (by decide +kernel)
  exact ⟨s, hq, hpaths, merged_once_synced (plainLBC false) rfl rfl rfl hs hq⟩

theorem not_merged {lbc s} (hmaster : ConfiguredMaster lbc s master)
    (hv : ∀ ing ∈ s.listers.ingresses.items, ing.isValid = true)
    (hno : s.listers.ingresses.items.filter (isMinionFor lbc master.host) = [])
    (hpaths : generatedPaths lbc.isNginxPlus s master.objectMeta ≠ []) : ¬Merged lbc s := by
  intro hmerged
  obtain ⟨g, o, m, hgen, hm, hloc⟩ := hmerged master hmaster
  have hnone : (o.list (.minionsOf master.objectMeta) s.listers.ingresses.items).filter
      (isMinionFor lbc master.host) = [] :=
    perm_nil.mp (hno ▸ (o.perm _ _).filter _)
  rw [createMergableIngresses_of_isValid (hv master hmaster.mem) hmaster.isMaster, getMinionsForMaster_eq hv,
    hnone] at hm
  obtain rfl : _ = m := Except.ok.inj (some.inj hm)
  have hempty : (g.nginxCfg lbc.isNginxPlus).locations = [] := hloc
  simp [generatedPaths, hgen, hempty] at hpaths

/-- A minion that is moved to another host, or turned into a regular ingress: its location stays
where it was. -/
theorem moved_minion_stays_merged :
    (∃ s, Run (step (plainLBC false)) (fun s l => IngressEvent l ∧ ValidEvent (plainLBC false) s l) started s ∧
      s.queue = [] ∧ { shopMinion with rules := [⟨"cart.example.com", some [⟨"/cart", "cart-svc", .int 80⟩]⟩] } ∈
        s.listers.ingresses.items ∧ ¬Merged (plainLBC false) s) ∧
    ∃ s, Run (step (plainLBC false)) (fun s l => IngressEvent l ∧ ValidEvent (plainLBC false) s l) started s ∧
      s.queue = [] ∧ { shopMinion with annotations := [] } ∈ s.listers.ingresses.items ∧
      ¬Merged (plainLBC false) s := by
  suffices hstays : ∀ minion ∈
      [{ shopMinion with rules := [⟨"cart.example.com", some [⟨"/cart", "cart-svc", .int 80⟩]⟩] },
        { shopMinion with annotations := [] }],
      ∃ s, Run (step (plainLBC false)) (fun s l => IngressEvent l ∧ ValidEvent (plainLBC false) s l) started s ∧
        s.queue = [] ∧ minion ∈ s.listers.ingresses.items ∧ ¬Merged (plainLBC false) s from
    ⟨hstays _ mem_cons_self, hstays _ (mem_cons_of_mem _ mem_cons_self)⟩
  intro minion hminion
  obtain ⟨s, hs, hq, hmem, hmaster, hconf, hv, hno, hpaths⟩ : ∃ s, Run (step (plainLBC false))
      (fun s l => IngressEvent l ∧ ValidEvent (plainLBC false) s l) started s ∧
      s.queue = [] ∧ minion ∈ s.listers.ingresses.items ∧ shopMaster ∈ s.listers.ingresses.items ∧
      s.cnf.hasIngress shopMaster = true ∧ (∀ ing ∈ s.listers.ingresses.items, ing.isValid = true) ∧
      s.listers.ingresses.items.filter (isMinionFor (plainLBC false) shopMaster.host) = [] ∧
      generatedPaths false s shopMaster.objectMeta = ["/cart"] := by
    refine Run.of_labels [.ingress (.add shopMaster) .same, .sync .same, .ingress (.add shopMinion) .same,
      .sync .same, .sync .same, .ingress (.update minion false) .same, .sync .same] ?_
    revert minion
    simp only [forall_mem_cons, not_mem_nil, false_imp_iff, implies_true, and_true]
    decide +kernel
  exact ⟨s, hs, hq, hmem, not_merged ⟨hmaster, by decide +kernel, by decide +kernel, hconf⟩ hv hno
    (by simp [plainLBC, LBC.isNginxPlus, hpaths])⟩

end KubeYamls.Nginx
