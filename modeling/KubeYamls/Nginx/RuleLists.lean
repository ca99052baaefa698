import KubeYamls.Nginx.Certificates

/-! # Ingresses without rules

The rules of masters and minions are indexed before their number is looked at.
Nothing is indexed out of range as long as every ingress that comes without rules
is neither a master nor a minion of this controller, and no task still takes it
for a minion. Where that is so, one crash is left: the sync of a secret uses an
ingress that was configured once and is not accepted any more. -/
namespace KubeYamls.Nginx
open Data Conc List Option

variable (lbc : LBC)

def HaveRules (items : Lister Ingress Ingress.objectMeta) : Prop :=
  ∀ ing ∈ items.items, lbc.isNginxIngress ing = true → (ing.isMaster = true ∨ ing.isMinion = true) → ing.rules ≠ []

/-- What is indexed in a state is there: by the calls of `createMergableIngresses` and
`generateNginxCfgForMergeableIngresses` for the masters of the lister, and by those of
`FindMasterForMinion` for its minions, for the ingresses the worker takes for minions, and for a
minion that has just been deleted. -/
structure IndexesInRange (s : State) : Prop where
  merging : ∀ o, ∀ master ∈ s.listers.ingresses.items, master.isMaster = true →
    (createMergableIngresses lbc s.listers o master).isSome = true
  servers : ∀ o master m config, createMergableIngresses lbc s.listers o master = some (.ok m) →
    (m.masterCfg lbc.isNginxPlus config).servers ≠ []
  searching : ∀ o, ∀ minion ∈ s.listers.ingresses.items, lbc.isNginxIngress minion = true →
    minion.isMinion = true → (findMasterForMinion lbc s.listers o s.cnf minion).isSome = true
  syncing : ∀ o, ∀ t ∈ s.queue, t.kind = .ingressMinion → ∀ minion, s.listers.ingresses.get t.key = some minion →
    (findMasterForMinion lbc s.listers o s.cnf minion).isSome = true
  deleting : ∀ o, ∀ minion ∈ s.listers.ingresses.items, lbc.isNginxIngress minion = true →
    minion.isMinion = true → (findMasterForMinion lbc (s.withIngresses
      (s.listers.ingresses.remove minion.objectMeta)).listers o s.cnf minion).isSome = true

def Enabled (s : State) : Label → Prop
  | .ingress c _ => (c.apply s.listers.ingresses).isSome = true
  | .service c _ => (c.apply s.listers.services).isSome = true
  | .endpoints c => (c.apply s.listers.endpoints).isSome = true
  | .secret c => (c.apply s.listers.secrets).isSome = true
  | .configMap c _ => (c.apply s.listers.configMaps).isSome = true
  | .sync _ => s.queue ≠ []
  | .wake t => t ∈ s.delayed

/-- The next task is for a secret, and a configured ingress that is neither master nor minion is not
accepted any more: `createIngresses` may use a nil pointer. -/
def NilPointer (s : State) : Prop :=
  (∃ key ts, s.queue = ⟨.secret, key⟩ :: ts) ∧
  ∃ ing ∈ s.listers.ingresses.items, ing.isMaster = false ∧ ing.isMinion = false ∧
    s.cnf.hasIngress ing = true ∧ (createIngress lbc s.listers ing).isOk = false

section calls
variable {lbc} {l : Listers} {o : Order}

theorem createMergableIngresses_isSome (h : HaveRules lbc l.ingresses) (master : Ingress) :
    (createMergableIngresses lbc l o master).isSome = true := by
  unfold createMergableIngresses
  split
  · split
    · rfl
    · split
      · rfl
      · rw [isSome_map]
        exact getMinionsForMaster_isSome _ fun ing hing hn hm => h ing hing hn (.inr hm)
  · rfl

theorem findMasterForMinion_isSome (h : HaveRules lbc l.ingresses) (cnf : Configurator) {minion}
    (hminion : minion.rules ≠ []) : (findMasterForMinion lbc l o cnf minion).isSome = true := by
  rw [findMasterForMinion, findMaster_eq hminion fun ing hing hn hm =>
    h ing ((o.perm _ _).mem_iff.mp hing) hn (.inl hm)]
  rfl

end calls

section syncs
variable {lbc} {s : State} (h : HaveRules lbc s.listers.ingresses) (o : Order)
include h

theorem bind_findMaster_isSome {α : Type} {ing} (hing : ing ∈ s.listers.ingresses.items)
    (hn : lbc.isNginxIngress ing = true) (hm : ing.isMinion = true) {f : Except String Ingress → Option α}
    (hf : ∀ r, (f r).isSome = true) : ((findMasterForMinion lbc s.listers o s.cnf ing).bind f).isSome = true := by
  obtain ⟨r, hr⟩ := isSome_iff_exists.mp
    (findMasterForMinion_isSome (o := o) h s.cnf (h ing hing hn (.inr hm)))
  rw [hr]
  exact hf r

theorem endpointsResource_isSome {ing} (hing : ing ∈ s.listers.ingresses.items) :
    (endpointsResource lbc o s ing).isSome = true := by
  unfold endpointsResource
  split
  · rfl
  · rename_i hn
    split
    · rename_i hm
      refine bind_findMaster_isSome h o hing (by simpa using hn) hm fun r => ?_
      cases r with
      | error err => rfl
      | ok master =>
        dsimp only
        split
        · rw [isSome_map]
          exact createMergableIngresses_isSome h master
        · rfl
    · split <;> rfl

theorem syncEndpoint_isSome (key : String) : (syncEndpoint lbc o s key).isSome = true := by
  unfold syncEndpoint
  split
  · rw [isSome_map]
    exact isSome_gather fun ing hing => endpointsResource_isSome h o (mem_getIngressesForService.mp hing).1
  · rfl

theorem getManagedIngresses_isSome : (getManagedIngresses lbc o s).isSome = true := by
  refine isSome_foldlM fun m ing hing => ?_
  have hing := (o.perm _ _).mem_iff.mp hing
  unfold manage
  split
  · rfl
  · rename_i hn
    split
    · rename_i hm
      refine bind_findMaster_isSome h o hing (by simpa using hn) hm fun r => ?_
      cases r with
      | error err => rfl
      | ok master =>
        dsimp only
        split
        · rfl
        · rw [isSome_map]
          exact createMergableIngresses_isSome h master
    · split <;> rfl

theorem findIngressesForSecret_isSome (ns name : String) :
    (findIngressesForSecret lbc o s ns name).isSome = true := by
  refine isSome_gather fun ing hing => ?_
  have hing := (o.perm _ _).mem_iff.mp hing
  rw [isSome_map]
  unfold refersToSecret
  dsimp only
  split
  · rfl
  · rename_i hn
    have hn : lbc.isNginxIngress ing = true := by
      by_contra hno
      exact hn (by simp [hno])
    split
    · rfl
    · rename_i hm
      split
      · rw [isSome_map]
        exact findMasterForMinion_isSome h s.cnf (h ing hing hn (.inr (by simpa using hm)))
      · rfl

theorem createIngresses_isSome {ns name ings} (hfound : findIngressesForSecret lbc o s ns name = some ings)
    (hok : ∀ ing ∈ ings, ing.isMaster = false → ing.isMinion = false → (createIngress lbc s.listers ing).isOk = true)
    (cnf : Configurator) : (createIngresses lbc o { s with cnf := cnf } ings).isSome = true := by
  rw [createIngresses, isSome_map]
  refine isSome_gather fun ing hing => ?_
  obtain ⟨hmem, href⟩ := (mem_findIngressesForSecret hfound).mp hing
  unfold secretResource
  split
  · rw [isSome_map]
    exact createMergableIngresses_isSome h ing
  · rename_i hmaster
    split
    · rename_i hm
      refine bind_findMaster_isSome (s := { s with cnf := cnf }) h o hmem (own_of_refersToSecret href).2 hm fun r => ?_
      cases r with
      | error err => rfl
      | ok master =>
        dsimp only
        rw [isSome_map]
        exact createMergableIngresses_isSome h master
    · rename_i hm
      rw [isSome_map]
      have hok := hok ing hing (by simpa using hmaster) (by simpa using hm)
      cases hex : createIngress lbc s.listers ing with
      | error err => simp [hex, Except.isOk, Except.toBool] at hok
      | ok ingEx => rfl

theorem syncSecret_isSome (key : String) (hok : ∀ ns name ings, parseNamespaceName key = some (ns, name) →
      findIngressesForSecret lbc o s ns name = some ings → ∀ ing ∈ ings,
      ing.isMaster = false → ing.isMinion = false → (createIngress lbc s.listers ing).isOk = true) :
    (syncSecret lbc o s key).isSome = true := by
  unfold syncSecret
  split
  · rfl
  · rename_i ns name hkey
    obtain ⟨ings, hfound⟩ := isSome_iff_exists.mp (findIngressesForSecret_isSome h o ns name)
    -- only the configurator may have changed by then
    have hcreate := createIngresses_isSome h o hfound (hok ns name ings hkey hfound)
    have hdelete : ∀ cnf key, (handleSecretDeletion lbc o { s with cnf := cnf } key ings).isSome = true :=
      fun cnf key => by rw [handleSecretDeletion, isSome_map]; exact hcreate cnf
    have hupdate : ∀ cnf secret, (handleSecretUpdate lbc o { s with cnf := cnf } secret ings).isSome = true := by
      intro cnf secret
      unfold handleSecretUpdate
      split
      · rw [isSome_map]
        exact hcreate cnf
      · exact hdelete cnf _
    rw [hfound, bind_some]
    split
    · exact hdelete s.cnf key
    · rename_i secret _
      obtain ⟨cnf, _, hdefault⟩ := default_cases lbc s key secret
      rw [hdefault]
      dsimp only
      split
      · rfl
      · exact hupdate cnf secret

theorem sync_isSome {t ts} (hq : s.queue = t :: ts)
    (hminion : t.kind = .ingressMinion → ∀ ing, s.listers.ingresses.get t.key = some ing → ing.rules ≠ []) :
    (sync lbc o { s with queue := ts } t).isSome = true ∨ NilPointer lbc s := by
  obtain ⟨kind, key⟩ := t
  cases kind with
  | ingress =>
    refine .inl ?_
    simp only [sync, syncIng]
    split
    · rfl
    · rw [isSome_map, resourceOf]
      split
      · rw [isSome_map]
        exact createMergableIngresses_isSome h _
      · rfl
  | ingressMinion =>
    refine .inl ?_
    simp only [sync, syncIngMinion]
    split
    · rfl
    · rename_i minion hget
      rw [isSome_map]
      exact findMasterForMinion_isSome h s.cnf (hminion rfl minion hget)
  | endpoints =>
    have hsome := syncEndpoint_isSome (s := { s with queue := ts }) h o key
    exact .inl hsome
  | configMap =>
    refine .inl ?_
    simp only [sync, syncConfig, updateFromConfigMap, isSome_map]
    have hsome := getManagedIngresses_isSome (s := { s with queue := ts }) h o
    exact hsome
  | service =>
    refine .inl ?_
    simp only [sync, syncExternalService, isSome_map]
    have hsome := getManagedIngresses_isSome (s := { s with queue := ts }) h o
    exact hsome
  | secret =>
    by_cases hok : ∀ ing ∈ s.listers.ingresses.items, ing.isMaster = false → ing.isMinion = false →
        s.cnf.hasIngress ing = true → (createIngress lbc s.listers ing).isOk = true
    · refine .inl (syncSecret_isSome (s := { s with queue := ts }) h o key fun ns name ings _ hfound ing hing hmaster hm => ?_)
      obtain ⟨hmem, href⟩ := (mem_findIngressesForSecret hfound).mp hing
      exact hok ing hmem hmaster hm ((refersToSecret_iff hm).mp href).2.2.1
    · push Not at hok
      obtain ⟨ing, hing, hmaster, hm, hconf, hno⟩ := hok
      exact .inr ⟨⟨key, ts, hq⟩, ing, hing, hmaster, hm, hconf, Bool.eq_false_of_not_eq_true hno⟩

theorem enqueueIngressForService_isSome (svc : Service) :
    (enqueueIngressForService lbc o s svc).isSome = true := by
  rw [enqueueIngressForService, isSome_map]
  refine isSome_gather fun ing hing => ?_
  have hing := (mem_getIngressesForService.mp hing).1
  split
  · rfl
  · rename_i hn
    split
    · rename_i hm
      rw [isSome_map]
      exact findMasterForMinion_isSome h s.cnf (h ing hing (by simpa using hn) (.inr hm))
    · rfl

end syncs

section events
variable {lbc} {s : State}

theorem HaveRules.remove {items} (h : HaveRules lbc items) (m : ObjectMeta) :
    HaveRules lbc (items.remove m) := fun ing hing => h ing (Lister.mem_remove.mp hing).2

theorem ingress_isSome (h : HaveRules lbc s.listers.ingresses) {c} (o : Order)
    (he : Enabled s (.ingress c o)) : (step lbc (.ingress c o) s).isSome = true := by
  obtain ⟨r, hr⟩ := isSome_iff_exists.mp (show (c.apply s.listers.ingresses).isSome = true from he)
  simp only [step, hr, bind_some]
  cases c with
  | add | update => rfl
  | delete m unknown =>
    obtain ⟨old, hold, rfl⟩ := apply_delete hr
    simp only [ingressHandler]
    split
    · rfl
    · rename_i hn
      split
      · rename_i hm
        rw [isSome_map]
        have hmem : old ∈ s.listers.ingresses.items :=
          Lister.mem_items.mpr (s.listers.ingresses.keyed _ _ hold ▸ hold)
        exact findMasterForMinion_isSome (h.remove m) s.cnf (h old hmem (by simpa using hn) (.inr hm))
      · rfl

theorem service_isSome (h : HaveRules lbc s.listers.ingresses) {c} (o : Order)
    (he : Enabled s (.service c o)) : (step lbc (.service c o) s).isSome = true := by
  obtain ⟨r, hr⟩ := isSome_iff_exists.mp (show (c.apply s.listers.services).isSome = true from he)
  have hqueue : ∀ l svc, (enqueueIngressForService lbc o (s.withServices l) svc).isSome = true := fun l svc =>
    enqueueIngressForService_isSome (s := s.withServices l) h o svc
  simp only [step, hr, bind_some]
  cases c with
  | add svc =>
    simp only [serviceHandler]
    split
    · rfl
    · exact hqueue _ _
  | update cur others =>
    obtain ⟨old, _, rfl⟩ := apply_update hr
    obtain ⟨l, hsort, _⟩ := exists_sortPorts s old cur
    simp only [serviceHandler, hsort]
    split
    · rfl
    · split
      · rfl
      · split
        · exact hqueue _ _
        · rfl
  | delete m unknown =>
    obtain ⟨old, _, rfl⟩ := apply_delete hr
    simp only [serviceHandler]
    split
    · rfl
    · exact hqueue _ _

theorem sync_others {o t s'} (hs : sync lbc o s t = some s')
    (hkind : t.kind ≠ .ingress) (hminion : t.kind ≠ .ingressMinion) : ∃ cnf, s' = { s with cnf := cnf } := by
  unfold sync at hs
  split at hs
  · exact absurd ‹_› hkind
  · exact absurd ‹_› hminion
  · obtain ⟨out, _, rfl⟩ := map_eq_some_iff.mp hs
    exact ⟨_, rfl⟩
  · obtain ⟨_, rs, _, _, _, rfl⟩ | ⟨_, he⟩ := syncEndpoint_cases hs
    · obtain ⟨v, hv⟩ := updateEndpoints_eq lbc s (rs.filter (!·.merged))
      obtain ⟨v', hv'⟩ := updateEndpoints_eq lbc (updateEndpoints lbc s (rs.filter (!·.merged))) (rs.filter (·.merged))
      rw [hv', hv]
      exact ⟨_, rfl⟩
    · exact ⟨s.cnf, he⟩
  · obtain ⟨_, he⟩ | ⟨_, _, _, cnf, _, _, _, ⟨_, he⟩ | ⟨rs, _, he | ⟨secret, _, he⟩⟩⟩ := syncSecret_cases hs
    · exact ⟨s.cnf, he⟩
    · exact ⟨cnf, he⟩
    · exact ⟨_, he⟩
    · exact ⟨_, he⟩
  · obtain ⟨m, _, he⟩ := map_eq_some_iff.mp hs
    exact ⟨s.cnf, he.symm⟩

theorem enqueueIngressForService_kind {o svc s'} (h : enqueueIngressForService lbc o s svc = some s') :
    ∃ ts, s' = s.enqueueAll ts ∧ ∀ t ∈ ts, t.kind = .ingress := by
  obtain ⟨ts, hts, rfl⟩ := map_eq_some_iff.mp h
  refine ⟨ts, rfl, fun t ht => ?_⟩
  obtain ⟨ing, _, ht⟩ := (mem_gather hts).mp ht
  split at ht
  · cases ht
  · split at ht
    · obtain ⟨r, hr, ht⟩ := map_eq_some_iff.mp ht
      obtain ⟨master, hmaster, rfl⟩ := map_eq_some_iff.mp ht
      cases r with
      | error err => cases hmaster
      | ok found =>
        obtain rfl : found = master := (filter_eq_some_iff.mp hmaster).1 |> some.inj
        exact congrArg Task.kind (Merging.task_of_isMaster (findMaster_ok hr).2.2.2.1)
    · rename_i hm
      obtain ⟨_, rfl⟩ : s.cnf.hasIngress ing = true ∧ ing.task = t := by simpa using ht
      simp [Ingress.task, hm]

end events

section runs

/-- An ingress without rules is no master and no minion of the controller, and no task takes it for a
minion. -/
def ComesWithRules (s : State) : Label → Prop
  | .ingress c _ => ∀ ing ∈ c.entering.toList, ing.rules = [] →
      (lbc.isNginxIngress ing = true → ing.isMaster = false ∧ ing.isMinion = false) ∧
      ⟨.ingressMinion, ing.objectMeta.key⟩ ∉ s.queue ∧ ⟨.ingressMinion, ing.objectMeta.key⟩ ∉ s.delayed
  | _ => True

instance (s : State) : DecidablePred (ComesWithRules lbc s)
  | .ingress c _ => inferInstanceAs (Decidable (∀ ing ∈ c.entering.toList, _))
  | .service _ _ | .endpoints _ | .secret _ | .configMap _ _ | .sync _ | .wake _ => isTrue trivial

def HasMinion (items : Lister Ingress Ingress.objectMeta) (t : Task) : Prop :=
  t.kind = .ingressMinion → ∀ ing, items.get t.key = some ing → ing.rules ≠ []

/-- Every index is in range, now and later. -/
structure Ruled (s : State) : Prop where
  haveRules : HaveRules lbc s.listers.ingresses
  tasks : s.OnlyTasks (HasMinion s.listers.ingresses)

namespace Ruled
variable {lbc} {s s' : State}

section
variable (h : Ruled lbc s)
include h

theorem indexesInRange : IndexesInRange lbc s where
  merging _ master _ _ := createMergableIngresses_isSome h.haveRules master
  servers _ _ m config _ := m.masterCfg_servers lbc.isNginxPlus config
  searching _ minion hmem hn hm := findMasterForMinion_isSome h.haveRules s.cnf (h.haveRules minion hmem hn (.inr hm))
  syncing _ t ht hkind minion hget := findMasterForMinion_isSome h.haveRules s.cnf (h.tasks t (.inl ht) hkind minion hget)
  deleting _ minion hmem hn hm := findMasterForMinion_isSome
    (l := (s.withIngresses (s.listers.ingresses.remove minion.objectMeta)).listers) (h.haveRules.remove _) s.cnf
    (h.haveRules minion hmem hn (.inr hm))

theorem step_isSome {l} (he : Enabled s l) : (step lbc l s).isSome = true ∨ NilPointer lbc s := by
  cases l with
  | ingress c o => exact .inl (ingress_isSome h.haveRules o he)
  | service c o => exact .inl (service_isSome h.haveRules o he)
  | endpoints | secret | configMap => exact .inl ((isSome_map ..).trans he)
  | wake t => exact .inl (by rw [step, if_pos (show t ∈ s.delayed from he)]; rfl)
  | sync o =>
    obtain ⟨t, ts, hq⟩ := exists_cons_of_ne_nil (show s.queue ≠ [] from he)
    have hsome := sync_isSome h.haveRules o hq (h.tasks t (.inl (hq ▸ mem_cons_self)))
    rwa [show step lbc (.sync o) s = sync lbc o { s with queue := ts } t by simp only [step, hq]]

theorem tasks_only (hing : s'.listers.ingresses = s.listers.ingresses)
    (htasks : s'.OnlyTasks (HasMinion s.listers.ingresses)) : Ruled lbc s' :=
  ⟨hing ▸ h.haveRules, hing ▸ htasks⟩

theorem put {ing} (hing : ing.rules = [] →
      (lbc.isNginxIngress ing = true → ing.isMaster = false ∧ ing.isMinion = false) ∧
      ⟨.ingressMinion, ing.objectMeta.key⟩ ∉ s.queue ∧ ⟨.ingressMinion, ing.objectMeta.key⟩ ∉ s.delayed) :
    Ruled lbc (s.withIngresses (s.listers.ingresses.put ing)) where
  haveRules ing' hing' hn hmergeable := by
    rcases Lister.mem_put.mp hing' with rfl | ⟨_, hmem⟩
    · intro hnil
      obtain ⟨hmaster, hminion⟩ := (hing hnil).1 hn
      simp [hmaster, hminion] at hmergeable
    · exact h.haveRules ing' hmem hn hmergeable
  tasks t ht hkind ing' hget := by
    simp only [State.withIngresses_ingresses, Lister.get_put] at hget
    split at hget
    · rename_i hkey
      obtain rfl := some.inj hget
      intro hnil
      have htask : t = ⟨.ingressMinion, ing.objectMeta.key⟩ := by rw [← hkind, ← hkey]
      rcases ht with ht | ht
      · exact (hing hnil).2.1 (htask ▸ ht)
      · exact (hing hnil).2.2 (htask ▸ ht)
    · exact h.tasks t ht hkind ing' hget

theorem remove (m : ObjectMeta) : Ruled lbc (s.withIngresses (s.listers.ingresses.remove m)) where
  haveRules := h.haveRules.remove m
  tasks t ht hkind ing hget := by
    simp only [State.withIngresses_ingresses, Lister.get_remove] at hget
    split at hget
    · cases hget
    · exact h.tasks t ht hkind ing hget

theorem enqueue {t} (ht : HasMinion s.listers.ingresses t) : Ruled lbc (s.enqueue t) :=
  h.tasks_only (State.enqueue_listers s t ▸ rfl) (State.OnlyTasks.enqueue h.tasks ht)

theorem enqueue_other {t} (ht : t.kind ≠ .ingressMinion) : Ruled lbc (s.enqueue t) :=
  h.enqueue fun hkind => absurd hkind ht

theorem enqueue_master {master : Ingress} (hm : master.isMaster = true) : Ruled lbc (s.enqueue master.task) :=
  h.enqueue_other (by simp [Merging.task_of_isMaster hm])

theorem tail {t ts} (hq : s.queue = t :: ts) :
    Ruled lbc { s with queue := ts } := ⟨h.haveRules, State.OnlyTasks.tail h.tasks hq⟩

theorem requeueAfter {t} (ht : HasMinion s.listers.ingresses t) :
    Ruled lbc (s.requeueAfter t) := ⟨h.haveRules, State.OnlyTasks.requeueAfter h.tasks ht⟩

theorem configure (cnf : Configurator) : Ruled lbc { s with cnf := cnf } := ⟨h.haveRules, h.tasks⟩

theorem sync {o : Order} {t} (ht : HasMinion s.listers.ingresses t)
    (hs : Nginx.sync lbc o s t = some s') : Ruled lbc s' := by
  obtain ⟨kind, key⟩ := t
  by_cases hkind : kind = .ingress
  · subst hkind
    obtain ⟨_, v, rfl⟩ | ⟨ing, _, ⟨r, v, _, rfl⟩ | ⟨err, _, rfl⟩⟩ := syncIng_cases hs
    · exact h.configure _
    · exact h.configure _
    · split
      · exact h.requeueAfter fun hk => by cases hk
      · exact h
  · by_cases hminion : kind = .ingressMinion
    · subst hminion
      exact syncIngMinion_keeps hs h (h.requeueAfter ht) fun _ _ _ _ hfound hr =>
        hr.enqueue_master (findMaster_ok hfound).2.2.2.1
    · obtain ⟨cnf, rfl⟩ := sync_others hs hkind hminion
      exact h.configure cnf

theorem ingress {c : Change Ingress} {o} (hC : ComesWithRules lbc s (.ingress c o))
    (hs : Nginx.step lbc (.ingress c o) s = some s') : Ruled lbc s' := by
  -- an ingress that comes, and is queued if it is for this controller
  have hput : ∀ ing ∈ c.entering.toList, Ruled lbc (s.withIngresses (s.listers.ingresses.put ing)) ∧
      (lbc.isNginxIngress ing = true → Ruled lbc ((s.withIngresses (s.listers.ingresses.put ing)).enqueue ing.task)) := by
    intro ing hing
    have hruled := h.put (hC ing hing)
    refine ⟨hruled, fun hn => hruled.enqueue fun hkind ing' hget => ?_⟩
    have hm : ing.isMinion = true := by
      by_contra hno
      simp [Ingress.task, hno] at hkind
    obtain rfl : ing = ing' := by
      simpa only [State.withIngresses_ingresses, Ingress.task, Lister.get_put, if_true, some.injEq] using hget
    exact hruled.haveRules ing (Lister.mem_put.mpr (.inl rfl)) hn (.inr hm)
  obtain ⟨ing, rfl, _, rfl⟩ | ⟨ing, others, old, rfl, _, rfl⟩ | ⟨m, unknown, old, rfl, _, hs⟩ := step_ingress_cases hs
  · obtain ⟨hruled, hqueued⟩ := hput ing (by simp [Change.entering])
    split
    · exact hqueued ‹_›
    · exact hruled
  · obtain ⟨hruled, hqueued⟩ := hput ing (by simp [Change.entering])
    split
    · rename_i hn
      exact hqueued hn.1
    · exact hruled
  · have hruled := h.remove m
    obtain ⟨_, he⟩ | ⟨_, _, ⟨err, _, he⟩ | ⟨master, hfound, rfl⟩⟩ | ⟨_, hm, rfl⟩ := ingressHandler_delete hs
    · exact he ▸ hruled
    · exact he ▸ hruled
    · exact hruled.enqueue_master (findMaster_ok hfound).2.2.2.1
    · split
      · exact hruled
      · exact hruled.enqueue_other (by simp [Ingress.task, hm])

theorem step {l} (hC : ComesWithRules lbc s l) (hs : Nginx.step lbc l s = some s') : Ruled lbc s' := by
  -- the handlers that queue a task for the object itself
  have hself : ∀ {α : Type} [DecidableEq α] {kind : Kind} {metaOf : α → ObjectMeta} {valid : α → Bool} {t : State}
      {old : Option α} {c : Change α}, Ruled lbc t → kind ≠ .ingressMinion →
      Ruled lbc (selfHandler kind metaOf valid t old c) := by
    intro α _ kind metaOf valid t old c ht hkind
    unfold selfHandler
    split
    · exact ht.enqueue_other hkind
    · exact ht
  cases l with
  | ingress c o => exact h.ingress hC hs
  | service c o =>
    obtain ⟨m, l, _, ⟨_, rfl | rfl⟩ | ⟨svc, _, hs⟩⟩ := step_service_cases hs
    · exact ⟨h.haveRules, h.tasks⟩
    · exact Ruled.enqueue_other (s := s.withServices l) ⟨h.haveRules, h.tasks⟩ (by simp)
    · obtain ⟨ts, rfl, hts⟩ := enqueueIngressForService_kind hs
      refine h.tasks_only (by simp [State.withServices]) ?_
      exact State.OnlyTasks.enqueueAll (s := s.withServices l) h.tasks fun t ht hkind => by simp [hts t ht] at hkind
  | endpoints c =>
    obtain ⟨r, _, rfl⟩ := map_eq_some_iff.mp hs
    exact hself (t := s.withEndpoints r.2) ⟨h.haveRules, h.tasks⟩ (by simp)
  | secret c =>
    obtain ⟨r, _, rfl⟩ := map_eq_some_iff.mp hs
    exact hself (t := s.withSecrets r.2) ⟨h.haveRules, h.tasks⟩ (by simp)
  | configMap c name =>
    obtain ⟨r, _, rfl⟩ := map_eq_some_iff.mp hs
    exact hself (t := s.withConfigMaps r.2) ⟨h.haveRules, h.tasks⟩ (by simp)
  | sync o =>
    obtain ⟨t, ts, hq, hs⟩ := step_sync_cases hs
    exact (h.tail hq).sync (h.tasks.head hq) hs
  | wake t =>
    obtain ⟨hd, rfl⟩ := step_wake_cases hs
    exact h.tasks_only (by simp) (State.OnlyTasks.wake h.tasks hd)

end

end Ruled

/-- As long as masters and minions come with rules, nothing is indexed out of range, and the
controller does not crash but for a nil pointer. -/
theorem indexes_in_range (lbc : LBC) {s0 s : State} (h0 : HaveRules lbc s0.listers.ingresses)
    (hq : s0.queue = []) (hd : s0.delayed = []) (h : Run (step lbc) (ComesWithRules lbc) s0 s) :
    IndexesInRange lbc s ∧ ∀ l, Enabled s l → (step lbc l s).isSome = true ∨ NilPointer lbc s := by
  have hruled := h.keeps (I := Ruled lbc) ⟨h0, .of_nil hq hd⟩ fun _ _ _ ht hC hs => ht.step hC hs
  exact ⟨hruled.indexesInRange, fun l => hruled.step_isSome⟩

end runs

section samples

/-- An ingress "default/cafe" with a default backend and no rules. -/
def backendOnly : Ingress := { cafe [] with backend := some ⟨"coffee-svc", .int 80⟩, rules := [] }

theorem indexes_in_range_shop : ∃ s, backendOnly ∈ s.listers.ingresses.items ∧
    generatedPaths false s shopMaster.objectMeta = ["/cart"] ∧ IndexesInRange (plainLBC false) s ∧
    ∀ l, Enabled s l → (step (plainLBC false) l s).isSome = true ∨ NilPointer (plainLBC false) s := by
  obtain ⟨s, hs, hmem, hpaths⟩ : ∃ s, Run (step (plainLBC false)) (ComesWithRules (plainLBC false)) started s ∧
      backendOnly ∈ s.listers.ingresses.items ∧ generatedPaths false s shopMaster.objectMeta = ["/cart"] :=
    Run.of_labels [.ingress (.add shopMaster) .same, .sync .same, .ingress (.add backendOnly) .same,
      .ingress (.add shopMinion) .same, .sync .same, .sync .same, .sync .same] (by decide +kernel)
  exact ⟨s, hmem, hpaths, indexes_in_range (plainLBC false) (fun _ hing => absurd hing not_mem_nil) rfl rfl hs⟩

def bareMaster : Ingress := { shopMaster with rules := [] }

def bareMinion : Ingress := { shopMinion with rules := [] }

/-- A minion without rules is synced; a master is merged with it; a configured master has lost its rules. -/
theorem rules_out_of_range :
    (∃ s, Run (step (plainLBC false)) (fun _ l => IngressEvent l) started s ∧ Enabled s (.sync .same) ∧
      bareMinion ∈ s.listers.ingresses.items ∧
      findMasterForMinion (plainLBC false) s.listers .same s.cnf bareMinion = none ∧
      step (plainLBC false) (.sync .same) s = none ∧ ¬IndexesInRange (plainLBC false) s) ∧
    (∃ s, Run (step (plainLBC false)) (fun _ l => IngressEvent l) started s ∧ Enabled s (.sync .same) ∧
      shopMaster ∈ s.listers.ingresses.items ∧
      getMinionsForMaster (plainLBC false) s.listers .same shopMaster.objectMeta shopMaster.host = none ∧
      step (plainLBC false) (.sync .same) s = none ∧ ¬IndexesInRange (plainLBC false) s) ∧
    ∃ s, Run (step (plainLBC false)) (fun _ l => IngressEvent l) started s ∧ Enabled s (.sync .same) ∧
      bareMaster ∈ s.listers.ingresses.items ∧ shopMinion ∈ s.listers.ingresses.items ∧
      findMasterForMinion (plainLBC false) s.listers .same s.cnf shopMinion = none ∧
      step (plainLBC false) (.sync .same) s = none ∧ ¬IndexesInRange (plainLBC false) s := by
  -- a minion of the lister that makes the search for its master fail
  have hsearch : ∀ {s : State} {minion : Ingress}, minion ∈ s.listers.ingresses.items →
      (plainLBC false).isNginxIngress minion = true → minion.isMinion = true →
      findMasterForMinion (plainLBC false) s.listers .same s.cnf minion = none → ¬IndexesInRange (plainLBC false) s := by
    intro s minion hmem hn hm hnone h
    have hsome := h.searching .same minion hmem hn hm
    rw [hnone] at hsome
    cases hsome
  refine ⟨?_, ?_, ?_⟩
  · obtain ⟨s, hs, hq, hmem, hfind, hstep⟩ : ∃ s, Run (step (plainLBC false)) (fun _ l => IngressEvent l) started s ∧
        s.queue ≠ [] ∧ bareMinion ∈ s.listers.ingresses.items ∧
        findMasterForMinion (plainLBC false) s.listers .same s.cnf bareMinion = none ∧
        step (plainLBC false) (.sync .same) s = none :=
      Run.of_labels [.ingress (.add shopMaster) .same, .sync .same, .ingress (.add bareMinion) .same]
        (by decide +kernel)
    exact ⟨s, hs, hq, hmem, hfind, hstep, hsearch hmem rfl rfl hfind⟩
  · obtain ⟨s, hs, hq, hmem, hminions, hmerge, hstep⟩ : ∃ s, Run (step (plainLBC false))
        (fun _ l => IngressEvent l) started s ∧ s.queue ≠ [] ∧ shopMaster ∈ s.listers.ingresses.items ∧
        getMinionsForMaster (plainLBC false) s.listers .same shopMaster.objectMeta shopMaster.host = none ∧
        createMergableIngresses (plainLBC false) s.listers .same shopMaster = none ∧
        step (plainLBC false) (.sync .same) s = none :=
      Run.of_labels [.ingress (.add bareMinion) .same, .sync .same, .ingress (.add shopMaster) .same]
        (by decide +kernel)
    refine ⟨s, hs, hq, hmem, hminions, hstep, fun h => ?_⟩
    have hsome := h.merging .same shopMaster hmem rfl
    rw [hmerge] at hsome
    cases hsome
  · obtain ⟨s, hs, hq, hmaster, hmem, hfind, hstep⟩ : ∃ s, Run (step (plainLBC false))
        (fun _ l => IngressEvent l) started s ∧
        s.queue ≠ [] ∧ bareMaster ∈ s.listers.ingresses.items ∧ shopMinion ∈ s.listers.ingresses.items ∧
        findMasterForMinion (plainLBC false) s.listers .same s.cnf shopMinion = none ∧
        step (plainLBC false) (.sync .same) s = none :=
      Run.of_labels [.ingress (.add shopMaster) .same, .sync .same, .ingress (.update bareMaster false) .same,
        .sync .same, .ingress (.add shopMinion) .same] (by decide +kernel)
    exact ⟨s, hs, hq, hmaster, hmem, hfind, hstep, hsearch hmem rfl rfl hfind⟩

end samples

end KubeYamls.Nginx
