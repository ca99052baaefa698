import KubeYamls.Nginx.Controller
import KubeYamls.Data.Fallible

/-! # The work queue and the sync functions

One worker takes tasks from the queue and syncs them one at a time. A task names
an object and its kind; the object itself is read again when the task is synced.
A sync that panics has no result. -/
namespace KubeYamls.Nginx
open Data List

inductive Kind where
  | ingress
  | ingressMinion
  | endpoints
  | configMap
  | secret
  | service
deriving DecidableEq

structure Task where
  kind : Kind
  key : String
deriving DecidableEq

/-- `NewTask` for an ingress: the kind is fixed by what the ingress is now. -/
def Ingress.task (ing : Ingress) : Task :=
  ⟨if ing.isMinion then .ingressMinion else .ingress, ing.objectMeta.key⟩

/-- The controller: what it has seen, what it has configured, and what it has to do. A task
that was requeued for later is `delayed`. -/
structure State where
  listers : Listers
  cnf : Configurator
  queue : List Task := []
  delayed : List Task := []

namespace State

/-- A task that is queued already is not queued again. -/
def enqueue (s : State) (t : Task) : State :=
  if t ∈ s.queue then s else { s with queue := s.queue ++ [t] }

def enqueueAll (s : State) (ts : List Task) : State := ts.foldl enqueue s

def requeueAfter (s : State) (t : Task) : State := { s with delayed := s.delayed ++ [t] }

section queue
variable (s : State) (t : Task)

@[simp] theorem enqueue_listers : (s.enqueue t).listers = s.listers := by
  unfold enqueue
  split <;> rfl

@[simp] theorem enqueue_cnf : (s.enqueue t).cnf = s.cnf := by
  unfold enqueue
  split <;> rfl

@[simp] theorem enqueue_delayed : (s.enqueue t).delayed = s.delayed := by
  unfold enqueue
  split <;> rfl

@[simp] theorem mem_enqueue {t t'} : t' ∈ (s.enqueue t).queue ↔ t' ∈ s.queue ∨ t' = t := by
  by_cases h : t ∈ s.queue
  · rw [enqueue, if_pos h]
    exact ⟨.inl, fun h' => h'.elim id fun he => he ▸ h⟩
  · simp [enqueue, h]

variable (ts : List Task)

@[simp] theorem enqueueAll_listers : (s.enqueueAll ts).listers = s.listers := by
  induction ts generalizing s with
  | nil => rfl
  | cons t ts ih => exact (ih (s.enqueue t)).trans (enqueue_listers s t)

@[simp] theorem enqueueAll_cnf : (s.enqueueAll ts).cnf = s.cnf := by
  induction ts generalizing s with
  | nil => rfl
  | cons t ts ih => exact (ih (s.enqueue t)).trans (enqueue_cnf s t)

@[simp] theorem enqueueAll_delayed : (s.enqueueAll ts).delayed = s.delayed := by
  induction ts generalizing s with
  | nil => rfl
  | cons t ts ih => exact (ih (s.enqueue t)).trans (enqueue_delayed s t)

@[simp] theorem mem_enqueueAll {t'} : t' ∈ (s.enqueueAll ts).queue ↔ t' ∈ s.queue ∨ t' ∈ ts := by
  induction ts generalizing s with
  | nil => simp [enqueueAll]
  | cons t ts ih =>
    have hcons : s.enqueueAll (t :: ts) = (s.enqueue t).enqueueAll ts := rfl
    rw [hcons, ih (s.enqueue t), mem_enqueue, mem_cons, or_assoc]

end queue

def OnlyTasks (s : State) (P : Task → Prop) : Prop := ∀ t, t ∈ s.queue ∨ t ∈ s.delayed → P t

def OnlyKinds (s : State) (ks : List Kind) : Prop := s.OnlyTasks fun t => t.kind ∈ ks

namespace OnlyTasks
variable {s : State} {P : Task → Prop} {t : Task}

theorem of_nil (hq : s.queue = []) (hd : s.delayed = []) : s.OnlyTasks P := by
  intro t ht
  simp [hq, hd] at ht

theorem enqueue (h : s.OnlyTasks P) (ht : P t) : (s.enqueue t).OnlyTasks P := by
  intro t' ht'
  simp only [mem_enqueue, enqueue_delayed] at ht'
  rcases ht' with (ht' | rfl) | ht'
  · exact h t' (.inl ht')
  · exact ht
  · exact h t' (.inr ht')

theorem enqueueAll {ts} (h : s.OnlyTasks P) (hts : ∀ t ∈ ts, P t) : (s.enqueueAll ts).OnlyTasks P := by
  intro t ht
  simp only [mem_enqueueAll, enqueueAll_delayed] at ht
  rcases ht with (ht | ht) | ht
  · exact h t (.inl ht)
  · exact hts t ht
  · exact h t (.inr ht)

theorem requeueAfter (h : s.OnlyTasks P) (ht : P t) : (s.requeueAfter t).OnlyTasks P := by
  intro t' ht'
  simp only [State.requeueAfter, mem_append, mem_singleton] at ht'
  rcases ht' with ht' | ht' | rfl
  · exact h t' (.inl ht')
  · exact h t' (.inr ht')
  · exact ht

theorem tail {ts} (h : s.OnlyTasks P) (hq : s.queue = t :: ts) :
    { s with queue := ts }.OnlyTasks P := fun t' ht' =>
  h t' (ht'.imp_left fun hm => hq ▸ mem_cons_of_mem t hm)

theorem head {ts} (h : s.OnlyTasks P) (hq : s.queue = t :: ts) : P t :=
  h t (.inl (hq ▸ mem_cons_self))

theorem wake (h : s.OnlyTasks P) (ht : t ∈ s.delayed) :
    ({ s with delayed := s.delayed.erase t }.enqueue t).OnlyTasks P :=
  enqueue (fun t' ht' => h t' (ht'.imp_right mem_of_mem_erase)) (h t (.inr ht))

end OnlyTasks

end State

variable (lbc : LBC) (o : Order) (s : State)

def resourceOf (ing : Ingress) : Option (Except String Resource) :=
  if ing.isMaster then
    (createMergableIngresses lbc s.listers o ing).map fun r => r.map .mergeable
  else some ((createIngress lbc s.listers ing).map .ingress)

theorem resourceOf_objectMeta {lbc o s ing r}
    (h : resourceOf lbc o s ing = some (.ok r)) : r.objectMeta = ing.objectMeta := by
  unfold resourceOf at h
  split at h
  · obtain ⟨res, hres, h⟩ := Option.map_eq_some_iff.mp h
    cases res with
    | error err => cases h
    | ok m =>
      obtain ⟨rule, _, _, _, hmaster, _⟩ := createMergableIngresses_ok hres
      obtain rfl := Except.ok.inj h
      simp [Resource.objectMeta, hmaster, ingressEx, emptyPaths]
  · obtain ⟨ingEx, hex, h⟩ := map_eq_ok.mp (Option.some.inj h)
    obtain ⟨_, rfl⟩ := createIngress_eq_ok.mp hex
    exact h ▸ rfl

/-- The result of an operation whose error is only reported. -/
def State.done (r : Outcome) : State := { s with cnf := r.1 }

def syncIng (key : String) : Option State :=
  match s.listers.ingresses.get key with
  | none => some (s.done (s.cnf.deleteIngress lbc.host key))
  | some ing =>
    (resourceOf lbc o s ing).map fun r =>
      match r with
      | .error _ => if ing.isMaster then s.requeueAfter ⟨.ingress, key⟩ else s
      | .ok (.ingress ingEx) => s.done (s.cnf.addOrUpdateIngressAndReload lbc.host ingEx)
      | .ok (.mergeable m) => s.done (s.cnf.addOrUpdateMergeableIngressAndReload lbc.host m)

theorem syncIng_cases {lbc o s s' key} (h : syncIng lbc o s key = some s') : (s.listers.ingresses.get key = none ∧
      ∃ v, s' = { s with cnf := { s.cnf.forget (keyToFileName key) with configVersion := v } }) ∨
    ∃ ing, s.listers.ingresses.get key = some ing ∧ ((∃ r v, resourceOf lbc o s ing = some (.ok r) ∧
          s' = { s with cnf := { (s.cnf.regenerate lbc.host r).1 with configVersion := v } }) ∨
        (∃ err, resourceOf lbc o s ing = some (.error err) ∧
          s' = if ing.isMaster then s.requeueAfter ⟨.ingress, key⟩ else s)) := by
  unfold syncIng at h
  cases hget : s.listers.ingresses.get key with
  | none =>
    simp only [hget, Option.some.injEq] at h
    exact .inl ⟨rfl, s.cnf.configVersion + 1, h.symm⟩
  | some ing =>
    simp only [hget] at h
    obtain ⟨res, hres, h⟩ := Option.map_eq_some_iff.mp h
    refine .inr ⟨ing, rfl, ?_⟩
    cases res with
    | error err => exact .inr ⟨err, hres, h.symm⟩
    | ok r =>
      refine .inl ?_
      cases r with
      | ingress ingEx =>
        obtain ⟨v, hv⟩ := Configurator.addOrUpdateIngressAndReload_same lbc.host s.cnf ingEx
        exact ⟨_, v, hres, h.symm.trans (congrArg (fun cnf => { s with cnf := cnf }) hv)⟩
      | mergeable m =>
        obtain ⟨v, hv⟩ := Configurator.addOrUpdateMergeableIngressAndReload_same lbc.host s.cnf m
        exact ⟨_, v, hres, h.symm.trans (congrArg (fun cnf => { s with cnf := cnf }) hv)⟩

def syncIngMinion (key : String) : Option State :=
  match s.listers.ingresses.get key with
  | none => some s
  | some minion =>
    (findMasterForMinion lbc s.listers o s.cnf minion).map fun r =>
      match r with
      | .error _ => s.requeueAfter ⟨.ingressMinion, key⟩
      | .ok master =>
        if (createIngress lbc s.listers minion).isOk then s.enqueue master.task
        else
          let s := s.requeueAfter ⟨.ingressMinion, key⟩
          if s.cnf.hasMinion master minion then s.enqueue master.task else s

theorem syncIngMinion_cases {lbc o s s' key} (h : syncIngMinion lbc o s key = some s') :
    (s.listers.ingresses.get key = none ∧ s' = s) ∨ ∃ minion, s.listers.ingresses.get key = some minion ∧
      ((∃ err, findMasterForMinion lbc s.listers o s.cnf minion = some (.error err) ∧
          s' = s.requeueAfter ⟨.ingressMinion, key⟩) ∨
        (∃ master, findMasterForMinion lbc s.listers o s.cnf minion = some (.ok master) ∧
          (((createIngress lbc s.listers minion).isOk = true ∧ s' = s.enqueue master.task) ∨
            ((createIngress lbc s.listers minion).isOk = false ∧ (s' = s.requeueAfter ⟨.ingressMinion, key⟩ ∨
                s' = (s.requeueAfter ⟨.ingressMinion, key⟩).enqueue master.task))))) := by
  unfold syncIngMinion at h
  cases hget : s.listers.ingresses.get key with
  | none =>
    simp only [hget, Option.some.injEq] at h
    exact .inl ⟨rfl, h.symm⟩
  | some minion =>
    simp only [hget] at h
    obtain ⟨res, hres, h⟩ := Option.map_eq_some_iff.mp h
    refine .inr ⟨minion, rfl, ?_⟩
    cases res with
    | error err => exact .inl ⟨err, hres, h.symm⟩
    | ok master =>
      refine .inr ⟨master, hres, ?_⟩
      cases hok : (createIngress lbc s.listers minion).isOk with
      | true => exact .inl ⟨rfl, by simpa [hok] using h.symm⟩
      | false =>
        simp only [hok, Bool.false_eq_true, if_false] at h
        split at h
        · exact .inr ⟨rfl, .inr h.symm⟩
        · exact .inr ⟨rfl, .inl h.symm⟩

/-- What is kept when a task is put off, and when a master of the lister is queued, is kept by the sync
of a minion. -/
theorem syncIngMinion_keeps {lbc o s s' key} {I : State → Prop}
    (hs : syncIngMinion lbc o s key = some s') (h : I s) (hlater : I (s.requeueAfter ⟨.ingressMinion, key⟩))
    (hmaster : ∀ t minion master, t.listers = s.listers →
      findMasterForMinion lbc s.listers o s.cnf minion = some (.ok master) → I t → I (t.enqueue master.task)) :
    I s' := by
  obtain ⟨_, rfl⟩ | ⟨minion, _, ⟨err, _, rfl⟩ | ⟨master, hfound, ⟨_, rfl⟩ | ⟨_, rfl | rfl⟩⟩⟩ := syncIngMinion_cases hs
  · exact h
  · exact hlater
  · exact hmaster s minion master rfl hfound h
  · exact hlater
  · exact hmaster _ minion master rfl hfound hlater

/-- `GetServiceIngress`: an ingress is listed once for every backend that is the service. -/
def getIngressesForService (svc : Service) : List Ingress :=
  (o.list .service s.listers.ingresses.items).flatMap fun ing =>
    if ing.objectMeta.ns = svc.objectMeta.ns then
      (ing.backends.filter fun b => b.2.serviceName = svc.objectMeta.name).map fun _ => ing
    else []

def endpointsResource (ing : Ingress) : Option (Option Resource) :=
  if !lbc.isNginxIngress ing then some none
  else if ing.isMinion then
    (findMasterForMinion lbc s.listers o s.cnf ing).bind fun r =>
      match r with
      | .error _ => some none
      | .ok master =>
        if s.cnf.hasMinion master ing then
          (createMergableIngresses lbc s.listers o master).map fun r => r.toOption.map .mergeable
        else some none
  else if s.cnf.hasIngress ing then
    some ((createIngress lbc s.listers ing).toOption.map .ingress)
  else some none

def inOrder (rs : List Resource) : List Resource := rs.filter (!·.merged) ++ rs.filter (·.merged)

def updateEndpoints (rs : List Resource) : State :=
  if rs = [] then s else s.done (s.cnf.updateEndpoints lbc.host rs)

/-- Endpoints that are gone, or whose service is not there, change nothing. -/
def syncEndpoint (key : String) : Option State :=
  match s.listers.endpoints.get key, s.listers.services.get key with
  | some _, some svc =>
    (gather (endpointsResource lbc o s) (getIngressesForService o s svc)).map fun rs =>
      let s := updateEndpoints lbc s (rs.filter (!·.merged))
      updateEndpoints lbc s (rs.filter (·.merged))
  | _, _ => some s

theorem syncEndpoint_cases {lbc o s s' key} (h : syncEndpoint lbc o s key = some s') :
    (∃ svc rs, (s.listers.endpoints.get key).isSome = true ∧ s.listers.services.get key = some svc ∧
      gather (endpointsResource lbc o s) (getIngressesForService o s svc) = some rs ∧
      s' = updateEndpoints lbc (updateEndpoints lbc s (rs.filter (!·.merged))) (rs.filter (·.merged))) ∨
    ((s.listers.endpoints.get key = none ∨ s.listers.services.get key = none) ∧ s' = s) := by
  unfold syncEndpoint at h
  cases hendps : s.listers.endpoints.get key with
  | none =>
    simp only [hendps, Option.some.injEq] at h
    exact .inr ⟨.inl rfl, h.symm⟩
  | some endps =>
    cases hsvc : s.listers.services.get key with
    | none =>
      simp only [hendps, hsvc, Option.some.injEq] at h
      exact .inr ⟨.inr rfl, h.symm⟩
    | some svc =>
      simp only [hendps, hsvc] at h
      obtain ⟨rs, hrs, rfl⟩ := Option.map_eq_some_iff.mp h
      exact .inl ⟨svc, rs, rfl, rfl, hrs, rfl⟩

theorem updateEndpoints_eq (lbc : LBC) (s : State) (rs : List Resource) : ∃ v, updateEndpoints lbc s rs = { s with
      cnf := { (Configurator.regenerateAll lbc.host Configurator.errorAt s.cnf rs).1 with configVersion := v } } := by
  unfold updateEndpoints
  split
  · rename_i hnil
    subst hnil
    exact ⟨s.cnf.configVersion, rfl⟩
  · obtain ⟨v, hv⟩ := Configurator.updateEndpoints_same lbc.host s.cnf rs
    exact ⟨v, congrArg (fun cnf => { s with cnf := cnf }) hv⟩

/-- What `GetManagedIngresses` has collected; the mergeable ones by the master's name. -/
structure Managed where
  ingresses : List Ingress := []
  mergeable : List (String × MergeableIngresses) := []

/-- One ingress of the list: a master is found through its minions. -/
def manage (m : Managed) (ing : Ingress) : Option Managed :=
  if !lbc.isNginxIngress ing then some m
  else if ing.isMinion then
    (findMasterForMinion lbc s.listers o s.cnf ing).bind fun r =>
      match r with
      | .error _ => some m
      | .ok master =>
        if !s.cnf.hasIngress master || (m.mergeable.lookup master.objectMeta.name).isSome then some m
        else
          (createMergableIngresses lbc s.listers o master).map fun r =>
            match r with
            | .error _ => m
            | .ok merged => { m with mergeable := m.mergeable ++ [(master.objectMeta.name, merged)] }
  else if s.cnf.hasIngress ing then some { m with ingresses := m.ingresses ++ [ing] }
  else some m

def getManagedIngresses : Option Managed :=
  (o.list .managed s.listers.ingresses.items).foldlM (manage lbc o s) {}

/-- An ingress that is not accepted is dropped. -/
def ingressesToIngressExes (ings : List Ingress) : List IngressEx :=
  ings.filterMap fun ing => (createIngress lbc s.listers ing).toOption

/-- The parameters of the ConfigMap, or the default ones if it is not there. -/
def newConfig (key : String) : Config :=
  match s.listers.configMaps.get key with
  | none => newDefaultConfig
  | some cfgm => lbc.parseConfigMap cfgm lbc.isNginxPlus

/-- What `syncConfig` hands to `UpdateConfig`. -/
def configResources (m : Managed) : List Resource :=
  Configurator.resources (ingressesToIngressExes lbc s m.ingresses)
    (o.mergeable (m.mergeable.map Prod.snd))

/-- The call of `UpdateConfig`. -/
def updateFromConfigMap (key : String) : Option Outcome :=
  (getManagedIngresses lbc o s).map fun m =>
    s.cnf.updateConfig lbc.host (newConfig lbc s key) (configResources lbc o s m)

def syncConfig (key : String) : Option State := (updateFromConfigMap lbc o s key).map s.done

/-- The managed ingresses are only looked up to report their status. -/
def syncExternalService : Option State := (getManagedIngresses lbc o s).map fun _ => s

def refersToSecret (ns name : String) (ing : Ingress) : Option Bool :=
  let forJWT : Bool := lbc.isNginxPlus ∧ ing.annotated jwtKeyAnnotation = some name
  if ing.objectMeta.ns ≠ ns || !lbc.isNginxIngress ing then some false
  else if !ing.isMinion then
    some (s.cnf.hasIngress ing && (ing.tls.any (·.secretName = name) || forJWT))
  else if lbc.isNginxPlus then
    (findMasterForMinion lbc s.listers o s.cnf ing).map fun r =>
      match r with
      | .error _ => false
      | .ok master => s.cnf.hasMinion master ing && forJWT
  else some false

def findIngressesForSecret (ns name : String) : Option (List Ingress) :=
  gather (fun ing => (refersToSecret lbc o s ns name ing).map fun b => if b then some ing else none)
    (o.list .secret s.listers.ingresses.items)

/-- What is regenerated for an ingress of a secret. An ingress that is neither master nor
minion and is not accepted leaves a nil pointer, which is dereferenced. -/
def secretResource (ing : Ingress) : Option (Option Resource) :=
  if ing.isMaster then
    (createMergableIngresses lbc s.listers o ing).map fun r => r.toOption.map .mergeable
  else if ing.isMinion then
    (findMasterForMinion lbc s.listers o s.cnf ing).bind fun r =>
      match r with
      | .error _ => some none
      | .ok master =>
        (createMergableIngresses lbc s.listers o master).map fun r => r.toOption.map .mergeable
  else (createIngress lbc s.listers ing).toOption.map fun ingEx => some (.ingress ingEx)

def createIngresses (ings : List Ingress) : Option (List Resource) :=
  (gather (secretResource lbc o s) ings).map inOrder

def handleSecretDeletion (key : String) (ings : List Ingress) : Option State :=
  (createIngresses lbc o s ings).map fun rs => s.done (s.cnf.deleteSecret lbc.host key rs)

/-- A secret that has become invalid is treated as removed. -/
def handleSecretUpdate (secret : Secret) (ings : List Ingress) : Option State :=
  if (lbc.validateSecret secret).isOk then
    (createIngresses lbc o s ings).map fun rs => s.done (s.cnf.addOrUpdateSecret lbc.host secret rs)
  else handleSecretDeletion lbc o s secret.objectMeta.key ings

def handleDefaultSecretUpdate (secret : Secret) : State :=
  if (validateTLSSecret secret).isOk then
    s.done (s.cnf.addOrUpdateDefaultServerTLSSecret lbc.host secret)
  else s

/-- `ParseNamespaceName`; the error is only logged. -/
def parseNamespaceName (value : String) : Option (String × String) :=
  match split value "/" with
  | [ns, name] => some (ns, name)
  | _ => none

theorem parseNamespaceName_key (m : ObjectMeta) : parseNamespaceName m.key = some (m.ns, m.name) := by
  simp only [parseNamespaceName, m.split_key]

def syncSecret (key : String) : Option State :=
  match parseNamespaceName key with
  | none => some s
  | some (ns, name) =>
    (findIngressesForSecret lbc o s ns name).bind fun ings =>
      match s.listers.secrets.get key with
      | none => handleSecretDeletion lbc o s key ings
      | some secret =>
        let s := if key = lbc.defaultServerSecret then handleDefaultSecretUpdate lbc s secret else s
        if ings = [] then some s else handleSecretUpdate lbc o s secret ings

theorem default_cases (lbc : LBC) (s : State) (key : String) (secret : Secret) :
    ∃ cnf, (cnf = s.cnf ∨ cnf = (s.cnf.addOrUpdateDefaultServerTLSSecret lbc.host secret).1) ∧
      (if key = lbc.defaultServerSecret then handleDefaultSecretUpdate lbc s secret else s) = { s with cnf := cnf } := by
  unfold handleDefaultSecretUpdate
  split
  · split
    · exact ⟨_, .inr rfl, rfl⟩
    · exact ⟨s.cnf, .inl rfl, rfl⟩
  · exact ⟨s.cnf, .inl rfl, rfl⟩

/-- All that a sync of a secret can do: nothing for a key that has no namespace; or else the default
secret may be updated, and unless nothing refers to the secret, the ingresses that do are generated
again, with a file for the secret or without. -/
theorem syncSecret_cases {lbc o s s' key} (h : syncSecret lbc o s key = some s') :
    (parseNamespaceName key = none ∧ s' = s) ∨ ∃ ns name ings cnf, parseNamespaceName key = some (ns, name) ∧
      findIngressesForSecret lbc o s ns name = some ings ∧
      (cnf = s.cnf ∨ ∃ secret, cnf = (s.cnf.addOrUpdateDefaultServerTLSSecret lbc.host secret).1) ∧
      ((ings = [] ∧ s' = { s with cnf := cnf }) ∨
        ∃ rs, createIngresses lbc o { s with cnf := cnf } ings = some rs ∧
          (s' = { s with cnf := (cnf.deleteSecret lbc.host key rs).1 } ∨
            ∃ secret, s.listers.secrets.get key = some secret ∧
              s' = { s with cnf := (cnf.addOrUpdateSecret lbc.host secret rs).1 })) := by
  unfold syncSecret at h
  split at h
  · exact .inl ⟨‹_›, (Option.some.inj h).symm⟩
  rename_i ns name hkey
  obtain ⟨ings, hings, h⟩ := Option.bind_eq_some_iff.mp h
  refine .inr ⟨ns, name, ings, ?_⟩
  split at h
  · obtain ⟨rs, hrs, rfl⟩ := Option.map_eq_some_iff.mp h
    exact ⟨s.cnf, hkey, hings, .inl rfl, .inr ⟨rs, hrs, .inl rfl⟩⟩
  rename_i secret hget
  obtain ⟨cnf, hcnf, hdefault⟩ := default_cases lbc s key secret
  rw [hdefault] at h
  refine ⟨cnf, hkey, hings, hcnf.imp_right fun he => ⟨secret, he⟩, ?_⟩
  dsimp only at h
  split at h
  · exact .inl ⟨‹_›, (Option.some.inj h).symm⟩
  · refine .inr ?_
    unfold handleSecretUpdate at h
    split at h
    · obtain ⟨rs, hrs, rfl⟩ := Option.map_eq_some_iff.mp h
      exact ⟨rs, hrs, .inr ⟨secret, hget, rfl⟩⟩
    · obtain ⟨rs, hrs, rfl⟩ := Option.map_eq_some_iff.mp h
      exact ⟨rs, hrs, .inl (s.listers.secrets.keyed _ _ hget ▸ rfl)⟩

def sync (task : Task) : Option State :=
  match task.kind with
  | .ingress => syncIng lbc o s task.key
  | .ingressMinion => syncIngMinion lbc o s task.key
  | .configMap => syncConfig lbc o s task.key
  | .endpoints => syncEndpoint lbc o s task.key
  | .secret => syncSecret lbc o s task.key
  | .service => syncExternalService lbc o s

end KubeYamls.Nginx
