import KubeYamls.Nginx.Sync
import KubeYamls.Conc.Steps

/-! # Events

What happens to the watched objects, and what the handlers make of it. An
informer stores the object of an event and calls its handler before it goes on
to the next event, so an event is one step; a sync is one step of the worker.
Events and syncs come in any order. -/
namespace KubeYamls.Nginx
open Data Option

/-- An event about an object. An update also says whether anything has changed in the object
apart from the fields that are modelled. A deletion that the watch has missed is noticed by a
relisting: the handler gets the last known object in a `DeletedFinalStateUnknown`. -/
inductive Change (α : Type) where
  | add (obj : α)
  | update (cur : α) (others : Bool)
  | delete (objectMeta : ObjectMeta) (unknown : Bool)

/-- The object an event brings into the lister. -/
def Change.entering {α : Type} : Change α → Option α
  | .add obj => some obj
  | .update cur _ => some cur
  | .delete _ _ => none

/-- Does a deletion carry the object itself? -/
def Change.known {α : Type} : Change α → Bool
  | .delete _ unknown => !unknown
  | _ => true

/-- The lister once it reflects an event, and the object it held before. An object is added
that is not there, updated or deleted if it is. -/
def Change.apply {α : Type} {metaOf : α → ObjectMeta} (l : Lister α metaOf) :
    Change α → Option (Option α × Lister α metaOf)
  | .add obj => if (l.get (metaOf obj).key).isNone then some (none, l.put obj) else none
  | .update cur _ => (l.get (metaOf cur).key).map fun old => (some old, l.put cur)
  | .delete m _ => (l.get m.key).map fun old => (some old, l.remove m)

variable (lbc : LBC) (o : Order)

/-- `CreateIngressHandlers`, once the lister reflects the event. -/
def ingressHandler (s : State) (old : Option Ingress) : Change Ingress → Option State
  | .add ing => some (if lbc.isNginxIngress ing then s.enqueue ing.task else s)
  | .update cur others =>
    some (if lbc.isNginxIngress cur && (others || old ≠ some cur) then s.enqueue cur.task else s)
  | .delete _ unknown =>
    match old with
    | none => some s
    | some ing =>
      if !lbc.isNginxIngress ing then some s
      else if ing.isMinion then
        (findMasterForMinion lbc s.listers o s.cnf ing).map fun r =>
          match r with
          | .error _ => s
          | .ok master => s.enqueue master.task
      -- there is no task for a `DeletedFinalStateUnknown`
      else some (if unknown then s else s.enqueue ing.task)

def enqueueIngressForService (s : State) (svc : Service) : Option State :=
  (gather (fun ing =>
    if !lbc.isNginxIngress ing then some none
    else if ing.isMinion then
      (findMasterForMinion lbc s.listers o s.cnf ing).map fun r =>
        (r.toOption.filter s.cnf.hasIngress).map Ingress.task
    else some (if s.cnf.hasIngress ing then some ing.task else none))
    (getIngressesForService o s svc)).map s.enqueueAll

/-- The order of `portSort`. -/
def portLe (a b : ServicePort) : Prop := if a.name = b.name then a.port ≤ b.port else a.name ≤ b.name

instance : DecidableRel portLe := fun a b => by unfold portLe; infer_instance

def Service.sorted (svc : Service) : Service :=
  { svc with
    ports := svc.ports.insertionSort portLe
    nodup_names := ((List.perm_insertionSort portLe svc.ports).map _).nodup_iff.mpr svc.nodup_names }

def hasServicePortChanges (old cur : Service) : Bool :=
  old.ports.length ≠ cur.ports.length ||
    (old.sorted.ports.map fun p => (p.port, p.name)) ≠ (cur.sorted.ports.map fun p => (p.port, p.name))

def hasServiceExternalNameChanges (old cur : Service) : Bool :=
  cur.type = .externalName && old.externalName ≠ cur.externalName

def hasServiceChanges (old cur : Service) : Bool :=
  hasServicePortChanges old cur || hasServiceExternalNameChanges old cur

def State.sortPorts (s : State) (old cur : Service) : State :=
  if old.ports.length = cur.ports.length then
    { s with listers := { s.listers with services := s.listers.services.put cur.sorted } }
  else s

def serviceHandler (s : State) (old : Option Service) : Change Service → Option State
  | .add svc =>
    if lbc.isExternalServiceForStatus svc then some (s.enqueue ⟨.service, svc.objectMeta.key⟩)
    else enqueueIngressForService lbc o s svc
  | .update cur others =>
    match old with
    | none => some s
    | some old =>
      if !others && old = cur then some s
      else if lbc.isExternalServiceForStatus cur then some (s.enqueue ⟨.service, cur.objectMeta.key⟩)
      else
        let s := s.sortPorts old cur
        if hasServiceChanges old cur then enqueueIngressForService lbc o s cur else some s
  | .delete _ _ =>
    match old with
    | none => some s
    | some svc =>
      if lbc.isExternalServiceForStatus svc then some (s.enqueue ⟨.service, svc.objectMeta.key⟩)
      else enqueueIngressForService lbc o s svc

/-- The handlers that queue a task for the object itself: what of an event does so. -/
def enqueues {α : Type} [DecidableEq α] (valid : α → Bool) (old : Option α) : Change α → Bool
  | .add obj => valid obj
  | .update cur others => (valid cur || old.any valid) && (others || old ≠ some cur)
  | .delete _ unknown => old.any valid && !unknown

def Change.objectMeta {α : Type} (metaOf : α → ObjectMeta) : Change α → ObjectMeta
  | .add obj => metaOf obj
  | .update cur _ => metaOf cur
  | .delete m _ => m

def selfHandler {α : Type} [DecidableEq α] (kind : Kind) (metaOf : α → ObjectMeta) (valid : α → Bool)
    (s : State) (old : Option α) (c : Change α) : State :=
  if enqueues valid old c then s.enqueue ⟨kind, (c.objectMeta metaOf).key⟩ else s

/-- `CreateEndpointHandlers` -/
def endpointHandler : State → Option Endpoints → Change Endpoints → State :=
  selfHandler .endpoints Endpoints.objectMeta fun _ => true

/-- `CreateSecretHandlers`: events between secrets that are not valid are ignored. -/
def secretHandler : State → Option Secret → Change Secret → State :=
  selfHandler .secret Secret.objectMeta fun secret => (lbc.validateSecret secret).isOk

/-- `CreateConfigMapHandlers`, for the one ConfigMap of the flags. -/
def configMapHandler (name : String) : State → Option ConfigMap → Change ConfigMap → State :=
  selfHandler .configMap ConfigMap.objectMeta fun cfgm => cfgm.objectMeta.name = name

inductive Label where
  | ingress (c : Change Ingress) (o : Order)
  | service (c : Change Service) (o : Order)
  | endpoints (c : Change Endpoints)
  | secret (c : Change Secret)
  | configMap (c : Change ConfigMap) (name : String)
  /-- The worker syncs the next task. -/
  | sync (o : Order)
  /-- A delayed task is queued again. -/
  | wake (t : Task)

/-- The state with a lister that reflects an event. -/
def State.withIngresses (s : State) (l : Lister Ingress Ingress.objectMeta) : State :=
  { s with listers := { s.listers with ingresses := l } }

def State.withServices (s : State) (l : Lister Service Service.objectMeta) : State :=
  { s with listers := { s.listers with services := l } }

def State.withEndpoints (s : State) (l : Lister Endpoints Endpoints.objectMeta) : State :=
  { s with listers := { s.listers with endpoints := l } }

/-- The secret lister is up to date: the API server has the same secrets. -/
def State.withSecrets (s : State) (l : Lister Secret Secret.objectMeta) : State :=
  { s with listers := { s.listers with secrets := l, apiSecrets := l } }

def State.withConfigMaps (s : State) (l : Lister ConfigMap ConfigMap.objectMeta) : State :=
  { s with listers := { s.listers with configMaps := l } }

/-- One step; there is none if the label cannot be taken, or if the code panics. -/
def step : Label → State → Option State
  | .ingress c o, s =>
    (c.apply s.listers.ingresses).bind fun r => ingressHandler lbc o (s.withIngresses r.2) r.1 c
  | .service c o, s =>
    (c.apply s.listers.services).bind fun r => serviceHandler lbc o (s.withServices r.2) r.1 c
  | .endpoints c, s =>
    (c.apply s.listers.endpoints).map fun r => endpointHandler (s.withEndpoints r.2) r.1 c
  | .secret c, s =>
    (c.apply s.listers.secrets).map fun r => secretHandler lbc (s.withSecrets r.2) r.1 c
  | .configMap c name, s =>
    (c.apply s.listers.configMaps).map fun r => configMapHandler name (s.withConfigMaps r.2) r.1 c
  | .sync o, s =>
    match s.queue with
    | [] => none
    | t :: ts => sync lbc o { s with queue := ts } t
  | .wake t, s =>
    if t ∈ s.delayed then some ({ s with delayed := s.delayed.erase t }.enqueue t) else none

section withIngresses
variable (s : State) (l : Lister Ingress Ingress.objectMeta)

@[simp] theorem State.withIngresses_ingresses : (s.withIngresses l).listers.ingresses = l := rfl
@[simp] theorem State.withIngresses_cnf : (s.withIngresses l).cnf = s.cnf := rfl
@[simp] theorem State.withIngresses_queue : (s.withIngresses l).queue = s.queue := rfl

end withIngresses

theorem State.enqueue_withIngresses (s : State) (l : Lister Ingress Ingress.objectMeta) (t : Task) :
    (s.withIngresses l).enqueue t = (s.enqueue t).withIngresses l := by
  unfold State.enqueue State.withIngresses
  split <;> rfl

section cases
variable {lbc : LBC} {o : Order} {s s' : State}

theorem apply_add {α : Type} {metaOf l obj}
    {r : Option α × Lister α metaOf} (h : (Change.add obj).apply l = some r) :
    l.get (metaOf obj).key = none ∧ r = (none, l.put obj) := by
  simp only [Change.apply] at h
  split at h
  · rename_i hn
    exact ⟨isNone_iff_eq_none.mp hn, (some.inj h).symm⟩
  · cases h

theorem apply_update {α : Type} {metaOf l cur others} {r : Option α × Lister α metaOf} (h : (Change.update cur others).apply l = some r) :
    ∃ old, l.get (metaOf cur).key = some old ∧ r = (some old, l.put cur) := by
  obtain ⟨old, hold, h⟩ := map_eq_some_iff.mp h
  exact ⟨old, hold, h.symm⟩

theorem apply_delete {α : Type} {metaOf l m unknown} {r : Option α × Lister α metaOf} (h : (Change.delete m unknown).apply l = some r) :
    ∃ old, l.get m.key = some old ∧ r = (some old, l.remove m) := by
  obtain ⟨old, hold, h⟩ := map_eq_some_iff.mp h
  exact ⟨old, hold, h.symm⟩

theorem apply_get_ne {α : Type} {metaOf l} {c : Change α}
    {r : Option α × Lister α metaOf} {key : String} (h : c.apply l = some r)
    (hkey : key ≠ (c.objectMeta metaOf).key) : r.2.get key = l.get key := by
  cases c with
  | add obj =>
    obtain ⟨_, rfl⟩ := apply_add h
    exact Lister.get_put_ne hkey
  | update cur others =>
    obtain ⟨old, _, rfl⟩ := apply_update h
    exact Lister.get_put_ne hkey
  | delete m unknown =>
    obtain ⟨old, _, rfl⟩ := apply_delete h
    exact Lister.get_remove_ne hkey

theorem apply_update_same {α : Type} {metaOf l cur others} {r : Option α × Lister α metaOf} (h : (Change.update cur others).apply l = some r)
    (hsame : r.1 = some cur) (key : String) : r.2.get key = l.get key := by
  obtain ⟨old, hold, rfl⟩ := apply_update h
  obtain rfl := some.inj hsame
  exact Lister.get_put_of_mem (Lister.mem_items.mpr hold) key

section enqueues
variable {α : Type} [DecidableEq α] {metaOf : α → ObjectMeta} {l : Lister α metaOf} {c : Change α}
  {r : Option α × Lister α metaOf} {valid : α → Bool}

theorem exists_of_enqueues (h : c.apply l = some r) (hq : enqueues valid r.1 c = true) :
    ∃ a, metaOf a = c.objectMeta metaOf ∧ valid a = true := by
  cases c with
  | add obj => exact ⟨obj, rfl, hq⟩
  | update cur others =>
    obtain ⟨old, hold, rfl⟩ := apply_update h
    rcases Bool.or_eq_true_iff.mp (Bool.and_eq_true_iff.mp hq).1 with hcur | hold'
    · exact ⟨cur, rfl, hcur⟩
    · exact ⟨old, ObjectMeta.key_inj.mp (l.keyed _ _ hold), hold'⟩
  | delete m unknown =>
    obtain ⟨old, hold, rfl⟩ := apply_delete h
    exact ⟨old, ObjectMeta.key_inj.mp (l.keyed _ _ hold), (Bool.and_eq_true_iff.mp hq).1⟩

/-- No task is queued only if nothing has changed, or the watch has missed a deletion, or what was
there was not valid and neither is what comes or goes. -/
theorem not_enqueues_cases (h : c.apply l = some r) (hq : enqueues valid r.1 c = false) :
    (∀ key, r.2.get key = l.get key) ∨ (∃ m, c = .delete m true) ∨
      ((∀ old ∈ l.get (c.objectMeta metaOf).key, valid old = false) ∧
        ∃ a, metaOf a = c.objectMeta metaOf ∧ valid a = false) := by
  cases c with
  | add obj =>
    obtain ⟨hnone, rfl⟩ := apply_add h
    exact .inr (.inr ⟨fun old hold => by simp [Change.objectMeta, hnone] at hold, obj, rfl, hq⟩)
  | update cur others =>
    obtain ⟨old, hold, rfl⟩ := apply_update h
    by_cases hsame : old = cur
    · exact .inl (apply_update_same h (congrArg some hsame))
    · have hboth : valid cur = false ∧ valid old = false := by simpa [enqueues, hsame] using hq
      refine .inr (.inr ⟨fun old' hold' => ?_, cur, rfl, hboth.1⟩)
      obtain rfl : old = old' := some.inj (hold.symm.trans hold')
      exact hboth.2
  | delete m unknown =>
    obtain ⟨old, hold, rfl⟩ := apply_delete h
    cases unknown with
    | true => exact .inr (.inl ⟨m, rfl⟩)
    | false =>
      have hold' : valid old = false := by simpa [enqueues] using hq
      refine .inr (.inr ⟨fun old' hget => ?_, old, ObjectMeta.key_inj.mp (l.keyed _ _ hold), hold'⟩)
      obtain rfl : old = old' := some.inj (hold.symm.trans hget)
      exact hold'

/-- For a valid object no task is queued only if nothing has changed, or the watch has missed its
deletion. -/
theorem same_of_not_enqueues (h : c.apply l = some r) (hq : enqueues valid r.1 c = false)
    (hvalid : ∀ a, metaOf a = c.objectMeta metaOf → valid a = true) :
    (∀ key, r.2.get key = l.get key) ∨ ∃ m, c = .delete m true := by
  obtain hsame | hmissed | ⟨_, a, ha, hno⟩ := not_enqueues_cases h hq
  · exact .inl hsame
  · exact .inr hmissed
  · exact absurd (hvalid a ha) (by simp [hno])

end enqueues

theorem step_ingress_cases {c} (h : step lbc (.ingress c o) s = some s') :
    (∃ ing, c = .add ing ∧ s.listers.ingresses.get ing.objectMeta.key = none ∧
      s' = if lbc.isNginxIngress ing then (s.withIngresses (s.listers.ingresses.put ing)).enqueue ing.task
        else s.withIngresses (s.listers.ingresses.put ing)) ∨ (∃ cur others old, c = .update cur others ∧
      s.listers.ingresses.get cur.objectMeta.key = some old ∧
      s' = if lbc.isNginxIngress cur = true ∧ (others = true ∨ old ≠ cur) then
          (s.withIngresses (s.listers.ingresses.put cur)).enqueue cur.task
        else s.withIngresses (s.listers.ingresses.put cur)) ∨
    (∃ m unknown old, c = .delete m unknown ∧ s.listers.ingresses.get m.key = some old ∧
      ingressHandler lbc o (s.withIngresses (s.listers.ingresses.remove m)) (some old) c = some s') := by
  obtain ⟨r, hr, h⟩ := bind_eq_some_iff.mp h
  cases c with
  | add ing =>
    obtain ⟨hn, rfl⟩ := apply_add hr
    exact .inl ⟨ing, rfl, hn, (some.inj h).symm⟩
  | update cur others =>
    obtain ⟨old, hold, rfl⟩ := apply_update hr
    refine .inr (.inl ⟨cur, others, old, rfl, hold, (some.inj h).symm.trans ?_⟩)
    simp
  | delete m unknown =>
    obtain ⟨old, hold, rfl⟩ := apply_delete hr
    exact .inr (.inr ⟨m, unknown, old, rfl, hold, h⟩)

theorem ingressHandler_delete {m unknown old}
    (h : ingressHandler lbc o s (some old) (.delete m unknown) = some s') :
    (lbc.isNginxIngress old = false ∧ s' = s) ∨ (lbc.isNginxIngress old = true ∧ old.isMinion = true ∧
      ((∃ err, findMasterForMinion lbc s.listers o s.cnf old = some (.error err) ∧ s' = s) ∨
        ∃ master, findMasterForMinion lbc s.listers o s.cnf old = some (.ok master) ∧
          s' = s.enqueue master.task)) ∨ (lbc.isNginxIngress old = true ∧ old.isMinion = false ∧
      s' = if unknown then s else s.enqueue old.task) := by
  simp only [ingressHandler] at h
  cases hn : lbc.isNginxIngress old with
  | false => exact .inl ⟨rfl, by simpa [hn] using h.symm⟩
  | true =>
    cases hm : old.isMinion with
    | false =>
      refine .inr (.inr ⟨rfl, rfl, ?_⟩)
      simpa [hn, hm] using h.symm
    | true =>
      simp only [hn, hm, Bool.not_true, Bool.false_eq_true, if_false, if_true] at h
      obtain ⟨r, hr, h⟩ := map_eq_some_iff.mp h
      refine .inr (.inl ⟨rfl, rfl, ?_⟩)
      cases r with
      | error err => exact .inl ⟨err, hr, h.symm⟩
      | ok master => exact .inr ⟨master, hr, h.symm⟩

/-- All that an event about Endpoints can do: unless nothing has changed, or the deletion is not
known, a task is queued. -/
theorem step_endpoints_cases {c} (h : step lbc (.endpoints c) s = some s') : (∃ e, c.entering = some e ∧
      ((e ∈ s.listers.endpoints.items ∧ s' = s.withEndpoints (s.listers.endpoints.put e)) ∨
        s' = (s.withEndpoints (s.listers.endpoints.put e)).enqueue ⟨.endpoints, e.objectMeta.key⟩)) ∨
    (∃ m unknown, c = .delete m unknown ∧ (s' = s.withEndpoints (s.listers.endpoints.remove m) ∨
        s' = (s.withEndpoints (s.listers.endpoints.remove m)).enqueue ⟨.endpoints, m.key⟩)) := by
  obtain ⟨r, hr, rfl⟩ := map_eq_some_iff.mp h
  unfold endpointHandler selfHandler
  cases c with
  | add e =>
    obtain ⟨_, rfl⟩ := apply_add hr
    exact .inl ⟨e, rfl, .inr rfl⟩
  | update cur others =>
    obtain ⟨old, hold, rfl⟩ := apply_update hr
    refine .inl ⟨cur, rfl, ?_⟩
    split
    · exact .inr rfl
    · rename_i hno
      obtain rfl : old = cur := by
        by_contra hne
        exact hno (by simp [enqueues, hne])
      exact .inl ⟨Lister.mem_items.mpr hold, rfl⟩
  | delete m unknown =>
    obtain ⟨old, _, rfl⟩ := apply_delete hr
    refine .inr ⟨m, unknown, rfl, ?_⟩
    split
    · exact .inr rfl
    · exact .inl rfl

theorem step_sync_cases (h : step lbc (.sync o) s = some s') :
    ∃ t ts, s.queue = t :: ts ∧ sync lbc o { s with queue := ts } t = some s' := by
  simp only [step] at h
  cases hq : s.queue with
  | nil => simp [hq] at h
  | cons t ts => exact ⟨t, ts, rfl, by simpa [hq] using h⟩

theorem step_wake_cases {t} (h : step lbc (.wake t) s = some s') :
    t ∈ s.delayed ∧ s' = { s with delayed := s.delayed.erase t }.enqueue t := by
  simp only [step] at h
  split at h
  · rename_i hd
    exact ⟨hd, (some.inj h).symm⟩
  · cases h

end cases

section plain

/-- A controller around which everything works: templates take every configuration, and
NGINX reloads. -/
def plainLBC (isPlus : Bool) : LBC where
  host :=
    { isPlus := isPlus
      parseMainTemplate := fun _ => .ok fun _ => .ok ""
      parseIngressTemplate := fun _ => .ok fun _ => .ok ""
      writeDHParam := fun _ => .ok ()
      reload := fun _ => .ok ()
      updateServers := fun _ _ _ _ => .ok () }
  ingressClass := "nginx"
  useIngressClassOnly := false
  defaultServerSecret := "nginx-ingress/default-server-secret"
  controllerNamespace := "nginx-ingress"
  externalServiceName := "nginx-ingress"
  parseConfigMap := fun _ _ => newDefaultConfig

def noListers : Listers := ⟨∅, ∅, ∅, ∅, ∅, ∅, fun _ _ => some []⟩

/-- The controller after its start, with nothing watched. -/
def started : State where
  listers := noListers
  cnf := .new newDefaultConfig (fun _ => .ok "") fun _ => .ok ""

theorem legal_default : isDNS1123Label "default" = true := by decide

/-- An ingress "default/cafe" for one path of a host. -/
def cafe (annotations : List (String × String)) : Ingress where
  objectMeta := ⟨"default", "cafe", legal_default, by decide⟩
  annotations := annotations
  creationTimestamp := 0
  backend := none
  tls := []
  rules := [⟨"cafe.example.com", some [⟨"/coffee", "coffee-svc", .int 80⟩]⟩]

/-- A master ("master") or a minion ("minion") for a host. -/
def mergeableIngress (m : ObjectMeta) (kind host : String) (paths : Option (List HTTPPath)) : Ingress where
  objectMeta := m
  annotations := [("nginx.org/mergeable-ingress-type", kind)]
  creationTimestamp := 0
  backend := none
  tls := []
  rules := [⟨host, paths⟩]

def shopMaster : Ingress :=
  mergeableIngress ⟨"default", "shop", legal_default, by decide⟩ "master" "shop.example.com" none

def shopMinion : Ingress :=
  mergeableIngress ⟨"default", "cart", legal_default, by decide⟩ "minion" "shop.example.com"
    (some [⟨"/cart", "cart-svc", .int 80⟩])

end plain

end KubeYamls.Nginx
