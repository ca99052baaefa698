import KubeYamls.Nginx.Events

/-! # Deletions that the watch has missed

An informer that finds an object gone after a relisting gives its last known state to the
`DeleteFunc` in a `DeletedFinalStateUnknown`. Each handler takes the object out of it, but
most hand on to the queue what they were given, and the queue has no task for that type. -/
namespace KubeYamls.Nginx
open Data List

/-- What a handler or the queue is given, by its dynamic type. -/
inductive Delivered where
  | ingress (ing : Ingress)
  | endpoints (endps : Endpoints)
  | configMap (cfgm : ConfigMap)
  | secret (secr : Secret)
  | service (svc : Service)
  | deletedFinalStateUnknown (key : String) (obj : Delivered)

namespace Delivered

def asIngress : Delivered → Option Ingress
  | .ingress ing => some ing
  | _ => none

def asEndpoints : Delivered → Option Endpoints
  | .endpoints endps => some endps
  | _ => none

def asConfigMap : Delivered → Option ConfigMap
  | .configMap cfgm => some cfgm
  | _ => none

def asSecret : Delivered → Option Secret
  | .secret secr => some secr
  | _ => none

def asService : Delivered → Option Service
  | .service svc => some svc
  | _ => none

/-- The type assertions at the beginning of every `DeleteFunc`: the object itself, or the one
in a `DeletedFinalStateUnknown`. -/
def unwrap {α : Type} (as : Delivered → Option α) (obj : Delivered) : Option α :=
  match as obj, obj with
  | some a, _ => some a
  | none, .deletedFinalStateUnknown _ held => as held
  | none, _ => none

/-- `DeletionHandlingMetaNamespaceKeyFunc`; every object has a namespace. -/
def keyFunc : Delivered → String
  | .ingress ing => ing.objectMeta.key
  | .endpoints endps => endps.objectMeta.key
  | .configMap cfgm => cfgm.objectMeta.key
  | .secret secr => secr.objectMeta.key
  | .service svc => svc.objectMeta.key
  | .deletedFinalStateUnknown key _ => key

/-- `NewTask`; the error is only logged. -/
def newTask (key : String) : Delivered → Option Task
  | .ingress ing => some ⟨if ing.isMinion then .ingressMinion else .ingress, key⟩
  | .endpoints _ => some ⟨.endpoints, key⟩
  | .configMap _ => some ⟨.configMap, key⟩
  | .secret _ => some ⟨.secret, key⟩
  | .service _ => some ⟨.service, key⟩
  | .deletedFinalStateUnknown _ _ => none

/-- `Enqueue`: the task that is added to the queue, if any. -/
def enqueued (obj : Delivered) : List Task := (newTask obj.keyFunc obj).toList

end Delivered

/-! ## The handlers

The tasks that each `DeleteFunc` adds, in a state whose lister reflects the deletion. There is
no result where the code panics. -/

variable (lbc : LBC) (o : Order) (s : State)

/-- The `DeleteFunc` of `CreateIngressHandlers`. -/
def ingressDeleted (obj : Delivered) : Option (List Task) :=
  match obj.unwrap Delivered.asIngress with
  | none => some []
  | some ingress =>
    if !lbc.isNginxIngress ingress then some []
    else if ingress.isMinion then
      (findMasterForMinion lbc s.listers o s.cnf ingress).map fun r =>
        match r with
        | .error _ => []
        | .ok master => (Delivered.ingress master).enqueued
    else some obj.enqueued

/-- The tasks of `EnqueueIngressForService`. -/
def tasksForService (svc : Service) : Option (List Task) :=
  gather (fun ing =>
    if !lbc.isNginxIngress ing then some none
    else if ing.isMinion then
      (findMasterForMinion lbc s.listers o s.cnf ing).map fun r =>
        (r.toOption.filter s.cnf.hasIngress).map Ingress.task
    else some (if s.cnf.hasIngress ing then some ing.task else none))
    (getIngressesForService o s svc)

/-- The `DeleteFunc` of `CreateServiceHandlers`. -/
def serviceDeleted (obj : Delivered) : Option (List Task) :=
  match obj.unwrap Delivered.asService with
  | none => some []
  | some svc =>
    if lbc.isExternalServiceForStatus svc then some (Delivered.service svc).enqueued
    else tasksForService lbc o s svc

/-- The handlers that hand on what they were given, for an object of a certain kind. -/
def selfDeleted {α : Type} (as : Delivered → Option α) (acts : α → Bool) (obj : Delivered) : List Task :=
  match obj.unwrap as with
  | none => []
  | some a => if acts a then obj.enqueued else []

/-- The `DeleteFunc` of `CreateSecretHandlers`. -/
def secretDeleted : Delivered → List Task :=
  selfDeleted Delivered.asSecret fun secret => (lbc.validateSecret secret).isOk

/-- The `DeleteFunc` of `CreateEndpointHandlers`. -/
def endpointsDeleted : Delivered → List Task := selfDeleted Delivered.asEndpoints fun _ => true

/-- The `DeleteFunc` of `CreateConfigMapHandlers`. -/
def configMapDeleted (name : String) : Delivered → List Task :=
  selfDeleted Delivered.asConfigMap fun cfgm => cfgm.objectMeta.name = name

/-! ## The same tasks -/

/-- Where a deletion that carries the object adds tasks, one that carries it in a
`DeletedFinalStateUnknown` adds the same. -/
def ActsAlike (deleted : Delivered → Option (List Task)) (obj : Delivered) : Prop :=
  ∀ ts, deleted obj = some ts → ts ≠ [] → deleted (.deletedFinalStateUnknown obj.keyFunc obj) = some ts

variable {lbc o s}

/-- What is handed on is lost, so an object is acted upon alike only if it is not acted upon. -/
theorem selfDeleted_alike {α : Type} (as : Delivered → Option α) (acts : α → Bool) (obj : Delivered) {a}
    (hobj : as obj = some a) (hwrap : ∀ key held, as (.deletedFinalStateUnknown key held) = none)
    (htask : obj.enqueued ≠ []) : ActsAlike (fun obj => some (selfDeleted as acts obj)) obj ↔ acts a = false := by
  have hself : selfDeleted as acts obj = if acts a then obj.enqueued else [] := by
    simp only [selfDeleted, Delivered.unwrap, hobj]
  have hlost : selfDeleted as acts (.deletedFinalStateUnknown obj.keyFunc obj) = [] := by
    simp only [selfDeleted, Delivered.unwrap, hwrap, hobj]
    split <;> rfl
  simp only [ActsAlike, hself, hlost, Option.some.injEq]
  cases acts a with
  | false => simp
  | true => simp [htask, eq_comm]

theorem ingressDeleted_alike (ing : Ingress) : ActsAlike (ingressDeleted lbc o s) (.ingress ing) ↔
    (lbc.isNginxIngress ing = true → ing.isMinion = true) := by
  have hsame : ∀ key, (lbc.isNginxIngress ing = true → ing.isMinion = true) →
      ingressDeleted lbc o s (.deletedFinalStateUnknown key (.ingress ing)) =
        ingressDeleted lbc o s (.ingress ing) := by
    intro key hminion
    simp only [ingressDeleted, Delivered.unwrap, Delivered.asIngress]
    cases hn : lbc.isNginxIngress ing with
    | false => rfl
    | true => simp [hminion hn]
  constructor
  · intro halike hn
    by_contra hm
    have hts : ingressDeleted lbc o s (.ingress ing) = some (Delivered.ingress ing).enqueued := by
      simp [ingressDeleted, Delivered.unwrap, Delivered.asIngress, hn, hm]
    have hlost : ingressDeleted lbc o s (.deletedFinalStateUnknown ing.objectMeta.key (.ingress ing)) = some [] := by
      simp [ingressDeleted, Delivered.unwrap, Delivered.asIngress, hn, hm, Delivered.enqueued, Delivered.newTask]
    have hnil := hlost.symm.trans (halike _ hts (cons_ne_nil _ _))
    exact cons_ne_nil _ _ (Option.some.inj hnil).symm
  · intro hminion ts hts _
    exact (hsame _ hminion).trans hts

theorem serviceDeleted_alike (svc : Service) : ActsAlike (serviceDeleted lbc o s) (.service svc) :=
  fun _ hts _ => hts

/-- A deletion in a `DeletedFinalStateUnknown` adds the tasks of the deletion itself exactly for
services, for minions, and for objects whose deletion is not acted upon. -/
theorem tombstones_iff (lbc : LBC) (o : Order) (s : State) (configMapName : String) :
    (∀ ing, ActsAlike (ingressDeleted lbc o s) (.ingress ing) ↔
      (lbc.isNginxIngress ing = true → ing.isMinion = true)) ∧
    (∀ secret, ActsAlike (fun obj => some (secretDeleted lbc obj)) (.secret secret) ↔
      (lbc.validateSecret secret).isOk = false) ∧
    (∀ endps, ¬ActsAlike (fun obj => some (endpointsDeleted obj)) (.endpoints endps)) ∧
    (∀ svc, ActsAlike (serviceDeleted lbc o s) (.service svc)) ∧
    (∀ cfgm, ActsAlike (fun obj => some (configMapDeleted configMapName obj)) (.configMap cfgm) ↔
      cfgm.objectMeta.name ≠ configMapName) := by
  refine ⟨ingressDeleted_alike, fun secret => ?_, fun endps h => ?_, serviceDeleted_alike, fun cfgm => ?_⟩
  · exact selfDeleted_alike Delivered.asSecret _ (.secret secret) rfl (fun _ _ => rfl) (cons_ne_nil _ _)
  · have hnone := (selfDeleted_alike Delivered.asEndpoints _ (.endpoints endps) rfl (fun _ _ => rfl)
      (cons_ne_nil _ _)).mp h
    cases hnone
  · exact (selfDeleted_alike Delivered.asConfigMap _ (.configMap cfgm) rfl (fun _ _ => rfl)
      (cons_ne_nil _ _)).trans decide_eq_false_iff_not

section samples

theorem legal_lost : isDNS1123Subdomain "cafe-secret" = true := by decide

def lostSecret : Secret := ⟨⟨"default", "cafe-secret", legal_default, legal_lost⟩, [("tls.crt", []), ("tls.key", [])]⟩

def lostEndpoints : Endpoints := ⟨(cafe []).objectMeta, []⟩

def lostConfigMap : ConfigMap := ⟨(cafe []).objectMeta, []⟩

/-- What a deletion adds, and what it adds if the watch has missed it. -/
theorem tombstones_lost :
    (ingressDeleted (plainLBC false) .same started (.ingress (cafe [])) = some [⟨.ingress, "default/cafe"⟩] ∧
      ingressDeleted (plainLBC false) .same started
        (.deletedFinalStateUnknown "default/cafe" (.ingress (cafe []))) = some []) ∧
    (secretDeleted (plainLBC false) (.secret lostSecret) = [⟨.secret, "default/cafe-secret"⟩] ∧
      secretDeleted (plainLBC false)
        (.deletedFinalStateUnknown "default/cafe-secret" (.secret lostSecret)) = []) ∧
    (endpointsDeleted (.endpoints lostEndpoints) = [⟨.endpoints, "default/cafe"⟩] ∧
      endpointsDeleted (.deletedFinalStateUnknown "default/cafe" (.endpoints lostEndpoints)) = []) ∧
    (configMapDeleted "cafe" (.configMap lostConfigMap) = [⟨.configMap, "default/cafe"⟩] ∧
      configMapDeleted "cafe" (.deletedFinalStateUnknown "default/cafe" (.configMap lostConfigMap)) = []) := by
  decide

end samples

/-! ## The events

What an event of a deletion does is what the `DeleteFunc` does with what it is given. -/

/-- What the `DeleteFunc` is given. -/
def delivery (unknown : Bool) (obj : Delivered) : Delivered :=
  if unknown then .deletedFinalStateUnknown obj.keyFunc obj else obj

theorem ingressHandler_eq (lbc : LBC) (o : Order) (s : State) (ing : Ingress) (unknown : Bool) :
    ingressHandler lbc o s (some ing) (.delete ing.objectMeta unknown) =
      (ingressDeleted lbc o s (delivery unknown (.ingress ing))).map s.enqueueAll := by
  have hunwrap : (delivery unknown (.ingress ing)).unwrap Delivered.asIngress = some ing := by
    cases unknown <;> rfl
  simp only [ingressHandler, ingressDeleted, hunwrap]
  cases lbc.isNginxIngress ing with
  | false => rfl
  | true =>
    cases hm : ing.isMinion with
    | true =>
      simp only [Bool.not_true, Bool.false_eq_true, if_false, if_true, Option.map_map]
      refine congrFun (congrArg Option.map (funext fun r => ?_)) _
      cases r <;> rfl
    | false =>
      cases unknown with
      | true | false => rfl

theorem serviceHandler_eq (lbc : LBC) (o : Order) (s : State) (svc : Service) (unknown : Bool) :
    serviceHandler lbc o s (some svc) (.delete svc.objectMeta unknown) =
      (serviceDeleted lbc o s (delivery unknown (.service svc))).map s.enqueueAll := by
  have hunwrap : (delivery unknown (.service svc)).unwrap Delivered.asService = some svc := by
    cases unknown <;> rfl
  simp only [serviceHandler, serviceDeleted, hunwrap]
  split <;> rfl

theorem selfHandler_eq {α : Type} [DecidableEq α] {kind metaOf valid as} (s : State) {a : α} {obj} (unknown : Bool) (hobj : as obj = some a)
    (hwrap : ∀ key held, as (.deletedFinalStateUnknown key held) = none)
    (htask : obj.enqueued = [⟨kind, (metaOf a).key⟩]) :
    selfHandler kind metaOf valid s (some a) (.delete (metaOf a) unknown) =
      s.enqueueAll (selfDeleted as valid (delivery unknown obj)) := by
  have hunwrap : (delivery unknown obj).unwrap as = some a := by
    cases unknown with
    | true => simp [delivery, Delivered.unwrap, hwrap, hobj]
    | false => simp [delivery, Delivered.unwrap, hobj]
  simp only [selfHandler, enqueues, selfDeleted, hunwrap, Option.any_some]
  by_cases hv : valid a = true
  · cases unknown with
    | true => simp [delivery, Delivered.enqueued, Delivered.newTask, State.enqueueAll]
    | false => simp [hv, delivery, htask, State.enqueueAll, Change.objectMeta]
  · simp [hv, State.enqueueAll]

theorem secretHandler_eq (lbc : LBC) (s : State) (secret : Secret) (unknown : Bool) :
    secretHandler lbc s (some secret) (.delete secret.objectMeta unknown) =
      s.enqueueAll (secretDeleted lbc (delivery unknown (.secret secret))) :=
  selfHandler_eq s unknown rfl (fun _ _ => rfl) rfl

theorem endpointHandler_eq (s : State) (endps : Endpoints) (unknown : Bool) :
    endpointHandler s (some endps) (.delete endps.objectMeta unknown) =
      s.enqueueAll (endpointsDeleted (delivery unknown (.endpoints endps))) :=
  selfHandler_eq s unknown rfl (fun _ _ => rfl) rfl

theorem configMapHandler_eq (name : String) (s : State) (cfgm : ConfigMap) (unknown : Bool) :
    configMapHandler name s (some cfgm) (.delete cfgm.objectMeta unknown) =
      s.enqueueAll (configMapDeleted name (delivery unknown (.configMap cfgm))) :=
  selfHandler_eq s unknown rfl (fun _ _ => rfl) rfl

end KubeYamls.Nginx
