import KubeYamls.Nginx.Configurator

/-! # The controller

How the controller looks things up and what it hands to the Configurator. Go
panics where a list is indexed that is empty; the functions that can do so return
`none` then. Errors that are only logged are `none` as well, where there is no
panic to tell them from. -/
namespace KubeYamls.Nginx
open Data List

/-- The objects of one kind that an informer has seen, each under its own key. -/
structure Lister (α : Type) (metaOf : α → ObjectMeta) where
  table : Table String α
  keyed : ∀ key a, table.lookup key = some a → (metaOf a).key = key

namespace Lister
variable {α : Type} {metaOf : α → ObjectMeta}

instance : EmptyCollection (Lister α metaOf) := ⟨⟨∅, fun key a h => by simp at h⟩⟩

/-- `Store.GetByKey` -/
def get (l : Lister α metaOf) (key : String) : Option α := l.table.lookup key

/-- `Store.List`, in the order the table has. -/
def items (l : Lister α metaOf) : List α := l.table.entries.map Sigma.snd

def put (l : Lister α metaOf) (a : α) : Lister α metaOf where
  table := l.table.insert (metaOf a).key a
  keyed key b h := by
    rcases Table.lookup_insert_iff.mp h with ⟨rfl, rfl⟩ | ⟨_, h⟩
    · rfl
    · exact l.keyed key b h

def remove (l : Lister α metaOf) (m : ObjectMeta) : Lister α metaOf where
  table := l.table.erase m.key
  keyed key b h := l.keyed key b (Table.lookup_erase_iff.mp h).2

def ofList (as : List α) : Lister α metaOf := as.foldl put ∅

variable {l : Lister α metaOf} {a : α}

theorem mem_items : a ∈ l.items ↔ l.get (metaOf a).key = some a := by
  have hmem : ∀ key, ⟨key, a⟩ ∈ l.table.entries ↔ l.get key = some a := fun key =>
    (AList.mem_lookup_iff (s := l.table)).symm
  simp only [items, mem_map]
  constructor
  · intro ⟨e, he, hea⟩
    subst hea
    have hget := (hmem e.1).mp he
    rwa [l.keyed e.1 e.2 hget]
  · intro h
    exact ⟨_, (hmem _).mpr h, rfl⟩

theorem get_put (key : String) : (l.put a).get key = if key = (metaOf a).key then some a else l.get key := by
  rw [get, put, congrFun (Table.lookup_insert_eq_update _ _ _) key, Function.update_apply]
  rfl

theorem get_put_ne {key} (h : key ≠ (metaOf a).key) : (l.put a).get key = l.get key :=
  (get_put key).trans (if_neg h)

theorem nodup_items (l : Lister α metaOf) : l.items.Nodup := by
  refine List.Nodup.of_map (fun a => (metaOf a).key) ?_
  have hkeys : l.items.map (fun a => (metaOf a).key) = l.table.keys := by
    rw [items, map_map]
    refine map_congr_left fun e he => ?_
    exact l.keyed e.1 e.2 (AList.mem_lookup_iff.mpr he)
  exact hkeys ▸ l.table.keys_nodup

@[simp]
theorem get_empty (key : String) : (∅ : Lister α metaOf).get key = none := AList.lookup_empty key

theorem get_foldl_put {as : List α} {key} (h : (as.foldl put l).get key = some a) :
    a ∈ as ∨ l.get key = some a := by
  induction as generalizing l with
  | nil => exact .inr h
  | cons b as ih =>
    rcases ih h with hmem | hget
    · exact .inl (mem_cons_of_mem b hmem)
    · rw [get_put] at hget
      split at hget
      · exact .inl (Option.some.inj hget ▸ mem_cons_self)
      · exact .inr hget

theorem mem_of_get_ofList {as : List α} {key} (h : (ofList as : Lister α metaOf).get key = some a) : a ∈ as :=
  (get_foldl_put h).resolve_right (by simp)

theorem get_remove (m : ObjectMeta) (key : String) :
    (l.remove m).get key = if key = m.key then none else l.get key := by
  rw [get, remove, congrFun (Table.lookup_erase_eq_update _ _) key, Function.update_apply]
  rfl

theorem get_remove_ne {m key} (h : key ≠ m.key) : (l.remove m).get key = l.get key :=
  (get_remove m key).trans (if_neg h)

theorem find?_key (l : Lister α metaOf) (key : String) :
    l.items.find? (fun a => (metaOf a).key = key) = l.get key := by
  cases hget : l.get key with
  | none =>
    refine find?_eq_none.mpr fun a ha hkey => ?_
    rw [← of_decide_eq_true hkey, mem_items.mp ha] at hget
    cases hget
  | some a =>
    have hkey := l.keyed key a hget
    have hmem : a ∈ l.items := mem_items.mpr (hkey ▸ hget)
    have hsome : (l.items.find? fun a => (metaOf a).key = key).isSome = true :=
      find?_isSome.mpr ⟨a, hmem, decide_eq_true hkey⟩
    obtain ⟨b, hb⟩ := Option.isSome_iff_exists.mp hsome
    have hb' := mem_items.mp (mem_of_find?_eq_some hb)
    have hbkey : (metaOf b).key = key := by simpa using find?_some hb
    rw [hb, ← hb', hbkey, hget]

theorem mem_put {b} : b ∈ (l.put a).items ↔ b = a ∨ (metaOf b).key ≠ (metaOf a).key ∧ b ∈ l.items := by
  rw [mem_items, mem_items, get_put]
  by_cases hkey : (metaOf b).key = (metaOf a).key
  · simp [hkey, eq_comm]
  · have hne : b ≠ a := fun he => hkey (he ▸ rfl)
    simp [hkey, hne]

theorem get_put_of_mem (h : a ∈ l.items) (key : String) : (l.put a).get key = l.get key := by
  rw [get_put]
  split
  · rename_i hkey
    rw [hkey, mem_items.mp h]
  · rfl

theorem mem_put_of_mem (h : a ∈ l.items) {b} : b ∈ (l.put a).items ↔ b ∈ l.items := by
  rw [mem_items, mem_items, get_put_of_mem h]

theorem mem_remove {m b} : b ∈ (l.remove m).items ↔ (metaOf b).key ≠ m.key ∧ b ∈ l.items := by
  rw [mem_items, mem_items, get_remove]
  by_cases hkey : (metaOf b).key = m.key <;> simp [hkey]

theorem eq_of_key {b} (ha : a ∈ l.items) (hb : b ∈ l.items) (h : (metaOf a).key = (metaOf b).key) : a = b :=
  Option.some.inj ((mem_items.mp ha).symm.trans (h ▸ mem_items.mp hb))

end Lister

/-- What the informers have seen, and what the API server answers when it is asked. -/
structure Listers where
  ingresses : Lister Ingress Ingress.objectMeta
  services : Lister Service Service.objectMeta
  endpoints : Lister Endpoints Endpoints.objectMeta
  secrets : Lister Secret Secret.objectMeta
  configMaps : Lister ConfigMap ConfigMap.objectMeta
  apiSecrets : Lister Secret Secret.objectMeta
  /-- The pods of a namespace that a selector selects, if the API server answers. -/
  pods : String → List (String × String) → Option (List Pod)

/-- Who lists the ingresses. The store is a map: two calls may see different orders. -/
inductive Caller where
  | managed
  | service
  | secret
  | minionsOf (master : ObjectMeta)
  | masterOf (minion : ObjectMeta)

/-- The order in which each caller sees the ingresses, and in which the map of the
mergeable ones is gone through. -/
structure Order where
  list : Caller → List Ingress → List Ingress
  perm : ∀ c l, (list c l).Perm l
  mergeable : List MergeableIngresses → List MergeableIngresses
  mergeable_perm : ∀ l, (mergeable l).Perm l

/-- The order of the tables for everyone. -/
def Order.same : Order := ⟨fun _ l => l, fun _ _ => .rfl, fun l => l, fun _ => .rfl⟩

/-- The flags of the controller, and what parses a ConfigMap. -/
structure LBC where
  host : Host
  ingressClass : String
  useIngressClassOnly : Bool
  defaultServerSecret : String
  controllerNamespace : String
  externalServiceName : String
  parseConfigMap : ConfigMap → Bool → Config

def ingressClassKey : String := "kubernetes.io/ingress.class"

namespace LBC
variable (lbc : LBC)

def isNginxPlus : Bool := lbc.host.isPlus

def isNginxIngress (ing : Ingress) : Bool :=
  match ing.annotated ingressClassKey with
  | none => !lbc.useIngressClassOnly
  | some ingressClass =>
    if lbc.useIngressClassOnly then ingressClass = lbc.ingressClass
    else ingressClass = lbc.ingressClass || ingressClass = ""

def isExternalServiceForStatus (svc : Service) : Bool :=
  lbc.controllerNamespace = svc.objectMeta.ns && lbc.externalServiceName = svc.objectMeta.name

/-- With NGINX Plus a secret may also hold a key for JWT. -/
def validateSecret (secret : Secret) : Except String Unit :=
  if !lbc.isNginxPlus then validateTLSSecret secret
  else if (validateTLSSecret secret).isOk || (validateJWKSecret secret).isOk then .ok ()
  else .error "Secret is not a TLS or JWK secret"

theorem isOk_validateSecret (secret : Secret) : (lbc.validateSecret secret).isOk =
    ((validateTLSSecret secret).isOk || lbc.isNginxPlus && (validateJWKSecret secret).isOk) := by
  unfold validateSecret
  cases lbc.isNginxPlus with
  | false => simp
  | true =>
    simp only [Bool.not_true, Bool.false_eq_true, if_false, Bool.true_and]
    split
    · rename_i hok
      exact hok.symm
    · rename_i hno
      exact (Bool.eq_false_of_not_eq_true hno).symm

def isHealthCheckEnabled (ing : Ingress) : Bool :=
  ((getMapKeyAsBool ing.annotations "nginx.com/health-checks").join).getD false

end LBC

/-- Does a port of a service go by this name or number? -/
def ServicePort.goesBy (port : ServicePort) : IntOrString → Bool
  | .int n => port.port = int32 n
  | .str s => port.name = s

def findPort (pod : Pod) (svcPort : ServicePort) : Option Int :=
  match svcPort.targetPort with
  | .int n => some (int32 n)
  | .str name =>
    ((pod.containers.flatMap (·.ports)).find? fun port =>
      port.name = name ∧ port.protocol = svcPort.protocol).map (·.containerPort)

def compareContainerPortAndServicePort (containerPort : ContainerPort) (svcPort : ServicePort) : Bool :=
  match svcPort.targetPort with
  | .int 0 => 0 < svcPort.port && svcPort.port = containerPort.containerPort
  | .int n => 0 < n && n = containerPort.containerPort
  | .str name => name = containerPort.name && svcPort.protocol = containerPort.protocol

def Container.httpProbe (container : Container) : Option HTTPProbe :=
  match container.readinessProbe with
  | none => none
  | some probe => if h : probe.httpGet.isSome ∧ 0 < probe.periodSeconds then some ⟨probe, h.1⟩ else none

def findProbeForPods (pods : List Pod) (svcPort : ServicePort) : Option HTTPProbe :=
  match pods with
  | [] => none
  | pod :: _ => pod.containers.findSome? fun container =>
      if container.ports.any (compareContainerPortAndServicePort · svcPort) then container.httpProbe
      else none

namespace Listers
variable (l : Listers)

def getServiceForIngressBackend (backend : Backend) (ns : String) : Option Service :=
  l.services.get (ns ++ "/" ++ backend.serviceName)

/-- `GetServiceEndpoints`, which goes through the list. -/
def getServiceEndpoints (svc : Service) : Option Endpoints :=
  l.endpoints.items.find? fun ep =>
    svc.objectMeta.name = ep.objectMeta.name ∧ svc.objectMeta.ns = ep.objectMeta.ns

def getServicePortForIngressPort (ingSvcPort : IntOrString) (svc : Service) : Option ServicePort :=
  svc.ports.find? (·.goesBy ingSvcPort)

/-- A target port that is not set is the port itself; only a name needs a pod. -/
def getTargetPort (svcPort : ServicePort) (svc : Service) : Option Int :=
  match svcPort.targetPort with
  | .int 0 => some svcPort.port
  | .int n => some (int32 n)
  | .str _ =>
    match l.pods svc.objectMeta.ns svc.selector with
    | none | some [] => none
    | some (pod :: _) => findPort pod svcPort

def getEndpointsForPort (endps : Endpoints) (ingSvcPort : IntOrString) (svc : Service) :
    Option (List Endpoint) := do
  let port ← getServicePortForIngressPort ingSvcPort svc
  let targetPort ← l.getTargetPort port svc
  let subset ← endps.subsets.find? fun subset => targetPort ∈ subset.ports
  return subset.addresses.map fun ip => Endpoint.of ip targetPort

def getExternalEndpointsForIngressBackend (backend : Backend) (svc : Service) : List Endpoint :=
  [Endpoint.of svc.externalName (int32 backend.servicePort.intValue)]

def getEndpointsForIngressBackend (isPlus : Bool) (backend : Backend) (svc : Service) :
    Option (List Endpoint × Bool) :=
  match l.getServiceEndpoints svc with
  | none =>
    if svc.type = .externalName ∧ isPlus then
      some (getExternalEndpointsForIngressBackend backend svc, true)
    else none
  | some endps => (l.getEndpointsForPort endps backend.servicePort svc).map fun result => (result, false)

def getHealthChecksForIngressBackend (backend : Backend) (ns : String) : Option HTTPProbe := do
  let svc ← l.getServiceForIngressBackend backend ns
  let svcPort ← getServicePortForIngressPort backend.servicePort svc
  let pods ← l.pods svc.objectMeta.ns svc.selector
  findProbeForPods pods svcPort

/-- What `createIngress` finds out about one backend: no endpoints if there was any error. -/
def resolve (isPlus : Bool) (ns : String) (backend : Backend) : List Endpoint × Bool :=
  ((l.getServiceForIngressBackend backend ns).bind
    (l.getEndpointsForIngressBackend isPlus backend)).getD ([], false)

end Listers

section createIngress
variable (lbc : LBC) (l : Listers)

def tlsSecretsOf (ing : Ingress) : Table String Secret :=
  ing.tls.foldl (fun t tls =>
    match l.secrets.get (ing.objectMeta.ns ++ "/" ++ tls.secretName) with
    | none => t
    | some secret => if (validateTLSSecret secret).isOk then t.insert tls.secretName secret else t) ∅

/-- The secret with the key for JWT comes from the API server. -/
def jwtKeyOf (ing : Ingress) : JWTKey :=
  match ing.annotated jwtKeyAnnotation with
  | none => ⟨"", none⟩
  | some jwtKey =>
    if !lbc.isNginxPlus then ⟨"", none⟩
    else ⟨jwtKey, (l.apiSecrets.get (ing.objectMeta.ns ++ "/" ++ jwtKey)).filter
      fun secret => (validateJWKSecret secret).isOk⟩

/-- The endpoints of all backends; a later one replaces an earlier one with its key. -/
def endpointsOf (ing : Ingress) : Table String (List Endpoint) :=
  ing.backends.foldl (fun t b =>
    t.insert b.2.endpointsKey (l.resolve lbc.isNginxPlus ing.objectMeta.ns b.2).1) ∅

def externalNameSvcsOf (ing : Ingress) : List String :=
  ing.backends.filterMap fun b =>
    if (l.resolve lbc.isNginxPlus ing.objectMeta.ns b.2).2 && lbc.isNginxPlus then
      (l.getServiceForIngressBackend b.2 ing.objectMeta.ns).map (·.objectMeta.name)
    else none

def healthChecksOf (ing : Ingress) : Table String HTTPProbe :=
  if lbc.isNginxPlus && LBC.isHealthCheckEnabled ing then
    ing.backends.foldl (fun t b =>
      match l.getHealthChecksForIngressBackend b.2 ing.objectMeta.ns with
      | none => t
      | some healthCheck => t.insert b.2.endpointsKey healthCheck) ∅
  else ∅

/-- An ingress along with what the listers have for it. -/
def ingressEx (ing : Ingress) : IngressEx where
  ingress := ing
  tlsSecrets := tlsSecretsOf l ing
  jwtKey := jwtKeyOf lbc l ing
  endpoints := endpointsOf lbc l ing
  healthChecks := healthChecksOf lbc l ing
  externalNameSvcs := externalNameSvcsOf lbc l ing

/-- A rule with paths needs a host, and there has to be such a rule. -/
def validateRules (rules : List Rule) : Except String Unit :=
  if rules.any fun rule => rule.http.isSome && rule.host = "" then
    .error "Ingress rule contains empty host"
  else if rules.all fun rule => rule.http.isNone then .error "Ingress contains no valid rules"
  else .ok ()

def createIngress (ing : Ingress) : Except String IngressEx :=
  (validateRules ing.rules).map fun _ => ingressEx lbc l ing

theorem createIngress_eq_ok {lbc l ing ingEx} :
    createIngress lbc l ing = .ok ingEx ↔ validateRules ing.rules = .ok () ∧ ingEx = ingressEx lbc l ing := by
  unfold createIngress
  cases validateRules ing.rules <;> simp [Except.map, eq_comm]

end createIngress

section mergeable
variable (lbc : LBC) (l : Listers) (o : Order)

/-- What the loop of `getMinionsForMaster` has collected: minions, and the paths taken. -/
structure Collected where
  minions : List IngressEx := []
  minionPaths : List String := []

def uniquePaths (taken : List String) : List HTTPPath → List String × List HTTPPath
  | [] => (taken, [])
  | p :: ps =>
    if p.path ∈ taken then uniquePaths taken ps
    else ((uniquePaths (taken ++ [p.path]) ps).1, p :: (uniquePaths (taken ++ [p.path]) ps).2)

/-- A minion for the host gets the paths nobody has before it. The paths are taken even if
the minion is not accepted after all. -/
def collectMinion (st : Collected) (ing : Ingress) (host : String) (paths : List HTTPPath) : Collected :=
  let (minionPaths, unique) := uniquePaths st.minionPaths paths
  match createIngress lbc l { ing with rules := [⟨host, some unique⟩] } with
  | .error _ => { st with minionPaths := minionPaths }
  | .ok ingEx =>
    if ingEx.tlsSecrets.keys ≠ [] then { st with minionPaths := minionPaths }
    else ⟨st.minions ++ [ingEx], minionPaths⟩

/-- One ingress of the list; the host of its first rule is looked at before their number. -/
def addMinion (host : String) (st : Collected) (ing : Ingress) : Option Collected :=
  if lbc.isNginxIngress ing && ing.isMinion then
    match ing.rules with
    | [] => none
    | rule :: rest =>
      if rule.host ≠ host ∨ rest ≠ [] then some st
      else
        match rule.http with
        | none => some st
        | some paths => some (collectMinion lbc l st ing host paths)
  else some st

/-- In which order minions are looked at. -/
def Ingress.OlderEq (a b : Ingress) : Prop := a.creationTimestamp ≤ b.creationTimestamp

instance : DecidableRel Ingress.OlderEq := fun _ _ => inferInstanceAs (Decidable (_ ≤ _))
instance : IsTrans Ingress Ingress.OlderEq := ⟨fun _ _ _ => Int.le_trans⟩
instance : Std.Total Ingress.OlderEq := ⟨fun a b => Int.le_total a.creationTimestamp b.creationTimestamp⟩

def getMinionsForMaster (master : ObjectMeta) (host : String) : Option (List IngressEx) :=
  let items := (o.list (.minionsOf master) l.ingresses.items).insertionSort Ingress.OlderEq
  (items.foldlM (addMinion lbc l host) {}).map (·.minions)

def findMaster (cnf : Configurator) (minion : Ingress) : List Ingress → Option (Except String Ingress)
  | [] => some (.error ("Could not find a Master for Minion: '" ++ minion.objectMeta.ns ++ "/" ++
      minion.objectMeta.name ++ "'"))
  | ing :: rest =>
    if lbc.isNginxIngress ing && cnf.hasIngress ing && ing.isMaster then
      match ing.rules, minion.rules with
      | rule :: _, rule' :: _ =>
        if rule.host = rule'.host then some (.ok ing) else findMaster cnf minion rest
      | _, _ => none
    else findMaster cnf minion rest

theorem findMaster_ok {lbc cnf minion master ings} (h : findMaster lbc cnf minion ings = some (.ok master)) :
    master ∈ ings ∧ lbc.isNginxIngress master = true ∧ cnf.hasIngress master = true ∧ master.isMaster = true ∧
      ∃ rule rest rule' rest', master.rules = rule :: rest ∧ minion.rules = rule' :: rest' ∧
        rule.host = rule'.host := by
  fun_induction findMaster lbc cnf minion ings with
  | case1 => simp at h
  | case2 ing rest hc rule rs rule' rs' hr' hr hhost =>
    obtain rfl : ing = master := by simpa using h
    simp only [Bool.and_eq_true] at hc
    exact ⟨mem_cons_self, hc.1.1, hc.1.2, hc.2, rule, rs, rule', rs', hr, hr', hhost⟩
  | case3 ing rest hc rule rs rule' rs' hr' hr hhost ih => exact (ih h).imp_left (mem_cons_of_mem _)
  | case4 => cases h
  | case5 ing rest hc ih => exact (ih h).imp_left (mem_cons_of_mem _)

def findMasterForMinion (cnf : Configurator) (minion : Ingress) : Option (Except String Ingress) :=
  findMaster lbc cnf minion (o.list (.masterOf minion.objectMeta) l.ingresses.items)

def masterError (m : ObjectMeta) (text : String) : String :=
  "Ingress Resource " ++ m.ns ++ "/" ++ m.name ++ " with the 'nginx.org/mergeable-ingress-type' annotation " ++
    text

/-- A master as `createIngress` accepts it: with an empty list of paths. -/
def emptyPaths (master : Ingress) (host : String) : Ingress := { master with rules := [⟨host, some []⟩] }

def createMergableIngresses (master : Ingress) : Option (Except String MergeableIngresses) :=
  match master.rules with
  | [rule] =>
    if rule.http.getD [] ≠ [] then
      some (.error (masterError master.objectMeta "set to 'master' cannot contain Paths"))
    else
      match validateRules (emptyPaths master rule.host).rules with
      | .error err => some (.error ("Error creating Ingress Resource " ++ master.objectMeta.ns ++ "/" ++
          master.objectMeta.name ++ ": " ++ err))
      | .ok _ => (getMinionsForMaster lbc l o master.objectMeta rule.host).map fun minions =>
          .ok ⟨ingressEx lbc l (emptyPaths master rule.host), minions, ⟨_, _, rfl⟩⟩
  | _ => some (.error (masterError master.objectMeta "must contain only one host"))

theorem createMergableIngresses_ok {lbc l o master m} (h : createMergableIngresses lbc l o master = some (.ok m)) :
    ∃ rule, master.rules = [rule] ∧ rule.http.getD [] = [] ∧
      validateRules (emptyPaths master rule.host).rules = .ok () ∧
      m.master = ingressEx lbc l (emptyPaths master rule.host) ∧
      getMinionsForMaster lbc l o master.objectMeta rule.host = some m.minions := by
  unfold createMergableIngresses at h
  split at h
  · rename_i rule hrule
    split at h
    · simp at h
    · rename_i hpaths
      split at h
      · simp at h
      · rename_i u hu
        obtain ⟨minions, hminions, h⟩ := Option.map_eq_some_iff.mp h
        obtain rfl := Except.ok.inj h
        exact ⟨rule, hrule, not_not.mp hpaths, hu, rfl, hminions⟩
  · simp at h

end mergeable

end KubeYamls.Nginx
