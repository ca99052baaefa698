import KubeYamls.Data.Strings
import KubeYamls.Data.Table

/-! # The Kubernetes objects the ingress controller reads

Each object with the fields that the controller looks at. The names have passed
the validation of the API server, which is part of their type. A map inside an
object (annotations, the data of a secret) is a list of its entries; a map the
controller computes is a `Table`. -/
namespace KubeYamls.Nginx
open Data

/-- A label of a DNS name: lower case letters, digits and inner dashes. -/
def isLabel (cs : List Char) : Bool :=
  cs ≠ [] && cs.all (fun c => c.isLower || c.isDigit || c = '-') &&
    cs.head? ≠ some '-' && cs.getLast? ≠ some '-'

def isDNS1123Label (s : String) : Bool := isLabel s.toList && s.length ≤ 63

def isDNS1123Subdomain (s : String) : Bool :=
  s.toList.all (fun c => c.isLower || c.isDigit || c = '-' || c = '.') &&
    (split s ".").all (fun l => isLabel l.toList) && s.length ≤ 253

/-- Where an object is found: a namespace is a label, a name at most a subdomain. -/
structure ObjectMeta where
  ns : String
  name : String
  legal_ns : isDNS1123Label ns = true
  legal_name : isDNS1123Subdomain name = true
deriving DecidableEq

namespace ObjectMeta
variable (m : ObjectMeta)

theorem slash_ns : '/' ∉ m.ns.toList := by
  intro h
  have hl := m.legal_ns
  simp only [isDNS1123Label, isLabel, Bool.and_eq_true, List.all_eq_true] at hl
  exact absurd (hl.1.1.1.2 '/' h) (by decide)

theorem slash_name : '/' ∉ m.name.toList := by
  intro h
  have hl := m.legal_name
  simp only [isDNS1123Subdomain, Bool.and_eq_true, List.all_eq_true] at hl
  exact absurd (hl.1.1 '/' h) (by decide)

/-- `cache.MetaNamespaceKeyFunc`: a namespace is never empty here. -/
def key : String := m.ns ++ "/" ++ m.name

/-- `objectMetaToFileName` -/
def fileName : String := m.ns ++ "-" ++ m.name

theorem slash_fileName : '/' ∉ m.fileName.toList := by
  simp [fileName, m.slash_ns, m.slash_name]

theorem dash_fileName : '-' ∈ m.fileName.toList := by
  simp [fileName]

theorem split_key : split m.key "/" = [m.ns, m.name] := by
  rw [key, split_append rfl, split_of_notMem rfl m.slash_ns, split_of_notMem rfl m.slash_name,
    List.singleton_append]

theorem key_eq_iff {ns name} : m.key = ns ++ "/" ++ name ↔ m.ns = ns ∧ m.name = name := by
  have hslash : "/".toList = ['/'] := rfl
  have hcons : m.ns.toList ++ '/' :: m.name.toList = ns.toList ++ '/' :: name.toList ↔ _ :=
    List.append_cons_inj_of_notMem m.slash_ns m.slash_name
  rw [key, ← String.toList_inj]
  simp only [String.toList_append, hslash, List.append_assoc, List.singleton_append, hcons, true_and,
    String.toList_inj]

theorem key_inj {m m' : ObjectMeta} : m.key = m'.key ↔ m = m' := by
  obtain ⟨ns, name, _, _⟩ := m
  obtain ⟨ns', name', _, _⟩ := m'
  exact (key_eq_iff _).trans (by simp)

end ObjectMeta

def keyToFileName (key : String) : String := replace key '/' '-'

theorem replace_of_notMem {s a b} (h : a ∉ s.toList) : replace s a b = s := by
  have hmap : s.toList.map (fun c => if c = a then b else c) = s.toList :=
    (List.map_congr_left fun c hc => if_neg fun hca : c = a => h (hca ▸ hc)).trans (List.map_id _)
  rw [replace, hmap, String.ofList_toList]

/-- The two ways to a file name agree on the names the API server lets through. -/
theorem keyToFileName_key (m : ObjectMeta) : keyToFileName m.key = m.fileName := by
  have hns := congrArg String.toList (replace_of_notMem (b := '-') m.slash_ns)
  have hname := congrArg String.toList (replace_of_notMem (b := '-') m.slash_name)
  simp only [replace, String.toList_ofList] at hns hname
  apply String.toList_inj.mp
  simp [keyToFileName, replace, ObjectMeta.key, ObjectMeta.fileName, hns, hname]

/-- `intstr.IntOrString` -/
inductive IntOrString where
  | int (n : Int)
  | str (s : String)
deriving DecidableEq

namespace IntOrString

/-- The method `String`. -/
def text : IntOrString → String
  | .int n => itoa n
  | .str s => s

/-- The method `IntValue`. -/
def intValue : IntOrString → Int
  | .int n => n
  | .str s => atoi s

end IntOrString

structure Backend where
  serviceName : String
  servicePort : IntOrString
deriving DecidableEq

structure HTTPPath where
  path : String
  backend : Backend
deriving DecidableEq

structure Rule where
  host : String
  http : Option (List HTTPPath)
deriving DecidableEq

structure TLS where
  hosts : List String
  secretName : String
deriving DecidableEq

structure Ingress where
  objectMeta : ObjectMeta
  annotations : List (String × String)
  creationTimestamp : Int
  backend : Option Backend
  tls : List TLS
  rules : List Rule
deriving DecidableEq

namespace Ingress

def annotated (ing : Ingress) (name : String) : Option String := ing.annotations.lookup name

def isMinion (ing : Ingress) : Bool := ing.annotated "nginx.org/mergeable-ingress-type" = some "minion"

def isMaster (ing : Ingress) : Bool := ing.annotated "nginx.org/mergeable-ingress-type" = some "master"

theorem not_isMinion_of_isMaster {ing : Ingress} (h : ing.isMaster = true) : ing.isMinion = false := by
  simp only [isMaster, decide_eq_true_eq] at h
  simp [isMinion, h]

def paths (ing : Ingress) : List (String × HTTPPath) :=
  ing.rules.flatMap fun rule => (rule.http.getD []).map fun p => (rule.host, p)

/-- The backends with the hosts they serve; the default backend serves no host of its own. -/
def backends (ing : Ingress) : List (String × Backend) :=
  (ing.backend.map fun b => ("", b)).toList ++ ing.paths.map fun p => (p.1, p.2.backend)

end Ingress

inductive Protocol where
  | tcp
  | udp
  | sctp
deriving DecidableEq

inductive ServiceType where
  | clusterIP
  | nodePort
  | loadBalancer
  | externalName
deriving DecidableEq

structure ServicePort where
  name : String
  protocol : Protocol
  port : Int
  targetPort : IntOrString
deriving DecidableEq

/-- A service with several ports has to name them differently. -/
structure Service where
  objectMeta : ObjectMeta
  type : ServiceType
  externalName : String
  selector : List (String × String)
  ports : List ServicePort
  nodup_names : (ports.map ServicePort.name).Nodup
deriving DecidableEq

structure EndpointSubset where
  addresses : List String
  ports : List Int
deriving DecidableEq

structure Endpoints where
  objectMeta : ObjectMeta
  subsets : List EndpointSubset
deriving DecidableEq

structure Secret where
  objectMeta : ObjectMeta
  data : List (String × List UInt8)
deriving DecidableEq

structure ConfigMap where
  objectMeta : ObjectMeta
  data : List (String × String)
deriving DecidableEq

inductive URIScheme where
  | http
  | https
deriving DecidableEq

structure HTTPGetAction where
  path : String
  scheme : URIScheme
  httpHeaders : List (String × String)
deriving DecidableEq

structure Probe where
  httpGet : Option HTTPGetAction
  timeoutSeconds : Int
  periodSeconds : Int
  successThreshold : Int
  failureThreshold : Int
deriving DecidableEq

/-- The probes NGINX can make itself. -/
structure HTTPProbe where
  probe : Probe
  http : probe.httpGet.isSome = true

structure ContainerPort where
  name : String
  containerPort : Int
  protocol : Protocol

structure Container where
  ports : List ContainerPort
  readinessProbe : Option Probe

structure Pod where
  containers : List Container

section secrets

/-- The two kinds of secrets; `GetSecretKind` returns the first also for what is neither. -/
inductive SecretKind where
  | tls
  | jwk
deriving DecidableEq

def jwtKeyKey : String := "jwk"
def jwtKeyAnnotation : String := "nginx.com/jwt-key"
def tlsCertKey : String := "tls.crt"
def tlsPrivateKeyKey : String := "tls.key"

def validateTLSSecret (secret : Secret) : Except String Unit :=
  if (secret.data.lookup tlsCertKey).isNone then .error ("Secret doesn't have " ++ tlsCertKey)
  else if (secret.data.lookup tlsPrivateKeyKey).isNone then
    .error ("Secret doesn't have " ++ tlsPrivateKeyKey)
  else .ok ()

def validateJWKSecret (secret : Secret) : Except String Unit :=
  if (secret.data.lookup jwtKeyKey).isNone then .error ("Secret doesn't have " ++ jwtKeyKey)
  else .ok ()

def getSecretKind (secret : Secret) : SecretKind × Option String :=
  if (validateTLSSecret secret).isOk then (.tls, none)
  else if (validateJWKSecret secret).isOk then (.jwk, none)
  else (.tls, some "Unknown Secret")

/-- `GenerateCertAndKeyFileContent`; an entry that is missing is empty. -/
def generateCertAndKeyFileContent (secret : Secret) : List UInt8 :=
  (secret.data.lookup tlsCertKey).getD [] ++ "\n".toUTF8.toList ++
    (secret.data.lookup tlsPrivateKeyKey).getD []

end secrets

/-- "address:port", as `createIngress` writes it. It splits into two parts at least. -/
structure Endpoint where
  text : String
  parts : 2 ≤ (split text ":").length
deriving DecidableEq

namespace Endpoint

def of (address : String) (port : Int) : Endpoint :=
  ⟨address ++ ":" ++ itoa port, two_le_length_split rfl⟩

def address (e : Endpoint) : String := (split e.text ":").get ⟨0, by have := e.parts; omega⟩

def port (e : Endpoint) : String := (split e.text ":").get ⟨1, e.parts⟩

theorem split_of {address} (h : ':' ∉ address.toList) (port : Int) :
    split (of address port).text ":" = [address, itoa port] := by
  have hp : split (itoa port) ":" = [itoa port] :=
    split_of_notMem rfl (notMem_itoa (by decide) (by decide) port)
  rw [of, split_append rfl, split_of_notMem rfl h, hp, List.singleton_append]

theorem address_of {a} (h : ':' ∉ a.toList) (n : Int) : (of a n).address = a := by
  simp [address, split_of h]

theorem port_of {a} (h : ':' ∉ a.toList) (n : Int) : (of a n).port = itoa n := by
  simp [port, split_of h]

end Endpoint

/-- A secret that holds a JSON Web Key, under the name an ingress gives. -/
structure JWTKey where
  name : String
  secret : Option Secret

/-- An ingress along with the secrets and endpoints it refers to. -/
structure IngressEx where
  ingress : Ingress
  tlsSecrets : Table String Secret
  jwtKey : JWTKey
  endpoints : Table String (List Endpoint)
  healthChecks : Table String HTTPProbe
  externalNameSvcs : List String

structure MergeableIngresses where
  master : IngressEx
  minions : List IngressEx
  rule : ∃ host paths, master.ingress.rules = [⟨host, some paths⟩]

end KubeYamls.Nginx
