import KubeYamls.Nginx.Generate

/-! # The Configurator

Its state and its operations. The state holds the files in the two directories
it writes to, by their names, and beside the source's own fields what the
configuration of each ingress was last generated from. An operation that fails
half way leaves what it has done so far, so every operation returns a state and
an outcome. -/
namespace KubeYamls.Nginx
open Data AList List Option

/-- An ingress, or a master with its minions: what a configuration is generated from. -/
inductive Resource where
  | ingress (ingEx : IngressEx)
  | mergeable (m : MergeableIngresses)

namespace Resource

/-- The ingress the file is named after. -/
def objectMeta : Resource → ObjectMeta
  | .ingress ingEx => ingEx.ingress.objectMeta
  | .mergeable m => m.master.ingress.objectMeta

def name (r : Resource) : String := r.objectMeta.fileName

def merged : Resource → Bool
  | .ingress _ => false
  | .mergeable _ => true

def writtenSecrets (isPlus : Bool) : Resource → List Secret
  | .ingress ingEx => ingEx.writtenSecrets isPlus
  | .mergeable m => m.writtenSecrets isPlus

def nginxCfg (isPlus : Bool) (config : Config) : Resource → IngressNginxConfig
  | .ingress ingEx => generateNginxCfg isPlus config ingEx ingEx.pems false
  | .mergeable m => generateNginxCfgForMergeableIngresses isPlus config m

/-- What is remembered: a master is remembered without the annotations it cannot have. -/
def remembered : Resource → IngressEx
  | .ingress ingEx => ingEx
  | .mergeable m => m.filteredMaster

end Resource

structure Generated where
  resource : Resource
  config : Config

def Generated.nginxCfg (isPlus : Bool) (g : Generated) : IngressNginxConfig :=
  g.resource.nginxCfg isPlus g.config

structure SecretFile where
  content : List UInt8
  mode : Nat
deriving DecidableEq

/-- How a Plus server is added to an upstream. -/
structure ServerConfig where
  maxFails : Int
  failTimeout : String
  slowStart : String
deriving DecidableEq

/-- What the Configurator has around it: the templates, the NGINX process and, with
NGINX Plus, its API. A template is what it makes of the data. -/
structure Host where
  isPlus : Bool
  parseMainTemplate : String → Except String (MainConfig → Except String String)
  parseIngressTemplate : String → Except String (IngressNginxConfig → Except String String)
  writeDHParam : String → Except String Unit
  reload : Nat → Except String Unit
  updateServers : String → List Endpoint → ServerConfig → Nat → Except String Unit

structure Configurator where
  config : Config
  mainTemplate : MainConfig → Except String String
  ingressTemplate : IngressNginxConfig → Except String String
  ingresses : Table String IngressEx
  minions : Table String (List String)
  confd : Table String String
  secretFiles : Table String SecretFile
  mainConf : String
  configVersion : Nat
  generated : Table String Generated

def nginxConfdPath : String := "/etc/nginx/conf.d"

def getIngressNginxConfigFileName (name : String) : String := joinPath nginxConfdPath (name ++ ".conf")

theorem getIngressNginxConfigFileName_inj {m m' : ObjectMeta} :
    getIngressNginxConfigFileName m.fileName = getIngressNginxConfigFileName m'.fileName ↔
      m.fileName = m'.fileName := by
  have hfile : ∀ m : ObjectMeta, getIngressNginxConfigFileName m.fileName =
      "/etc/nginx/conf.d/" ++ (m.fileName ++ ".conf") := fun m =>
    joinPath_etc "conf.d" (by decide +kernel) (by simp [m.slash_fileName]) (by simp [m.dash_fileName])
  rw [hfile, hfile]
  simp [← String.toList_inj]

def tlsSecretFileMode : Nat := 0o600
def jwkSecretFileMode : Nat := 0o644

/-- Where an operation has come to, and whether it goes on. -/
abbrev Outcome := Configurator × Except String Unit

namespace Outcome

def andThen (r : Outcome) (f : Configurator → Outcome) : Outcome :=
  match r.2 with
  | .error _ => r
  | .ok _ => f r.1

/-- `fmt.Errorf` around the error of a call. -/
def describe (r : Outcome) (text : String → String) : Outcome := (r.1, r.2.mapError text)

end Outcome

namespace Configurator
variable (host : Host) (cnf : Configurator)

def new (config : Config) (mainTemplate : MainConfig → Except String String)
    (ingressTemplate : IngressNginxConfig → Except String String) : Configurator where
  config := config
  mainTemplate := mainTemplate
  ingressTemplate := ingressTemplate
  ingresses := ∅
  minions := ∅
  confd := ∅
  secretFiles := ∅
  mainConf := ""
  configVersion := 0
  generated := ∅

def hasIngress (ing : Ingress) : Bool := (cnf.ingresses.lookup ing.objectMeta.fileName).isSome

def hasMinion (master minion : Ingress) : Bool :=
  match cnf.minions.lookup master.objectMeta.fileName with
  | none => false
  | some minions => minion.objectMeta.fileName ∈ minions

def reload : Outcome :=
  let version := cnf.configVersion + 1
  ({ cnf with configVersion := version }, host.reload version)

def secretFile (secret : Secret) : SecretFile :=
  if host.isPlus ∧ (getSecretKind secret).1 = .jwk then
    ⟨(secret.data.lookup jwtKeyKey).getD [], jwkSecretFileMode⟩
  else ⟨generateCertAndKeyFileContent secret, tlsSecretFileMode⟩

def putSecret (files : Table String SecretFile) (secret : Secret) : Table String SecretFile :=
  files.insert (getSecretFileName secret.objectMeta.fileName) (secretFile host secret)

/-- `addOrUpdateSecret` for some secrets, one after the other. -/
def writeSecrets (secrets : List Secret) : Configurator :=
  { cnf with secretFiles := secrets.foldl (putSecret host) cnf.secretFiles }

/-- The common part of `addOrUpdateIngress` and `addOrUpdateMergeableIngress`. -/
def addOrUpdate (r : Resource) : Outcome :=
  let cnf := cnf.writeSecrets host (r.writtenSecrets host.isPlus)
  let nginxCfg := r.nginxCfg host.isPlus cnf.config
  let cnf := { cnf with generated := cnf.generated.insert r.name ⟨r, cnf.config⟩ }
  match cnf.ingressTemplate nginxCfg with
  | .error err => (cnf, .error ("Error generating Ingress Config " ++ r.name ++ ": " ++ err))
  | .ok content =>
    ({ cnf with
      confd := cnf.confd.insert (getIngressNginxConfigFileName r.name) content
      ingresses := cnf.ingresses.insert r.name r.remembered }, .ok ())

def addOrUpdateIngress (ingEx : IngressEx) : Outcome := cnf.addOrUpdate host (.ingress ingEx)

def addOrUpdateMergeableIngress (m : MergeableIngresses) : Outcome :=
  (cnf.addOrUpdate host (.mergeable m)).andThen fun cnf =>
    ({ cnf with
      minions := cnf.minions.insert m.master.ingress.objectMeta.fileName
        (m.minions.map (·.ingress.objectMeta.fileName)) }, .ok ())

def regenerate : Resource → Outcome
  | .ingress ingEx => cnf.addOrUpdateIngress host ingEx
  | .mergeable m => cnf.addOrUpdateMergeableIngress host m

/-- A loop that regenerates configurations until one fails. -/
def regenerateAll (describe : Resource → String → String) : Configurator → List Resource → Outcome
  | cnf, [] => (cnf, .ok ())
  | cnf, r :: rs =>
    ((cnf.regenerate host r).describe (describe r)).andThen fun cnf => regenerateAll describe cnf rs

/-- "Error adding or updating ingress", or the like, for an ingress. -/
def errorFor (what : String) (m : ObjectMeta) (err : String) : String :=
  what ++ " " ++ m.ns ++ "/" ++ m.name ++ ": " ++ err

/-- `AddOrUpdateIngress` -/
def addOrUpdateIngressAndReload (ingEx : IngressEx) : Outcome :=
  let m := ingEx.ingress.objectMeta
  ((cnf.addOrUpdateIngress host ingEx).describe (errorFor "Error adding or updating ingress" m)).andThen
    fun cnf => (cnf.reload host).describe (errorFor "Error reloading NGINX for" m)

/-- `AddOrUpdateMergeableIngress` -/
def addOrUpdateMergeableIngressAndReload (m : MergeableIngresses) : Outcome :=
  let om := m.master.ingress.objectMeta
  ((cnf.addOrUpdateMergeableIngress host m).describe
    (errorFor "Error when adding or updating ingress" om)).andThen
    fun cnf => (cnf.reload host).describe (errorFor "Error reloading NGINX for" om)

/-- How the operations on several resources report which one failed. -/
def errorAt (r : Resource) : String → String :=
  errorFor (if r.merged then "Error adding or updating mergeableIngress"
    else "Error adding or updating ingress") r.objectMeta

def resources (ingExes : List IngressEx) (mergeableIngresses : List MergeableIngresses) :
    List Resource :=
  ingExes.map .ingress ++ mergeableIngresses.map .mergeable

/-- `AddOrUpdateSecret`: with NGINX Plus a key for JWT changes no configuration. -/
def addOrUpdateSecret (secret : Secret) (rs : List Resource) : Outcome :=
  let cnf := cnf.writeSecrets host [secret]
  if host.isPlus ∧ (getSecretKind secret).1 = .jwk then (cnf, .ok ())
  else (regenerateAll host errorAt cnf rs).andThen fun cnf =>
    (cnf.reload host).describe ("Error when reloading NGINX when updating Secret: " ++ ·)

def defaultServerSecretName : String := "default"

def addOrUpdateDefaultServerTLSSecret (secret : Secret) : Outcome :=
  let cnf := { cnf with
    secretFiles := cnf.secretFiles.insert (getSecretFileName defaultServerSecretName)
      ⟨generateCertAndKeyFileContent secret, tlsSecretFileMode⟩ }
  (cnf.reload host).describe
    ("Error when reloading NGINX when updating the default server Secret: " ++ ·)

/-- `DeleteSecretFile` -/
def removeSecretFile (name : String) : Configurator :=
  { cnf with secretFiles := cnf.secretFiles.erase (getSecretFileName name) }

def deleteSecret (key : String) (rs : List Resource) : Outcome :=
  (regenerateAll host errorAt (cnf.removeSecretFile (keyToFileName key)) rs).andThen fun cnf =>
    if rs = [] then (cnf, .ok ())
    else (cnf.reload host).describe
      (fun err => "Error when reloading NGINX when deleting Secret " ++ key ++ ": " ++ err)

def forget (name : String) : Configurator :=
  { cnf with
    confd := cnf.confd.erase (getIngressNginxConfigFileName name)
    ingresses := cnf.ingresses.erase name
    minions := cnf.minions.erase name
    generated := cnf.generated.erase name }

def deleteIngress (key : String) : Outcome :=
  ((cnf.forget (keyToFileName key)).reload host).describe fun err =>
    "Error when removing ingress " ++ key ++ ": " ++ err

/-- The endpoints of every backend, told to the running NGINX Plus one after the other. -/
def updatePlusEndpoints (ingEx : IngressEx) : Except String Unit :=
  let ing := ingEx.ingress
  let ingCfg := createConfig ing host.isPlus cnf.config
  ing.backends.forM fun (h, backend) =>
    match ingEx.endpoints.lookup backend.endpointsKey with
    | none => .ok ()
    | some endps =>
      if backend.serviceName ∈ ingEx.externalNameSvcs then .ok ()
      else
        let name := getNameForUpstream ing h backend
        (host.updateServers name endps ⟨ingCfg.maxFails, ingCfg.failTimeout, ingCfg.slowStart⟩
          cnf.configVersion).mapError fun err => "Couldn't update the endpoints for " ++ name ++ ": " ++ err

/-- The ingresses whose endpoints the API is told: a master has none of its own there. -/
def plusIngresses : Resource → List IngressEx
  | .ingress ingEx => [ingEx]
  | .mergeable m => m.minions.map m.mergedMinion

/-- `UpdateEndpoints` and `UpdateEndpointsMergeableIngress`: NGINX is reloaded unless it is
NGINX Plus and the API has taken everything. (The text of the second also holds the addresses
of the resources.) -/
def updateEndpoints (rs : List Resource) : Outcome :=
  (regenerateAll host errorAt cnf rs).andThen fun cnf =>
    let taken := (rs.flatMap plusIngresses).all fun ingEx => (cnf.updatePlusEndpoints host ingEx).isOk
    if host.isPlus && taken then (cnf, .ok ())
    else (cnf.reload host).describe ("Error reloading NGINX when updating endpoints: " ++ ·)

def dhparamFilename : String := "dhparam.pem"

/-- The file with the Diffie-Hellman parameters, where the ConfigMap has any. -/
def updateDHParam : Outcome :=
  match cnf.config.mainServerSSLDHParamFileContent with
  | none => (cnf, .ok ())
  | some content =>
    let fileName := nginxSecretsPath ++ "/" ++ dhparamFilename
    match host.writeDHParam content with
    | .error err => (cnf, .error ("Error when updating dhparams: Failed to write pem file: " ++ err))
    | .ok _ =>
      ({ cnf with
        secretFiles := cnf.secretFiles.insert fileName ⟨content.toUTF8.toList, 0o666⟩
        config := { cnf.config with mainServerSSLDHParam := fileName } }, .ok ())

def updateMainTemplate : Outcome :=
  match cnf.config.mainTemplate with
  | none => (cnf, .ok ())
  | some text =>
    match host.parseMainTemplate text with
    | .error err => (cnf, .error ("Error when parsing the main template: " ++ err))
    | .ok template => ({ cnf with mainTemplate := template }, .ok ())

def updateIngressTemplate : Outcome :=
  match cnf.config.ingressTemplate with
  | none => (cnf, .ok ())
  | some text =>
    match host.parseIngressTemplate text with
    | .error err => (cnf, .error ("Error when parsing the ingress template: " ++ err))
    | .ok template => ({ cnf with ingressTemplate := template }, .ok ())

def updateMainConfigFile : Outcome :=
  match cnf.mainTemplate (generateNginxMainConfig cnf.config) with
  | .error _ => (cnf, .error "Error when writing main Config")
  | .ok content => ({ cnf with mainConf := content }, .ok ())

def updateConfig (config : Config) (rs : List Resource) : Outcome :=
  ((((updateDHParam host { cnf with config := config }).andThen (updateMainTemplate host)).andThen
    (updateIngressTemplate host)).andThen updateMainConfigFile).andThen fun cnf =>
      (regenerateAll host (fun _ err => err) cnf rs).andThen fun cnf =>
        (cnf.reload host).describe ("Error when updating config from ConfigMap: " ++ ·)

section effects
variable {host cnf} {r : Resource}

/-- A configuration before the template is filled: the secrets are written, and it counts
as generated. -/
def prepare (host : Host) (cnf : Configurator) (r : Resource) : Configurator :=
  { cnf.writeSecrets host (r.writtenSecrets host.isPlus) with
    generated := cnf.generated.insert r.name ⟨r, cnf.config⟩ }

def written (host : Host) (cnf : Configurator) (r : Resource) (content : String) : Configurator :=
  { cnf.prepare host r with
    confd := cnf.confd.insert (getIngressNginxConfigFileName r.name) content
    ingresses := cnf.ingresses.insert r.name r.remembered
    minions := match r with
      | .ingress _ => cnf.minions
      | .mergeable m => cnf.minions.insert r.name (m.minions.map (·.ingress.objectMeta.fileName)) }

theorem regenerate_cases (host : Host) (cnf : Configurator) (r : Resource) :
    (∃ err, cnf.ingressTemplate (r.nginxCfg host.isPlus cnf.config) = .error err ∧ cnf.regenerate host r =
        (cnf.prepare host r, .error ("Error generating Ingress Config " ++ r.name ++ ": " ++ err))) ∨
    (∃ content, cnf.ingressTemplate (r.nginxCfg host.isPlus cnf.config) = .ok content ∧
      cnf.regenerate host r = (cnf.written host r content, .ok ())) := by
  cases ht : cnf.ingressTemplate (r.nginxCfg host.isPlus cnf.config) with
  | error err =>
    refine .inl ⟨err, rfl, ?_⟩
    cases r <;> simp only [regenerate, addOrUpdateIngress, addOrUpdateMergeableIngress, addOrUpdate,
      writeSecrets, ht, Outcome.andThen, prepare]
  | ok content =>
    refine .inr ⟨content, rfl, ?_⟩
    cases r <;> simp only [regenerate, addOrUpdateIngress, addOrUpdateMergeableIngress, addOrUpdate,
      writeSecrets, ht, Outcome.andThen, prepare, written, Resource.name, Resource.objectMeta]

@[simp] theorem regenerate_generated :
    (cnf.regenerate host r).1.generated = cnf.generated.insert r.name ⟨r, cnf.config⟩ := by
  obtain ⟨err, -, h⟩ | ⟨content, -, h⟩ := regenerate_cases host cnf r <;> rw [h] <;> rfl

@[simp] theorem regenerate_config : (cnf.regenerate host r).1.config = cnf.config := by
  obtain ⟨err, -, h⟩ | ⟨content, -, h⟩ := regenerate_cases host cnf r <;> rw [h] <;> rfl

@[simp] theorem regenerate_configVersion : (cnf.regenerate host r).1.configVersion = cnf.configVersion := by
  obtain ⟨err, -, h⟩ | ⟨content, -, h⟩ := regenerate_cases host cnf r <;> rw [h] <;> rfl

@[simp] theorem regenerate_ingressTemplate : (cnf.regenerate host r).1.ingressTemplate = cnf.ingressTemplate := by
  obtain ⟨err, -, h⟩ | ⟨content, -, h⟩ := regenerate_cases host cnf r <;> rw [h] <;> rfl

@[simp] theorem regenerate_secretFiles : (cnf.regenerate host r).1.secretFiles =
    (r.writtenSecrets host.isPlus).foldl (putSecret host) cnf.secretFiles := by
  obtain ⟨err, -, h⟩ | ⟨content, -, h⟩ := regenerate_cases host cnf r <;> rw [h] <;> rfl

theorem regenerate_ingresses (host : Host) (cnf : Configurator) (r : Resource) :
    (cnf.regenerate host r).1.ingresses = cnf.ingresses ∨
    (cnf.regenerate host r).1.ingresses = cnf.ingresses.insert r.name r.remembered := by
  obtain ⟨err, -, h⟩ | ⟨content, -, h⟩ := regenerate_cases host cnf r
  · exact .inl (by rw [h]; rfl)
  · exact .inr (by rw [h]; rfl)

variable {ing : Ingress} {config : Config}

theorem regenerate_hasIngress (hne : ing.objectMeta.fileName ≠ r.name) :
    (cnf.regenerate host r).1.hasIngress ing = cnf.hasIngress ing := by
  rcases regenerate_ingresses host cnf r with h | h
  · rw [hasIngress, h, hasIngress]
  · rw [hasIngress, h, lookup_insert_ne hne, hasIngress]

theorem hasIngress_regenerate (h : cnf.hasIngress ing = true) :
    (cnf.regenerate host r).1.hasIngress ing = true := by
  by_cases hname : ing.objectMeta.fileName = r.name
  · rcases regenerate_ingresses host cnf r with hr | hr
    · rw [hasIngress, hr]
      exact h
    · rw [hasIngress, hr, hname, lookup_insert, isSome_some]
  · rw [regenerate_hasIngress hname, h]

theorem hasIngress_of_ok (hok : (cnf.regenerate host r).2 = .ok ())
    (hname : r.name = ing.objectMeta.fileName) : (cnf.regenerate host r).1.hasIngress ing = true := by
  obtain ⟨err, -, h⟩ | ⟨content, -, h⟩ := regenerate_cases host cnf r
  · simp [h] at hok
  · have hin : (cnf.written host r content).ingresses = cnf.ingresses.insert r.name r.remembered := rfl
    rw [h, hasIngress, hin, ← hname, lookup_insert, isSome_some]

theorem hasIngress_of_forget {name} (h : (cnf.forget name).hasIngress ing = true) :
    ing.objectMeta.fileName ≠ name ∧ cnf.hasIngress ing = true := by
  rw [hasIngress, forget] at h
  by_cases hname : ing.objectMeta.fileName = name
  · rw [hname, lookup_erase] at h
    cases h
  · rw [lookup_erase_ne hname] at h
    exact ⟨hname, h⟩

/-- Two states that differ in the version of the configuration at most. -/
def SameButVersion (cnf' cnf : Configurator) : Prop := ∃ v, cnf' = { cnf with configVersion := v }

theorem SameButVersion.refl (cnf : Configurator) : SameButVersion cnf cnf := ⟨cnf.configVersion, rfl⟩

theorem reload_same (text : String → String) : SameButVersion ((cnf.reload host).describe text).1 cnf :=
  ⟨cnf.configVersion + 1, rfl⟩

theorem andThen_ok {out : Outcome} {f} (h : (out.andThen f).2 = .ok ()) :
    out.2 = .ok () ∧ out.andThen f = f out.1 := by
  unfold Outcome.andThen at h ⊢
  cases hres : out.2 with
  | error err => simp [hres] at h
  | ok u => exact ⟨rfl, rfl⟩

theorem andThen_same (out : Outcome) {f}
    (hf : ∀ cnf, SameButVersion (f cnf).1 cnf) : SameButVersion (out.andThen f).1 out.1 := by
  obtain ⟨cnf, res⟩ := out
  cases res with
  | error err => exact .refl cnf
  | ok u => exact hf cnf

theorem addOrUpdateIngressAndReload_same (host : Host) (cnf : Configurator) (ingEx : IngressEx) :
    SameButVersion (cnf.addOrUpdateIngressAndReload host ingEx).1 (cnf.regenerate host (.ingress ingEx)).1 :=
  andThen_same _ fun _ => reload_same _

theorem addOrUpdateMergeableIngressAndReload_same (host : Host) (cnf : Configurator)
    (m : MergeableIngresses) : SameButVersion (cnf.addOrUpdateMergeableIngressAndReload host m).1
      (cnf.regenerate host (.mergeable m)).1 :=
  andThen_same _ fun _ => reload_same _

theorem addOrUpdateSecret_same (cnf : Configurator) {secret} (rs : List Resource)
    (h : ¬(host.isPlus ∧ (getSecretKind secret).1 = .jwk)) :
    SameButVersion (cnf.addOrUpdateSecret host secret rs).1
      (regenerateAll host errorAt (cnf.writeSecrets host [secret]) rs).1 := by
  rw [addOrUpdateSecret, if_neg h]
  exact andThen_same _ fun _ => reload_same _

theorem deleteSecret_same (host : Host) (cnf : Configurator) (key : String) (rs : List Resource) :
    SameButVersion (cnf.deleteSecret host key rs).1
      (regenerateAll host errorAt (cnf.removeSecretFile (keyToFileName key)) rs).1 := by
  refine andThen_same _ fun cnf => ?_
  split
  · exact .refl cnf
  · exact reload_same _

theorem updateEndpoints_same (host : Host) (cnf : Configurator) (rs : List Resource) :
    SameButVersion (cnf.updateEndpoints host rs).1 (regenerateAll host errorAt cnf rs).1 := by
  refine andThen_same _ fun cnf => ?_
  dsimp only
  split
  · exact .refl cnf
  · exact reload_same _

theorem regenerateAll_keeps {I : Configurator → Prop} {describe rs} (h : I cnf) (hstep : ∀ cnf, ∀ r ∈ rs, I cnf → I (cnf.regenerate host r).1) :
    I (regenerateAll host describe cnf rs).1 := by
  induction rs generalizing cnf with
  | nil => exact h
  | cons r rs ih =>
    have hr := hstep cnf r mem_cons_self h
    rw [regenerateAll, Outcome.andThen]
    split
    · exact hr
    · exact ih hr fun cnf r hr => hstep cnf r (mem_cons_of_mem _ hr)

structure IsWritten (host : Host) (cnf : Configurator) (config : Config) (r : Resource) : Prop where
  generated : cnf.generated.lookup r.name = some ⟨r, config⟩
  confd : ∃ content, cnf.ingressTemplate (r.nginxCfg host.isPlus config) = .ok content ∧
    cnf.confd.lookup (getIngressNginxConfigFileName r.name) = some content

theorem IsWritten.unique {config' r'} (h : IsWritten host cnf config r)
    (h' : IsWritten host cnf config' r') (hname : r.name = r'.name) : r = r' := by
  have hgen := h.generated
  rw [hname, h'.generated] at hgen
  exact (congrArg Generated.resource (some.inj hgen)).symm

theorem isWritten_regenerate (hok : (cnf.regenerate host r).2 = .ok ()) :
    IsWritten host (cnf.regenerate host r).1 cnf.config r := by
  obtain ⟨err, -, h⟩ | ⟨content, hc, h⟩ := regenerate_cases host cnf r
  · simp [h] at hok
  · rw [h]
    exact ⟨lookup_insert _, content, hc, lookup_insert _⟩

theorem IsWritten.keeps {r' : Resource} (h : IsWritten host cnf config r') (hne : r.name ≠ r'.name) :
    IsWritten host (cnf.regenerate host r).1 config r' := by
  have hfile : getIngressNginxConfigFileName r'.name ≠ getIngressNginxConfigFileName r.name :=
    mt getIngressNginxConfigFileName_inj.mp (Ne.symm hne)
  obtain ⟨content, hc, hconfd⟩ := h.confd
  refine ⟨by rw [regenerate_generated, lookup_insert_ne (Ne.symm hne)]; exact h.generated, content, ?_⟩
  rw [regenerate_ingressTemplate]
  refine ⟨hc, ?_⟩
  obtain ⟨err, -, hr⟩ | ⟨content', -, hr⟩ := regenerate_cases host cnf r
  · rw [hr]
    exact hconfd
  · rw [hr]
    exact (lookup_insert_ne hfile).trans hconfd

section regenerateAll
variable {describe : Resource → String → String} {rs : List Resource}

theorem IsWritten.keepsAll (h : IsWritten host cnf config r) (hne : ∀ r' ∈ rs, r'.name ≠ r.name) :
    IsWritten host (regenerateAll host describe cnf rs).1 config r :=
  regenerateAll_keeps (I := fun cnf => IsWritten host cnf config r) h fun _ r' hr' hcnf =>
    hcnf.keeps (hne r' hr')

theorem regenerateAll_config : (regenerateAll host describe cnf rs).1.config = cnf.config :=
  regenerateAll_keeps (I := fun cnf' => cnf'.config = cnf.config) rfl fun _ _ _ h => regenerate_config.trans h

theorem regenerateAll_configVersion : (regenerateAll host describe cnf rs).1.configVersion = cnf.configVersion :=
  regenerateAll_keeps (I := fun cnf' => cnf'.configVersion = cnf.configVersion) rfl fun _ _ _ h =>
    regenerate_configVersion.trans h

theorem regenerateAll_ingressTemplate :
    (regenerateAll host describe cnf rs).1.ingressTemplate = cnf.ingressTemplate :=
  regenerateAll_keeps (I := fun cnf' => cnf'.ingressTemplate = cnf.ingressTemplate) rfl fun _ _ _ h =>
    regenerate_ingressTemplate.trans h

theorem regenerateAll_hasIngress (hne : ∀ r ∈ rs, r.name ≠ ing.objectMeta.fileName) :
    (regenerateAll host describe cnf rs).1.hasIngress ing = cnf.hasIngress ing :=
  regenerateAll_keeps (I := fun cnf' => cnf'.hasIngress ing = cnf.hasIngress ing) rfl fun _ r hr h =>
    (regenerate_hasIngress (Ne.symm (hne r hr))).trans h

theorem regenerateAll_lookup_generated {name : String} (hne : ∀ r ∈ rs, r.name ≠ name) :
    (regenerateAll host describe cnf rs).1.generated.lookup name = cnf.generated.lookup name := by
  refine regenerateAll_keeps (I := fun cnf' => cnf'.generated.lookup name = _) rfl fun cnf' r hr hcnf' => ?_
  rw [regenerate_generated, lookup_insert_ne (Ne.symm (hne r hr)), hcnf']

theorem regenerateAll_cons_ok (hok : (regenerateAll host describe cnf (r :: rs)).2 = .ok ()) :
    (cnf.regenerate host r).2 = .ok () ∧ regenerateAll host describe cnf (r :: rs) =
      regenerateAll host describe (cnf.regenerate host r).1 rs := by
  rw [regenerateAll] at hok ⊢
  obtain ⟨hr, heq⟩ := andThen_ok hok
  refine ⟨?_, heq⟩
  cases hres : (cnf.regenerate host r).2 with
  | error err => simp [Outcome.describe, hres, Except.mapError] at hr
  | ok u => rfl

theorem regenerateAll_append (host : Host) (describe : Resource → String → String) (cnf : Configurator)
    (rs rs' : List Resource) : regenerateAll host describe cnf (rs ++ rs') =
      (regenerateAll host describe cnf rs).andThen fun cnf => regenerateAll host describe cnf rs' := by
  induction rs generalizing cnf with
  | nil => rfl
  | cons r rs ih =>
    simp only [cons_append, regenerateAll, ih]
    cases h : ((cnf.regenerate host r).describe (describe r)).2 <;> simp [Outcome.andThen, h]

/-- A loop that got to its end has regenerated everything: what counts is the last resource
with a name. -/
theorem regenerateAll_written (hok : (regenerateAll host describe cnf rs).2 = .ok ()) (hr : r ∈ rs) :
    ∃ r' ∈ rs, r'.name = r.name ∧ IsWritten host (regenerateAll host describe cnf rs).1 cnf.config r' := by
  induction rs generalizing cnf r with
  | nil => cases hr
  | cons r0 rs ih =>
    obtain ⟨hok0, heq⟩ := regenerateAll_cons_ok hok
    rw [heq] at hok ⊢
    by_cases hlater : ∃ r' ∈ rs, r'.name = r.name
    · obtain ⟨r', hr', hname⟩ := hlater
      obtain ⟨r'', hr'', hname', hw⟩ := ih hok hr'
      exact ⟨r'', mem_cons_of_mem _ hr'', hname'.trans hname, regenerate_config ▸ hw⟩
    · push Not at hlater
      obtain rfl : r = r0 := (mem_cons.mp hr).resolve_right fun h => hlater r h rfl
      exact ⟨r, mem_cons_self, rfl, (isWritten_regenerate hok0).keepsAll hlater⟩

theorem isWritten_regenerateAll {rs' : List Resource}
    (hok : (regenerateAll host describe cnf (rs ++ r :: rs')).2 = .ok ()) (hlast : ∀ r' ∈ rs', r'.name ≠ r.name) :
    IsWritten host (regenerateAll host describe cnf (rs ++ r :: rs')).1 cnf.config r := by
  rw [regenerateAll_append] at hok ⊢
  obtain ⟨-, heq⟩ := andThen_ok hok
  rw [heq] at hok ⊢
  obtain ⟨hr, heq⟩ := regenerateAll_cons_ok hok
  rw [heq]
  have hconfig : (regenerateAll host describe cnf rs).1.config = cnf.config := regenerateAll_config
  exact (hconfig ▸ isWritten_regenerate hr).keepsAll hlast

theorem regenerateAll_resources {ingExes : List IngressEx} {ms}
    (hok : (regenerateAll host describe cnf (resources ingExes ms)).2 = .ok ()) (name : String) :
    ((∃ m ∈ ms, (Resource.mergeable m).name = name) ∧ ∃ r, r.name = name ∧ r.merged = true ∧
      IsWritten host (regenerateAll host describe cnf (resources ingExes ms)).1 cnf.config r) ∨
    ((¬∃ m ∈ ms, (Resource.mergeable m).name = name) ∧
      (∃ ingEx ∈ ingExes, (Resource.ingress ingEx).name = name) ∧ ∃ r, r.name = name ∧ r.merged = false ∧
      IsWritten host (regenerateAll host describe cnf (resources ingExes ms)).1 cnf.config r) ∨
    ((¬∃ m ∈ ms, (Resource.mergeable m).name = name) ∧
      (¬∃ ingEx ∈ ingExes, (Resource.ingress ingEx).name = name) ∧
      (regenerateAll host describe cnf (resources ingExes ms)).1.generated.lookup name =
        cnf.generated.lookup name) := by
  have hne : (¬∃ m ∈ ms, (Resource.mergeable m).name = name) →
      ∀ r ∈ ms.map Resource.mergeable, r.name ≠ name := by
    intro hms r hr hname
    obtain ⟨m, hm, rfl⟩ := mem_map.mp hr
    exact hms ⟨m, hm, hname⟩
  rw [resources, regenerateAll_append] at hok ⊢
  obtain ⟨hok1, heq⟩ := andThen_ok hok
  rw [heq] at hok ⊢
  by_cases hms : ∃ m ∈ ms, (Resource.mergeable m).name = name
  · obtain ⟨m, hm, hname⟩ := hms
    obtain ⟨r, hr, hrname, hw⟩ := regenerateAll_written hok (mem_map_of_mem (f := Resource.mergeable) hm)
    obtain ⟨m', _, rfl⟩ := mem_map.mp hr
    exact .inl ⟨⟨m, hm, hname⟩, _, hrname.trans hname, rfl, regenerateAll_config ▸ hw⟩
  · by_cases hings : ∃ ingEx ∈ ingExes, (Resource.ingress ingEx).name = name
    · obtain ⟨ingEx, hing, hname⟩ := hings
      obtain ⟨r, hr, hrname, hw⟩ := regenerateAll_written hok1 (mem_map_of_mem (f := Resource.ingress) hing)
      obtain ⟨ingEx', _, rfl⟩ := mem_map.mp hr
      exact .inr (.inl ⟨hms, ⟨ingEx, hing, hname⟩, _, hrname.trans hname, rfl,
        hw.keepsAll fun r' hr' => (hrname.trans hname).symm ▸ hne hms r' hr'⟩)
    · refine .inr (.inr ⟨hms, hings, ?_⟩)
      rw [regenerateAll_lookup_generated (hne hms), regenerateAll_lookup_generated]
      intro r hr hname
      obtain ⟨ingEx, hing, rfl⟩ := mem_map.mp hr
      exact hings ⟨ingEx, hing, hname⟩

end regenerateAll

theorem regenerateAll_ok_of_forall {describe rs}
    (h : ∀ r ∈ rs, ∃ content, cnf.ingressTemplate (r.nginxCfg host.isPlus cnf.config) = .ok content) :
    (regenerateAll host describe cnf rs).2 = .ok () := by
  induction rs generalizing cnf with
  | nil => rfl
  | cons r rs ih =>
    obtain ⟨⟨content, hr⟩, hrs⟩ := forall_mem_cons.mp h
    obtain ⟨err, herr, -⟩ | ⟨content', -, hrun⟩ := regenerate_cases host cnf r
    · rw [hr] at herr
      cases herr
    · rw [regenerateAll, hrun]
      exact ih hrs

theorem regenerateAll_ok {describe rs} (ht : ∀ cfg, (cnf.ingressTemplate cfg).isOk = true) :
    (regenerateAll host describe cnf rs).2 = .ok () := by
  apply regenerateAll_ok_of_forall
  intro r _
  cases hr : cnf.ingressTemplate (r.nginxCfg host.isPlus cnf.config) with
  | ok content => exact ⟨content, rfl⟩
  | error err => simpa [hr, Except.isOk, Except.toBool] using ht (r.nginxCfg host.isPlus cnf.config)

/-- The parameters with the name of the file that `UpdateConfig` adds. -/
def withDHParam (config : Config) (file : String) : Config := { config with mainServerSSLDHParam := file }

/-- What the steps of `UpdateConfig` before the loops leave alone. -/
structure SameGenerated (cnf' cnf : Configurator) : Prop where
  generated : cnf'.generated = cnf.generated
  config : ∃ file, cnf'.config = withDHParam cnf.config file

theorem updateDHParam_same (host : Host) (cnf : Configurator) : SameGenerated (cnf.updateDHParam host).1 cnf := by
  unfold updateDHParam
  split
  · exact ⟨rfl, _, rfl⟩
  · dsimp only
    split <;> exact ⟨rfl, _, rfl⟩

theorem SameGenerated.updateMainTemplate {cnf'} (h : SameGenerated cnf' cnf) :
    SameGenerated (cnf'.updateMainTemplate host).1 cnf := by
  unfold Configurator.updateMainTemplate
  split
  · exact h
  · split <;> exact ⟨h.generated, h.config⟩

theorem SameGenerated.updateIngressTemplate {cnf'} (h : SameGenerated cnf' cnf) :
    SameGenerated (cnf'.updateIngressTemplate host).1 cnf := by
  unfold Configurator.updateIngressTemplate
  split
  · exact h
  · split <;> exact ⟨h.generated, h.config⟩

theorem SameGenerated.updateMainConfigFile {cnf'} (h : SameGenerated cnf' cnf) :
    SameGenerated cnf'.updateMainConfigFile.1 cnf := by
  unfold Configurator.updateMainConfigFile
  split <;> exact ⟨h.generated, h.config⟩

theorem updateConfig_ok {rs : List Resource} (hok : (cnf.updateConfig host config rs).2 = .ok ()) :
    ∃ cnf1, SameGenerated cnf1 { cnf with config := config } ∧
      (regenerateAll host (fun _ err => err) cnf1 rs).2 = .ok () ∧
      SameButVersion (cnf.updateConfig host config rs).1 (regenerateAll host (fun _ err => err) cnf1 rs).1 := by
  unfold updateConfig at hok ⊢
  obtain ⟨hmain, heq⟩ := andThen_ok hok
  rw [heq] at hok ⊢
  obtain ⟨hingress, heq⟩ := andThen_ok hmain
  rw [heq] at hok ⊢
  obtain ⟨htemplate, heq⟩ := andThen_ok hingress
  rw [heq] at hok ⊢
  obtain ⟨-, heq⟩ := andThen_ok htemplate
  rw [heq] at hok ⊢
  exact ⟨_, (updateDHParam_same host _).updateMainTemplate.updateIngressTemplate.updateMainConfigFile,
    (andThen_ok hok).1, andThen_same _ fun _ => reload_same _⟩

end effects

end Configurator

end KubeYamls.Nginx
