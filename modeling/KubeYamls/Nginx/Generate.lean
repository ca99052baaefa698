import KubeYamls.Nginx.Config
import Mathlib.Data.List.Sort
import Mathlib.Data.String.Basic

/-! # The configuration generated for an ingress

What the configuration template is filled with, and how it is computed from an
ingress and the objects it refers to. -/
namespace KubeYamls.Nginx
open Data

def emptyHost : String := ""

def nginxSecretsPath : String := "/etc/nginx/secrets"

def pemFileNameForMissingTLSSecret : String := "/etc/nginx/secrets/default"

def getSecretFileName (name : String) : String := joinPath nginxSecretsPath name

theorem joinPath_etc (dir : String) {name}
    (hdir : (split ("/etc/nginx/" ++ dir) "/").foldl cleanElement [] = ["etc", "nginx", dir])
    (hslash : '/' ∉ name.toList) (hdash : '-' ∈ name.toList) :
    joinPath ("/etc/nginx/" ++ dir) name = "/etc/nginx/" ++ dir ++ "/" ++ name := by
  have hne : ∀ s : String, '-' ∉ s.toList → name ≠ s := fun s hs hns => hs (hns ▸ hdash)
  rw [joinPath_of_notMem _ hdir hslash (hne _ (by decide)) (hne _ (by decide)) (hne _ (by decide))]
  change "/" ++ ("etc" ++ "/" ++ "nginx" ++ "/" ++ dir ++ "/" ++ name) = _
  apply String.toList_inj.mp
  simp

theorem getSecretFileName_fileName (m : ObjectMeta) :
    getSecretFileName m.fileName = "/etc/nginx/secrets/" ++ m.fileName :=
  joinPath_etc "secrets" (by decide +kernel) m.slash_fileName m.dash_fileName

theorem getSecretFileName_inj {m m' : ObjectMeta} :
    getSecretFileName m.fileName = getSecretFileName m'.fileName ↔ m.fileName = m'.fileName := by
  rw [getSecretFileName_fileName, getSecretFileName_fileName]
  simp [← String.toList_inj]

structure UpstreamServer where
  address : String
  port : String
  maxFails : Int
  failTimeout : String
  slowStart : String := ""
  resolve : Bool := false
deriving DecidableEq

structure Upstream where
  name : String
  upstreamServers : List UpstreamServer := []
  stickyCookie : String := ""
  lbMethod : String := ""
  queue : Int := 0
  queueTimeout : Int := 0
deriving DecidableEq

structure HealthCheck where
  upstreamName : String
  uri : String
  interval : Int
  fails : Int
  passes : Int
  scheme : String
  mandatory : Bool
  headers : Table String String
  timeoutSeconds : Int

structure JWTAuth where
  key : String
  realm : String
  token : String
  redirectLocationName : String := ""
deriving DecidableEq

structure JWTRedirectLocation where
  name : String
  loginURL : String
deriving DecidableEq

/-- What a configuration says about the ingress it is for. -/
structure IngressInfo where
  name : String
  ns : String
  annotations : List (String × String)
deriving DecidableEq

structure Location where
  locationSnippets : List String
  path : String
  upstream : Upstream
  proxyConnectTimeout : String
  proxyReadTimeout : String
  clientMaxBodySize : String
  websocket : Bool
  rewrite : String
  ssl : Bool
  grpc : Bool
  proxyBuffering : Bool
  proxyBuffers : String
  proxyBufferSize : String
  proxyMaxTempFileSize : String
  jwtAuth : Option JWTAuth := none
  minionIngress : Option IngressInfo := none
deriving DecidableEq

structure Server where
  serverSnippets : List String
  name : String
  serverTokens : String
  locations : List Location := []
  ssl : Bool := false
  sslCertificate : String := ""
  sslCertificateKey : String := ""
  sslCiphers : String := ""
  grpcOnly : Bool := false
  statusZone : String
  http2 : Bool
  redirectToHTTPS : Bool
  sslRedirect : Bool
  proxyProtocol : Bool
  hsts : Bool
  hstsMaxAge : Int
  hstsIncludeSubdomains : Bool
  hstsBehindProxy : Bool
  proxyHideHeaders : List String
  proxyPassHeaders : List String
  healthChecks : Table String HealthCheck := ∅
  realIPHeader : String
  setRealIPFrom : List String
  realIPRecursive : Bool
  jwtAuth : Option JWTAuth := none
  jwtRedirectLocations : List JWTRedirectLocation := []
  ports : List Int
  sslPorts : List Int

structure IngressNginxConfig where
  upstreams : List Upstream
  servers : List Server
  keepalive : String
  ingress : IngressInfo

def newUpstreamWithDefaultServer (name : String) : Upstream where
  name := name
  upstreamServers := [{ address := "127.0.0.1", port := "8181", maxFails := 1, failTimeout := "10s" }]

def pathOrDefault (path : String) : String := if path = "" then "/" else path

def getNameForUpstream (ing : Ingress) (host : String) (backend : Backend) : String :=
  ing.objectMeta.ns ++ "-" ++ ing.objectMeta.name ++ "-" ++ host ++ "-" ++ backend.serviceName ++ "-" ++
    backend.servicePort.text

def getNameForRedirectLocation (ing : Ingress) : String :=
  "@login_url_" ++ ing.objectMeta.ns ++ "-" ++ ing.objectMeta.name

/-- Under which key the endpoints and the health check of a backend are kept. -/
def Backend.endpointsKey (backend : Backend) : String := backend.serviceName ++ backend.servicePort.text

def createLocation (path : String) (upstream : Upstream) (cfg : Config) (websocket : Bool)
    (rewrite : String) (ssl grpc : Bool) : Location where
  path := path
  upstream := upstream
  proxyConnectTimeout := cfg.proxyConnectTimeout
  proxyReadTimeout := cfg.proxyReadTimeout
  clientMaxBodySize := cfg.clientMaxBodySize
  websocket := websocket
  rewrite := rewrite
  ssl := ssl
  grpc := grpc
  proxyBuffering := cfg.proxyBuffering
  proxyBuffers := cfg.proxyBuffers
  proxyBufferSize := cfg.proxyBufferSize
  proxyMaxTempFileSize := cfg.proxyMaxTempFileSize
  locationSnippets := cfg.locationSnippets

def headersToString (headers : List (String × String)) : Table String String :=
  headers.foldl (fun t header => t.insert header.1 header.2) ∅

def URIScheme.lower : URIScheme → String
  | .http => "http"
  | .https => "https"

def createHealthCheck (hc : HTTPProbe) (upstreamName : String) (cfg : Config) : HealthCheck :=
  let httpGet := hc.probe.httpGet.get hc.http
  { upstreamName := upstreamName
    fails := hc.probe.failureThreshold
    interval := hc.probe.periodSeconds
    passes := hc.probe.successThreshold
    uri := httpGet.path
    scheme := httpGet.scheme.lower
    mandatory := cfg.healthCheckMandatory
    headers := headersToString httpGet.httpHeaders
    timeoutSeconds := hc.probe.timeoutSeconds }

/-- `upstreamMapToSlice`: the upstreams in the order of their names. -/
def upstreamMapToSlice (upstreams : Table String Upstream) : List Upstream :=
  (upstreams.keys.insertionSort (· ≤ ·)).filterMap upstreams.lookup

/-- What `generateNginxCfg` works with: its arguments and what it computes before the loops. -/
structure Generator where
  isPlus : Bool
  /-- Is a resolver configured in the ConfigMap? -/
  resolver : Bool
  ingEx : IngressEx
  pems : Table String String
  isMinion : Bool
  ingCfg : Config

namespace Generator
variable (g : Generator)

def ingress : Ingress := g.ingEx.ingress

def grpcServices : List String :=
  if g.ingCfg.http2 then getGrpcServices g.ingress else []

/-- The length of an upstream's queue and the timeout in it: mandatory health checks
start with every server unhealthy. -/
def upstreamRequiresQueue (name : String) : Int × Int :=
  if g.isPlus && g.ingCfg.healthCheckEnabled && g.ingCfg.healthCheckMandatory &&
      0 < g.ingCfg.healthCheckMandatoryQueue then
    match g.ingEx.healthChecks.lookup name with
    | some hc => (g.ingCfg.healthCheckMandatoryQueue, hc.probe.timeoutSeconds)
    | none => (0, 0)
  else (0, 0)

def upstreamServers (backend : Backend) : List UpstreamServer :=
  let isExternalNameSvc : Bool := backend.serviceName ∈ g.ingEx.externalNameSvcs
  let endps := (g.ingEx.endpoints.lookup backend.endpointsKey).getD []
  -- an external name can only be used with a resolver
  let endps := if isExternalNameSvc && !g.resolver then [] else endps
  endps.map fun endp =>
    { address := endp.address
      port := endp.port
      maxFails := g.ingCfg.maxFails
      failTimeout := g.ingCfg.failTimeout
      slowStart := g.ingCfg.slowStart
      resolve := isExternalNameSvc }

def createUpstream (name : String) (backend : Backend) : Upstream :=
  let (queue, timeout) := g.upstreamRequiresQueue backend.endpointsKey
  let stickyCookie := ((getSessionPersistenceServices g.ingress).lookup backend.serviceName).getD ""
  let ups : Upstream :=
    if g.isPlus then
      { name := name, stickyCookie := stickyCookie, queue := queue, queueTimeout := timeout }
    else newUpstreamWithDefaultServer name
  let upsServers := g.upstreamServers backend
  { ups with
    upstreamServers := if upsServers = [] then ups.upstreamServers else upsServers
    lbMethod := g.ingCfg.lbMethod }

/-- The health check of a backend goes under its upstream's name. -/
def addHealthCheck (healthChecks : Table String HealthCheck) (upsName : String) (backend : Backend) :
    Table String HealthCheck :=
  if g.ingCfg.healthCheckEnabled then
    match g.ingEx.healthChecks.lookup backend.endpointsKey with
    | some hc => healthChecks.insert upsName (createHealthCheck hc upsName g.ingCfg)
    | none => healthChecks
  else healthChecks

def location (path : String) (upstream : Upstream) (backend : Backend) : Location :=
  let svc := backend.serviceName
  createLocation (pathOrDefault path) upstream g.ingCfg (svc ∈ getWebsocketServices g.ingress)
    (((getRewrites g.ingress).lookup svc).getD "") (svc ∈ getSSLServices g.ingress)
    (svc ∈ g.grpcServices)

/-- JWT authentication, and where a client without a token is sent. -/
def jwtAuth : Option (JWTAuth × List JWTRedirectLocation) :=
  if g.ingEx.jwtKey.name = "" then none
  else
    let auth : JWTAuth :=
      { key := getSecretFileName (g.ingress.objectMeta.ns ++ "-" ++ g.ingEx.jwtKey.name)
        realm := g.ingCfg.jwtRealm
        token := g.ingCfg.jwtToken }
    if g.ingCfg.jwtLoginURL = "" then some (auth, [])
    else
      let redirect := getNameForRedirectLocation g.ingress
      some ({ auth with redirectLocationName := redirect },
        [{ name := redirect, loginURL := g.ingCfg.jwtLoginURL }])

/-- What the loop over the paths of a rule builds up. -/
structure PathState where
  upstreams : Table String Upstream
  healthChecks : Table String HealthCheck := ∅
  locations : List Location := []
  redirects : List JWTRedirectLocation := []

/-- An upstream that is there already is kept. -/
def ensureUpstream (upstreams : Table String Upstream) (host : String) (backend : Backend) :
    Table String Upstream :=
  let name := getNameForUpstream g.ingress host backend
  upstreams.insertNew name (g.createUpstream name backend)

/-- One path of a rule. Minions authenticate by location, all others by server. -/
def addPath (host : String) (st : PathState) (p : HTTPPath) : PathState :=
  let upsName := getNameForUpstream g.ingress host p.backend
  let upstreams := g.ensureUpstream st.upstreams host p.backend
  let upstream := (upstreams.lookup upsName).getD { name := "" }
  let loc := g.location p.path upstream p.backend
  let auth := if g.isMinion then g.jwtAuth else none
  { upstreams := upstreams
    healthChecks := g.addHealthCheck st.healthChecks upsName p.backend
    locations := st.locations ++ [{ loc with jwtAuth := auth.map Prod.fst }]
    redirects := st.redirects ++ (auth.map Prod.snd).getD [] }

/-- The default backend serves "/" where no path of the rule does. -/
def addDefault (st : PathState) : PathState :=
  match g.ingress.backend with
  | none => st
  | some backend =>
    if st.locations.any (·.path = "/") then st
    else
      let upsName := getNameForUpstream g.ingress emptyHost backend
      let upstream := (st.upstreams.lookup upsName).getD { name := "" }
      { st with
        locations := st.locations ++ [g.location "/" upstream backend]
        healthChecks := g.addHealthCheck st.healthChecks upsName backend }

/-- Do all locations of a rule with these paths use gRPC? -/
def grpcOnly (paths : List HTTPPath) : Bool :=
  g.grpcServices ≠ [] && paths.all (fun p => p.backend.serviceName ∈ g.grpcServices) &&
    match g.ingress.backend with
    | none => true
    | some backend => paths.any (fun p => pathOrDefault p.path = "/") ||
        backend.serviceName ∈ g.grpcServices

def newServer (host : String) : Server :=
  let cfg := g.ingCfg
  let server : Server :=
    { name := host
      serverTokens := cfg.serverTokens
      http2 := cfg.http2
      redirectToHTTPS := cfg.redirectToHTTPS
      sslRedirect := cfg.sslRedirect
      proxyProtocol := cfg.proxyProtocol
      hsts := cfg.hsts
      hstsMaxAge := cfg.hstsMaxAge
      hstsIncludeSubdomains := cfg.hstsIncludeSubdomains
      hstsBehindProxy := cfg.hstsBehindProxy
      statusZone := host
      realIPHeader := cfg.realIPHeader
      setRealIPFrom := cfg.setRealIPFrom
      realIPRecursive := cfg.realIPRecursive
      proxyHideHeaders := cfg.proxyHideHeaders
      proxyPassHeaders := cfg.proxyPassHeaders
      serverSnippets := cfg.serverSnippets
      ports := cfg.ports
      sslPorts := cfg.sslPorts }
  match g.pems.lookup host with
  | none => server
  | some pemFile =>
    { server with
      ssl := true
      sslCertificate := pemFile
      sslCertificateKey := pemFile
      sslCiphers := if pemFile = pemFileNameForMissingTLSSecret then "NULL" else "" }

/-- The loop over the rules: a rule without paths is left out. -/
def addRule (st : Table String Upstream × List Server) (rule : Rule) :
    Table String Upstream × List Server :=
  match rule.http with
  | none => st
  | some paths =>
    let auth := if g.isMinion then none else g.jwtAuth
    let done := g.addDefault (paths.foldl (g.addPath rule.host)
      { upstreams := st.1, redirects := (auth.map Prod.snd).getD [] })
    (done.upstreams, st.2 ++ [{ g.newServer rule.host with
      jwtAuth := auth.map Prod.fst
      jwtRedirectLocations := done.redirects
      locations := done.locations
      healthChecks := done.healthChecks
      grpcOnly := g.grpcOnly paths }])

/-- The upstream of the default backend is there before the rules are looked at. -/
def defaultUpstreams : Table String Upstream :=
  match g.ingress.backend with
  | none => ∅
  | some backend => g.ensureUpstream ∅ emptyHost backend

def generated : Table String Upstream × List Server :=
  g.ingress.rules.foldl g.addRule (g.defaultUpstreams, [])

def ingressInfo : IngressInfo :=
  ⟨g.ingress.objectMeta.name, g.ingress.objectMeta.ns, g.ingress.annotations⟩

def config : IngressNginxConfig where
  upstreams := upstreamMapToSlice g.generated.1
  servers := g.generated.2
  keepalive := if 0 < g.ingCfg.keepalive then itoa g.ingCfg.keepalive else ""
  ingress := g.ingressInfo

end Generator

def Generator.of (isPlus : Bool) (config : Config) (ingEx : IngressEx) (pems : Table String String)
    (isMinion : Bool) : Generator where
  isPlus := isPlus
  resolver := config.resolverAddresses ≠ []
  ingEx := ingEx
  pems := pems
  isMinion := isMinion
  ingCfg := createConfig ingEx.ingress isPlus config

def generateNginxCfg (isPlus : Bool) (config : Config) (ingEx : IngressEx)
    (pems : Table String String) (isMinion : Bool) : IngressNginxConfig :=
  (Generator.of isPlus config ingEx pems isMinion).config

/-! The certificates. `updateTLSSecrets` and `updateJWTSecret` write the files of the secrets
on the way; no configuration depends on what is in them. -/
namespace IngressEx
variable (ingEx : IngressEx)

def pemFileName (tls : TLS) : String :=
  match ingEx.tlsSecrets.lookup tls.secretName with
  | some secret => getSecretFileName secret.objectMeta.fileName
  | none => pemFileNameForMissingTLSSecret

/-- What `updateTLSSecrets` returns: the certificate of each host. -/
def pems : Table String String :=
  ingEx.ingress.tls.foldl (fun t tls =>
    let hosts := if tls.hosts = [] then [emptyHost] else tls.hosts
    hosts.foldl (fun t host => t.insert host (ingEx.pemFileName tls)) t) ∅

/-- The secrets whose files `updateTLSSecrets` and `updateJWTSecret` write, in that order. -/
def writtenSecrets (isPlus : Bool) : List Secret :=
  ingEx.ingress.tls.filterMap (fun tls => ingEx.tlsSecrets.lookup tls.secretName) ++
    if isPlus then ingEx.jwtKey.secret.toList else []

end IngressEx

section merging

def masterBlacklist : List String :=
  ["nginx.org/rewrites", "nginx.org/ssl-services", "nginx.org/grpc-services",
    "nginx.org/websocket-services", "nginx.com/sticky-cookie-services", "nginx.com/health-checks",
    "nginx.com/health-checks-mandatory", "nginx.com/health-checks-mandatory-queue"]

def minionBlacklist : List String :=
  ["nginx.org/proxy-hide-headers", "nginx.org/proxy-pass-headers", "nginx.org/redirect-to-https",
    "ingress.kubernetes.io/ssl-redirect", "nginx.org/hsts", "nginx.org/hsts-max-age",
    "nginx.org/hsts-include-subdomains", "nginx.org/server-tokens", "nginx.org/listen-ports",
    "nginx.org/listen-ports-ssl", "nginx.org/server-snippets"]

def minionInheritanceList : List String :=
  ["nginx.org/proxy-connect-timeout", "nginx.org/proxy-read-timeout",
    "nginx.org/client-max-body-size", "nginx.org/proxy-buffering", "nginx.org/proxy-buffers",
    "nginx.org/proxy-buffer-size", "nginx.org/proxy-max-temp-file-size",
    "nginx.org/location-snippets", "nginx.org/lb-method", "nginx.org/keepalive",
    "nginx.org/max-fails", "nginx.org/fail-timeout"]

/-- `filterMasterAnnotations` and `filterMinionAnnotations`. -/
def filterAnnotations (blacklist : List String) (annotations : List (String × String)) :
    List (String × String) :=
  annotations.filter fun e => e.1 ∉ blacklist

def mergeMasterAnnotationsIntoMinion (minionAnnotations masterAnnotations : List (String × String)) :
    List (String × String) :=
  masterAnnotations.foldl (fun m e =>
    if (m.lookup e.1).isNone ∧ e.1 ∈ minionInheritanceList then m ++ [e] else m) minionAnnotations

namespace MergeableIngresses

def filteredMaster (m : MergeableIngresses) : IngressEx :=
  { m.master with
    ingress := { m.master.ingress with
      annotations := filterAnnotations masterBlacklist m.master.ingress.annotations } }

/-- A minion as its configuration is generated: without default backend, with the
annotations it inherits, without those it cannot have. -/
def mergedMinion (m : MergeableIngresses) (minion : IngressEx) : IngressEx :=
  { minion with
    ingress := { minion.ingress with
      backend := none
      annotations := filterAnnotations minionBlacklist (mergeMasterAnnotationsIntoMinion
        minion.ingress.annotations m.filteredMaster.ingress.annotations) } }

variable (isPlus : Bool) (config : Config) (m : MergeableIngresses)

def masterCfg : IngressNginxConfig :=
  generateNginxCfg isPlus config m.filteredMaster m.filteredMaster.pems false

def minionCfg (minion : IngressEx) : IngressNginxConfig :=
  generateNginxCfg isPlus config (m.mergedMinion minion) (m.mergedMinion minion).pems true

def minionLocations (minion : IngressEx) : List Location :=
  let nginxCfg := m.minionCfg isPlus config minion
  nginxCfg.servers.flatMap fun server =>
    server.locations.map fun loc => { loc with minionIngress := some nginxCfg.ingress }

theorem masterCfg_servers : (m.masterCfg isPlus config).servers ≠ [] := by
  obtain ⟨host, paths, h⟩ := m.rule
  simp [masterCfg, generateNginxCfg, Generator.of, Generator.config, Generator.generated,
    Generator.ingress, filteredMaster, h, Generator.addRule]

end MergeableIngresses

open MergeableIngresses in
def generateNginxCfgForMergeableIngresses (isPlus : Bool) (config : Config) (m : MergeableIngresses) :
    IngressNginxConfig :=
  let masterNginxCfg := m.masterCfg isPlus config
  let masterServer := masterNginxCfg.servers.head (m.masterCfg_servers isPlus config)
  let minionCfgs := m.minions.map (m.minionCfg isPlus config)
  let minionServers := minionCfgs.flatMap (·.servers)
  let healthChecks := (minionServers.flatMap (·.healthChecks.entries)).foldl
    (fun t (e : (_ : String) × HealthCheck) => t.insert e.1 e.2) (∅ : Table String HealthCheck)
  { servers := [{ masterServer with
      locations := m.minions.flatMap (m.minionLocations isPlus config)
      healthChecks := healthChecks
      jwtRedirectLocations := masterServer.jwtRedirectLocations ++
        minionServers.flatMap (·.jwtRedirectLocations) }]
    upstreams := masterNginxCfg.upstreams ++ minionCfgs.flatMap (·.upstreams)
    keepalive := masterNginxCfg.keepalive
    ingress := masterNginxCfg.ingress }

/-- The secrets whose files are written while the configuration is generated. -/
def MergeableIngresses.writtenSecrets (isPlus : Bool) (m : MergeableIngresses) : List Secret :=
  m.master.writtenSecrets isPlus ++ m.minions.flatMap (·.writtenSecrets isPlus)

end merging

end KubeYamls.Nginx
