import KubeYamls.Nginx.Objects

/-! # Configuration parameters

The parameters of the ConfigMap, and how the annotations of an ingress override
them. Errors in annotations are only logged, so a parser's result is an
`Option`. -/
namespace KubeYamls.Nginx
open Data

structure Config where
  locationSnippets : List String := []
  serverSnippets : List String := []
  serverTokens : String := ""
  proxyConnectTimeout : String := ""
  proxyReadTimeout : String := ""
  clientMaxBodySize : String := ""
  http2 : Bool := false
  redirectToHTTPS : Bool := false
  sslRedirect : Bool := false
  mainMainSnippets : List String := []
  mainHTTPSnippets : List String := []
  mainStreamSnippets : List String := []
  mainServerNamesHashBucketSize : String := ""
  mainServerNamesHashMaxSize : String := ""
  mainLogFormat : String := ""
  mainErrorLogLevel : String := ""
  mainStreamLogFormat : String := ""
  proxyBuffering : Bool := false
  proxyBuffers : String := ""
  proxyBufferSize : String := ""
  proxyMaxTempFileSize : String := ""
  proxyProtocol : Bool := false
  proxyHideHeaders : List String := []
  proxyPassHeaders : List String := []
  hsts : Bool := false
  hstsBehindProxy : Bool := false
  hstsMaxAge : Int := 0
  hstsIncludeSubdomains : Bool := false
  lbMethod : String := ""
  mainWorkerProcesses : String := ""
  mainWorkerCPUAffinity : String := ""
  mainWorkerShutdownTimeout : String := ""
  mainWorkerConnections : String := ""
  mainWorkerRlimitNofile : String := ""
  keepalive : Int := 0
  maxFails : Int := 0
  failTimeout : String := ""
  healthCheckEnabled : Bool := false
  healthCheckMandatory : Bool := false
  healthCheckMandatoryQueue : Int := 0
  slowStart : String := ""
  resolverAddresses : List String := []
  resolverIPV6 : Bool := false
  resolverValid : String := ""
  resolverTimeout : String := ""
  realIPHeader : String := ""
  setRealIPFrom : List String := []
  realIPRecursive : Bool := false
  mainServerSSLProtocols : String := ""
  mainServerSSLPreferServerCiphers : Bool := false
  mainServerSSLCiphers : String := ""
  mainServerSSLDHParam : String := ""
  mainServerSSLDHParamFileContent : Option String := none
  mainTemplate : Option String := none
  ingressTemplate : Option String := none
  jwtRealm : String := ""
  jwtKey : String := ""
  jwtToken : String := ""
  jwtLoginURL : String := ""
  ports : List Int := []
  sslPorts : List Int := []
deriving DecidableEq

def newDefaultConfig : Config where
  serverTokens := "on"
  proxyConnectTimeout := "60s"
  proxyReadTimeout := "60s"
  clientMaxBodySize := "1m"
  sslRedirect := true
  mainServerNamesHashMaxSize := "512"
  proxyBuffering := true
  mainWorkerProcesses := "auto"
  mainWorkerConnections := "1024"
  hstsMaxAge := 2592000
  ports := [80]
  sslPorts := [443]
  maxFails := 1
  failTimeout := "10s"
  lbMethod := "random two least_conn"
  mainErrorLogLevel := "notice"
  resolverIPV6 := true

/-- What the main configuration file is made of, apart from the settings of the
template executor. -/
structure MainConfig where
  mainSnippets : List String
  httpSnippets : List String
  streamSnippets : List String
  serverNamesHashBucketSize : String
  serverNamesHashMaxSize : String
  logFormat : String
  errorLogLevel : String
  streamLogFormat : String
  sslProtocols : String
  sslCiphers : String
  sslDHParam : String
  sslPreferServerCiphers : Bool
  http2 : Bool
  serverTokens : String
  proxyProtocol : Bool
  workerProcesses : String
  workerCPUAffinity : String
  workerShutdownTimeout : String
  workerConnections : String
  workerRlimitNofile : String
  resolverAddresses : List String
  resolverIPV6 : Bool
  resolverValid : String
  resolverTimeout : String

def generateNginxMainConfig (config : Config) : MainConfig where
  mainSnippets := config.mainMainSnippets
  httpSnippets := config.mainHTTPSnippets
  streamSnippets := config.mainStreamSnippets
  serverNamesHashBucketSize := config.mainServerNamesHashBucketSize
  serverNamesHashMaxSize := config.mainServerNamesHashMaxSize
  logFormat := config.mainLogFormat
  errorLogLevel := config.mainErrorLogLevel
  streamLogFormat := config.mainStreamLogFormat
  sslProtocols := config.mainServerSSLProtocols
  sslCiphers := config.mainServerSSLCiphers
  sslDHParam := config.mainServerSSLDHParam
  sslPreferServerCiphers := config.mainServerSSLPreferServerCiphers
  http2 := config.http2
  serverTokens := config.serverTokens
  proxyProtocol := config.proxyProtocol
  workerProcesses := config.mainWorkerProcesses
  workerCPUAffinity := config.mainWorkerCPUAffinity
  workerShutdownTimeout := config.mainWorkerShutdownTimeout
  workerConnections := config.mainWorkerConnections
  workerRlimitNofile := config.mainWorkerRlimitNofile
  resolverAddresses := config.resolverAddresses
  resolverIPV6 := config.resolverIPV6
  resolverValid := config.resolverValid
  resolverTimeout := config.resolverTimeout

section annotations

/-- `GetMapKeyAsBool` and its like: absent, present and not parsed, or parsed. -/
def getMapKeyAs {α : Type} (parse : String → Option α) (m : List (String × String)) (key : String) :
    Option (Option α) :=
  (m.lookup key).map parse

def getMapKeyAsBool : List (String × String) → String → Option (Option Bool) := getMapKeyAs parseBool

/-- `GetMapKeyAsInt` and `GetMapKeyAsInt64`: both have 64 bits. -/
def getMapKeyAsInt64 : List (String × String) → String → Option (Option Int) :=
  getMapKeyAs fun s => parseInt s 64

def getMapKeyAsStringSlice (m : List (String × String)) (key delimiter : String) :
    Option (List String) :=
  (m.lookup key).map (split · delimiter)

def nginxLBValidInput : List String :=
  ["least_conn", "ip_hash", "random", "random two", "random two least_conn"]

def nginxPlusLBValidInput : List String :=
  ["least_conn", "ip_hash", "random", "random two", "random two least_conn",
    "random two least_time=header", "random two least_time=last_byte", "least_time header",
    "least_time last_byte", "least_time header inflight", "least_time last_byte inflight"]

def validateHashLBMethod (method : String) : Option String :=
  match split method " " with
  | ["hash", _] => some method
  | ["hash", _, "consistent"] => some method
  | _ => none

/-- What `ParseLBMethod` and `ParseLBMethodForPlus` have in common: all but the list. -/
def parseMethod (valid : List String) (method : String) : Option String :=
  let method := trimSpace method
  if method = "round_robin" then some ""
  else if startsWith method "hash" then validateHashLBMethod method
  else if method ∈ valid then some method
  else none

def parseLBMethod : String → Option String := parseMethod nginxLBValidInput

def parseLBMethodForPlus : String → Option String := parseMethod nginxPlusLBValidInput

/-- Where a reader of `^([0-9]+([ms|s|m|h|d|w|M|y]?){0,1} *)+$` stands: before the first
digit, in a number, behind a number's unit, behind a blank. -/
inductive TimeState where
  | start
  | number
  | unit
  | blank

/-- The brackets of the expression make a class of its letters and the bar. -/
def TimeState.next : TimeState → Char → Option TimeState
  | s, c =>
    if c.isDigit then some .number
    else match s, c with
      | .number, ' ' | .unit, ' ' | .blank, ' ' => some .blank
      | .number, _ => if c ∈ ['m', 's', '|', 'h', 'd', 'w', 'M', 'y'] then some .unit else none
      | _, _ => none

def validNginxTime (s : String) : Bool :=
  match s.toList.foldlM TimeState.next .start with
  | none | some .start => false
  | some _ => true

def parseSlowStart (s : String) : Option String :=
  let s := trimSpace s
  if validNginxTime s then some s else none

/-- `strconv.ParseInt(value, 10, 16)`, and not below 1. -/
def parsePort (value : String) : Option Int := (parseInt value 16).filter fun port => 0 < port

def parseRewrites (service : String) : Option (String × String) :=
  match splitAtBlank (trimSpace service) with
  | [name, path] =>
    match split name "=", split path "=" with
    | [_, serviceName], [_, rewrite] => some (serviceName, rewrite)
    | _, _ => none
  | _ => none

def parseStickyService (service : String) : Option (String × String) :=
  match splitAtBlank service with
  | [name, cookie] =>
    match split name "=" with
    | [_, serviceName] => some (serviceName, cookie)
    | _ => none
  | _ => none

variable (ing : Ingress)

def servicesOf (key : String) : List String :=
  ((ing.annotated key).map (split · ",")).getD []

def getWebsocketServices : List String := servicesOf ing "nginx.org/websocket-services"

def getSSLServices : List String := servicesOf ing "nginx.org/ssl-services"

def getGrpcServices : List String := servicesOf ing "nginx.org/grpc-services"

/-- The declarations of an annotation, a later one for a service over an earlier one. -/
def declarationsOf (key : String) (parse : String → Option (String × String)) :
    Table String String :=
  let declare (t : Table String String) (declaration : String) :=
    match parse declaration with
    | none => t
    | some (serviceName, value) => t.insert serviceName value
  (((ing.annotated key).map (split · ";")).getD []).foldl declare ∅

def getRewrites : Table String String := declarationsOf ing "nginx.org/rewrites" parseRewrites

def getSessionPersistenceServices : Table String String :=
  declarationsOf ing "nginx.com/sticky-cookie-services" parseStickyService

def getServicesPorts : List Int × List Int :=
  let ports key := (((ing.annotated key).map (split · ",")).getD []).filterMap parsePort
  (ports "nginx.org/listen-ports", ports "nginx.org/listen-ports-ssl")

/-- The parameters for one ingress: those of the ConfigMap, overridden by annotations. -/
def createConfig (isPlus : Bool) (config : Config) : Config := Id.run do
  let annotations := ing.annotations
  let mut ingCfg := config
  if let some lbMethod := ing.annotated "nginx.org/lb-method" then
    if let some parsedMethod :=
        if isPlus then parseLBMethodForPlus lbMethod else parseLBMethod lbMethod then
      ingCfg := { ingCfg with lbMethod := parsedMethod }
  if let some healthCheckEnabled := getMapKeyAsBool annotations "nginx.com/health-checks" then
    if isPlus then
      -- a value that is not parsed is false
      ingCfg := { ingCfg with healthCheckEnabled := healthCheckEnabled.getD false }
  if ingCfg.healthCheckEnabled then
    if let some mandatory := getMapKeyAsBool annotations "nginx.com/health-checks-mandatory" then
      ingCfg := { ingCfg with healthCheckMandatory := mandatory.getD false }
  if ingCfg.healthCheckMandatory then
    if let some queue := getMapKeyAsInt64 annotations "nginx.com/health-checks-mandatory-queue" then
      ingCfg := { ingCfg with healthCheckMandatoryQueue := queue.getD 0 }
  if let some slowStart := ing.annotated "nginx.com/slow-start" then
    if let some parsedSlowStart := parseSlowStart slowStart then
      if isPlus then
        ingCfg := { ingCfg with slowStart := parsedSlowStart }
  if let some serverTokens := ing.annotated "nginx.org/server-tokens" then
    match parseBool serverTokens with
    | none =>
      if isPlus then
        ingCfg := { ingCfg with serverTokens := serverTokens }
    | some on => ingCfg := { ingCfg with serverTokens := if on then "on" else "off" }
  if let some serverSnippets := getMapKeyAsStringSlice annotations "nginx.org/server-snippets" "\n" then
    ingCfg := { ingCfg with serverSnippets := serverSnippets }
  if let some locationSnippets :=
      getMapKeyAsStringSlice annotations "nginx.org/location-snippets" "\n" then
    ingCfg := { ingCfg with locationSnippets := locationSnippets }
  if let some proxyConnectTimeout := ing.annotated "nginx.org/proxy-connect-timeout" then
    ingCfg := { ingCfg with proxyConnectTimeout := proxyConnectTimeout }
  if let some proxyReadTimeout := ing.annotated "nginx.org/proxy-read-timeout" then
    ingCfg := { ingCfg with proxyReadTimeout := proxyReadTimeout }
  if let some proxyHideHeaders :=
      getMapKeyAsStringSlice annotations "nginx.org/proxy-hide-headers" "," then
    ingCfg := { ingCfg with proxyHideHeaders := proxyHideHeaders }
  if let some proxyPassHeaders :=
      getMapKeyAsStringSlice annotations "nginx.org/proxy-pass-headers" "," then
    ingCfg := { ingCfg with proxyPassHeaders := proxyPassHeaders }
  if let some clientMaxBodySize := ing.annotated "nginx.org/client-max-body-size" then
    ingCfg := { ingCfg with clientMaxBodySize := clientMaxBodySize }
  if let some (some redirectToHTTPS) := getMapKeyAsBool annotations "nginx.org/redirect-to-https" then
    ingCfg := { ingCfg with redirectToHTTPS := redirectToHTTPS }
  if let some (some sslRedirect) :=
      getMapKeyAsBool annotations "ingress.kubernetes.io/ssl-redirect" then
    ingCfg := { ingCfg with sslRedirect := sslRedirect }
  if let some (some proxyBuffering) := getMapKeyAsBool annotations "nginx.org/proxy-buffering" then
    ingCfg := { ingCfg with proxyBuffering := proxyBuffering }
  if let some (some hsts) := getMapKeyAsBool annotations "nginx.org/hsts" then
    let hstsMaxAge := getMapKeyAsInt64 annotations "nginx.org/hsts-max-age"
    let hstsIncludeSubdomains := getMapKeyAsBool annotations "nginx.org/hsts-include-subdomains"
    let hstsBehindProxy := getMapKeyAsBool annotations "nginx.org/hsts-behind-proxy"
    -- one annotation that is not parsed takes the others along
    let parsingErrors := hstsMaxAge = some none ∨ hstsIncludeSubdomains = some none ∨
      hstsBehindProxy = some none
    if ¬parsingErrors then
      ingCfg := { ingCfg with
        hsts := hsts
        hstsMaxAge := hstsMaxAge.join.getD ingCfg.hstsMaxAge
        hstsIncludeSubdomains := hstsIncludeSubdomains.join.getD ingCfg.hstsIncludeSubdomains
        hstsBehindProxy := hstsBehindProxy.join.getD ingCfg.hstsBehindProxy }
  if let some proxyBuffers := ing.annotated "nginx.org/proxy-buffers" then
    ingCfg := { ingCfg with proxyBuffers := proxyBuffers }
  if let some proxyBufferSize := ing.annotated "nginx.org/proxy-buffer-size" then
    ingCfg := { ingCfg with proxyBufferSize := proxyBufferSize }
  if let some proxyMaxTempFileSize := ing.annotated "nginx.org/proxy-max-temp-file-size" then
    ingCfg := { ingCfg with proxyMaxTempFileSize := proxyMaxTempFileSize }
  if isPlus then
    if let some jwtRealm := ing.annotated "nginx.com/jwt-realm" then
      ingCfg := { ingCfg with jwtRealm := jwtRealm }
    if let some jwtKey := ing.annotated jwtKeyAnnotation then
      ingCfg := { ingCfg with jwtKey := ing.objectMeta.ns ++ "/" ++ jwtKey }
    if let some jwtToken := ing.annotated "nginx.com/jwt-token" then
      ingCfg := { ingCfg with jwtToken := jwtToken }
    if let some jwtLoginURL := ing.annotated "nginx.com/jwt-login-url" then
      ingCfg := { ingCfg with jwtLoginURL := jwtLoginURL }
  let (ports, sslPorts) := getServicesPorts ing
  if ports ≠ [] then
    ingCfg := { ingCfg with ports := ports }
  if sslPorts ≠ [] then
    ingCfg := { ingCfg with sslPorts := sslPorts }
  if let some (some keepalive) := getMapKeyAsInt64 annotations "nginx.org/keepalive" then
    ingCfg := { ingCfg with keepalive := keepalive }
  if let some (some maxFails) := getMapKeyAsInt64 annotations "nginx.org/max-fails" then
    ingCfg := { ingCfg with maxFails := maxFails }
  if let some failTimeout := ing.annotated "nginx.org/fail-timeout" then
    ingCfg := { ingCfg with failTimeout := failTimeout }
  return ingCfg

end annotations

end KubeYamls.Nginx
