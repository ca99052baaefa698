import KubeYamls.Nginx.PathOwnership
import KubeYamls.Nginx.Traffic

/-! # The API of NGINX Plus instead of a reload

When endpoints change, NGINX Plus is told the servers of the upstreams over its
API, and a reload is left out if it has taken them all. The files are written
all the same. What runs is then what the last backend with the name of an
upstream has; what a reload would load is what the first one has. -/
namespace KubeYamls.Nginx
open Data Configurator Resource List

/-- A server of an upstream that runs, loaded from a file or told over the API. -/
structure RunningServer where
  server : String
  config : ServerConfig
  resolve : Bool
deriving DecidableEq

/-- How a server of a file is loaded: the template writes its address, a colon and its port. -/
def UpstreamServer.loaded (s : UpstreamServer) : RunningServer :=
  ⟨s.address ++ ":" ++ s.port, ⟨s.maxFails, s.failTimeout, s.slowStart⟩, s.resolve⟩

abbrev Running := String → List RunningServer

/-- NGINX runs what it would load: the same servers in every upstream, in any order. -/
def Running.Agrees (running : Running) (cfg : IngressNginxConfig) : Prop :=
  ∀ u ∈ cfg.upstreams, ∀ s, s ∈ running u.name ↔ s ∈ u.upstreamServers.map UpstreamServer.loaded

/-- A call of `UpdateServers`. -/
structure ApiCall where
  upstream : String
  servers : List Endpoint
  config : ServerConfig

namespace ApiCall

def taken (host : Host) (version : Nat) (call : ApiCall) : Bool :=
  (host.updateServers call.upstream call.servers call.config version).isOk

/-- The servers as they are told: an endpoint stays in one piece. -/
def running (call : ApiCall) : List RunningServer :=
  call.servers.map fun e => ⟨e.text, call.config, false⟩

/-- A call that is taken sets the servers of its upstream. -/
def perform (running : Running) (call : ApiCall) : Running :=
  Function.update running call.upstream call.running

end ApiCall

/-- The parts of an endpoint up to a second colon. -/
def Endpoint.hostPort (e : Endpoint) : String := e.address ++ ":" ++ e.port

namespace IngressEx

def endpointsOf (ingEx : IngressEx) (b : String × Backend) : List Endpoint :=
  (ingEx.endpoints.lookup b.2.endpointsKey).getD []

def limits (isPlus : Bool) (config : Config) (ingEx : IngressEx) : ServerConfig :=
  let ingCfg := createConfig ingEx.ingress isPlus config
  ⟨ingCfg.maxFails, ingCfg.failTimeout, ingCfg.slowStart⟩

/-- The backends whose endpoints are told. -/
def toldBackends (ingEx : IngressEx) : List (String × Backend) :=
  ingEx.ingress.backends.filter fun b =>
    b.2.serviceName ∉ ingEx.externalNameSvcs && (ingEx.endpoints.lookup b.2.endpointsKey).isSome

def apiCall (isPlus : Bool) (config : Config) (ingEx : IngressEx) (b : String × Backend) : ApiCall :=
  ⟨getNameForUpstream ingEx.ingress b.1 b.2, ingEx.endpointsOf b, ingEx.limits isPlus config⟩

/-- The calls of `updatePlusEndpoints` if none of them fails. -/
def apiCalls (isPlus : Bool) (config : Config) (ingEx : IngressEx) : List ApiCall :=
  ingEx.toldBackends.map (ingEx.apiCall isPlus config)

theorem updatePlusEndpoints_isOk (host : Host) (cnf : Configurator) (ingEx : IngressEx) :
    (cnf.updatePlusEndpoints host ingEx).isOk =
      (ingEx.apiCalls host.isPlus cnf.config).all (ApiCall.taken host cnf.configVersion) := by
  rw [updatePlusEndpoints, isOk_forM, apiCalls, all_map, toldBackends, all_filter]
  congr 1
  funext ⟨h, backend⟩
  dsimp only [Function.comp_apply, ApiCall.taken, apiCall, endpointsOf, limits]
  cases ingEx.endpoints.lookup backend.endpointsKey with
  | none => simp [Except.isOk, Except.toBool]
  | some endps =>
    by_cases hext : backend.serviceName ∈ ingEx.externalNameSvcs
    · simp [hext, Except.isOk, Except.toBool]
    · simp only [hext, if_false, Option.getD_some]
      cases host.updateServers (getNameForUpstream ingEx.ingress h backend) endps _ cnf.configVersion <;> rfl

end IngressEx

/-- The backends of an update whose endpoints are told, in their order. -/
def toldBackends (rs : List Resource) : List (IngressEx × String × Backend) :=
  (rs.flatMap plusIngresses).flatMap fun ingEx => ingEx.toldBackends.map (ingEx, ·)

def toldName (t : IngressEx × String × Backend) : String := getNameForUpstream t.1.ingress t.2.1 t.2.2

/-- The servers that run after an update: for each ingress the calls are made until one fails. -/
def afterUpdate (host : Host) (cnf : Configurator) (rs : List Resource) (running : Running) : Running :=
  ((rs.flatMap plusIngresses).flatMap fun ingEx =>
    (ingEx.apiCalls host.isPlus cnf.config).takeWhile (ApiCall.taken host cnf.configVersion)).foldl
      ApiCall.perform running

section generators

def Resource.generators (isPlus : Bool) (config : Config) : Resource → List Generator
  | .ingress ingEx => [.of isPlus config ingEx ingEx.pems false]
  | .mergeable m =>
    .of isPlus config m.filteredMaster m.filteredMaster.pems false ::
      m.minions.map fun minion => .of isPlus config (m.mergedMinion minion) (m.mergedMinion minion).pems true

theorem Resource.nginxCfg_upstreams (isPlus : Bool) (config : Config) (r : Resource) :
    (r.nginxCfg isPlus config).upstreams = (r.generators isPlus config).flatMap fun g => g.config.upstreams := by
  cases r with
  | ingress ingEx => exact (flatMap_singleton _ _).symm
  | mergeable m =>
    simp only [nginxCfg, generateNginxCfgForMergeableIngresses, generators, flatMap_cons, flatMap_map]
    rfl

theorem Resource.eq_of_generators {isPlus config} {r : Resource} {g} (hg : g ∈ r.generators isPlus config) :
    g = .of isPlus config g.ingEx g.pems g.isMinion := by
  cases r with
  | ingress ingEx =>
    obtain rfl := mem_singleton.mp hg
    rfl
  | mergeable m =>
    rcases mem_cons.mp hg with rfl | hg
    · rfl
    · obtain ⟨minion, _, rfl⟩ := mem_map.mp hg
      rfl

/-- The endpoints of a backend, cut at a second colon, are the endpoints of another. -/
def SameEndpoints (es es' : List Endpoint) : Prop :=
  (∀ e ∈ es, ∃ e' ∈ es', e'.text = e.hostPort) ∧ ∀ e' ∈ es', ∃ e ∈ es, e'.text = e.hostPort

theorem sameEndpoints_iff {es es' : List Endpoint} {c c' : ServerConfig} :
    (∀ s : RunningServer, s ∈ es'.map (fun e => ⟨e.text, c', false⟩) ↔ ∃ e ∈ es, s = ⟨e.hostPort, c, false⟩) ↔
      SameEndpoints es es' ∧ (es ≠ [] → c' = c) := by
  constructor
  · intro h
    have hes : ∀ e ∈ es, ∃ e' ∈ es', e'.text = e.hostPort ∧ c' = c := by
      intro e he
      obtain ⟨e', he', heq⟩ := mem_map.mp ((h _).mpr ⟨e, he, rfl⟩)
      injection heq with htext hc
      exact ⟨e', he', htext, hc⟩
    refine ⟨⟨fun e he => ?_, fun e' he' => ?_⟩, fun hne => ?_⟩
    · obtain ⟨e', he', htext, _⟩ := hes e he
      exact ⟨e', he', htext⟩
    · obtain ⟨e, he, heq⟩ := (h _).mp (mem_map_of_mem he')
      injection heq with htext
      exact ⟨e, he, htext⟩
    · obtain ⟨e, he⟩ := exists_mem_of_ne_nil es hne
      obtain ⟨_, _, _, hc⟩ := hes e he
      exact hc
  · rintro ⟨⟨hes, hes'⟩, hc⟩ s
    constructor
    · intro hs
      obtain ⟨e', he', rfl⟩ := mem_map.mp hs
      obtain ⟨e, he, htext⟩ := hes' e' he'
      exact ⟨e, he, by rw [htext, hc (ne_nil_of_mem he)]⟩
    · rintro ⟨e, he, rfl⟩
      obtain ⟨e', he', htext⟩ := hes e he
      exact mem_map.mpr ⟨e', he', by rw [htext, hc (ne_nil_of_mem he)]⟩

namespace Generator
variable (g : Generator)

def IsFirst (b : String × Backend) : Prop :=
  g.ingress.backends.find? (g.upstreamName · = g.upstreamName b) = some b

theorem mem_upstreams {u} : u ∈ g.config.upstreams ↔ ∃ b, g.IsFirst b ∧ u = g.upstreamFor b := by
  rw [config, mem_upstreamMapToSlice_iff]
  simp only [lookup_generated, Option.map_eq_some_iff]
  constructor
  · rintro ⟨name, b, hb, rfl⟩
    have hname : g.upstreamName b = name := by simpa using find?_some hb
    exact ⟨b, by rw [IsFirst, hname, hb], rfl⟩
  · rintro ⟨b, hb, rfl⟩
    exact ⟨g.upstreamName b, b, hb, rfl⟩

theorem upstreamFor_servers_of_isPlus (h : g.isPlus = true) (b : String × Backend) :
    (g.upstreamFor b).upstreamServers = g.upstreamServers b.2 := by
  rw [upstreamFor_servers, h, if_pos rfl]
  split
  · rename_i hnil
    rw [hnil]
  · rfl

theorem mem_loaded {config} (hg : g = .of true config g.ingEx g.pems g.isMinion) {b : String × Backend}
    (hext : b.2.serviceName ∉ g.ingEx.externalNameSvcs) {s} :
    s ∈ (g.upstreamFor b).upstreamServers.map UpstreamServer.loaded ↔
      ∃ e ∈ g.ingEx.endpointsOf b, s = ⟨e.hostPort, g.ingEx.limits true config, false⟩ := by
  have hplus : g.isPlus = true := congrArg Generator.isPlus hg
  have hcfg : g.ingCfg = createConfig g.ingEx.ingress true config := congrArg Generator.ingCfg hg
  rw [upstreamFor_servers_of_isPlus g hplus, upstreamServers, map_map, mem_map]
  simp only [hext, hcfg, decide_false, Bool.false_and, Bool.false_eq_true, if_false, Function.comp_apply,
    UpstreamServer.loaded, eq_comm (b := s)]
  rfl

/-- A backend has the endpoints and limits of the last one that is told under the name of its upstream.
Where none is told, NGINX runs with them already. -/
def ToldAlike (config : Config) (told : List (IngressEx × String × Backend)) (running : Running)
    (b : String × Backend) : Prop :=
  match told.reverse.find? (toldName · = g.upstreamName b) with
  | some t => SameEndpoints (g.ingEx.endpointsOf b) (t.1.endpointsOf t.2) ∧
    (g.ingEx.endpointsOf b ≠ [] → t.1.limits true config = g.ingEx.limits true config)
  | none => ∀ s, s ∈ running (g.upstreamName b) ↔
    ∃ e ∈ g.ingEx.endpointsOf b, s = ⟨e.hostPort, g.ingEx.limits true config, false⟩

variable {g}

/-- One colon in each endpoint, a call for the backend, and the same endpoints and limits under a
shared name. -/
theorem toldAlike {config told} {b : String × Backend} (hcolon : ∀ e ∈ g.ingEx.endpointsOf b, e.hostPort = e.text)
    (htold : ∃ t ∈ told, toldName t = g.upstreamName b) (hsame : ∀ t ∈ told, toldName t = g.upstreamName b →
      t.1.endpointsOf t.2 = g.ingEx.endpointsOf b ∧ t.1.limits true config = g.ingEx.limits true config)
    (running : Running) : g.ToldAlike config told running b := by
  obtain ⟨t, ht, hname⟩ := htold
  have hsome : (told.reverse.find? (toldName · = g.upstreamName b)).isSome :=
    find?_isSome.mpr ⟨t, mem_reverse.mpr ht, decide_eq_true hname⟩
  obtain ⟨last, hlast⟩ := Option.isSome_iff_exists.mp hsome
  have hlastname : toldName last = g.upstreamName b := by simpa using find?_some hlast
  obtain ⟨hendps, hlimits⟩ := hsame last (mem_reverse.mp (mem_of_find?_eq_some hlast)) hlastname
  rw [ToldAlike, hlast]
  refine ⟨?_, fun _ => hlimits⟩
  rw [hendps]
  exact ⟨fun e he => ⟨e, he, (hcolon e he).symm⟩, fun e he => ⟨e, he, (hcolon e he).symm⟩⟩

end Generator

end generators

section update
variable {host : Host} {cnf : Configurator} {rs : List Resource}

theorem taken_of_noReload (hok : (cnf.updateEndpoints host rs).2 = .ok ())
    (hversion : (cnf.updateEndpoints host rs).1.configVersion = cnf.configVersion) :
    (regenerateAll host errorAt cnf rs).2 = .ok () ∧
      (cnf.updateEndpoints host rs).1 = (regenerateAll host errorAt cnf rs).1 ∧
      ∀ ingEx ∈ rs.flatMap plusIngresses, ∀ call ∈ ingEx.apiCalls host.isPlus cnf.config,
        call.taken host cnf.configVersion = true := by
  unfold Configurator.updateEndpoints at hok hversion ⊢
  obtain ⟨hall, heq⟩ := andThen_ok hok
  rw [heq] at hversion ⊢
  dsimp only at hversion ⊢
  split at hversion
  · rename_i htaken
    rw [if_pos htaken]
    refine ⟨hall, rfl, fun ingEx hing => ?_⟩
    have hingEx := all_eq_true.mp (Bool.and_eq_true_iff.mp htaken).2 ingEx hing
    rw [IngressEx.updatePlusEndpoints_isOk, regenerateAll_config, regenerateAll_configVersion] at hingEx
    exact all_eq_true.mp hingEx
  · -- a reload has a version of its own
    have hreload : (regenerateAll host errorAt cnf rs).1.configVersion + 1 = cnf.configVersion := hversion
    rw [regenerateAll_configVersion] at hreload
    omega

theorem afterUpdate_apply (running : Running) (name : String)
    (htaken : ∀ ingEx ∈ rs.flatMap plusIngresses, ∀ call ∈ ingEx.apiCalls host.isPlus cnf.config,
      call.taken host cnf.configVersion = true) : afterUpdate host cnf rs running name =
      (((toldBackends rs).reverse.find? (toldName · = name)).map fun t =>
        (t.1.apiCall host.isPlus cnf.config t.2).running).getD (running name) := by
  have hcalls : ((rs.flatMap plusIngresses).flatMap fun ingEx =>
      (ingEx.apiCalls host.isPlus cnf.config).takeWhile (ApiCall.taken host cnf.configVersion)) =
      (toldBackends rs).map fun t => t.1.apiCall host.isPlus cnf.config t.2 := by
    rw [toldBackends, map_flatMap]
    refine flatMap_congr fun ingEx hing => ?_
    rw [takeWhile_eq_self_iff.mpr (htaken ingEx hing), map_map]
    rfl
  rw [afterUpdate, hcalls, foldl_map]
  exact foldl_update_apply toldName _ _ running name

theorem Generator.runs_iff_toldAlike {g : Generator} (hplus : host.isPlus = true)
    (hg : g = .of true cnf.config g.ingEx g.pems g.isMinion)
    (htaken : ∀ ingEx ∈ rs.flatMap plusIngresses, ∀ call ∈ ingEx.apiCalls host.isPlus cnf.config,
      call.taken host cnf.configVersion = true) {b : String × Backend}
    (hext : b.2.serviceName ∉ g.ingEx.externalNameSvcs) (running : Running) :
    (∀ s, s ∈ afterUpdate host cnf rs running (g.upstreamFor b).name ↔
      s ∈ (g.upstreamFor b).upstreamServers.map UpstreamServer.loaded) ↔
      g.ToldAlike cnf.config (toldBackends rs) running b := by
  simp only [g.mem_loaded hg hext, g.upstreamFor_name, afterUpdate_apply running _ htaken, ToldAlike]
  cases (toldBackends rs).reverse.find? (toldName · = g.upstreamName b) with
  | none => exact Iff.rfl
  | some t =>
    rw [hplus]
    exact sameEndpoints_iff

variable (host cnf) in
/-- An update without a reload runs what is in the file it has written, exactly if the first backend
with the name of an upstream has the endpoints and limits of the last one that is told. -/
theorem runs_as_written_iff (before after : List Resource) (r : Resource) (hplus : host.isPlus = true)
    (hext : ∀ g ∈ r.generators host.isPlus cnf.config, ∀ b ∈ g.ingress.backends,
      b.2.serviceName ∉ g.ingEx.externalNameSvcs) (hlast : ∀ r' ∈ after, r'.name ≠ r.name)
    (hok : (cnf.updateEndpoints host (before ++ r :: after)).2 = .ok ())
    (hversion : (cnf.updateEndpoints host (before ++ r :: after)).1.configVersion = cnf.configVersion)
    (running : Running) : IsWritten host (cnf.updateEndpoints host (before ++ r :: after)).1 cnf.config r ∧
    ((afterUpdate host cnf (before ++ r :: after) running).Agrees (r.nginxCfg host.isPlus cnf.config) ↔
      ∀ g ∈ r.generators host.isPlus cnf.config, ∀ b, g.IsFirst b →
        g.ToldAlike cnf.config (toldBackends (before ++ r :: after)) running b) := by
  obtain ⟨hall, hout, htaken⟩ := taken_of_noReload hok hversion
  refine ⟨hout ▸ isWritten_regenerateAll hall hlast, ?_⟩
  have hrun : ∀ g ∈ r.generators host.isPlus cnf.config, ∀ b, g.IsFirst b → _ := fun g hg b hb =>
    Generator.runs_iff_toldAlike hplus (hplus ▸ eq_of_generators hg) htaken
      (hext g hg b (mem_of_find?_eq_some hb)) running
  simp only [Running.Agrees, nginxCfg_upstreams, mem_flatMap, Generator.mem_upstreams]
  constructor
  · intro h g hg b hb
    exact (hrun g hg b hb).mp (h (g.upstreamFor b) ⟨g, hg, b, hb, rfl⟩)
  · rintro h u ⟨g, hg, b, hb, rfl⟩
    exact (hrun g hg b hb).mpr (h g hg b hb)

end update

section samples

def Running.loaded (cfg : IngressNginxConfig) : Running := fun name =>
  ((cfg.upstreams.find? (·.name = name)).map fun u => u.upstreamServers.map UpstreamServer.loaded).getD []

def runsAfter (old new : Resource) : Running :=
  afterUpdate (plainLBC true).host started.cnf [new] (.loaded (old.nginxCfg true newDefaultConfig))

def compared (old new : Resource) : List (String × List String × List String) :=
  (new.nginxCfg true newDefaultConfig).upstreams.map fun u =>
    (u.name, (runsAfter old new u.name).map (·.server), u.upstreamServers.map (·.loaded.server))

theorem not_agrees {running : Running} {cfg}
    (h : ∃ u ∈ cfg.upstreams, ∃ s ∈ u.upstreamServers, s.loaded ∉ running u.name) : ¬running.Agrees cfg := by
  obtain ⟨u, hu, s, hs, hnot⟩ := h
  exact fun hagrees => hnot ((hagrees u hu s.loaded).mpr (mem_map_of_mem hs))

/-- The update of a resource succeeds without a reload. -/
def Unloaded (r : Resource) : Prop :=
  (started.cnf.updateEndpoints (plainLBC true).host [r]).2 = .ok () ∧
    (started.cnf.updateEndpoints (plainLBC true).host [r]).1.configVersion = started.cnf.configVersion

theorem unloaded (r : Resource) : Unloaded r := by
  have hall : (regenerateAll (plainLBC true).host errorAt started.cnf [r]).2 = .ok () :=
    regenerateAll_ok fun _ => rfl
  have htaken : ∀ cnf : Configurator, ([r].flatMap plusIngresses).all (fun ingEx =>
      (cnf.updatePlusEndpoints (plainLBC true).host ingEx).isOk) = true := by
    intro cnf
    refine all_eq_true.mpr fun ingEx _ => ?_
    rw [IngressEx.updatePlusEndpoints_isOk]
    exact all_eq_true.mpr fun _ _ => rfl
  have hupdate : started.cnf.updateEndpoints (plainLBC true).host [r] =
      ((regenerateAll (plainLBC true).host errorAt started.cnf [r]).1, .ok ()) := by
    rw [Configurator.updateEndpoints, Outcome.andThen, hall]
    exact if_pos (Bool.and_eq_true_iff.mpr ⟨rfl, htaken _⟩)
  rw [Unloaded, hupdate]
  exact ⟨rfl, regenerateAll_configVersion⟩

def defaultCafe : Ingress := { cafe [] with backend := some ⟨"tea-svc", .int 80⟩ }

def cafeResource (coffee tea : String) : Resource :=
  .ingress (ingressEx (plainLBC true) (sampleListers
    [(sampleService "coffee-svc" legal_coffee 80, coffee), (sampleService "tea-svc" legal_tea 80, tea)]) defaultCafe)

theorem runs_as_written_cafe : let old := cafeResource "10.0.0.1" "10.0.0.2"
    let new := cafeResource "10.0.0.3" "10.0.0.4"
    Unloaded new ∧ (runsAfter old new).Agrees (new.nginxCfg true newDefaultConfig) ∧
      compared old new = [("default-cafe--tea-svc-80", ["10.0.0.4:80"], ["10.0.0.4:80"]),
        ("default-cafe-cafe.example.com-coffee-svc-80", ["10.0.0.3:80"], ["10.0.0.3:80"])] := by
  intro old new
  obtain ⟨hok, hversion⟩ := unloaded new
  have hiff := runs_as_written_iff (plainLBC true).host started.cnf [] [] new rfl (by decide +kernel) (by simp) hok
    hversion (.loaded (old.nginxCfg true newDefaultConfig))
  have hbackends : ∀ g ∈ new.generators true newDefaultConfig, ∀ b ∈ g.ingress.backends,
      (∀ e ∈ g.ingEx.endpointsOf b, e.hostPort = e.text) ∧
      (∃ t ∈ toldBackends [new], toldName t = g.upstreamName b) ∧
      ∀ t ∈ toldBackends [new], toldName t = g.upstreamName b → t.1.endpointsOf t.2 = g.ingEx.endpointsOf b ∧
        t.1.limits true newDefaultConfig = g.ingEx.limits true newDefaultConfig := by decide +kernel
  refine ⟨⟨hok, hversion⟩, hiff.2.mpr fun g hg b hb => ?_, by decide +kernel⟩
  obtain ⟨hcolon, htold, hsame⟩ := hbackends g hg b (mem_of_find?_eq_some hb)
  exact Generator.toldAlike hcolon htold hsame _

/-- Two hosts whose services get one upstream. -/
def sharedName : Ingress :=
  { cafe [] with
    rules := [⟨"x.com", some [⟨"/", "b-c", .int 80⟩]⟩, ⟨"x.com-b", some [⟨"/", "c", .int 80⟩]⟩] }

theorem legal_b_c : isDNS1123Subdomain "b-c" = true := by decide

theorem legal_c : isDNS1123Subdomain "c" = true := by decide

def sharedListers : Listers :=
  sampleListers [(sampleService "b-c" legal_b_c 80, "10.0.0.3"), (sampleService "c" legal_c 80, "10.0.0.4")]

def colonListers : Listers := sampleListers [(sampleService "coffee-svc" legal_coffee 80, "fd00::1")]

def defaultMaster : Ingress := { shopMaster with backend := some ⟨"coffee-svc", .int 80⟩ }

def defaultMasterListers (address : String) : Listers :=
  { sampleListers [(sampleService "coffee-svc" legal_coffee 80, address)] with
    ingresses := .ofList [defaultMaster, shopMinion] }

/-- A shared upstream runs with the servers of the other service, an address with colons is written
in another way than it is told, and the default backend of a master is not told. -/
theorem runs_not_as_written : (∃ ingEx, createIngress (plainLBC true) sharedListers sharedName = .ok ingEx ∧
      ingEx.externalNameSvcs = [] ∧ Unloaded (.ingress ingEx) ∧ compared (.ingress ingEx) (.ingress ingEx) =
        [("default-cafe-x.com-b-c-80", ["10.0.0.4:80"], ["10.0.0.3:80"])] ∧
      ¬(runsAfter (.ingress ingEx) (.ingress ingEx)).Agrees ((ingress ingEx).nginxCfg true newDefaultConfig)) ∧
    (∃ ingEx, createIngress (plainLBC true) colonListers (cafe []) = .ok ingEx ∧
      ingEx.externalNameSvcs = [] ∧ Unloaded (.ingress ingEx) ∧ compared (.ingress ingEx) (.ingress ingEx) =
        [("default-cafe-cafe.example.com-coffee-svc-80", ["fd00::1:80"], ["fd00:"])] ∧
      ¬(runsAfter (.ingress ingEx) (.ingress ingEx)).Agrees ((ingress ingEx).nginxCfg true newDefaultConfig)) ∧
    ∃ old new, createMergableIngresses (plainLBC true) (defaultMasterListers "10.0.0.1") .same defaultMaster =
        some (.ok old) ∧
      createMergableIngresses (plainLBC true) (defaultMasterListers "10.0.0.2") .same defaultMaster =
        some (.ok new) ∧ new.master.externalNameSvcs = [] ∧ Unloaded (.mergeable new) ∧
      compared (.mergeable old) (.mergeable new) =
        [("default-shop--coffee-svc-80", ["10.0.0.1:80"], ["10.0.0.2:80"]),
         ("default-cart-shop.example.com-cart-svc-80", [], [])] ∧
      ¬(runsAfter (.mergeable old) (.mergeable new)).Agrees
        ((mergeable new).nginxCfg true newDefaultConfig) := by
  refine ⟨⟨_, createIngress_eq_ok.mpr ⟨by decide +kernel, rfl⟩, by decide +kernel, unloaded _, by decide +kernel,
      not_agrees (by decide +kernel)⟩,
    ⟨_, createIngress_eq_ok.mpr ⟨by decide +kernel, rfl⟩, by decide +kernel, unloaded _, by decide +kernel,
      not_agrees (by decide +kernel)⟩, ?_⟩
  have hrun : ((createMergableIngresses (plainLBC true) (defaultMasterListers "10.0.0.1") .same defaultMaster).bind
      Except.toOption).any (fun old =>
        ((createMergableIngresses (plainLBC true) (defaultMasterListers "10.0.0.2") .same defaultMaster).bind
          Except.toOption).any fun new =>
            new.master.externalNameSvcs = [] ∧ compared (.mergeable old) (.mergeable new) =
              [("default-shop--coffee-svc-80", ["10.0.0.1:80"], ["10.0.0.2:80"]),
               ("default-cart-shop.example.com-cart-svc-80", [], [])] ∧
            ∃ u ∈ ((mergeable new).nginxCfg true newDefaultConfig).upstreams, ∃ s ∈ u.upstreamServers,
              s.loaded ∉ runsAfter (.mergeable old) (.mergeable new) u.name) = true := by decide +kernel
  obtain ⟨old, hold, hp⟩ := exists_merged hrun
  obtain ⟨new, hnew, hp⟩ := exists_merged hp
  obtain ⟨hext, hcompared, hnot⟩ := of_decide_eq_true hp
  exact ⟨old, new, hold, hnew, hext, unloaded _, hcompared, not_agrees hnot⟩

end samples

end KubeYamls.Nginx
