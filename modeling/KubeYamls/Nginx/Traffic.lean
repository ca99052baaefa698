import KubeYamls.Nginx.Generated
import KubeYamls.Nginx.Events
import Mathlib.Data.List.Forall2

/-! # Traffic goes to the right service

Endpoints are kept under the name and the port of a service, written one behind
the other; upstreams under a name that joins ingress, host, service and port
with dashes. Every path of an ingress reaches the endpoints of its own backend,
and no upstream and no endpoints are shared, exactly if these two ways to write
a backend tell the backends of the ingress apart. -/
namespace KubeYamls.Nginx
open Data Generator List Option

variable (lbc : LBC) (l : Listers) (ing : Ingress)

/-- The servers of an upstream are the endpoints of a backend, or the placeholder (none with
NGINX Plus) if there are none. -/
def Reaches (backend : Backend) (u : Upstream) : Prop :=
  let endps := (l.resolve lbc.isNginxPlus ing.objectMeta.ns backend).1
  if endps = [] then
    u.upstreamServers = if lbc.isNginxPlus then [] else (newUpstreamWithDefaultServer "").upstreamServers
  else u.upstreamServers.map (fun s => s.address ++ ":" ++ s.port) = endps.map Endpoint.text

structure LocationFor (cfg : IngressNginxConfig) (dest : String × Backend) (loc : Location) : Prop where
  path : loc.path = pathOrDefault dest.1
  upstream : loc.upstream ∈ cfg.upstreams
  reaches : Reaches lbc l ing dest.2 loc.upstream

/-- The paths of a rule and where they lead; the default backend serves "/" if no path does. -/
def Ingress.destinations (paths : List HTTPPath) : List (String × Backend) :=
  paths.map (fun p => (p.path, p.backend)) ++
    if hasRoot paths then [] else ing.backend.toList.map fun b => ("/", b)

/-- Every rule has its server, with a location for every path; an upstream belongs to one host,
service and port, a list of endpoints to one service and port. -/
structure TrafficRight (ingEx : IngressEx) (cfg : IngressNginxConfig) : Prop where
  servers : List.Forall₂ (fun rule server => server.name = rule.1 ∧
    List.Forall₂ (LocationFor lbc l ing cfg) (ing.destinations rule.2) server.locations)
    (servedRules ing.rules) cfg.servers
  upstreams : ∀ u ∈ cfg.upstreams, ∀ b ∈ ing.backends, ∀ b' ∈ ing.backends,
    u.name = getNameForUpstream ing b.1 b.2 → u.name = getNameForUpstream ing b'.1 b'.2 → b = b'
  endpoints : ∀ key endps, ingEx.endpoints.lookup key = some endps → ∀ b ∈ ing.backends, ∀ b' ∈ ing.backends,
    b.2.endpointsKey = key → b'.2.endpointsKey = key → b.2 = b'.2

/-- The two ways to write a backend tell the backends of an ingress apart. -/
structure ToldApart : Prop where
  upstreams : ∀ b ∈ ing.backends, ∀ b' ∈ ing.backends,
    getNameForUpstream ing b.1 b.2 = getNameForUpstream ing b'.1 b'.2 → b = b'
  endpoints : ∀ b ∈ ing.backends, ∀ b' ∈ ing.backends, b.2.endpointsKey = b'.2.endpointsKey → b.2 = b'.2

/-- Addresses without a colon, and no external names. -/
structure Plain : Prop where
  addresses : ∀ key endps, l.endpoints.get key = some endps →
    ∀ subset ∈ endps.subsets, ∀ address ∈ subset.addresses, ':' ∉ address.toList
  services : ∀ key svc, l.services.get key = some svc → svc.type ≠ .externalName

variable {lbc l ing}

theorem getEndpointsForPort_eq_some {endps port svc result} (h : l.getEndpointsForPort endps port svc = some result) :
    ∃ subset ∈ endps.subsets, ∃ target, result = subset.addresses.map fun ip => Endpoint.of ip target := by
  simp only [Listers.getEndpointsForPort, bind, bind_eq_some_iff] at h
  obtain ⟨_, _, target, _, subset, hsubset, hresult⟩ := h
  exact ⟨subset, mem_of_find?_eq_some hsubset, target, (some.inj hresult).symm⟩

theorem getServiceEndpoints_eq_some {svc endps}
    (h : l.getServiceEndpoints svc = some endps) : l.endpoints.get endps.objectMeta.key = some endps :=
  Lister.mem_items.mp (mem_of_find?_eq_some h)

namespace Plain
variable (hl : Plain l)
include hl

theorem resolve (ns : String) (backend : Backend) : (l.resolve lbc.isNginxPlus ns backend).2 = false ∧
      ∀ e ∈ (l.resolve lbc.isNginxPlus ns backend).1, e.address ++ ":" ++ e.port = e.text := by
  unfold Listers.resolve
  cases hsvc : l.getServiceForIngressBackend backend ns with
  | none => simp
  | some svc =>
    rw [bind_some]
    unfold Listers.getEndpointsForIngressBackend
    cases hendps : l.getServiceEndpoints svc with
    | none => simp [hl.services _ _ hsvc]
    | some endps =>
      dsimp only
      cases hport : l.getEndpointsForPort endps backend.servicePort svc with
      | none => simp
      | some result =>
        refine ⟨rfl, fun e he => ?_⟩
        obtain ⟨subset, hsubset, target, rfl⟩ := getEndpointsForPort_eq_some hport
        obtain ⟨ip, hip, rfl⟩ := mem_map.mp he
        have hcolon := hl.addresses _ _ (getServiceEndpoints_eq_some hendps) subset hsubset ip hip
        rw [Endpoint.address_of hcolon, Endpoint.port_of hcolon, Endpoint.of]

theorem externalNameSvcsOf : externalNameSvcsOf lbc l ing = [] := by
  simp [Nginx.externalNameSvcsOf, hl.resolve]

theorem reaches {config pems isMinion b} (hb : (endpointsOf lbc l ing).lookup b.2.endpointsKey =
      some (l.resolve lbc.isNginxPlus ing.objectMeta.ns b.2).1) : Reaches lbc l ing b.2
      ((of lbc.isNginxPlus config (ingressEx lbc l ing) pems isMinion).upstreamFor b) := by
  have hext : (ingressEx lbc l ing).externalNameSvcs = [] := hl.externalNameSvcsOf
  have hendps : (ingressEx lbc l ing).endpoints.lookup b.2.endpointsKey = _ := hb
  unfold Reaches
  simp only [upstreamFor, createUpstream, upstreamServers, of, hext, hendps, getD_some]
  cases hres : (l.resolve lbc.isNginxPlus ing.objectMeta.ns b.2).1 with
  | nil =>
    cases lbc.isNginxPlus <;> simp [newUpstreamWithDefaultServer]
  | cons e es =>
    have htext : ∀ e' ∈ e :: es, e'.address ++ ":" ++ e'.port = e'.text :=
      hres ▸ (hl.resolve ing.objectMeta.ns b.2).2
    simpa [Function.comp_def] using ⟨htext e mem_cons_self, fun e' he' => htext e' (mem_cons_of_mem _ he')⟩

end Plain

theorem exists_endpoints {b} (hb : b ∈ ing.backends) : ∃ b' ∈ ing.backends,
    b'.2.endpointsKey = b.2.endpointsKey ∧ (endpointsOf lbc l ing).lookup b.2.endpointsKey =
      some (l.resolve lbc.isNginxPlus ing.objectMeta.ns b'.2).1 := by
  obtain h | ⟨hnone, _⟩ := Table.lookup_foldl_insert (fun b : String × Backend => b.2.endpointsKey)
    (fun b => (l.resolve lbc.isNginxPlus ing.objectMeta.ns b.2).1) ing.backends ∅ b.2.endpointsKey
  · exact h
  · exact absurd rfl (hnone b hb)

namespace ToldApart
variable (h : ToldApart ing)
include h

theorem endpointsOf {b} (hb : b ∈ ing.backends) : (endpointsOf lbc l ing).lookup b.2.endpointsKey =
      some (l.resolve lbc.isNginxPlus ing.objectMeta.ns b.2).1 := by
  obtain ⟨b', hb', hkey, hlookup⟩ := exists_endpoints hb
  rwa [h.endpoints b' hb' b hb hkey] at hlookup

theorem upstream {g : Generator} (hg : g.ingress = ing) {b} (hb : b ∈ ing.backends) :
    g.generated.1.lookup (g.upstreamName b) = some (g.upstreamFor b) := by
  subst hg
  obtain ⟨b', hb', hname, hlookup⟩ := g.exists_upstream hb
  rwa [h.upstreams b' hb' b hb hname] at hlookup

end ToldApart

theorem mem_backends_of_served {rule} (hrule : rule ∈ servedRules ing.rules)
    {p} (hp : p ∈ rule.2) : (rule.1, p.backend) ∈ ing.backends := by
  obtain ⟨r, hr, hhttp⟩ := mem_filterMap.mp hrule
  obtain ⟨paths, hpaths, rfl⟩ := map_eq_some_iff.mp hhttp
  have hmem : (r.host, p) ∈ ing.paths :=
    mem_flatMap.mpr ⟨r, hr, mem_map.mpr ⟨p, by rwa [hpaths], rfl⟩⟩
  exact mem_append_right _ (mem_map.mpr ⟨_, hmem, rfl⟩)

theorem default_mem_backends {backend} (h : ing.backend = some backend) :
    ("", backend) ∈ ing.backends := mem_append_left _ (by simp [h])

theorem locations_right {g : Generator} {cfg} (hg : g.ingress = ing)
    (hups : ∀ b ∈ ing.backends, ∃ u ∈ cfg.upstreams, Reaches lbc l ing b.2 u ∧
      g.generated.1.lookup (g.upstreamName b) = some u) {rule} (hrule : rule ∈ servedRules ing.rules) :
    List.Forall₂ (LocationFor lbc l ing cfg) (ing.destinations rule.2)
      (g.locations g.generated.1 rule.1 rule.2) := by
  refine rel_append ?_ ?_
  · rw [forall₂_map_left_iff, forall₂_map_right_iff, forall₂_same]
    intro p hp
    obtain ⟨u, hu, hreach, hlookup⟩ := hups _ (mem_backends_of_served hrule hp)
    have hloc : (g.pathLocation g.generated.1 rule.1 p).upstream = u := by
      rw [pathLocation, hlookup]
      rfl
    exact ⟨rfl, hloc ▸ hu, hloc ▸ hreach⟩
  · unfold defaultLocations
    rw [hg]
    cases hb : ing.backend with
    | none => simp
    | some backend =>
      cases hasRoot rule.2 with
      | true => simp
      | false =>
        obtain ⟨u, hu, hreach, hlookup⟩ := hups _ (default_mem_backends hb)
        have hloc : (g.defaultLocation g.generated.1 backend).upstream = u := by
          rw [defaultLocation, emptyHost, hlookup]
          rfl
        exact .cons ⟨rfl, hloc ▸ hu, hloc ▸ hreach⟩ .nil

/-- Traffic goes to the right service exactly if the backends of the ingress are told apart. -/
theorem traffic_right_iff {ingEx : IngressEx} (hing : createIngress lbc l ing = .ok ingEx) (hl : Plain l)
    (config : Config) (pems : Table String String) (isMinion : Bool) :
    TrafficRight lbc l ing ingEx (generateNginxCfg lbc.isNginxPlus config ingEx pems isMinion) ↔
      ToldApart ing := by
  obtain rfl := (createIngress_eq_ok.mp hing).2
  let g := of lbc.isNginxPlus config (ingressEx lbc l ing) pems isMinion
  constructor
  · intro h
    refine ⟨fun b hb b' hb' hname => ?_, fun b hb b' hb' hkey => ?_⟩
    · -- both find the one upstream with their name
      obtain ⟨b0, _, hname0, hlookup⟩ := g.exists_upstream hb
      have hb0 : (g.upstreamFor b0).name = getNameForUpstream ing b.1 b.2 :=
        (g.upstreamFor_name b0).trans hname0
      exact h.upstreams _ (mem_upstreamMapToSlice hlookup) b hb b' hb' hb0 (hb0.trans hname)
    · obtain ⟨_, _, _, hlookup⟩ := exists_endpoints hb
      exact h.endpoints _ _ hlookup b hb b' hb' rfl hkey.symm
  · intro h
    have hg : g.ingress = ing := rfl
    have hups : ∀ b ∈ ing.backends, ∃ u ∈ g.config.upstreams, Reaches lbc l ing b.2 u ∧
        g.generated.1.lookup (g.upstreamName b) = some u := fun b hb =>
      ⟨g.upstreamFor b, mem_upstreamMapToSlice (h.upstream hg hb), hl.reaches (h.endpointsOf hb),
        h.upstream hg hb⟩
    refine ⟨?_, fun u _ b hb b' hb' hub hub' => h.upstreams b hb b' hb' (hub.symm.trans hub'),
      fun _ _ _ b hb b' hb' hkey hkey' => h.endpoints b hb b' hb' (hkey.trans hkey'.symm)⟩
    have hservers := (forall₂_and_left (servedRules ing.rules) _).mpr
      ⟨fun rule hrule => hrule, g.generated_servers⟩
    refine hservers.imp fun rule server hserver => ⟨hserver.2.name, ?_⟩
    rw [hserver.2.locations]
    exact locations_right hg hups hserver.1

section samples

def sampleService (name : String) (h : isDNS1123Subdomain name = true) (port : Int) : Service where
  objectMeta := ⟨"default", name, legal_default, h⟩
  type := .clusterIP
  externalName := ""
  selector := []
  ports := [⟨"", .tcp, port, .int 0⟩]
  nodup_names := by simp

def sampleEndpoints (svc : Service) (address : String) : Endpoints where
  objectMeta := svc.objectMeta
  subsets := [⟨[address], svc.ports.map (·.port)⟩]

def sampleListers (svcs : List (Service × String)) : Listers :=
  { noListers with
    services := .ofList (svcs.map Prod.fst)
    endpoints := .ofList (svcs.map fun svc => sampleEndpoints svc.1 svc.2) }

theorem plain_sampleListers {svcs}
    (h : ∀ svc ∈ svcs, svc.1.type ≠ .externalName ∧ ':' ∉ svc.2.toList) : Plain (sampleListers svcs) where
  addresses key endps hget subset hsubset address haddress := by
    obtain ⟨svc, hsvc, rfl⟩ := mem_map.mp (Lister.mem_of_get_ofList hget)
    obtain rfl := mem_singleton.mp hsubset
    obtain rfl := mem_singleton.mp haddress
    exact (h svc hsvc).2
  services key svc hget := by
    obtain ⟨svc', hsvc, rfl⟩ := mem_map.mp (Lister.mem_of_get_ofList hget)
    exact (h svc' hsvc).1

theorem legal_coffee : isDNS1123Subdomain "coffee-svc" = true := by decide

theorem legal_tea : isDNS1123Subdomain "tea-svc" = true := by decide

def teaHouse : Ingress :=
  { cafe [] with
    backend := some ⟨"tea-svc", .int 80⟩
    rules :=
      [⟨"a.example.com", some [⟨"/coffee", "coffee-svc", .int 8080⟩, ⟨"/tea", "tea-svc", .int 80⟩]⟩,
       ⟨"b.example.com", some [⟨"/", "coffee-svc", .int 8080⟩]⟩] }

def teaListers : Listers :=
  sampleListers [(sampleService "coffee-svc" legal_coffee 8080, "10.0.0.1"),
    (sampleService "tea-svc" legal_tea 80, "10.0.0.2")]

/-- The paths of two hosts and the default backend lead to two services. -/
theorem traffic_right_cafe : let ingEx := ingressEx (plainLBC false) teaListers teaHouse
    TrafficRight (plainLBC false) teaListers teaHouse ingEx (generateNginxCfg false newDefaultConfig ingEx ∅ false) ∧
    (teaHouse.backends.map fun b => (b.1, (teaListers.resolve false "default" b.2).1.map Endpoint.text)) =
      [("", ["10.0.0.2:80"]), ("a.example.com", ["10.0.0.1:8080"]), ("a.example.com", ["10.0.0.2:80"]),
       ("b.example.com", ["10.0.0.1:8080"])] := by
  intro ingEx
  have hing : createIngress (plainLBC false) teaListers teaHouse = .ok ingEx :=
    createIngress_eq_ok.mpr ⟨by decide +kernel, rfl⟩
  have hl : Plain teaListers := plain_sampleListers (by decide +kernel)
  have hapart : ToldApart teaHouse := ⟨by decide +kernel, by decide +kernel⟩
  exact ⟨(traffic_right_iff hing hl newDefaultConfig ∅ false).mpr hapart, by decide +kernel⟩

/-- An ingress for two hosts. The service "a1" with port 80 and the service "a" with port 180 are both
written "a180"; so is the service "b-c" of the one host like the service "c" of the other. -/
def mixedUp : Ingress :=
  { cafe [] with
    rules :=
      [⟨"x.com", some [⟨"/a", "a1", .int 80⟩, ⟨"/b", "a", .int 180⟩, ⟨"/c", "b-c", .int 80⟩]⟩,
       ⟨"x.com-b", some [⟨"/c", "c", .int 80⟩]⟩] }

def mixedUpListers : Listers :=
  sampleListers [(sampleService "a1" (by decide) 80, "10.0.0.1"), (sampleService "a" (by decide) 180, "10.0.0.2"),
    (sampleService "b-c" (by decide) 80, "10.0.0.3"), (sampleService "c" (by decide) 80, "10.0.0.4")]

/-- The first path leads to the endpoints of the second, the last one to those of the third. -/
theorem traffic_mixed_up : let ingEx := ingressEx (plainLBC false) mixedUpListers mixedUp
    let cfg := generateNginxCfg false newDefaultConfig ingEx ∅ false
    (createIngress (plainLBC false) mixedUpListers mixedUp = .ok ingEx ∧ Plain mixedUpListers) ∧
    ¬TrafficRight (plainLBC false) mixedUpListers mixedUp ingEx cfg ∧
    (cfg.servers.flatMap fun server => server.locations.map fun loc =>
      (server.name, loc.path, loc.upstream.upstreamServers.map (·.address))) =
      [("x.com", "/a", ["10.0.0.2"]), ("x.com", "/b", ["10.0.0.2"]), ("x.com", "/c", ["10.0.0.3"]),
       ("x.com-b", "/c", ["10.0.0.3"])] ∧ (mixedUp.backends.map fun b =>
      (mixedUpListers.resolve false "default" b.2).1.map Endpoint.text) =
      [["10.0.0.1:80"], ["10.0.0.2:180"], ["10.0.0.3:80"], ["10.0.0.4:80"]] := by
  refine ⟨⟨createIngress_eq_ok.mpr ⟨by decide +kernel, rfl⟩, plain_sampleListers (by decide +kernel)⟩,
    fun h => ?_, by decide +kernel, by decide +kernel⟩
  have hmem : ("x.com", ⟨"a1", .int 80⟩) ∈ mixedUp.backends := by decide
  obtain ⟨_, _, _, hlookup⟩ := exists_endpoints hmem
  have hshared := h.endpoints _ _ hlookup _ hmem ("x.com", ⟨"a", .int 180⟩) (by decide)
    rfl (by decide +kernel)
  exact absurd hshared (by decide)

end samples

end KubeYamls.Nginx
