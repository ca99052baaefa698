import KubeYamls.Nginx.Upstreams

/-! # From endpoints to upstream servers

`getEndpointsForPort` takes the first subset of the endpoints that exposes the target
port, and leaves the others. It writes an address and the port with a colon between
them, and `createUpstream` splits the text at the first two colons. -/
namespace KubeYamls.Nginx
open Data Endpoint List

section completeness
variable (l : Listers) (endps : Endpoints) (ingSvcPort : IntOrString) (svc : Service)

/-- The port of a backend selects a port of the service, which has this target. -/
def TargetPort (t : Int) : Prop :=
  ∃ port, Listers.getServicePortForIngressPort ingSvcPort svc = some port ∧ l.getTargetPort port svc = some t

def Endpoints.exposing (t : Int) : List EndpointSubset := endps.subsets.filter fun subset => t ∈ subset.ports

def Endpoints.ready (t : Int) : List Endpoint :=
  (endps.exposing t).flatMap fun subset => subset.addresses.map fun ip => of ip t

variable {l endps ingSvcPort svc}

theorem getEndpointsForPort_eq {t} (h : TargetPort l ingSvcPort svc t) :
    l.getEndpointsForPort endps ingSvcPort svc =
      (endps.exposing t).head?.map fun subset => subset.addresses.map fun ip => of ip t := by
  obtain ⟨port, hport, ht⟩ := h
  rw [Endpoints.exposing, head?_filter]
  simp only [Listers.getEndpointsForPort, hport, ht, Option.bind_eq_bind, Option.bind_some]
  cases endps.subsets.find? fun subset => t ∈ subset.ports <;> rfl

theorem targetPort_of_isSome (h : (l.getEndpointsForPort endps ingSvcPort svc).isSome = true) :
    ∃ t, TargetPort l ingSvcPort svc t := by
  obtain ⟨result, hresult⟩ := Option.isSome_iff_exists.mp h
  obtain ⟨port, hport, hrest⟩ := Option.bind_eq_some_iff.mp hresult
  obtain ⟨t, ht, -⟩ := Option.bind_eq_some_iff.mp hrest
  exact ⟨t, port, hport, ht⟩

end completeness

theorem Endpoint.of_inj {a b t} : of a t = of b t ↔ a = b := by
  refine ⟨fun h => ?_, fun h => h ▸ rfl⟩
  have htext : a ++ ":" ++ itoa t = b ++ ":" ++ itoa t := congrArg text h
  exact String.toList_inj.mp (by simpa using congrArg String.toList htext)

section parts
variable {l : Listers} {endps : Endpoints} {ingSvcPort : IntOrString} {svc : Service} {t : Int}
  {first : EndpointSubset} {rest : List EndpointSubset}

theorem getEndpointsForPort_eq_none_iff : l.getEndpointsForPort endps ingSvcPort svc = none ↔
    ∀ t, TargetPort l ingSvcPort svc t → endps.exposing t = [] := by
  constructor
  · intro hnone t ht
    rw [getEndpointsForPort_eq ht] at hnone
    simpa using hnone
  · intro h
    by_contra hne
    obtain ⟨t, ht⟩ := targetPort_of_isSome (Option.isSome_iff_ne_none.mpr hne)
    rw [getEndpointsForPort_eq ht, h t ht] at hne
    exact hne rfl

theorem perm_ready_iff (h : endps.exposing t = first :: rest) :
    (first.addresses.map fun ip => of ip t).Perm (endps.ready t) ↔ ∀ subset ∈ rest, subset.addresses = [] := by
  rw [Endpoints.ready, h, flatMap_cons]
  nth_rewrite 1 [← append_nil (first.addresses.map fun ip => of ip t)]
  rw [perm_append_left_iff, nil_perm, flatMap_eq_nil_iff]
  simp only [map_eq_nil_iff]

theorem mem_ready_iff (h : endps.exposing t = first :: rest) :
    (∀ endp, (endp ∈ first.addresses.map fun ip => of ip t) ↔ endp ∈ endps.ready t) ↔
      ∀ subset ∈ rest, ∀ ip ∈ subset.addresses, ip ∈ first.addresses := by
  rw [Endpoints.ready, h, flatMap_cons]
  have hin : ∀ ip, of ip t ∈ first.addresses.map (fun ip => of ip t) ↔ ip ∈ first.addresses :=
    fun ip => by simp [of_inj]
  constructor
  · intro hsame subset hsubset ip hip
    refine (hin ip).mp ((hsame _).mpr (mem_append_right _ ?_))
    exact mem_flatMap.mpr ⟨subset, hsubset, mem_map_of_mem hip⟩
  · intro hamong endp
    refine ⟨mem_append_left _, fun hmem => ?_⟩
    rcases mem_append.mp hmem with hmem | hmem
    · exact hmem
    · obtain ⟨subset, hsubset, hmem⟩ := mem_flatMap.mp hmem
      obtain ⟨ip, hip, rfl⟩ := mem_map.mp hmem
      exact (hin ip).mpr (hamong subset hsubset ip hip)

end parts

/-- There is an error exactly if no subset exposes the target port, or there is no target port.
Else the endpoints are all there exactly if the first subset that exposes the port is the only
one with addresses; each is there, if perhaps not as often, exactly if the addresses of the
others are among those of the first. -/
theorem endpoints_complete_iff (l : Listers) (endps : Endpoints) (ingSvcPort : IntOrString) (svc : Service) :
    (l.getEndpointsForPort endps ingSvcPort svc = none ↔
      ∀ t, TargetPort l ingSvcPort svc t → endps.exposing t = []) ∧
    ∀ t result, TargetPort l ingSvcPort svc t → l.getEndpointsForPort endps ingSvcPort svc = some result →
      (result.Perm (endps.ready t) ↔ ∀ subset ∈ (endps.exposing t).tail, subset.addresses = []) ∧
      ((∀ endp, endp ∈ result ↔ endp ∈ endps.ready t) ↔
        ∀ subset ∈ (endps.exposing t).tail, ∀ ip ∈ subset.addresses,
          ∃ first ∈ (endps.exposing t).head?, ip ∈ first.addresses) := by
  refine ⟨getEndpointsForPort_eq_none_iff, fun t result ht hresult => ?_⟩
  rw [getEndpointsForPort_eq ht] at hresult
  obtain ⟨first, hfirst, rfl⟩ := Option.map_eq_some_iff.mp hresult
  obtain ⟨rest, hrest⟩ : ∃ rest, endps.exposing t = first :: rest := head?_eq_some_iff.mp hfirst
  rw [perm_ready_iff hrest, mem_ready_iff hrest, hrest, tail_cons, head?_cons]
  simp only [Option.mem_some_iff, exists_eq_left', and_true]

section samples

theorem endpoints_complete_coffee : let endps := sampleEndpoints coffeeService "10.0.0.1"
    noListers.getEndpointsForPort endps (.int 80) coffeeService = some [of "10.0.0.1" 80] ∧
      [of "10.0.0.1" 80].Perm (endps.ready 80) := by
  intro endps
  have hresult : noListers.getEndpointsForPort endps (.int 80) coffeeService = some [of "10.0.0.1" 80] := by decide
  have hiff := (endpoints_complete_iff noListers endps (.int 80) coffeeService).2 80 _ ⟨_, rfl, rfl⟩ hresult
  exact ⟨hresult, hiff.1.mpr (by decide)⟩

/-- The endpoints of "coffee-svc" in two subsets, as for pods of which some have a further port. -/
def splitEndpoints : Endpoints :=
  ⟨coffeeService.objectMeta, [⟨["10.0.0.1"], [80]⟩, ⟨["10.0.0.2", "10.0.0.3"], [80, 443]⟩]⟩

theorem endpoints_missed : TargetPort noListers (.int 80) coffeeService 80 ∧
      noListers.getEndpointsForPort splitEndpoints (.int 80) coffeeService = some [of "10.0.0.1" 80] ∧
      splitEndpoints.ready 80 = [of "10.0.0.1" 80, of "10.0.0.2" 80, of "10.0.0.3" 80] ∧
      ¬[of "10.0.0.1" 80].Perm (splitEndpoints.ready 80) :=
  ⟨⟨_, rfl, rfl⟩, by decide, by decide, by decide⟩

end samples

/-! ## The text of an address -/

/-- A number from 0 to 255 in decimal digits. -/
def IsOctet (s : String) : Prop := ∃ n ≤ 255, digits s.toList = some n

/-- The text of an IPv4 address. -/
inductive IsIPv4 : String → Prop where
  | dotted {a b c d : String} : IsOctet a → IsOctet b → IsOctet c → IsOctet d →
      IsIPv4 (a ++ "." ++ b ++ "." ++ c ++ "." ++ d)

structure IsGroup (s : String) : Prop where
  ne : s ≠ ""
  length : (s.toList.dropWhile (· = '0')).length ≤ 4
  hexadecimal : s.toList.all (fun c => c.isDigit || "abcdefABCDEF".toList.contains c) = true

/-- Groups of an IPv6 address and their number. An IPv4 address at the end counts as two. -/
inductive IsGroups : List String → Nat → Prop where
  | nil : IsGroups [] 0
  | dotted {ip : String} : IsIPv4 ip → IsGroups [ip] 2
  | cons {group : String} {groups : List String} {n : Nat} : IsGroup group → IsGroups groups n →
      IsGroups (group :: groups) (n + 1)

/-- The text of an IPv6 address: eight groups, or fewer with "::" for those that are zero. -/
inductive IsIPv6 : String → Prop where
  | full {groups : List String} : IsGroups groups 8 → IsIPv6 (":".intercalate groups)
  | elided {left right : List String} {n : Nat} : (∀ group ∈ left, IsGroup group) → IsGroups right n →
      left.length + n < 8 → IsIPv6 (":".intercalate left ++ "::" ++ ":".intercalate right)

section addresses
variable {ip : String}

theorem IsOctet.notMem (h : IsOctet ip) : ':' ∉ ip.toList := by
  obtain ⟨n, _, hdigits⟩ := h
  intro hmem
  unfold digits at hdigits
  split at hdigits
  · cases hdigits
  · split at hdigits
    · rename_i hall
      exact absurd (all_eq_true.mp hall _ hmem) (by decide)
    · cases hdigits

theorem IsIPv4.notMem (h : IsIPv4 ip) : ':' ∉ ip.toList := by
  obtain ⟨ha, hb, hc, hd⟩ := h
  simp [ha.notMem, hb.notMem, hc.notMem, hd.notMem]

theorem IsGroups.le_length {groups n} (h : IsGroups groups n) : n ≤ groups.length + 1 := by
  induction h with
  | nil | dotted => simp
  | cons _ _ ih => simpa using ih

theorem IsIPv6.mem (h : IsIPv6 ip) : ':' ∈ ip.toList := by
  cases h with
  | full h =>
    rename_i groups
    match groups, h.le_length with
    | a :: b :: rest, _ => simp
  | elided => simp

/-- A server has the address as NGINX takes it, and the port. -/
structure Survives (ip : String) (t : Int) (server : UpstreamServer) : Prop where
  ipv4 : IsIPv4 ip → server.address = ip
  ipv6 : IsIPv6 ip → server.address = "[" ++ ip ++ "]"
  port : server.port = itoa t

theorem Endpoint.notMem_address (e : Endpoint) : ':' ∉ e.address.toList :=
  notMem_of_mem_splitFrom not_mem_nil (get_mem (split e.text ":") _)

theorem survives_iff (h : IsIPv4 ip ∨ IsIPv6 ip) {t server}
    (haddress : server.address = (of ip t).address) (hport : server.port = (of ip t).port) :
    Survives ip t server ↔ IsIPv4 ip := by
  rcases h with h | h
  · refine iff_of_true ⟨fun _ => ?_, fun h6 => absurd h6.mem h.notMem, ?_⟩ h
    · rw [haddress, address_of h.notMem]
    · rw [hport, port_of h.notMem]
  · refine iff_of_false (fun hs => ?_) fun h4 => h4.notMem h.mem
    have hcolon : ':' ∈ server.address.toList := by
      rw [hs.ipv6 h]
      simp [h.mem]
    rw [haddress] at hcolon
    exact notMem_address _ hcolon

end addresses

theorem createUpstream_servers {g : Generator} {backend endps} (name : String)
    (hlookup : g.ingEx.endpoints.lookup backend.endpointsKey = some endps) (hne : endps ≠ [])
    (hresolver : backend.serviceName ∈ g.ingEx.externalNameSvcs → g.resolver = true) :
    (g.createUpstream name backend).upstreamServers.map (fun server => (server.address, server.port)) =
      endps.map fun endp => (endp.address, endp.port) := by
  have hservers : (g.upstreamServers backend).map (fun server => (server.address, server.port)) =
      endps.map fun endp => (endp.address, endp.port) := by
    have huse : ¬(decide (backend.serviceName ∈ g.ingEx.externalNameSvcs) && !g.resolver) = true := by
      simpa using hresolver
    simp only [Generator.upstreamServers, hlookup, Option.getD_some, if_neg huse, map_map]
    rfl
  have hsome : g.upstreamServers backend ≠ [] := by
    intro hnil
    rw [hnil] at hservers
    exact hne (map_eq_nil_iff.mp hservers.symm)
  rw [← hservers]
  unfold Generator.createUpstream
  cases g.isPlus <;> simp [hsome]

/-- Of the addresses that `getEndpointsForPort` writes down, exactly those of IPv4 are read again by
`createUpstream`. -/
theorem addresses_survive_iff (l : Listers) (endps : Endpoints) (ingSvcPort : IntOrString) (svc : Service) {t : Int}
    {subset : EndpointSubset} (ht : TargetPort l ingSvcPort svc t)
    (hsubset : (endps.exposing t).head? = some subset) (hne : subset.addresses ≠ [])
    (hips : ∀ ip ∈ subset.addresses, IsIPv4 ip ∨ IsIPv6 ip) (g : Generator) (name : String) (backend : Backend)
    (hlookup : g.ingEx.endpoints.lookup backend.endpointsKey = l.getEndpointsForPort endps ingSvcPort svc)
    (hresolver : backend.serviceName ∈ g.ingEx.externalNameSvcs → g.resolver = true) :
    List.Forall₂ (fun ip server => Survives ip t server ↔ IsIPv4 ip) subset.addresses
      (g.createUpstream name backend).upstreamServers := by
  rw [getEndpointsForPort_eq ht, hsubset] at hlookup
  have hservers := createUpstream_servers name hlookup (by simpa using hne) hresolver
  rw [map_map, ← forall₂_eq_eq_eq, forall₂_map_left_iff, forall₂_map_right_iff] at hservers
  have hall := (forall₂_and_left _ _).mpr ⟨hips, hservers.flip⟩
  refine hall.imp fun ip server ⟨hip, hserver⟩ => ?_
  obtain ⟨haddress, hport⟩ := Prod.mk.inj hserver
  exact survives_iff hip haddress hport

section samples

/-- "default/cafe" while its service has one endpoint with this address. -/
def cafeGenerator (ip : String) : Generator :=
  .of false newDefaultConfig (ingressEx (plainLBC false) (sampleListers [(coffeeService, ip)]) (cafe [])) ∅ false

theorem addresses_survive_cafe : ∃ server, ((cafeGenerator "10.0.0.1").createUpstream "coffee"
    ⟨"coffee-svc", .int 80⟩).upstreamServers = [server] ∧ server.address = "10.0.0.1" ∧ server.port = "80" := by
  have hip : IsIPv4 "10.0.0.1" :=
    .dotted (a := "10") (b := "0") (c := "0") (d := "1") ⟨10, by decide, by decide⟩ ⟨0, by decide, by decide⟩
      ⟨0, by decide, by decide⟩ ⟨1, by decide, by decide⟩
  have hall := addresses_survive_iff noListers (sampleEndpoints coffeeService "10.0.0.1") (.int 80) coffeeService
    ⟨_, rfl, rfl⟩ rfl (cons_ne_nil _ _) (fun _ h => .inl (mem_singleton.mp h ▸ hip))
    (cafeGenerator "10.0.0.1") "coffee" ⟨"coffee-svc", .int 80⟩ (by decide +kernel)
    (fun h => absurd h (by decide +kernel))
  generalize hservers : (Generator.createUpstream _ _ _).upstreamServers = servers at hall
  obtain _ | ⟨hserver, _ | _⟩ := hall
  exact ⟨_, rfl, (hserver.mpr hip).ipv4 hip, (hserver.mpr hip).port⟩

/-- An address of IPv6 is cut at its own first colons. -/
theorem ipv6_address_cut : IsIPv6 "2001:db8::1" ∧
    ((cafeGenerator "2001:db8::1").createUpstream "coffee" ⟨"coffee-svc", .int 80⟩).upstreamServers.map
      (fun server => (server.address, server.port)) = [("2001", "db8")] ∧
    (noListers.getEndpointsForPort (sampleEndpoints coffeeService "2001:db8::1") (.int 80) coffeeService).map
      (fun endps => endps.map text) = some ["2001:db8::1:80"] := by
  have hgroups : IsGroup "2001" ∧ IsGroup "db8" ∧ IsGroup "1" :=
    ⟨⟨by decide, by decide, by decide⟩, ⟨by decide, by decide, by decide⟩, ⟨by decide, by decide, by decide⟩⟩
  have hip : IsIPv6 (":".intercalate ["2001", "db8"] ++ "::" ++ ":".intercalate ["1"]) :=
    .elided (by simp [hgroups]) (.cons hgroups.2.2 .nil) (by decide)
  exact ⟨hip, by decide +kernel, by decide +kernel⟩

end samples

end KubeYamls.Nginx
