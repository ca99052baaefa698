import KubeYamls.Nginx.Generate

/-! # What a generated configuration looks like

The loops of `generateNginxCfg` build upstreams and servers at the same time.
Here they are taken apart: the upstreams are one loop over the backends, and
the servers are computed from the rules once all upstreams are known, since an
upstream that is there is never replaced. -/
namespace KubeYamls.Nginx
open Data List

theorem exists_of_forall₂ {α β : Type} {R} {as : List α} {bs} (h : List.Forall₂ R as bs)
    {b : β} (hb : b ∈ bs) : ∃ a ∈ as, R a b := by
  induction h with
  | nil => cases hb
  | cons hab _ ih =>
    rcases mem_cons.mp hb with rfl | hb
    · exact ⟨_, mem_cons_self, hab⟩
    · obtain ⟨a, ha, h⟩ := ih hb
      exact ⟨a, mem_cons_of_mem _ ha, h⟩

def servedRules (rules : List Rule) : List (String × List HTTPPath) :=
  rules.filterMap fun rule => rule.http.map fun paths => (rule.host, paths)

namespace Generator
variable (g : Generator)

def upstreamName (b : String × Backend) : String := getNameForUpstream g.ingress b.1 b.2

def upstreamFor (b : String × Backend) : Upstream := g.createUpstream (g.upstreamName b) b.2

theorem upstreamFor_name (b : String × Backend) : (g.upstreamFor b).name = g.upstreamName b := by
  unfold upstreamFor createUpstream
  cases g.isPlus <;> rfl

theorem upstreamFor_servers (b : String × Backend) : (g.upstreamFor b).upstreamServers =
    if g.upstreamServers b.2 = [] then if g.isPlus then [] else (newUpstreamWithDefaultServer "").upstreamServers
    else g.upstreamServers b.2 := by
  unfold upstreamFor createUpstream
  cases g.isPlus <;> rfl

/-- Upstreams for some backends, each under its name unless there is one already. -/
def ensureAll (upstreams : Table String Upstream) (bs : List (String × Backend)) :
    Table String Upstream :=
  bs.foldl (fun t b => t.insertNew (g.upstreamName b) (g.upstreamFor b)) upstreams

theorem ensureAll_append (t : Table String Upstream) (bs bs' : List (String × Backend)) :
    g.ensureAll t (bs ++ bs') = g.ensureAll (g.ensureAll t bs) bs' := foldl_append

theorem addPath_upstreams (host : String) (paths : List HTTPPath) (st : PathState) :
    (paths.foldl (g.addPath host) st).upstreams =
      g.ensureAll st.upstreams (paths.map fun p => (host, p.backend)) := by
  induction paths generalizing st with
  | nil => rfl
  | cons p ps ih => exact ih (g.addPath host st p)

theorem addDefault_upstreams (st : PathState) : (g.addDefault st).upstreams = st.upstreams := by
  unfold addDefault
  split
  · rfl
  · split <;> rfl

theorem addRule_upstreams (rules : List Rule) (st : Table String Upstream × List Server) :
    (rules.foldl g.addRule st).1 = g.ensureAll st.1 (rules.flatMap fun rule =>
      (rule.http.getD []).map fun p => (rule.host, p.backend)) := by
  induction rules generalizing st with
  | nil => rfl
  | cons rule rules ih =>
    rw [foldl_cons, ih, flatMap_cons, ensureAll_append]
    congr 1
    unfold addRule
    cases rule.http with
    | none => rfl
    | some paths =>
      simp only [addDefault_upstreams, addPath_upstreams]
      rfl

theorem generated_upstreams : g.generated.1 = g.ensureAll ∅ g.ingress.backends := by
  rw [generated, addRule_upstreams, Ingress.backends, ensureAll_append, Ingress.paths, map_flatMap]
  congr 1
  · unfold defaultUpstreams
    cases g.ingress.backend <;> rfl
  · simp [Function.comp_def]

theorem exists_upstream {b} (hb : b ∈ g.ingress.backends) :
    ∃ b' ∈ g.ingress.backends, g.upstreamName b' = g.upstreamName b ∧
      g.generated.1.lookup (g.upstreamName b) = some (g.upstreamFor b') := by
  rw [generated_upstreams]
  exact Table.lookup_foldl_insertNew g.upstreamName g.upstreamFor _ ∅ (AList.lookup_empty _) ⟨b, hb, rfl⟩

theorem lookup_generated (name : String) : g.generated.1.lookup name =
    (g.ingress.backends.find? (g.upstreamName · = name)).map g.upstreamFor := by
  rw [generated_upstreams, ensureAll, Table.lookup_foldl_insertNew_eq, AList.lookup_empty, Option.none_or]

theorem mem_upstreamMapToSlice_iff {t u} : u ∈ upstreamMapToSlice t ↔ ∃ name, t.lookup name = some u := by
  simp only [upstreamMapToSlice, mem_filterMap, (perm_insertionSort (· ≤ ·) t.keys).mem_iff]
  refine ⟨fun ⟨name, _, h⟩ => ⟨name, h⟩, fun ⟨name, h⟩ => ⟨name, ?_, h⟩⟩
  exact AList.mem_keys.mp (AList.lookup_isSome.mp (by simp [h]))

theorem mem_upstreamMapToSlice {t name u}
    (h : t.lookup name = some u) : u ∈ upstreamMapToSlice t := mem_upstreamMapToSlice_iff.mpr ⟨name, h⟩

section servers

def Extends (t t' : Table String Upstream) : Prop := ∀ name u, t.lookup name = some u → t'.lookup name = some u

theorem Extends.trans {t1 t2 t3} (h1 : Extends t1 t2) (h2 : Extends t2 t3) :
    Extends t1 t3 := fun name u h => h2 name u (h1 name u h)

theorem Extends.isSome {t1 t2 name} (h : Extends t1 t2)
    (hs : (t1.lookup name).isSome = true) : (t2.lookup name).isSome = true := by
  obtain ⟨u, hu⟩ := Option.isSome_iff_exists.mp hs
  rw [h name u hu, Option.isSome_some]

theorem extends_ensureAll (t : Table String Upstream) (bs : List (String × Backend)) :
    Extends t (g.ensureAll t bs) :=
  fun _ _ h => Table.lookup_foldl_insertNew_of_some g.upstreamName g.upstreamFor bs h

variable (t : Table String Upstream)

def pathLocation (host : String) (p : HTTPPath) : Location :=
  { g.location p.path ((t.lookup (g.upstreamName (host, p.backend))).getD { name := "" }) p.backend with
    jwtAuth := (if g.isMinion then g.jwtAuth else none).map Prod.fst }

def defaultLocation (backend : Backend) : Location :=
  g.location "/" ((t.lookup (g.upstreamName (emptyHost, backend))).getD { name := "" }) backend

def hasRoot (paths : List HTTPPath) : Bool := paths.any fun p => pathOrDefault p.path = "/"

/-- The location of the default backend, unless a path takes its place. -/
def defaultLocations (paths : List HTTPPath) : List Location :=
  match g.ingress.backend with
  | none => []
  | some backend => if hasRoot paths then [] else [g.defaultLocation t backend]

def locations (host : String) (paths : List HTTPPath) : List Location :=
  paths.map (g.pathLocation t host) ++ g.defaultLocations t paths

variable {t}

theorem addPath_locations (host : String) (paths : List HTTPPath) (st : PathState)
    (ht : Extends (paths.foldl (g.addPath host) st).upstreams t) :
    (paths.foldl (g.addPath host) st).locations = st.locations ++ paths.map (g.pathLocation t host) := by
  induction paths generalizing st with
  | nil => simp
  | cons p ps ih =>
    rw [foldl_cons, ih (g.addPath host st p) ht, map_cons, append_cons]
    congr 1
    -- the upstream the path finds stays where it is
    have hhere : (g.addPath host st p).upstreams.lookup (g.upstreamName (host, p.backend)) = some _ :=
      (Table.lookup_insertNew _ _ _ _).trans (if_pos rfl)
    have hlater := ht _ _ (by
      rw [foldl_cons, addPath_upstreams]
      exact g.extends_ensureAll _ _ _ _ hhere)
    have hloc : (g.addPath host st p).locations = st.locations ++
        [{ g.location p.path (((g.addPath host st p).upstreams.lookup
            (g.upstreamName (host, p.backend))).getD { name := "" }) p.backend with
          jwtAuth := (if g.isMinion then g.jwtAuth else none).map Prod.fst }] := rfl
    rw [hloc, hhere, pathLocation, hlater]

theorem any_root (host : String) (paths : List HTTPPath) :
    (paths.map (g.pathLocation t host)).any (fun loc => loc.path = "/") = hasRoot paths := by
  rw [any_map]
  rfl

/-- The server of a rule, as far as traffic and certificates go. -/
structure ServerFor (t : Table String Upstream) (rule : String × List HTTPPath) (server : Server) :
    Prop where
  name : server.name = rule.1
  locations : server.locations = g.locations t rule.1 rule.2
  ssl : server.ssl = (g.newServer rule.1).ssl
  sslCertificate : server.sslCertificate = (g.newServer rule.1).sslCertificate

theorem addDefault_locations (paths : List HTTPPath) (st : PathState)
    (hroot : st.locations.any (fun loc => loc.path = "/") = hasRoot paths)
    (ht : Extends st.upstreams t) (hdefault : ∀ backend, g.ingress.backend = some backend →
      (st.upstreams.lookup (g.upstreamName (emptyHost, backend))).isSome) :
    (g.addDefault st).locations = st.locations ++ g.defaultLocations t paths := by
  unfold addDefault defaultLocations
  cases hb : g.ingress.backend with
  | none => simp
  | some backend =>
    dsimp only
    rw [hroot]
    split
    · simp
    · obtain ⟨u, hu⟩ := Option.isSome_iff_exists.mp (hdefault backend hb)
      simp only [defaultLocation, ht _ _ hu]
      exact congrArg (fun u => st.locations ++ [g.location "/" (Option.getD u _) backend]) hu

theorem newServer_name (host : String) : (g.newServer host).name = host := by
  unfold newServer
  dsimp only
  split <;> rfl

theorem addRule_servers (rules : List Rule) (st : Table String Upstream × List Server)
    (ht : Extends (rules.foldl g.addRule st).1 t) (hdefault : ∀ backend, g.ingress.backend = some backend →
      (st.1.lookup (g.upstreamName (emptyHost, backend))).isSome) :
    ∃ servers, (rules.foldl g.addRule st).2 = st.2 ++ servers ∧
      List.Forall₂ (g.ServerFor t) (servedRules rules) servers := by
  induction rules generalizing st with
  | nil => exact ⟨[], by simp, .nil⟩
  | cons rule rules ih =>
    have hgrow : ∀ (rules : List Rule) st, Extends st.1 (rules.foldl g.addRule st).1 := fun rules st => by
      rw [addRule_upstreams]
      exact g.extends_ensureAll _ _
    obtain ⟨servers, hservers, hall⟩ := ih (g.addRule st rule) ht fun backend hb =>
      (hgrow [rule] st).isSome (hdefault backend hb)
    rw [foldl_cons, hservers]
    cases hhttp : rule.http with
    | none =>
      refine ⟨servers, ?_, by simpa [servedRules, hhttp] using hall⟩
      simp [addRule, hhttp]
    | some paths =>
      let auth := if g.isMinion then none else g.jwtAuth
      let done := paths.foldl (g.addPath rule.host)
        { upstreams := st.1, redirects := (auth.map Prod.snd).getD [] }
      have hrule : g.addRule st rule = ((g.addDefault done).upstreams, st.2 ++
          [{ g.newServer rule.host with
            jwtAuth := auth.map Prod.fst
            jwtRedirectLocations := (g.addDefault done).redirects
            locations := (g.addDefault done).locations
            healthChecks := (g.addDefault done).healthChecks
            grpcOnly := g.grpcOnly paths }]) := by
        simp only [addRule, hhttp, done, auth]
      have hdone : Extends done.upstreams t := by
        have hlater := (hgrow rules (g.addRule st rule)).trans ht
        rwa [hrule, addDefault_upstreams] at hlater
      have hpaths : done.locations = paths.map (g.pathLocation t rule.host) :=
        (g.addPath_locations rule.host paths _ hdone).trans (nil_append _)
      have hstart : Extends st.1 done.upstreams := by
        rw [addPath_upstreams]
        exact g.extends_ensureAll _ _
      have hdefault' := g.addDefault_locations paths done (by rw [hpaths, any_root]) hdone
        fun backend hb => hstart.isSome (hdefault backend hb)
      rw [hrule]
      refine ⟨_ :: servers, append_cons _ _ _ |>.symm, ?_⟩
      have hserved : servedRules (rule :: rules) = (rule.host, paths) :: servedRules rules := by
        simp [servedRules, hhttp]
      rw [hserved]
      refine .cons ⟨g.newServer_name rule.host, ?_, rfl, rfl⟩ hall
      rw [hdefault', hpaths, locations]

theorem generated_servers :
    List.Forall₂ (g.ServerFor g.generated.1) (servedRules g.ingress.rules) g.generated.2 := by
  obtain ⟨servers, hservers, hall⟩ := g.addRule_servers g.ingress.rules (g.defaultUpstreams, [])
    (fun _ _ h => h) fun backend hb => by
      simp [defaultUpstreams, hb, ensureUpstream, upstreamName, Table.lookup_insertNew]
  rw [generated, hservers, nil_append]
  exact hall

theorem newServer_ssl {host} (h : (g.newServer host).ssl = true) :
    g.pems.lookup host = some (g.newServer host).sslCertificate := by
  unfold newServer at h ⊢
  cases hpem : g.pems.lookup host with
  | none => simp [hpem] at h
  | some pem => simp

theorem ssl_server {server} (hs : server ∈ g.config.servers) (hssl : server.ssl = true) :
    g.pems.lookup server.name = some server.sslCertificate := by
  obtain ⟨rule, _, hserver⟩ := exists_of_forall₂ g.generated_servers (show server ∈ g.generated.2 from hs)
  rw [hserver.name, hserver.sslCertificate]
  exact g.newServer_ssl (hserver.ssl ▸ hssl)

end servers

end Generator

theorem IngressEx.lookup_pems {ingEx : IngressEx} {host pem} (h : ingEx.pems.lookup host = some pem) :
    ∃ tls ∈ ingEx.ingress.tls, pem = ingEx.pemFileName tls := by
  -- what each turn of the two loops keeps
  refine List.foldlRecOn (motive := fun t : Table String String => t.lookup host = some pem → _) _ _
    (by simp) (fun t ht tls htls => ?_) h
  refine List.foldlRecOn (motive := fun t : Table String String => t.lookup host = some pem → _) _ _ ht
    fun t ht host' _ hlookup => ?_
  rcases Table.lookup_insert_iff.mp hlookup with ⟨_, rfl⟩ | ⟨_, hlookup⟩
  · exact ⟨tls, htls, rfl⟩
  · exact ht hlookup

end KubeYamls.Nginx
