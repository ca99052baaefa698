import KubeYamls.Nginx.Traffic

/-! # Upstreams follow the endpoints

The servers of an upstream are computed from a Service and its Endpoints. An
ingress is generated again through either of them: a task for the Endpoints
object, which works only as long as that object and the Service are there, or a
task for the ingress itself, which only those changes of a Service queue that
count as changes. Upstreams follow as long as the events that queue neither do
not change the endpoints of a backend. -/
namespace KubeYamls.Nginx
open Data Conc Configurator Lister State List

section resolve
variable {l l' : Listers}

theorem getServiceEndpoints_eq (svc : Service) :
    l.getServiceEndpoints svc = l.endpoints.get svc.objectMeta.key := by
  have hiff : ∀ ep : Endpoints, (svc.objectMeta.name = ep.objectMeta.name ∧ svc.objectMeta.ns = ep.objectMeta.ns) ↔
      ep.objectMeta.key = svc.objectMeta.key := by
    intro ep
    rw [show svc.objectMeta.key = svc.objectMeta.ns ++ "/" ++ svc.objectMeta.name from rfl,
      ObjectMeta.key_eq_iff, and_comm, eq_comm, @eq_comm _ svc.objectMeta.name]
  simp only [Listers.getServiceEndpoints, hiff, find?_key]

theorem resolve_congr {isPlus ns b} (hpods : l'.pods = l.pods)
    (hsvc : l'.services.get (ns ++ "/" ++ b.serviceName) = l.services.get (ns ++ "/" ++ b.serviceName))
    (hendps : (l.services.get (ns ++ "/" ++ b.serviceName)).isSome = true →
      l'.endpoints.get (ns ++ "/" ++ b.serviceName) = l.endpoints.get (ns ++ "/" ++ b.serviceName)) :
    l'.resolve isPlus ns b = l.resolve isPlus ns b := by
  unfold Listers.resolve Listers.getServiceForIngressBackend
  rw [hsvc]
  cases hget : l.services.get (ns ++ "/" ++ b.serviceName) with
  | none => rfl
  | some svc =>
    have hkey := l.services.keyed _ _ hget
    have hsame : l'.getServiceEndpoints svc = l.getServiceEndpoints svc := by
      rw [getServiceEndpoints_eq, getServiceEndpoints_eq, hkey, hendps (by simp [hget])]
    simp only [Option.bind_some, Listers.getEndpointsForIngressBackend, hsame, Listers.getEndpointsForPort,
      Listers.getTargetPort, hpods]

end resolve

section servers

def IngressNginxConfig.serverLists (cfg : IngressNginxConfig) : List (String × List UpstreamServer) :=
  cfg.upstreams.map fun u => (u.name, u.upstreamServers)

theorem upstreamMapToSlice_alike {α : Type} {f : Upstream → α} {t t'}
    (h : Table.Alike f t t') : (upstreamMapToSlice t).map f = (upstreamMapToSlice t').map f := by
  simp only [upstreamMapToSlice, map_filterMap, h.1, h.2]

theorem serverLists_congr {g g' : Generator} (hing : g'.ingress = g.ingress) (hplus : g'.isPlus = g.isPlus)
    (hservers : ∀ b, g'.upstreamServers b = g.upstreamServers b) :
    g'.config.serverLists = g.config.serverLists := by
  have hname : g'.upstreamName = g.upstreamName := by
    funext b
    rw [Generator.upstreamName, hing, Generator.upstreamName]
  have halike : Table.Alike (fun u : Upstream => (u.name, u.upstreamServers)) g'.generated.1 g.generated.1 := by
    rw [Generator.generated_upstreams, Generator.generated_upstreams, hing, Generator.ensureAll, hname]
    refine Table.Alike.foldl_insertNew g.upstreamName g'.upstreamFor (fun b _ => ?_) ⟨rfl, fun _ => rfl⟩
    rw [Generator.upstreamFor_name, Generator.upstreamFor_name, hname, Generator.upstreamFor_servers,
      Generator.upstreamFor_servers, hservers, hplus]
  exact upstreamMapToSlice_alike halike

theorem serverLists_ingress (isPlus : Bool) (config : Config) (ingEx : IngressEx)
    (healthChecks : Table String HTTPProbe) :
    ((Resource.ingress { ingEx with healthChecks := healthChecks }).nginxCfg isPlus config).serverLists =
      ((Resource.ingress ingEx).nginxCfg isPlus config).serverLists := by
  have hpems : { ingEx with healthChecks := healthChecks }.pems = ingEx.pems := rfl
  rw [Resource.nginxCfg, hpems]
  exact serverLists_congr rfl rfl fun _ => rfl

variable {lbc : LBC} {l l' : Listers} {ing : Ingress}

def SameBackends (lbc : LBC) (l l' : Listers) (ing : Ingress) : Prop :=
  ∀ b ∈ ing.backends, l'.resolve lbc.isNginxPlus ing.objectMeta.ns b.2 =
    l.resolve lbc.isNginxPlus ing.objectMeta.ns b.2

instance : Decidable (SameBackends lbc l l' ing) := inferInstanceAs (Decidable (∀ b ∈ _, _))

theorem service_of_external {isPlus ns b} (h : (l.resolve isPlus ns b).2 = true) :
    ∃ svc, l.getServiceForIngressBackend b ns = some svc ∧ svc.objectMeta.name = b.serviceName := by
  unfold Listers.resolve at h
  cases hget : l.getServiceForIngressBackend b ns with
  | none => simp [hget] at h
  | some svc => exact ⟨svc, rfl, (svc.objectMeta.key_eq_iff.mp (l.services.keyed _ _ hget)).2⟩

theorem externalNameSvcsOf_congr (h : SameBackends lbc l l' ing) :
    externalNameSvcsOf lbc l' ing = externalNameSvcsOf lbc l ing := by
  refine filterMap_congr fun b hb => ?_
  rw [h b hb]
  split
  · rename_i hext
    have hext := (Bool.and_eq_true_iff.mp hext).1
    obtain ⟨svc, hsvc, hname⟩ := service_of_external hext
    obtain ⟨svc', hsvc', hname'⟩ := service_of_external (h b hb ▸ hext)
    rw [hsvc, hsvc', Option.map_some, Option.map_some, hname, hname']
  · rfl

theorem endpointsOf_congr (h : SameBackends lbc l l' ing) : endpointsOf lbc l' ing = endpointsOf lbc l ing :=
  foldl_ext _ _ _ fun t b hb => by rw [h b hb]

/-- The configuration of an ingress as `createIngress` and `generateNginxCfg` make it. -/
def configOf (lbc : LBC) (l : Listers) (config : Config) (ing : Ingress) : IngressNginxConfig :=
  (Resource.ingress (ingressEx lbc l ing)).nginxCfg lbc.isNginxPlus config

theorem serverLists_configOf (hsecrets : l'.secrets = l.secrets) (hapi : l'.apiSecrets = l.apiSecrets)
    (h : SameBackends lbc l l' ing) (config : Config) :
    (configOf lbc l' config ing).serverLists = (configOf lbc l config ing).serverLists := by
  have hex : ingressEx lbc l' ing = { ingressEx lbc l ing with healthChecks := healthChecksOf lbc l' ing } := by
    simp only [ingressEx, endpointsOf_congr h, externalNameSvcsOf_congr h, tlsSecretsOf, jwtKeyOf, hsecrets, hapi]
  rw [configOf, hex, serverLists_ingress, configOf]

end servers

section runs
variable (lbc : LBC) (s : State)

def Ingress.refersTo (ing : Ingress) (key : String) : Bool :=
  ing.backends.any fun b => ing.objectMeta.ns ++ "/" ++ b.2.serviceName = key

def Current (ing : Ingress) : Prop :=
  ∃ g ingEx, s.cnf.generated.lookup ing.objectMeta.fileName = some g ∧
    createIngress lbc s.listers ing = .ok ingEx ∧ (g.nginxCfg lbc.isNginxPlus).serverLists =
      (generateNginxCfg lbc.isNginxPlus s.cnf.config ingEx ingEx.pems false).serverLists

def UpstreamsCurrent : Prop :=
  ∀ ing ∈ s.listers.ingresses.items, s.cnf.hasIngress ing = true → Current lbc s ing

def IsRegular (ing : Ingress) : Prop :=
  lbc.isNginxIngress ing = true ∧ ing.isMinion = false ∧ ing.isMaster = false ∧ validateRules ing.rules = .ok ()

def OwnFiles : Prop :=
  ∀ ing ∈ s.listers.ingresses.items, ∀ ing' ∈ s.listers.ingresses.items,
    ing.objectMeta.fileName = ing'.objectMeta.fileName → ing = ing'

/-- Every configuration can be written. -/
def TemplateWorks : Prop := ∀ cfg, (s.cnf.ingressTemplate cfg).isOk = true

/-- A task is queued that leads to the generation of an ingress. -/
def Due (ing : Ingress) : Prop :=
  ⟨.ingress, ing.objectMeta.key⟩ ∈ s.queue ∨
    ∃ e ∈ s.listers.endpoints.items, ⟨.endpoints, e.objectMeta.key⟩ ∈ s.queue ∧
      (s.listers.services.get e.objectMeta.key).isSome = true ∧ ing.refersTo e.objectMeta.key = true

instance (ing : Ingress) : Decidable (Due s ing) := inferInstanceAs (Decidable (_ ∨ ∃ e ∈ _, _))

def Service.isNumeric (svc : Service) : Bool :=
  svc.ports.all fun port => match port.targetPort with
    | .int _ => true
    | .str _ => false

/-- An event about a Service or an Endpoints object, or a move of the worker. -/
def EndpointsEvent : Label → Prop
  | .service c _ => c.known = true ∧ ∀ svc ∈ c.entering.toList, svc.isNumeric = true
  | .endpoints c => c.known = true
  | .sync _ | .wake _ => True
  | _ => False

instance : DecidablePred EndpointsEvent
  | .service _ _ => inferInstanceAs (Decidable (_ ∧ ∀ svc ∈ _, _))
  | .endpoints _ => inferInstanceAs (Decidable (_ = true))
  | .sync _ | .wake _ => .isTrue trivial
  | .ingress _ _ | .secret _ | .configMap _ _ => .isFalse id

/-- The events that queue nothing for the ingresses: a deletion of Endpoints, whose task finds no
object, an update of a Service that does not count as a change, and all about the Service for the
status. -/
def unnoticed : Label → Bool
  | .endpoints (.delete _ _) => true
  | .service (.add svc) _ => lbc.isExternalServiceForStatus svc
  | .service (.update cur _) _ => lbc.isExternalServiceForStatus cur ||
      (s.listers.services.get cur.objectMeta.key).all fun old => !hasServiceChanges old cur
  | .service (.delete m _) _ => (s.listers.services.get m.key).any lbc.isExternalServiceForStatus
  | _ => false

/-- The servers last generated are those of now, as far as the listers go. -/
def Fits (ing : Ingress) : Prop :=
  ∃ g ∈ s.cnf.generated.lookup ing.objectMeta.fileName,
    (g.nginxCfg lbc.isNginxPlus).serverLists = (configOf lbc s.listers s.cnf.config ing).serverLists

instance (ing : Ingress) : Decidable (Fits lbc s ing) := inferInstanceAs (Decidable (∃ g ∈ _, _))

/-- After such an event a configured ingress is due, or has the endpoints that were last generated. -/
def KeepsBackends (l : Label) : Prop :=
  unnoticed lbc s l = true → ∀ s' ∈ step lbc l s, ∀ ing ∈ s.listers.ingresses.items,
    s.cnf.hasIngress ing = true → Fits lbc s' ing ∨ Due s' ing

instance : DecidablePred (KeepsBackends lbc s) := fun _ =>
  inferInstanceAs (Decidable (_ → ∀ s' ∈ _, ∀ ing ∈ _, _ → _ ∨ _))

structure Followed : Prop where
  kinds : s.OnlyKinds [.ingress, .endpoints, .service]
  regular : ∀ ing ∈ s.listers.ingresses.items, IsRegular lbc ing
  files : OwnFiles s
  template : TemplateWorks s
  ingresses : ∀ ing ∈ s.listers.ingresses.items, s.cnf.hasIngress ing = true → Fits lbc s ing ∨ Due s ing

end runs

variable {svc : Service} {ing : Ingress}

section service
variable {lbc : LBC} {o : Order} {s s' : State}

theorem hasServiceChanges_self (svc : Service) : hasServiceChanges svc svc = false := by
  simp [hasServiceChanges, hasServicePortChanges, hasServiceExternalNameChanges]

theorem exists_sortPorts (s : State) (old cur : Service) :
    ∃ l, (s.withServices (s.listers.services.put cur)).sortPorts old cur = s.withServices l ∧
      ∀ key, key ≠ cur.objectMeta.key → l.get key = s.listers.services.get key := by
  unfold sortPorts
  split
  · refine ⟨(s.listers.services.put cur).put cur.sorted, rfl, fun key hne => ?_⟩
    exact (get_put_ne (a := cur.sorted) hne).trans (get_put_ne hne)
  · exact ⟨s.listers.services.put cur, rfl, fun _ => get_put_ne⟩

/-- All that an event about a Service can do: it changes one entry of the lister, and unless it goes
unnoticed the ingresses with that Service are queued. -/
theorem step_service_cases {c} (h : step lbc (.service c o) s = some s') :
    ∃ (m : ObjectMeta) (l : Lister Service Service.objectMeta),
      (∀ key, key ≠ m.key → l.get key = s.listers.services.get key) ∧ ((unnoticed lbc s (.service c o) = true ∧
          (s' = s.withServices l ∨ s' = (s.withServices l).enqueue ⟨.service, m.key⟩)) ∨
        ∃ svc, svc.objectMeta = m ∧ enqueueIngressForService lbc o (s.withServices l) svc = some s') := by
  obtain ⟨r, hr, h⟩ := Option.bind_eq_some_iff.mp h
  cases c with
  | add svc =>
    obtain ⟨_, rfl⟩ := apply_add hr
    refine ⟨svc.objectMeta, s.listers.services.put svc, fun key hne => get_put_ne hne, ?_⟩
    simp only [serviceHandler] at h
    split at h
    · rename_i hext
      exact .inl ⟨hext, .inr (Option.some.inj h).symm⟩
    · exact .inr ⟨svc, rfl, h⟩
  | update cur others =>
    obtain ⟨old, hold, rfl⟩ := apply_update hr
    obtain ⟨l, hsort, hl⟩ := exists_sortPorts s old cur
    simp only [serviceHandler, hsort] at h
    split at h
    · rename_i hsame
      obtain rfl : old = cur := by simpa using (Bool.and_eq_true_iff.mp hsame).2
      exact ⟨old.objectMeta, _, fun _ => get_put_ne, .inl ⟨by simp [unnoticed, hold, hasServiceChanges_self],
        .inl (Option.some.inj h).symm⟩⟩
    · split at h
      · rename_i hext
        exact ⟨cur.objectMeta, _, fun _ => get_put_ne, .inl ⟨by simp [unnoticed, hext], .inr (Option.some.inj h).symm⟩⟩
      · refine ⟨cur.objectMeta, l, hl, ?_⟩
        split at h
        · exact .inr ⟨cur, rfl, h⟩
        · rename_i hno
          exact .inl ⟨by simp [unnoticed, hold, hno], .inl (Option.some.inj h).symm⟩
  | delete m unknown =>
    obtain ⟨old, hold, rfl⟩ := apply_delete hr
    have hkey := ObjectMeta.key_inj.mp (s.listers.services.keyed _ _ hold)
    refine ⟨m, s.listers.services.remove m, fun key hne => get_remove_ne hne, ?_⟩
    simp only [serviceHandler] at h
    split at h
    · rename_i hext
      refine .inl ⟨by simp [unnoticed, hold, hext], .inr ?_⟩
      exact hkey ▸ (Option.some.inj h).symm
    · exact .inr ⟨old, hkey, h⟩

theorem mem_getIngressesForService : ing ∈ getIngressesForService o s svc ↔
      ing ∈ s.listers.ingresses.items ∧ ing.refersTo svc.objectMeta.key = true := by
  have hkey : ∀ b : String × Backend, ing.objectMeta.ns ++ "/" ++ b.2.serviceName = svc.objectMeta.key ↔
      ing.objectMeta.ns = svc.objectMeta.ns ∧ b.2.serviceName = svc.objectMeta.name := fun b => by
    rw [eq_comm, ObjectMeta.key_eq_iff, eq_comm, @eq_comm _ svc.objectMeta.name]
  simp only [getIngressesForService, mem_flatMap, (o.perm _ _).mem_iff, Ingress.refersTo, any_eq_true,
    decide_eq_true_eq, hkey]
  constructor
  · intro ⟨ing', hmem, hin⟩
    split at hin
    · rename_i hns
      obtain ⟨b, hb, rfl⟩ := mem_map.mp hin
      obtain ⟨hb, hname⟩ := mem_filter.mp hb
      exact ⟨hmem, b, hb, hns, of_decide_eq_true hname⟩
    · cases hin
  · intro ⟨hmem, b, hb, hns, hname⟩
    refine ⟨ing, hmem, ?_⟩
    rw [if_pos hns]
    exact mem_map.mpr ⟨b, mem_filter.mpr ⟨hb, decide_eq_true hname⟩, rfl⟩

theorem enqueueIngressForService_eq (hreg : ∀ ing ∈ s.listers.ingresses.items, IsRegular lbc ing)
    (h : enqueueIngressForService lbc o s svc = some s') :
    ∃ ts, s' = s.enqueueAll ts ∧ (∀ t ∈ ts, t.kind = .ingress) ∧
      ∀ ing ∈ s.listers.ingresses.items, s.cnf.hasIngress ing = true →
        ing.refersTo svc.objectMeta.key = true → ⟨.ingress, ing.objectMeta.key⟩ ∈ ts := by
  obtain ⟨ts, hts, rfl⟩ := Option.map_eq_some_iff.mp h
  refine ⟨ts, rfl, fun t ht => ?_, fun ing hing hconf href => ?_⟩
  · obtain ⟨ing, hing, ht⟩ := (mem_gather hts).mp ht
    obtain ⟨hn, hm, _⟩ := hreg ing (mem_getIngressesForService.mp hing).1
    simp only [hn, hm, Bool.not_true, Bool.false_eq_true, if_false, Option.some.injEq] at ht
    split at ht
    · simp [← Option.some.inj ht, Ingress.task, hm]
    · cases ht
  · obtain ⟨hn, hm, _⟩ := hreg ing hing
    refine (mem_gather hts).mpr ⟨ing, mem_getIngressesForService.mpr ⟨hing, href⟩, ?_⟩
    simp [hn, hm, hconf, Ingress.task]

end service

namespace Followed
variable {lbc : LBC} {o : Order} {s s' : State}

theorem current (h : Followed lbc s) (hq : s.queue = []) : UpstreamsCurrent lbc s := by
  intro ing hing hconf
  rcases h.ingresses ing hing hconf with ⟨g, hgen, hfits⟩ | hdue
  · exact ⟨g, _, hgen, createIngress_eq_ok.mpr ⟨(h.regular ing hing).2.2.2, rfl⟩, hfits⟩
  · simp [Due, hq] at hdue

theorem of_current (hreg : ∀ ing ∈ s.listers.ingresses.items, IsRegular lbc ing) (hfiles : OwnFiles s)
    (htemplate : TemplateWorks s) (hcur : UpstreamsCurrent lbc s) (hq : s.queue = []) (hd : s.delayed = []) :
    Followed lbc s where
  kinds := .of_nil hq hd
  regular := hreg
  files := hfiles
  template := htemplate
  ingresses ing hing hconf := by
    obtain ⟨g, ingEx, hgen, hex, hservers⟩ := hcur ing hing hconf
    obtain ⟨_, rfl⟩ := createIngress_eq_ok.mp hex
    exact .inl ⟨g, hgen, hservers⟩

theorem next (h : Followed lbc s) (hcnf : s'.cnf = s.cnf) (hkinds : s'.OnlyKinds [.ingress, .endpoints, .service])
    (hing : s'.listers.ingresses = s.listers.ingresses)
    (hcase : ∀ ing ∈ s.listers.ingresses.items, s.cnf.hasIngress ing = true → Fits lbc s' ing ∨ Due s' ing) :
    Followed lbc s' where
  kinds := hkinds
  regular := hing ▸ h.regular
  files := by
    unfold OwnFiles
    rw [hing]
    exact h.files
  template := by
    unfold TemplateWorks
    rw [hcnf]
    exact h.template
  ingresses ing hmem hconf := hcase ing (hing ▸ hmem) (hcnf ▸ hconf)

theorem listers (h : Followed lbc s) (hcnf : s'.cnf = s.cnf)
    (hkinds : s'.OnlyKinds [.ingress, .endpoints, .service])
    (hing : s'.listers.ingresses = s.listers.ingresses) (hsecrets : s'.listers.secrets = s.listers.secrets)
    (hapi : s'.listers.apiSecrets = s.listers.apiSecrets)
    (hcase : ∀ ing ∈ s.listers.ingresses.items, s.cnf.hasIngress ing = true → Due s' ing ∨
      SameBackends lbc s.listers s'.listers ing ∧ (Due s ing → Due s' ing)) : Followed lbc s' := by
  refine h.next hcnf hkinds hing fun ing hmem hconf => ?_
  rcases hcase ing hmem hconf with hdue | ⟨hsame, hkeep⟩
  · exact .inr hdue
  · refine (h.ingresses ing hmem hconf).imp (fun ⟨g, hgen, hfits⟩ => ⟨g, hcnf ▸ hgen, ?_⟩) hkeep
    rw [hfits, hcnf, serverLists_configOf hsecrets hapi hsame]

theorem endpoints_same (h : Followed lbc s) {e} (he : e ∈ s.listers.endpoints.items) :
    Followed lbc (s.withEndpoints (s.listers.endpoints.put e)) := by
  refine h.listers rfl h.kinds rfl rfl rfl fun ing _ _ => .inr ⟨fun b _ => ?_, fun hdue => ?_⟩
  · exact resolve_congr rfl rfl fun _ => get_put_of_mem he _
  · exact hdue.imp_right fun ⟨e', he', hrest⟩ => ⟨e', (mem_put_of_mem he).mpr he', hrest⟩

theorem endpoints_put (h : Followed lbc s) (e : Endpoints) :
    Followed lbc ((s.withEndpoints (s.listers.endpoints.put e)).enqueue ⟨.endpoints, e.objectMeta.key⟩) := by
  refine h.listers (by simp [withEndpoints])
    (OnlyTasks.enqueue (s := s.withEndpoints _) h.kinds (by simp)) (by simp [withEndpoints])
    (by simp [withEndpoints]) (by simp [withEndpoints]) fun ing _ _ => ?_
  simp only [Due, enqueue_listers, mem_enqueue]
  by_cases hdue : (s.listers.services.get e.objectMeta.key).isSome = true ∧ ing.refersTo e.objectMeta.key = true
  · exact .inl (.inr ⟨e, mem_put.mpr (.inl rfl), .inr rfl, hdue⟩)
  · refine .inr ⟨fun b hb => resolve_congr rfl rfl fun hsvc => ?_, ?_⟩
    · have hne : ing.objectMeta.ns ++ "/" ++ b.2.serviceName ≠ e.objectMeta.key := fun hkey =>
        hdue ⟨hkey ▸ hsvc, any_eq_true.mpr ⟨b, hb, decide_eq_true hkey⟩⟩
      exact get_put_ne hne
    · intro hold
      rcases hold with hin | ⟨e', he', hin, hsvc, href⟩
      · exact .inl (.inl hin)
      · have hne : e'.objectMeta.key ≠ e.objectMeta.key := fun hkey => hdue ⟨hkey ▸ hsvc, hkey ▸ href⟩
        exact .inr ⟨e', mem_put.mpr (.inr ⟨hne, he'⟩), .inl hin, hsvc, href⟩

theorem service_noticed (h : Followed lbc s) {l}
    (hl : ∀ key, key ≠ svc.objectMeta.key → l.get key = s.listers.services.get key)
    (hs : enqueueIngressForService lbc o (s.withServices l) svc = some s') : Followed lbc s' := by
  have hreg : ∀ ing ∈ (s.withServices l).listers.ingresses.items, IsRegular lbc ing := h.regular
  obtain ⟨ts, rfl, hkinds, hqueued⟩ := enqueueIngressForService_eq hreg hs
  refine h.listers (by simp [withServices])
    (OnlyTasks.enqueueAll (s := s.withServices _) h.kinds fun t ht => by simp [hkinds t ht])
    (by simp [withServices]) (by simp [withServices]) (by simp [withServices])
    fun ing hing hconf => ?_
  simp only [Due, enqueueAll_listers, mem_enqueueAll]
  cases href : ing.refersTo svc.objectMeta.key with
  | true => exact .inl (.inl (.inr (hqueued ing hing hconf href)))
  | false =>
    have hne : ∀ key, ing.refersTo key = true → key ≠ svc.objectMeta.key := fun key hkey he => by
      rw [he, href] at hkey
      cases hkey
    refine .inr ⟨fun b hb => resolve_congr rfl (hl _ (hne _ ?_)) fun _ => rfl, ?_⟩
    · exact any_eq_true.mpr ⟨b, hb, decide_eq_true rfl⟩
    · intro hold
      rcases hold with hin | ⟨e, he, hin, hsvc, href⟩
      · exact .inl (.inl hin)
      · exact .inr ⟨e, he, .inl hin, (hl _ (hne _ href)).symm ▸ hsvc, href⟩

variable {ts : List Task}

theorem due_tail {t} (h : Due s ing) (hq : s.queue = t :: ts) :
    Due { s with queue := ts } ing ∨ t = ⟨.ingress, ing.objectMeta.key⟩ ∨
      ∃ e ∈ s.listers.endpoints.items, t = ⟨.endpoints, e.objectMeta.key⟩ ∧
        (s.listers.services.get e.objectMeta.key).isSome = true ∧ ing.refersTo e.objectMeta.key = true := by
  rcases h with hin | ⟨e, he, hin, hsvc, href⟩
  · rcases mem_cons.mp (hq ▸ hin) with rfl | hin
    · exact .inr (.inl rfl)
    · exact .inl (.inl hin)
  · rcases mem_cons.mp (hq ▸ hin) with rfl | hin
    · exact .inr (.inr ⟨e, he, rfl, hsvc, href⟩)
    · exact .inl (.inr ⟨e, he, hin, hsvc, href⟩)

theorem tail (h : Followed lbc s) {t} (hq : s.queue = t :: ts) {cnf}
    (hconfig : cnf.config = s.cnf.config) (htemplate : cnf.ingressTemplate = s.cnf.ingressTemplate)
    (hcase : ∀ ing ∈ s.listers.ingresses.items, cnf.hasIngress ing = true → Fits lbc { s with cnf := cnf } ing ∨
      (s.cnf.hasIngress ing = true ∧ cnf.generated.lookup ing.objectMeta.fileName =
          s.cnf.generated.lookup ing.objectMeta.fileName ∧ (Due s ing → Due { s with queue := ts } ing))) :
    Followed lbc { s with queue := ts, cnf := cnf } where
  kinds := h.kinds.tail hq
  regular := h.regular
  files := h.files
  template := by
    unfold TemplateWorks
    rw [htemplate]
    exact h.template
  ingresses ing hing hconf := by
    rcases hcase ing hing hconf with hfits | ⟨hconf, hgen, hdue⟩
    · exact .inl hfits
    · rcases h.ingresses ing hing hconf with ⟨g, hg, hfits⟩ | hdue'
      · exact .inl ⟨g, hgen.trans hg, by rw [hconfig]; exact hfits⟩
      · exact .inr (hdue hdue')

theorem fits_of_generated {cnf} (h : cnf.generated.lookup ing.objectMeta.fileName =
      some ⟨.ingress (ingressEx lbc s.listers ing), cnf.config⟩) : Fits lbc { s with cnf := cnf } ing :=
  ⟨_, h, rfl⟩

theorem syncIng (h : Followed lbc s) {key} (hq : s.queue = ⟨.ingress, key⟩ :: ts)
    (hs : Nginx.syncIng lbc o { s with queue := ts } key = some s') : Followed lbc s' := by
  have htail : ∀ ing : Ingress, ing.objectMeta.key ≠ key → Due s ing → Due { s with queue := ts } ing := by
    intro ing hne hdue
    rcases due_tail hdue hq with hdue | he | ⟨_, _, he, _⟩
    · exact hdue
    · exact absurd (congrArg Task.key he).symm hne
    · cases he
  obtain ⟨hnone, v, rfl⟩ | ⟨ing, hget, ⟨r, v, hr, rfl⟩ | ⟨err, hr, rfl⟩⟩ := syncIng_cases hs
  · refine h.tail hq rfl rfl fun ing hing hconf => .inr ?_
    obtain ⟨hfile, hconf⟩ := hasIngress_of_forget hconf
    refine ⟨hconf, AList.lookup_erase_ne hfile, htail ing fun hkey => ?_⟩
    rw [← hkey] at hnone
    exact absurd (mem_items.mp hing) (by simp [hnone])
  · have hkey : ing.objectMeta.key = key := s.listers.ingresses.keyed key ing hget
    have hmem : ing ∈ s.listers.ingresses.items := mem_items.mpr (hkey ▸ hget)
    have hname : r.name = ing.objectMeta.fileName := by rw [Resource.name, resourceOf_objectMeta hr]
    obtain ⟨_, _, hmaster, hvalid⟩ := h.regular ing hmem
    obtain rfl : r = .ingress (ingressEx lbc s.listers ing) := by
      simpa [resourceOf, hmaster, createIngress, hvalid, Except.map, eq_comm] using hr
    refine h.tail hq regenerate_config regenerate_ingressTemplate
      fun ing' hing' hconf => ?_
    by_cases he : ing' = ing
    · subst he
      refine .inl (fits_of_generated ?_)
      simp only [regenerate_generated, regenerate_config]
      rw [← hname, AList.lookup_insert]
    · have hfile : ing'.objectMeta.fileName ≠ Resource.name (.ingress (ingressEx lbc s.listers ing)) := by
        rw [hname]
        exact mt (h.files ing' hing' ing hmem) he
      refine .inr ⟨(regenerate_hasIngress hfile).symm.trans hconf, ?_, htail ing' fun hkey' => ?_⟩
      · simp only [regenerate_generated]
        rw [AList.lookup_insert_ne hfile]
      · exact he (eq_of_key hing' hmem (hkey'.trans hkey.symm))
  · have hmem : ing ∈ s.listers.ingresses.items :=
      mem_items.mpr (s.listers.ingresses.keyed key ing hget ▸ hget)
    obtain ⟨_, _, hmaster, hvalid⟩ := h.regular ing hmem
    simp [resourceOf, hmaster, createIngress, hvalid, Except.map] at hr

theorem mem_endpointsResources (hreg : ∀ ing ∈ s.listers.ingresses.items, IsRegular lbc ing) {rs}
    (hrs : gather (endpointsResource lbc o s) (getIngressesForService o s svc) = some rs) {r} :
    r ∈ rs ↔ ∃ ing ∈ s.listers.ingresses.items, ing.refersTo svc.objectMeta.key = true ∧
      s.cnf.hasIngress ing = true ∧ r = .ingress (ingressEx lbc s.listers ing) := by
  simp only [mem_gather hrs, mem_getIngressesForService, and_assoc]
  refine exists_congr fun ing => and_congr_right fun hing => and_congr_right fun _ => ?_
  obtain ⟨hn, hm, _, hvalid⟩ := hreg ing hing
  cases hconf : s.cnf.hasIngress ing <;>
    simp [endpointsResource, hn, hm, hconf, createIngress, hvalid, Except.map, Except.toOption, eq_comm]

theorem regenerateAll_cases (h : Followed lbc s) {rs ing}
    (hrs : ∀ r ∈ rs, ∃ ing ∈ s.listers.ingresses.items, r = .ingress (ingressEx lbc s.listers ing))
    (hing : ing ∈ s.listers.ingresses.items) :
    (regenerateAll lbc.host errorAt s.cnf rs).1.generated.lookup ing.objectMeta.fileName =
        some ⟨.ingress (ingressEx lbc s.listers ing), s.cnf.config⟩ ∨
      (.ingress (ingressEx lbc s.listers ing) ∉ rs ∧
        (regenerateAll lbc.host errorAt s.cnf rs).1.hasIngress ing = s.cnf.hasIngress ing ∧
        (regenerateAll lbc.host errorAt s.cnf rs).1.generated.lookup ing.objectMeta.fileName =
          s.cnf.generated.lookup ing.objectMeta.fileName) := by
  by_cases hin : ∃ r ∈ rs, r.name = ing.objectMeta.fileName
  · obtain ⟨r, hr, hname⟩ := hin
    obtain ⟨r', hr', hname', hw⟩ := regenerateAll_written
      (regenerateAll_ok h.template) hr
    obtain ⟨ing', hing', rfl⟩ := hrs r' hr'
    -- the file name belongs to this ingress
    obtain rfl : ing' = ing := h.files ing' hing' ing hing (hname'.trans hname)
    exact .inl hw.generated
  · have hne : ∀ r ∈ rs, r.name ≠ ing.objectMeta.fileName := fun r hr he => hin ⟨r, hr, he⟩
    exact .inr ⟨fun hmem => hne _ hmem rfl, regenerateAll_hasIngress hne, regenerateAll_lookup_generated hne⟩

theorem syncEndpoint (h : Followed lbc s) {key} (hq : s.queue = ⟨.endpoints, key⟩ :: ts)
    (hs : Nginx.syncEndpoint lbc o { s with queue := ts } key = some s') : Followed lbc s' := by
  obtain ⟨svc, rs, hendps, hsvc, hrs, rfl⟩ | ⟨hnone, rfl⟩ := syncEndpoint_cases hs
  · have hreg : ∀ ing ∈ { s with queue := ts }.listers.ingresses.items, IsRegular lbc ing := h.regular
    have hmem := fun r => mem_endpointsResources hreg hrs (r := r)
    -- no resource is a merged one
    have hregular : rs.filter (!·.merged) = rs := filter_eq_self.mpr fun r hr => by
      obtain ⟨ing, _, _, _, rfl⟩ := (hmem r).mp hr
      rfl
    have hmerged : rs.filter (·.merged) = [] := filter_eq_nil_iff.mpr fun r hr => by
      obtain ⟨ing, _, _, _, rfl⟩ := (hmem r).mp hr
      simp [Resource.merged]
    rw [hregular, hmerged, updateEndpoints, if_pos rfl]
    obtain ⟨v, hv⟩ := updateEndpoints_eq lbc { s with queue := ts } rs
    rw [hv]
    refine h.tail hq regenerateAll_config regenerateAll_ingressTemplate
      fun ing hing hconf => ?_
    have hall : ∀ r ∈ rs, ∃ ing ∈ s.listers.ingresses.items, r = .ingress (ingressEx lbc s.listers ing) :=
      fun r hr => by
        obtain ⟨ing, hing, _, _, he⟩ := (hmem r).mp hr
        exact ⟨ing, hing, he⟩
    rcases h.regenerateAll_cases hall hing with hgen | ⟨hnot, hsame, hgen⟩
    · exact .inl (fits_of_generated (hgen.trans (by rw [← regenerateAll_config])))
    · have hconf' : s.cnf.hasIngress ing = true := hsame.symm.trans hconf
      refine .inr ⟨hconf', hgen, fun hdue => ?_⟩
      rcases due_tail hdue hq with hdue | he | ⟨e, _, he, _, href⟩
      · exact hdue
      · cases he
      · obtain rfl : key = e.objectMeta.key := congrArg Task.key he
        have hkey := s.listers.services.keyed _ _ hsvc
        exact absurd ((hmem _).mpr ⟨ing, hing, hkey ▸ href, hconf', rfl⟩) hnot
  · refine h.tail hq rfl rfl fun ing hing hconf => .inr ⟨hconf, rfl, fun hdue => ?_⟩
    rcases due_tail hdue hq with hdue | he | ⟨e, hmem, he, hsvc, _⟩
    · exact hdue
    · cases he
    · obtain rfl : key = e.objectMeta.key := congrArg Task.key he
      rcases hnone with hnone | hnone
      · exact absurd ((mem_items.mp hmem).symm.trans hnone) (by simp)
      · exact absurd hsvc (by simp [show s.listers.services.get _ = none from hnone])

theorem step (h : Followed lbc s) {l} (hl : EndpointsEvent l) (hkeep : KeepsBackends lbc s l)
    (hs : Nginx.step lbc l s = some s') : Followed lbc s' := by
  cases l with
  | endpoints c =>
    obtain ⟨e, _, ⟨hmem, rfl⟩ | rfl⟩ | ⟨m, unknown, rfl, rfl | rfl⟩ := step_endpoints_cases hs
    · exact h.endpoints_same hmem
    · exact h.endpoints_put e
    · exact h.next rfl h.kinds rfl (hkeep rfl _ hs)
    · exact h.next (by simp [withEndpoints]) (OnlyTasks.enqueue (s := s.withEndpoints _) h.kinds (by simp))
        (by simp [withEndpoints]) (hkeep rfl _ hs)
  | service c o =>
    obtain ⟨m, l, hl, ⟨hun, rfl | rfl⟩ | ⟨svc, rfl, hs'⟩⟩ := step_service_cases hs
    · exact h.next rfl h.kinds rfl (hkeep hun _ hs)
    · exact h.next (by simp [withServices]) (OnlyTasks.enqueue (s := s.withServices _) h.kinds (by simp))
        (by simp [withServices]) (hkeep hun _ hs)
    · exact h.service_noticed hl hs'
  | sync o =>
    obtain ⟨⟨kind, key⟩, ts, hq, hs⟩ := step_sync_cases hs
    have hkind := h.kinds.head hq
    simp only [mem_cons, not_mem_nil, or_false] at hkind
    rcases hkind with rfl | rfl | rfl
    · exact h.syncIng hq hs
    · exact h.syncEndpoint hq hs
    · -- the sync of the Service for the status changes nothing
      obtain ⟨_, _, rfl⟩ := Option.map_eq_some_iff.mp hs
      refine h.tail hq rfl rfl fun ing _ hconf => .inr ⟨hconf, rfl, fun hdue => ?_⟩
      rcases due_tail hdue hq with hdue | he | ⟨_, _, he, _⟩
      · exact hdue
      · cases he
      · cases he
  | wake t =>
    obtain ⟨hd, rfl⟩ := step_wake_cases hs
    refine h.listers (by simp) (h.kinds.wake hd) (by simp) (by simp) (by simp) fun ing _ _ =>
      .inr ⟨fun b _ => by simp, fun hdue => ?_⟩
    simp only [Due, mem_enqueue, enqueue_listers]
    rcases hdue with hdue | ⟨e, he, hin, hrest⟩
    · exact .inl (.inl hdue)
    · exact .inr ⟨e, he, .inl hin, hrest⟩
  | ingress | secret | configMap => exact hl.elim

end Followed

/-- Once the queue is empty, the servers of every configured ingress are those of its endpoints. -/
theorem upstreams_current (lbc : LBC) {s0 s : State}
    (hreg : ∀ ing ∈ s0.listers.ingresses.items, IsRegular lbc ing) (hfiles : OwnFiles s0)
    (htemplate : TemplateWorks s0) (hcur : UpstreamsCurrent lbc s0) (hq0 : s0.queue = []) (hd0 : s0.delayed = [])
    (h : Run (step lbc) (fun s l => EndpointsEvent l ∧ KeepsBackends lbc s l) s0 s) (hq : s.queue = []) :
    UpstreamsCurrent lbc s := by
  have hfollowed := h.keeps (Followed.of_current hreg hfiles htemplate hcur hq0 hd0) fun _ _ _ hf hC hs =>
    hf.step hC.1 hC.2 hs
  exact hfollowed.current hq

section samples

def coffeeService : Service := sampleService "coffee-svc" (by decide) 80

def coffeeListers : Listers :=
  { sampleListers [(coffeeService, "10.0.0.1")] with ingresses := .ofList [cafe []] }

def cafeConfigured : State where
  listers := coffeeListers
  cnf := (started.cnf.regenerate (plainLBC false).host (.ingress (ingressEx (plainLBC false) coffeeListers (cafe [])))).1

theorem mem_cafeConfigured (h : ing ∈ cafeConfigured.listers.ingresses.items) : ing = cafe [] :=
  mem_singleton.mp (mem_of_get_ofList (mem_items.mp h))

theorem cafeConfigured_current : UpstreamsCurrent (plainLBC false) cafeConfigured := by
  intro ing hing _
  obtain rfl := mem_cafeConfigured hing
  refine ⟨⟨.ingress (ingressEx (plainLBC false) coffeeListers (cafe [])), newDefaultConfig⟩, _, ?_,
    createIngress_eq_ok.mpr ⟨by decide +kernel, rfl⟩, ?_⟩
  · exact regenerate_generated.symm ▸ AList.lookup_insert _
  · rw [show cafeConfigured.cnf.config = newDefaultConfig from regenerate_config]
    rfl

def generatedAddresses (isPlus : Bool) (s : State) (m : ObjectMeta) : List String :=
  (s.cnf.generated.lookup m.fileName).toList.flatMap fun g =>
    (g.nginxCfg isPlus).upstreams.flatMap fun u => u.upstreamServers.map (·.address)

theorem upstreams_current_cafe : ∃ s, s.queue = [] ∧
    generatedAddresses false s (cafe []).objectMeta = ["10.0.0.3"] ∧ UpstreamsCurrent (plainLBC false) s := by
  obtain ⟨s, hs, hq, haddresses⟩ : ∃ s, Run (step (plainLBC false))
      (fun s l => EndpointsEvent l ∧ KeepsBackends (plainLBC false) s l) cafeConfigured s ∧
      s.queue = [] ∧ generatedAddresses false s (cafe []).objectMeta = ["10.0.0.3"] :=
    Run.of_labels [.endpoints (.update (sampleEndpoints coffeeService "10.0.0.2") false), .sync .same,
      .service (.delete coffeeService.objectMeta false) .same, .sync .same,
      .endpoints (.delete coffeeService.objectMeta false), .sync .same,
      .service (.add coffeeService) .same, .sync .same,
      .endpoints (.add (sampleEndpoints coffeeService "10.0.0.4")),
      .endpoints (.delete coffeeService.objectMeta false), .sync .same,
      .endpoints (.add (sampleEndpoints coffeeService "10.0.0.3")), .sync .same] (by decide +kernel)
  have hreg : ∀ ing ∈ cafeConfigured.listers.ingresses.items, IsRegular (plainLBC false) ing := fun ing hing => by
    obtain rfl := mem_cafeConfigured hing
    exact ⟨by decide +kernel, by decide +kernel, by decide +kernel, by decide +kernel⟩
  have hfiles : OwnFiles cafeConfigured := fun ing hing ing' hing' _ =>
    (mem_cafeConfigured hing).trans (mem_cafeConfigured hing').symm
  have htemplate : TemplateWorks cafeConfigured := fun cfg => by
    rw [show cafeConfigured.cnf.ingressTemplate = started.cnf.ingressTemplate from
      regenerate_ingressTemplate]
    rfl
  exact ⟨s, hq, haddresses,
    upstreams_current (plainLBC false) hreg hfiles htemplate cafeConfigured_current rfl rfl hs hq⟩

theorem not_upstreamsCurrent {lbc s} (hing : ing ∈ s.listers.ingresses.items)
    (hconf : s.cnf.hasIngress ing = true)
    (hne : (s.cnf.generated.lookup ing.objectMeta.fileName).map (fun g => (g.nginxCfg lbc.isNginxPlus).serverLists) ≠
      some (configOf lbc s.listers s.cnf.config ing).serverLists) : ¬UpstreamsCurrent lbc s := by
  intro hcur
  obtain ⟨g, ingEx, hgen, hex, hservers⟩ := hcur ing hing hconf
  obtain ⟨_, rfl⟩ := createIngress_eq_ok.mp hex
  rw [hgen, Option.map_some, hservers] at hne
  exact hne rfl

/-- The Endpoints object is deleted, or the port of the pods changes and nothing else of the Service:
the servers stay, although the ingress has no endpoints any more. -/
theorem lost_endpoints_stay : (∃ s, follow (step (plainLBC false)) (fun _ l => EndpointsEvent l) cafeConfigured
        [.endpoints (.delete coffeeService.objectMeta false), .sync .same] = some s ∧ s.queue = [] ∧
      generatedAddresses false s (cafe []).objectMeta = ["10.0.0.1"] ∧
      s.listers.resolve false "default" ⟨"coffee-svc", .int 80⟩ = ([], false) ∧
      ¬UpstreamsCurrent (plainLBC false) s) ∧
    ∃ s, follow (step (plainLBC false)) (fun _ l => EndpointsEvent l) cafeConfigured
        [.service (.update { coffeeService with ports := [⟨"", .tcp, 80, .int 8080⟩] } false) .same] = some s ∧
      s.queue = [] ∧ generatedAddresses false s (cafe []).objectMeta = ["10.0.0.1"] ∧
      s.listers.resolve false "default" ⟨"coffee-svc", .int 80⟩ = ([], false) ∧
      ¬UpstreamsCurrent (plainLBC false) s := by
  suffices hstay : ∀ ls ∈ [[Label.endpoints (.delete coffeeService.objectMeta false), .sync .same],
      [.service (.update { coffeeService with ports := [⟨"", .tcp, 80, .int 8080⟩] } false) .same]],
      ∃ s, follow (step (plainLBC false)) (fun _ l => EndpointsEvent l) cafeConfigured ls = some s ∧
        s.queue = [] ∧ generatedAddresses false s (cafe []).objectMeta = ["10.0.0.1"] ∧
        s.listers.resolve false "default" ⟨"coffee-svc", .int 80⟩ = ([], false) ∧
        ¬UpstreamsCurrent (plainLBC false) s from
    ⟨hstay _ mem_cons_self, hstay _ (mem_cons_of_mem _ mem_cons_self)⟩
  intro ls hls
  have hrun : (follow (step (plainLBC false)) (fun _ l => EndpointsEvent l) cafeConfigured ls).any
      (fun s => s.queue = [] ∧ generatedAddresses false s (cafe []).objectMeta = ["10.0.0.1"] ∧
        s.listers.resolve false "default" ⟨"coffee-svc", .int 80⟩ = ([], false) ∧
        cafe [] ∈ s.listers.ingresses.items ∧ s.cnf.hasIngress (cafe []) = true ∧
        (s.cnf.generated.lookup (cafe []).objectMeta.fileName).map (fun g => (g.nginxCfg false).serverLists) ≠
          some (configOf (plainLBC false) s.listers s.cnf.config (cafe [])).serverLists) = true := by
    revert ls
    simp only [forall_mem_cons, not_mem_nil, false_imp_iff, implies_true, and_true]
    decide +kernel
  obtain ⟨s, hs, hp⟩ := (Option.any_eq_true _ _).mp hrun
  obtain ⟨hq, haddresses, hnone, hmem, hconf, hne⟩ := of_decide_eq_true hp
  exact ⟨s, hs, hq, haddresses, hnone, not_upstreamsCurrent hmem hconf hne⟩

end samples

end KubeYamls.Nginx
