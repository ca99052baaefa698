import KubeYamls.Nginx.Minions
import KubeYamls.Nginx.Generated
import Mathlib.Data.List.MinMax

/-! # Who owns a path of a merged host

A path belongs to the oldest minion that has it, as it is written. A location
has the path as NGINX reads it, and "" is read as "/". A minion that is refused
keeps its paths from the others all the same. The merged server has one location
for each path, from the oldest minion that is merged and has it, exactly if
neither makes a difference. -/
namespace KubeYamls.Nginx
open Data Conc List

def Ingress.locationPaths (ing : Ingress) : List String := ing.paths.map fun p => pathOrDefault p.2.path

def Location.isFor (loc : Location) (ing : Ingress) : Prop :=
  loc.minionIngress.map (fun info => (info.ns, info.name)) = some (ing.objectMeta.ns, ing.objectMeta.name)

section owned
variable (lbc : LBC) (l : Listers) (m : MergeableIngresses) (host : String)

def InMerge (ing : Ingress) : Prop :=
  ing ∈ l.ingresses.items ∧ ∃ minion ∈ m.minions, minion.ingress.objectMeta = ing.objectMeta

structure OldestWith (path : String) (owner : Ingress) : Prop where
  merged : InMerge l m owner
  asks : path ∈ owner.locationPaths
  oldest : ∀ ing, InMerge l m ing → path ∈ ing.locationPaths → owner.creationTimestamp ≤ ing.creationTimestamp

/-- Each path that a merged minion asks for has one location, for the oldest of them. -/
def PathsOwned (cfg : IngressNginxConfig) : Prop :=
  ∀ ing, InMerge l m ing → ∀ path ∈ ing.locationPaths,
    ∃ loc owner, cfg.locations.filter (·.path = path) = [loc] ∧ loc.isFor owner ∧ OldestWith l m path owner

/-- A minion has a path, as it is written, that no older minion has. -/
def Claims (c : Ingress × List HTTPPath) (path : String) : Prop :=
  path ∈ c.2.map HTTPPath.path ∧ ¬TakenBefore lbc l host c path

def IsMerged (c : Ingress × List HTTPPath) : Prop := c ∈ minionsFor lbc l host ∧ accepts l host c.1 = true

/-- Each path that a merged minion asks for is claimed in one spelling only by minions that are merged,
and the one that does so is the oldest of those that ask for the path. -/
def ClaimedOnce : Prop :=
  ∀ b, IsMerged lbc l host b → ∀ path ∈ b.1.locationPaths,
    ∃ c spelling, IsMerged lbc l host c ∧ Claims lbc l host c spelling ∧ pathOrDefault spelling = path ∧
      (∀ d, IsMerged lbc l host d → path ∈ d.1.locationPaths →
        c.1.creationTimestamp ≤ d.1.creationTimestamp) ∧
      ∀ d spelling', IsMerged lbc l host d → Claims lbc l host d spelling' → pathOrDefault spelling' = path →
        spelling' = spelling

end owned

variable {c : Ingress × List HTTPPath} {path : String}

section locations
variable {lbc : LBC} {l : Listers} {host : String}

theorem minionPaths_eq_some {ing paths} (h : minionPaths lbc host ing = some paths) :
    ing.rules = [⟨host, some paths⟩] := by
  unfold minionPaths at h
  split at h
  · split at h
    · rename_i rule hrules
      split at h
      · rename_i hhost
        rw [hrules, ← hhost, ← h]
      · cases h
    · cases h
  · cases h

theorem mem_locationPaths (hc : c ∈ minionsFor lbc l host) :
    path ∈ c.1.locationPaths ↔ ∃ p ∈ c.2, pathOrDefault p.path = path := by
  simp [Ingress.locationPaths, Ingress.paths, minionPaths_eq_some (mem_candidates.mp hc).2]

variable (lbc l host) in
theorem minionLocations_eq (m : MergeableIngresses) (isPlus : Bool) (config : Config)
    (c : Ingress × List HTTPPath) : ∃ f : HTTPPath → Location,
      m.minionLocations isPlus config (minionEx lbc l host c) = c.2.map f ∧
      ∀ p, (f p).path = pathOrDefault p.path ∧ (f p).isFor c.1 := by
  let ex := m.mergedMinion (minionEx lbc l host c)
  let g := Generator.of isPlus config ex ex.pems true
  have hservers := g.generated_servers
  have hrules : servedRules g.ingress.rules = [(host, c.2)] := rfl
  rw [hrules] at hservers
  obtain ⟨server, rest, hserver, hrest, hcfg⟩ := forall₂_cons_left_iff.mp hservers
  obtain rfl := forall₂_nil_left_iff.mp hrest
  have hlocations : server.locations = c.2.map (g.pathLocation g.generated.1 host) := by
    rw [hserver.locations, Generator.locations, show g.defaultLocations g.generated.1 c.2 = [] from rfl,
      append_nil]
  have hinfo : ((m.minionCfg isPlus config (minionEx lbc l host c)).ingress.ns,
      (m.minionCfg isPlus config (minionEx lbc l host c)).ingress.name) =
        (c.1.objectMeta.ns, c.1.objectMeta.name) := rfl
  refine ⟨fun p => { g.pathLocation g.generated.1 host p with
    minionIngress := some (m.minionCfg isPlus config (minionEx lbc l host c)).ingress }, ?_, fun p => ⟨rfl, ?_⟩⟩
  · rw [MergeableIngresses.minionLocations]
    change g.generated.2.flatMap _ = _
    rw [hcfg, flatMap_singleton, hlocations, map_map]
    rfl
  · exact congrArg some hinfo

end locations

section claims
variable {lbc : LBC} {l : Listers} {host : String}

theorem mem_ownPaths : path ∈ (ownPaths lbc l host c).map HTTPPath.path ↔ Claims lbc l host c path := by
  rw [ownPaths, mem_map_firsts]
  simp only [mem_map, mem_filter, decide_eq_true_eq, not_mem_nil, not_false_eq_true, and_true, Claims]
  constructor
  · rintro ⟨p, ⟨hp, hfree⟩, rfl⟩
    exact ⟨⟨p, hp, rfl⟩, hfree⟩
  · rintro ⟨⟨p, hp, rfl⟩, hfree⟩
    exact ⟨p, ⟨hp, hfree⟩, rfl⟩

theorem eq_of_claims (hage : ∀ c ∈ minionsFor lbc l host, ∀ d ∈ minionsFor lbc l host,
      c.1.creationTimestamp = d.1.creationTimestamp → c.1 = d.1) {d}
    (hc : c ∈ minionsFor lbc l host) (hd : d ∈ minionsFor lbc l host)
    (hcp : Claims lbc l host c path) (hdp : Claims lbc l host d path) : c = d := by
  refine eq_of_fst_eq hc hd (hage c hc d hd ?_)
  rcases lt_trichotomy c.1.creationTimestamp d.1.creationTimestamp with hlt | heq | hlt
  · exact absurd ⟨c, hc, hlt, hcp.1⟩ hdp.2
  · exact heq
  · exact absurd ⟨d, hd, hlt, hdp.1⟩ hcp.2

variable (lbc l host) in
/-- Who claims a location path, and with which of its paths. -/
def claimants (cs : List (Ingress × List HTTPPath)) (path : String) :
    List ((Ingress × List HTTPPath) × HTTPPath) :=
  cs.flatMap fun c => ((ownPaths lbc l host c).filter (pathOrDefault ·.path = path)).map (c, ·)

variable {cs : List (Ingress × List HTTPPath)} {path : String}

theorem mem_claimants {x} : x ∈ claimants lbc l host cs path ↔
    x.1 ∈ cs ∧ x.2 ∈ ownPaths lbc l host x.1 ∧ pathOrDefault x.2.path = path := by
  simp only [claimants, mem_flatMap, mem_map, mem_filter, decide_eq_true_eq]
  constructor
  · rintro ⟨c, hc, p, hp, rfl⟩
    exact ⟨hc, hp⟩
  · rintro ⟨hc, hp⟩
    exact ⟨x.1, hc, x.2, hp, rfl⟩

theorem nodup_claimants (h : cs.Nodup) : (claimants lbc l host cs path).Nodup := by
  refine nodup_flatMap.mpr ⟨fun c _ => ?_, h.imp fun hne x hx hx' => ?_⟩
  · exact ((nodup_map_firsts.of_map _).filter _).map fun _ _ he => (Prod.ext_iff.mp he).2
  · obtain ⟨_, _, rfl⟩ := mem_map.mp hx
    obtain ⟨_, _, he⟩ := mem_map.mp hx'
    exact hne (Prod.ext_iff.mp he).1.symm

/-- Paths that one minion claims are told apart by how they are written. -/
theorem ownPaths_inj {p p'} (hp : p ∈ ownPaths lbc l host c)
    (hp' : p' ∈ ownPaths lbc l host c) (h : p.path = p'.path) : p = p' :=
  inj_on_of_nodup_map nodup_map_firsts hp hp' h

end claims

section merge
variable {lbc : LBC} {l : Listers} {o : Order} {master : Ingress} {m : MergeableIngresses}

theorem merged_eq (h : createMergableIngresses lbc l o master = some (.ok m))
    (hapart : DoNotCompete lbc l master.host) :
    m.minions = (acceptedMinions lbc l master.host o master.objectMeta).map
      fun c => minionEx lbc l master.host (c.1, ownPaths lbc l master.host c) := by
  obtain ⟨rule, hrules, _, _, _, hminions⟩ := createMergableIngresses_ok h
  have hhost : master.host = rule.host := by simp [Ingress.host, hrules]
  exact getMinionsForMaster_ownPaths hapart (hhost ▸ hminions)

theorem mem_accepted {host} : c ∈ acceptedMinions lbc l host o master.objectMeta ↔ IsMerged lbc l host c := by
  rw [acceptedMinions, mem_filter, sortedMinions_perm.mem_iff, IsMerged]

variable (hm : m.minions = (acceptedMinions lbc l master.host o master.objectMeta).map fun c =>
  minionEx lbc l master.host (c.1, ownPaths lbc l master.host c))
include hm

theorem inMerge_iff {ing} : InMerge l m ing ↔ ∃ paths, IsMerged lbc l master.host (ing, paths) := by
  constructor
  · rintro ⟨hing, minion, hminion, hmeta⟩
    rw [hm] at hminion
    obtain ⟨c, hc, rfl⟩ := mem_map.mp hminion
    have hc := mem_accepted.mp hc
    obtain rfl : c.1 = ing := l.ingresses.eq_of_key (mem_candidates.mp hc.1).1 hing (congrArg ObjectMeta.key hmeta)
    exact ⟨c.2, hc⟩
  · rintro ⟨paths, hc⟩
    refine ⟨(mem_candidates.mp hc.1).1, minionEx lbc l master.host (ing, ownPaths lbc l master.host (ing, paths)),
      ?_, rfl⟩
    rw [hm]
    exact mem_map.mpr ⟨_, mem_accepted.mpr hc, rfl⟩

theorem locations_for_path (isPlus : Bool) (config : Config) :
    ∃ F : (Ingress × List HTTPPath) → HTTPPath → Location, (∀ c p, (F c p).isFor c.1) ∧
      ∀ path, ((generateNginxCfgForMergeableIngresses isPlus config m).locations.filter (·.path = path)) =
        (claimants lbc l master.host (acceptedMinions lbc l master.host o master.objectMeta) path).map
          fun x => F x.1 x.2 := by
  choose F hF hpath using fun c : Ingress × List HTTPPath =>
    minionLocations_eq lbc l master.host m isPlus config (c.1, ownPaths lbc l master.host c)
  refine ⟨F, fun c p => (hpath c p).2, fun path => ?_⟩
  have hall : (generateNginxCfgForMergeableIngresses isPlus config m).locations =
      m.minions.flatMap (m.minionLocations isPlus config) := flatMap_singleton _ _
  rw [hall, hm, flatMap_map, claimants, filter_flatMap, map_flatMap]
  refine flatMap_congr fun c _ => ?_
  rw [hF, filter_map, map_map]
  congr 1
  refine filter_congr fun p _ => ?_
  simp [(hpath c p).1]

theorem oldestWith_iff (hc : IsMerged lbc l master.host c) :
    OldestWith l m path c.1 ↔ path ∈ c.1.locationPaths ∧ ∀ d, IsMerged lbc l master.host d →
      path ∈ d.1.locationPaths → c.1.creationTimestamp ≤ d.1.creationTimestamp := by
  constructor
  · intro h
    exact ⟨h.asks, fun d hd => h.oldest d.1 ((inMerge_iff hm).mpr ⟨d.2, hd⟩)⟩
  · rintro ⟨hasks, holdest⟩
    refine ⟨(inMerge_iff hm).mpr ⟨c.2, hc⟩, hasks, fun ing hing => ?_⟩
    obtain ⟨paths, hd⟩ := (inMerge_iff hm).mp hing
    exact holdest (ing, paths) hd

end merge

theorem Location.isFor_inj {l : Listers} {loc : Location} {a b} (ha : a ∈ l.ingresses.items)
    (hb : b ∈ l.ingresses.items) (hla : loc.isFor a) (hlb : loc.isFor b) : a = b := by
  obtain ⟨hns, hname⟩ := Prod.ext_iff.mp (Option.some.inj (hla.symm.trans hlb))
  refine l.ingresses.eq_of_key ha hb ?_
  rw [ObjectMeta.key, ObjectMeta.key, show a.objectMeta.ns = b.objectMeta.ns from hns,
    show a.objectMeta.name = b.objectMeta.name from hname]

theorem claimants_eq_singleton {lbc l host cs} (hcs : cs.Nodup) (hmem : ∀ c ∈ cs, c ∈ minionsFor lbc l host)
    (hage : ∀ c ∈ minionsFor lbc l host, ∀ d ∈ minionsFor lbc l host,
      c.1.creationTimestamp = d.1.creationTimestamp → c.1 = d.1) {p} : claimants lbc l host cs path = [(c, p)] ↔
      (c ∈ cs ∧ p ∈ ownPaths lbc l host c ∧ pathOrDefault p.path = path) ∧
        ∀ d ∈ cs, ∀ spelling, Claims lbc l host d spelling → pathOrDefault spelling = path → spelling = p.path := by
  constructor
  · intro hone
    refine ⟨mem_claimants.mp (hone ▸ mem_singleton_self (c, p)), fun d hd spelling hclaim hspelling => ?_⟩
    obtain ⟨p', hp', rfl⟩ := mem_map.mp (mem_ownPaths.mpr hclaim)
    have hin : (d, p') ∈ [(c, p)] := hone ▸ mem_claimants.mpr ⟨hd, hp', hspelling⟩
    exact congrArg (·.2.path) (mem_singleton.mp hin)
  · rintro ⟨⟨hc, hp, hspelling⟩, honly⟩
    refine perm_singleton.mp
      ((perm_ext_iff_of_nodup (nodup_claimants hcs) (nodup_singleton _)).mpr ?_)
    rintro ⟨d, p'⟩
    rw [mem_claimants, mem_singleton]
    constructor
    · rintro ⟨hd, hp', hspelling'⟩
      have hclaim : Claims lbc l host c p.path := mem_ownPaths.mp (mem_map_of_mem hp)
      have hclaim' : Claims lbc l host d p'.path := mem_ownPaths.mp (mem_map_of_mem hp')
      have hsame : p'.path = p.path := honly d hd p'.path hclaim' hspelling'
      obtain rfl := eq_of_claims hage (hmem c hc) (hmem d hd) hclaim (hsame ▸ hclaim')
      rw [show p' = p from ownPaths_inj hp' hp hsame]
    · rintro ⟨⟩
      exact ⟨hc, hp, hspelling⟩

/-- With minions of different ages, each path of the merged server has its one owner exactly if it is
claimed once. -/
theorem paths_owned_iff (lbc : LBC) (l : Listers) (o : Order) (master : Ingress) (m : MergeableIngresses)
    (h : createMergableIngresses lbc l o master = some (.ok m))
    (hage : ∀ c ∈ minionsFor lbc l master.host, ∀ d ∈ minionsFor lbc l master.host,
      c.1.creationTimestamp = d.1.creationTimestamp → c.1 = d.1) (isPlus : Bool) (config : Config) :
    PathsOwned l m (generateNginxCfgForMergeableIngresses isPlus config m) ↔ ClaimedOnce lbc l master.host := by
  have hm := merged_eq h fun a ha _ b hb hne heq => absurd (hage b hb a ha heq) hne
  obtain ⟨F, hF, hlocations⟩ := locations_for_path hm isPlus config
  have hnodup : (acceptedMinions lbc l master.host o master.objectMeta).Nodup := nodup_sortedMinions.filter _
  have hlisted : ∀ c ∈ acceptedMinions lbc l master.host o master.objectMeta, c ∈ minionsFor lbc l master.host :=
    fun c hc => (mem_accepted.mp hc).1
  constructor
  · intro howned b hb path hpath
    obtain ⟨loc, owner, hloc, hfor, howner⟩ := howned b.1 ((inMerge_iff hm).mpr ⟨b.2, hb⟩) path hpath
    rw [hlocations, map_eq_singleton_iff] at hloc
    obtain ⟨⟨c, p⟩, hone, rfl⟩ := hloc
    obtain ⟨⟨hc, hp, hpp⟩, honly⟩ := (claimants_eq_singleton hnodup hlisted hage).mp hone
    have hc := mem_accepted.mp hc
    obtain rfl : owner = c.1 :=
      Location.isFor_inj howner.merged.1 (mem_candidates.mp hc.1).1 hfor (hF c p)
    exact ⟨c, p.path, hc, mem_ownPaths.mp (mem_map_of_mem hp), hpp, ((oldestWith_iff hm hc).mp howner).2,
      fun d spelling hd => honly d (mem_accepted.mpr hd) spelling⟩
  · intro hclaimed ing hing path hpath
    obtain ⟨paths, hb⟩ := (inMerge_iff hm).mp hing
    obtain ⟨c, spelling, hc, hclaim, hspelling, holdest, honly⟩ := hclaimed (ing, paths) hb path hpath
    obtain ⟨p, hp, rfl⟩ := mem_map.mp (mem_ownPaths.mpr hclaim)
    have hone := (claimants_eq_singleton hnodup hlisted hage).mpr ⟨⟨mem_accepted.mpr hc, hp, hspelling⟩,
      fun d hd spelling => honly d spelling (mem_accepted.mp hd)⟩
    have hasks : path ∈ c.1.locationPaths :=
      (mem_locationPaths hc.1).mpr ⟨p, (mem_filter.mp (firsts_sublist.mem hp)).1, hspelling⟩
    refine ⟨F c p, c.1, ?_, hF c p, (oldestWith_iff hm hc).mpr ⟨hasks, holdest⟩⟩
    rw [hlocations, hone, map_singleton]

theorem claimedOnce_of_plain {lbc l host} (haccept : ∀ c ∈ minionsFor lbc l host, accepts l host c.1 = true)
    (hwritten : ∀ c ∈ minionsFor lbc l host, "" ∉ c.2.map HTTPPath.path) : ClaimedOnce lbc l host := by
  have hspelled : ∀ c ∈ minionsFor lbc l host, ∀ spelling ∈ c.2.map HTTPPath.path,
      pathOrDefault spelling = spelling := by
    intro c hc spelling hmem
    have hne : spelling ≠ "" := fun he => hwritten c hc (he ▸ hmem)
    simp [pathOrDefault, hne]
  have hasks : ∀ c ∈ minionsFor lbc l host, ∀ path ∈ c.1.locationPaths, path ∈ c.2.map HTTPPath.path := by
    intro c hc path hpath
    obtain ⟨p, hp, rfl⟩ := (mem_locationPaths hc).mp hpath
    have hmem : p.path ∈ c.2.map HTTPPath.path := mem_map_of_mem hp
    rwa [hspelled c hc p.path hmem]
  intro b hb path hpath
  -- the oldest of those that ask for the path
  let asking := (minionsFor lbc l host).filter fun c => path ∈ c.2.map HTTPPath.path
  have hmem : ∀ {c}, c ∈ asking ↔ c ∈ minionsFor lbc l host ∧ path ∈ c.2.map HTTPPath.path := by
    intro c
    simp only [asking, mem_filter, decide_eq_true_eq]
  cases hmin : asking.argmin fun c => c.1.creationTimestamp with
  | none =>
    rw [argmin_eq_none.mp hmin] at hmem
    exact absurd (hmem.mpr ⟨hb.1, hasks b hb.1 path hpath⟩) not_mem_nil
  | some c =>
    obtain ⟨hc, hcp⟩ := hmem.mp (argmin_mem hmin)
    have holdest : ∀ d ∈ minionsFor lbc l host, path ∈ d.2.map HTTPPath.path →
        c.1.creationTimestamp ≤ d.1.creationTimestamp := by
      intro d hd hdp
      have hle := le_of_mem_argmin (hmem.mpr ⟨hd, hdp⟩) hmin
      exact hle
    refine ⟨c, path, ⟨hc, haccept c hc⟩, ⟨hcp, ?_⟩, hspelled c hc path hcp, fun d hd hdp =>
      holdest d hd.1 (hasks d hd.1 path hdp), fun d spelling hd hclaim hspelling => ?_⟩
    · rintro ⟨d, hd, hlt, hdp⟩
      exact absurd (holdest d hd hdp) (not_le.mpr hlt)
    · rw [← hspelling, hspelled d hd.1 spelling hclaim.1]

section samples

def ownedPaths (cfg : IngressNginxConfig) : List (String × Option String) :=
  cfg.locations.map fun loc => (loc.path, loc.minionIngress.map (·.name))

theorem exists_merged {res : Option (Except String MergeableIngresses)} {p}
    (h : (res.bind Except.toOption).any p = true) : ∃ m, res = some (.ok m) ∧ p m = true := by
  obtain ⟨m, hm, hp⟩ := (Option.any_eq_true _ _).mp h
  obtain ⟨r, rfl, hr⟩ := Option.bind_eq_some_iff.mp hm
  cases r with
  | error err => cases hr
  | ok m' =>
    obtain rfl := Option.some.inj hr
    exact ⟨m', rfl, hp⟩

theorem paths_owned_shop : ∃ m, createMergableIngresses (plainLBC false) shopListers .same shopMaster = some (.ok m) ∧
    ownedPaths (generateNginxCfgForMergeableIngresses false newDefaultConfig m) =
      [("/cart", some "cart"), ("/pay", some "pay")] ∧
    PathsOwned shopListers m (generateNginxCfgForMergeableIngresses false newDefaultConfig m) := by
  have hrun : ((createMergableIngresses (plainLBC false) shopListers .same shopMaster).bind Except.toOption).any
      (fun m => ownedPaths (generateNginxCfgForMergeableIngresses false newDefaultConfig m) =
        [("/cart", some "cart"), ("/pay", some "pay")]) = true := by decide +kernel
  obtain ⟨m, hres, hp⟩ := exists_merged hrun
  refine ⟨m, hres, of_decide_eq_true hp, ?_⟩
  exact (paths_owned_iff (plainLBC false) shopListers .same shopMaster m hres (by decide +kernel) false
    newDefaultConfig).mpr (claimedOnce_of_plain (by decide +kernel) (by decide +kernel))

/-- A minion "default/cart" that leaves its path empty, and a younger one that does not. -/
def rootListers : Listers :=
  { noListers with
    ingresses := .ofList [shopMaster, { shopMinion with rules := [⟨"shop.example.com", some [⟨"", "cart-svc", .int 80⟩]⟩] },
      { payMinion 1 with rules := [⟨"shop.example.com", some [⟨"/", "pay-svc", .int 80⟩]⟩] }] }

def cartSecret : Secret where
  objectMeta := ⟨"default", "cart-secret", legal_default, by decide⟩
  data := [(tlsCertKey, []), (tlsPrivateKeyKey, [])]

def refusedListers : Listers :=
  { noListers with
    ingresses := .ofList [shopMaster, { shopMinion with tls := [⟨[], "cart-secret"⟩] }, payMinion 1]
    secrets := .ofList [cartSecret] }

/-- "/" has two locations, and "/cart" has none, though a minion that asks for it is merged. -/
theorem paths_not_owned :
    (∃ m, createMergableIngresses (plainLBC false) rootListers .same shopMaster = some (.ok m) ∧
      ((minionsFor (plainLBC false) rootListers shopMaster.host).map (·.1.creationTimestamp)).Nodup ∧
      ownedPaths (generateNginxCfgForMergeableIngresses false newDefaultConfig m) =
        [("/", some "cart"), ("/", some "pay")] ∧
      ¬PathsOwned rootListers m (generateNginxCfgForMergeableIngresses false newDefaultConfig m)) ∧
    ∃ m, createMergableIngresses (plainLBC false) refusedListers .same shopMaster = some (.ok m) ∧
      ((minionsFor (plainLBC false) refusedListers shopMaster.host).map (·.1.creationTimestamp)).Nodup ∧
      ownedPaths (generateNginxCfgForMergeableIngresses false newDefaultConfig m) = [("/pay", some "pay")] ∧
      ¬PathsOwned refusedListers m (generateNginxCfgForMergeableIngresses false newDefaultConfig m) := by
  -- a path with another number of locations than one is not owned
  have hnot : ∀ l owned path, ((createMergableIngresses (plainLBC false) l .same shopMaster).bind
      Except.toOption).any (fun m => ownedPaths (generateNginxCfgForMergeableIngresses false newDefaultConfig m) = owned ∧
        ∃ ing ∈ l.ingresses.items, path ∈ ing.locationPaths ∧
          ∃ minion ∈ m.minions, minion.ingress.objectMeta = ing.objectMeta) = true → (owned.map Prod.fst).count path ≠ 1 →
      ∃ m, createMergableIngresses (plainLBC false) l .same shopMaster = some (.ok m) ∧
        ownedPaths (generateNginxCfgForMergeableIngresses false newDefaultConfig m) = owned ∧
        ¬PathsOwned l m (generateNginxCfgForMergeableIngresses false newDefaultConfig m) := by
    intro l owned path hrun hcount
    obtain ⟨m, hres, hp⟩ := exists_merged hrun
    obtain ⟨rfl, ing, hing, hpath, hmerged⟩ := of_decide_eq_true hp
    refine ⟨m, hres, rfl, fun howned => hcount ?_⟩
    obtain ⟨loc, owner, hone, _⟩ := howned ing ⟨hing, hmerged⟩ path hpath
    rw [ownedPaths, map_map, count_eq_length_filter, filter_map, length_map]
    exact (congrArg List.length hone).trans length_singleton
  constructor
  · obtain ⟨m, hres, hnot⟩ := hnot rootListers [("/", some "cart"), ("/", some "pay")] "/" (by decide +kernel) (by decide)
    exact ⟨m, hres, by decide +kernel, hnot⟩
  · obtain ⟨m, hres, hnot⟩ := hnot refusedListers [("/pay", some "pay")] "/cart" (by decide +kernel) (by decide)
    exact ⟨m, hres, by decide +kernel, hnot⟩

end samples

end KubeYamls.Nginx
