import KubeYamls.Nginx.RuleLists

/-! # The search for the ingresses of a secret

`findIngressesForSecret` looks for a minion by its master: the first configured one
with the host of the minion. If the configurations were made from the ingresses that
are there, the minion is recorded under this master and no other. -/
namespace KubeYamls.Nginx
open Data List Option

variable (lbc : LBC)

/-- The Configurator has made its configurations from these ingresses, or some of them, in any
order and with whatever services, endpoints and secrets there were. -/
inductive GeneratedFrom (items : Lister Ingress Ingress.objectMeta) : Configurator → Prop where
  | new (config : Config) (mainTemplate : MainConfig → Except String String)
      (ingressTemplate : IngressNginxConfig → Except String String) :
      GeneratedFrom items (.new config mainTemplate ingressTemplate)
  | regenerate {cnf : Configurator} {o : Order} {s : State} {ing : Ingress} {r : Resource} :
      GeneratedFrom items cnf → s.listers.ingresses = items → ing ∈ items.items →
      lbc.isNginxIngress ing = true → ing.isMinion = false → resourceOf lbc o s ing = some (.ok r) →
      GeneratedFrom items (cnf.regenerate lbc.host r).1
  -- a reload, or new parameters, templates or files
  | other {cnf cnf' : Configurator} : GeneratedFrom items cnf → cnf'.ingresses = cnf.ingresses →
      cnf'.minions = cnf.minions → GeneratedFrom items cnf'

/-- What the entries of the table of minions stand for. -/
structure RecordedUnder (items : Lister Ingress Ingress.objectMeta) (cnf : Configurator) (file : String)
    (minions : List String) (master : Ingress) : Prop where
  mem : master ∈ items.items
  own : lbc.isNginxIngress master = true
  isMaster : master.isMaster = true
  named : master.objectMeta.fileName = file
  configured : cnf.hasIngress master = true
  minions : ∀ name ∈ minions, ∃ minion ∈ items.items, minion.objectMeta.fileName = name ∧ minion.host = master.host

def Recorded (items : Lister Ingress Ingress.objectMeta) (cnf : Configurator) : Prop :=
  ∀ file minions, cnf.minions.lookup file = some minions → ∃ master, RecordedUnder lbc items cnf file minions master

section recorded
variable {lbc} {items : Lister Ingress Ingress.objectMeta} {cnf : Configurator} {o : Order} {s : State}
  {ing : Ingress} {r : Resource}

theorem host_of_minionPaths {host paths} (h : minionPaths lbc host ing = some paths) : ing.host = host := by
  unfold minionPaths at h
  split at h
  · split at h
    · rename_i rule hrules
      split at h
      · rename_i hhost
        rw [Ingress.host, hrules]
        exact hhost
      · cases h
    · cases h
  · cases h

theorem minions_of_merge {m} (h : createMergableIngresses lbc s.listers o ing = some (.ok m)) :
    ∀ name ∈ m.minions.map (·.ingress.objectMeta.fileName),
      ∃ minion ∈ s.listers.ingresses.items, minion.objectMeta.fileName = name ∧ minion.host = ing.host := by
  obtain ⟨rule, hrules, _, _, _, hminions⟩ := createMergableIngresses_ok h
  intro name hname
  obtain ⟨part, hpart, rfl⟩ := mem_map.mp hname
  obtain ⟨c, hc, ⟨paths, hpaths⟩, _, rfl⟩ := mem_getMinions hminions hpart
  refine ⟨c.1, hc, rfl, ?_⟩
  rw [host_of_minionPaths hpaths, Ingress.host, hrules]
  rfl

theorem master_of_mergeable {m} (h : resourceOf lbc o s ing = some (.ok (.mergeable m))) :
    ing.isMaster = true ∧ createMergableIngresses lbc s.listers o ing = some (.ok m) := by
  unfold resourceOf at h
  split at h
  · rename_i hmaster
    obtain ⟨res, hres, h⟩ := map_eq_some_iff.mp h
    cases res with
    | error err => cases h
    | ok m' =>
      obtain rfl := Resource.mergeable.inj (Except.ok.inj h)
      exact ⟨hmaster, hres⟩
  · obtain ⟨ingEx, _, h⟩ := map_eq_ok.mp (some.inj h)
    cases h

theorem Recorded.transfer {cnf'} (h : Recorded lbc items cnf) (hm : cnf'.minions = cnf.minions)
    (hi : ∀ ing, cnf.hasIngress ing = true → cnf'.hasIngress ing = true) : Recorded lbc items cnf' := by
  intro file minions hlookup
  obtain ⟨master, hrec⟩ := h file minions (hm ▸ hlookup)
  exact ⟨master, { hrec with configured := hi master hrec.configured }⟩

theorem Recorded.regenerate (h : Recorded lbc items cnf) (hs : s.listers.ingresses = items) (hing : ing ∈ items.items)
    (hown : lbc.isNginxIngress ing = true) (hr : resourceOf lbc o s ing = some (.ok r)) :
    Recorded lbc items (cnf.regenerate lbc.host r).1 := by
  obtain ⟨err, -, hrun⟩ | ⟨content, -, hrun⟩ := Configurator.regenerate_cases lbc.host cnf r
  · exact h.transfer (by rw [hrun]; rfl) fun _ => Configurator.hasIngress_regenerate
  · cases r with
    | ingress ingEx => exact h.transfer (by rw [hrun]; rfl) fun _ => Configurator.hasIngress_regenerate
    | mergeable m =>
      obtain ⟨hmaster, hmerge⟩ := master_of_mergeable hr
      have hname : (Resource.mergeable m).name = ing.objectMeta.fileName :=
        congrArg ObjectMeta.fileName (resourceOf_objectMeta hr)
      intro file minions hlookup
      rw [hrun] at hlookup
      obtain ⟨rfl, rfl⟩ | ⟨_, hlookup⟩ := Table.lookup_insert_iff.mp hlookup
      · refine ⟨ing, hing, hown, hmaster, hname.symm, ?_, hs ▸ minions_of_merge hmerge⟩
        exact Configurator.hasIngress_of_ok (by rw [hrun]) hname
      · obtain ⟨master, hrec⟩ := h file minions hlookup
        exact ⟨master, { hrec with configured := Configurator.hasIngress_regenerate hrec.configured }⟩

theorem GeneratedFrom.recorded (h : GeneratedFrom lbc items cnf) : Recorded lbc items cnf := by
  induction h with
  | new => exact fun file minions hlookup => by cases hlookup
  | regenerate _ hs hing hown _ hr ih => exact ih.regenerate hs hing hown hr
  | other _ hi hm ih => exact ih.transfer hm fun ing hconf => by rwa [Configurator.hasIngress, hi]

end recorded

section search
variable (s : State)

/-- Different ingresses have different files, and different masters different hosts; and there are rules. -/
structure ToldApartByNames (items : Lister Ingress Ingress.objectMeta) : Prop where
  rules : ∀ ing ∈ items.items, ing.rules ≠ []
  files : ∀ a ∈ items.items, ∀ b ∈ items.items, a.objectMeta.fileName = b.objectMeta.fileName → a = b
  masters : ∀ a ∈ items.items, ∀ b ∈ items.items, lbc.isNginxIngress a = true → lbc.isNginxIngress b = true →
    a.isMaster = true → b.isMaster = true → a.host = b.host → a = b

def IsConfigured (ing : Ingress) : Prop :=
  if ing.isMinion then ∃ master ∈ s.listers.ingresses.items, lbc.isNginxIngress master = true ∧
    master.isMaster = true ∧ s.cnf.hasMinion master ing = true
  else s.cnf.hasIngress ing = true

instance (ing : Ingress) : Decidable (IsConfigured lbc s ing) :=
  inferInstanceAs (Decidable (if ing.isMinion then ∃ master ∈ s.listers.ingresses.items,
    lbc.isNginxIngress master = true ∧ master.isMaster = true ∧ s.cnf.hasMinion master ing = true
    else s.cnf.hasIngress ing = true))

def NamesSecret (name : String) (ing : Ingress) : Prop :=
  (ing.isMinion = false ∧ ∃ tls ∈ ing.tls, tls.secretName = name) ∨
    lbc.isNginxPlus = true ∧ ing.annotated jwtKeyAnnotation = some name

instance (name : String) (ing : Ingress) : Decidable (NamesSecret lbc name ing) :=
  inferInstanceAs (Decidable ((_ ∧ ∃ tls ∈ ing.tls, _) ∨ _ ∧ _))

variable {lbc s} {o : Order} {ns name : String} {ing : Ingress}

theorem refersToSecret_minion_iff (hm : ing.isMinion = true) : refersToSecret lbc o s ns name ing = some true ↔
    ing.objectMeta.ns = ns ∧ lbc.isNginxIngress ing = true ∧
      (∃ master, findMasterForMinion lbc s.listers o s.cnf ing = some (.ok master) ∧
        s.cnf.hasMinion master ing = true) ∧
      lbc.isNginxPlus = true ∧ ing.annotated jwtKeyAnnotation = some name := by
  by_cases hown : ing.objectMeta.ns = ns ∧ lbc.isNginxIngress ing = true
  · cases hplus : lbc.isNginxPlus with
    | false => simp [refersToSecret, hown.1, hown.2, hm, hplus]
    | true =>
      cases hfound : findMasterForMinion lbc s.listers o s.cnf ing with
      | none => simp [refersToSecret, hown.1, hown.2, hm, hplus, hfound]
      | some res =>
        cases res with
        | error | ok => simp [refersToSecret, hown.1, hown.2, hm, hplus, hfound]
  · exact ⟨fun href => absurd (own_of_refersToSecret href) hown, fun hall => absurd ⟨hall.1, hall.2.1⟩ hown⟩

theorem found_iff_recorded (hapart : ToldApartByNames lbc s.listers.ingresses)
    (hrec : Recorded lbc s.listers.ingresses s.cnf) (hing : ing ∈ s.listers.ingresses.items) :
    (∃ master, findMasterForMinion lbc s.listers o s.cnf ing = some (.ok master) ∧
        s.cnf.hasMinion master ing = true) ↔
      ∃ master ∈ s.listers.ingresses.items, lbc.isNginxIngress master = true ∧ master.isMaster = true ∧
        s.cnf.hasMinion master ing = true := by
  constructor
  · rintro ⟨master, hfound, hminion⟩
    obtain ⟨hmem, hown, -, hmaster, -⟩ := findMaster_ok hfound
    exact ⟨master, (o.perm _ _).mem_iff.mp hmem, hown, hmaster, hminion⟩
  · rintro ⟨master, hmem, hown, hmaster, hminion⟩
    refine ⟨master, ?_, hminion⟩
    -- the table has the minion under this master, so they have the host in common
    unfold Configurator.hasMinion at hminion
    split at hminion
    · cases hminion
    · rename_i minions hlookup
      obtain ⟨master', hunder⟩ := hrec _ _ hlookup
      obtain rfl : master' = master := hapart.files _ hunder.mem _ hmem hunder.named
      obtain ⟨minion, hminion', hfile, hhost⟩ := hunder.minions _ (of_decide_eq_true hminion)
      obtain rfl : minion = ing := hapart.files _ hminion' _ hing hfile
      have hfor : isMasterFor lbc s.cnf minion.host master' = true := by
        simp [isMasterFor, hown, hmaster, hunder.configured, hhost]
      -- any master that is found is the only one for the host
      obtain ⟨found, hfound⟩ : ∃ found, (o.list (.masterOf minion.objectMeta) s.listers.ingresses.items).find?
          (isMasterFor lbc s.cnf minion.host) = some found :=
        isSome_iff_exists.mp (find?_isSome.mpr ⟨master', (o.perm _ _).mem_iff.mpr hmem, hfor⟩)
      have hfound' : isMasterFor lbc s.cnf minion.host found = true := find?_some hfound
      simp only [isMasterFor, Bool.and_eq_true, decide_eq_true_eq] at hfound'
      obtain rfl : found = master' := hapart.masters _
        ((o.perm _ _).mem_iff.mp (mem_of_find?_eq_some hfound)) _ hmem hfound'.1.1.1 hown hfound'.1.2 hmaster
        (hfound'.2.trans hhost)
      rw [findMasterForMinion_eq hapart.rules o hing, hfound]
      rfl

theorem refers_iff (hapart : ToldApartByNames lbc s.listers.ingresses)
    (hrec : Recorded lbc s.listers.ingresses s.cnf) (hing : ing ∈ s.listers.ingresses.items) :
    refersToSecret lbc o s ns name ing = some true ↔
      ing.objectMeta.ns = ns ∧ lbc.isNginxIngress ing = true ∧ IsConfigured lbc s ing ∧ NamesSecret lbc name ing := by
  cases hm : ing.isMinion with
  | false => simp only [refersToSecret_iff hm, IsConfigured, NamesSecret, hm, if_false, true_and, Bool.false_eq_true]
  | true =>
    simp only [refersToSecret_minion_iff hm, found_iff_recorded hapart hrec hing, IsConfigured, NamesSecret, hm,
      if_true, Bool.true_eq_false, false_and, false_or]

end search

/-- With rules, different files and at most one master for a host, the search for a secret finds every
configured ingress that names it, once, and no other. -/
theorem secret_search_exact (lbc : LBC) (s : State) (hapart : ToldApartByNames lbc s.listers.ingresses)
    (hgen : GeneratedFrom lbc s.listers.ingresses s.cnf) (o : Order) (ns name : String) :
    ∃ ings, findIngressesForSecret lbc o s ns name = some ings ∧ ings.Nodup ∧
      ∀ ing, ing ∈ ings ↔ ing ∈ s.listers.ingresses.items ∧ ing.objectMeta.ns = ns ∧
        lbc.isNginxIngress ing = true ∧ IsConfigured lbc s ing ∧ NamesSecret lbc name ing := by
  have hrules : HaveRules lbc s.listers.ingresses := fun ing hing _ _ => hapart.rules ing hing
  obtain ⟨ings, hfound⟩ := isSome_iff_exists.mp (findIngressesForSecret_isSome hrules o ns name)
  refine ⟨ings, hfound, ?_, fun ing => ?_⟩
  · have hsub : ings.Sublist (o.list .secret s.listers.ingresses.items) := by
      refine sublist_of_gather (fun a b h => ?_) hfound
      obtain ⟨refers, -, h⟩ := map_eq_some_iff.mp h
      split at h
      · exact (some.inj h).symm
      · cases h
    exact hsub.nodup ((o.perm _ _).nodup_iff.mpr s.listers.ingresses.nodup_items)
  · rw [mem_findIngressesForSecret hfound]
    exact and_congr_right fun hing => refers_iff hapart hgen.recorded hing

section samples

def generateAll (lbc : LBC) (o : Order) (s : State) : Configurator → List Ingress → Configurator
  | cnf, [] => cnf
  | cnf, ing :: ings =>
    match resourceOf lbc o s ing with
    | some (.ok r) => generateAll lbc o s (cnf.regenerate lbc.host r).1 ings
    | _ => generateAll lbc o s cnf ings

theorem generatedFrom_generateAll {lbc o s ings}
    (h : ∀ ing ∈ ings, ing ∈ s.listers.ingresses.items ∧ lbc.isNginxIngress ing = true ∧ ing.isMinion = false)
    {cnf} (hcnf : GeneratedFrom lbc s.listers.ingresses cnf) :
    GeneratedFrom lbc s.listers.ingresses (generateAll lbc o s cnf ings) := by
  induction ings generalizing cnf with
  | nil => exact hcnf
  | cons ing ings ih =>
    obtain ⟨⟨hmem, hown, hminion⟩, hings⟩ := forall_mem_cons.mp h
    unfold generateAll
    split
    · rename_i r hr
      exact ih hings (.regenerate hcnf rfl hmem hown hminion hr)
    · exact ih hings hcnf

def jwtMinion : Ingress :=
  { shopMinion with annotations := ("nginx.com/jwt-key", "cafe-secret") :: shopMinion.annotations }

/-- The lister with "default/cafe", which has the secret for a certificate, "default/shop" and the minion. -/
def secretListed : State :=
  { started with listers := { noListers with ingresses := .ofList [tlsCafe, shopMaster, jwtMinion] } }

def secretWatched : State :=
  { secretListed with cnf := generateAll (plainLBC true) .same secretListed started.cnf [tlsCafe, shopMaster] }

theorem secret_search_cafe : ∃ ings,
    findIngressesForSecret (plainLBC true) .same secretWatched "default" "cafe-secret" = some ings ∧
      ings.Nodup ∧ tlsCafe ∈ ings ∧ jwtMinion ∈ ings ∧ shopMaster ∉ ings := by
  have hapart : ToldApartByNames (plainLBC true) secretWatched.listers.ingresses :=
    ⟨by decide +kernel, by decide +kernel, by decide +kernel⟩
  have hall : ∀ ing ∈ [tlsCafe, shopMaster], ing ∈ secretListed.listers.ingresses.items ∧
      (plainLBC true).isNginxIngress ing = true ∧ ing.isMinion = false := by
    decide +kernel
  have hgen : GeneratedFrom (plainLBC true) secretWatched.listers.ingresses secretWatched.cnf :=
    generatedFrom_generateAll (o := .same) hall (show GeneratedFrom _ _ started.cnf from .new _ _ _)
  obtain ⟨ings, hfound, hnodup, hmem⟩ :=
    secret_search_exact (plainLBC true) secretWatched hapart hgen .same "default" "cafe-secret"
  exact ⟨ings, hfound, hnodup, (hmem _).mpr (by decide +kernel), (hmem _).mpr (by decide +kernel),
    fun h => absurd ((hmem _).mp h) (by decide +kernel)⟩

end samples

end KubeYamls.Nginx
