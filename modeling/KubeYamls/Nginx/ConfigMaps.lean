import KubeYamls.Nginx.Minions

/-! # A new ConfigMap reaches the ingresses

`syncConfig` regenerates what `GetManagedIngresses` returns. A master is found
only through its minions and is kept by its name without the namespace; what is
not kept so is regenerated as a regular ingress, or not at all. -/
namespace KubeYamls.Nginx
open Data Conc List Option

section managed
variable (lbc : LBC) (o : Order) (s : State)

/-- Is the ingress one of those that are regenerated as regular ones, if accepted? -/
def isListed (ing : Ingress) : Bool := lbc.isNginxIngress ing && !ing.isMinion && s.cnf.hasIngress ing

def foundMaster (ing : Ingress) : Option (Ingress × MergeableIngresses) :=
  if lbc.isNginxIngress ing && ing.isMinion then
    match findMasterForMinion lbc s.listers o s.cnf ing with
    | some (.ok master) =>
      match createMergableIngresses lbc s.listers o master with
      | some (.ok merged) => some (master, merged)
      | _ => none
    | _ => none
  else none

variable {lbc o s}

theorem foundMaster_eq_some {ing p} (h : foundMaster lbc o s ing = some p) :
    findMasterForMinion lbc s.listers o s.cnf ing = some (.ok p.1) ∧
      createMergableIngresses lbc s.listers o p.1 = some (.ok p.2) := by
  unfold foundMaster at h
  split at h
  · split at h
    · rename_i master hmaster
      split at h
      · rename_i merged hmerged
        obtain rfl := some.inj h
        exact ⟨hmaster, hmerged⟩
      · cases h
    · cases h
  · cases h

theorem manage_cases {m m' ing} (h : manage lbc o s m ing = some m') :
    (isListed lbc s ing = true ∧ foundMaster lbc o s ing = none ∧
      m' = { m with ingresses := m.ingresses ++ [ing] }) ∨
    (isListed lbc s ing = false ∧ ∃ p, foundMaster lbc o s ing = some p ∧
      m.mergeable.lookup p.1.objectMeta.name = none ∧
      m' = { m with mergeable := m.mergeable ++ [(p.1.objectMeta.name, p.2)] }) ∨
    (isListed lbc s ing = false ∧ m' = m ∧ ∀ p, foundMaster lbc o s ing = some p →
      m.mergeable.lookup p.1.objectMeta.name ≠ none) := by
  unfold manage at h
  cases hn : lbc.isNginxIngress ing with
  | false => exact .inr (.inr ⟨by simp [isListed, hn], by simpa [hn] using h.symm, by simp [foundMaster, hn]⟩)
  | true =>
    simp only [hn, Bool.not_true, Bool.false_eq_true, if_false] at h
    cases hm : ing.isMinion with
    | false =>
      have hfound : foundMaster lbc o s ing = none := by simp [foundMaster, hm]
      cases hc : s.cnf.hasIngress ing with
      | true => exact .inl ⟨by simp [isListed, hn, hm, hc], hfound, by simpa [hm, hc] using h.symm⟩
      | false => exact .inr (.inr ⟨by simp [isListed, hc], by simpa [hm, hc] using h.symm, by simp [hfound]⟩)
    | true =>
      simp only [hm, if_true] at h
      refine .inr ((?_ : _ ∨ _).imp (fun h => ⟨by simp [isListed, hm], h⟩) fun h => ⟨by simp [isListed, hm], h⟩)
      obtain ⟨res, hres, h⟩ := bind_eq_some_iff.mp h
      cases res with
      | error err => exact .inr ⟨(some.inj h).symm, by simp [foundMaster, hn, hm, hres]⟩
      | ok master =>
        -- a master that is found is configured
        simp only [(findMaster_ok hres).2.2.1, Bool.not_true, Bool.false_or] at h
        cases hlookup : m.mergeable.lookup master.objectMeta.name with
        | some merged =>
          refine .inr ⟨by simpa [hlookup] using h.symm, fun p hp => ?_⟩
          have hmaster := (foundMaster_eq_some hp).1
          rw [hres] at hmaster
          cases hmaster
          simp [hlookup]
        | none =>
          simp only [hlookup, isSome_none, Bool.false_eq_true, if_false] at h
          obtain ⟨res', hres', h⟩ := map_eq_some_iff.mp h
          cases res' with
          | error err => exact .inr ⟨h.symm, by simp [foundMaster, hn, hm, hres, hres']⟩
          | ok merged =>
            exact .inl ⟨(master, merged), by simp [foundMaster, hn, hm, hres, hres'], hlookup, h.symm⟩

def foundMasters (lbc : LBC) (o : Order) (s : State) (ings : List Ingress) :
    List (Ingress × MergeableIngresses) := ings.filterMap (foundMaster lbc o s)

theorem manage_run {ings m0 m} (h : ings.foldlM (manage lbc o s) m0 = some m) :
    m.ingresses = m0.ingresses ++ ings.filter (isListed lbc s) ∧
    ∀ name merged, (name, merged) ∈ m.mergeable ↔ (name, merged) ∈ m0.mergeable ∨
      (m0.mergeable.lookup name = none ∧
        ((foundMasters lbc o s ings).find? (·.1.objectMeta.name = name)).map Prod.snd = some merged) := by
  induction ings generalizing m0 with
  | nil =>
    obtain rfl := some.inj h
    simp [foundMasters]
  | cons ing ings ih =>
    obtain ⟨m1, hm1, h⟩ := bind_eq_some_iff.mp h
    obtain ⟨hings, hmerge⟩ := ih h
    simp only [hings, hmerge, foundMasters, filterMap_cons]
    obtain ⟨hlist, hfound, rfl⟩ | ⟨hlist, p, hfound, hlookup, rfl⟩ | ⟨hlist, rfl, hfound⟩ := manage_cases hm1
    · simp [hlist, hfound]
    · simp only [hlist, hfound, filter_cons, Bool.false_eq_true, if_false, true_and]
      intro name merged
      by_cases hname : p.1.objectMeta.name = name
      · subst hname
        simp [lookup_append, hlookup, eq_comm]
      · simp [lookup_append, hname, Ne.symm hname]
    · simp only [hlist, filter_cons, Bool.false_eq_true, if_false, true_and]
      intro name merged
      cases hf : foundMaster lbc o s ing with
      | none => rfl
      | some p =>
        by_cases hname : p.1.objectMeta.name = name
        · subst hname
          simp [hfound p hf]
        · simp [hname]

end managed

section reach
variable (lbc : LBC) (o : Order) (s : State)

def Reached (file : String) : Prop :=
  ∃ name, ((foundMasters lbc o s (o.list .managed s.listers.ingresses.items)).find?
    (·.1.objectMeta.name = name)).map (·.1.objectMeta.fileName) = some file

/-- Is there an ingress with this file that is accepted as a regular one? -/
def Listed (file : String) : Prop :=
  ∃ ing ∈ s.listers.ingresses.items, isListed lbc s ing = true ∧
    (createIngress lbc s.listers ing).isOk = true ∧ ing.objectMeta.fileName = file

/-- The file of an entry is written anew, under the new parameters and as what it is. -/
def Regenerated (cnf : Configurator) (config : Config) (file : String) (master : Bool) : Prop :=
  ∃ r dhparam, r.name = file ∧ r.merged = master ∧
    Configurator.IsWritten lbc.host cnf (Configurator.withDHParam config dhparam) r

/-- Nothing was generated under the new parameters before. -/
def AreNew (key : String) : Prop :=
  ∀ file g, s.cnf.generated.lookup file = some g → ∀ dhparam,
    g.config ≠ Configurator.withDHParam (newConfig lbc s key) dhparam

/-- What finds the entry again as what it is. -/
def Covered (file : String) (master : Bool) : Prop :=
  if master then Reached lbc o s file else ¬Reached lbc o s file ∧ Listed lbc s file

variable {lbc o s} {m : Managed}

/-- A master is reached if a minion of the list finds it and none before finds one with its name. -/
theorem reached_iff {file} : Reached lbc o s file ↔ ∃ pre minion post p,
    o.list .managed s.listers.ingresses.items = pre ++ minion :: post ∧ foundMaster lbc o s minion = some p ∧
    p.1.objectMeta.fileName = file ∧
    ∀ ing ∈ pre, ∀ q, foundMaster lbc o s ing = some q → q.1.objectMeta.name ≠ p.1.objectMeta.name := by
  simp only [Reached, foundMasters, find?_filterMap, map_eq_some_iff, bind_eq_some_iff, find?_eq_some_iff_append]
  constructor
  · rintro ⟨name, p, ⟨minion, ⟨hany, pre, post, hlist, hpre⟩, hfound⟩, hfile⟩
    obtain rfl : p.1.objectMeta.name = name := by simpa [hfound] using hany
    exact ⟨pre, minion, post, p, hlist, hfound, hfile, fun ing hing q hq => by simpa [hq] using hpre ing hing⟩
  · rintro ⟨pre, minion, post, p, hlist, hfound, hfile, hpre⟩
    refine ⟨p.1.objectMeta.name, p, ⟨minion, ⟨by simp [hfound], pre, post, hlist, fun ing hing => ?_⟩, hfound⟩, hfile⟩
    cases hq : foundMaster lbc o s ing with
    | none => rfl
    | some q => simpa using hpre ing hing q hq

/-- What a minion finds: the first configured master of the lister with its host, if it is accepted. -/
theorem foundMaster_iff (hrules : ∀ ing ∈ s.listers.ingresses.items, ing.rules ≠ []) {ing p}
    (hing : ing ∈ s.listers.ingresses.items) : foundMaster lbc o s ing = some p ↔
      (lbc.isNginxIngress ing && ing.isMinion) = true ∧
      (o.list (.masterOf ing.objectMeta) s.listers.ingresses.items).find? (isMasterFor lbc s.cnf ing.host) = some p.1 ∧
      createMergableIngresses lbc s.listers o p.1 = some (.ok p.2) := by
  have hfind : ∀ master, findMasterForMinion lbc s.listers o s.cnf ing = some (.ok master) ↔
      (o.list (.masterOf ing.objectMeta) s.listers.ingresses.items).find? (isMasterFor lbc s.cnf ing.host) =
        some master := by
    intro master
    rw [findMasterForMinion_eq hrules o hing]
    cases (o.list _ s.listers.ingresses.items).find? (isMasterFor lbc s.cnf ing.host) <;> simp
  rw [← hfind]
  constructor
  · intro hfound
    refine ⟨?_, foundMaster_eq_some hfound⟩
    by_contra hnot
    simp [foundMaster, hnot] at hfound
  · rintro ⟨hminion, hmaster, hmerged⟩
    rw [foundMaster, if_pos hminion, hmaster]
    simp only [hmerged]

theorem mem_mergeable_iff (hm : getManagedIngresses lbc o s = some m) (file : String) :
    (∃ merged ∈ m.mergeable.map Prod.snd, (Resource.mergeable merged).name = file) ↔ Reached lbc o s file := by
  have hrun := (manage_run hm).2
  -- what is merged has the name of its master
  have hname : ∀ p ∈ foundMasters lbc o s (o.list .managed s.listers.ingresses.items),
      (Resource.mergeable p.2).name = p.1.objectMeta.fileName := by
    intro p hp
    obtain ⟨ing, _, hfound⟩ := mem_filterMap.mp hp
    obtain ⟨rule, _, _, _, hmaster, _⟩ := createMergableIngresses_ok (foundMaster_eq_some hfound).2
    simp [Resource.name, Resource.objectMeta, hmaster, ingressEx, emptyPaths]
  constructor
  · rintro ⟨merged, hmem, hfile⟩
    obtain ⟨⟨name, merged'⟩, hmem', hmerged⟩ := mem_map.mp hmem
    subst hmerged
    obtain hnil | ⟨_, hfind⟩ := (hrun name merged').mp hmem'
    · cases hnil
    · obtain ⟨p, hp, hp2⟩ := map_eq_some_iff.mp hfind
      exact ⟨name, by rw [hp, map_some, ← hname p (mem_of_find?_eq_some hp), hp2, hfile]⟩
  · rintro ⟨name, hfind⟩
    obtain ⟨p, hp, rfl⟩ := map_eq_some_iff.mp hfind
    have hmem := (hrun name p.2).mpr (.inr ⟨rfl, by rw [hp, map_some]⟩)
    exact ⟨p.2, mem_map.mpr ⟨_, hmem, rfl⟩, hname p (mem_of_find?_eq_some hp)⟩

theorem mem_ingressExes_iff (hm : getManagedIngresses lbc o s = some m) (file : String) :
    (∃ ingEx ∈ ingressesToIngressExes lbc s m.ingresses, (Resource.ingress ingEx).name = file) ↔
      Listed lbc s file := by
  have hrun : m.ingresses = (o.list .managed s.listers.ingresses.items).filter (isListed lbc s) :=
    (manage_run hm).1
  have hmem : ∀ ing, ing ∈ m.ingresses ↔ ing ∈ s.listers.ingresses.items ∧ isListed lbc s ing = true := by
    intro ing
    rw [hrun, mem_filter, (o.perm _ _).mem_iff]
  simp only [ingressesToIngressExes, mem_filterMap, hmem, Listed]
  constructor
  · intro ⟨ingEx, ⟨ing, ⟨hing, hlisted⟩, hex⟩, hfile⟩
    cases hc : createIngress lbc s.listers ing with
    | error err => simp [hc, Except.toOption] at hex
    | ok ingEx' =>
      obtain rfl : ingEx' = ingEx := by simpa [hc, Except.toOption] using hex
      obtain ⟨_, rfl⟩ := createIngress_eq_ok.mp hc
      exact ⟨ing, hing, hlisted, by rw [hc]; rfl, hfile⟩
  · intro ⟨ing, hing, hlisted, hok, hfile⟩
    cases hc : createIngress lbc s.listers ing with
    | error err => simp [hc, Except.isOk, Except.toBool] at hok
    | ok ingEx =>
      refine ⟨ingEx, ⟨ing, ⟨hing, hlisted⟩, by simp [hc, Except.toOption]⟩, ?_⟩
      obtain ⟨_, rfl⟩ := createIngress_eq_ok.mp hc
      exact hfile

theorem Regenerated.kind {cnf config file master master'}
    (h : Regenerated lbc cnf config file master) (h' : Regenerated lbc cnf config file master') :
    master = master' := by
  obtain ⟨r, _, hname, rfl, hw⟩ := h
  obtain ⟨r', _, hname', rfl, hw'⟩ := h'
  rw [hw.unique hw' (hname.trans hname'.symm)]

theorem updateFromConfigMap_cases {key cnf'}
    (h : updateFromConfigMap lbc o s key = some (cnf', .ok ())) (hnew : AreNew lbc s key) (file : String) :
    (Reached lbc o s file ∧ Regenerated lbc cnf' (newConfig lbc s key) file true) ∨
    (¬Reached lbc o s file ∧ Listed lbc s file ∧ Regenerated lbc cnf' (newConfig lbc s key) file false) ∨
    (¬Reached lbc o s file ∧ ¬Listed lbc s file ∧
      ∀ master, ¬Regenerated lbc cnf' (newConfig lbc s key) file master) := by
  obtain ⟨m, hm, hout⟩ := map_eq_some_iff.mp h
  obtain ⟨cnf1, ⟨hgen, dhparam, hconfig⟩, hok, v, hv⟩ := Configurator.updateConfig_ok (congrArg Prod.snd hout)
  obtain rfl := (congrArg Prod.fst hout).symm.trans hv
  have hcases := Configurator.regenerateAll_resources hok file
  simp only [(o.mergeable_perm _).mem_iff, mem_mergeable_iff hm, mem_ingressExes_iff hm, hconfig] at hcases
  obtain ⟨hreached, r, hname, hmerged, hw⟩ | ⟨hreached, hlisted, r, hname, hmerged, hw⟩ |
    ⟨hreached, hlisted, hnone⟩ := hcases
  · exact .inl ⟨hreached, r, dhparam, hname, hmerged, hw.generated, hw.confd⟩
  · exact .inr (.inl ⟨hreached, hlisted, r, dhparam, hname, hmerged, hw.generated, hw.confd⟩)
  · refine .inr (.inr ⟨hreached, hlisted, fun master ⟨r, dhparam', hname, _, hw⟩ => ?_⟩)
    -- what is not written anew is what was generated before
    have hbefore := hnone.symm.trans (hname ▸ hw.generated)
    rw [hgen] at hbefore
    exact hnew file _ hbefore dhparam' rfl

theorem regenerated_iff {key cnf'}
    (h : updateFromConfigMap lbc o s key = some (cnf', .ok ())) (hnew : AreNew lbc s key) (file : String)
    (master : Bool) : Regenerated lbc cnf' (newConfig lbc s key) file master ↔ Covered lbc o s file master := by
  unfold Covered
  obtain ⟨hreached, hgen⟩ | ⟨hreached, hlisted, hgen⟩ | ⟨hreached, hlisted, hgen⟩ :=
    updateFromConfigMap_cases h hnew file
  · cases master with
    | true => simp [hreached, hgen]
    | false => simpa [hreached] using fun hgen' => Bool.noConfusion (hgen.kind hgen')
  · cases master with
    | true => simpa [hreached] using fun hgen' => Bool.noConfusion (hgen.kind hgen')
    | false => simp [hreached, hlisted, hgen]
  · simp [hreached, hlisted, hgen]

/-- A new ConfigMap reaches the entries whose ingresses are in the lister exactly if everyone of them is
covered. -/
theorem config_reaches_iff {key : String} {cnf' : Configurator}
    (h : updateFromConfigMap lbc o s key = some (cnf', .ok ())) (hnew : AreNew lbc s key) :
    (∀ file ingEx ing, s.cnf.ingresses.lookup file = some ingEx →
      s.listers.ingresses.get ingEx.ingress.objectMeta.key = some ing →
      Regenerated lbc cnf' (newConfig lbc s key) file ing.isMaster) ↔
    (∀ file ingEx ing, s.cnf.ingresses.lookup file = some ingEx →
      s.listers.ingresses.get ingEx.ingress.objectMeta.key = some ing → Covered lbc o s file ing.isMaster) := by
  simp only [regenerated_iff h hnew]

end reach

section samples

/-- A ConfigMap sets the number of connections that are kept open. -/
def keepaliveLBC : LBC :=
  { plainLBC false with parseConfigMap := fun _ _ => { newDefaultConfig with keepalive := 16 } }

def nginxConfig : ConfigMap := ⟨⟨"nginx-ingress", "nginx-config", by decide, by decide⟩, []⟩

def shopState : State :=
  { started with
    listers := { noListers with
      ingresses := .ofList [cafe [], shopMaster, shopMinion]
      configMaps := .ofList [nginxConfig] }
    cnf := { started.cnf with
      ingresses := ((∅ : Table String IngressEx).insert "default-cafe" (ingressEx keepaliveLBC noListers (cafe []))).insert
        "default-shop" (ingressEx keepaliveLBC noListers shopMaster) } }

theorem covered_shop : ∀ file ingEx ing, shopState.cnf.ingresses.lookup file = some ingEx →
    shopState.listers.ingresses.get ingEx.ingress.objectMeta.key = some ing →
    Covered keepaliveLBC .same shopState file ing.isMaster := by
  intro file ingEx ing hentry hget
  rcases Table.lookup_insert_iff.mp hentry with ⟨rfl, rfl⟩ | ⟨_, hentry⟩
  · obtain rfl : ing = shopMaster := some.inj (hget.symm.trans (by decide +kernel))
    exact ⟨"shop", by decide +kernel⟩
  · rcases Table.lookup_insert_iff.mp hentry with ⟨rfl, rfl⟩ | ⟨_, hentry⟩
    · obtain rfl : ing = cafe [] := some.inj (hget.symm.trans (by decide +kernel))
      refine ⟨fun ⟨name, hname⟩ => ?_, cafe [], by decide +kernel, by decide +kernel, by decide +kernel, rfl⟩
      have hall : (foundMasters keepaliveLBC .same shopState shopState.listers.ingresses.items).all
        (fun p => p.1.objectMeta.fileName ≠ "default-cafe") = true := by decide +kernel
      obtain ⟨p, hp, hfile⟩ := map_eq_some_iff.mp hname
      exact absurd hfile (of_decide_eq_true (all_eq_true.mp hall p (mem_of_find?_eq_some hp)))
    · simp at hentry

theorem config_reaches_shop : ∃ cnf',
    updateFromConfigMap keepaliveLBC .same shopState nginxConfig.objectMeta.key = some (cnf', .ok ()) ∧
    ∀ file ingEx ing, shopState.cnf.ingresses.lookup file = some ingEx →
      shopState.listers.ingresses.get ingEx.ingress.objectMeta.key = some ing →
      Regenerated keepaliveLBC cnf' { newDefaultConfig with keepalive := 16 } file ing.isMaster := by
  have hok : (updateFromConfigMap keepaliveLBC .same shopState nginxConfig.objectMeta.key).any
      (fun out => out.2.isOk) = true := by decide +kernel
  obtain ⟨⟨cnf', res⟩, hout, hres⟩ := (any_eq_true _ _).mp hok
  cases res with
  | error err => cases hres
  | ok u => exact ⟨cnf', hout, (config_reaches_iff hout (by intro file g hg; cases hg)).mpr covered_shop⟩

/-- Everything is added, nothing is changed or deleted. -/
def onlyAdds : Label → Bool
  | .ingress (.add _) _ | .configMap (.add _) _ | .sync _ => true
  | _ => false

def threeMasters : List Label :=
  let prod : Ingress := mergeableIngress ⟨"prod", "shop", by decide, shopMaster.objectMeta.legal_name⟩ "master" "example.com" none
  let minion : Ingress := mergeableIngress ⟨"prod", "cart", by decide, shopMinion.objectMeta.legal_name⟩ "minion" "example.com"
    (some [⟨"/cart", "cart-svc", .int 80⟩])
  let tea : Ingress := mergeableIngress ⟨"default", "tea", legal_default, by decide⟩ "master" "tea.example.com" none
  [.ingress (.add shopMaster) .same, .ingress (.add prod) .same, .ingress (.add tea) .same,
    .sync .same, .sync .same, .sync .same, .ingress (.add shopMinion) .same, .ingress (.add minion) .same,
    .sync .same, .sync .same, .sync .same, .sync .same, .configMap (.add nginxConfig) "nginx-config"]

/-- Of the two masters with one name only one is regenerated, and a master without minions is not. -/
theorem config_does_not_reach : ∃ s cnf', Run (step keepaliveLBC) (fun _ l => onlyAdds l) started s ∧
    s.queue = [⟨.configMap, nginxConfig.objectMeta.key⟩] ∧
    s.cnf.ingresses.keys = ["prod-shop", "default-shop", "default-tea"] ∧
    updateFromConfigMap keepaliveLBC .same s nginxConfig.objectMeta.key = some (cnf', .ok ()) ∧
    ∀ file ∈ ["default-shop", "default-tea"], ∀ master,
      ¬Regenerated keepaliveLBC cnf' (newConfig keepaliveLBC s nginxConfig.objectMeta.key) file master := by
  obtain ⟨s, hs, hq, hkeys, hnew, hout⟩ : ∃ s, Run (step keepaliveLBC) (fun _ l => onlyAdds l) started s ∧
      s.queue = [⟨.configMap, nginxConfig.objectMeta.key⟩] ∧
      s.cnf.ingresses.keys = ["prod-shop", "default-shop", "default-tea"] ∧
      (newConfig keepaliveLBC s nginxConfig.objectMeta.key).keepalive = 16 ∧
      (updateFromConfigMap keepaliveLBC .same s nginxConfig.objectMeta.key).any (fun out => out.2.isOk ∧
        ∀ file ∈ ["default-shop", "default-tea"],
          (out.1.generated.lookup file).map (·.config.keepalive) = some 0) = true :=
    Run.of_labels threeMasters (by decide +kernel)
  obtain ⟨⟨cnf', res⟩, hout, hold⟩ := (any_eq_true _ _).mp hout
  obtain ⟨hok, hold⟩ := of_decide_eq_true hold
  cases res with
  | error err => cases hok
  | ok u =>
    refine ⟨s, cnf', hs, hq, hkeys, hout, fun file hfile master ⟨r, dhparam, hname, _, hw⟩ => ?_⟩
    have hkeep := hold file hfile
    rw [← hname, hw.generated] at hkeep
    exact absurd (hnew.symm.trans (some.inj hkeep)) (by decide)

end samples

end KubeYamls.Nginx
