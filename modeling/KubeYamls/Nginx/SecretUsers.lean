import KubeYamls.Nginx.RuleLists

/-! # The ingresses of a secret

The sync of a secret looks for the configured ingresses that name it, and makes their
configurations again. An ingress that is rejected after it was configured stays
configured, so it is found; what `createIngress` returns for it is a nil pointer. -/
namespace KubeYamls.Nginx
open Data Conc Configurator Lister List Option

variable (lbc : LBC)

/-- An ingress of the controller that is not merged and names a secret, by a name it can have. -/
structure Exposed (ing : Ingress) : Prop where
  own : lbc.isNginxIngress ing = true
  notMaster : ing.isMaster = false
  notMinion : ing.isMinion = false
  names : (∃ tls ∈ ing.tls, isDNS1123Subdomain tls.secretName = true) ∨
    lbc.isNginxPlus = true ∧ ∃ name ∈ ing.annotated jwtKeyAnnotation, isDNS1123Subdomain name = true

instance : DecidablePred (Exposed lbc) := fun _ =>
  decidable_of_iff (_ ∧ _ ∧ _ ∧ ((∃ tls ∈ _, _) ∨ _ ∧ ∃ name ∈ _, _)) ⟨fun h => ⟨h.1, h.2.1, h.2.2.1, h.2.2.2⟩, fun h => ⟨h.1, h.2, h.3, h.4⟩⟩

/-- What is configured and names a secret is still accepted. -/
def AcceptedStill (s : State) : Prop :=
  ∀ ing ∈ s.listers.ingresses.items, Exposed lbc ing → s.cnf.hasIngress ing = true →
    (createIngress lbc s.listers ing).isOk = true

def BuiltFor (o : Order) (s : State) (ing : Ingress) (r : Resource) : Prop :=
  if ing.isMinion then ∃ master, findMasterForMinion lbc s.listers o s.cnf ing = some (.ok master) ∧
    resourceOf lbc o s master = some (.ok r)
  else resourceOf lbc o s ing = some (.ok r)

/-- No sync of a secret crashes, and `createIngresses` has an entry for everything that was found
and can be built. -/
structure SecretSyncsComplete (s : State) : Prop where
  syncs : ∀ o (m : ObjectMeta), (syncSecret lbc o s m.key).isSome = true
  entries : ∀ o (m : ObjectMeta) ings, findIngressesForSecret lbc o s m.ns m.name = some ings →
    ∃ rs, createIngresses lbc o s ings = some rs ∧ ∀ ing ∈ ings, ∀ r, BuiltFor lbc o s ing r → r ∈ rs

variable {ing : Ingress}

section entries
variable {lbc} {o : Order} {s : State} {ings : List Ingress}

theorem secretResource_of_builtFor {r} (h : BuiltFor lbc o s ing r) :
    secretResource lbc o s ing = some (some r) := by
  have hmerge : ∀ master : Ingress, master.isMaster = true → resourceOf lbc o s master = some (.ok r) →
      ((createMergableIngresses lbc s.listers o master).map fun res => res.toOption.map Resource.mergeable) =
        some (some r) := by
    intro master hmaster hres
    rw [resourceOf, if_pos hmaster] at hres
    obtain ⟨res, hm, hres⟩ := map_eq_some_iff.mp hres
    rw [hm]
    cases res with
    | error err => cases hres
    | ok m =>
      obtain rfl := Except.ok.inj hres
      rfl
  unfold BuiltFor at h
  cases hm : ing.isMinion with
  | true =>
    rw [hm, if_pos rfl] at h
    obtain ⟨master, hfound, hres⟩ := h
    have hnot : ing.isMaster = false := by
      by_contra hmaster
      rw [Ingress.not_isMinion_of_isMaster (Bool.eq_true_of_not_eq_false hmaster)] at hm
      cases hm
    simp only [secretResource, hnot, hm, Bool.false_eq_true, if_false, if_true, hfound, bind_some]
    exact hmerge master (findMaster_ok hfound).2.2.2.1 hres
  | false =>
    rw [hm, if_neg Bool.false_ne_true] at h
    cases hmaster : ing.isMaster with
    | true => simp only [secretResource, hmaster, if_true, hmerge ing hmaster h]
    | false =>
      rw [resourceOf, hmaster, if_neg Bool.false_ne_true] at h
      obtain ⟨ingEx, hex, rfl⟩ := map_eq_ok.mp (some.inj h)
      simp [secretResource, hmaster, hm, hex, Except.toOption]

theorem mem_createIngresses {rs} (h : createIngresses lbc o s ings = some rs)
    (hing : ing ∈ ings) {r} (hr : BuiltFor lbc o s ing r) : r ∈ rs := by
  obtain ⟨rs', hrs, rfl⟩ := map_eq_some_iff.mp h
  exact mem_inOrder.mpr ((mem_gather hrs).mpr ⟨ing, hing, secretResource_of_builtFor hr⟩)

theorem isOk_of_createIngresses {rs} (h : createIngresses lbc o s ings = some rs)
    (hing : ing ∈ ings) (hmaster : ing.isMaster = false) (hm : ing.isMinion = false) :
    (createIngress lbc s.listers ing).isOk = true := by
  obtain ⟨rs', hrs, -⟩ := map_eq_some_iff.mp h
  obtain ⟨res, hres⟩ := exists_of_gather hrs hing
  cases hex : createIngress lbc s.listers ing with
  | error err => simp [secretResource, hmaster, hm, hex, Except.toOption] at hres
  | ok ingEx => rfl

theorem Exposed.refersToSecret (h : Exposed lbc ing) (hconf : s.cnf.hasIngress ing = true) :
    ∃ m : ObjectMeta, Nginx.refersToSecret lbc o s m.ns m.name ing = some true := by
  simp only [refersToSecret_iff h.notMinion]
  rcases h.names with ⟨tls, htls, hlegal⟩ | ⟨hplus, name, hname, hlegal⟩
  · exact ⟨⟨_, _, ing.objectMeta.legal_ns, hlegal⟩, rfl, h.own, hconf, .inl ⟨tls, htls, rfl⟩⟩
  · exact ⟨⟨_, _, ing.objectMeta.legal_ns, hlegal⟩, rfl, h.own, hconf, .inr ⟨hplus, hname⟩⟩

theorem exposed_of_refersToSecret {m : ObjectMeta} (hmaster : ing.isMaster = false)
    (hm : ing.isMinion = false) (h : Nginx.refersToSecret lbc o s m.ns m.name ing = some true) :
    Exposed lbc ing := by
  obtain ⟨-, hown, -, ⟨tls, htls, hname⟩ | ⟨hplus, hjwt⟩⟩ := (refersToSecret_iff hm).mp h
  · exact ⟨hown, hmaster, hm, .inl ⟨tls, htls, hname ▸ m.legal_name⟩⟩
  · exact ⟨hown, hmaster, hm, .inr ⟨hplus, m.name, hjwt, m.legal_name⟩⟩

/-- Where nothing is indexed out of range, the syncs of secrets are complete exactly if everything
that is configured and names a secret is still accepted. -/
theorem secretSyncsComplete_iff (h : HaveRules lbc s.listers.ingresses) :
    SecretSyncsComplete lbc s ↔ AcceptedStill lbc s := by
  constructor
  · intro hsync ing hing hexposed hconf
    obtain ⟨m, href⟩ := hexposed.refersToSecret (o := .same) hconf
    obtain ⟨ings, hfound⟩ := isSome_iff_exists.mp (findIngressesForSecret_isSome h .same m.ns m.name)
    obtain ⟨rs, hrs, -⟩ := hsync.entries .same m ings hfound
    exact isOk_of_createIngresses hrs ((mem_findIngressesForSecret hfound).mpr ⟨hing, href⟩)
      hexposed.notMaster hexposed.notMinion
  · intro hacc
    have hok : ∀ o (m : ObjectMeta) ings, findIngressesForSecret lbc o s m.ns m.name = some ings → ∀ ing ∈ ings,
        ing.isMaster = false → ing.isMinion = false → (createIngress lbc s.listers ing).isOk = true := by
      intro o m ings hfound ing hing hmaster hm
      obtain ⟨hmem, href⟩ := (mem_findIngressesForSecret hfound).mp hing
      exact hacc ing hmem (exposed_of_refersToSecret hmaster hm href) ((refersToSecret_iff hm).mp href).2.2.1
    refine ⟨fun o m => syncSecret_isSome h o m.key fun ns name ings hkey hfound => ?_, fun o m ings hfound => ?_⟩
    · obtain ⟨rfl, rfl⟩ := Prod.mk.inj (some.inj ((parseNamespaceName_key m).symm.trans hkey))
      exact hok o m ings hfound
    · obtain ⟨rs, hrs⟩ := isSome_iff_exists.mp (createIngresses_isSome h o hfound (hok o m ings hfound) s.cnf)
      exact ⟨rs, hrs, fun ing hing r hr => mem_createIngresses hrs hing hr⟩

end entries

/-! ## Which events keep it so -/

/-- An event about an ingress or a secret, or a move of the worker. -/
def IngressOrSecret : Label → Prop
  | .ingress _ _ | .secret _ | .sync _ | .wake _ => True
  | _ => False

instance : DecidablePred IngressOrSecret
  | .ingress _ _ | .secret _ | .sync _ | .wake _ => .isTrue trivial
  | .service _ _ | .endpoints _ | .configMap _ _ => .isFalse id

/-- An ingress that comes shares its file name with no other, and is not configured if it is one
that names a secret and is not accepted. -/
def KeepsAccepted (s : State) : Label → Prop
  | .ingress c _ => ∀ ing ∈ c.entering.toList,
      (∀ other ∈ s.listers.ingresses.items, other.objectMeta.fileName = ing.objectMeta.fileName →
        other.objectMeta = ing.objectMeta) ∧
      (Exposed lbc ing → (validateRules ing.rules).isOk = false → s.cnf.hasIngress ing = false)
  | _ => True

instance (s : State) : DecidablePred (KeepsAccepted lbc s)
  | .ingress _ _ => inferInstanceAs (Decidable (∀ ing ∈ _, (∀ other ∈ _, _ → _) ∧ (_ → _ → _)))
  | .service _ _ | .endpoints _ | .secret _ | .configMap _ _ | .sync _ | .wake _ => .isTrue trivial

structure KeepingUp (s : State) : Prop where
  kinds : s.OnlyKinds [.ingress, .ingressMinion, .secret]
  names : ∀ ing ∈ s.listers.ingresses.items, ∀ ing' ∈ s.listers.ingresses.items,
    ing.objectMeta.fileName = ing'.objectMeta.fileName → ing = ing'
  accepted : ∀ ing ∈ s.listers.ingresses.items, Exposed lbc ing → s.cnf.hasIngress ing = true →
    validateRules ing.rules = .ok ()

namespace KeepingUp
variable {lbc} {s s' : State} {o : Order}

theorem acceptedStill (h : KeepingUp lbc s) : AcceptedStill lbc s := by
  intro ing hing hexposed hconf
  simp [createIngress, h.accepted ing hing hexposed hconf, Except.map, Except.isOk, Except.toBool]

theorem of_empty (hitems : s.listers.ingresses.items = []) (hq : s.queue = []) (hd : s.delayed = []) :
    KeepingUp lbc s where
  kinds := .of_nil hq hd
  names ing hing := by simp [hitems] at hing
  accepted ing hing := by simp [hitems] at hing

section
variable (h : KeepingUp lbc s)
include h

theorem tasks (hing : s'.listers.ingresses = s.listers.ingresses) (hcnf : s'.cnf = s.cnf)
    (hkinds : s'.OnlyKinds [.ingress, .ingressMinion, .secret]) : KeepingUp lbc s' where
  kinds := hkinds
  names := hing ▸ h.names
  accepted := by
    rw [hing, hcnf]
    exact h.accepted

theorem enqueue {t} (ht : t.kind ∈ [Kind.ingress, .ingressMinion, .secret]) : KeepingUp lbc (s.enqueue t) :=
  h.tasks (by rw [State.enqueue_listers]) (State.enqueue_cnf s t) (State.OnlyTasks.enqueue h.kinds ht)

theorem enqueue_task (ing : Ingress) : KeepingUp lbc (s.enqueue ing.task) :=
  h.enqueue (by
    have hkind := Merging.kind_task ing
    simp only [mem_cons, not_mem_nil, or_false] at hkind ⊢
    tauto)

theorem requeueAfter {t} (ht : t.kind ∈ [Kind.ingress, .ingressMinion, .secret]) :
    KeepingUp lbc (s.requeueAfter t) :=
  h.tasks rfl rfl (State.OnlyTasks.requeueAfter h.kinds ht)

theorem configure {cnf} (hcnf : ∀ ing ∈ s.listers.ingresses.items, Exposed lbc ing → cnf.hasIngress ing = true →
      validateRules ing.rules = .ok ()) : KeepingUp lbc { s with cnf := cnf } :=
  ⟨h.kinds, h.names, hcnf⟩

theorem put (hname : ∀ other ∈ s.listers.ingresses.items, other.objectMeta.fileName = ing.objectMeta.fileName →
      other.objectMeta = ing.objectMeta)
    (hing : Exposed lbc ing → (validateRules ing.rules).isOk = false → s.cnf.hasIngress ing = false) :
    KeepingUp lbc (s.withIngresses (s.listers.ingresses.put ing)) where
  kinds := h.kinds
  names a ha b hb hab := by
    rcases mem_put.mp ha with rfl | ⟨hkey, ha'⟩
    · rcases mem_put.mp hb with rfl | ⟨hkey', hb'⟩
      · rfl
      · exact absurd (congrArg ObjectMeta.key (hname b hb' hab.symm)) hkey'
    · rcases mem_put.mp hb with rfl | ⟨hkey', hb'⟩
      · exact absurd (congrArg ObjectMeta.key (hname a ha' hab)) hkey
      · exact h.names a ha' b hb' hab
  accepted a ha hexposed hconf := by
    rcases mem_put.mp ha with rfl | ⟨_, ha'⟩
    · cases hrules : validateRules a.rules with
      | ok u => rfl
      | error err =>
        rw [State.withIngresses_cnf, hing hexposed (by rw [hrules]; rfl)] at hconf
        cases hconf
    · exact h.accepted a ha' hexposed hconf

theorem remove (m : ObjectMeta) : KeepingUp lbc (s.withIngresses (s.listers.ingresses.remove m)) where
  kinds := h.kinds
  names a ha b hb := h.names a (mem_remove.mp ha).2 b (mem_remove.mp hb).2
  accepted a ha := h.accepted a (mem_remove.mp ha).2

theorem regenerate (hing : ing ∈ s.listers.ingresses.items) {r}
    (hr : ∃ o' cnf, resourceOf lbc o' { s with cnf := cnf } ing = some (.ok r)) {cnf : Configurator}
    (hcnf : ∀ a ∈ s.listers.ingresses.items, Exposed lbc a → cnf.hasIngress a = true → validateRules a.rules = .ok ()) :
    ∀ a ∈ s.listers.ingresses.items, Exposed lbc a → (cnf.regenerate lbc.host r).1.hasIngress a = true →
      validateRules a.rules = .ok () := by
  intro a ha hexposed hconf
  obtain ⟨o', cnf', hr⟩ := hr
  have hname : r.name = ing.objectMeta.fileName := congrArg ObjectMeta.fileName (resourceOf_objectMeta hr)
  by_cases hsame : a.objectMeta.fileName = r.name
  · obtain rfl := h.names a ha ing hing (hsame.trans hname)
    rw [resourceOf, hexposed.notMaster, if_neg Bool.false_ne_true] at hr
    obtain ⟨ingEx, hex, -⟩ := map_eq_ok.mp (some.inj hr)
    exact (createIngress_eq_ok.mp hex).1
  · rw [regenerate_hasIngress hsame] at hconf
    exact hcnf a ha hexposed hconf

theorem syncIng {key} (hs : Nginx.syncIng lbc o s key = some s') : KeepingUp lbc s' := by
  obtain ⟨_, v, rfl⟩ | ⟨ing, hget, ⟨r, v, hr, rfl⟩ | ⟨err, _, rfl⟩⟩ := syncIng_cases hs
  · exact h.configure fun a ha hexposed hconf =>
      h.accepted a ha hexposed (hasIngress_of_forget hconf).2
  · have hing : ing ∈ s.listers.ingresses.items :=
      mem_items.mpr (s.listers.ingresses.keyed _ _ hget ▸ hget)
    exact h.configure (h.regenerate hing ⟨o, s.cnf, hr⟩ h.accepted)
  · split
    · exact h.requeueAfter (by simp)
    · exact h

theorem syncIngMinion {key} (hs : Nginx.syncIngMinion lbc o s key = some s') : KeepingUp lbc s' :=
  syncIngMinion_keeps hs h (h.requeueAfter (by simp)) fun _ _ master _ _ ht => ht.enqueue_task master

theorem regenerateAll {cnf} {ings : List Ingress} {rs} (hings : ∀ ing ∈ ings, ing ∈ s.listers.ingresses.items)
    (hrs : createIngresses lbc o { s with cnf := cnf } ings = some rs) (cnf' : Configurator)
    (hcnf : cnf'.ingresses = s.cnf.ingresses) {describe} : ∀ a ∈ s.listers.ingresses.items, Exposed lbc a →
      (regenerateAll lbc.host describe cnf' rs).1.hasIngress a = true → validateRules a.rules = .ok () := by
  refine regenerateAll_keeps (I := fun cnf => ∀ a ∈ s.listers.ingresses.items, Exposed lbc a →
    cnf.hasIngress a = true → validateRules a.rules = .ok ()) ?_ fun cnf1 r hr hcnf1 => ?_
  · intro a ha hexposed hconf
    rw [hasIngress, hcnf] at hconf
    exact h.accepted a ha hexposed hconf
  · obtain ⟨rs', hgather, rfl⟩ := map_eq_some_iff.mp hrs
    obtain ⟨ing, hing, hres⟩ := (mem_gather hgather).mp (mem_inOrder.mp hr)
    -- the ingress itself, or the master of a minion
    have hmade : ∀ ing' (res : Except String Resource), resourceOf lbc o { s with cnf := cnf } ing' = some res →
        some r = res.toOption → ∃ o' cnf, resourceOf lbc o' { s with cnf := cnf } ing' = some (.ok r) := by
      intro ing' res hres he
      cases res with
      | error err => cases he
      | ok r' =>
        obtain rfl := some.inj he
        exact ⟨o, cnf, hres⟩
    rcases secretResource_cases hres with ⟨-, res, hres, he⟩ | ⟨-, he | ⟨master, res, hfound, hres, he⟩⟩
    · exact h.regenerate (hings ing hing) (hmade ing res hres he) hcnf1
    · cases he
    · exact h.regenerate ((o.perm _ _).mem_iff.mp (findMaster_ok hfound).1) (hmade master res hres he) hcnf1

theorem syncSecret {key} (hs : Nginx.syncSecret lbc o s key = some s') : KeepingUp lbc s' := by
  obtain ⟨_, he⟩ | ⟨ns, name, ings, cnf, _, hfound, hcnf, hrest⟩ := syncSecret_cases hs
  · exact he ▸ h
  have hings : ∀ ing ∈ ings, ing ∈ s.listers.ingresses.items := fun ing hing =>
    ((mem_findIngressesForSecret hfound).mp hing).1
  have hsame : cnf.ingresses = s.cnf.ingresses := by
    rcases hcnf with rfl | ⟨secret, rfl⟩
    · rfl
    · rfl
  obtain ⟨_, rfl⟩ | ⟨rs, hrs, rfl | ⟨secret, _, rfl⟩⟩ := hrest
  · refine h.configure fun a ha hexposed hconf => h.accepted a ha hexposed ?_
    rwa [hasIngress, hsame] at hconf
  · obtain ⟨v, hv⟩ := deleteSecret_same lbc.host cnf key rs
    rw [hv]
    exact h.configure (h.regenerateAll hings hrs (cnf.removeSecretFile (keyToFileName key)) hsame)
  · by_cases hjwk : lbc.host.isPlus ∧ (getSecretKind secret).1 = .jwk
    · rw [addOrUpdateSecret, if_pos hjwk]
      refine h.configure fun a ha hexposed hconf => h.accepted a ha hexposed ?_
      rwa [hasIngress, show (cnf.writeSecrets lbc.host [secret]).ingresses = cnf.ingresses from rfl,
        hsame] at hconf
    · obtain ⟨v, hv⟩ := addOrUpdateSecret_same cnf rs hjwk
      rw [hv]
      exact h.configure (h.regenerateAll hings hrs (cnf.writeSecrets lbc.host [secret]) hsame)

theorem sync {t} (ht : t.kind ∈ [Kind.ingress, .ingressMinion, .secret])
    (hs : Nginx.sync lbc o s t = some s') : KeepingUp lbc s' := by
  obtain ⟨kind, key⟩ := t
  cases kind with
  | ingress => exact h.syncIng hs
  | ingressMinion => exact h.syncIngMinion hs
  | secret => exact h.syncSecret hs
  | endpoints | configMap | service => simp at ht

theorem ingress {c} (hC : KeepsAccepted lbc s (.ingress c o))
    (hs : Nginx.step lbc (.ingress c o) s = some s') : KeepingUp lbc s' := by
  have hput : ∀ ing ∈ c.entering.toList, KeepingUp lbc (s.withIngresses (s.listers.ingresses.put ing)) :=
    fun ing hing => h.put (hC ing hing).1 (hC ing hing).2
  obtain ⟨ing, rfl, _, rfl⟩ | ⟨ing, others, old, rfl, _, rfl⟩ | ⟨m, unknown, old, rfl, _, hs⟩ := step_ingress_cases hs
  · have hing := hput ing (by simp [Change.entering])
    split
    · exact hing.enqueue_task ing
    · exact hing
  · have hing := hput ing (by simp [Change.entering])
    split
    · exact hing.enqueue_task ing
    · exact hing
  · have hrest := h.remove m
    obtain ⟨_, he⟩ | ⟨_, _, ⟨err, _, he⟩ | ⟨master, _, rfl⟩⟩ | ⟨_, _, rfl⟩ := ingressHandler_delete hs
    · exact he ▸ hrest
    · exact he ▸ hrest
    · exact hrest.enqueue_task master
    · split
      · exact hrest
      · exact hrest.enqueue_task old

theorem step {l} (hl : IngressOrSecret l) (hC : KeepsAccepted lbc s l)
    (hs : Nginx.step lbc l s = some s') : KeepingUp lbc s' := by
  cases l with
  | ingress c o => exact h.ingress hC hs
  | secret c =>
    obtain ⟨r, _, rfl⟩ := map_eq_some_iff.mp hs
    have hsecrets : KeepingUp lbc (s.withSecrets r.2) := ⟨h.kinds, h.names, h.accepted⟩
    unfold secretHandler selfHandler
    split
    · exact hsecrets.enqueue (by simp)
    · exact hsecrets
  | sync o =>
    obtain ⟨t, ts, hq, hs⟩ := step_sync_cases hs
    have htail : KeepingUp lbc { s with queue := ts } :=
      h.tasks rfl rfl (State.OnlyTasks.tail h.kinds hq)
    exact htail.sync (State.OnlyTasks.head h.kinds hq) hs
  | wake t =>
    obtain ⟨hd, rfl⟩ := step_wake_cases hs
    exact h.tasks (by simp) (by simp) (State.OnlyTasks.wake h.kinds hd)
  | service _ _ | endpoints _ | configMap _ _ => exact hl.elim

end

end KeepingUp

/-- As long as masters and minions come with rules, the syncs of secrets are complete in a state
exactly if every configured ingress that names a secret is still accepted there. That is so if no
ingress shares its file name with another and none that is configured comes in a form that is
rejected. -/
theorem secret_syncs_complete_iff (lbc : LBC) {s0 s : State} (h0 : s0.listers.ingresses.items = [])
    (hq : s0.queue = []) (hd : s0.delayed = [])
    (h : Run (step lbc) (fun s l => IngressOrSecret l ∧ ComesWithRules lbc s l) s0 s) :
    (SecretSyncsComplete lbc s ↔ AcceptedStill lbc s) ∧
    (Run (step lbc) (fun s l => IngressOrSecret l ∧ KeepsAccepted lbc s l) s0 s → AcceptedStill lbc s) := by
  have hruled := h.keeps (I := Ruled lbc) ⟨fun ing hing => by simp [h0] at hing, .of_nil hq hd⟩
    fun _ _ _ ht hC hs => ht.step hC.2 hs
  refine ⟨secretSyncsComplete_iff hruled.haveRules, fun hrun => KeepingUp.acceptedStill ?_⟩
  exact hrun.keeps (KeepingUp.of_empty h0 hq hd) fun _ _ _ ht hC hs => ht.step hC.1 hC.2 hs

section samples

/-- The ingress "default/cafe" with a certificate, but for no host. -/
def hostlessCafe : Ingress := { tlsCafe with rules := [⟨"", some [⟨"/coffee", "coffee-svc", .int 80⟩]⟩] }

theorem secret_syncs_complete_cafe : ∃ s, s.cnf.hasIngress tlsCafe = true ∧ (certificates false s).length = 1 ∧
    SecretSyncsComplete (plainLBC false) s := by
  obtain ⟨s, hs, hconf, hcert⟩ : ∃ s, Run (step (plainLBC false)) (fun s l =>
      (IngressOrSecret l ∧ ComesWithRules (plainLBC false) s l) ∧ KeepsAccepted (plainLBC false) s l) started s ∧
      s.cnf.hasIngress tlsCafe = true ∧ (certificates false s).length = 1 :=
    Run.of_labels [.ingress (.add hostlessCafe) .same, .sync .same, .ingress (.update tlsCafe false) .same,
      .secret (.add (cafeSecret (tlsData 1 2))), .sync .same, .sync .same] (by decide +kernel)
  obtain ⟨hiff, hkeeps⟩ := secret_syncs_complete_iff (plainLBC false) rfl rfl rfl (hs.mono fun _ _ hC => hC.1)
  exact ⟨s, hconf, hcert, hiff.mpr (hkeeps (hs.mono fun _ _ hC => ⟨hC.1.1, hC.2⟩))⟩

/-- An ingress is configured, and then its host is taken away. It stays configured, and the secret
it names is synced. -/
theorem rejected_ingress_of_secret :
    ∃ s, Run (step (plainLBC false)) (fun s l => IngressOrSecret l ∧ ComesWithRules (plainLBC false) s l) started s ∧
      s.queue = [⟨.secret, "default/cafe-secret"⟩] ∧
      findIngressesForSecret (plainLBC false) .same s "default" "cafe-secret" = some [hostlessCafe] ∧
      (createIngress (plainLBC false) s.listers hostlessCafe).isOk = false ∧
      createIngresses (plainLBC false) .same s [hostlessCafe] = none ∧
      step (plainLBC false) (.sync .same) s = none ∧ ¬SecretSyncsComplete (plainLBC false) s := by
  obtain ⟨s, hs, hq, hfound, hno, hcreate, hstep⟩ : ∃ s, Run (step (plainLBC false))
      (fun s l => IngressOrSecret l ∧ ComesWithRules (plainLBC false) s l) started s ∧
      s.queue = [⟨.secret, "default/cafe-secret"⟩] ∧
      findIngressesForSecret (plainLBC false) .same s "default" "cafe-secret" = some [hostlessCafe] ∧
      (createIngress (plainLBC false) s.listers hostlessCafe).isOk = false ∧
      createIngresses (plainLBC false) .same s [hostlessCafe] = none ∧ step (plainLBC false) (.sync .same) s = none :=
    Run.of_labels [.ingress (.add tlsCafe) .same, .sync .same, .ingress (.update hostlessCafe false) .same,
      .sync .same, .secret (.add (cafeSecret (tlsData 1 2)))] (by decide +kernel)
  refine ⟨s, hs, hq, hfound, hno, hcreate, hstep, fun hcomplete => ?_⟩
  obtain ⟨rs, hrs, -⟩ := hcomplete.entries .same (cafeSecret []).objectMeta _ hfound
  rw [hcreate] at hrs
  cases hrs

end samples

end KubeYamls.Nginx
