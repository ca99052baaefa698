import KubeYamls.Nginx.Events

/-! # The status that is reported

The controller reports one list of addresses as the status of all ingresses. It
comes from the ConfigMap, if that has an address for it, or else from the one
service in front of the controller. The `StatusUpdater` remembers both and
computes the list anew when either is synced. Other tasks of the queue leave it
alone. -/
namespace KubeYamls.Nginx
open Data Conc List Option

structure LoadBalancerIngress where
  ip : String := ""
  hostname : String := ""
deriving DecidableEq

structure ExposedService extends Service where
  loadBalancer : List LoadBalancerIngress
  externalIPs : List String
deriving DecidableEq

def ExposedService.metaOf (svc : ExposedService) : ObjectMeta := svc.objectMeta

def getExternalServiceAddress : Option ExposedService → List String
  | none => []
  | some svc =>
    if svc.type = .externalName then [svc.externalName]
    else (svc.loadBalancer.map fun ip => if ip.ip = "" then ip.hostname else ip.ip) ++ svc.externalIPs

structure StatusUpdater where
  externalStatusAddress : String := ""
  externalServiceAddresses : List String := []
  status : List LoadBalancerIngress := []

/-- The status for some addresses. What `net.ParseIP` does not take is a host name. -/
def statusFor (isIP : String → Bool) (ips : List String) : List LoadBalancerIngress :=
  ips.map fun ip => if isIP ip then { ip := ip } else { hostname := ip }

namespace StatusUpdater
variable (isIP : String → Bool) (su : StatusUpdater)

def saveStatus (ips : List String) : StatusUpdater := { su with status := statusFor isIP ips }

def saveStatusFromExternalStatus (externalStatusAddress : String) : StatusUpdater :=
  let su := { su with externalStatusAddress := externalStatusAddress }
  -- an address that was removed falls back on the service
  if externalStatusAddress = "" ∧ 0 < su.externalServiceAddresses.length then
    su.saveStatus isIP su.externalServiceAddresses
  else su.saveStatus isIP [externalStatusAddress]

def saveStatusFromExternalService (svc : Option ExposedService) : StatusUpdater :=
  let ips := getExternalServiceAddress svc
  let su := { su with externalServiceAddresses := ips }
  if su.externalStatusAddress ≠ "" then su else su.saveStatus isIP ips

def clearStatusFromExternalService : StatusUpdater := su.saveStatusFromExternalService isIP none

/-- The addresses that should be reported, going by what is remembered. -/
def reported : List String :=
  if su.externalStatusAddress = "" then su.externalServiceAddresses else [su.externalStatusAddress]

section effects
variable {isIP su} {address : String} {svc : Option ExposedService}

@[simp] theorem saveStatusFromExternalStatus_address :
    (su.saveStatusFromExternalStatus isIP address).externalStatusAddress = address := by
  simp only [saveStatusFromExternalStatus, saveStatus]
  split <;> rfl

@[simp] theorem saveStatusFromExternalStatus_addresses :
    (su.saveStatusFromExternalStatus isIP address).externalServiceAddresses = su.externalServiceAddresses := by
  simp only [saveStatusFromExternalStatus, saveStatus]
  split <;> rfl

@[simp] theorem saveStatusFromExternalService_address :
    (su.saveStatusFromExternalService isIP svc).externalStatusAddress = su.externalStatusAddress := by
  simp only [saveStatusFromExternalService, saveStatus]
  split <;> rfl

@[simp] theorem saveStatusFromExternalService_addresses :
    (su.saveStatusFromExternalService isIP svc).externalServiceAddresses = getExternalServiceAddress svc := by
  simp only [saveStatusFromExternalService, saveStatus]
  split <;> rfl

theorem saveStatusFromExternalStatus_status (h : address = "" → su.externalServiceAddresses ≠ []) :
    (su.saveStatusFromExternalStatus isIP address).status =
      statusFor isIP (su.saveStatusFromExternalStatus isIP address).reported := by
  rw [reported, saveStatusFromExternalStatus_address, saveStatusFromExternalStatus_addresses]
  by_cases ha : address = ""
  · have hlen : 0 < su.externalServiceAddresses.length := length_pos_iff.mpr (h ha)
    rw [if_pos ha, saveStatusFromExternalStatus, if_pos ⟨ha, hlen⟩]
    rfl
  · rw [if_neg ha, saveStatusFromExternalStatus, if_neg fun hand => ha hand.1]
    rfl

theorem saveStatusFromExternalService_status
    (h : su.externalStatusAddress ≠ "" → su.status = statusFor isIP su.reported) :
    (su.saveStatusFromExternalService isIP svc).status =
      statusFor isIP (su.saveStatusFromExternalService isIP svc).reported := by
  rw [reported, saveStatusFromExternalService_address, saveStatusFromExternalService_addresses]
  by_cases ha : su.externalStatusAddress = ""
  · rw [if_pos ha, saveStatusFromExternalService, if_neg (not_not_intro ha)]
    rfl
  · have hstatus := h ha
    rw [reported, if_neg ha] at hstatus
    rw [if_neg ha, saveStatusFromExternalService, if_pos ha]
    exact hstatus

end effects

end StatusUpdater

/-- `external-status-address`, which is empty where it is missing. -/
def ConfigMap.externalStatusAddress (cfgm : ConfigMap) : String :=
  (cfgm.data.lookup "external-status-address").getD ""

/-- What is watched for the status, the tasks that wait, and what is remembered. -/
structure StatusState where
  configMaps : Lister ConfigMap ConfigMap.objectMeta := ∅
  services : Lister ExposedService ExposedService.metaOf := ∅
  queue : List Task := []
  updater : StatusUpdater := {}

namespace StatusState

/-- A task that is queued already is not queued again. -/
def enqueueIf (s : StatusState) (queued : Bool) (t : Task) : StatusState :=
  if queued && t ∉ s.queue then { s with queue := s.queue ++ [t] } else s

section enqueueIf
variable (s : StatusState) (queued : Bool) (t : Task)

@[simp] theorem enqueueIf_configMaps : (s.enqueueIf queued t).configMaps = s.configMaps := by
  unfold enqueueIf
  split <;> rfl

@[simp] theorem enqueueIf_services : (s.enqueueIf queued t).services = s.services := by
  unfold enqueueIf
  split <;> rfl

@[simp] theorem enqueueIf_updater : (s.enqueueIf queued t).updater = s.updater := by
  unfold enqueueIf
  split <;> rfl

@[simp] theorem mem_enqueueIf {t'} :
    t' ∈ (s.enqueueIf queued t).queue ↔ t' ∈ s.queue ∨ queued = true ∧ t' = t := by
  by_cases h : t ∈ s.queue
  · rw [enqueueIf, if_neg (by simp [h])]
    exact ⟨.inl, fun h' => h'.elim id fun he => he.2 ▸ h⟩
  · cases queued <;> simp [enqueueIf, h]

end enqueueIf

end StatusState

inductive StatusLabel where
  | configMap (c : Change ConfigMap)
  | service (c : Change ExposedService)
  /-- Another handler queues a task for another kind of object. -/
  | other (t : Task)
  /-- The worker syncs the next task. -/
  | sync

section machine
variable (isIP : String → Bool) (lbc : LBC) (watched : ObjectMeta)

/-- The part of `syncConfig` that has to do with the status. -/
def StatusState.syncConfig (s : StatusState) (key : String) : StatusState :=
  match s.configMaps.get key with
  | none => s
  | some cfgm =>
    { s with updater := s.updater.saveStatusFromExternalStatus isIP cfgm.externalStatusAddress }

def StatusState.syncExternalService (s : StatusState) (key : String) : StatusState :=
  match s.services.get key with
  | none => { s with updater := s.updater.clearStatusFromExternalService isIP }
  | some svc => { s with updater := s.updater.saveStatusFromExternalService isIP (some svc) }

/-- When the handlers for services queue a task for the service itself. They take the service out
of a `DeletedFinalStateUnknown`. -/
def serviceEnqueues (old : Option ExposedService) : Change ExposedService → Bool
  | .add svc => lbc.isExternalServiceForStatus svc.toService
  | .update cur others => (others || old ≠ some cur) && lbc.isExternalServiceForStatus cur.toService
  | .delete _ _ => old.any fun svc => lbc.isExternalServiceForStatus svc.toService

/-- One step. Only ConfigMaps in the namespace of the one of the flags are watched. -/
def statusStep : StatusLabel → StatusState → Option StatusState
  | .configMap c, s =>
    let m := c.objectMeta ConfigMap.objectMeta
    if m.ns = watched.ns then
      (c.apply s.configMaps).map fun r =>
        StatusState.enqueueIf { s with configMaps := r.2 }
          (enqueues (fun cfgm : ConfigMap => cfgm.objectMeta.name = watched.name) r.1 c) ⟨.configMap, m.key⟩
    else none
  | .service c, s =>
    (c.apply s.services).map fun r =>
      StatusState.enqueueIf { s with services := r.2 } (serviceEnqueues lbc r.1 c)
        ⟨.service, (c.objectMeta ExposedService.metaOf).key⟩
  | .other t, s => if t.kind = .configMap ∨ t.kind = .service then none else some (s.enqueueIf true t)
  | .sync, s =>
    match s.queue with
    | [] => none
    | t :: ts =>
      let s := { s with queue := ts }
      match t.kind with
      | .configMap => some (s.syncConfig isIP t.key)
      | .service => some (s.syncExternalService isIP t.key)
      | _ => some s

end machine

section invariant
variable (isIP : String → Bool) (lbc : LBC) (watched : ObjectMeta)

def LBC.externalServiceKey : String := lbc.controllerNamespace ++ "/" ++ lbc.externalServiceName

theorem LBC.isExternalServiceForStatus_iff {svc} :
    lbc.isExternalServiceForStatus svc = true ↔ svc.objectMeta.key = lbc.externalServiceKey := by
  rw [externalServiceKey, ObjectMeta.key_eq_iff]
  simp only [isExternalServiceForStatus, Bool.and_eq_true, decide_eq_true_eq]
  exact and_congr eq_comm eq_comm

namespace StatusState
variable (s : StatusState)

/-- The address of the current ConfigMap, empty if there is none. -/
def currentAddress : String := ((s.configMaps.get watched.key).map ConfigMap.externalStatusAddress).getD ""

def currentServiceAddresses : List String := getExternalServiceAddress (s.services.get lbc.externalServiceKey)

def wanted : List LoadBalancerIngress :=
  statusFor isIP (if s.currentAddress watched = "" then s.currentServiceAddresses lbc else [s.currentAddress watched])

/-- Nothing about the two objects waits to be synced. -/
def Settled : Prop := ∀ t ∈ s.queue, t.kind ≠ .configMap ∧ t.kind ≠ .service

instance : Decidable s.Settled := inferInstanceAs (Decidable (∀ t ∈ s.queue, _))

def configMapWaits : Prop := (⟨.configMap, watched.key⟩ : Task) ∈ s.queue

def serviceWaits : Prop := (⟨.service, lbc.externalServiceKey⟩ : Task) ∈ s.queue

/-- What is remembered is current, or a task will see to it. The status may be wrong for as long
as the service waits. -/
structure Remembers : Prop where
  tasks : ∀ t ∈ s.queue, (t.kind = .configMap → t.key = watched.key) ∧
    (t.kind = .service → t.key = lbc.externalServiceKey)
  address : ¬s.configMapWaits watched → s.updater.externalStatusAddress = s.currentAddress watched
  service : ¬s.serviceWaits lbc → s.updater.externalServiceAddresses = s.currentServiceAddresses lbc
  status : s.updater.status = statusFor isIP s.updater.reported ∨
    s.updater.externalStatusAddress = "" ∧ s.serviceWaits lbc

end StatusState

/-- The steps the status follows. A deletion of the ConfigMap must not leave an address behind: the
watch may not miss it, and the ConfigMap may not be gone when it is synced. A ConfigMap without an
address needs addresses to fall back on, or the service still has to be synced. -/
def StatusFollows (s : StatusState) : StatusLabel → Prop
  | .configMap (.delete m unknown) =>
    unknown = true → m.key = watched.key → s.updater.externalStatusAddress = ""
  | .sync => ∀ t ∈ s.queue.head?, t.kind = .configMap →
    (s.configMaps.get t.key = none → s.updater.externalStatusAddress = "") ∧
    ∀ cfgm ∈ s.configMaps.get t.key, cfgm.externalStatusAddress = "" →
      s.updater.externalServiceAddresses ≠ [] ∨ s.serviceWaits lbc
  | _ => True

instance (s : StatusState) : DecidablePred (StatusFollows lbc watched s)
  | .configMap (.add _) | .configMap (.update _ _) | .service _ | .other _ => inferInstanceAs (Decidable True)
  | .configMap (.delete m unknown) =>
    inferInstanceAs (Decidable (unknown = true → m.key = watched.key → s.updater.externalStatusAddress = ""))
  | .sync => inferInstanceAs (Decidable (∀ t ∈ s.queue.head?, t.kind = .configMap →
      (s.configMaps.get t.key = none → s.updater.externalStatusAddress = "") ∧
      ∀ cfgm ∈ s.configMaps.get t.key, cfgm.externalStatusAddress = "" →
        s.updater.externalServiceAddresses ≠ [] ∨ (⟨.service, lbc.externalServiceKey⟩ : Task) ∈ s.queue))

variable {isIP lbc watched}

variable {c : Change ExposedService}
  {r : Option ExposedService × Lister ExposedService ExposedService.metaOf}

theorem same_of_not_serviceEnqueues {l} (h : c.apply l = some r) (hq : serviceEnqueues lbc r.1 c = false)
    (hkey : (c.objectMeta ExposedService.metaOf).key = lbc.externalServiceKey) (key : String) :
    r.2.get key = l.get key := by
  have hext : ∀ svc : ExposedService, svc.metaOf.key = lbc.externalServiceKey →
      lbc.isExternalServiceForStatus svc.toService = true :=
    fun svc hsvc => lbc.isExternalServiceForStatus_iff.mpr hsvc
  cases c with
  | add svc => exact absurd ((hext svc hkey).symm.trans hq) (by simp)
  | update cur others =>
    refine apply_update_same h ?_ key
    by_contra hne
    simp [serviceEnqueues, hext cur hkey, hne] at hq
  | delete m unknown =>
    obtain ⟨old, hold, rfl⟩ := apply_delete h
    simp [serviceEnqueues, hext old ((l.keyed _ _ hold).trans hkey)] at hq

theorem key_of_serviceEnqueues {l} (h : c.apply l = some r) (hq : serviceEnqueues lbc r.1 c = true) :
    (c.objectMeta ExposedService.metaOf).key = lbc.externalServiceKey := by
  cases c with
  | add svc => exact lbc.isExternalServiceForStatus_iff.mp hq
  | update cur others => exact lbc.isExternalServiceForStatus_iff.mp (Bool.and_eq_true_iff.mp hq).2
  | delete m unknown =>
    obtain ⟨old, hold, rfl⟩ := apply_delete h
    exact (l.keyed _ _ hold).symm.trans (lbc.isExternalServiceForStatus_iff.mp hq)

namespace StatusState.Remembers
variable {s : StatusState}

section
variable (h : s.Remembers isIP lbc watched)
include h

/-- Once everything is synced, what is reported follows from the current objects. -/
theorem status_eq (hs : s.Settled) : s.updater.status = s.wanted isIP lbc watched := by
  have hconfig : ¬s.configMapWaits watched := fun hmem => (hs _ hmem).1 rfl
  have hservice : ¬s.serviceWaits lbc := fun hmem => (hs _ hmem).2 rfl
  have hstatus := h.status.resolve_right fun hwaits => hservice hwaits.2
  rw [hstatus, StatusUpdater.reported, h.address hconfig, h.service hservice, wanted]

theorem configMap {c r} (hc : StatusFollows lbc watched s (.configMap c))
    (hns : (c.objectMeta ConfigMap.objectMeta).ns = watched.ns) (hr : c.apply s.configMaps = some r) :
    (StatusState.enqueueIf { s with configMaps := r.2 }
      (enqueues (fun cfgm : ConfigMap => cfgm.objectMeta.name = watched.name) r.1 c)
      ⟨.configMap, (c.objectMeta ConfigMap.objectMeta).key⟩).Remembers isIP lbc watched := by
  have hkey : (c.objectMeta ConfigMap.objectMeta).key = watched.key ↔
      (c.objectMeta ConfigMap.objectMeta).name = watched.name :=
    (ObjectMeta.key_eq_iff _).trans (and_iff_right hns)
  refine ⟨fun t ht => ?_, fun hno => ?_, fun hno => ?_, ?_⟩
  · rcases (mem_enqueueIf _ _ _).mp ht with ht | ⟨hq, rfl⟩
    · exact h.tasks t ht
    · obtain ⟨a, ha, hname⟩ := exists_of_enqueues hr hq
      exact ⟨fun _ => hkey.mpr (ha ▸ of_decide_eq_true hname), nofun⟩
  · simp only [configMapWaits, mem_enqueueIf, not_or, not_and] at hno
    simp only [currentAddress, enqueueIf_updater, enqueueIf_configMaps]
    have hold := h.address hno.1
    by_cases hk : (c.objectMeta ConfigMap.objectMeta).key = watched.key
    · -- an event about the ConfigMap itself that queues nothing
      have hq : enqueues (fun cfgm : ConfigMap => cfgm.objectMeta.name = watched.name) r.1 c = false := by
        by_contra hq
        exact hno.2 (by simpa using hq) (by rw [hk])
      rcases same_of_not_enqueues hr hq fun a ha => decide_eq_true (ha ▸ hkey.mp hk) with hsame | ⟨m, rfl⟩
      · rw [hsame]
        exact hold
      · obtain ⟨old, _, rfl⟩ := apply_delete hr
        have hm : m.key = watched.key := hk
        rw [hc rfl hm, Lister.get_remove, if_pos hm.symm]
        rfl
    · rw [apply_get_ne hr (Ne.symm hk)]
      exact hold
  · simp only [serviceWaits, mem_enqueueIf, not_or] at hno
    simpa [currentServiceAddresses] using h.service hno.1
  · simp only [enqueueIf_updater, serviceWaits, mem_enqueueIf]
    exact h.status.imp_right fun hwaits => ⟨hwaits.1, .inl hwaits.2⟩

theorem serviceEvent (hr : c.apply s.services = some r) :
    (StatusState.enqueueIf { s with services := r.2 } (serviceEnqueues lbc r.1 c)
      ⟨.service, (c.objectMeta ExposedService.metaOf).key⟩).Remembers isIP lbc watched := by
  refine ⟨fun t ht => ?_, fun hno => ?_, fun hno => ?_, ?_⟩
  · rcases (mem_enqueueIf _ _ _).mp ht with ht | ⟨hq, rfl⟩
    · exact h.tasks t ht
    · exact ⟨nofun, fun _ => key_of_serviceEnqueues hr hq⟩
  · simp only [configMapWaits, mem_enqueueIf, not_or] at hno
    simpa [currentAddress] using h.address hno.1
  · simp only [serviceWaits, mem_enqueueIf, not_or, not_and] at hno
    simp only [currentServiceAddresses, enqueueIf_updater, enqueueIf_services]
    have hold := h.service hno.1
    by_cases hk : (c.objectMeta ExposedService.metaOf).key = lbc.externalServiceKey
    · have hq : serviceEnqueues lbc r.1 c = false := by
        by_contra hq
        exact hno.2 (by simpa using hq) (by rw [hk])
      rw [same_of_not_serviceEnqueues hr hq hk]
      exact hold
    · rw [apply_get_ne hr (Ne.symm hk)]
      exact hold
  · simp only [enqueueIf_updater, serviceWaits, mem_enqueueIf]
    exact h.status.imp_right fun hwaits => ⟨hwaits.1, .inl hwaits.2⟩

theorem of_queue {s' : StatusState}
    (hsame : s'.configMaps = s.configMaps ∧ s'.services = s.services ∧ s'.updater = s.updater)
    (hqueue : ∀ t : Task, t.kind = .configMap ∨ t.kind = .service → (t ∈ s'.queue ↔ t ∈ s.queue)) :
    s'.Remembers isIP lbc watched := by
  obtain ⟨hmaps, hservices, hupdater⟩ := hsame
  have hconfig : s'.configMapWaits watched ↔ s.configMapWaits watched := hqueue _ (.inl rfl)
  have hservice : s'.serviceWaits lbc ↔ s.serviceWaits lbc := hqueue _ (.inr rfl)
  refine ⟨fun t ht => ⟨fun hk => (h.tasks t ((hqueue t (.inl hk)).mp ht)).1 hk,
    fun hk => (h.tasks t ((hqueue t (.inr hk)).mp ht)).2 hk⟩, fun hno => ?_, fun hno => ?_, ?_⟩
  · rw [currentAddress, hupdater, hmaps]
    exact h.address (hconfig.not.mp hno)
  · rw [currentServiceAddresses, hupdater, hservices]
    exact h.service (hservice.not.mp hno)
  · rw [hupdater, hservice]
    exact h.status

theorem syncConfig {key ts} (hc : StatusFollows lbc watched s .sync) (hq : s.queue = ⟨.configMap, key⟩ :: ts) :
    (StatusState.syncConfig isIP { s with queue := ts } key).Remembers isIP lbc watched := by
  obtain rfl : key = watched.key := (h.tasks ⟨.configMap, key⟩ (hq ▸ mem_cons_self)).1 rfl
  have htail : ∀ t ∈ ts, t ∈ s.queue := fun t ht => hq ▸ mem_cons_of_mem _ ht
  have hwaits : s.serviceWaits lbc → (⟨.service, lbc.externalServiceKey⟩ : Task) ∈ ts := by
    intro hmem
    rw [serviceWaits, hq] at hmem
    exact (mem_cons.mp hmem).resolve_left nofun
  have hhead := hc ⟨.configMap, watched.key⟩ (by rw [hq]; rfl) rfl
  unfold StatusState.syncConfig
  dsimp only
  cases hget : s.configMaps.get watched.key with
  | none =>
    refine ⟨fun t ht => h.tasks t (htail t ht), fun _ => ?_, fun hno => ?_, ?_⟩
    · simp only [currentAddress, hget]
      exact hhead.1 hget
    · exact h.service fun hmem => hno (hwaits hmem)
    · exact h.status.imp_right fun hw => ⟨hw.1, hwaits hw.2⟩
  | some cfgm =>
    refine ⟨fun t ht => h.tasks t (htail t ht), fun _ => ?_, fun hno => ?_, ?_⟩
    · simp [currentAddress, hget]
    · rw [StatusUpdater.saveStatusFromExternalStatus_addresses]
      exact h.service fun hmem => hno (hwaits hmem)
    · by_cases hfall : cfgm.externalStatusAddress = "" ∧ s.updater.externalServiceAddresses = []
      · have hservice := (hhead.2 cfgm hget hfall.1).resolve_left fun hne => hne hfall.2
        exact .inr ⟨by simpa using hfall.1, hwaits hservice⟩
      · exact .inl (StatusUpdater.saveStatusFromExternalStatus_status fun ha hnil => hfall ⟨ha, hnil⟩)

theorem syncExternalService {key ts} (hq : s.queue = ⟨.service, key⟩ :: ts) :
    (StatusState.syncExternalService isIP { s with queue := ts } key).Remembers isIP lbc watched := by
  obtain rfl : key = lbc.externalServiceKey := (h.tasks ⟨.service, key⟩ (hq ▸ mem_cons_self)).2 rfl
  have htail : ∀ t ∈ ts, t ∈ s.queue := fun t ht => hq ▸ mem_cons_of_mem _ ht
  have hwaits : s.configMapWaits watched → (⟨.configMap, watched.key⟩ : Task) ∈ ts := by
    intro hmem
    rw [configMapWaits, hq] at hmem
    exact (mem_cons.mp hmem).resolve_left nofun
  have hupdate : StatusState.syncExternalService isIP { s with queue := ts } lbc.externalServiceKey = { s with
        queue := ts
        updater := s.updater.saveStatusFromExternalService isIP (s.services.get lbc.externalServiceKey) } := by
    unfold StatusState.syncExternalService
    dsimp only
    cases s.services.get lbc.externalServiceKey <;> rfl
  rw [hupdate]
  refine ⟨fun t ht => h.tasks t (htail t ht), fun hno => ?_, fun _ => ?_, .inl ?_⟩
  · rw [StatusUpdater.saveStatusFromExternalService_address]
    exact h.address fun hmem => hno (hwaits hmem)
  · rw [StatusUpdater.saveStatusFromExternalService_addresses]
    rfl
  · exact StatusUpdater.saveStatusFromExternalService_status fun hne =>
      h.status.resolve_right fun hw => hne hw.1

theorem step {s' : StatusState} {label}
    (hc : StatusFollows lbc watched s label) (hs : statusStep isIP lbc watched label s = some s') :
    s'.Remembers isIP lbc watched := by
  cases label with
  | configMap c =>
    simp only [statusStep] at hs
    split at hs
    · rename_i hns
      obtain ⟨r, hr, rfl⟩ := map_eq_some_iff.mp hs
      exact h.configMap hc hns hr
    · cases hs
  | service c =>
    obtain ⟨r, hr, rfl⟩ := map_eq_some_iff.mp hs
    exact h.serviceEvent hr
  | other t =>
    simp only [statusStep] at hs
    split at hs
    · cases hs
    · rename_i hkind
      obtain rfl := some.inj hs
      refine h.of_queue (by simp) fun t' ht' => ?_
      rw [mem_enqueueIf]
      exact or_iff_left fun he => hkind (he.2 ▸ ht')
  | sync =>
    simp only [statusStep] at hs
    cases hq : s.queue with
    | nil => simp [hq] at hs
    | cons t ts =>
      obtain ⟨kind, key⟩ := t
      rw [hq] at hs
      have hother : kind ≠ .configMap → kind ≠ .service →
          StatusState.Remembers isIP lbc watched { s with queue := ts } := by
        intro hconfig hservice
        refine h.of_queue ⟨rfl, rfl, rfl⟩ fun t' ht' => ?_
        rw [hq, mem_cons]
        refine (or_iff_right fun he => ?_).symm
        subst he
        exact ht'.elim hconfig hservice
      cases kind with
      | configMap => exact some.inj hs ▸ h.syncConfig hc hq
      | service => exact some.inj hs ▸ h.syncExternalService hq
      | _ => exact some.inj hs ▸ hother (by simp) (by simp)

end

end StatusState.Remembers

/-- In a run that takes only such steps the status follows from the current objects, once they
are synced. -/
theorem status_follows (isIP : String → Bool) (lbc : LBC) (watched : ObjectMeta) {s : StatusState}
    (hrun : Run (statusStep isIP lbc watched) (StatusFollows lbc watched) {} s) (hs : s.Settled) :
    s.updater.status = s.wanted isIP lbc watched := by
  have hstart : StatusState.Remembers isIP lbc watched {} := by
    refine ⟨nofun, fun _ => ?_, fun _ => ?_, .inl rfl⟩
    · simp [StatusState.currentAddress]
    · simp [StatusState.currentServiceAddresses, getExternalServiceAddress]
  exact (hrun.keeps hstart fun _ _ _ hinv hc hstep => hinv.step hc hstep).status_eq hs

end invariant

section samples

theorem legal_namespace : isDNS1123Label "nginx-ingress" = true := by decide

theorem legal_ingress : isDNS1123Subdomain "nginx-ingress" = true := by decide

theorem legal_config : isDNS1123Subdomain "nginx-config" = true := by decide

def watchedConfig : ObjectMeta := ⟨"nginx-ingress", "nginx-config", legal_namespace, legal_config⟩

def addressed (address : String) : ConfigMap := ⟨watchedConfig, [("external-status-address", address)]⟩

/-- The service in front of the controller, with the host names of its load balancer. -/
def loadBalanced (hostnames : List String) : ExposedService where
  objectMeta := ⟨"nginx-ingress", "nginx-ingress", legal_namespace, legal_ingress⟩
  type := .loadBalancer
  externalName := ""
  selector := []
  ports := []
  nodup_names := by simp
  loadBalancer := hostnames.map fun hostname => { hostname := hostname }
  externalIPs := []

/-- A controller that takes no address for an IP. -/
abbrev namesOnly : StatusLabel → StatusState → Option StatusState :=
  statusStep (fun _ => false) (plainLBC false) watchedConfig

/-- The status that is saved and the one that follows from the current objects, by host name. -/
def hostnames (s : StatusState) : List String × List String :=
  (s.updater.status.map (·.hostname), (s.wanted (fun _ => false) (plainLBC false) watchedConfig).map (·.hostname))

/-- An address is taken back, and the service is reported again. -/
theorem status_follows_service :
    ∃ s, Run namesOnly (StatusFollows (plainLBC false) watchedConfig) {} s ∧ s.Settled ∧
      s.updater.status = s.wanted (fun _ => false) (plainLBC false) watchedConfig ∧
      (hostnames s).2 = ["lb.example.com"] := by
  obtain ⟨s, hs, hsettled, hwanted⟩ : ∃ s, Run namesOnly (StatusFollows (plainLBC false) watchedConfig) {} s ∧
      s.Settled ∧ (hostnames s).2 = ["lb.example.com"] :=
    Run.of_labels [.configMap (.add (addressed "edge.example.com")), .service (.add (loadBalanced ["lb.example.com"])),
      .sync, .sync, .configMap (.update (addressed "") false), .sync] (by decide +kernel)
  exact ⟨s, hs, hsettled, status_follows _ _ _ hs hsettled, hwanted⟩

/-- The address of a ConfigMap that was deleted is still reported, whether the watch has seen the
deletion or not. With a ConfigMap that has no address and a service that has none either, it depends
on their order whether an empty host name is reported. -/
theorem status_not_following :
    (∃ s, Run namesOnly (fun _ _ => True) {} s ∧ s.Settled ∧ s.configMaps.get watchedConfig.key = none ∧
      hostnames s = (["edge.example.com"], ["lb.example.com"])) ∧
    (∃ s, Run namesOnly (fun _ _ => True) {} s ∧ s.Settled ∧ s.configMaps.get watchedConfig.key = none ∧
      hostnames s = (["edge.example.com"], [])) ∧
    ∃ s s', Run namesOnly (fun _ _ => True) {} s ∧ Run namesOnly (fun _ _ => True) {} s' ∧
      s.Settled ∧ s'.Settled ∧ s.configMaps.get watchedConfig.key = s'.configMaps.get watchedConfig.key ∧
      s.services.get (plainLBC false).externalServiceKey = s'.services.get (plainLBC false).externalServiceKey ∧
      hostnames s = ([""], []) ∧ hostnames s' = ([], []) := by
  refine ⟨?_, ?_, ?_⟩
  · exact Run.of_labels [.service (.add (loadBalanced ["lb.example.com"])), .sync,
      .configMap (.add (addressed "edge.example.com")), .sync, .configMap (.delete watchedConfig false), .sync]
      (by decide +kernel)
  · exact Run.of_labels [.configMap (.add (addressed "edge.example.com")), .sync,
      .configMap (.delete watchedConfig true)] (by decide +kernel)
  · have hrun : (follow namesOnly (fun _ _ => True) {}
        [.service (.add (loadBalanced [])), .sync, .configMap (.add (addressed "")), .sync]).any (fun s =>
      (follow namesOnly (fun _ _ => True) {}
        [.configMap (.add (addressed "")), .sync, .service (.add (loadBalanced [])), .sync]).any fun s' =>
          s.Settled ∧ s'.Settled ∧ s.configMaps.get watchedConfig.key = s'.configMaps.get watchedConfig.key ∧
          s.services.get (plainLBC false).externalServiceKey =
            s'.services.get (plainLBC false).externalServiceKey ∧
          hostnames s = ([""], []) ∧ hostnames s' = ([], [])) = true := by decide +kernel
    obtain ⟨s, hs, hp⟩ := (any_eq_true _ _).mp hrun
    obtain ⟨s', hs', hp'⟩ := (any_eq_true _ _).mp hp
    exact ⟨s, s', .of_follow hs, .of_follow hs', of_decide_eq_true hp'⟩

end samples

end KubeYamls.Nginx
