import KubeYamls.Nginx.Events
import KubeYamls.Data.FirstWins

/-! # Updates of the configuration that fail

`UpdateConfig` assigns the new parameters first, and then a template or a file after each
step that succeeds. An error returns from the middle of that. What the exits have in
common is that nothing is taken back. -/
namespace KubeYamls.Nginx
open Data Configurator List

/-- The parameters, the templates, and the files of the configuration are what they were. -/
structure NotApplied (before after : Configurator) : Prop where
  config : after.config = before.config
  mainTemplate : after.mainTemplate = before.mainTemplate
  ingressTemplate : after.ingressTemplate = before.ingressTemplate
  mainConf : after.mainConf = before.mainConf
  confd : ∀ file, after.confd.lookup file = before.confd.lookup file

section template
variable {T : Type} (parse : String → Except String T) (now : T)

/-- The template of the parameters, or the one there is. -/
def newTemplate : Option String → Except String T
  | none => .ok now
  | some text => parse text

/-- No new template, or one that parses to the one in use. -/
def SameTemplate (template : Option String) : Prop := ∀ text ∈ template, parse text = .ok now

variable {parse now}

theorem sameTemplate_iff {template new} (h : newTemplate parse now template = .ok new) :
    SameTemplate parse now template ↔ new = now := by
  cases template with
  | none =>
    obtain rfl := Except.ok.inj h
    simp [SameTemplate]
  | some text =>
    have hp : parse text = .ok new := h
    simp [SameTemplate, hp]

end template

section steps
variable (host : Host) (cnf : Configurator)

/-- The parameters once the file for Diffie-Hellman is written, if there is to be one. -/
def dhConfig (config : Config) : Except String Config :=
  match config.mainServerSSLDHParamFileContent with
  | none => .ok config
  | some content => (host.writeDHParam content).map fun _ =>
      withDHParam config (nginxSecretsPath ++ "/" ++ dhparamFilename)

def newMainTemplate (config : Config) : Except String (MainConfig → Except String String) :=
  newTemplate host.parseMainTemplate cnf.mainTemplate config.mainTemplate

def newIngressTemplate (config : Config) : Except String (IngressNginxConfig → Except String String) :=
  newTemplate host.parseIngressTemplate cnf.ingressTemplate config.ingressTemplate

def SameMainTemplate (config : Config) : Prop :=
  SameTemplate host.parseMainTemplate cnf.mainTemplate config.mainTemplate

def SameIngressTemplate (config : Config) : Prop :=
  SameTemplate host.parseIngressTemplate cnf.ingressTemplate config.ingressTemplate

def Resource.file (r : Resource) : String := getIngressNginxConfigFileName r.name

/-- The files have what the template makes of the resources, the last one of each file. -/
def SameFiles (rs : List Resource) : Prop :=
  ∀ file, ∀ r ∈ rs.reverse.find? (·.file = file),
    (cnf.ingressTemplate (r.nginxCfg host.isPlus cnf.config)).toOption = cnf.confd.lookup file

/-- The exits of `UpdateConfig` before the reload. Each comes with what it takes for nothing to
have changed by then: what was assigned is what was there. -/
inductive FailsAt (config : Config) (rs : List Resource) : Prop → Prop where
  | dhparam {err : String} : dhConfig host config = .error err → FailsAt config rs (config = cnf.config)
  | mainTemplate {config' : Config} {err : String} : dhConfig host config = .ok config' →
      newMainTemplate host cnf config' = .error err → FailsAt config rs (config' = cnf.config)
  | ingressTemplate {config' : Config} {main : MainConfig → Except String String} {err : String} :
      dhConfig host config = .ok config' → newMainTemplate host cnf config' = .ok main →
      newIngressTemplate host cnf config' = .error err →
      FailsAt config rs (config' = cnf.config ∧ SameMainTemplate host cnf config')
  | mainConf {config' : Config} {main : MainConfig → Except String String}
      {ingress : IngressNginxConfig → Except String String} {err : String} :
      dhConfig host config = .ok config' → newMainTemplate host cnf config' = .ok main →
      newIngressTemplate host cnf config' = .ok ingress →
      main (generateNginxMainConfig config') = .error err →
      FailsAt config rs (config' = cnf.config ∧ SameMainTemplate host cnf config' ∧ SameIngressTemplate host cnf config')
  | ingress {config' : Config} {main : MainConfig → Except String String}
      {ingress : IngressNginxConfig → Except String String} {content err : String} {done rest : List Resource}
      {r : Resource} :
      dhConfig host config = .ok config' → newMainTemplate host cnf config' = .ok main →
      newIngressTemplate host cnf config' = .ok ingress →
      main (generateNginxMainConfig config') = .ok content → rs = done ++ r :: rest →
      (∀ r ∈ done, ∃ content, ingress (r.nginxCfg host.isPlus config') = .ok content) →
      ingress (r.nginxCfg host.isPlus config') = .error err →
      FailsAt config rs (config' = cnf.config ∧ SameMainTemplate host cnf config' ∧
        SameIngressTemplate host cnf config' ∧
        cnf.mainTemplate (generateNginxMainConfig cnf.config) = .ok cnf.mainConf ∧ SameFiles host cnf done)

end steps

/-- A call that ended in an error before the reload, having changed nothing if and only if `U`. -/
structure EndsAt (before : Configurator) (out : Outcome) (U : Prop) : Prop where
  failed : ∃ err, out.2 = .error err
  configVersion : out.1.configVersion = before.configVersion
  notApplied : NotApplied before out.1 ↔ U

/-! ## The steps -/

section steps
variable {host : Host} (cnf : Configurator) {err : String}

theorem updateDHParam_error (h : dhConfig host cnf.config = .error err) :
    ∃ err', cnf.updateDHParam host = (cnf, .error err') := by
  cases hc : cnf.config.mainServerSSLDHParamFileContent with
  | none => simp [dhConfig, hc] at h
  | some content =>
    cases hw : host.writeDHParam content with
    | error err' => exact ⟨_, by simp only [updateDHParam, hc, hw]; rfl⟩
    | ok u => simp [dhConfig, hc, hw, Except.map] at h

theorem updateDHParam_ok {config'} (h : dhConfig host cnf.config = .ok config') :
    ∃ files, cnf.updateDHParam host = ({ cnf with config := config', secretFiles := files }, .ok ()) := by
  cases hc : cnf.config.mainServerSSLDHParamFileContent with
  | none =>
    obtain rfl : cnf.config = config' := by simpa [dhConfig, hc] using h
    exact ⟨cnf.secretFiles, by simp only [updateDHParam, hc]⟩
  | some content =>
    cases hw : host.writeDHParam content with
    | error err' => simp [dhConfig, hc, hw, Except.map] at h
    | ok u =>
      obtain rfl : withDHParam cnf.config _ = config' := by
        simpa [dhConfig, hc, hw, Except.map] using h
      refine ⟨cnf.secretFiles.insert (nginxSecretsPath ++ "/" ++ dhparamFilename)
        ⟨content.toUTF8.toList, 0o666⟩, ?_⟩
      simp only [updateDHParam, hc, hw, withDHParam]

theorem updateMainTemplate_error (h : newMainTemplate host cnf cnf.config = .error err) :
    ∃ err', cnf.updateMainTemplate host = (cnf, .error err') := by
  cases hc : cnf.config.mainTemplate with
  | none => simp [newMainTemplate, newTemplate, hc] at h
  | some text =>
    have hp : host.parseMainTemplate text = .error err := by simpa [newMainTemplate, newTemplate, hc] using h
    exact ⟨_, by simp only [updateMainTemplate, hc, hp]; rfl⟩

theorem updateMainTemplate_ok {main} (h : newMainTemplate host cnf cnf.config = .ok main) :
    cnf.updateMainTemplate host = ({ cnf with mainTemplate := main }, .ok ()) := by
  cases hc : cnf.config.mainTemplate with
  | none =>
    obtain rfl : cnf.mainTemplate = main := by simpa [newMainTemplate, newTemplate, hc] using h
    simp only [updateMainTemplate, hc]
  | some text =>
    have hp : host.parseMainTemplate text = .ok main := by simpa [newMainTemplate, newTemplate, hc] using h
    simp only [updateMainTemplate, hc, hp]

theorem updateIngressTemplate_error (h : newIngressTemplate host cnf cnf.config = .error err) :
    ∃ err', cnf.updateIngressTemplate host = (cnf, .error err') := by
  cases hc : cnf.config.ingressTemplate with
  | none => simp [newIngressTemplate, newTemplate, hc] at h
  | some text =>
    have hp : host.parseIngressTemplate text = .error err := by simpa [newIngressTemplate, newTemplate, hc] using h
    exact ⟨_, by simp only [updateIngressTemplate, hc, hp]; rfl⟩

theorem updateIngressTemplate_ok {ingress} (h : newIngressTemplate host cnf cnf.config = .ok ingress) :
    cnf.updateIngressTemplate host = ({ cnf with ingressTemplate := ingress }, .ok ()) := by
  cases hc : cnf.config.ingressTemplate with
  | none =>
    obtain rfl : cnf.ingressTemplate = ingress := by simpa [newIngressTemplate, newTemplate, hc] using h
    simp only [updateIngressTemplate, hc]
  | some text =>
    have hp : host.parseIngressTemplate text = .ok ingress := by simpa [newIngressTemplate, newTemplate, hc] using h
    simp only [updateIngressTemplate, hc, hp]

variable {cnf}

/-- A loop over resources leaves the main file and its template alone. -/
theorem regenerateAll_main {describe rs} : (regenerateAll host describe cnf rs).1.mainConf = cnf.mainConf ∧
      (regenerateAll host describe cnf rs).1.mainTemplate = cnf.mainTemplate := by
  refine regenerateAll_keeps
    (I := fun cnf' => cnf'.mainConf = cnf.mainConf ∧ cnf'.mainTemplate = cnf.mainTemplate) ⟨rfl, rfl⟩ ?_
  intro cnf' r _ h
  obtain ⟨err, -, hr⟩ | ⟨content, -, hr⟩ := regenerate_cases host cnf' r
  · rw [hr]
    exact h
  · rw [hr]
    exact h

theorem sameMainTemplate_iff {config main} (h : newMainTemplate host cnf config = .ok main) :
    SameMainTemplate host cnf config ↔ main = cnf.mainTemplate := sameTemplate_iff h

theorem sameIngressTemplate_iff {config ingress} (h : newIngressTemplate host cnf config = .ok ingress) :
    SameIngressTemplate host cnf config ↔ ingress = cnf.ingressTemplate := sameTemplate_iff h

theorem first_error (template : IngressNginxConfig → Except String String) (isPlus : Bool) (config : Config)
    (rs : List Resource) : (∀ r ∈ rs, ∃ content, template (r.nginxCfg isPlus config) = .ok content) ∨
    ∃ done r rest err, rs = done ++ r :: rest ∧
      (∀ r ∈ done, ∃ content, template (r.nginxCfg isPlus config) = .ok content) ∧
      template (r.nginxCfg isPlus config) = .error err := by
  induction rs with
  | nil => exact .inl (by simp)
  | cons r rs ih =>
    cases hr : template (r.nginxCfg isPlus config) with
    | error err => exact .inr ⟨[], r, rs, err, rfl, by simp, hr⟩
    | ok content =>
      obtain h | ⟨done, r', rest, err, rfl, hdone, hr'⟩ := ih
      · exact .inl (forall_mem_cons.mpr ⟨⟨content, hr⟩, h⟩)
      · exact .inr ⟨r :: done, r', rest, err, rfl, forall_mem_cons.mpr ⟨⟨content, hr⟩, hdone⟩, hr'⟩

theorem regenerateAll_stops (cnf : Configurator) (describe : Resource → String → String) {done rest r err}
    (hdone : ∀ r ∈ done, ∃ content, cnf.ingressTemplate (r.nginxCfg host.isPlus cnf.config) = .ok content)
    (hr : cnf.ingressTemplate (r.nginxCfg host.isPlus cnf.config) = .error err) :
    (∃ err', (regenerateAll host describe cnf (done ++ r :: rest)).2 = .error err') ∧
      (regenerateAll host describe cnf (done ++ r :: rest)).1.confd.lookup = done.foldl (fun files r =>
        Function.update files r.file (cnf.ingressTemplate (r.nginxCfg host.isPlus cnf.config)).toOption)
        cnf.confd.lookup := by
  induction done generalizing cnf with
  | nil =>
    obtain ⟨err', -, h⟩ | ⟨content, hok, -⟩ := regenerate_cases host cnf r
    · simp only [nil_append, regenerateAll, h, Outcome.describe]
      exact ⟨⟨_, rfl⟩, rfl⟩
    · rw [hr] at hok
      cases hok
  | cons r0 done ih =>
    obtain ⟨⟨content, hok⟩, hdone⟩ := forall_mem_cons.mp hdone
    obtain ⟨err', hno, -⟩ | ⟨content', hok', h⟩ := regenerate_cases host cnf r0
    · rw [hok] at hno
      cases hno
    · have hstep : regenerateAll host describe cnf (r0 :: done ++ r :: rest) =
          regenerateAll host describe (cnf.written host r0 content') (done ++ r :: rest) := by
        rw [cons_append, regenerateAll, h]
        rfl
      rw [hstep, foldl_cons, hok']
      obtain ⟨herr, hfiles⟩ := ih (cnf.written host r0 content') hdone hr
      refine ⟨herr, hfiles.trans ?_⟩
      exact congrArg (fun files => foldl _ files done) (Table.lookup_insert_eq_update _ _ _)

theorem sameFiles_iff {done} : SameFiles host cnf done ↔ done.foldl (fun files r =>
      Function.update files r.file (cnf.ingressTemplate (r.nginxCfg host.isPlus cnf.config)).toOption)
      cnf.confd.lookup = cnf.confd.lookup := by
  rw [funext_iff]
  refine forall_congr' fun file => ?_
  rw [foldl_update_apply Resource.file]
  cases done.reverse.find? (·.file = file) <;> simp

end steps

/-! ## The exits -/

section exits
variable {host : Host} {cnf : Configurator} {config config' : Config} {rs : List Resource}
  {main : MainConfig → Except String String} {ingress : IngressNginxConfig → Except String String} {err : String}

/-- What is left of `UpdateConfig` when the parameters and the templates are assigned. -/
def writeAll (host : Host) (rs : List Resource) (cnf : Configurator) : Outcome :=
  cnf.updateMainConfigFile.andThen fun cnf =>
    (regenerateAll host (fun _ err => err) cnf rs).andThen fun cnf =>
      (cnf.reload host).describe ("Error when updating config from ConfigMap: " ++ ·)

theorem updateConfig_dhparam (cnf : Configurator) (rs : List Resource) (hd : dhConfig host config = .error err) :
    ∃ err', cnf.updateConfig host config rs = ({ cnf with config := config }, .error err') := by
  obtain ⟨err', h⟩ := updateDHParam_error { cnf with config := config } hd
  refine ⟨err', ?_⟩
  rw [updateConfig, h]
  rfl

theorem updateConfig_mainTemplate (rs : List Resource) (hd : dhConfig host config = .ok config')
    (hm : newMainTemplate host cnf config' = .error err) : ∃ files err', cnf.updateConfig host config rs =
      ({ cnf with config := config', secretFiles := files }, .error err') := by
  obtain ⟨files, h⟩ := updateDHParam_ok { cnf with config := config } hd
  obtain ⟨err', h'⟩ := updateMainTemplate_error { cnf with config := config', secretFiles := files } hm
  refine ⟨files, err', ?_⟩
  simp only [updateConfig, h, Outcome.andThen, h']

theorem updateConfig_ingressTemplate (rs : List Resource) (hd : dhConfig host config = .ok config')
    (hm : newMainTemplate host cnf config' = .ok main) (hi : newIngressTemplate host cnf config' = .error err) :
    ∃ files err', cnf.updateConfig host config rs =
      ({ cnf with config := config', secretFiles := files, mainTemplate := main }, .error err') := by
  obtain ⟨files, h⟩ := updateDHParam_ok { cnf with config := config } hd
  have h' := updateMainTemplate_ok { cnf with config := config', secretFiles := files } hm
  obtain ⟨err', h''⟩ := updateIngressTemplate_error
    { cnf with config := config', secretFiles := files, mainTemplate := main } hi
  refine ⟨files, err', ?_⟩
  simp only [updateConfig, h, Outcome.andThen, h', h'']

theorem updateConfig_writeAll (rs : List Resource) (hd : dhConfig host config = .ok config')
    (hm : newMainTemplate host cnf config' = .ok main) (hi : newIngressTemplate host cnf config' = .ok ingress) :
    ∃ files, cnf.updateConfig host config rs = writeAll host rs
      { cnf with config := config', secretFiles := files, mainTemplate := main, ingressTemplate := ingress } := by
  obtain ⟨files, h⟩ := updateDHParam_ok { cnf with config := config } hd
  have h' := updateMainTemplate_ok { cnf with config := config', secretFiles := files } hm
  have h'' := updateIngressTemplate_ok
    { cnf with config := config', secretFiles := files, mainTemplate := main } hi
  refine ⟨files, ?_⟩
  simp only [updateConfig, h, Outcome.andThen, h', h'', writeAll]

theorem writeAll_mainConf (h : cnf.mainTemplate (generateNginxMainConfig cnf.config) = .error err) :
    writeAll host rs cnf = (cnf, .error "Error when writing main Config") := by
  simp only [writeAll, updateMainConfigFile, h, Outcome.andThen]

theorem writeAll_of_ok {content} (h : cnf.mainTemplate (generateNginxMainConfig cnf.config) = .ok content) :
    writeAll host rs cnf =
      (regenerateAll host (fun _ err => err) { cnf with mainConf := content } rs).andThen fun cnf =>
        (cnf.reload host).describe ("Error when updating config from ConfigMap: " ++ ·) := by
  simp only [writeAll, updateMainConfigFile, h, Outcome.andThen]

theorem writeAll_stops {content err'} (h : cnf.mainTemplate (generateNginxMainConfig cnf.config) = .ok content)
    (herr : (regenerateAll host (fun _ err => err) { cnf with mainConf := content } rs).2 = .error err') :
    writeAll host rs cnf = regenerateAll host (fun _ err => err) { cnf with mainConf := content } rs := by
  rw [writeAll_of_ok h, Outcome.andThen, herr]

theorem writeAll_reloads {content} (h : cnf.mainTemplate (generateNginxMainConfig cnf.config) = .ok content)
    (hall : ∀ r ∈ rs, ∃ content, cnf.ingressTemplate (r.nginxCfg host.isPlus cnf.config) = .ok content) :
    (writeAll host rs cnf).1.configVersion = cnf.configVersion + 1 := by
  have hok : (regenerateAll host (fun _ err => err) { cnf with mainConf := content } rs).2 = .ok () :=
    regenerateAll_ok_of_forall hall
  rw [writeAll_of_ok h, Outcome.andThen, hok]
  exact congrArg (· + 1) regenerateAll_configVersion

theorem FailsAt.endsAt {U : Prop} (h : FailsAt host cnf config rs U) :
    EndsAt cnf (cnf.updateConfig host config rs) U := by
  cases h with
  | dhparam hd =>
    obtain ⟨err', h⟩ := updateConfig_dhparam cnf rs hd
    rw [h]
    exact ⟨⟨err', rfl⟩, rfl, fun h => h.config, fun h => ⟨h, rfl, rfl, rfl, fun _ => rfl⟩⟩
  | mainTemplate hd hm =>
    obtain ⟨files, err', h⟩ := updateConfig_mainTemplate rs hd hm
    rw [h]
    exact ⟨⟨err', rfl⟩, rfl, fun h => h.config, fun h => ⟨h, rfl, rfl, rfl, fun _ => rfl⟩⟩
  | ingressTemplate hd hm hi =>
    obtain ⟨files, err', h⟩ := updateConfig_ingressTemplate rs hd hm hi
    rw [h]
    rw [sameMainTemplate_iff hm]
    exact ⟨⟨err', rfl⟩, rfl, fun h => ⟨h.config, h.mainTemplate⟩,
      fun ⟨hc, hm⟩ => ⟨hc, hm, rfl, rfl, fun _ => rfl⟩⟩
  | mainConf hd hm hi hw =>
    obtain ⟨files, h⟩ := updateConfig_writeAll rs hd hm hi
    rw [h, writeAll_mainConf hw, sameMainTemplate_iff hm, sameIngressTemplate_iff hi]
    exact ⟨⟨_, rfl⟩, rfl, fun h => ⟨h.config, h.mainTemplate, h.ingressTemplate⟩,
      fun ⟨hc, hm, hi⟩ => ⟨hc, hm, hi, rfl, fun _ => rfl⟩⟩
  | ingress hd hm hi hw hrs hdone hr =>
    obtain ⟨secrets, h⟩ := updateConfig_writeAll rs hd hm hi
    subst hrs
    obtain ⟨⟨err', herr⟩, hconfd⟩ := regenerateAll_stops
      { cnf with config := _, secretFiles := secrets, mainTemplate := _, ingressTemplate := _, mainConf := _ }
      (fun _ err => err) hdone hr
    rw [h, writeAll_stops hw herr, sameMainTemplate_iff hm, sameIngressTemplate_iff hi]
    refine ⟨⟨err', herr⟩, regenerateAll_configVersion, ?_, ?_⟩
    · intro h
      obtain rfl := regenerateAll_config.symm.trans h.config
      obtain rfl := regenerateAll_main.2.symm.trans h.mainTemplate
      obtain rfl := regenerateAll_ingressTemplate.symm.trans h.ingressTemplate
      obtain rfl := regenerateAll_main.1.symm.trans h.mainConf
      exact ⟨rfl, rfl, rfl, hw, sameFiles_iff.mpr (hconfd.symm.trans (funext h.confd))⟩
    · rintro ⟨rfl, rfl, rfl, hcontent, hfiles⟩
      obtain rfl := Except.ok.inj (hw.symm.trans hcontent)
      exact ⟨regenerateAll_config, regenerateAll_main.2, regenerateAll_ingressTemplate, regenerateAll_main.1,
        congrFun (hconfd.trans (sameFiles_iff.mp hfiles))⟩

/-- A call that leaves the version alone has come to one of the exits. -/
theorem exists_failsAt (hversion : (cnf.updateConfig host config rs).1.configVersion = cnf.configVersion) :
    ∃ U, FailsAt host cnf config rs U := by
  cases hd : dhConfig host config with
  | error err => exact ⟨_, .dhparam hd⟩
  | ok config' =>
  cases hm : newMainTemplate host cnf config' with
  | error err => exact ⟨_, .mainTemplate hd hm⟩
  | ok main =>
  cases hi : newIngressTemplate host cnf config' with
  | error err => exact ⟨_, .ingressTemplate hd hm hi⟩
  | ok ingress =>
  cases hw : main (generateNginxMainConfig config') with
  | error err => exact ⟨_, .mainConf hd hm hi hw⟩
  | ok content =>
  obtain hall | ⟨done, r, rest, err, hrs, hdone, hr⟩ := first_error ingress host.isPlus config' rs
  · exfalso
    obtain ⟨secrets, h⟩ := updateConfig_writeAll rs hd hm hi
    rw [h, writeAll_reloads hw hall] at hversion
    exact Nat.succ_ne_self _ hversion
  · exact ⟨_, .ingress hd hm hi hw hrs hdone hr⟩

end exits

/-- A failed update leaves what it has assigned and written by then. Nothing has changed
exactly if all of that was there before. These are all the errors before the reload, which
counts the version up. -/
theorem failed_update_iff (host : Host) (cnf : Configurator) (config : Config) (rs : List Resource) :
    (∀ U, FailsAt host cnf config rs U → EndsAt cnf (cnf.updateConfig host config rs) U) ∧
    ((cnf.updateConfig host config rs).1.configVersion = cnf.configVersion → ∃ U, FailsAt host cnf config rs U) :=
  ⟨fun _ h => h.endsAt, exists_failsAt⟩

section samples

/-- Every template parses, and none of an ingress can be filled. -/
def unfillable : Host :=
  { (plainLBC false).host with
    parseMainTemplate := fun text => .ok fun _ => .ok text
    parseIngressTemplate := fun _ => .ok fun _ => .error "can't evaluate field Servers" }

def templatesGiven : Config :=
  { newDefaultConfig with mainTemplate := some "events", ingressTemplate := some "server" }

/-- Two templates are given, and the second cannot be filled for the first ingress. The parameters
are the new ones then, and the main file is that of the first. -/
theorem failed_update_applied :
    let out := started.cnf.updateConfig unfillable templatesGiven [.ingress ⟨cafe [], ∅, ⟨"", none⟩, ∅, ∅, []⟩]
    out.2 = .error "Error generating Ingress Config default-cafe: can't evaluate field Servers" ∧
      out.1.configVersion = started.cnf.configVersion ∧
      started.cnf.config.mainTemplate = none ∧ out.1.config.mainTemplate = some "events" ∧
      started.cnf.mainConf = "" ∧ out.1.mainConf = "events" ∧ ¬NotApplied started.cnf out.1 := by
  refine ⟨rfl, rfl, rfl, rfl, rfl, rfl, fun h => ?_⟩
  exact absurd h.mainConf (by decide : ("events" : String) ≠ "")

end samples

end KubeYamls.Nginx
