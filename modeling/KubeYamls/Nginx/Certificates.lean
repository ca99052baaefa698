import KubeYamls.Nginx.Minions
import KubeYamls.Nginx.Upstreams

/-! # Certificates

A secret has one file, whatever kind of secret it is. The file is written when
the secret is synced and when an ingress is generated that refers to it; servers
name it as their certificate. With a key for JWT the file is written, but no
ingress is generated again. So certificates fit as long as no secret is synced as
such a key while a server has its file as certificate. -/
namespace KubeYamls.Nginx
open Data Conc Configurator ObjectMeta Lister List Option

variable {o : Order} {rs : List Resource}

section resources
variable {lbc : LBC} {l : Listers} {ing : Ingress} {r : Resource}

theorem Resource.ssl_server {isPlus config server}
    (hs : server ∈ (r.nginxCfg isPlus config).servers) (hssl : server.ssl = true) :
    ∃ tls ∈ r.remembered.ingress.tls, server.sslCertificate = r.remembered.pemFileName tls := by
  cases r with
  | ingress ingEx => exact IngressEx.lookup_pems (Generator.ssl_server _ hs hssl)
  | mergeable m =>
    -- the one server is that of the master, with other locations
    obtain rfl := mem_singleton.mp hs
    exact IngressEx.lookup_pems (Generator.ssl_server _ (head_mem (m.masterCfg_servers isPlus config)) hssl)

theorem lookup_tlsSecretsOf {name secret} (h : (tlsSecretsOf l ing).lookup name = some secret) :
    l.secrets.get (ing.objectMeta.ns ++ "/" ++ name) = some secret ∧ (validateTLSSecret secret).isOk = true := by
  refine List.foldlRecOn (motive := fun t : Table String Secret => t.lookup name = some secret → _) _ _ (by simp)
    (fun t ht tls _ hlookup => ?_) h
  split at hlookup
  · exact ht hlookup
  · rename_i secret' hget
    split at hlookup
    · rename_i hvalid
      rcases Table.lookup_insert_iff.mp hlookup with ⟨rfl, rfl⟩ | ⟨_, hlookup⟩
      · exact ⟨hget, hvalid⟩
      · exact ht hlookup
    · exact ht hlookup

theorem mem_writtenSecrets {isPlus} (hapi : l.apiSecrets = l.secrets) {secret}
    (h : secret ∈ (ingressEx lbc l ing).writtenSecrets isPlus) : secret ∈ l.secrets.items := by
  have hget : ∀ key, l.secrets.get key = some secret → secret ∈ l.secrets.items := fun key hget =>
    mem_items.mpr (l.secrets.keyed key secret hget ▸ hget)
  rcases mem_append.mp h with h | h
  · obtain ⟨tls, _, hlookup⟩ := mem_filterMap.mp h
    exact hget _ (lookup_tlsSecretsOf hlookup).1
  · cases isPlus with
    | false => simp at h
    | true =>
      simp only [if_true, ingressEx, jwtKeyOf] at h
      split at h
      · simp at h
      · split at h
        · simp at h
        · have hfilter := mem_toList.mp h
          rw [hapi] at hfilter
          exact hget _ (mem_filter_iff.mp hfilter).1

theorem pemFileName_cases (isPlus : Bool) {tls} (htls : tls ∈ ing.tls) :
    (ingressEx lbc l ing).pemFileName tls = pemFileNameForMissingTLSSecret ∨
    ∃ secret ∈ (ingressEx lbc l ing).writtenSecrets isPlus,
      (ingressEx lbc l ing).pemFileName tls = getSecretFileName secret.objectMeta.fileName ∧
      (validateTLSSecret secret).isOk = true ∧
      secret.objectMeta.key = ing.objectMeta.ns ++ "/" ++ tls.secretName := by
  unfold IngressEx.pemFileName
  cases hlookup : (ingressEx lbc l ing).tlsSecrets.lookup tls.secretName with
  | none => exact .inl rfl
  | some secret =>
    obtain ⟨hget, hvalid⟩ := lookup_tlsSecretsOf hlookup
    refine .inr ⟨secret, mem_append_left _ (mem_filterMap.mpr ⟨tls, htls, hlookup⟩), rfl, hvalid, ?_⟩
    exact l.secrets.keyed _ _ hget

variable (lbc l ing r) in
structure Resource.IsMade : Prop where
  objectMeta : r.objectMeta = ing.objectMeta
  written : ∀ secret ∈ r.writtenSecrets lbc.isNginxPlus, secret ∈ l.secrets.items
  certificate : ∀ tls ∈ r.remembered.ingress.tls,
    r.remembered.pemFileName tls = pemFileNameForMissingTLSSecret ∨
    ∃ secret ∈ r.writtenSecrets lbc.isNginxPlus,
      r.remembered.pemFileName tls = getSecretFileName secret.objectMeta.fileName ∧
      (validateTLSSecret secret).isOk = true ∧
      ∃ tls ∈ ing.tls, secret.objectMeta.key = ing.objectMeta.ns ++ "/" ++ tls.secretName

theorem isMade_ingress (hapi : l.apiSecrets = l.secrets) (lbc : LBC) (ing : Ingress) :
    (Resource.ingress (ingressEx lbc l ing)).IsMade lbc l ing where
  objectMeta := rfl
  written _ h := mem_writtenSecrets hapi h
  certificate tls htls := (pemFileName_cases lbc.isNginxPlus htls).imp_right fun ⟨secret, hmem, hpem, hvalid, hkey⟩ =>
    ⟨secret, hmem, hpem, hvalid, tls, htls, hkey⟩

theorem isMade_mergeable (hapi : l.apiSecrets = l.secrets) {m}
    (h : createMergableIngresses lbc l o ing = some (.ok m)) : (Resource.mergeable m).IsMade lbc l ing := by
  obtain ⟨rule, _, _, _, hmaster, hminions⟩ := createMergableIngresses_ok h
  refine ⟨by rw [Resource.objectMeta, hmaster]; rfl, fun secret hsecret => ?_, fun tls htls => ?_⟩
  · rcases mem_append.mp hsecret with hsecret | hsecret
    · exact mem_writtenSecrets hapi (hmaster ▸ hsecret)
    · obtain ⟨minion, hminion, hsecret⟩ := mem_flatMap.mp hsecret
      obtain ⟨c, -, -, -, rfl⟩ := mem_getMinions hminions hminion
      exact mem_writtenSecrets hapi hsecret
  · have htls' : tls ∈ (emptyPaths ing rule.host).tls := by
      rw [show (Resource.mergeable m).remembered.ingress.tls = m.master.ingress.tls from rfl, hmaster] at htls
      exact htls
    have hpem : (Resource.mergeable m).remembered.pemFileName tls =
        (ingressEx lbc l (emptyPaths ing rule.host)).pemFileName tls := by
      rw [← hmaster]
      rfl
    rw [hpem]
    refine (pemFileName_cases lbc.isNginxPlus htls').imp_right ?_
    rintro ⟨secret, hmem, hpem, hvalid, hkey⟩
    exact ⟨secret, mem_append_left _ (hmaster ▸ hmem), hpem, hvalid, tls, htls', hkey⟩

theorem resourceOf_isMade {s} (hapi : s.listers.apiSecrets = s.listers.secrets)
    (h : resourceOf lbc o s ing = some (.ok r)) : r.IsMade lbc s.listers ing := by
  unfold resourceOf at h
  split at h
  · obtain ⟨res, hres, h⟩ := map_eq_some_iff.mp h
    cases res with
    | error err => cases h
    | ok m => exact Except.ok.inj h ▸ isMade_mergeable hapi hres
  · obtain ⟨ingEx, hex, h⟩ := map_eq_ok.mp (some.inj h)
    obtain ⟨_, rfl⟩ := createIngress_eq_ok.mp hex
    exact h ▸ isMade_ingress hapi lbc ing

variable (lbc ing) in
def Accepted : Prop := ∃ o s r, resourceOf lbc o s ing = some (.ok r)

theorem Accepted.again (h : Accepted lbc ing) {s res}
    (hres : resourceOf lbc o s ing = some res) : ∃ r, res = .ok r := by
  obtain ⟨o', s', r, h⟩ := h
  unfold resourceOf at h hres
  split at h
  · rename_i hmaster
    obtain ⟨res', hres', h⟩ := map_eq_some_iff.mp h
    cases res' with
    | error err => cases h
    | ok m =>
      obtain ⟨rule, hrule, hpaths, hvalid, _⟩ := createMergableIngresses_ok hres'
      simp only [hmaster, if_true, createMergableIngresses, hrule, hpaths, hvalid] at hres
      obtain ⟨_, hm, rfl⟩ := map_eq_some_iff.mp hres
      obtain ⟨minions, _, rfl⟩ := map_eq_some_iff.mp hm
      exact ⟨_, rfl⟩
  · rename_i hmaster
    obtain ⟨ingEx, hex, _⟩ := map_eq_ok.mp (some.inj h)
    obtain ⟨hvalid, _⟩ := createIngress_eq_ok.mp hex
    rw [if_neg hmaster, createIngress_eq_ok.mpr ⟨hvalid, rfl⟩] at hres
    exact ⟨_, (some.inj hres).symm⟩

end resources

variable {ing : Ingress}

section files
variable (lbc : LBC) (U : Set ObjectMeta) (l : Listers) (cnf : Configurator)

def Configurator.sslServers (isPlus : Bool) : List Server :=
  cnf.generated.entries.flatMap fun e => (e.2.nginxCfg isPlus).servers.filter (·.ssl)

/-- The file of a secret is the certificate of the valid TLS secret that the lister has. -/
def HoldsCertificate (m : ObjectMeta) : Prop :=
  ∃ secret, l.secrets.get m.key = some secret ∧ (validateTLSSecret secret).isOk = true ∧
    cnf.secretFiles.lookup (getSecretFileName m.fileName) =
      some ⟨generateCertAndKeyFileContent secret, tlsSecretFileMode⟩

structure Serves (ing : Ingress) : Prop where
  mem : ing ∈ l.ingresses.items
  own : lbc.isNginxIngress ing = true
  notMinion : ing.isMinion = false
  accepted : Accepted lbc ing
  configured : cnf.hasIngress ing = true

def Ingress.names (ing : Ingress) (key : String) : Prop :=
  ∃ tls ∈ ing.tls, key = ing.objectMeta.ns ++ "/" ++ tls.secretName

/-- The certificate of a server is missing, or it fits unless its secret is due. -/
def Backed (ing : Ingress) (due : String → Prop) (server : Server) : Prop :=
  server.sslCertificate = pemFileNameForMissingTLSSecret ∨
  ∃ m ∈ U, server.sslCertificate = getSecretFileName m.fileName ∧ ing.names m.key ∧
    (HoldsCertificate l cnf m ∨ due m.key)

/-- So it is for all servers of all configurations; what is due is due for a configuration. -/
def Certified (due : String → String → Prop) : Prop :=
  ∀ name g, cnf.generated.lookup name = some g → ∃ ing, ing.objectMeta.fileName = name ∧ Serves lbc l cnf ing ∧
    ∀ server ∈ (g.nginxCfg lbc.isNginxPlus).servers, server.ssl = true → Backed U l cnf ing (due name) server

variable {lbc U l cnf} {host : Host} {m : ObjectMeta}

theorem mem_sslServers {isPlus server} : server ∈ cnf.sslServers isPlus ↔
    ∃ name g, cnf.generated.lookup name = some g ∧ server ∈ (g.nginxCfg isPlus).servers ∧ server.ssl = true := by
  have hmem : ∀ (name : String) (g : Generated), ⟨name, g⟩ ∈ cnf.generated.entries ↔
      cnf.generated.lookup name = some g := fun name g => AList.mem_lookup_iff.symm
  simp [sslServers, Sigma.exists, hmem]

theorem secretFile_of_tls {secret} (h : (validateTLSSecret secret).isOk = true) :
    secretFile host secret = ⟨generateCertAndKeyFileContent secret, tlsSecretFileMode⟩ := by
  simp [secretFile, getSecretKind, h]

variable {due : String → String → Prop}

section secrets
variable (hU : Set.InjOn fileName U) (hl : ∀ secret ∈ l.secrets.items, secret.objectMeta ∈ U)
include hU hl

variable {secrets : List Secret}

theorem lookup_writeSecrets (host : Host) (cnf : Configurator) (hm : m ∈ U) {secret}
    (hsecret : l.secrets.get m.key = some secret) (hin : ∀ secret ∈ secrets, secret ∈ l.secrets.items) :
    (cnf.writeSecrets host secrets).secretFiles.lookup (getSecretFileName m.fileName) =
        some (secretFile host secret) ∨
      (secret ∉ secrets ∧ (cnf.writeSecrets host secrets).secretFiles.lookup (getSecretFileName m.fileName) =
        cnf.secretFiles.lookup (getSecretFileName m.fileName)) := by
  obtain ⟨secret', hmem, hfile, hlookup⟩ | ⟨hno, hlookup⟩ := Table.lookup_foldl_insert
    (fun secret : Secret => getSecretFileName secret.objectMeta.fileName) (secretFile host) secrets
    cnf.secretFiles (getSecretFileName m.fileName)
  · -- the file name tells whose secret it is
    obtain rfl : secret'.objectMeta = m :=
      hU (hl secret' (hin secret' hmem)) hm (getSecretFileName_inj.mp hfile)
    obtain rfl : secret' = secret := some.inj ((mem_items.mp (hin secret' hmem)).symm.trans hsecret)
    exact .inl hlookup
  · refine .inr ⟨fun hmem => hno secret hmem ?_, hlookup⟩
    rw [key_inj.mp (l.secrets.keyed _ _ hsecret)]

theorem HoldsCertificate.writeSecrets (h : HoldsCertificate l cnf m) (hm : m ∈ U)
    (hin : ∀ secret ∈ secrets, secret ∈ l.secrets.items) :
    HoldsCertificate l (cnf.writeSecrets host secrets) m := by
  obtain ⟨secret, hsecret, hvalid, hfile⟩ := h
  refine ⟨secret, hsecret, hvalid, ?_⟩
  rcases lookup_writeSecrets hU hl host cnf hm hsecret hin with hlookup | ⟨_, hlookup⟩
  · rw [hlookup, secretFile_of_tls hvalid]
  · rw [hlookup, hfile]

theorem holds_of_written (hin : ∀ secret ∈ secrets, secret ∈ l.secrets.items) {secret}
    (hsecret : secret ∈ secrets) (hvalid : (validateTLSSecret secret).isOk = true) :
    HoldsCertificate l (cnf.writeSecrets host secrets) secret.objectMeta := by
  have hget := mem_items.mp (hin secret hsecret)
  refine ⟨secret, hget, hvalid, ?_⟩
  rcases lookup_writeSecrets hU hl host cnf (hl secret (hin secret hsecret)) hget hin with hlookup | ⟨hno, _⟩
  · rw [hlookup, secretFile_of_tls hvalid]
  · exact absurd hsecret hno

/-- A configuration is generated again: it fits, and nothing else gets worse. -/
theorem Certified.regenerate (h : Certified lbc U l cnf due)
    (ht : ∀ cfg, (cnf.ingressTemplate cfg).isOk = true) {r}
    (hing : ing ∈ l.ingresses.items) (hown : lbc.isNginxIngress ing = true)
    (hminion : ing.isMinion = false) (haccepted : Accepted lbc ing) (hr : r.IsMade lbc l ing) :
    Certified lbc U l (cnf.regenerate lbc.host r).1 fun name key => due name key ∧ name ≠ r.name := by
  have hfiles : (cnf.regenerate lbc.host r).1.secretFiles =
      (cnf.writeSecrets lbc.host (r.writtenSecrets lbc.isNginxPlus)).secretFiles := regenerate_secretFiles
  have hholds : ∀ m, HoldsCertificate l (cnf.writeSecrets lbc.host (r.writtenSecrets lbc.isNginxPlus)) m →
      HoldsCertificate l (cnf.regenerate lbc.host r).1 m := by
    rintro m ⟨secret, hsecret, hvalid, hfile⟩
    exact ⟨secret, hsecret, hvalid, hfiles ▸ hfile⟩
  intro name g hg
  rw [regenerate_generated] at hg
  rcases Table.lookup_insert_iff.mp hg with ⟨rfl, rfl⟩ | ⟨hne, hg⟩
  · have hname : r.name = ing.objectMeta.fileName := congrArg fileName hr.objectMeta
    have hok : (cnf.regenerate lbc.host r).2 = .ok () := by
      obtain ⟨err, herr, _⟩ | ⟨content, _, hreg⟩ := regenerate_cases lbc.host cnf r
      · simpa [herr, Except.isOk, Except.toBool] using ht (r.nginxCfg lbc.host.isPlus cnf.config)
      · rw [hreg]
    refine ⟨ing, hname.symm, ⟨hing, hown, hminion, haccepted, hasIngress_of_ok hok hname⟩, ?_⟩
    intro server hserver hssl
    obtain ⟨tls, htls, hcert⟩ := Resource.ssl_server hserver hssl
    rcases hr.certificate tls htls with hmissing | ⟨secret, hsecret, hpem, hvalid, hkey⟩
    · exact .inl (hcert.trans hmissing)
    · exact .inr ⟨secret.objectMeta, hl secret (hr.written secret hsecret), hcert.trans hpem, hkey,
        .inl (hholds _ (holds_of_written hU hl hr.written hsecret hvalid))⟩
  · obtain ⟨ing', hname, hserves, hservers⟩ := h name g hg
    refine ⟨ing', hname, { hserves with configured := hasIngress_regenerate hserves.configured }, ?_⟩
    intro server hserver hssl
    refine (hservers server hserver hssl).imp_right ?_
    rintro ⟨m, hm, hcert, hnames, hfits⟩
    refine ⟨m, hm, hcert, hnames, ?_⟩
    exact hfits.imp (fun hholds' => hholds m (hholds'.writeSecrets hU hl hm hr.written)) fun hdue => ⟨hdue, hne⟩

theorem Certified.regenerateAll (h : Certified lbc U l cnf due)
    (ht : ∀ cfg, (cnf.ingressTemplate cfg).isOk = true)
    (hrs : ∀ r ∈ rs, ∃ ing ∈ l.ingresses.items, lbc.isNginxIngress ing = true ∧ ing.isMinion = false ∧
      Accepted lbc ing ∧ r.IsMade lbc l ing) :
    Certified lbc U l (regenerateAll lbc.host errorAt cnf rs).1 fun name key =>
      due name key ∧ ∀ r ∈ rs, name ≠ r.name := by
  induction rs generalizing cnf due with
  | nil => simpa [regenerateAll] using h
  | cons r rs ih =>
    obtain ⟨ing, hing, hown, hminion, haccepted, hr⟩ := hrs r mem_cons_self
    have hfirst := h.regenerate hU hl ht hing hown hminion haccepted hr
    have hrest := ih hfirst (by rwa [regenerate_ingressTemplate]) fun r' hr' =>
      hrs r' (mem_cons_of_mem r hr')
    rw [(regenerateAll_cons_ok (regenerateAll_ok ht)).2]
    simpa [and_assoc] using hrest

end secrets

theorem Certified.mono {due'} (h : Certified lbc U l cnf due)
    (himp : ∀ ing, Serves lbc l cnf ing → ∀ m : ObjectMeta, ing.names m.key →
      (∃ server ∈ cnf.sslServers lbc.isNginxPlus, server.sslCertificate = getSecretFileName m.fileName) →
      due ing.objectMeta.fileName m.key → due' ing.objectMeta.fileName m.key) : Certified lbc U l cnf due' := by
  intro name g hg
  obtain ⟨ing, rfl, hserves, hservers⟩ := h name g hg
  refine ⟨ing, rfl, hserves, fun server hserver hssl => ?_⟩
  refine (hservers server hserver hssl).imp_right fun ⟨m, hm, hcert, hnames, hfits⟩ => ⟨m, hm, hcert, hnames, ?_⟩
  exact hfits.imp_right (himp ing hserves m hnames ⟨server, mem_sslServers.mpr ⟨_, g, hg, hserver, hssl⟩, hcert⟩)

theorem Certified.transfer {due' l' cnf'}
    (h : Certified lbc U l cnf due) (hing : ∀ ing ∈ l.ingresses.items, ing ∈ l'.ingresses.items)
    (hgen : cnf'.generated = cnf.generated) (hconf : cnf'.ingresses = cnf.ingresses)
    (hholds : ∀ m ∈ U, HoldsCertificate l cnf m → HoldsCertificate l' cnf' m ∨ ∀ name, due' name m.key)
    (hdue : ∀ name key, due name key → due' name key) : Certified lbc U l' cnf' due' := by
  intro name g hg
  obtain ⟨ing, hname, hserves, hservers⟩ := h name g (hgen ▸ hg)
  refine ⟨ing, hname, ⟨hing ing hserves.mem, hserves.own, hserves.notMinion, hserves.accepted, ?_⟩, ?_⟩
  · rw [hasIngress, hconf]
    exact hserves.configured
  · intro server hserver hssl
    refine (hservers server hserver hssl).imp_right ?_
    rintro ⟨m, hm, hcert, hnames, hfits⟩
    refine ⟨m, hm, hcert, hnames, ?_⟩
    rcases hfits with hfits | hfits
    · exact (hholds m hm hfits).imp_right fun hdue => hdue name
    · exact .inr (hdue name m.key hfits)

variable (U m) in
/-- Operations that change the file of one secret, and nothing else that matters here. -/
structure TouchesOnly (cnf' cnf : Configurator) : Prop where
  generated : cnf'.generated = cnf.generated
  ingresses : cnf'.ingresses = cnf.ingresses
  ingressTemplate : cnf'.ingressTemplate = cnf.ingressTemplate
  files : ∀ m' ∈ U, m' ≠ m → cnf'.secretFiles.lookup (getSecretFileName m'.fileName) =
    cnf.secretFiles.lookup (getSecretFileName m'.fileName)

theorem TouchesOnly.refl (cnf : Configurator) : TouchesOnly U m cnf cnf := ⟨rfl, rfl, rfl, fun _ _ _ => rfl⟩

theorem TouchesOnly.trans {cnf1 cnf2 cnf3} (h1 : TouchesOnly U m cnf2 cnf1)
    (h2 : TouchesOnly U m cnf3 cnf2) : TouchesOnly U m cnf3 cnf1 where
  generated := h2.generated.trans h1.generated
  ingresses := h2.ingresses.trans h1.ingresses
  ingressTemplate := h2.ingressTemplate.trans h1.ingressTemplate
  files m' hm' hne := (h2.files m' hm' hne).trans (h1.files m' hm' hne)

theorem touchesOnly_writeSecrets (hU : Set.InjOn fileName U) (host : Host) (cnf : Configurator)
    {secret} (hsecret : secret.objectMeta ∈ U) :
    TouchesOnly U secret.objectMeta (cnf.writeSecrets host [secret]) cnf where
  generated := rfl
  ingresses := rfl
  ingressTemplate := rfl
  files _ hm' hne :=
    AList.lookup_insert_ne (mt getSecretFileName_inj.mp fun he => hne (hU hm' hsecret he))

theorem touchesOnly_removeSecretFile (hU : Set.InjOn fileName U) (cnf : Configurator) (hm : m ∈ U) :
    TouchesOnly U m (cnf.removeSecretFile (keyToFileName m.key)) cnf where
  generated := rfl
  ingresses := rfl
  ingressTemplate := rfl
  files m' hm' hne := by
    rw [keyToFileName_key]
    exact AList.lookup_erase_ne (mt getSecretFileName_inj.mp fun he => hne (hU hm' hm he))

theorem getSecretFileName_ne_default (m : ObjectMeta) :
    getSecretFileName m.fileName ≠ getSecretFileName defaultServerSecretName := by
  rw [getSecretFileName_fileName, show getSecretFileName defaultServerSecretName =
    "/etc/nginx/secrets/" ++ "default" by decide +kernel]
  intro he
  have hname : m.fileName = "default" := by
    rw [← String.toList_inj] at he ⊢
    simpa using he
  exact absurd (hname ▸ m.dash_fileName) (by decide)

theorem touchesOnly_default (host : Host) (cnf : Configurator) (secret : Secret) :
    TouchesOnly U m (cnf.addOrUpdateDefaultServerTLSSecret host secret).1 cnf where
  generated := rfl
  ingresses := rfl
  ingressTemplate := rfl
  files m' _ _ := AList.lookup_insert_ne (getSecretFileName_ne_default m')

end files

section runs
variable (lbc : LBC) (U : Set ObjectMeta) (s : State)

/-- The certificate of a server is the default one for a missing secret, or a file with what the
valid TLS secret of that name in the lister has. -/
def CertificateFits (server : Server) : Prop :=
  server.sslCertificate = pemFileNameForMissingTLSSecret ∨
  ∃ secret ∈ s.listers.secrets.items, server.sslCertificate = getSecretFileName secret.objectMeta.fileName ∧
    (validateTLSSecret secret).isOk = true ∧
    (s.cnf.secretFiles.lookup server.sslCertificate).map (·.content) = some (generateCertAndKeyFileContent secret)

instance (server : Server) : Decidable (CertificateFits s server) :=
  inferInstanceAs (Decidable (_ ∨ ∃ secret ∈ _, _))

/-- So it is for all servers of all configurations last generated. -/
def CertificatesFit : Prop := ∀ server ∈ s.cnf.sslServers lbc.isNginxPlus, CertificateFits s server

instance : Decidable (CertificatesFit lbc s) := inferInstanceAs (Decidable (∀ server ∈ _, _))

/-- An event about a secret of a set, a resync of an ingress that has not changed, or a move of the
worker. -/
def SecretEvent : Label → Prop
  | .secret c => c.known = true ∧ c.objectMeta Secret.objectMeta ∈ U
  | .ingress (.update cur _) _ => cur ∈ s.listers.ingresses.items
  | .sync _ | .wake _ => True
  | _ => False

instance [DecidablePred (· ∈ U)] : DecidablePred (SecretEvent U s)
  | .secret _ => inferInstanceAs (Decidable (_ ∧ _))
  | .ingress (.update _ _) _ => inferInstanceAs (Decidable (_ ∈ _))
  | .sync _ | .wake _ => .isTrue trivial
  | .ingress (.add _) _ | .ingress (.delete _ _) _ | .service _ _ | .endpoints _ | .configMap _ _ => .isFalse id

def KeepsCertificates : Label → Prop
  | .sync _ => lbc.isNginxPlus = true → ∀ t ∈ s.queue.head?, t.kind = .secret →
      ∀ secret ∈ s.listers.secrets.get t.key, (getSecretKind secret).1 = .jwk →
        ∀ server ∈ s.cnf.sslServers lbc.isNginxPlus,
          server.sslCertificate ≠ getSecretFileName secret.objectMeta.fileName
  | _ => True

instance : DecidablePred (KeepsCertificates lbc s)
  | .sync _ => inferInstanceAs (Decidable (_ → ∀ t ∈ s.queue.head?, _ → ∀ secret ∈ _, _ → ∀ server ∈ _, _))
  | .secret _ | .ingress _ _ | .wake _ | .service _ _ | .endpoints _ | .configMap _ _ => .isTrue trivial

def IsTask (l : Listers) (t : Task) : Prop :=
  (t.kind = .ingress ∧ ∃ ing ∈ l.ingresses.items, lbc.isNginxIngress ing = true ∧ ing.isMinion = false ∧
      t.key = ing.objectMeta.key) ∨
    t.kind = .ingressMinion ∨ (t.kind = .secret ∧ ∃ m ∈ U, t.key = m.key)

/-- Between the events: a certificate fits unless the task of its secret is queued. -/
structure Certifying : Prop where
  tasks : s.OnlyTasks (IsTask lbc U s.listers)
  secrets : ∀ secret ∈ s.listers.secrets.items, secret.objectMeta ∈ U
  api : s.listers.apiSecrets = s.listers.secrets
  template : TemplateWorks s
  certified : Certified lbc U s.listers s.cnf fun _ key => ⟨.secret, key⟩ ∈ s.queue

end runs

section steps
variable {lbc : LBC} {s s' : State}

/-- All that an event about a secret can do. Unless a task is queued, the lister has the same secret
as before, or one that was not valid is gone. -/
theorem step_secret_cases {c} (h : step lbc (.secret c) s = some s') (hknown : c.known = true) :
    ∃ l : Lister Secret Secret.objectMeta,
      (∀ key, key ≠ (c.objectMeta Secret.objectMeta).key → l.get key = s.listers.secrets.get key) ∧
      (s' = (s.withSecrets l).enqueue ⟨.secret, (c.objectMeta Secret.objectMeta).key⟩ ∨
        (s' = s.withSecrets l ∧ ((∀ key, l.get key = s.listers.secrets.get key) ∨
            ∀ old ∈ s.listers.secrets.get (c.objectMeta Secret.objectMeta).key,
              (lbc.validateSecret old).isOk = false))) := by
  obtain ⟨r, hr, rfl⟩ := map_eq_some_iff.mp h
  refine ⟨r.2, fun key hne => apply_get_ne hr hne, ?_⟩
  unfold secretHandler selfHandler
  split
  · exact .inl rfl
  · rename_i hno
    refine .inr ⟨rfl, ?_⟩
    obtain hsame | ⟨m, rfl⟩ | ⟨hold, _⟩ := not_enqueues_cases hr (by simpa using hno)
    · exact .inl hsame
    · cases hknown
    · exact .inr hold

theorem secretResource_cases {res} (h : secretResource lbc o s ing = some res) :
    (ing.isMinion = false ∧ ∃ r, resourceOf lbc o s ing = some r ∧ res = r.toOption) ∨
    (ing.isMinion = true ∧ (res = none ∨ ∃ master r, findMasterForMinion lbc s.listers o s.cnf ing = some (.ok master) ∧
      resourceOf lbc o s master = some r ∧ res = r.toOption)) := by
  have hmerge : ∀ (master : Ingress) res', master.isMaster = true →
      ((createMergableIngresses lbc s.listers o master).map fun r => r.toOption.map Resource.mergeable) = some res' →
      ∃ r, resourceOf lbc o s master = some r ∧ res' = r.toOption := by
    intro master res' hmaster hres
    obtain ⟨r, hr, rfl⟩ := map_eq_some_iff.mp hres
    refine ⟨r.map .mergeable, by simp [resourceOf, hmaster, hr], ?_⟩
    cases r <;> rfl
  unfold secretResource at h
  split at h
  · rename_i hmaster
    exact .inl ⟨Ingress.not_isMinion_of_isMaster hmaster, hmerge ing res hmaster h⟩
  · rename_i hmaster
    split at h
    · rename_i hminion
      refine .inr ⟨hminion, ?_⟩
      obtain ⟨found, hfound, h⟩ := bind_eq_some_iff.mp h
      cases found with
      | error err => exact .inl (some.inj h).symm
      | ok master =>
        obtain ⟨r, hr, hres⟩ := hmerge master res (findMaster_ok hfound).2.2.2.1 h
        exact .inr ⟨master, r, hfound, hr, hres⟩
    · rename_i hminion
      refine .inl ⟨by simpa using hminion, _, if_neg hmaster, ?_⟩
      cases hex : createIngress lbc s.listers ing with
      | error err => simp [hex, Except.toOption] at h
      | ok ingEx => simpa [hex, Except.toOption, Except.map, eq_comm] using h

theorem mem_inOrder {r} : r ∈ inOrder rs ↔ r ∈ rs := by
  cases hm : r.merged <;> simp [inOrder, hm]

theorem createIngresses_made (hapi : s.listers.apiSecrets = s.listers.secrets) {ings}
    (hings : ∀ ing ∈ ings, ing ∈ s.listers.ingresses.items ∧ lbc.isNginxIngress ing = true)
    (h : createIngresses lbc o s ings = some rs) {r} (hr : r ∈ rs) :
    ∃ ing ∈ s.listers.ingresses.items, lbc.isNginxIngress ing = true ∧ ing.isMinion = false ∧ Accepted lbc ing ∧
      r.IsMade lbc s.listers ing := by
  have hmade : ∀ ing (r' : Except String Resource), resourceOf lbc o s ing = some r' → some r = r'.toOption →
      Accepted lbc ing ∧ r.IsMade lbc s.listers ing := by
    intro ing r' hr' he
    cases r' with
    | error err => cases he
    | ok r' =>
      obtain rfl := some.inj he
      exact ⟨⟨o, s, r, hr'⟩, resourceOf_isMade hapi hr'⟩
  obtain ⟨rs', hrs, rfl⟩ := map_eq_some_iff.mp h
  obtain ⟨ing, hing, hres⟩ := (mem_gather hrs).mp (mem_inOrder.mp hr)
  rcases secretResource_cases hres with ⟨hminion, r', hr', he⟩ | ⟨_, he | ⟨master, r', hmaster, hr', he⟩⟩
  · exact ⟨ing, (hings ing hing).1, (hings ing hing).2, hminion, hmade ing r' hr' he⟩
  · cases he
  · obtain ⟨hin, hown, _, hismaster, _⟩ := findMaster_ok hmaster
    exact ⟨master, (o.perm _ _).mem_iff.mp hin, hown, Ingress.not_isMinion_of_isMaster hismaster,
      hmade master r' hr' he⟩

theorem createIngresses_covers {ings} (h : createIngresses lbc o s ings = some rs)
    (hing : ing ∈ ings) (hminion : ing.isMinion = false) (haccepted : Accepted lbc ing) :
    ∃ r ∈ rs, r.name = ing.objectMeta.fileName := by
  obtain ⟨rs', hrs, rfl⟩ := map_eq_some_iff.mp h
  obtain ⟨res, hres⟩ := exists_of_gather hrs hing
  rcases secretResource_cases hres with ⟨_, r', hr', rfl⟩ | ⟨hm, _⟩
  · obtain ⟨r, rfl⟩ := haccepted.again hr'
    exact ⟨r, mem_inOrder.mpr ((mem_gather hrs).mpr ⟨ing, hing, hres⟩),
      congrArg fileName (resourceOf_objectMeta hr')⟩
  · rw [hminion] at hm
    cases hm

theorem mem_findIngressesForSecret {ns name ings} (h : findIngressesForSecret lbc o s ns name = some ings) :
    ing ∈ ings ↔ ing ∈ s.listers.ingresses.items ∧ refersToSecret lbc o s ns name ing = some true := by
  rw [mem_gather h]
  simp only [(o.perm _ _).mem_iff, map_eq_some_iff]
  constructor
  · intro ⟨a, ha, b, hb, hsome⟩
    cases b with
    | false => cases hsome
    | true =>
      obtain rfl : a = ing := some.inj hsome
      exact ⟨ha, hb⟩
  · intro ⟨ha, hb⟩
    exact ⟨ing, ha, true, hb, rfl⟩

theorem own_of_refersToSecret {ns name} (h : refersToSecret lbc o s ns name ing = some true) :
    ing.objectMeta.ns = ns ∧ lbc.isNginxIngress ing = true := by
  unfold refersToSecret at h
  dsimp only at h
  split at h
  · cases h
  · rename_i hno
    simpa using hno

theorem refersToSecret_iff {ns name} (hm : ing.isMinion = false) :
    refersToSecret lbc o s ns name ing = some true ↔
      ing.objectMeta.ns = ns ∧ lbc.isNginxIngress ing = true ∧ s.cnf.hasIngress ing = true ∧
        ((∃ tls ∈ ing.tls, tls.secretName = name) ∨
          lbc.isNginxPlus = true ∧ ing.annotated jwtKeyAnnotation = some name) := by
  by_cases hown : ing.objectMeta.ns = ns ∧ lbc.isNginxIngress ing = true
  · simp [refersToSecret, hown.1, hown.2, hm]
  · exact ⟨fun href => absurd (own_of_refersToSecret href) hown, fun hall => absurd ⟨hall.1, hall.2.1⟩ hown⟩

theorem Serves.refersToSecret (h : Serves lbc s.listers s.cnf ing) {m : ObjectMeta}
    (hnames : ing.names m.key) : refersToSecret lbc o s m.ns m.name ing = some true := by
  obtain ⟨tls, htls, hkey⟩ := hnames
  obtain ⟨hns, hname⟩ := m.key_eq_iff.mp hkey
  have hany : ing.tls.any (fun tls => tls.secretName = m.name) = true :=
    any_eq_true.mpr ⟨tls, htls, decide_eq_true hname.symm⟩
  simp [Nginx.refersToSecret, hns, h.own, h.notMinion, h.configured, hany]

end steps

namespace Certifying
variable {lbc : LBC} {U : Set ObjectMeta} {o : Order} {s s' : State}

theorem fit (h : Certifying lbc U s) (hq : s.queue = []) : CertificatesFit lbc s := by
  intro server hserver
  obtain ⟨name, g, hg, hserver, hssl⟩ := mem_sslServers.mp hserver
  obtain ⟨ing, _, _, hservers⟩ := h.certified name g hg
  rcases hservers server hserver hssl with hmissing | ⟨m, _, hcert, _, hholds | hdue⟩
  · exact .inl hmissing
  · obtain ⟨secret, hsecret, hvalid, hfile⟩ := hholds
    obtain rfl := key_inj.mp (s.listers.secrets.keyed _ _ hsecret)
    exact .inr ⟨secret, mem_items.mpr hsecret, hcert, hvalid, by rw [hcert, hfile, map_some]⟩
  · simp [hq] at hdue

theorem of_empty (lbc : LBC) (hsecrets : ∀ secret ∈ s.listers.secrets.items, secret.objectMeta ∈ U)
    (hapi : s.listers.apiSecrets = s.listers.secrets) (htemplate : TemplateWorks s) (hgen : s.cnf.generated = ∅)
    (hq : s.queue = []) (hd : s.delayed = []) : Certifying lbc U s where
  tasks := .of_nil hq hd
  secrets := hsecrets
  api := hapi
  template := htemplate
  certified name g hg := by simp [hgen] at hg

theorem requeue (h : Certifying lbc U s) (hl : s'.listers = s.listers) (hcnf : s'.cnf = s.cnf)
    (htasks : s'.OnlyTasks (IsTask lbc U s.listers))
    (hkeep : ∀ key, ⟨.secret, key⟩ ∈ s.queue → ⟨.secret, key⟩ ∈ s'.queue) : Certifying lbc U s' where
  tasks := hl ▸ htasks
  secrets := hl ▸ h.secrets
  api := hl ▸ h.api
  template := by
    unfold TemplateWorks
    rw [hcnf]
    exact h.template
  certified := by
    rw [hl, hcnf]
    exact h.certified.mono fun ing _ m _ _ hdue => hkeep m.key hdue

theorem put_same (h : Certifying lbc U s) (hing : ing ∈ s.listers.ingresses.items) :
    Certifying lbc U (s.withIngresses (s.listers.ingresses.put ing)) where
  tasks t ht := by
    refine (h.tasks t ht).imp_left fun ⟨hkind, ing', hing', hrest⟩ => ⟨hkind, ing', ?_, hrest⟩
    exact (mem_put_of_mem hing).mpr hing'
  secrets := h.secrets
  api := h.api
  template := h.template
  certified := h.certified.transfer (fun _ hing' => (mem_put_of_mem hing).mpr hing') rfl rfl
    (fun _ _ hholds => .inl hholds) fun _ _ hdue => hdue

section secret
variable {m : ObjectMeta} {l : Lister Secret Secret.objectMeta}

theorem withSecrets (h : Certifying lbc U s) (hm : m ∈ U)
    (hl : ∀ key, key ≠ m.key → l.get key = s.listers.secrets.get key)
    (htasks : s'.OnlyTasks (IsTask lbc U s.listers)) (hlisters : s'.listers = (s.withSecrets l).listers)
    (hcnf : s'.cnf = s.cnf) (hkeep : ∀ t ∈ s.queue, t ∈ s'.queue) (hdue : HoldsCertificate s.listers s.cnf m →
      HoldsCertificate s'.listers s'.cnf m ∨ ⟨.secret, m.key⟩ ∈ s'.queue) : Certifying lbc U s' where
  tasks := by
    rw [hlisters]
    exact htasks
  secrets secret hsecret := by
    have hget : l.get secret.objectMeta.key = some secret := by
      rw [hlisters] at hsecret
      exact mem_items.mp hsecret
    by_cases hkey : secret.objectMeta.key = m.key
    · exact key_inj.mp hkey ▸ hm
    · exact h.secrets secret (mem_items.mpr ((hl _ hkey).symm.trans hget))
  api := by
    rw [hlisters]
    rfl
  template := by
    unfold TemplateWorks
    rw [hcnf]
    exact h.template
  certified := by
    refine h.certified.transfer (fun ing hing => ?_) (by rw [hcnf]) (by rw [hcnf]) (fun m' _ hholds => ?_)
      fun _ key hin => hkeep _ hin
    · rw [hlisters]
      exact hing
    · by_cases hkey : m'.key = m.key
      · obtain rfl := key_inj.mp hkey
        exact (hdue hholds).imp_right fun hin _ => hin
      · obtain ⟨secret, hsecret, hvalid, hfile⟩ := hholds
        refine .inl ⟨secret, ?_, hvalid, hcnf ▸ hfile⟩
        rw [hlisters]
        exact (hl _ hkey).trans hsecret

theorem secret_event (h : Certifying lbc U s) {c} (hknown : c.known = true)
    (hm : c.objectMeta Secret.objectMeta ∈ U) (hs : step lbc (.secret c) s = some s') : Certifying lbc U s' := by
  obtain ⟨l, hl, rfl | ⟨rfl, hcase⟩⟩ := step_secret_cases hs hknown
  · refine h.withSecrets hm hl ?_ (by simp) (by simp [State.withSecrets]) (fun t ht => by simp [State.withSecrets, ht])
      fun _ => .inr (by simp)
    exact State.OnlyTasks.enqueue (s := s.withSecrets l) h.tasks (.inr (.inr ⟨rfl, _, hm, rfl⟩))
  · refine h.withSecrets hm hl h.tasks rfl rfl (fun t ht => ht) fun ⟨secret, hsecret, hvalid, hfile⟩ => ?_
    rcases hcase with hsame | hinvalid
    · exact .inl ⟨secret, (hsame _).trans hsecret, hvalid, hfile⟩
    · -- a secret with a certificate is valid, so its task would be queued
      have hno := hinvalid secret hsecret
      rw [LBC.isOk_validateSecret, hvalid] at hno
      cases hno

end secret

section sync
variable {key : String} {ts : List Task}

theorem syncIng (hU : Set.InjOn fileName U) (h : Certifying lbc U s)
    (hq : s.queue = ⟨.ingress, key⟩ :: ts) (hs : Nginx.syncIng lbc o { s with queue := ts } key = some s') :
    Certifying lbc U s' := by
  have hqueue : ∀ key', ⟨.secret, key'⟩ ∈ s.queue → ⟨.secret, key'⟩ ∈ ts := by simp [hq]
  have htail : Certifying lbc U { s with queue := ts } := h.requeue rfl rfl (h.tasks.tail hq) hqueue
  have htask := h.tasks.head hq
  obtain ⟨ing, hing, hown, hminion, rfl⟩ : ∃ ing ∈ s.listers.ingresses.items, lbc.isNginxIngress ing = true ∧
      ing.isMinion = false ∧ key = ing.objectMeta.key := by simpa [IsTask] using htask
  have hget := mem_items.mp hing
  obtain ⟨hnone, _⟩ | ⟨ing', hget', hcase⟩ := syncIng_cases hs
  · cases hnone.symm.trans hget
  · obtain rfl : ing = ing' := some.inj (hget.symm.trans hget')
    obtain ⟨r, v, hr, rfl⟩ | ⟨err, _, rfl⟩ := hcase
    · refine ⟨htail.tasks, h.secrets, h.api, ?_, ?_⟩
      · intro cfg
        simpa using h.template cfg
      · have hmade := htail.certified.regenerate hU h.secrets h.template hing hown hminion ⟨o, _, r, hr⟩
          (resourceOf_isMade h.api hr)
        exact hmade.transfer (fun _ hin => hin) rfl rfl (fun _ _ hholds => .inl hholds) fun _ _ hdue => hdue.1
    · split
      · exact htail.requeue rfl rfl (htail.tasks.requeueAfter htask) fun _ hin => hin
      · exact htail

theorem isTask_task {l} (hing : ing ∈ l.ingresses.items)
    (hown : lbc.isNginxIngress ing = true) : IsTask lbc U l ing.task := by
  cases hm : ing.isMinion with
  | true => exact .inr (.inl (by simp [Ingress.task, hm]))
  | false => exact .inl ⟨by simp [Ingress.task, hm], ing, hing, hown, hm, rfl⟩

theorem isTask_master {master} (h : findMasterForMinion lbc s.listers o s.cnf ing = some (.ok master)) :
    IsTask lbc U s.listers master.task := by
  obtain ⟨hin, hown, _⟩ := findMaster_ok h
  exact isTask_task ((o.perm _ _).mem_iff.mp hin) hown

theorem syncIngMinion (h : Certifying lbc U s) (hq : s.queue = ⟨.ingressMinion, key⟩ :: ts)
    (hs : Nginx.syncIngMinion lbc o { s with queue := ts } key = some s') : Certifying lbc U s' := by
  have htail : Certifying lbc U { s with queue := ts } := h.requeue rfl rfl (h.tasks.tail hq) (by simp [hq])
  refine syncIngMinion_keeps hs htail ?_ fun t minion master hl hfound ht => ?_
  · exact htail.requeue rfl rfl (htail.tasks.requeueAfter (.inr (.inl rfl))) fun _ hin => hin
  · refine ht.requeue (by simp) (by simp) (ht.tasks.enqueue (hl ▸ isTask_master hfound)) fun _ hin => ?_
    simp [hin]

variable {m : ObjectMeta}

theorem touched (h : Certifying lbc U s) (hq : s.queue = ⟨.secret, m.key⟩ :: ts) {cnf}
    (htouch : TouchesOnly U m cnf s.cnf) :
    Certified lbc U s.listers cnf fun _ key => ⟨.secret, key⟩ ∈ ts ∨ key = m.key := by
  refine h.certified.transfer (fun _ hing => hing) htouch.generated htouch.ingresses (fun m' hm' hholds => ?_)
    fun _ key hin => by simpa [hq, or_comm] using hin
  by_cases hne : m' = m
  · exact .inr fun _ => .inr (hne ▸ rfl)
  · obtain ⟨secret, hsecret, hvalid, hfile⟩ := hholds
    exact .inl ⟨secret, hsecret, hvalid, (htouch.files m' hm' hne).trans hfile⟩

theorem synced (hU : Set.InjOn fileName U) (h : Certifying lbc U s)
    (hq : s.queue = ⟨.secret, m.key⟩ :: ts) {cnf1 cnf2} (htouch : TouchesOnly U m cnf1 s.cnf)
    (hrs : ∀ r ∈ rs, ∃ ing ∈ s.listers.ingresses.items, lbc.isNginxIngress ing = true ∧
      ing.isMinion = false ∧ Accepted lbc ing ∧ r.IsMade lbc s.listers ing)
    (hcover : ∀ ing, Serves lbc s.listers s.cnf ing → ing.names m.key → ∃ r ∈ rs, r.name = ing.objectMeta.fileName)
    (hsame : SameButVersion cnf2 (regenerateAll lbc.host errorAt cnf1 rs).1) :
    Certifying lbc U { s with queue := ts, cnf := cnf2 } := by
  obtain ⟨v, rfl⟩ := hsame
  have ht : ∀ cfg, (cnf1.ingressTemplate cfg).isOk = true := by
    rw [htouch.ingressTemplate]
    exact h.template
  refine ⟨h.tasks.tail hq, h.secrets, h.api, ?_, ?_⟩
  · intro cfg
    simpa [regenerateAll_ingressTemplate] using ht cfg
  · have hall := (h.touched hq htouch).regenerateAll hU h.secrets ht hrs
    have hdone : Certified lbc U s.listers (regenerateAll lbc.host errorAt cnf1 rs).1
        fun _ key => ⟨.secret, key⟩ ∈ ts := by
      refine hall.mono fun ing hserves m' hnames _ ⟨hdue, hno⟩ => hdue.resolve_right fun hkey => ?_
      -- the configuration of an ingress with the secret is among those generated again
      have hsame : cnf1.hasIngress ing = s.cnf.hasIngress ing := by
        rw [hasIngress, htouch.ingresses, hasIngress]
      have hconf : s.cnf.hasIngress ing = true := by
        rw [← hserves.configured, ← hsame, regenerateAll_hasIngress fun r hr => Ne.symm (hno r hr)]
      obtain ⟨r, hr, hname⟩ := hcover ing { hserves with configured := hconf } (hkey ▸ hnames)
      exact hno r hr hname.symm
    exact hdone.transfer (fun _ hin => hin) rfl rfl (fun _ _ hholds => .inl hholds) fun _ _ hdue => hdue

theorem synced_jwk (h : Certifying lbc U s) {secret} (hq : s.queue = ⟨.secret, secret.objectMeta.key⟩ :: ts)
    (hget : s.listers.secrets.get secret.objectMeta.key = some secret) (hplus : lbc.isNginxPlus = true)
    (hjwk : (getSecretKind secret).1 = .jwk) (hkeep : KeepsCertificates lbc s (.sync o)) {cnf}
    (htouch : TouchesOnly U secret.objectMeta cnf s.cnf) : Certifying lbc U { s with queue := ts, cnf := cnf } := by
  refine ⟨h.tasks.tail hq, h.secrets, h.api, ?_, ?_⟩
  · intro cfg
    rw [show cnf.ingressTemplate = s.cnf.ingressTemplate from htouch.ingressTemplate]
    exact h.template cfg
  · refine (h.touched hq htouch).mono fun ing _ m _ ⟨server, hserver, hcert⟩ hdue => hdue.resolve_right fun hkey => ?_
    have hservers : cnf.sslServers lbc.isNginxPlus = s.cnf.sslServers lbc.isNginxPlus := by
      rw [sslServers, htouch.generated, sslServers]
    exact hkeep hplus ⟨.secret, secret.objectMeta.key⟩ (by simp [hq]) rfl secret hget hjwk server (hservers ▸ hserver)
      (key_inj.mp hkey ▸ hcert)

theorem syncSecret (hU : Set.InjOn fileName U) (h : Certifying lbc U s)
    (hq : s.queue = ⟨.secret, key⟩ :: ts) (hkeep : KeepsCertificates lbc s (.sync o))
    (hs : Nginx.syncSecret lbc o { s with queue := ts } key = some s') : Certifying lbc U s' := by
  obtain ⟨m, hm, rfl⟩ : ∃ m ∈ U, key = m.key := by simpa [IsTask] using h.tasks.head hq
  obtain ⟨hnone, _⟩ | ⟨ns, name, ings, cnf, hns, hings, hdefault, hcase⟩ := syncSecret_cases hs
  · cases (parseNamespaceName_key m).symm.trans hnone
  obtain ⟨rfl, rfl⟩ := Prod.mk.inj (some.inj ((parseNamespaceName_key m).symm.trans hns))
  have hfound : ∀ ing ∈ ings, ing ∈ s.listers.ingresses.items ∧ lbc.isNginxIngress ing = true := fun ing hing => by
    obtain ⟨hmem, href⟩ := (mem_findIngressesForSecret hings).mp hing
    exact ⟨hmem, (own_of_refersToSecret href).2⟩
  have hnamed : ∀ ing, Serves lbc s.listers s.cnf ing → ing.names m.key → ing ∈ ings := fun ing hserves hnames =>
    (mem_findIngressesForSecret hings).mpr ⟨hserves.mem, Serves.refersToSecret hserves hnames⟩
  have htouch : TouchesOnly U m cnf s.cnf := by
    obtain rfl | ⟨secret, rfl⟩ := hdefault
    · exact .refl s.cnf
    · exact touchesOnly_default lbc.host s.cnf secret
  obtain ⟨hnil, rfl⟩ | ⟨rs, hrs, hcase⟩ := hcase
  · have hnothing : SameButVersion cnf
        (regenerateAll lbc.host errorAt cnf []).1 := .refl cnf
    refine h.synced hU hq htouch (by simp) (fun ing hserves hnames => ?_) hnothing
    simpa [hnil] using hnamed ing hserves hnames
  have hmade : ∀ r ∈ rs, ∃ ing ∈ s.listers.ingresses.items, lbc.isNginxIngress ing = true ∧ ing.isMinion = false ∧
      Accepted lbc ing ∧ r.IsMade lbc s.listers ing := fun r hr =>
    createIngresses_made (s := { s with queue := ts, cnf := cnf }) h.api hfound hrs hr
  have hcover : ∀ ing, Serves lbc s.listers s.cnf ing → ing.names m.key → ∃ r ∈ rs, r.name = ing.objectMeta.fileName :=
    fun ing hserves hnames =>
      createIngresses_covers hrs (hnamed ing hserves hnames) hserves.notMinion hserves.accepted
  obtain rfl | ⟨secret, hget, rfl⟩ := hcase
  · exact h.synced hU hq (htouch.trans (touchesOnly_removeSecretFile hU cnf hm)) hmade hcover
      (deleteSecret_same lbc.host cnf m.key rs)
  · obtain rfl : secret.objectMeta = m := key_inj.mp (s.listers.secrets.keyed _ _ hget)
    have hwrite := htouch.trans (touchesOnly_writeSecrets hU lbc.host cnf hm)
    by_cases hjwk : lbc.host.isPlus = true ∧ (getSecretKind secret).1 = .jwk
    · have hout : (cnf.addOrUpdateSecret lbc.host secret rs).1 = cnf.writeSecrets lbc.host [secret] := by
        rw [addOrUpdateSecret, if_pos hjwk]
      exact h.synced_jwk hq hget hjwk.1 hjwk.2 hkeep (hout ▸ hwrite)
    · exact h.synced hU hq hwrite hmade hcover (addOrUpdateSecret_same cnf rs hjwk)

theorem step (hU : Set.InjOn fileName U) (h : Certifying lbc U s) {l} (hl : SecretEvent U s l)
    (hkeep : KeepsCertificates lbc s l) (hs : Nginx.step lbc l s = some s') : Certifying lbc U s' := by
  cases l with
  | secret c => exact h.secret_event hl.1 hl.2 hs
  | ingress c o =>
    cases c with
    | add | delete => exact hl.elim
    | update cur others =>
      obtain ⟨_, he, _⟩ | ⟨_, _, _, he, _, rfl⟩ | ⟨_, _, _, he, _⟩ := step_ingress_cases hs
      · cases he
      · obtain ⟨rfl, rfl⟩ := Change.update.inj he
        have hput := h.put_same hl
        split
        · rename_i hn
          refine hput.requeue (by simp) (by simp) (hput.tasks.enqueue ?_) fun key hin =>
            (State.mem_enqueue _).mpr (.inl hin)
          exact isTask_task (mem_put.mpr (.inl rfl)) hn.1
        · exact hput
      · cases he
  | sync o =>
    obtain ⟨⟨kind, key⟩, ts, hq, hs⟩ := step_sync_cases hs
    obtain ⟨rfl, _⟩ | rfl | ⟨rfl, _⟩ := h.tasks.head hq
    · exact h.syncIng hU hq hs
    · exact h.syncIngMinion hq hs
    · exact h.syncSecret hU hq hkeep hs
  | wake t =>
    obtain ⟨hd, rfl⟩ := step_wake_cases hs
    exact h.requeue (by simp) (by simp) (h.tasks.wake hd) fun key hin => by simp [hin]
  | service | endpoints | configMap => exact hl.elim

end sync

end Certifying

/-- Once the queue is empty, every certificate fits its servers. -/
theorem certificates_fit (lbc : LBC) {U : Set ObjectMeta} (hU : Set.InjOn fileName U) {s0 s : State}
    (hsecrets : ∀ secret ∈ s0.listers.secrets.items, secret.objectMeta ∈ U)
    (hapi : s0.listers.apiSecrets = s0.listers.secrets) (htemplate : TemplateWorks s0)
    (hgen : s0.cnf.generated = ∅) (hq0 : s0.queue = []) (hd0 : s0.delayed = [])
    (h : Run (step lbc) (fun s l => SecretEvent U s l ∧ KeepsCertificates lbc s l) s0 s) (hq : s.queue = []) :
    CertificatesFit lbc s := by
  have hcertifying := h.keeps (Certifying.of_empty lbc hsecrets hapi htemplate hgen hq0 hd0)
    fun _ _ _ hc hC hs => hc.step hU hC.1 hC.2 hs
  exact hcertifying.fit hq

section samples

/-- The ingress "default/cafe" with a certificate for its host. -/
def tlsCafe : Ingress := { cafe [] with tls := [⟨["cafe.example.com"], "cafe-secret"⟩] }

def cafeSecret (data : List (String × List UInt8)) : Secret where
  objectMeta := ⟨"default", "cafe-secret", legal_default, by decide⟩
  data := data

def tlsData (cert key : UInt8) : List (String × List UInt8) := [("tls.crt", [cert]), ("tls.key", [key])]

def jwkData : List (String × List UInt8) := [("jwk", [3])]

def cafeSecretFile : String := "/etc/nginx/secrets/default-cafe-secret"

def cafeSecrets : Set ObjectMeta := {(cafeSecret []).objectMeta}

instance : DecidablePred (· ∈ cafeSecrets) := fun m => inferInstanceAs (Decidable (m = _))

/-- The controller with the ingress watched, and nothing configured yet. -/
def cafeWatched : State := { started with listers := { noListers with ingresses := .ofList [tlsCafe] } }

def certificates (isPlus : Bool) (s : State) : List (String × Option (List UInt8)) :=
  (s.cnf.sslServers isPlus).map fun server =>
    (server.sslCertificate, (s.cnf.secretFiles.lookup server.sslCertificate).map (·.content))

theorem certificates_fit_cafe : ∃ s, s.queue = [] ∧ certificates true s = [(cafeSecretFile, some [4, 10, 5])] ∧
    CertificatesFit (plainLBC true) s := by
  obtain ⟨s, hs, hq, hcertificates⟩ : ∃ s, Run (step (plainLBC true))
      (fun s l => SecretEvent cafeSecrets s l ∧ KeepsCertificates (plainLBC true) s l) cafeWatched s ∧
      s.queue = [] ∧ certificates true s = [(cafeSecretFile, some [4, 10, 5])] :=
    Run.of_labels [.secret (.add (cafeSecret jwkData)), .sync .same, .ingress (.update tlsCafe true) .same,
      .sync .same, .secret (.update (cafeSecret (tlsData 1 2)) false), .sync .same,
      .secret (.delete (cafeSecret []).objectMeta false), .sync .same,
      .secret (.add (cafeSecret (tlsData 4 5))), .sync .same] (by decide +kernel)
  exact ⟨s, hq, hcertificates, certificates_fit (plainLBC true) (Set.injOn_singleton _ _)
    (fun secret hsecret => by simp [cafeWatched, noListers, mem_items] at hsecret) rfl (fun _ => rfl) rfl rfl rfl
    hs hq⟩

/-- The certificate becomes a key for JWT: the key is written to the file, and the server stays as it was. -/
theorem key_in_place_of_certificate :
    ∃ s, Run (step (plainLBC true)) (SecretEvent cafeSecrets) cafeWatched s ∧ s.queue = [] ∧
      certificates true s = [(cafeSecretFile, some [3])] ∧ ¬CertificatesFit (plainLBC true) s := by
  exact Run.of_labels [.secret (.add (cafeSecret (tlsData 1 2))), .sync .same,
    .ingress (.update tlsCafe true) .same, .sync .same, .secret (.update (cafeSecret jwkData) false), .sync .same]
    (by decide +kernel)

end samples

end KubeYamls.Nginx
