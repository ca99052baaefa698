import KubeYamls.Nginx.Certificates

/-! # Authentication by JWT

An ingress that has a key for JWT authenticates by server, a minion by location. The
key is in the file of a secret, and what is in that file depends on the kind of the
secret, which for everything with a certificate is TLS. A client without a token is
sent to a location that is named after the ingress; a minion adds it to the server
once for every path. -/
namespace KubeYamls.Nginx
open Data Resource List

/-- Does an ingress with this key have a page to log in at? -/
def sendsToLogin (key : JWTKey) (ingCfg : Config) : Bool := key.name ≠ "" ∧ ingCfg.jwtLoginURL ≠ ""

namespace Generator
variable (g : Generator)

/-- Where a client without a token is sent, if anywhere. -/
def redirects : List JWTRedirectLocation := (g.jwtAuth.map Prod.snd).getD []

structure AuthFor (rule : String × List HTTPPath) (server : Server) : Prop where
  jwtAuth : server.jwtAuth = (if g.isMinion then none else g.jwtAuth).map Prod.fst
  redirects : server.jwtRedirectLocations =
    if g.isMinion then rule.2.flatMap fun _ => g.redirects else g.redirects

theorem addPath_redirects (host : String) (paths : List HTTPPath) (st : PathState) :
    (paths.foldl (g.addPath host) st).redirects =
      st.redirects ++ if g.isMinion then paths.flatMap fun _ => g.redirects else [] := by
  induction paths generalizing st with
  | nil => simp
  | cons p paths ih =>
    rw [foldl_cons, ih]
    cases hm : g.isMinion <;> simp [addPath, hm, redirects]

theorem addDefault_redirects (st : PathState) : (g.addDefault st).redirects = st.redirects := by
  unfold addDefault
  split
  · rfl
  · split <;> rfl

theorem addRule_auth (rules : List Rule) (st : Table String Upstream × List Server) :
    ∃ servers, (rules.foldl g.addRule st).2 = st.2 ++ servers ∧
      List.Forall₂ g.AuthFor (servedRules rules) servers := by
  induction rules generalizing st with
  | nil => exact ⟨[], by simp, .nil⟩
  | cons rule rules ih =>
    obtain ⟨servers, hservers, hall⟩ := ih (g.addRule st rule)
    rw [foldl_cons, hservers]
    cases hhttp : rule.http with
    | none => exact ⟨servers, by simp [addRule, hhttp], by simpa [servedRules, hhttp] using hall⟩
    | some paths =>
      have hserved : servedRules (rule :: rules) = (rule.host, paths) :: servedRules rules := by
        simp [servedRules, hhttp]
      simp only [addRule, hhttp, hserved]
      refine ⟨_ :: servers, append_cons _ _ _ |>.symm, .cons ⟨rfl, ?_⟩ hall⟩
      rw [addDefault_redirects, addPath_redirects]
      cases hm : g.isMinion <;> simp [redirects]

theorem generated_auth : List.Forall₂ g.AuthFor (servedRules g.ingress.rules) g.generated.2 := by
  obtain ⟨servers, hservers, hall⟩ := g.addRule_auth g.ingress.rules (g.defaultUpstreams, [])
  rw [generated, hservers, nil_append]
  exact hall

variable {g} {server : Server} {auth : JWTAuth}

theorem server_auth (hs : server ∈ g.config.servers) (h : server.jwtAuth = some auth) :
    ∃ redirects, g.jwtAuth = some (auth, redirects) := by
  obtain ⟨rule, _, hfor⟩ := exists_of_forall₂ g.generated_auth hs
  rw [hfor.jwtAuth] at h
  obtain ⟨⟨auth', redirects⟩, hauth, rfl⟩ := Option.map_eq_some_iff.mp h
  split at hauth
  · cases hauth
  · exact ⟨redirects, hauth⟩

theorem mem_locations_auth {t host paths loc}
    (hloc : loc ∈ g.locations t host paths) (h : loc.jwtAuth = some auth) :
    g.isMinion = true ∧ paths ≠ [] ∧ ∃ redirects, g.jwtAuth = some (auth, redirects) := by
  rcases mem_append.mp hloc with hloc | hloc
  · obtain ⟨p, hp, rfl⟩ := mem_map.mp hloc
    obtain ⟨⟨auth', redirects⟩, hauth, rfl⟩ := Option.map_eq_some_iff.mp h
    split at hauth
    · rename_i hminion
      exact ⟨hminion, ne_nil_of_mem hp, redirects, hauth⟩
    · cases hauth
  · -- the location of the default backend
    unfold defaultLocations at hloc
    split at hloc
    · cases hloc
    · split at hloc
      · cases hloc
      · obtain rfl := mem_singleton.mp hloc
        cases h

theorem location_auth (hs : server ∈ g.config.servers) {loc} (hloc : loc ∈ server.locations)
    (h : loc.jwtAuth = some auth) : g.isMinion = true ∧ ∃ redirects, g.jwtAuth = some (auth, redirects) := by
  obtain ⟨rule, _, hfor⟩ := exists_of_forall₂ g.generated_servers hs
  obtain ⟨hminion, -, hauth⟩ := mem_locations_auth (hfor.locations ▸ hloc) h
  exact ⟨hminion, hauth⟩

theorem jwtAuth_cases {redirects} (h : g.jwtAuth = some (auth, redirects)) :
    auth.key = getSecretFileName (g.ingress.objectMeta.ns ++ "-" ++ g.ingEx.jwtKey.name) ∧
    (auth.redirectLocationName = "" ∧ redirects = [] ∨
      auth.redirectLocationName = getNameForRedirectLocation g.ingress ∧
        redirects = [⟨auth.redirectLocationName, g.ingCfg.jwtLoginURL⟩]) := by
  unfold jwtAuth at h
  split at h
  · cases h
  · dsimp only at h
    split at h
    · obtain ⟨rfl, rfl⟩ := Prod.mk.inj (Option.some.inj h)
      exact ⟨rfl, .inl ⟨rfl, rfl⟩⟩
    · obtain ⟨rfl, rfl⟩ := Prod.mk.inj (Option.some.inj h)
      exact ⟨rfl, .inr ⟨rfl, rfl⟩⟩

variable (g) in
theorem map_name_redirects : g.redirects.map (·.name) =
    if sendsToLogin g.ingEx.jwtKey g.ingCfg then [getNameForRedirectLocation g.ingress] else [] := by
  by_cases hkey : g.ingEx.jwtKey.name = ""
  · simp [redirects, jwtAuth, sendsToLogin, hkey]
  · by_cases hurl : g.ingCfg.jwtLoginURL = ""
    · simp [redirects, jwtAuth, sendsToLogin, hkey, hurl]
    · simp [redirects, jwtAuth, sendsToLogin, hkey, hurl]

end Generator

/-! ## Keys -/

namespace Resource

def parts : Resource → List IngressEx
  | .ingress ingEx => [ingEx]
  | .mergeable m => m.master :: m.minions

/-- The secrets with keys that are there, in the order in which they are written. -/
def jwtSecrets (r : Resource) : List Secret := r.parts.filterMap (·.jwtKey.secret)

inductive Authenticates (isPlus : Bool) (config : Config) : Resource → IngressEx → JWTAuth → Prop where
  | server {ingEx : IngressEx} {server : Server} {auth : JWTAuth} :
      server ∈ ((ingress ingEx).nginxCfg isPlus config).servers → server.jwtAuth = some auth →
      Authenticates isPlus config (.ingress ingEx) ingEx auth
  | location {ingEx : IngressEx} {server : Server} {loc : Location} {auth : JWTAuth} :
      server ∈ ((ingress ingEx).nginxCfg isPlus config).servers → loc ∈ server.locations →
      loc.jwtAuth = some auth → Authenticates isPlus config (.ingress ingEx) ingEx auth
  | master {m : MergeableIngresses} {server : Server} {auth : JWTAuth} :
      server ∈ ((mergeable m).nginxCfg isPlus config).servers → server.jwtAuth = some auth →
      Authenticates isPlus config (.mergeable m) m.master auth
  | minion {m : MergeableIngresses} {minion : IngressEx} {loc : Location} {auth : JWTAuth} :
      minion ∈ m.minions → loc ∈ m.minionLocations isPlus config minion → loc.jwtAuth = some auth →
      Authenticates isPlus config (.mergeable m) minion auth

variable {isPlus : Bool} {config : Config} {r : Resource} {part : IngressEx} {auth : JWTAuth}

theorem Authenticates.key (h : r.Authenticates isPlus config part auth) :
    auth.key = getSecretFileName (part.ingress.objectMeta.ns ++ "-" ++ part.jwtKey.name) := by
  cases h with
  | server hs hauth =>
    obtain ⟨_, h⟩ := Generator.server_auth hs hauth
    exact (Generator.jwtAuth_cases h).1
  | location hs hloc hauth =>
    obtain ⟨hminion, -⟩ := Generator.location_auth hs hloc hauth
    cases hminion
  | master hs hauth =>
    -- the one server is that of the master, with other locations
    obtain rfl := mem_singleton.mp hs
    obtain ⟨_, h⟩ := Generator.server_auth (head_mem (MergeableIngresses.masterCfg_servers _ _ _)) hauth
    exact (Generator.jwtAuth_cases h).1
  | minion hminion hloc hauth =>
    obtain ⟨server, hs, hloc⟩ := mem_flatMap.mp hloc
    obtain ⟨loc, hin, rfl⟩ := mem_map.mp hloc
    obtain ⟨-, _, h⟩ := Generator.location_auth hs hin hauth
    exact (Generator.jwtAuth_cases h).1

end Resource

section keys
variable {lbc : LBC} {l : Listers} {o : Order} {s : State} {ing : Ingress} {r : Resource} {part : IngressEx}
  {secret : Secret}

variable (l) in
structure NamesKey (ing : Ingress) (secret : Secret) : Prop where
  annotated : ing.annotated jwtKeyAnnotation = some secret.objectMeta.name
  ns : secret.objectMeta.ns = ing.objectMeta.ns
  found : l.apiSecrets.get secret.objectMeta.key = some secret
  valid : (validateJWKSecret secret).isOk = true

theorem NamesKey.jwtKey (h : NamesKey l ing secret) (hplus : lbc.isNginxPlus = true) :
    (ingressEx lbc l ing).jwtKey = ⟨secret.objectMeta.name, some secret⟩ := by
  have hfound := h.found
  rw [ObjectMeta.key, h.ns] at hfound
  simp [ingressEx, jwtKeyOf, h.annotated, hplus, hfound, h.valid, Option.filter]

theorem IngressEx.writtenSecrets_of_keys {ingEx : IngressEx} (h : ingEx.tlsSecrets.keys = []) :
    ingEx.writtenSecrets true = ingEx.jwtKey.secret.toList := by
  have hnone : ∀ name, ingEx.tlsSecrets.lookup name = none := fun name =>
    AList.lookup_eq_none.mpr fun hmem => by simpa [h] using AList.mem_keys.mp hmem
  simp [IngressEx.writtenSecrets, hnone]

theorem mem_minions {m host minions}
    (h : getMinionsForMaster lbc l o m host = some minions) (hpart : part ∈ minions) :
    part = ingressEx lbc l part.ingress ∧ part.tlsSecrets.keys = [] := by
  obtain ⟨c, -, -, haccepts, rfl⟩ := mem_getMinions h hpart
  exact ⟨rfl, (of_decide_eq_true haccepts).2⟩

theorem resourceOf_parts (h : resourceOf lbc o s ing = some (.ok r)) :
    (∀ part ∈ r.parts, part = ingressEx lbc s.listers part.ingress) ∧
    ∃ tls, r.writtenSecrets true = tls ++ r.jwtSecrets := by
  unfold resourceOf at h
  split at h
  · obtain ⟨res, hres, h⟩ := Option.map_eq_some_iff.mp h
    cases res with
    | error err => cases h
    | ok m =>
      obtain rfl := Except.ok.inj h
      obtain ⟨rule, _, _, _, hmaster, hminions⟩ := createMergableIngresses_ok hres
      constructor
      · intro part hpart
        rcases mem_cons.mp hpart with rfl | hpart
        · rw [hmaster]
          rfl
        · exact (mem_minions hminions hpart).1
      · have hwritten : m.minions.flatMap (·.writtenSecrets true) =
            m.minions.flatMap (·.jwtKey.secret.toList) :=
          flatMap_congr fun minion hminion =>
            IngressEx.writtenSecrets_of_keys (mem_minions hminions hminion).2
        refine ⟨m.master.ingress.tls.filterMap fun tls => m.master.tlsSecrets.lookup tls.secretName, ?_⟩
        have hjwt : (mergeable m).jwtSecrets =
            m.master.jwtKey.secret.toList ++ m.minions.flatMap (·.jwtKey.secret.toList) :=
          filterMap_eq_flatMap_toList _ _
        rw [hjwt, ← hwritten, ← append_assoc]
        rfl
  · obtain ⟨ingEx, hex, h⟩ := map_eq_ok.mp (Option.some.inj h)
    obtain ⟨_, rfl⟩ := createIngress_eq_ok.mp hex
    obtain rfl := h
    constructor
    · intro part hpart
      rw [mem_singleton.mp hpart]
      rfl
    · exact ⟨_, by simp [writtenSecrets, IngressEx.writtenSecrets, jwtSecrets, parts]; rfl⟩

def Resource.lastKey (r : Resource) (m : ObjectMeta) : Option Secret :=
  r.jwtSecrets.reverse.find? (·.objectMeta.fileName = m.fileName)

theorem secretFile_content {host} (hplus : host.isPlus = true) (hvalid : (validateJWKSecret secret).isOk = true) :
    some (Configurator.secretFile host secret).content =
      if (validateTLSSecret secret).isOk then some (generateCertAndKeyFileContent secret)
      else secret.data.lookup jwtKeyKey := by
  cases htls : (validateTLSSecret secret).isOk with
  | true => simp [secretFile_of_tls htls]
  | false =>
    obtain ⟨key, hkey⟩ : ∃ key, secret.data.lookup jwtKeyKey = some key := by
      cases hlookup : secret.data.lookup jwtKeyKey with
      | none => simp [validateJWKSecret, hlookup, Except.isOk, Except.toBool] at hvalid
      | some key => exact ⟨key, rfl⟩
    simp [Configurator.secretFile, getSecretKind, htls, hvalid, hplus, hkey]

/-- The key of a secret is in its file: that of the last secret there is, and it is the key,
or a certificate that looks like it. -/
def KeyKept (r : Resource) (secret : Secret) : Prop :=
  ∃ last, r.lastKey secret.objectMeta = some last ∧
    (if (validateTLSSecret last).isOk then some (generateCertAndKeyFileContent last)
      else last.data.lookup jwtKeyKey) = secret.data.lookup jwtKeyKey

theorem keyKept_iff {last} (h : r.lastKey secret.objectMeta = some last) : KeyKept r secret ↔
    (if (validateTLSSecret last).isOk then some (generateCertAndKeyFileContent last)
      else last.data.lookup jwtKeyKey) = secret.data.lookup jwtKeyKey := by
  simp only [KeyKept, h, Option.some.injEq, exists_eq_left']

/-- `AddOrUpdateIngress` and `AddOrUpdateMergeableIngress` -/
def Configurator.addOrUpdateAndReload (host : Host) (cnf : Configurator) : Resource → Outcome
  | .ingress ingEx => cnf.addOrUpdateIngressAndReload host ingEx
  | .mergeable m => cnf.addOrUpdateMergeableIngressAndReload host m

theorem Configurator.addOrUpdateAndReload_secretFiles (host : Host) (cnf : Configurator) (r : Resource) :
    (cnf.addOrUpdateAndReload host r).1.secretFiles =
      (r.writtenSecrets host.isPlus).foldl (putSecret host) cnf.secretFiles := by
  cases r with
  | ingress ingEx =>
    obtain ⟨v, hv⟩ := addOrUpdateIngressAndReload_same host cnf ingEx
    rw [addOrUpdateAndReload, hv]
    exact regenerate_secretFiles
  | mergeable m =>
    obtain ⟨v, hv⟩ := addOrUpdateMergeableIngressAndReload_same host cnf m
    rw [addOrUpdateAndReload, hv]
    exact regenerate_secretFiles

theorem lookup_keyFile (hplus : lbc.isNginxPlus = true) (cnf : Configurator)
    (h : resourceOf lbc o s ing = some (.ok r)) (hsecret : secret ∈ r.jwtSecrets) :
    ∃ last ∈ r.jwtSecrets, r.lastKey secret.objectMeta = some last ∧
      (cnf.addOrUpdateAndReload lbc.host r).1.secretFiles.lookup (getSecretFileName secret.objectMeta.fileName) =
        some (Configurator.secretFile lbc.host last) := by
  obtain ⟨last, hlast⟩ : ∃ last, r.lastKey secret.objectMeta = some last :=
    Option.isSome_iff_exists.mp (find?_isSome.mpr ⟨secret, mem_reverse.mpr hsecret, by simp⟩)
  refine ⟨last, mem_reverse.mp (mem_of_find?_eq_some hlast), hlast, ?_⟩
  obtain ⟨tls, hwritten⟩ := (resourceOf_parts h).2
  have hfind : (r.jwtSecrets.reverse.find? fun other =>
      getSecretFileName other.objectMeta.fileName = getSecretFileName secret.objectMeta.fileName) = some last := by
    simp only [getSecretFileName_inj]
    exact hlast
  rw [Configurator.addOrUpdateAndReload_secretFiles, show lbc.host.isPlus = true from hplus, hwritten,
    foldl_append]
  exact (Table.lookup_foldl_insert_eq (fun other : Secret => getSecretFileName other.objectMeta.fileName)
    (Configurator.secretFile lbc.host) r.jwtSecrets _ _).trans (by rw [hfind]; rfl)

theorem valid_of_mem_jwtSecrets (h : resourceOf lbc o s ing = some (.ok r)) (hsecret : secret ∈ r.jwtSecrets) :
    (validateJWKSecret secret).isOk = true := by
  obtain ⟨part, hpart, hkey⟩ := mem_filterMap.mp hsecret
  rw [(resourceOf_parts h).1 part hpart] at hkey
  simp only [ingressEx, jwtKeyOf] at hkey
  split at hkey
  · cases hkey
  · split at hkey
    · cases hkey
    · exact (Option.mem_filter_iff.mp hkey).2

/-- With NGINX Plus, the file that a server or a location has for the key of an ingress holds
that key exactly if the last secret written to the file is no TLS secret and has the same key,
or its certificate reads like the key. If no other key goes to this file, that is to say that
the secret is no TLS secret. -/
theorem key_file_iff (lbc : LBC) (hplus : lbc.isNginxPlus = true) (o : Order) (s : State) (cnf : Configurator)
    {ing : Ingress} {r : Resource} (h : resourceOf lbc o s ing = some (.ok r)) {part : IngressEx}
    {secret : Secret} (hpart : part ∈ r.parts) (hkey : NamesKey s.listers part.ingress secret) :
    (∀ auth, r.Authenticates lbc.isNginxPlus cnf.config part auth →
      (((cnf.addOrUpdateAndReload lbc.host r).1.secretFiles.lookup auth.key).map (·.content) =
          secret.data.lookup jwtKeyKey ↔ KeyKept r secret)) ∧
    ((∀ other ∈ r.jwtSecrets, other.objectMeta.fileName = secret.objectMeta.fileName → other = secret) →
      (KeyKept r secret ↔ (validateTLSSecret secret).isOk = false ∨
        some (generateCertAndKeyFileContent secret) = secret.data.lookup jwtKeyKey)) := by
  have hjwtKey : part.jwtKey = ⟨secret.objectMeta.name, some secret⟩ := by
    rw [(resourceOf_parts h).1 part hpart]
    exact hkey.jwtKey hplus
  have hmem : secret ∈ r.jwtSecrets := mem_filterMap.mpr ⟨part, hpart, by rw [hjwtKey]⟩
  obtain ⟨last, hlastmem, hlast, hfile⟩ := lookup_keyFile hplus cnf h hmem
  constructor
  · intro auth hauth
    have hname : auth.key = getSecretFileName secret.objectMeta.fileName := by
      rw [hauth.key, hjwtKey, ← hkey.ns]
      rfl
    rw [hname, hfile, Option.map_some, secretFile_content hplus (valid_of_mem_jwtSecrets h hlastmem),
      keyKept_iff hlast]
  · intro hone
    obtain rfl : last = secret := hone last hlastmem (by simpa using find?_some hlast)
    rw [keyKept_iff hlast]
    cases (validateTLSSecret last).isOk with
    | true | false => simp

end keys

section samples

def jwtCafe : Ingress := cafe [("nginx.com/jwt-key", "cafe-secret")]

def keyWatched (data : List (String × List UInt8)) : State :=
  { started with listers := { noListers with apiSecrets := .ofList [cafeSecret data] } }

def jwtCafeEx (data : List (String × List UInt8)) : IngressEx :=
  ingressEx (plainLBC true) (keyWatched data).listers jwtCafe

def keyFiles (data : List (String × List UInt8)) : List (Option (List UInt8)) :=
  let r := ingress (jwtCafeEx data)
  let cnf := (started.cnf.addOrUpdateAndReload (plainLBC true).host r).1
  ((r.nginxCfg true cnf.config).servers.filterMap (·.jwtAuth)).map fun auth =>
    (cnf.secretFiles.lookup auth.key).map (·.content)

theorem key_file_cafe : ∃ auth,
    (ingress (jwtCafeEx jwkData)).Authenticates true newDefaultConfig (jwtCafeEx jwkData) auth ∧
      ((started.cnf.addOrUpdateAndReload (plainLBC true).host (.ingress (jwtCafeEx jwkData))).1.secretFiles.lookup
        auth.key).map (·.content) = some [3] := by
  have hne : ((ingress (jwtCafeEx jwkData)).nginxCfg true newDefaultConfig).servers.filterMap (·.jwtAuth) ≠ [] := by
    decide +kernel
  obtain ⟨auth, hmem⟩ := exists_mem_of_ne_nil _ hne
  obtain ⟨server, hserver, hauth⟩ := mem_filterMap.mp hmem
  have hnames : NamesKey (keyWatched jwkData).listers (jwtCafeEx jwkData).ingress (cafeSecret jwkData) :=
    ⟨by decide +kernel, rfl, by decide +kernel, by decide +kernel⟩
  have hmade : resourceOf (plainLBC true) .same (keyWatched jwkData) jwtCafe =
      some (.ok (.ingress (jwtCafeEx jwkData))) := rfl
  have hone : (ingress (jwtCafeEx jwkData)).jwtSecrets = [cafeSecret jwkData] := by decide +kernel
  obtain ⟨hiff, hkept⟩ := key_file_iff (plainLBC true) rfl .same (keyWatched jwkData) started.cnf hmade
    (mem_singleton_self _) hnames
  refine ⟨auth, .server hserver hauth, (hiff auth (.server hserver hauth)).mpr ((hkept ?_).mpr (.inl ?_))⟩
  · intro other hother _
    rw [hone] at hother
    exact mem_singleton.mp hother
  · decide +kernel

/-- The secret of the key also has a certificate, and that is what the file for the key holds. -/
theorem certificate_in_key_file : let data := tlsData 1 2 ++ jwkData
    NamesKey (keyWatched data).listers jwtCafe (cafeSecret data) ∧
      (cafeSecret data).data.lookup jwtKeyKey = some [3] ∧ keyFiles data = [some [1, 10, 2]] :=
  ⟨⟨by decide +kernel, rfl, by decide +kernel, by decide +kernel⟩, by decide +kernel, by decide +kernel⟩

end samples

/-! ## Redirect locations -/

theorem getNameForRedirectLocation_eq (ing : Ingress) :
    getNameForRedirectLocation ing = "@login_url_" ++ ing.objectMeta.fileName := by
  unfold getNameForRedirectLocation ObjectMeta.fileName
  simp only [String.append_assoc]

theorem nodup_flatMap_replicate {α β : Type} (f : α → β) (n : α → Nat) (l : List α) :
    (l.flatMap fun a => List.replicate (n a) (f a)).Nodup ↔
      (∀ a ∈ l, n a ≤ 1) ∧ ((l.filter (n · ≠ 0)).map f).Nodup := by
  induction l with
  | nil => simp
  | cons a l ih =>
    rw [flatMap_cons, forall_mem_cons]
    by_cases h0 : n a = 0
    · simpa [h0] using ih
    · have hmem : ∀ b, (b ∈ l.flatMap fun a => List.replicate (n a) (f a)) ↔ b ∈ (l.filter (n · ≠ 0)).map f := by
        intro b
        simp only [mem_flatMap, mem_replicate, mem_map, mem_filter, decide_eq_true_eq]
        exact exists_congr fun a => by rw [and_assoc, eq_comm]
      have hdisj : (List.replicate (n a) (f a)).Disjoint (l.flatMap fun a => List.replicate (n a) (f a)) ↔
          f a ∉ l.flatMap fun a => List.replicate (n a) (f a) :=
        ⟨fun h => h (mem_replicate.mpr ⟨h0, rfl⟩), fun h _ hb hb' => h ((mem_replicate.mp hb).2 ▸ hb')⟩
      rw [nodup_append', nodup_replicate, ih, hdisj, filter_cons_of_pos (by simpa using h0),
        map_cons, nodup_cons, ← hmem]
      constructor
      · rintro ⟨hone, ⟨hle, hnodup⟩, hnot⟩
        exact ⟨⟨hone, hle⟩, hnot, hnodup⟩
      · rintro ⟨⟨hone, hle⟩, hnot, hnodup⟩
        exact ⟨hone, ⟨hle, hnodup⟩, hnot⟩

/-- The locations to log in at that a server has are different ones, and it has all it uses. -/
structure RedirectsFit (cfg : IngressNginxConfig) : Prop where
  unique : ∀ server ∈ cfg.servers, (server.jwtRedirectLocations.map (·.name)).Nodup
  used : ∀ server ∈ cfg.servers, ∀ auth, server.jwtAuth = some auth ∨
      (∃ loc ∈ server.locations, loc.jwtAuth = some auth) → auth.redirectLocationName ≠ "" →
    auth.redirectLocationName ∈ server.jwtRedirectLocations.map (·.name)

namespace Generator
variable (g : Generator) {server : Server} {auth : JWTAuth}

theorem mem_redirects {redirects} (h : g.jwtAuth = some (auth, redirects))
    (hne : auth.redirectLocationName ≠ "") : auth.redirectLocationName ∈ g.redirects.map (·.name) := by
  obtain ⟨-, ⟨hempty, -⟩ | ⟨-, hredirects⟩⟩ := jwtAuth_cases h
  · exact absurd hempty hne
  · simp [Generator.redirects, h, hredirects]

variable {g}

theorem server_redirects (hg : g.isMinion = false) (hs : server ∈ g.config.servers) :
    server.jwtRedirectLocations = g.redirects := by
  obtain ⟨rule, _, hfor⟩ := exists_of_forall₂ g.generated_auth hs
  simpa [hg] using hfor.redirects

theorem location_redirects (hs : server ∈ g.config.servers) {loc} (hloc : loc ∈ server.locations)
    (hauth : loc.jwtAuth = some auth) (hne : auth.redirectLocationName ≠ "") :
    auth.redirectLocationName ∈ server.jwtRedirectLocations.map (·.name) := by
  have hboth : List.Forall₂ (fun rule server => g.ServerFor g.generated.1 rule server ∧ g.AuthFor rule server)
      (servedRules g.ingress.rules) g.generated.2 :=
    forall₂_iff_zip.mpr ⟨g.generated_auth.length_eq, fun hzip =>
      ⟨forall₂_zip g.generated_servers hzip, forall₂_zip g.generated_auth hzip⟩⟩
  obtain ⟨rule, _, hserver, hfor⟩ := exists_of_forall₂ hboth hs
  obtain ⟨hminion, hpaths, redirects, h⟩ := mem_locations_auth (hserver.locations ▸ hloc) hauth
  obtain ⟨p, hp⟩ := exists_mem_of_ne_nil _ hpaths
  rw [hfor.redirects, if_pos hminion, map_flatMap]
  exact mem_flatMap.mpr ⟨p, hp, mem_redirects _ h hne⟩

theorem flatten_servedRules {α : Type} (xs : List α) (rules : List Rule) :
    ((servedRules rules).map fun rule => rule.2.flatMap fun _ => xs).flatten =
      (rules.flatMap fun rule => (rule.http.getD []).map fun p => (rule.host, p)).flatMap fun _ => xs := by
  induction rules with
  | nil => rfl
  | cons rule rules ih =>
    rw [flatMap_cons, flatMap_append, ← ih]
    cases hhttp : rule.http with
    | none => simp [servedRules, hhttp]
    | some paths => simp [servedRules, hhttp, flatMap_map]

theorem minion_redirects (hg : g.isMinion = true) :
    (g.config.servers.flatMap (·.jwtRedirectLocations)).map (·.name) =
      List.replicate (if sendsToLogin g.ingEx.jwtKey g.ingCfg then g.ingress.paths.length else 0)
        (getNameForRedirectLocation g.ingress) := by
  have hall : List.Forall₂ (· = ·) ((servedRules g.ingress.rules).map fun rule => rule.2.flatMap fun _ => g.redirects)
      (g.generated.2.map (·.jwtRedirectLocations)) :=
    forall₂_map_left_iff.mpr (forall₂_map_right_iff.mpr
      (g.generated_auth.imp fun _ _ h => by simpa [hg] using h.redirects.symm))
  rw [forall₂_eq_eq_eq] at hall
  calc (g.config.servers.flatMap (·.jwtRedirectLocations)).map (·.name)
    _ = (g.ingress.paths.flatMap fun _ => g.redirects).map (·.name) := by
      rw [flatMap_def, Ingress.paths, ← flatten_servedRules, hall]
      rfl
    _ = g.ingress.paths.flatMap fun _ => g.redirects.map (·.name) := map_flatMap
    _ = _ := by
      rw [map_name_redirects]
      cases sendsToLogin g.ingEx.jwtKey g.ingCfg with
      | true => exact map_eq_flatMap.symm.trans (map_const' ..)
      | false => simp

end Generator

theorem redirectsFit_ingress (isPlus : Bool) (config : Config) (ingEx : IngressEx) :
    RedirectsFit ((ingress ingEx).nginxCfg isPlus config) where
  unique server hs := by
    rw [Generator.server_redirects rfl hs, Generator.map_name_redirects]
    split <;> simp
  used server hs auth hauth hne := by
    rcases hauth with hauth | ⟨loc, hloc, hauth⟩
    · obtain ⟨_, h⟩ := Generator.server_auth hs hauth
      rw [Generator.server_redirects rfl hs]
      exact Generator.mem_redirects _ h hne
    · exact Generator.location_redirects hs hloc hauth hne

namespace MergeableIngresses
variable (isPlus : Bool) (config : Config) (m : MergeableIngresses)

/-- How often the location to log in at is added for each of the ingresses. -/
def loginCounts : List (ObjectMeta × Nat) :=
  (m.master.ingress.objectMeta,
    if sendsToLogin m.master.jwtKey (createConfig m.filteredMaster.ingress isPlus config) then 1 else 0) ::
  m.minions.map fun minion => (minion.ingress.objectMeta,
    if sendsToLogin minion.jwtKey (createConfig (m.mergedMinion minion).ingress isPlus config) then
      minion.ingress.paths.length else 0)

/-- No minion that sends clients to log in has two paths, and no two ingresses that do so have
the same namespace and name written one after the other. -/
structure OneLoginEach : Prop where
  once : ∀ c ∈ m.loginCounts isPlus config, c.2 ≤ 1
  apart : (((m.loginCounts isPlus config).filter (·.2 ≠ 0)).map (·.1.fileName)).Nodup

theorem map_name_jwtRedirectLocations {server} (hs : server ∈ ((mergeable m).nginxCfg isPlus config).servers) :
    server.jwtRedirectLocations.map (·.name) =
      (m.loginCounts isPlus config).flatMap fun c => List.replicate c.2 ("@login_url_" ++ c.1.fileName) := by
  obtain rfl := mem_singleton.mp hs
  dsimp only
  rw [map_append, loginCounts, flatMap_cons]
  congr 1
  · rw [Generator.server_redirects rfl (head_mem (m.masterCfg_servers isPlus config)), Generator.map_name_redirects,
      getNameForRedirectLocation_eq]
    change (if sendsToLogin m.master.jwtKey (createConfig m.filteredMaster.ingress isPlus config) then
      ["@login_url_" ++ m.master.ingress.objectMeta.fileName] else []) = _
    split <;> rfl
  · rw [flatMap_assoc, flatMap_map, map_flatMap, flatMap_map]
    refine flatMap_congr fun minion _ => ?_
    rw [← getNameForRedirectLocation_eq]
    exact Generator.minion_redirects rfl

theorem redirects_used {server} (hs : server ∈ ((mergeable m).nginxCfg isPlus config).servers)
    {auth} (hauth : server.jwtAuth = some auth ∨ ∃ loc ∈ server.locations, loc.jwtAuth = some auth)
    (hne : auth.redirectLocationName ≠ "") :
    auth.redirectLocationName ∈ server.jwtRedirectLocations.map (·.name) := by
  obtain rfl := mem_singleton.mp hs
  rcases hauth with hauth | ⟨loc, hloc, hauth⟩
  · have hmaster := head_mem (m.masterCfg_servers isPlus config)
    obtain ⟨_, h⟩ := Generator.server_auth hmaster hauth
    rw [map_append]
    refine mem_append_left _ ?_
    rw [Generator.server_redirects rfl hmaster]
    exact Generator.mem_redirects _ h hne
  · obtain ⟨minion, hminion, hloc⟩ := mem_flatMap.mp hloc
    obtain ⟨server, hserver, hloc⟩ := mem_flatMap.mp hloc
    obtain ⟨loc, hin, rfl⟩ := mem_map.mp hloc
    obtain ⟨redirect, hredirect, hname⟩ := mem_map.mp (Generator.location_redirects hserver hin hauth hne)
    refine mem_map.mpr ⟨redirect, mem_append_right _ ?_, hname⟩
    exact mem_flatMap.mpr ⟨server, mem_flatMap.mpr ⟨_, mem_map_of_mem hminion, hserver⟩, hredirect⟩

end MergeableIngresses

/-- The locations to log in at are all there for every ingress and every merge. They are
different ones for every ingress, and for a merge exactly if none of its ingresses adds its
location twice and no two have the same name for it. -/
theorem redirects_fit_iff (isPlus : Bool) (config : Config) :
    (∀ ingEx, RedirectsFit ((ingress ingEx).nginxCfg isPlus config)) ∧
    ∀ m, RedirectsFit ((mergeable m).nginxCfg isPlus config) ↔ m.OneLoginEach isPlus config := by
  refine ⟨redirectsFit_ingress isPlus config, fun m => ?_⟩
  have hnodup : ((m.loginCounts isPlus config).flatMap fun c =>
      List.replicate c.2 ("@login_url_" ++ c.1.fileName)).Nodup ↔ m.OneLoginEach isPlus config := by
    have hinj : Function.Injective ("@login_url_" ++ · : String → String) := fun a b h =>
      String.toList_inj.mp (by simpa using congrArg String.toList h)
    have hnames : ∀ l : List (ObjectMeta × Nat), (l.map fun c => "@login_url_" ++ c.1.fileName).Nodup ↔
        (l.map (·.1.fileName)).Nodup := fun l => by
      have h := nodup_map_iff hinj (l := l.map (·.1.fileName))
      rw [map_map] at h
      exact h
    rw [nodup_flatMap_replicate (fun c : ObjectMeta × Nat => "@login_url_" ++ c.1.fileName) Prod.snd, hnames]
    exact ⟨fun h => ⟨h.1, h.2⟩, fun h => ⟨h.1, h.2⟩⟩
  constructor
  · intro h
    obtain ⟨server, hs⟩ : ∃ server, server ∈ ((mergeable m).nginxCfg isPlus config).servers :=
      ⟨_, mem_singleton_self _⟩
    exact hnodup.mp (m.map_name_jwtRedirectLocations isPlus config hs ▸ h.unique server hs)
  · intro h
    refine ⟨fun server hs => ?_, fun server hs auth => m.redirects_used isPlus config hs⟩
    rw [m.map_name_jwtRedirectLocations isPlus config hs]
    exact hnodup.mpr h

section samples

/-- A minion with a key, a page to log in at, and some paths. -/
def loginMinion (m : ObjectMeta) (paths : List String) : IngressEx :=
  let ing := mergeableIngress m "minion" "shop.example.com" (some (paths.map fun path => ⟨path, "cart-svc", .int 80⟩))
  { ingressEx (plainLBC true) noListers ing with
    ingress := { ing with annotations := ("nginx.com/jwt-login-url", "https://login.example.com") :: ing.annotations }
    jwtKey := ⟨"jwk", none⟩ }

def loginMerge (minions : List IngressEx) : MergeableIngresses :=
  ⟨ingressEx (plainLBC true) noListers (emptyPaths shopMaster "shop.example.com"), minions, ⟨_, _, rfl⟩⟩

def redirectNames (m : MergeableIngresses) : List (List String) :=
  ((mergeable m).nginxCfg true newDefaultConfig).servers.map fun server =>
    server.jwtRedirectLocations.map (·.name)

theorem not_redirectsFit {m names} (h : redirectNames m = [names])
    (hdup : ¬names.Nodup) : ¬RedirectsFit ((mergeable m).nginxCfg true newDefaultConfig) := by
  intro hfit
  obtain ⟨server, hs, hnames⟩ := mem_map.mp (h ▸ mem_singleton_self names)
  exact hdup (hnames ▸ hfit.unique server hs)

theorem legal_shop : isDNS1123Label "shop" = true := by decide

theorem legal_shop_cart : isDNS1123Label "shop-cart" = true := by decide

theorem legal_cart_eu : isDNS1123Subdomain "cart-eu" = true := by decide

theorem legal_eu : isDNS1123Subdomain "eu" = true := by decide

def twoPaths : MergeableIngresses := loginMerge [loginMinion shopMinion.objectMeta ["/cart", "/pay"]]

/-- Two minions that differ in where the namespace ends. -/
def namesakes : MergeableIngresses :=
  loginMerge [loginMinion ⟨"shop", "cart-eu", legal_shop, legal_cart_eu⟩ ["/cart"],
    loginMinion ⟨"shop-cart", "eu", legal_shop_cart, legal_eu⟩ ["/pay"]]

theorem redirects_repeated : (redirectNames twoPaths = [["@login_url_default-cart", "@login_url_default-cart"]] ∧
      ¬RedirectsFit ((mergeable twoPaths).nginxCfg true newDefaultConfig)) ∧
    (redirectNames namesakes = [["@login_url_shop-cart-eu", "@login_url_shop-cart-eu"]] ∧
      ¬RedirectsFit ((mergeable namesakes).nginxCfg true newDefaultConfig)) := by
  have hpaths : redirectNames twoPaths = [["@login_url_default-cart", "@login_url_default-cart"]] := by
    decide +kernel
  have hnames : redirectNames namesakes = [["@login_url_shop-cart-eu", "@login_url_shop-cart-eu"]] := by
    decide +kernel
  exact ⟨⟨hpaths, not_redirectsFit hpaths (by simp)⟩, hnames, not_redirectsFit hnames (by simp)⟩

end samples

end KubeYamls.Nginx
