import KubeYamls.Connectors.GithubOrgs
import KubeYamls.Connectors.OAuth2

/-! # Logging in through GitHub

`Open`, `HandleCallback` and `Refresh` of `dex/connector/github/github.go`. The
organizations of `orgs` are checked by `groupsForOrgs`. For the older field `org` only
the teams are read, and a user without any is returned with no groups. -/
namespace KubeYamls.Connectors.Github
open Data Data.Paging

structure Config where
  clientID : String
  clientSecret : String
  redirectURI : String
  org : String := ""
  orgs : List OrgFilter := []
  hostName : String := ""
  rootCA : String := ""
  teamNameField : String := ""
  loadAllGroups : Bool := false
  useLoginAsID : Bool := false

/-- An HTTP client that trusts the certificates of a file. -/
structure HttpClient where
  rootCAs : String

structure GithubConnector extends Connector where
  redirectURI : String
  org : String
  clientID : String
  clientSecret : String
  rootCA : String := ""
  httpClient : Option HttpClient := none
  loadAllGroups : Bool := false
  useLoginAsID : Bool := false

/-- What a file of root certificates comes to. -/
inductive RootCAFile where
  | unread (err : String)
  | noCerts
  | certs (pool : String)

def newHTTPClient (files : String → RootCAFile) (rootCA : String) : Except String HttpClient :=
  match files rootCA with
  | .unread err => .error ("failed to read root-ca: " ++ err)
  | .noCerts => .error ("no certs found in root CA file " ++ Dex.quote rootCA)
  | .certs pool => .ok ⟨pool⟩

/-- The `hostName` part of `Open`. -/
def withHost (c : Config) (g : GithubConnector) : Except String GithubConnector :=
  if c.hostName = "" then .ok g
  else if '/' ∈ c.hostName.toList then .error "invalid hostname: hostname cannot contain `/`"
  else .ok { g with hostName := c.hostName, apiURL := "https://" ++ c.hostName ++ "/api/v3" }

/-- The `rootCA` part of `Open`. -/
def withRootCA (files : String → RootCAFile) (c : Config) (g : GithubConnector) :
    Except String GithubConnector :=
  if c.rootCA = "" then .ok g
  else if c.hostName = "" then
    .error "invalid connector config: Host name field required for a root certificate file"
  else do
    let client ← (newHTTPClient files c.rootCA).mapError ("failed to create HTTP client: " ++ ·)
    .ok { g with rootCA := c.rootCA, httpClient := some client }

/-- `Open` -/
def Config.openConnector (files : String → RootCAFile) (c : Config) : Except String GithubConnector := do
  if c.org ≠ "" ∧ c.orgs ≠ [] then
    .error "github: cannot use both 'org' and 'orgs' fields simultaneously"
  let g ← withHost c { redirectURI := c.redirectURI, org := c.org, orgs := c.orgs, clientID := c.clientID
                       clientSecret := c.clientSecret, useLoginAsID := c.useLoginAsID }
  let g ← withRootCA files c g
  let g := { g with loadAllGroups := c.loadAllGroups }
  if c.teamNameField ∈ ["name", "slug", "both", ""] then .ok { g with teamNameField := c.teamNameField }
  else .error ("invalid connector config: unsupported team name field value `" ++ c.teamNameField ++ "`")

variable (c : GithubConnector)

def groupsRequired (groupScope : Bool) : Bool := c.orgs ≠ [] || c.org ≠ "" || groupScope

def oauth2Config (scopes : Dex.ConnScopes) : OAuth2Config where
  clientID := c.clientID
  clientSecret := c.clientSecret
  authURL :=
    if c.hostName = "" then "https://github.com/login/oauth/authorize"
    else "https://" ++ c.hostName ++ "/login/oauth/authorize"
  tokenURL :=
    if c.hostName = "" then "https://github.com/login/oauth/access_token"
    else "https://" ++ c.hostName ++ "/login/oauth/access_token"
  scopes := "user:email" :: if groupsRequired c scopes.groups then ["read:org"] else []

structure User where
  name : String
  login : String
  id : Int
  email : String

/-- The API with the profile of the user, as a client with a token sees it. -/
structure UserApi extends Api where
  user : String → Reply User

/-- GitHub: the exchange of a code for a token, and the API. Both depend on the HTTP
client of the context. -/
structure Upstream where
  exchange : Option HttpClient → OAuth2Config → String → Except String Token
  api : Option HttpClient → OAuth2Config → Token → UserApi

/-! ## The loops, with turns enough -/

variable {n m : Nat} {r : Except String (List String)}

theorem teamsForOrg_mono {api orgName} (hnm : n ≤ m) (h : (teamsForOrg c.toConnector api orgName n).2 = some r) :
    (teamsForOrg c.toConnector api orgName m).2 = some r := Fuelled.loop_mono hnm h

theorem userEmail_mono {api r} (hnm : n ≤ m)
    (h : (userEmail c.toConnector api n).2 = some r) : (userEmail c.toConnector api m).2 = some r :=
  Fuelled.loop_mono hnm h

theorem userOrgs_mono {api} (hnm : n ≤ m) (h : (userOrgs c.toConnector api n).2 = some r) :
    (userOrgs c.toConnector api m).2 = some r :=
  Fuelled.loop_mono hnm h

theorem userOrgTeams_mono {api r} (hnm : n ≤ m) (h : (userOrgTeams c.toConnector api n).2 = some r) :
    (userOrgTeams c.toConnector api m).2 = some r := Fuelled.loop_mono hnm h

theorem checkOrgs_mono {api userName} (hnm : n ≤ m) {orgs st r}
    (h : checkOrgs c.toConnector api userName n orgs st = some r) :
    checkOrgs c.toConnector api userName m orgs st = some r := by
  induction orgs generalizing st with
  | nil => exact h
  | cons org orgs ih =>
    unfold checkOrgs at h ⊢
    cases hin : userInOrg c.toConnector api userName org.name with
    | error err => simpa [hin] using h
    | ok inOrg =>
      rw [hin] at h
      cases inOrg with
      | false => exact ih h
      | true =>
        cases hteams : (teamsForOrg c.toConnector api.toLists org.name n).2 with
        | none => simp [hteams] at h
        | some r' =>
          rw [teamsForOrg_mono c hnm hteams]
          rw [hteams] at h
          cases r' with
          | error err => exact h
          | ok teams => exact ih h

theorem groupsForOrgs_mono {api userName} (hnm : n ≤ m)
    (h : groupsForOrgs c.toConnector api userName n = some r) :
    groupsForOrgs c.toConnector api userName m = some r := by
  unfold groupsForOrgs at h ⊢
  cases hck : checkOrgs c.toConnector api userName n c.orgs {} with
  | none => simp [hck] at h
  | some r' =>
    rw [checkOrgs_mono c hnm hck]
    rw [hck] at h
    exact h

/-! ## Groups -/

/-- The loop over the organizations in `userGroups`. -/
def orgGroups (orgTeams : Table String (List String)) (orgs : List String) : List String :=
  orgs.flatMap fun o => o :: ((orgTeams.lookup o).getD []).map (formatTeamName o)

def userGroups (api : Lists) : Requests (List String) := do
  let orgs ← (⟨fun fuel => (userOrgs c.toConnector api fuel).2, userOrgs_mono c⟩ : Requests _)
  let orgTeams ← (⟨fun fuel => (userOrgTeams c.toConnector api fuel).2, userOrgTeams_mono c⟩ : Requests _)
  pure (orgGroups orgTeams orgs)

def getGroups (api : Api) (groupScope : Bool) (userLogin : String) : Requests (List String) :=
  if c.orgs ≠ [] then ⟨groupsForOrgs c.toConnector api userLogin, groupsForOrgs_mono c⟩
  else if c.org ≠ "" then
    ⟨fun fuel => (teamsForOrg c.toConnector api.toLists c.org fuel).2, teamsForOrg_mono c⟩
  else if groupScope && c.loadAllGroups then userGroups c api.toLists
  else pure []

/-! ## Login and refresh -/

def profile (api : UserApi) : Except String User := (api.user (c.apiURL ++ "/user")).get texts

/-- `user`: an address that is not public is asked for separately. -/
def user (api : UserApi) : Requests User := do
  let u ← Fuelled.ofExcept (profile c api)
  if u.email = "" then
    let email ← (⟨fun fuel => (userEmail c.toConnector api.toLists fuel).2, userEmail_mono c⟩ : Requests _)
    pure { u with email := email }
  else pure u

def username (u : User) : String := if u.name = "" then u.login else u.name

/-- What a login and a refresh both ask for: the user, and the groups where they are required. -/
def userAndGroups (api : UserApi) (s : Dex.ConnScopes) (groups : List String) :
    Requests (User × List String) := do
  let u ← (user c api).mapError ("github: get user: " ++ ·)
  if groupsRequired c s.groups then
    let groups ← getGroups c api.toApi s.groups u.login
    pure (u, groups)
  else pure (u, groups)

variable (up : Upstream) (codec : Codec String) (s : Dex.ConnScopes)

/-- The data is the access token, which never expires. The HTTP client of the connector
is in the context of a login but not of a refresh. -/
def provider : Provider User String where
  exchange := up.exchange c.httpClient (oauth2Config c s)
  failedToken := "github: failed to get token: "
  read token := userAndGroups c (up.api c.httpClient (oauth2Config c s) token) s []
  identity u groups :=
    { userID := if c.useLoginAsID then u.login else toString u.id
      username := username u, email := u.email, emailVerified := true, groups := groups, connectorData := [] }
  data := Token.accessToken
  failedMarshal := "marshal connector data: "
  noToken := "no upstream access token found"
  failedUnmarshal := "github: unmarshal access token: "
  reread accessToken groups := userAndGroups c (up.api none (oauth2Config c s) { accessToken }) s groups
  update _ u groups identity := { identity with username := username u, email := u.email, groups := groups }

def handleCallback (q : Query) : Requests Dex.Identity := (provider c up s).handleCallback codec s q

def refresh (identity : Dex.Identity) : Requests Dex.Identity := (provider c up s).refresh codec identity

/-! ## What the older field asks for

No request for the membership is among these. -/

/-- GitHub says so when it is asked for the membership. -/
def MemberOf (api : UserApi) : Prop :=
  ∃ u, profile c api = .ok u ∧ userInOrg c.toConnector api.toApi u.login c.org = .ok true

def Answers (api : UserApi) : Prop :=
  (∃ u, (user c api).Ends (.ok u)) ∧ ∃ teams, Listed (page api.teams) (c.apiURL ++ "/user/teams") teams

/-- The callback brings a code, and every request of the login is answered. -/
def CallbackAnswered (q : Query) : Prop :=
  (provider c up s).CallbackAnswered codec
    (fun token => Answers c (up.api c.httpClient (oauth2Config c s) token)) s q

def RefreshAnswered (identity : Dex.Identity) : Prop :=
  Connectors.RefreshAnswered codec
    (fun accessToken => Answers c (up.api none (oauth2Config c s) { accessToken })) identity

def CallbackMember (q : Query) : Prop :=
  (provider c up s).CallbackMember
    (fun token => MemberOf c (up.api c.httpClient (oauth2Config c s) token)) q

def RefreshMember (identity : Dex.Identity) : Prop :=
  Connectors.RefreshMember codec
    (fun accessToken => MemberOf c (up.api none (oauth2Config c s) { accessToken })) identity

theorem withHost_orgs {cfg g g'} (h : withHost cfg g = .ok g') : g'.org = g.org ∧ g'.orgs = g.orgs := by
  unfold withHost at h
  split_ifs at h with hempty hslash
  · cases h
    exact ⟨rfl, rfl⟩
  · cases h
    exact ⟨rfl, rfl⟩

theorem withRootCA_orgs {files cfg g g'}
    (h : withRootCA files cfg g = .ok g') : g'.org = g.org ∧ g'.orgs = g.orgs := by
  unfold withRootCA at h
  split_ifs at h with hempty hhost
  · cases h
    exact ⟨rfl, rfl⟩
  · obtain ⟨client, -, h⟩ := bind_eq_ok.mp h
    cases h
    exact ⟨rfl, rfl⟩

theorem openConnector_legacy {files} {cfg : Config} {c}
    (h : cfg.openConnector files = .ok c) (horg : cfg.org ≠ "") : c.org = cfg.org ∧ c.orgs = [] := by
  unfold Config.openConnector at h
  by_cases horgs : cfg.orgs = []
  · simp only [horgs, ne_eq, not_true_eq_false, and_false, if_false] at h
    obtain ⟨g, hhost, h⟩ := bind_eq_ok.mp h
    obtain ⟨g', hroot, h⟩ := bind_eq_ok.mp h
    obtain ⟨horg1, horgs1⟩ := withHost_orgs hhost
    obtain ⟨horg2, horgs2⟩ := withRootCA_orgs hroot
    split_ifs at h
    cases h
    exact ⟨horg2.trans horg1, horgs2.trans horgs1⟩
  · rw [if_pos ⟨horg, horgs⟩] at h
    cases h

variable {c up codec s} {api : UserApi}

section
variable (horgs : c.orgs = []) (horg : c.org ≠ "")
include horgs horg

theorem getGroups_legacy {groupScope userLogin} :
    (∃ groups, (getGroups c api.toApi groupScope userLogin).Ends (.ok groups)) ↔
      ∃ teams, Listed (page api.teams) (c.apiURL ++ "/user/teams") teams := by
  have hrun : ∀ groups, (∃ fuel, (teamsForOrg c.toConnector api.toLists c.org fuel).2 = some (.ok groups)) ↔
      ∃ teams, Listed (page api.teams) (c.apiURL ++ "/user/teams") teams ∧
        teams.foldl (addTeam c.toConnector c.org) [] = groups := fun groups =>
    run_ok_iff (fun err => "github: get teams: " ++ err) (addTeam c.toConnector c.org) _ [] groups
  simp only [getGroups, horgs, horg, ne_eq, not_true_eq_false, not_false_eq_true, if_true, if_false]
  constructor
  · rintro ⟨groups, hends⟩
    obtain ⟨teams, hteams, -⟩ := (hrun groups).mp hends
    exact ⟨teams, hteams⟩
  · rintro ⟨teams, hteams⟩
    exact ⟨_, (hrun _).mpr ⟨teams, hteams, rfl⟩⟩

theorem userAndGroups_legacy (groups : List String) :
    (∃ p, (userAndGroups c api s groups).Ends (.ok p)) ↔ Answers c api := by
  have hreq : groupsRequired c s.groups = true := by simp [groupsRequired, horg]
  simp only [userAndGroups, hreq, if_true, Fuelled.ends_bind, Fuelled.ends_mapError, Fuelled.ends_pure]
  constructor
  · rintro ⟨p, u, hu, groups', hgroups, -⟩
    exact ⟨⟨u, hu⟩, (getGroups_legacy horgs horg).mp ⟨groups', hgroups⟩⟩
  · rintro ⟨⟨u, hu⟩, hteams⟩
    obtain ⟨groups', hgroups⟩ := (getGroups_legacy horgs horg).mpr hteams
    exact ⟨_, u, hu, groups', hgroups, rfl⟩

theorem handleCallback_legacy {q} :
    (∃ identity, (handleCallback c up codec s q).Ends (.ok identity)) ↔ CallbackAnswered c up codec s q :=
  Provider.handleCallback_ends fun _ => userAndGroups_legacy horgs horg []

theorem refresh_legacy {identity} : (∃ identity', (refresh c up codec s identity).Ends (.ok identity')) ↔
      RefreshAnswered c up codec s identity :=
  Provider.refresh_ends fun _ => userAndGroups_legacy horgs horg identity.groups

end

end KubeYamls.Connectors.Github
