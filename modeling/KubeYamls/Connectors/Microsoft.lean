import KubeYamls.Connectors.OAuth2

/-! # Logging in through Microsoft

`dex/connector/microsoft/microsoft.go`. `getGroups` refuses a user who is in none of the
configured groups, but it is called only for the tenant of an organization: for the three
tenants that stand for many, among them the default one, nothing is checked. -/
namespace KubeYamls.Connectors.Microsoft
open Data Data.Paging Fuelled List

structure Config where
  clientID : String
  clientSecret : String
  redirectURI : String
  tenant : String := ""
  onlySecurityGroups : Bool := false
  groups : List String := []

/-- `microsoftConnector` -/
structure Connector where
  redirectURI : String
  clientID : String
  clientSecret : String
  tenant : String
  onlySecurityGroups : Bool
  groups : List String

/-- `Open` -/
def Config.openConnector (c : Config) : Connector where
  redirectURI := c.redirectURI
  clientID := c.clientID
  clientSecret := c.clientSecret
  tenant := if c.tenant = "" then "common" else c.tenant
  onlySecurityGroups := c.onlySecurityGroups
  groups := c.groups

/-! ## The Graph API -/

structure GraphError where
  code : String
  message : String

/-- What came of a request for a value of type `β`. -/
inductive Reply (β : Type) where
  /-- the payload could not be encoded -/
  | unencoded (err : String)
  | newReq (err : String)
  | unanswered (err : String)
  /-- a status other than 200, with the error of the body if that could be decoded -/
  | refused (body : Except String GraphError)
  | undecoded (err : String)
  | decoded (v : β)

def newGraphError : Except String GraphError → String
  | .error err => "JSON error decode: " ++ err
  | .ok ge => ge.code ++ ": " ++ ge.message

/-- `post`, and the request of `user` with the other text. -/
def Reply.result {β : Type} (sent : String) : Reply β → Except String β
  | .unencoded err => .error ("microsoft: JSON encode: " ++ err)
  | .newReq err => .error ("new req: " ++ err)
  | .unanswered err => .error (sent ++ err)
  | .refused body => .error (newGraphError body)
  | .undecoded err => .error ("JSON decode: " ++ err)
  | .decoded v => .ok v

structure User where
  id : String
  name : String
  email : String

structure Group where
  name : String

/-- The API as a client with a token sees it. A page comes with its `@odata.nextLink`,
which is empty on the last one. -/
structure Graph where
  me : String → Reply User
  /-- the payload is `securityEnabledOnly` -/
  memberGroups : Bool → String → Reply (List String × String)
  /-- the payload is `ids` and `types` -/
  byIds : List String → List String → String → Reply (List Group × String)

structure Client where
  graph : Graph
  renewed : Option Token := none

structure Upstream where
  exchange : OAuth2Config → String → Except String Token
  client : OAuth2Config → Token → Client

def apiURL : String := "https://graph.microsoft.com"

/-- A page of a list as the loops see it: an empty link ends them. -/
def page {α : Type} (server : String → Reply (List α × String)) (reqURL : String) :
    Except String (List α × Option String) :=
  match (server reqURL).result "post URL " with
  | .error err => .error err
  | .ok (out, next) => .ok (out, if next = "" then none else some next)

variable (c : Connector)

def isOrgTenant : Bool := c.tenant ≠ "common" && c.tenant ≠ "consumers" && c.tenant ≠ "organizations"

def groupsRequired (groupScope : Bool) : Bool := (c.groups ≠ [] || groupScope) && isOrgTenant c

def oauth2Config (scopes : Dex.ConnScopes) : OAuth2Config where
  clientID := c.clientID
  clientSecret := c.clientSecret
  authURL := "https://login.microsoftonline.com/" ++ c.tenant ++ "/oauth2/v2.0/authorize"
  tokenURL := "https://login.microsoftonline.com/" ++ c.tenant ++ "/oauth2/v2.0/token"
  scopes := "user.read" :: if groupsRequired c scopes.groups then ["directory.read.all"] else []
  redirectURL := c.redirectURI

variable (graph : Graph)

def user : Except String User :=
  (graph.me (apiURL ++ "/v1.0/me?$select=id,displayName,userPrincipalName")).result "get URL "

def memberGroupsURL : String := apiURL ++ "/v1.0/me/getMemberGroups"

def byIdsURL : String := apiURL ++ "/v1.0/directoryObjects/getByIds"

def getGroupIDs : Requests (List String) :=
  .loop (follow (page (graph.memberGroups c.onlySecurityGroups)) (fun err => .error err)
    (fun ids id => .ok (ids ++ [id])) .ok) memberGroupsURL []

def getGroupNames (ids : List String) : Requests (List String) :=
  if ids = [] then pure []
  else .loop (follow (page (graph.byIds ids ["group"])) (fun err => .error err)
    (fun groups g => .ok (groups ++ [g.name])) .ok) byIdsURL []

def notInGroups (userID : String) : String := "microsoft: user " ++ userID ++ " not in required groups"

def getGroups (userID : String) : Requests (List String) := do
  let ids ← getGroupIDs c graph
  let groups ← getGroupNames graph ids
  let isInGroups := groups.any fun g => c.groups.contains g
  ofExcept (refuse (c.groups ≠ [] ∧ isInGroups = false) (notInGroups userID))
  pure groups

/-- What a login and a refresh both ask for: the user, and the groups where they are required. -/
def userAndGroups (s : Dex.ConnScopes) (groups : List String) : Requests (User × List String) := do
  let u ← ofExcept ((user graph).mapError ("microsoft: get user: " ++ ·))
  if groupsRequired c s.groups then
    let groups ← (getGroups c graph u.id).mapError ("microsoft: get groups: " ++ ·)
    pure (u, groups)
  else pure (u, groups)

variable (up : Upstream) (codec : Codec Token) (s : Dex.ConnScopes)

/-- The data after the source of the tokens renewed one. Where that token could not be
encoded, the request it was for has failed. -/
def renewedData (client : Client) (data : List UInt8) : List UInt8 :=
  match client.renewed.map codec.marshal with
  | some (.ok data') => data'
  | _ => data

def provider : Provider User Token where
  exchange := up.exchange (oauth2Config c s)
  failedToken := "microsoft: failed to get token: "
  read token := userAndGroups c (up.client (oauth2Config c s) token).graph s []
  identity u groups :=
    { userID := u.id, username := u.name, email := u.email, emailVerified := true
      groups := groups, connectorData := [] }
  data token := token
  failedMarshal := "microsoft: marshal connector data: "
  noToken := "microsoft: no upstream access token found"
  failedUnmarshal := "microsoft: unmarshal access token: "
  reread tok groups := userAndGroups c (up.client (oauth2Config c s) tok).graph s groups
  update tok u groups identity :=
    { identity with
      username := u.name, email := u.email, groups := groups
      connectorData := renewedData codec (up.client (oauth2Config c s) tok) identity.connectorData }

def handleCallback (q : Query) : Requests Dex.Identity := (provider c up codec s).handleCallback codec s q

def refresh (identity : Dex.Identity) : Requests Dex.Identity := (provider c up codec s).refresh codec identity

/-! ## Who is let in -/

def GroupNames (names : List String) : Prop :=
  ∃ ids, Listed (page (graph.memberGroups c.onlySecurityGroups)) memberGroupsURL ids ∧
    if ids = [] then names = []
    else ∃ groups, Listed (page (graph.byIds ids ["group"])) byIdsURL groups ∧ names = groups.map Group.name

/-- The API lists one of the configured groups. -/
def MemberOf : Prop := ∃ names, GroupNames c graph names ∧ ∃ g ∈ names, g ∈ c.groups

/-- The callback brings a code, and the requests for the token and the user are answered. -/
def CallbackAnswered (q : Query) : Prop :=
  (provider c up codec s).CallbackAnswered codec
    (fun token => ∃ u, user (up.client (oauth2Config c s) token).graph = .ok u) s q

/-- There is a token, and the request for the user is answered. -/
def RefreshAnswered (identity : Dex.Identity) : Prop :=
  Connectors.RefreshAnswered codec
    (fun tok => ∃ u, user (up.client (oauth2Config c s) tok).graph = .ok u) identity

/-- The user who logs in is in one of the groups. -/
def CallbackMember (q : Query) : Prop :=
  (provider c up codec s).CallbackMember (fun token => MemberOf c (up.client (oauth2Config c s) token).graph) q

def RefreshMember (identity : Dex.Identity) : Prop :=
  Connectors.RefreshMember codec (fun tok => MemberOf c (up.client (oauth2Config c s) tok).graph) identity

variable {c graph up codec s}

theorem getGroupIDs_ends {ids} : (getGroupIDs c graph).Ends (.ok ids) ↔
    Listed (page (graph.memberGroups c.onlySecurityGroups)) memberGroupsURL ids := by
  refine (run_ok_iff (fun err => err) (fun ids id => ids ++ [id]) memberGroupsURL [] ids).trans ?_
  simp only [foldl_snoc (fun id => id), map_id', nil_append, exists_eq_right]

theorem getGroupNames_ends {ids names} : (getGroupNames graph ids).Ends (.ok names) ↔
    if ids = [] then names = [] else ∃ groups, Listed (page (graph.byIds ids ["group"])) byIdsURL groups ∧
      names = groups.map Group.name := by
  unfold getGroupNames
  split_ifs with hids
  · simp [eq_comm]
  · refine (run_ok_iff (fun err => err) (fun groups (g : Group) => groups ++ [g.name]) byIdsURL []
      names).trans ?_
    simp only [foldl_snoc, nil_append, eq_comm]

theorem getGroups_ends {userID groups} (hgroups : c.groups ≠ []) : (getGroups c graph userID).Ends (.ok groups) ↔
      GroupNames c graph groups ∧ ∃ g ∈ groups, g ∈ c.groups := by
  simp only [getGroups, ends_bind, getGroupIDs_ends, getGroupNames_ends, ends_ofExcept,
    refuse_eq_ok, ends_pure, Except.ok.injEq]
  constructor
  · rintro ⟨ids, hids, names, hnames, -, hin, rfl⟩
    refine ⟨⟨ids, hids, hnames⟩, ?_⟩
    simpa [hgroups] using hin
  · rintro ⟨⟨ids, hids, hnames⟩, hin⟩
    refine ⟨ids, hids, groups, hnames, (), ?_, rfl⟩
    simpa [hgroups] using hin

theorem member_of_userAndGroups {groups p} (hgroups : c.groups ≠ [])
    (htenant : isOrgTenant c = true) (h : (userAndGroups c graph s groups).Ends (.ok p)) : MemberOf c graph := by
  have hreq : groupsRequired c s.groups = true := by simp [groupsRequired, hgroups, htenant]
  simp only [userAndGroups, hreq, if_true, ends_bind, ends_mapError] at h
  obtain ⟨u, -, groups', hends, -⟩ := h
  exact ⟨groups', (getGroups_ends hgroups).mp hends⟩

theorem userAndGroups_unchecked (groups : List String) (htenant : isOrgTenant c = false) :
    (∃ p, (userAndGroups c graph s groups).Ends (.ok p)) ↔ ∃ u, user graph = .ok u := by
  have hreq : groupsRequired c s.groups = false := by simp [groupsRequired, htenant]
  simp only [userAndGroups, hreq, Bool.false_eq_true, if_false, ends_bind, ends_ofExcept,
    mapError_eq_ok, ends_pure]
  constructor
  · rintro ⟨p, u, hu, -⟩
    exact ⟨u, hu⟩
  · rintro ⟨u, hu⟩
    exact ⟨_, u, hu, rfl⟩

theorem handleCallback_unchecked {q} (htenant : isOrgTenant c = false) :
    (∃ identity, (handleCallback c up codec s q).Ends (.ok identity)) ↔ CallbackAnswered c up codec s q :=
  Provider.handleCallback_ends fun _ => userAndGroups_unchecked [] htenant

theorem refresh_unchecked {identity} (htenant : isOrgTenant c = false) :
    (∃ identity', (refresh c up codec s identity).Ends (.ok identity')) ↔ RefreshAnswered c up codec s identity :=
  Provider.refresh_ends fun _ => userAndGroups_unchecked identity.groups htenant

theorem enforced_callback {q} (hgroups : c.groups ≠ []) (htenant : isOrgTenant c = true) :
    Enforced (handleCallback c up codec s q) (CallbackMember c up codec s q) :=
  Provider.enforced_handleCallback fun _ _ => member_of_userAndGroups hgroups htenant

theorem enforced_refresh {identity} (hgroups : c.groups ≠ []) (htenant : isOrgTenant c = true) :
    Enforced (refresh c up codec s identity) (RefreshMember c up codec s identity) :=
  Provider.enforced_refresh fun _ _ => member_of_userAndGroups hgroups htenant

end KubeYamls.Connectors.Microsoft
