import KubeYamls.Connectors.GithubLogin
import KubeYamls.Connectors.Microsoft

/-! # Restrictions to members

Two settings promise that only members log in: `org` of the GitHub connector and `groups`
of the Microsoft connector. The first is checked nowhere. The second is checked for the
tenant of an organization. -/
namespace KubeYamls.Connectors

namespace Github
variable {files : String → RootCAFile} {cfg : Config} {c : GithubConnector} {up : Upstream}
  {codec : Codec String} {s : Dex.ConnScopes}

theorem enforced_callback_iff (hopen : cfg.openConnector files = .ok c) (horg : cfg.org ≠ "") (q : Query) :
    Enforced (handleCallback c up codec s q) (CallbackMember c up s q) ↔
      CallbackMember c up s q ∨ ¬ CallbackAnswered c up codec s q := by
  obtain ⟨heq, horgs⟩ := openConnector_legacy hopen horg
  exact enforced_iff (handleCallback_legacy horgs (heq ▸ horg))

theorem enforced_refresh_iff (hopen : cfg.openConnector files = .ok c) (horg : cfg.org ≠ "")
    (identity : Dex.Identity) : Enforced (refresh c up codec s identity) (RefreshMember c up codec s identity) ↔
      RefreshMember c up codec s identity ∨ ¬ RefreshAnswered c up codec s identity := by
  obtain ⟨heq, horgs⟩ := openConnector_legacy hopen horg
  exact enforced_iff (refresh_legacy horgs (heq ▸ horg))

end Github

namespace Microsoft
variable {cfg : Config} {up : Upstream} {codec : Codec Token} {s : Dex.ConnScopes}

def manyTenants : List String := ["", "common", "consumers", "organizations"]

theorem isOrgTenant_openConnector : isOrgTenant cfg.openConnector = true ↔ cfg.tenant ∉ manyTenants := by
  by_cases hempty : cfg.tenant = ""
  · simp [isOrgTenant, Config.openConnector, manyTenants, hempty]
  · simp [isOrgTenant, Config.openConnector, manyTenants, hempty, and_assoc]

theorem enforced_callback_iff (hgroups : cfg.groups ≠ []) (q : Query) :
    Enforced (handleCallback cfg.openConnector up codec s q) (CallbackMember cfg.openConnector up codec s q) ↔
      cfg.tenant ∉ manyTenants ∨ CallbackMember cfg.openConnector up codec s q ∨
        ¬ CallbackAnswered cfg.openConnector up codec s q := by
  rw [← isOrgTenant_openConnector]
  cases htenant : isOrgTenant cfg.openConnector with
  | true => exact iff_of_true (enforced_callback hgroups htenant) (.inl rfl)
  | false => simpa using enforced_iff (handleCallback_unchecked htenant)

theorem enforced_refresh_iff (hgroups : cfg.groups ≠ []) (identity : Dex.Identity) :
    Enforced (refresh cfg.openConnector up codec s identity)
        (RefreshMember cfg.openConnector up codec s identity) ↔
      cfg.tenant ∉ manyTenants ∨ RefreshMember cfg.openConnector up codec s identity ∨
        ¬ RefreshAnswered cfg.openConnector up codec s identity := by
  rw [← isOrgTenant_openConnector]
  cases htenant : isOrgTenant cfg.openConnector with
  | true => exact iff_of_true (enforced_refresh hgroups htenant) (.inl rfl)
  | false => simpa using enforced_iff (refresh_unchecked htenant)

end Microsoft

/-- With `org` set, a login or a refresh through GitHub is restricted exactly if the user
is a member anyway or one of its requests is not answered. With `groups` set, one through
Microsoft is restricted exactly for the tenant of an organization, apart from the same. -/
theorem restrictions_enforced_iff (files : String → Github.RootCAFile) (gcfg : Github.Config)
    (g : Github.GithubConnector) (hopen : gcfg.openConnector files = .ok g) (horg : gcfg.org ≠ "")
    (mcfg : Microsoft.Config) (hgroups : mcfg.groups ≠ []) (gup : Github.Upstream) (gcodec : Codec String)
    (mup : Microsoft.Upstream) (mcodec : Codec Token) (s : Dex.ConnScopes) (q : Query) (identity : Dex.Identity) :
    (Enforced (Github.handleCallback g gup gcodec s q) (Github.CallbackMember g gup s q) ↔
      Github.CallbackMember g gup s q ∨ ¬ Github.CallbackAnswered g gup gcodec s q) ∧
    (Enforced (Github.refresh g gup gcodec s identity) (Github.RefreshMember g gup gcodec s identity) ↔
      Github.RefreshMember g gup gcodec s identity ∨ ¬ Github.RefreshAnswered g gup gcodec s identity) ∧
    (Enforced (Microsoft.handleCallback mcfg.openConnector mup mcodec s q)
        (Microsoft.CallbackMember mcfg.openConnector mup mcodec s q) ↔
      mcfg.tenant ∉ Microsoft.manyTenants ∨ Microsoft.CallbackMember mcfg.openConnector mup mcodec s q ∨
        ¬ Microsoft.CallbackAnswered mcfg.openConnector mup mcodec s q) ∧
    (Enforced (Microsoft.refresh mcfg.openConnector mup mcodec s identity)
        (Microsoft.RefreshMember mcfg.openConnector mup mcodec s identity) ↔
      mcfg.tenant ∉ Microsoft.manyTenants ∨ Microsoft.RefreshMember mcfg.openConnector mup mcodec s identity ∨
        ¬ Microsoft.RefreshAnswered mcfg.openConnector mup mcodec s identity) :=
  ⟨Github.enforced_callback_iff hopen horg q, Github.enforced_refresh_iff hopen horg identity,
    Microsoft.enforced_callback_iff hgroups q, Microsoft.enforced_refresh_iff hgroups identity⟩

/-! ## Jane logs in -/

def acme : Github.Config where
  clientID := "dex"
  clientSecret := "secret"
  redirectURI := "https://dex.example.com/callback"
  org := "acme"

def acmeConnector : Github.GithubConnector where
  redirectURI := "https://dex.example.com/callback"
  org := "acme"
  clientID := "dex"
  clientSecret := "secret"

def janeOnGithub (statusCode : Nat) (status : String) : Github.Upstream where
  exchange _ _ _ := .ok ⟨"token", "", 0⟩
  api _ _ _ :=
    { orgs := fun _ => .decoded ([], ""), teams := fun _ => .decoded ([], "")
      emails := fun _ => .decoded ([], ""), members := fun _ => .answered statusCode status
      user := fun _ => .decoded ⟨"Jane", "jane", 7, "jane@x"⟩ }

def admins (tenant : String) : Microsoft.Config where
  clientID := "dex"
  clientSecret := "secret"
  redirectURI := "https://dex.example.com/callback"
  tenant := tenant
  groups := ["admins"]

def janeGraph : Microsoft.Graph where
  me _ := .decoded ⟨"7", "Jane", "jane@x"⟩
  memberGroups _ _ := .decoded (["1"], "")
  byIds _ _ _ := .decoded ([⟨"staff"⟩], "")

def janeAtMicrosoft : Microsoft.Upstream where
  exchange _ _ := .ok ⟨"token", "", 0⟩
  client _ _ := { graph := janeGraph }

def tokenText : Codec String where
  marshal _ := .ok [116]
  unmarshal _ := .ok "token"

def tokenJson : Codec Token where
  marshal _ := .ok [116]
  unmarshal _ := .ok ⟨"token", "", 0⟩

def withCode : Query := fun name => if name = "code" then "1234" else ""

def jane : Dex.Identity := ⟨"7", "Jane", "jane@x", true, [], [116]⟩

theorem acme_opens : acme.openConnector (fun _ => .noCerts) = .ok acmeConnector := rfl

theorem jane_not_in_acme (api : Github.UserApi)
    (h : api.members = fun _ => .answered 404 "404 Not Found") : ¬ Github.MemberOf acmeConnector api := by
  rintro ⟨u, -, hin⟩
  rw [Github.userInOrg, h] at hin
  cases hin

theorem jane_not_in_admins (tenant : String) : ¬ Microsoft.MemberOf (admins tenant).openConnector janeGraph := by
  rintro ⟨names, ⟨ids, hids, hnames⟩, g, hg, hadmin⟩
  have hends := Microsoft.getGroupIDs_ends.mpr hids
  obtain rfl : ids = ["1"] := Except.ok.inj (hends.unique ⟨1, rfl⟩)
  have hends := Microsoft.getGroupNames_ends.mpr hnames
  obtain rfl : names = ["staff"] := Except.ok.inj (hends.unique ⟨1, rfl⟩)
  obtain rfl : g = "staff" := by simpa using hg
  simp [Microsoft.Config.openConnector, admins] at hadmin

/-- Jane is neither in the organization nor in the group. Both connectors return an
identity all the same, on a login and on a refresh. -/
theorem outsider_let_in :
    ((Github.handleCallback acmeConnector (janeOnGithub 404 "404 Not Found") tokenText {} withCode).Ends
        (.ok ⟨"7", "Jane", "jane@x", true, [], []⟩) ∧
      ¬ Github.CallbackMember acmeConnector (janeOnGithub 404 "404 Not Found") {} withCode) ∧
    ((Github.refresh acmeConnector (janeOnGithub 404 "404 Not Found") tokenText {} jane).Ends (.ok jane) ∧
      ¬ Github.RefreshMember acmeConnector (janeOnGithub 404 "404 Not Found") tokenText {} jane) ∧
    ((Microsoft.handleCallback (admins "").openConnector janeAtMicrosoft tokenJson {} withCode).Ends
        (.ok ⟨"7", "Jane", "jane@x", true, [], []⟩) ∧
      ¬ Microsoft.CallbackMember (admins "").openConnector janeAtMicrosoft tokenJson {} withCode) ∧
    ((Microsoft.refresh (admins "").openConnector janeAtMicrosoft tokenJson {} jane).Ends (.ok jane) ∧
      ¬ Microsoft.RefreshMember (admins "").openConnector janeAtMicrosoft tokenJson {} jane) := by
  refine ⟨⟨⟨1, rfl⟩, ?_⟩, ⟨⟨1, rfl⟩, ?_⟩, ⟨⟨1, rfl⟩, ?_⟩, ⟨1, rfl⟩, ?_⟩
  · rintro ⟨token, -, hin⟩
    exact jane_not_in_acme _ rfl hin
  · rintro ⟨accessToken, -, hin⟩
    exact jane_not_in_acme _ rfl hin
  · rintro ⟨token, -, hin⟩
    exact jane_not_in_admins "" hin
  · rintro ⟨token, -, hin⟩
    exact jane_not_in_admins "" hin

/-- A member logs in, and the tenant of an organization is restricted. -/
theorem members_only :
    Enforced (Github.handleCallback acmeConnector (janeOnGithub 204 "204 No Content") tokenText {} withCode)
      (Github.CallbackMember acmeConnector (janeOnGithub 204 "204 No Content") {} withCode) ∧
    Enforced (Microsoft.refresh (admins "contoso").openConnector janeAtMicrosoft tokenJson {} jane)
      (Microsoft.RefreshMember (admins "contoso").openConnector janeAtMicrosoft tokenJson {} jane) := by
  obtain ⟨hlogin, -, -, hrefresh⟩ := restrictions_enforced_iff _ acme acmeConnector acme_opens (by decide)
    (admins "contoso") (by decide) (janeOnGithub 204 "204 No Content") tokenText janeAtMicrosoft tokenJson {}
    withCode jane
  exact ⟨hlogin.mpr (.inl ⟨_, rfl, _, rfl, rfl⟩), hrefresh.mpr (.inl (by decide))⟩

end KubeYamls.Connectors
