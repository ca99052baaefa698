import KubeYamls.Data.Fallible
import KubeYamls.Data.Fuelled
import KubeYamls.Dex.Calls

/-! # Logging in through OAuth2

`HandleCallback` and `Refresh` take the same steps in the GitHub and in the Microsoft
connector: a token, the user with the groups, and the data kept for a refresh. The
connectors differ in what they ask for and in the texts of their errors. -/
namespace KubeYamls.Connectors
open Data Fuelled

/-- `oauth2.Config`, with both URLs of its endpoint. -/
structure OAuth2Config where
  clientID : String
  clientSecret : String
  authURL : String
  tokenURL : String
  scopes : List String
  redirectURL : String := ""

/-- `oauth2.Token` -/
structure Token where
  accessToken : String
  refreshToken : String := ""
  expiry : Int := 0

/-- `oauth2Error.Error` -/
def oauth2Error (error errorDescription : String) : String :=
  if errorDescription = "" then error else error ++ ": " ++ errorDescription

/-- `q.Get` of the query of a callback; a parameter that is not there is empty. -/
abbrev Query := String → String

/-- The JSON text of the `connectorData` of a connector. -/
structure Codec (δ : Type) where
  marshal : δ → Except String (List UInt8)
  unmarshal : List UInt8 → Except String δ

abbrev Requests := Fuelled String

/-- A connector with its configuration and the scopes of the client. A user is of type
`υ`, the data for a refresh of type `δ`. -/
structure Provider (υ δ : Type) where
  exchange : String → Except String Token
  failedToken : String
  /-- the user and the groups, as the API tells the holder of the token -/
  read : Token → Requests (υ × List String)
  identity : υ → List String → Dex.Identity
  data : Token → δ
  failedMarshal : String
  noToken : String
  failedUnmarshal : String
  /-- the same for the data that was kept, and with the groups that were -/
  reread : δ → List String → Requests (υ × List String)
  update : δ → υ → List String → Dex.Identity → Dex.Identity

variable {υ δ : Type} (p : Provider υ δ) (codec : Codec δ)

def Provider.handleCallback (s : Dex.ConnScopes) (q : Query) : Requests Dex.Identity := do
  ofExcept (refuse (q "error" ≠ "") (oauth2Error (q "error") (q "error_description")))
  let token ← ofExcept ((p.exchange (q "code")).mapError (p.failedToken ++ ·))
  let (user, groups) ← p.read token
  if s.offlineAccess then
    let connData ← ofExcept ((codec.marshal (p.data token)).mapError (p.failedMarshal ++ ·))
    pure { p.identity user groups with connectorData := connData }
  else pure (p.identity user groups)

def Provider.refresh (identity : Dex.Identity) : Requests Dex.Identity := do
  ofExcept (refuse (identity.connectorData = []) p.noToken)
  let data ← ofExcept
    ((codec.unmarshal identity.connectorData).mapError (p.failedUnmarshal ++ ·))
  let (user, groups) ← p.reread data identity.groups
  pure (p.update data user groups identity)

/-- The callback brings a code, and every request of the login is answered, where `Reads`
says so of those with the token. -/
def Provider.CallbackAnswered (Reads : Token → Prop) (s : Dex.ConnScopes) (q : Query) : Prop :=
  q "error" = "" ∧ ∃ token, p.exchange (q "code") = .ok token ∧ Reads token ∧
    (s.offlineAccess = true → ∃ connData, codec.marshal (p.data token) = .ok connData)

/-- There is data from the login, and every request of the refresh is answered. -/
def RefreshAnswered (Reads : δ → Prop) (identity : Dex.Identity) : Prop :=
  identity.connectorData ≠ [] ∧ ∃ data, codec.unmarshal identity.connectorData = .ok data ∧ Reads data

/-- The code is one of a user of whom the API says `Member`. -/
def Provider.CallbackMember (Member : Token → Prop) (q : Query) : Prop :=
  ∃ token, p.exchange (q "code") = .ok token ∧ Member token

/-- The data is that of a user of whom the API says `Member`. -/
def RefreshMember (Member : δ → Prop) (identity : Dex.Identity) : Prop :=
  ∃ data, codec.unmarshal identity.connectorData = .ok data ∧ Member data

variable {p codec} {s : Dex.ConnScopes} {q : Query} {identity identity' : Dex.Identity}

theorem Provider.handleCallback_ends {Reads} (hread : ∀ token, (∃ r, (p.read token).Ends (.ok r)) ↔ Reads token) :
    (∃ identity, (p.handleCallback codec s q).Ends (.ok identity)) ↔ p.CallbackAnswered codec Reads s q := by
  simp only [handleCallback, ends_bind, ends_ofExcept, refuse_eq_ok, mapError_eq_ok, ne_eq, not_not]
  constructor
  · rintro ⟨identity, -, herr, token, htoken, r, hr, hdata⟩
    refine ⟨herr, token, htoken, (hread token).mp ⟨r, hr⟩, fun hoff => ?_⟩
    simp only [hoff, if_true, ends_bind, ends_ofExcept, mapError_eq_ok] at hdata
    obtain ⟨connData, hmarshal, -⟩ := hdata
    exact ⟨connData, hmarshal⟩
  · rintro ⟨herr, token, htoken, hans, hmarshal⟩
    obtain ⟨r, hr⟩ := (hread token).mpr hans
    cases hoff : s.offlineAccess with
    | false => exact ⟨_, (), herr, token, htoken, r, hr, ends_pure.mpr rfl⟩
    | true =>
      obtain ⟨connData, hdata⟩ := hmarshal hoff
      have hends := ends_ofExcept.mpr (mapError_eq_ok (f := (p.failedMarshal ++ ·)).mpr hdata)
      exact ⟨_, (), herr, token, htoken, r, hr, ends_bind.mpr ⟨connData, hends, ends_pure.mpr rfl⟩⟩

theorem Provider.refresh_ends {Reads}
    (hread : ∀ data, (∃ r, (p.reread data identity.groups).Ends (.ok r)) ↔ Reads data) :
    (∃ identity', (p.refresh codec identity).Ends (.ok identity')) ↔ RefreshAnswered codec Reads identity := by
  simp only [refresh, ends_bind, ends_ofExcept, refuse_eq_ok, mapError_eq_ok]
  constructor
  · rintro ⟨identity', -, hdata, data, htoken, r, hr, -⟩
    exact ⟨hdata, data, htoken, (hread data).mp ⟨r, hr⟩⟩
  · rintro ⟨hdata, data, htoken, hans⟩
    obtain ⟨r, hr⟩ := (hread data).mpr hans
    exact ⟨_, (), hdata, data, htoken, r, hr, ends_pure.mpr rfl⟩

/-! ## Restrictions -/

/-- Whoever is returned an identity is a member. -/
def Enforced (result : Requests Dex.Identity) (Member : Prop) : Prop :=
  ∀ identity, result.Ends (.ok identity) → Member

theorem enforced_iff {result} {Member Answered : Prop} (h : (∃ identity, result.Ends (.ok identity)) ↔ Answered) :
    Enforced result Member ↔ Member ∨ ¬ Answered := by
  rw [← h]
  constructor
  · intro henf
    by_cases hex : ∃ identity, result.Ends (.ok identity)
    · obtain ⟨identity, hret⟩ := hex
      exact .inl (henf identity hret)
    · exact .inr hex
  · rintro (hm | hnone) identity hret
    · exact hm
    · exact absurd ⟨identity, hret⟩ hnone

theorem Provider.enforced_handleCallback {Member}
    (hread : ∀ token r, (p.read token).Ends (.ok r) → Member token) :
    Enforced (p.handleCallback codec s q) (p.CallbackMember Member q) := by
  intro identity h
  simp only [handleCallback, ends_bind, ends_ofExcept, mapError_eq_ok] at h
  obtain ⟨-, -, token, htoken, r, hr, -⟩ := h
  exact ⟨token, htoken, hread token r hr⟩

theorem Provider.enforced_refresh {Member}
    (hread : ∀ data r, (p.reread data identity.groups).Ends (.ok r) → Member data) :
    Enforced (p.refresh codec identity) (RefreshMember codec Member identity) := by
  intro identity' h
  simp only [refresh, ends_bind, ends_ofExcept, mapError_eq_ok] at h
  obtain ⟨-, -, data, hdata, r, hr, -⟩ := h
  exact ⟨data, hdata, hread data r hr⟩

end KubeYamls.Connectors
