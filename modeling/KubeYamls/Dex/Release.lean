import KubeYamls.Dex.Audience

/-! # What a token tells of the user

`newIDToken` (`dex/server/oauth2.go`) copies an attribute of the user into the
token only at the scope that asks for it. Two users who differ in attributes that
no scope asks for get the same token. -/
namespace KubeYamls.Dex
open Conc Prog

/-- The same user ID, and the same attributes as far as the scopes ask for them. -/
structure SameReleased (scopes : List String) (claims claims' : Claims) : Prop where
  userID : claims.userID = claims'.userID
  email : scopeEmail ∈ scopes → claims.email = claims'.email ∧ claims.emailVerified = claims'.emailVerified
  groups : scopeGroups ∈ scopes → claims.groups = claims'.groups
  username : scopeProfile ∈ scopes → claims.username = claims'.username

namespace SameReleased
variable {scope : String} {scopes : List String} {claims claims' : Claims}

theorem tail (h : SameReleased (scope :: scopes) claims claims') : SameReleased scopes claims claims' where
  userID := h.userID
  email hs := h.email (.tail _ hs)
  groups hs := h.groups (.tail _ hs)
  username hs := h.username (.tail _ hs)

theorem addScopes_eq (h : SameReleased scopes claims claims') (clientID connID : String) (tok : IDTokenClaims) :
    addScopes clientID claims connID scopes tok = addScopes clientID claims' connID scopes tok := by
  induction scopes generalizing tok with
  | nil => rfl
  | cons scope scopes ih =>
    have next := ih h.tail
    simp only [addScopes, next]
    -- the four scopes that read the claims; the others only look at the scope
    split
    · next hs =>
      obtain ⟨hemail, hverified⟩ := h.email (by simp [hs])
      rw [hemail, hverified]
    split
    · next hs => rw [h.groups (by simp [hs])]
    split
    · next hs => rw [h.username (by simp [hs])]
    split
    · rw [h.userID]
    · rfl

end SameReleased

theorem newIDToken_eq {scopes claims claims'}
    (h : SameReleased scopes claims claims') (c : Config) (clientID nonce accessToken connID : String) :
    ∃ rest : Handler (Except Error (IDToken × Time)),
      newIDToken c clientID claims scopes nonce accessToken connID =
        (note (.newIDToken clientID claims scopes nonce accessToken connID) >>= fun _ => rest) ∧
      newIDToken c clientID claims' scopes nonce accessToken connID =
        (note (.newIDToken clientID claims' scopes nonce accessToken connID) >>= fun _ => rest) := by
  -- the answer to `marshal` is typed by its arguments, so the user ID is substituted, not rewritten
  obtain ⟨userID, username, email, emailVerified, groups⟩ := claims
  obtain rfl : userID = claims'.userID := h.userID
  have hscopes := funext (h.addScopes_eq clientID connID)
  refine ⟨_, rfl, bind_congr fun _ => bind_congr fun keys => ?_⟩
  rw [hscopes]
  cases keys with
  | error e => rfl
  | ok keys =>
    dsimp only
    cases keys.signingKey with
    | none => rfl
    | some signingKey =>
      dsimp only
      cases signatureAlgorithm signingKey with
      | error e => rfl
      | ok signingAlg =>
        refine bind_congr fun issuedAt => bind_congr fun subject => ?_
        cases subject with
        | error | ok => rfl

theorem runs_of_note {α : Type} {codec inst n} (n' : Note) {rest w w' es} {a : α}
    (h : Runs (exec codec inst) (note n >>= fun _ => rest) w es a w') :
    ∃ es', Runs (exec codec inst) (note n' >>= fun _ => rest) w es' a w' := by
  obtain ⟨ans, r, w1, es', hx, hrest, -⟩ := h.step_inv
  exact ⟨_, Runs.act (S := sig) (o := Op.note n') (r := r) hx hrest⟩

/-- Users who agree on what the scopes ask for get the same token or the same
failure: for the same answers to each call, and in every run against a storage,
which ends in the same world for both. -/
theorem released_by_scope (codec : Codec) (inst : Nat) (c : Config)
    (clientID nonce accessToken connID : String) (scopes : List String) (claims claims' : Claims)
    (h : SameReleased scopes claims claims') : (∀ reply : (o : Op) → Res o,
      (newIDToken c clientID claims scopes nonce accessToken connID).eval reply =
        (newIDToken c clientID claims' scopes nonce accessToken connID).eval reply) ∧ ∀ w res w',
      (∃ es, Runs (exec codec inst) (newIDToken c clientID claims scopes nonce accessToken connID) w es res w') ↔
      ∃ es, Runs (exec codec inst)
        (newIDToken c clientID claims' scopes nonce accessToken connID) w es res w' := by
  obtain ⟨rest, hrest, hrest'⟩ := newIDToken_eq h c clientID nonce accessToken connID
  rw [hrest, hrest']
  refine ⟨fun reply => by simp [note], fun w res w' => ⟨?_, ?_⟩⟩
  · rintro ⟨es, hrun⟩
    exact runs_of_note _ hrun
  · rintro ⟨es, hrun⟩
    exact runs_of_note _ hrun

/-- Someone else's mail address and groups, under the same user ID and name. -/
def mallory : Claims :=
  { userID := "7", username := "jane", email := "mallory@example.com", groups := ["admins"] }

/-- With the profile scope alone both get one and the same token, which names them. -/
theorem released_profile : ∃ idToken expiry,
    (newIDToken (demo.config 0) "app" { userID := "7", username := "jane" } ["openid", "profile"]
      "" "" "mock").eval (signsFor ∅) = .ok (idToken, expiry) ∧
    (newIDToken (demo.config 0) "app" mallory ["openid", "profile"] "" "" "mock").eval (signsFor ∅) =
      .ok (idToken, expiry) ∧ idToken.payload.name = "jane" := by
  have hsame : SameReleased ["openid", "profile"] { userID := "7", username := "jane" } mallory :=
    ⟨rfl, fun hs => absurd hs (by decide), fun hs => absurd hs (by decide), fun _ => rfl⟩
  obtain ⟨heval, -⟩ := released_by_scope demo.codec 0 (demo.config 0) "app" "" "" "mock"
    ["openid", "profile"] _ _ hsame
  exact ⟨_, _, rfl, (heval (signsFor ∅)).symm, rfl⟩

end KubeYamls.Dex
