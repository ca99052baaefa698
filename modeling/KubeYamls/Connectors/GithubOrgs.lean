import KubeYamls.Connectors.Github
import KubeYamls.Dex.Text

/-! # Who is let in by the configured organizations

`groupsForOrgs` (`dex/connector/github/github.go`) goes through the organizations of the
configuration and collects groups. At the end it decides by a flag and by whether any
group was collected. -/
namespace KubeYamls.Connectors.Github
open Data List

/-- What came of the request that asks for a membership. -/
inductive MemberReply where
  | newReq (err : String)
  | unanswered (err : String)
  | answered (statusCode : Nat) (status : String)

/-- The API, with what it answers to a GET of the URL of a membership. -/
structure Api extends Lists where
  members : String → MemberReply

variable (c : Connector) (api : Api) (userName : String)

def userInOrg (orgName : String) : Except String Bool :=
  match api.members (c.apiURL ++ "/orgs/" ++ orgName ++ "/members/" ++ userName) with
  | .newReq err => .error ("github: new req: " ++ err)
  | .unanswered err => .error ("github: get teams: " ++ err)
  | .answered statusCode status =>
    if statusCode = 204 then .ok true
    else if statusCode = 302 ∨ statusCode = 404 then .ok false
    else .error ("github: unexpected return status: " ++ Dex.quote status)

def formatTeamName (org team : String) : String := org ++ ":" ++ team

def filterTeams (userTeams configTeams : List String) : List String :=
  userTeams.filter fun team => configTeams.contains team

/-- The variables of the loop in `groupsForOrgs`. -/
structure OrgsState where
  groups : List String := []
  inOrgNoTeams : Bool := false

/-- The loop over the configured organizations; `none` if a list was not read to its end. -/
def checkOrgs (fuel : Nat) : List OrgFilter → OrgsState → Option (Except String OrgsState)
  | [], st => some (.ok st)
  | org :: orgs, st =>
    match userInOrg c api userName org.name with
    | .error err => some (.error err)
    | .ok false => checkOrgs fuel orgs st
    | .ok true =>
      match (teamsForOrg c api.toLists org.name fuel).2 with
      | none => none
      | some (.error err) => some (.error err)
      | some (.ok teams) =>
        let teams' := if org.teams = [] then teams else filterTeams teams org.teams
        checkOrgs fuel orgs
          { groups := st.groups ++ teams'.map (formatTeamName org.name)
            inOrgNoTeams := if org.teams = [] then true else st.inOrgNoTeams }

def notInOrgs : String := "github: user " ++ Dex.quote userName ++ " not in required orgs or teams"

/-- `groupsForOrgs`. There are no groups where it returns them with the error. -/
def groupsForOrgs (fuel : Nat) : Option (Except String (List String)) :=
  match checkOrgs c api userName fuel c.orgs {} with
  | none => none
  | some (.error err) => some (.error err)
  | some (.ok st) =>
    if st.inOrgNoTeams = true ∨ st.groups ≠ [] then some (.ok st.groups)
    else some (.error (notInOrgs userName))

/-! ## Membership -/

/-- The teams of the user in an organization that count: all, or the listed ones. -/
def countedTeams (teams : List Team) (org : OrgFilter) : List String :=
  if org.teams = [] then orgTeams c org.name teams else filterTeams (orgTeams c org.name teams) org.teams

def groupsOf (teams : List Team) (member : String → Bool) (orgs : List OrgFilter) : List String :=
  (orgs.filter fun org => member org.name).flatMap fun org =>
    (countedTeams c teams org).map (formatTeamName org.name)

/-- The user is in an organization that lists no teams, or in a listed team of one. -/
def LetIn (teams : List Team) (member : String → Bool) : Prop :=
  ∃ org ∈ c.orgs, member org.name = true ∧
    (org.teams = [] ∨ ∃ team ∈ orgTeams c org.name teams, team ∈ org.teams)

/-- The API reports the memberships and the teams of the user without errors. -/
structure Reports (member : String → Bool) (teamPages : List (Page Team)) : Prop where
  members : ∀ org ∈ c.orgs, userInOrg c api userName org.name = .ok (member org.name)
  teams : Serves api.teams (c.apiURL ++ "/user/teams") teamPages

variable {c api userName} {member : String → Bool} {teamPages : List (Page Team)} {fuel : Nat}

/-- The loop adds the groups of each organization and remembers one without teams. -/
theorem checkOrgs_eq {orgs} (hm : ∀ org ∈ orgs, userInOrg c api userName org.name = .ok (member org.name))
    (ht : Serves api.teams (c.apiURL ++ "/user/teams") teamPages) (hf : teamPages.length ≤ fuel)
    (st : OrgsState) : checkOrgs c api userName fuel orgs st = some (.ok {
      groups := st.groups ++ groupsOf c (allItems teamPages) member orgs
      inOrgNoTeams := st.inOrgNoTeams || orgs.any fun org => member org.name && decide (org.teams = []) }) := by
  induction orgs generalizing st with
  | nil => simp [checkOrgs, groupsOf]
  | cons org orgs ih =>
    obtain ⟨horg, hm⟩ := forall_mem_cons.mp hm
    cases hin : member org.name with
    | false =>
      rw [checkOrgs, horg, hin]
      simp [ih hm, groupsOf, hin]
    | true =>
      rw [checkOrgs, horg, hin, teamsForOrg_eq ht org.name hf]
      simp only [ih hm, groupsOf, filter_cons, hin, if_true, flatMap_cons, append_assoc,
        countedTeams, any_cons, Bool.true_and]
      by_cases hteams : org.teams = []
      · simp [hteams]
      · simp [hteams]

theorem letIn_iff : LetIn c (allItems teamPages) member ↔
    (c.orgs.any fun org => member org.name && decide (org.teams = [])) = true ∨
      groupsOf c (allItems teamPages) member c.orgs ≠ [] := by
  constructor
  · rintro ⟨org, horg, hin, hnone | ⟨team, hteam, hlisted⟩⟩
    · exact .inl (any_eq_true.mpr ⟨org, horg, by simp [hin, hnone]⟩)
    · refine .inr (ne_nil_of_mem (a := formatTeamName org.name team) ?_)
      refine mem_flatMap.mpr ⟨org, mem_filter.mpr ⟨horg, hin⟩, mem_map_of_mem ?_⟩
      have hne : org.teams ≠ [] := ne_nil_of_mem hlisted
      simp [countedTeams, hne, filterTeams, hteam, hlisted]
  · rintro (hany | hgroups)
    · obtain ⟨org, horg, hboth⟩ := any_eq_true.mp hany
      obtain ⟨hin, hnone⟩ := Bool.and_eq_true_iff.mp hboth
      exact ⟨org, horg, hin, .inl (of_decide_eq_true hnone)⟩
    · obtain ⟨group, hgroup⟩ := exists_mem_of_ne_nil _ hgroups
      obtain ⟨org, horg, hmap⟩ := mem_flatMap.mp hgroup
      obtain ⟨horg, hin⟩ := mem_filter.mp horg
      obtain ⟨team, hteam, -⟩ := mem_map.mp hmap
      refine ⟨org, horg, hin, ?_⟩
      by_cases hnone : org.teams = []
      · exact .inl hnone
      · rw [countedTeams, if_neg hnone] at hteam
        obtain ⟨hteam, hlisted⟩ := mem_filter.mp hteam
        exact .inr ⟨team, hteam, contains_iff_mem.mp hlisted⟩

open Classical in
theorem groupsForOrgs_eq (h : Reports c api userName member teamPages) (hf : teamPages.length ≤ fuel) :
    groupsForOrgs c api userName fuel = some (
      if LetIn c (allItems teamPages) member then .ok (groupsOf c (allItems teamPages) member c.orgs)
      else .error (notInOrgs userName)) := by
  rw [groupsForOrgs, checkOrgs_eq h.members h.teams hf]
  simp only [nil_append, Bool.false_or]
  by_cases hin : LetIn c (allItems teamPages) member
  · rw [if_pos hin, if_pos (letIn_iff.mp hin)]
  · rw [if_neg hin, if_neg fun hflag => hin (letIn_iff.mpr hflag)]

/-- `groupsForOrgs` succeeds exactly for a user in a configured organization and, where
teams are listed for it, in one of them. The groups are those of the user's teams in the
configured organizations, without the teams that are not listed where some are. -/
theorem orgs_restriction (c : Connector) (api : Api) (userName : String) (member : String → Bool)
    (teamPages : List (Page Team)) (h : Reports c api userName member teamPages) (fuel : Nat)
    (hf : teamPages.length ≤ fuel) : ((∃ groups, groupsForOrgs c api userName fuel = some (.ok groups)) ↔
      LetIn c (allItems teamPages) member) ∧ (∀ groups, groupsForOrgs c api userName fuel = some (.ok groups) →
      groups = groupsOf c (allItems teamPages) member c.orgs) ∧ (¬ LetIn c (allItems teamPages) member →
      groupsForOrgs c api userName fuel = some (.error (notInOrgs userName))) := by
  rw [groupsForOrgs_eq h hf]
  by_cases hin : LetIn c (allItems teamPages) member
  · rw [if_pos hin]
    refine ⟨iff_of_true ⟨_, rfl⟩ hin, fun groups heq => ?_, fun hnot => absurd hin hnot⟩
    cases heq
    rfl
  · rw [if_neg hin]
    refine ⟨iff_of_false ?_ hin, fun groups heq => ?_, fun _ => rfl⟩
    · rintro ⟨groups, heq⟩
      cases heq
    · cases heq

/-- Jane is a member of one of two organizations, of which one team is let in. -/
def acmeOnly : Connector :=
  { orgs := [{ name := "acme", teams := ["dev", "sales"] }, { name := "other" }] }

def janeApi : Api where
  orgs := serving []
  teams := serving acmePages
  emails := serving []
  members url :=
    if url = "https://api.github.com/orgs/acme/members/jane" then .answered 204 "204 No Content"
    else .answered 404 "404 Not Found"

theorem jane_let_in : Reports acmeOnly janeApi "jane" (· = "acme") acmePages ∧
    groupsForOrgs acmeOnly janeApi "jane" 2 = some (.ok ["acme:dev"]) := by
  have hreports : Reports acmeOnly janeApi "jane" (· = "acme") acmePages := by
    refine ⟨fun org horg => ?_, serves_acmePages⟩
    simp only [acmeOnly, mem_cons, not_mem_nil, or_false] at horg
    rcases horg with rfl | rfl
    · rfl
    · rfl
  obtain ⟨hsucceeds, hgroups, -⟩ := orgs_restriction acmeOnly janeApi "jane" _ acmePages hreports 2 (Nat.le_refl 2)
  obtain ⟨groups, heq⟩ := hsucceeds.mpr ⟨_, .head _, rfl, .inr ⟨"dev", by decide, by decide⟩⟩
  refine ⟨hreports, ?_⟩
  rw [heq, hgroups groups heq]
  rfl

end KubeYamls.Connectors.Github
