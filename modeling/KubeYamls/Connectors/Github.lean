import KubeYamls.Connectors.Http
import KubeYamls.Data.LinkHeader
import KubeYamls.Data.Paging
import KubeYamls.Data.Table

/-! # The lists of the GitHub API

The four loops of `dex/connector/github/github.go` that read a list page by page. The
URL of the next page is taken out of the `Link` header by two regular expressions. -/
namespace KubeYamls.Connectors.Github
open Data Data.Paging Data.LinkHeader List

/-! ## One page -/

def texts : Texts where
  newReq := "github: new req: "
  getURL := "github: get URL "
  readBody _ := "github: read body: "
  decode := "failed to decode response: "

/-- What the API answers to a GET of a URL: the decoded items and the `Link` header. -/
abbrev Server (α : Type) := String → Reply (List α × String)

def reNext (links : String) : Option String := (find "next".toList links.toList).map String.ofList

def reLast (links : String) : Option String := (find "last".toList links.toList).map String.ofList

def getPagination (apiURL links : String) : String :=
  match reLast links with
  | none => ""
  | some lastPageURL =>
    if apiURL = lastPageURL then ""
    else match reNext links with
      | some nextPageURL => nextPageURL
      | none => ""

def get {α : Type} (server : Server α) (apiURL : String) : Except String (List α × String) :=
  match (server apiURL).get texts with
  | .error err => .error err
  | .ok (v, links) => .ok (v, getPagination apiURL links)

/-- The page as the loops see it: an empty URL ends them. -/
def page {α : Type} (server : Server α) (apiURL : String) : Except String (List α × Option String) :=
  match get server apiURL with
  | .error err => .error err
  | .ok (v, next) => .ok (v, if next = "" then none else some next)

/-! ## The loops -/

structure Org where
  login : String

structure Team where
  name : String
  org : Org
  slug : String

structure UserEmail where
  email : String
  verified : Bool
  primary : Bool

/-- `Org` of the configuration: an organization, with the teams that are let in if any
are listed. -/
structure OrgFilter where
  name : String
  teams : List String := []

structure Connector where
  apiURL : String := "https://api.github.com"
  orgs : List OrgFilter := []
  hostName : String := ""
  teamNameField : String := ""

structure Lists where
  orgs : Server Org
  teams : Server Team
  emails : Server UserEmail

variable (c : Connector)

def teamGroupClaims (t : Team) : List String :=
  if c.teamNameField = "both" then [t.name, t.slug]
  else if c.teamNameField = "slug" then [t.slug]
  else [t.name]

/-- The URLs asked for, and the result if the loop has ended. -/
abbrev Loop (ρ : Type) := List String × Option (Except String ρ)

def userOrgs (api : Lists) (fuel : Nat) : Loop (List String) :=
  run (follow (page api.orgs) (fun err => .error ("github: get orgs: " ++ err))
    (fun groups o => .ok (groups ++ [o.login])) .ok) fuel (c.apiURL ++ "/user/orgs") []

/-- The body of the loop in `userOrgTeams`. -/
def addOrgTeam (groups : Table String (List String)) (t : Team) : Table String (List String) :=
  groups.insert t.org.login ((groups.lookup t.org.login).getD [] ++ teamGroupClaims c t)

def userOrgTeams (api : Lists) (fuel : Nat) : Loop (Table String (List String)) :=
  run (follow (page api.teams) (fun err => .error ("github: get teams: " ++ err))
    (fun groups t => .ok (addOrgTeam c groups t)) .ok) fuel (c.apiURL ++ "/user/teams") ∅

/-- The body of the loop in `teamsForOrg`. -/
def addTeam (orgName : String) (groups : List String) (t : Team) : List String :=
  if t.org.login = orgName then groups ++ teamGroupClaims c t else groups

def teamsForOrg (api : Lists) (orgName : String) (fuel : Nat) : Loop (List String) :=
  run (follow (page api.teams) (fun err => .error ("github: get teams: " ++ err))
    (fun groups t => .ok (addTeam c orgName groups t)) .ok) fuel (c.apiURL ++ "/user/teams") []

def noEmail : String := "github: user has no verified, primary email"

/-- GitHub Enterprise does not verify addresses, so there every one counts as verified. -/
def verifiedPrimary (email : UserEmail) : Bool := (c.hostName ≠ "" || email.verified) && email.primary

def userEmail (api : Lists) (fuel : Nat) : Loop String :=
  run (follow (page api.emails) .error
    (fun _ email => if verifiedPrimary c email then .error (.ok email.email) else .ok ())
    (fun _ => .error noEmail)) fuel (c.apiURL ++ "/user/emails") ()

/-! ## A list that the API serves -/

structure Page (α : Type) where
  url : String
  items : List α
  links : String
  entries : List Entry

variable {α : Type} {server : Server α} {first final : String} {p : Page α} {pages : List (Page α)}

/-- There is an entry of this relation, and it names this URL. -/
structure Page.Names (p : Page α) (rel url : String) : Prop where
  mem : ∃ e ∈ p.entries, e.rel = rel.toList
  url : ∀ e ∈ p.entries, e.rel = rel.toList → e.url = url.toList

def Linked (final : String) : List (Page α) → Prop
  | [] => False
  | [p] => p.url = final ∧ ((∀ e ∈ p.entries, e.rel ≠ "next".toList) ∨ p.Names "last" p.url)
  | p :: p' :: rest => p.Names "next" p'.url ∧ p.Names "last" final ∧ Linked final (p' :: rest)

/-- A page that the server answers its URL with, under a well-formed header. -/
structure Page.Answers (server : Server α) (p : Page α) : Prop where
  answer : server p.url = .decoded (p.items, p.links)
  header : Header p.entries p.links.toList
  valid : ∀ e ∈ p.entries, e.Valid
  url : p.url ≠ ""

structure Serves (server : Server α) (first : String) (pages : List (Page α)) : Prop where
  first : pages.head?.map Page.url = some first
  answers : ∀ p ∈ pages, p.Answers server
  distinct : (pages.map Page.url).Nodup
  linked : ∃ final, Linked final pages

/-! ## The loops follow it -/

theorem Page.Answers.find_named {rel url} (h : p.Answers server) (hn : p.Names rel url)
    (hrel : '"' ∉ rel.toList) (hurl : url ≠ "") :
    (find rel.toList p.links.toList).map String.ofList = some url := by
  have hne : url.toList ≠ [] := fun hnil => hurl (String.toList_eq_nil_iff.mp hnil)
  rw [find_eq_some h.header h.valid hrel hn.mem hn.url hne, Option.map_some, String.ofList_toList]

theorem getPagination_more {u} (h : p.Answers server) (hnext : p.Names "next" u)
    (hlast : p.Names "last" final) (hu : u ≠ "") (hfinal : final ≠ "") (hne : p.url ≠ final) :
    getPagination p.url p.links = u := by
  have hl : reLast p.links = some final := h.find_named hlast (by decide) hfinal
  have hn : reNext p.links = some u := h.find_named hnext (by decide) hu
  simp [getPagination, hl, hn, hne]

theorem getPagination_final (h : p.Answers server)
    (hlast : (∀ e ∈ p.entries, e.rel ≠ "next".toList) ∨ p.Names "last" p.url) :
    getPagination p.url p.links = "" := by
  rcases hlast with hnext | hlast
  · have hn : reNext p.links = none := by
      rw [reNext, find_eq_none h.header h.valid (by decide) hnext]
      rfl
    unfold getPagination
    split
    · rfl
    · split <;> simp_all
  · have hl : reLast p.links = some p.url := h.find_named hlast (by decide) h.url
    simp [getPagination, hl]

theorem page_eq (h : p.Answers server) : page server p.url =
    .ok (p.items, if getPagination p.url p.links = "" then none else some (getPagination p.url p.links)) := by
  simp [page, get, h.answer, Reply.get]

theorem Linked.final_mem (h : Linked final pages) : final ∈ pages.map Page.url := by
  fun_induction Linked final pages with
  | case1 => cases h
  | case2 p => simp [h.1]
  | case3 p p' rest ih => exact .tail _ (ih h.2.2)

def seen (pages : List (Page α)) : List (String × List α) := pages.map fun p => (p.url, p.items)

theorem Linked.chain (h : Linked final pages) (ha : ∀ p ∈ pages, p.Answers server)
    (hd : (pages.map Page.url).Nodup) : Chain (page server) (seen pages) := by
  fun_induction Linked final pages with
  | case1 => cases h
  | case2 p =>
    have hp := ha p (by simp)
    exact .last (by rw [page_eq hp, getPagination_final hp h.2]; rfl)
  | case3 p p' rest ih =>
    obtain ⟨hnext, hlast, hrest⟩ := h
    have hp := ha p (by simp)
    have hp' := ha p' (by simp)
    obtain ⟨hnot, hd'⟩ := nodup_cons.mp hd
    have hfinal : final ≠ "" := by
      obtain ⟨q, hq, rfl⟩ := mem_map.mp hrest.final_mem
      exact (ha q (.tail _ hq)).url
    have hne : p.url ≠ final := fun heq => hnot (heq ▸ hrest.final_mem)
    refine .more ?_ (ih hrest (fun q hq => ha q (.tail _ hq)) hd')
    rw [page_eq hp, getPagination_more hp hnext hlast hp'.url hfinal hne, if_neg hp'.url]

theorem Serves.chain (h : Serves server first pages) : Chain (page server) (seen pages) := by
  obtain ⟨final, hlinked⟩ := h.linked
  exact hlinked.chain h.answers h.distinct

theorem Serves.head (h : Serves server first pages) : (seen pages).head?.map Prod.fst = some first := by
  rw [← h.first, seen, head?_map, Option.map_map]
  rfl

def allItems (pages : List (Page α)) : List α := pages.flatMap Page.items

theorem map_fst_seen : (seen pages).map Prod.fst = pages.map Page.url := by
  simp [seen, Function.comp_def]

theorem flatMap_snd_seen : (seen pages).flatMap Prod.snd = allItems pages := by
  simp [seen, allItems, flatMap_map]

/-! ## What the loops return -/

def orgTeams (orgName : String) (teams : List Team) : List String :=
  (teams.filter fun t => t.org.login = orgName).flatMap (teamGroupClaims c)

def firstEmail (emails : List UserEmail) : Except String String :=
  match emails.find? (verifiedPrimary c) with
  | some email => .ok email.email
  | none => .error noEmail

theorem foldl_addTeam (orgName : String) (teams : List Team) (groups : List String) :
    teams.foldl (addTeam c orgName) groups = groups ++ orgTeams c orgName teams := by
  induction teams generalizing groups with
  | nil => simp [orgTeams]
  | cons t teams ih =>
    rw [foldl_cons, ih, addTeam]
    split_ifs with ht
    · simp [orgTeams, ht]
    · simp [orgTeams, ht]

theorem lookup_foldl_addOrgTeam (orgName : String) (teams : List Team) (groups : Table String (List String)) :
    (teams.foldl (addOrgTeam c) groups).lookup orgName = if ∃ t ∈ teams, t.org.login = orgName then
        some ((groups.lookup orgName).getD [] ++ orgTeams c orgName teams) else groups.lookup orgName := by
  induction teams generalizing groups with
  | nil => simp
  | cons t teams ih =>
    rw [foldl_cons, ih, addOrgTeam]
    by_cases ht : t.org.login = orgName
    · subst ht
      rw [if_pos (c := ∃ t' ∈ t :: teams, t'.org.login = t.org.login) ⟨t, by simp, rfl⟩]
      simp only [AList.lookup_insert, Option.getD_some, orgTeams, filter_cons, decide_true, if_true,
        flatMap_cons, append_assoc]
      split_ifs with hex
      · rfl
      · have hnil : (teams.filter fun t' => t'.org.login = t.org.login) = [] := by
          simpa using hex
        simp [hnil]
    · rw [AList.lookup_insert_ne (Ne.symm ht)]
      simp [orgTeams, ht]

theorem result_email (emails : List UserEmail) :
    result (fun _ email => if verifiedPrimary c email then .error (.ok email.email) else .ok ())
      (fun _ => .error noEmail) () emails = firstEmail c emails := by
  induction emails with
  | nil => rfl
  | cons email emails ih =>
    unfold result items firstEmail at ih ⊢
    rw [foldlM_cons, find?_cons]
    cases hv : verifiedPrimary c email with
    | true => rfl
    | false => exact ih

section
variable {c : Connector} {api : Lists} {orgPages : List (Page Org)} {teamPages : List (Page Team)}
  {emailPages : List (Page UserEmail)} {fuel : Nat}

theorem userOrgs_eq (h : Serves api.orgs (c.apiURL ++ "/user/orgs") orgPages) (hf : orgPages.length ≤ fuel) :
    userOrgs c api fuel = (orgPages.map Page.url, some (.ok ((allItems orgPages).map Org.login))) := by
  rw [userOrgs, run_follow h.chain _ _ h.head (by simpa [seen] using hf), map_fst_seen,
    flatMap_snd_seen, foldl_snoc, nil_append]

theorem userOrgTeams_eq (h : Serves api.teams (c.apiURL ++ "/user/teams") teamPages)
    (hf : teamPages.length ≤ fuel) : userOrgTeams c api fuel =
      (teamPages.map Page.url, some (.ok ((allItems teamPages).foldl (addOrgTeam c) ∅))) := by
  rw [userOrgTeams, run_follow h.chain _ _ h.head (by simpa [seen] using hf), map_fst_seen, flatMap_snd_seen]

theorem teamsForOrg_eq (h : Serves api.teams (c.apiURL ++ "/user/teams") teamPages) (orgName : String)
    (hf : teamPages.length ≤ fuel) : teamsForOrg c api orgName fuel =
      (teamPages.map Page.url, some (.ok (orgTeams c orgName (allItems teamPages)))) := by
  rw [teamsForOrg, run_follow h.chain _ _ h.head (by simpa [seen] using hf), map_fst_seen,
    flatMap_snd_seen, foldl_addTeam, nil_append]

theorem userEmail_eq (h : Serves api.emails (c.apiURL ++ "/user/emails") emailPages) :
    ∃ visited, visited <+: emailPages.map Page.url ∧ ∀ fuel ≥ emailPages.length,
      userEmail c api fuel = (visited, some (firstEmail c (allItems emailPages))) := by
  obtain ⟨visited, hpre, hends, -⟩ := follow_ends (ρ := Except String String) .error
    (fun _ email => if verifiedPrimary c email then .error (.ok email.email) else .ok ())
    (fun _ => .error noEmail) h.chain () h.head
  rw [map_fst_seen] at hpre
  rw [flatMap_snd_seen, result_email] at hends
  refine ⟨visited, hpre, fun fuel hf => hends.run_eq ?_⟩
  have hlen := hpre.length_le
  rw [length_map] at hlen
  omega

end

/-- With as many turns as there are pages, the four loops end. Each asks for the pages in
order, `userEmail` for those up to its address, and returns what all items together say. -/
theorem lists_complete (api : Lists) (orgPages : List (Page Org)) (teamPages : List (Page Team))
    (emailPages : List (Page UserEmail)) (ho : Serves api.orgs (c.apiURL ++ "/user/orgs") orgPages)
    (ht : Serves api.teams (c.apiURL ++ "/user/teams") teamPages)
    (he : Serves api.emails (c.apiURL ++ "/user/emails") emailPages) :
    (∀ fuel ≥ orgPages.length, userOrgs c api fuel =
      (orgPages.map Page.url, some (.ok ((allItems orgPages).map Org.login)))) ∧
    (∃ groups : Table String (List String), (∀ fuel ≥ teamPages.length, userOrgTeams c api fuel =
        (teamPages.map Page.url, some (.ok groups))) ∧ ∀ orgName, groups.lookup orgName =
        if ∃ t ∈ allItems teamPages, t.org.login = orgName then
          some (orgTeams c orgName (allItems teamPages)) else none) ∧
    (∀ orgName, ∀ fuel ≥ teamPages.length, teamsForOrg c api orgName fuel =
      (teamPages.map Page.url, some (.ok (orgTeams c orgName (allItems teamPages))))) ∧
    ∃ visited, visited <+: emailPages.map Page.url ∧ ∀ fuel ≥ emailPages.length, userEmail c api fuel =
        (visited, some (firstEmail c (allItems emailPages))) := by
  refine ⟨fun fuel => userOrgs_eq ho, ⟨_, fun fuel => userOrgTeams_eq ht, fun orgName => ?_⟩,
    fun orgName fuel => teamsForOrg_eq ht orgName, userEmail_eq he⟩
  rw [lookup_foldl_addOrgTeam]
  rfl

/-! ## A server with two pages of teams -/

def Page.of (url : String) (items : List α) (entries : List Entry) : Page α :=
  ⟨url, items, String.ofList (render entries), entries⟩

def serving (pages : List (Page α)) : Server α := fun apiURL =>
  match pages.find? fun p => p.url = apiURL with
  | some p => .decoded (p.items, p.links)
  | none => .refused "404 Not Found" ""

theorem Page.answers_of {url items entries}
    (h : server url = .decoded (items, String.ofList (render entries))) (hv : ∀ e ∈ entries, e.Valid)
    (hurl : url ≠ "") : (Page.of url items entries).Answers server where
  answer := h
  header := by
    show Header entries (String.ofList (render entries)).toList
    rw [String.toList_ofList]
    exact header_render entries
  valid := hv
  url := hurl

theorem serves_single {url} (items : List α) (hurl : url ≠ "") :
    Serves (serving [Page.of url items []]) url [Page.of url items []] where
  first := rfl
  answers p hp := by
    obtain rfl := mem_singleton.mp hp
    refine Page.answers_of ?_ (by simp) hurl
    simp [serving, Page.of]
  distinct := by simp
  linked := ⟨url, rfl, .inl (by simp [Page.of])⟩

def secondURL : String := "https://api.github.com/user/teams?page=2"

def acmePages : List (Page Team) :=
  [.of "https://api.github.com/user/teams" [⟨"ops", ⟨"acme"⟩, "ops"⟩, ⟨"web", ⟨"other"⟩, "web"⟩]
      [⟨secondURL.toList, "last".toList⟩, ⟨secondURL.toList, "next".toList⟩],
    .of secondURL [⟨"dev", ⟨"acme"⟩, "dev"⟩] [⟨"https://api.github.com/user/teams".toList, "prev".toList⟩]]

theorem serves_acmePages : Serves (serving acmePages) "https://api.github.com/user/teams" acmePages where
  first := rfl
  answers p hp := by
    simp only [acmePages, mem_cons, not_mem_nil, or_false] at hp
    rcases hp with rfl | rfl
    · exact Page.answers_of rfl (by decide) (by decide)
    · exact Page.answers_of rfl (by decide) (by decide)
  distinct := by decide
  linked := by
    refine ⟨secondURL, ⟨⟨_, .tail _ (.head _), rfl⟩, ?_⟩, ⟨⟨_, .head _, rfl⟩, ?_⟩, rfl, .inl ?_⟩
    · decide
    · decide
    · decide

theorem teams_of_two_pages :
    teamsForOrg {} ⟨serving [Page.of "https://api.github.com/user/orgs" [⟨"acme"⟩] []], serving acmePages,
        serving [Page.of "https://api.github.com/user/emails" [⟨"jane@x", true, true⟩] []]⟩ "acme" 2 =
      (["https://api.github.com/user/teams", secondURL], some (.ok ["ops", "dev"])) := by
  obtain ⟨-, -, hteams, -⟩ := lists_complete {} ⟨serving _, serving acmePages, serving _⟩ _ acmePages _
    (serves_single [⟨"acme"⟩] (by decide)) serves_acmePages (serves_single [⟨"jane@x", true, true⟩] (by decide))
  exact hteams "acme" 2 (Nat.le_refl 2)

end KubeYamls.Connectors.Github
