import KubeYamls.Connectors.Http
import KubeYamls.Data.Paging

/-! # The lists of the Bitbucket API

`userEmail` and `userTeams` (`dex/connector/bitbucketcloud/bitbucketcloud.go`) read a
list page by page. Each page carries the URL of the next one, but neither loop goes
there: both ask for the first page again. -/
namespace KubeYamls.Connectors.Bitbucket
open Data Data.Paging List

structure Connector where
  apiURL : String := "https://api.bitbucket.org/2.0"

/-- A page of a list, with `Next` of its `pagedResponse`. -/
structure PagedResponse (α : Type) where
  values : List α
  next : Option String

structure UserEmail where
  isPrimary : Bool
  isConfirmed : Bool
  email : String

structure Team where
  name : String

def texts : Texts where
  newReq := "bitbucket: new req: "
  getURL := "bitbucket: get URL "
  readBody status := "bitbucket: read body: " ++ status ++ ": "
  decode := "bitbucket: failed to decode response: "

/-- What the API answers to a GET of a URL. -/
abbrev Server (α : Type) := String → Reply (PagedResponse α)

def get {α : Type} (server : Server α) (apiURL : String) : Except String (PagedResponse α) :=
  (server apiURL).get texts

def noEmail : String := "bitbucket: user has no confirmed, primary email"

def confirmedPrimary (email : UserEmail) : Bool := email.isConfirmed && email.isPrimary

/-- One turn of the loop in `userEmail`. -/
def userEmailTurn (server : Server UserEmail) (apiURL : String) (_ : Unit) :
    Turn String Unit (Except String String) :=
  match get server apiURL with
  | .error err => .stop (.error err)
  | .ok response =>
    match response.values.find? confirmedPrimary with
    | some email => .stop (.ok email.email)
    | none =>
      match response.next with
      | none => .stop (.error noEmail)
      -- apiURL stays what it was
      | some _ => .more apiURL ()

def userEmailURL (b : Connector) : String := b.apiURL ++ "/user/emails"

def userEmail (b : Connector) (server : Server UserEmail) (fuel : Nat) :
    List String × Option (Except String String) :=
  run (userEmailTurn server) fuel (userEmailURL b) ()

/-- One turn of the loop in `userTeams`. -/
def userTeamsTurn (server : Server Team) (apiURL : String) (teams : List String) :
    Turn String (List String) (Except String (List String)) :=
  match get server apiURL with
  | .error err => .stop (.error ("bitbucket: get user teams: " ++ err))
  | .ok response =>
    let teams := response.values.foldl (fun teams team => teams ++ [team.name]) teams
    match response.next with
    | none => .stop (.ok teams)
    | some _ => .more apiURL teams

def userTeamsURL (b : Connector) : String := b.apiURL ++ "/teams?role=member"

def userTeams (b : Connector) (server : Server Team) (fuel : Nat) :
    List String × Option (Except String (List String)) :=
  run (userTeamsTurn server) fuel (userTeamsURL b) []

/-! ## What the lists hold -/

/-- A page as the items it holds and the page it names. -/
def pageOf {α : Type} (server : Server α) (apiURL : String) : Except String (List α × Option String) :=
  (get server apiURL).map fun response => (response.values, response.next)

/-- A finite list of the API whose first page has this URL. -/
structure Serves {α : Type} (server : Server α) (first : String) (pages : List (String × List α)) : Prop where
  chain : Chain (pageOf server) pages
  first : pages.head?.map Prod.fst = some first

def firstEmail (emails : List UserEmail) : Except String String :=
  match emails.find? confirmedPrimary with
  | some email => .ok email.email
  | none => .error noEmail

/-- `userTeams` ends, asks for each page once and returns the teams of all pages. -/
def TeamsComplete (b : Connector) (server : Server Team) (pages : List (String × List Team)) : Prop :=
  Ends (userTeamsTurn server) (userTeamsURL b) [] (pages.map Prod.fst)
    (.ok ((pages.flatMap Prod.snd).map Team.name))

/-- `userEmail` ends with the first address of all pages, or the error. -/
def EmailFound (b : Connector) (server : Server UserEmail) (pages : List (String × List UserEmail)) :
    Prop :=
  ∃ visited, Ends (userEmailTurn server) (userEmailURL b) () visited
    (firstEmail (pages.flatMap Prod.snd))

section
variable {α : Type} {server : Server α} {first : String} {pages : List (String × List α)}

theorem pageOf_ok {apiURL l next}
    (h : pageOf server apiURL = .ok (l, next)) : get server apiURL = .ok ⟨l, next⟩ := by
  unfold pageOf at h
  cases hg : get server apiURL with
  | error e =>
    rw [hg] at h
    cases h
  | ok response =>
    rw [hg] at h
    cases h
    rfl

theorem Serves.cases (h : Serves server first pages) :
    (∃ l, pages = [(first, l)] ∧ get server first = .ok ⟨l, none⟩) ∨
    ∃ l next p rest, pages = (first, l) :: p :: rest ∧ get server first = .ok ⟨l, some next⟩ := by
  obtain ⟨hchain, hfirst⟩ := h
  cases hchain with
  | @last u l hu =>
    obtain rfl : u = first := by simpa using hfirst
    exact .inl ⟨l, rfl, pageOf_ok hu⟩
  | @more u u' l l' rest hu _ =>
    obtain rfl : u = first := by simpa using hfirst
    exact .inr ⟨l, u', _, rest, rfl, pageOf_ok hu⟩

end

theorem userTeams_neverEnds {server apiURL next l}
    (h : get server apiURL = .ok ⟨l, some next⟩) (teams : List String) :
    NeverEnds (userTeamsTurn server) apiURL teams := by
  refine neverEnds_of_invariant (I := fun u _ => u = apiURL) ?_ rfl
  rintro u teams rfl
  exact ⟨u, teams ++ l.map Team.name, by simp only [userTeamsTurn, h, foldl_snoc], rfl⟩

theorem userEmail_neverEnds {server apiURL next l}
    (h : get server apiURL = .ok ⟨l, some next⟩) (hl : l.find? confirmedPrimary = none) :
    NeverEnds (userEmailTurn server) apiURL () := by
  refine neverEnds_of_invariant (I := fun u _ => u = apiURL) ?_ rfl
  rintro u _ rfl
  exact ⟨u, (), by simp only [userEmailTurn, h, hl], rfl⟩

theorem teamsComplete_iff {b server pages}
    (h : Serves server (userTeamsURL b) pages) : TeamsComplete b server pages ↔ pages.length = 1 := by
  obtain ⟨l, rfl, hget⟩ | ⟨l, next, p, rest, rfl, hget⟩ := h.cases
  · refine iff_of_true (ends_stop ?_) rfl
    simp only [userTeamsTurn, hget, foldl_snoc, nil_append, flatMap_cons, flatMap_nil, append_nil]
  · exact iff_of_false (userTeams_neverEnds hget []).not_ends (by simp)

theorem emailFound_iff {b server pages} (h : Serves server (userEmailURL b) pages) : EmailFound b server pages ↔
      pages.length = 1 ∨ ∃ p ∈ pages.head?, ∃ email ∈ p.2, confirmedPrimary email = true := by
  obtain ⟨l, rfl, hget⟩ | ⟨l, next, p, rest, rfl, hget⟩ := h.cases
  · refine iff_of_true ⟨_, ends_stop ?_⟩ (.inl rfl)
    simp only [userEmailTurn, hget, firstEmail, flatMap_cons, flatMap_nil, append_nil]
    cases l.find? confirmedPrimary <;> rfl
  · cases hl : l.find? confirmedPrimary with
    | some email =>
      -- the loop is left on the first page, with the first address of all pages
      have hfound : ∃ e ∈ l, confirmedPrimary e = true :=
        ⟨email, mem_of_find?_eq_some hl, find?_some hl⟩
      refine iff_of_true ⟨_, ends_stop ?_⟩ (.inr ⟨_, rfl, hfound⟩)
      simp [userEmailTurn, hget, hl, firstEmail, find?_append]
    | none =>
      refine iff_of_false ?_ ?_
      · rintro ⟨visited, hends⟩
        exact (userEmail_neverEnds hget hl).not_ends hends
      · simpa using hl

/-- For every finite list of pages, `userTeams` is complete exactly if there is one
page, and `userEmail` exactly if there is one page or the first has the address. -/
theorem paging_iff (b : Connector) (teams : Server Team) (emails : Server UserEmail)
    (teamPages : List (String × List Team)) (emailPages : List (String × List UserEmail))
    (ht : Serves teams (userTeamsURL b) teamPages) (he : Serves emails (userEmailURL b) emailPages) :
    (TeamsComplete b teams teamPages ↔ teamPages.length = 1) ∧ (EmailFound b emails emailPages ↔
      emailPages.length = 1 ∨ ∃ p ∈ emailPages.head?, ∃ email ∈ p.2, confirmedPrimary email = true) :=
  ⟨teamsComplete_iff ht, emailFound_iff he⟩

/-! ## Two servers -/

/-- A server that knows these pages, each naming the next. -/
def serving {α : Type} : List (String × List α) → Server α
  | [], _ => .refused "404 Not Found" ""
  | [(u, l)], v => if v = u then .decoded ⟨l, none⟩ else .refused "404 Not Found" ""
  | (u, l) :: (u', l') :: rest, v =>
    if v = u then .decoded ⟨l, some u'⟩ else serving ((u', l') :: rest) v

def onePage : List (String × List Team) :=
  [("https://api.bitbucket.org/2.0/teams?role=member", [⟨"a"⟩, ⟨"b"⟩])]

def twoPages : List (String × List Team) :=
  [("https://api.bitbucket.org/2.0/teams?role=member", [⟨"a"⟩, ⟨"b"⟩]),
    ("https://api.bitbucket.org/2.0/teams?role=member&page=2", [⟨"c"⟩])]

def oneEmail : List (String × List UserEmail) :=
  [("https://api.bitbucket.org/2.0/user/emails", [⟨false, true, "j@x"⟩, ⟨true, true, "jane@x"⟩])]

theorem onePage_complete : TeamsComplete {} (serving onePage) onePage ∧
    EmailFound {} (serving oneEmail) oneEmail := by
  obtain ⟨hteams, hemails⟩ := paging_iff {} (serving onePage) (serving oneEmail) onePage oneEmail
    ⟨.last rfl, by decide⟩ ⟨.last rfl, by decide⟩
  exact ⟨hteams.mpr rfl, hemails.mpr (.inl rfl)⟩

/-- The first page of two is asked for again and again. -/
theorem twoPages_neverEnd : Serves (serving twoPages) (userTeamsURL {}) twoPages ∧
    ¬ TeamsComplete {} (serving twoPages) twoPages ∧
    NeverEnds (userTeamsTurn (serving twoPages)) (userTeamsURL {}) [] := by
  have hserves : Serves (serving twoPages) (userTeamsURL {}) twoPages :=
    ⟨.more rfl (.last rfl), by decide⟩
  have hget : get (serving twoPages) (userTeamsURL {}) = .ok ⟨[⟨"a"⟩, ⟨"b"⟩], some _⟩ := rfl
  have hnever := userTeams_neverEnds hget []
  exact ⟨hserves, hnever.not_ends, hnever⟩

end KubeYamls.Connectors.Bitbucket
