import Mathlib.Data.List.Basic

/-! Link headers: entries `<url>; rel="name"` with commas between them, and what the
regular expression `<([^>]+)>; rel="name"` finds in one. -/
namespace KubeYamls.Data.LinkHeader
open List Option

/-- What follows the URL in an entry: `>; rel="name"` -/
def relPart (rel : List Char) : List Char := ['>', ';', ' ', 'r', 'e', 'l', '=', '"'] ++ rel ++ ['"']

/-- The group of a match that begins right before `cs`: all up to the next `>`, since
nothing in the group is one. -/
def matchAt (rel cs : List Char) : Option (List Char) :=
  let url := cs.takeWhile (· ≠ '>')
  if url ≠ [] ∧ (relPart rel).isPrefixOf (cs.dropWhile (· ≠ '>')) then some url else none

def find (rel : List Char) : List Char → Option (List Char)
  | [] => none
  | c :: cs =>
    if c = '<' then (matchAt rel cs).or (find rel cs) else find rel cs

structure Entry where
  url : List Char
  rel : List Char
  deriving DecidableEq

def Entry.render (e : Entry) : List Char := '<' :: (e.url ++ relPart e.rel)

/-- The URL has no angle brackets, and the name is one of a relation: a word or a URI,
without quotes and opening brackets. -/
structure Entry.Valid (e : Entry) : Prop where
  opening : '<' ∉ e.url
  closing : '>' ∉ e.url
  quote : '"' ∉ e.rel
  bracket : '<' ∉ e.rel

instance (e : Entry) : Decidable e.Valid :=
  decidable_of_iff ('<' ∉ e.url ∧ '>' ∉ e.url ∧ '"' ∉ e.rel ∧ '<' ∉ e.rel)
    ⟨fun ⟨h1, h2, h3, h4⟩ => ⟨h1, h2, h3, h4⟩, fun h => ⟨h.opening, h.closing, h.quote, h.bracket⟩⟩

/-- A comma, with blanks around it. -/
def Separator (sep : List Char) : Prop :=
  ∃ before after, sep = before ++ ',' :: after ∧ ∀ c ∈ before ++ after, c = ' ' ∨ c = '\t'

inductive Header : List Entry → List Char → Prop where
  | nil : Header [] []
  | one (e : Entry) : Header [e] e.render
  | cons {sep text : List Char} {e e' : Entry} {es : List Entry} (hs : Separator sep)
    (h : Header (e' :: es) text) : Header (e :: e' :: es) (e.render ++ (sep ++ text))

/-- The entries with a comma and a blank between them. -/
def render : List Entry → List Char
  | [] => []
  | [e] => e.render
  | e :: e' :: es => e.render ++ ([',', ' '] ++ render (e' :: es))

theorem header_render (es : List Entry) : Header es (render es) := by
  fun_induction render es with
  | case1 => exact .nil
  | case2 e => exact .one e
  | case3 e e' es ih => exact .cons ⟨[], [' '], rfl, by simp⟩ ih

theorem Separator.no_bracket {sep} (h : Separator sep) : '<' ∉ sep := by
  obtain ⟨before, after, rfl, hblank⟩ := h
  intro hmem
  have hmem' : '<' ∈ before ++ after := by simpa using hmem
  rcases hblank _ hmem' with h | h
  · exact absurd h (by decide)
  · exact absurd h (by decide)

/-- There is no match that begins in a text without an opening bracket. -/
theorem find_append {rel l} (h : '<' ∉ l) (text : List Char) : find rel (l ++ text) = find rel text := by
  induction l with
  | nil => rfl
  | cons c l ih =>
    obtain ⟨hc, hl⟩ := ne_and_not_mem_of_not_mem_cons h
    rw [cons_append, find, if_neg hc.symm, ih hl]

theorem quoted_prefix {a b text} (ha : '"' ∉ a) (hb : '"' ∉ b) : (a ++ ['"']) <+: (b ++ '"' :: text) ↔ b = a := by
  induction a generalizing b with
  | nil =>
    cases b with
    | nil => simp
    | cons d b =>
      have hd := (ne_and_not_mem_of_not_mem_cons hb).1
      simp [hd]
  | cons c a ih =>
    obtain ⟨hc, ha⟩ := ne_and_not_mem_of_not_mem_cons ha
    cases b with
    | nil => simp [hc.symm]
    | cons d b =>
      obtain ⟨-, hb⟩ := ne_and_not_mem_of_not_mem_cons hb
      simp only [cons_append, cons_prefix_cons, ih ha hb, List.cons.injEq]
      rw [eq_comm (a := c)]

section
variable {rel : List Char} {e : Entry} {es : List Entry} {text : List Char}

/-- Right after the opening bracket of an entry: the entry's URL, if the names agree. -/
theorem matchAt_entry (hv : e.Valid) (hrel : '"' ∉ rel) : matchAt rel (e.url ++ (relPart e.rel ++ text)) =
      if e.rel = rel ∧ e.url ≠ [] then some e.url else none := by
  have hurl : ∀ c ∈ e.url, decide (c ≠ '>') = true := fun c hc =>
    decide_eq_true fun heq => hv.closing (heq ▸ hc)
  have htake : (e.url ++ (relPart e.rel ++ text)).takeWhile (· ≠ '>') = e.url := by
    rw [List.takeWhile_append_of_pos hurl]
    simp [relPart]
  have hdrop : (e.url ++ (relPart e.rel ++ text)).dropWhile (· ≠ '>') = relPart e.rel ++ text := by
    rw [List.dropWhile_append_of_pos hurl]
    simp [relPart]
  have hpre : relPart rel <+: relPart e.rel ++ text ↔ e.rel = rel := by
    simp only [relPart, List.append_assoc, List.prefix_append_right_inj]
    exact quoted_prefix hrel hv.quote
  simp only [matchAt, htake, hdrop, List.isPrefixOf_iff_prefix, hpre]
  simp only [and_comm]

/-- The entry at the front is found if it has the name, and passed over if not. -/
theorem find_render (hv : e.Valid) (hrel : '"' ∉ rel) (text : List Char) : find rel (e.render ++ text) =
      if e.rel = rel ∧ e.url ≠ [] then some e.url else find rel text := by
  have hskip : '<' ∉ e.url ++ relPart e.rel := by
    simp [relPart, hv.opening, hv.bracket]
  rw [Entry.render, cons_append, append_assoc, find, if_pos rfl, matchAt_entry hv hrel]
  split_ifs
  · rfl
  · rw [none_or, ← append_assoc, find_append hskip]

section
variable (h : Header es text) (hv : ∀ e ∈ es, e.Valid) (hrel : '"' ∉ rel)
include h hv hrel

theorem find_header : find rel text = (es.find? fun e => e.rel = rel ∧ e.url ≠ []).map Entry.url := by
  induction h with
  | nil => rfl
  | one e =>
    have he := find_render (hv e (by simp)) hrel []
    rw [append_nil] at he
    rw [he, find?_cons]
    by_cases hfound : e.rel = rel ∧ e.url ≠ []
    · simp [hfound]
    · simp [hfound, find]
  | @cons sep text e e' es hs _ ih =>
    rw [find_render (hv e (by simp)) hrel _, find_append hs.no_bracket,
      ih fun e he => hv e (.tail _ he), find?_cons (a := e)]
    by_cases hfound : e.rel = rel ∧ e.url ≠ []
    · simp [hfound]
    · simp [hfound]

/-- If the entries with the name agree on the URL, it is found. -/
theorem find_eq_some {url}
    (hmem : ∃ e ∈ es, e.rel = rel) (hurl : ∀ e ∈ es, e.rel = rel → e.url = url) (hne : url ≠ []) :
    find rel text = some url := by
  rw [find_header h hv hrel]
  cases hfind : es.find? fun e => e.rel = rel ∧ e.url ≠ [] with
  | none =>
    obtain ⟨e, he, herel⟩ := hmem
    have hnot := find?_eq_none.mp hfind e he
    simp [herel, hurl e he herel, hne] at hnot
  | some e =>
    have hfound := find?_some hfind
    simp only [decide_eq_true_eq] at hfound
    rw [map_some, hurl e (mem_of_find?_eq_some hfind) hfound.1]

theorem find_eq_none (hmem : ∀ e ∈ es, e.rel ≠ rel) : find rel text = none := by
  rw [find_header h hv hrel, map_eq_none_iff, find?_eq_none]
  intro e he hfound
  simp only [decide_eq_true_eq] at hfound
  exact hmem e he hfound.1

end

end

end KubeYamls.Data.LinkHeader
