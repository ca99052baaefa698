import Mathlib.Data.List.TakeWhile

/-! Connection strings of keywords and values: `key=value` with white space between the
parameters. A value ends at white space or stands in single quotes, and a backslash
takes the character after it as it is. -/
namespace KubeYamls.Data.Conninfo
open List

/-- What counts as white space: the blank does, and no visible ASCII character. -/
structure Spaces where
  isSpace : Char → Bool
  blank : isSpace ' ' = true
  visible : ∀ c : Char, 33 ≤ c.toNat → c.toNat < 127 → isSpace c = false

/-! ## The grammar -/

/-- The characters up to one at which the value ends, and what is left. -/
def scan (stop : Char → Bool) : List Char → Option (List Char × List Char)
  | [] => some ([], [])
  | c :: s =>
    if c = '\\' then
      match s with
      | [] => none
      | d :: s => (scan stop s).map fun p => (d :: p.1, p.2)
    else if stop c then some ([], c :: s)
    else (scan stop s).map fun p => (c :: p.1, p.2)

section
variable {stop : Char → Bool} {c : Char}

theorem scan_stop (hc : c ≠ '\\') (h : stop c = true) (s : List Char) :
    scan stop (c :: s) = some ([], c :: s) := by
  cases s <;> simp [scan, hc, h]

theorem scan_copy (hc : c ≠ '\\') (h : stop c = false) (s : List Char) :
    scan stop (c :: s) = (scan stop s).map fun p => (c :: p.1, p.2) := by
  cases s <;> simp [scan, hc, h]

theorem scan_escaped (s : List Char) :
    scan stop ('\\' :: c :: s) = (scan stop s).map fun p => (c :: p.1, p.2) := rfl

end

section
variable (sp : Spaces)

def value (s : List Char) : Option (List Char × List Char) :=
  match s.dropWhile sp.isSpace with
  | [] => some ([], [])
  | c :: t =>
    if c = '\'' then
      match scan (· = '\'') t with
      | some (v, _ :: rest) => some (v, rest)
      | _ => none
    else scan sp.isSpace (c :: t)

def isKey (c : Char) : Bool := !sp.isSpace c && c ≠ '='

def parseFrom : Nat → List Char → Option (List (List Char × List Char))
  | 0, _ => none
  | fuel + 1, s =>
    let s := s.dropWhile sp.isSpace
    if s = [] then some []
    else
      match (s.dropWhile (isKey sp)).dropWhile sp.isSpace with
      | [] => none
      | c :: text =>
        if c = '=' then
          (value sp text).bind fun p =>
            (parseFrom fuel p.2).map fun l => (s.takeWhile (isKey sp), p.1) :: l
        else none

/-- The parameters of a connection string, in order. -/
def parse (s : List Char) : Option (List (List Char × List Char)) := parseFrom sp (s.length + 1) s

end

/-! ## Quoted values -/

def escape (c : Char) : List Char := if c = '\\' ∨ c = '\'' then ['\\', c] else [c]

def quote (v : List Char) : List Char := '\'' :: (v.flatMap escape ++ ['\''])

variable {sp : Spaces}

theorem Spaces.quote_solid : sp.isSpace '\'' = false := sp.visible _ (by decide) (by decide)

theorem scan_escape (v rest : List Char) :
    scan (· = '\'') (v.flatMap escape ++ '\'' :: rest) = some (v, '\'' :: rest) := by
  induction v with
  | nil => exact scan_stop (by decide) rfl rest
  | cons c v ih =>
    rw [flatMap_cons, append_assoc, escape]
    split_ifs with hc
    · rw [cons_append, singleton_append, scan_escaped, ih]
      rfl
    · obtain ⟨hbackslash, hquote⟩ := not_or.mp hc
      rw [singleton_append, scan_copy hbackslash (decide_eq_false hquote), ih]
      rfl

theorem value_quote (v rest : List Char) : value sp (quote v ++ rest) = some (v, rest) := by
  have hdrop : (quote v ++ rest).dropWhile sp.isSpace = '\'' :: (v.flatMap escape ++ '\'' :: rest) := by
    simp [quote, Spaces.quote_solid]
  rw [value, hdrop]
  simp only [if_true, scan_escape]

/-! ## Values without quotes -/

/-- A value that can stand without quotes. -/
structure Plain (sp : Spaces) (q : List Char) : Prop where
  chars : ∀ c ∈ q, sp.isSpace c = false ∧ c ≠ '\\'
  head : q.head? ≠ some '\''

/-- What follows a value: nothing, or a blank. -/
def Ended (rest : List Char) : Prop := rest = [] ∨ ∃ r, rest = ' ' :: r

variable {q rest k : List Char} {c : Char}

theorem scan_plain (h : ∀ c ∈ q, sp.isSpace c = false ∧ c ≠ '\\') (hrest : Ended rest) :
    scan sp.isSpace (q ++ rest) = some (q, rest) := by
  induction q with
  | nil =>
    rcases hrest with rfl | ⟨r, rfl⟩
    · rfl
    · exact scan_stop (by decide) sp.blank r
  | cons c q ih =>
    obtain ⟨⟨hspace, hbackslash⟩, hq⟩ := forall_mem_cons.mp h
    rw [cons_append, scan_copy hbackslash hspace, ih hq]
    rfl

theorem value_plain (h : Plain sp q) (hne : q ≠ []) (hrest : Ended rest) :
    value sp (q ++ rest) = some (q, rest) := by
  obtain ⟨c, t, rfl⟩ := exists_cons_of_ne_nil hne
  have hc : c ≠ '\'' := fun heq => h.head (by simp [heq])
  have hspace := (h.chars c (by simp)).1
  have hdrop : (c :: t ++ rest).dropWhile sp.isSpace = c :: t ++ rest := by
    simp [hspace]
  rw [value, hdrop]
  exact (if_neg hc).trans (scan_plain h.chars hrest)

/-- Characters with a meaning in a value. -/
def Special (sp : Spaces) (c : Char) : Prop := sp.isSpace c = true ∨ c = '\'' ∨ c = '\\'

section
variable {stop : Char → Bool} {d : Char} {r v rest : List Char}

/-- One character of a value, with what it takes to be part of it. -/
theorem scan_cons {s} (hc : c ≠ '\\') (h : scan stop (c :: s) = some (v, rest)) :
    (stop c = true ∧ v = []) ∨ stop c = false ∧ ∃ v', v = c :: v' ∧ scan stop s = some (v', rest) := by
  cases hstop : stop c with
  | true =>
    rw [scan_stop hc hstop] at h
    cases h
    exact .inl ⟨rfl, rfl⟩
  | false =>
    rw [scan_copy hc hstop] at h
    obtain ⟨p, hp, heq⟩ := Option.map_eq_some_iff.mp h
    cases heq
    exact .inr ⟨rfl, p.1, rfl, hp⟩

theorem scan_backslash {s} (h : scan stop ('\\' :: c :: s) = some (v, rest)) :
    ∃ v', v = c :: v' ∧ scan stop s = some (v', rest) := by
  rw [scan_escaped] at h
  obtain ⟨p, hp, heq⟩ := Option.map_eq_some_iff.mp h
  cases heq
  exact ⟨p.1, rfl, hp⟩

variable (hs : ∀ c, stop c = true → Special sp c) (hd : ¬ Special sp d)
include hs hd

theorem mem_of_scan (h : scan stop (d :: r) = some (v, rest)) : d ∈ v := by
  rcases scan_cons (fun heq => hd (.inr (.inr heq))) h with ⟨hstop, -⟩ | ⟨-, v', rfl, -⟩
  · exact absurd (hs d hstop) hd
  · exact .head _

/-- What is read of a text is never that text with special characters in front of it:
each of them would have to be escaped, and the escapes are missing at the end. -/
theorem scan_ne (b w : List Char) (hw : w ≠ []) (hspecial : ∀ c ∈ w, Special sp c)
    (h : scan stop (b ++ ' ' :: d :: r) = some (w ++ b, rest)) : False := by
  induction hlen : b.length using Nat.strongRecOn generalizing b w with
  | _ n ih =>
    subst hlen
    obtain ⟨x, w, rfl⟩ := exists_cons_of_ne_nil hw
    obtain ⟨hx, hspecial⟩ := forall_mem_cons.mp hspecial
    have hbackslash : Special sp '\\' := .inr (.inr rfl)
    have hsnoc : ∀ c, Special sp c → ∀ c' ∈ w ++ [c], Special sp c' := by
      intro c hc c' hc'
      rcases mem_append.mp hc' with hmem | hmem
      · exact hspecial c' hmem
      · exact mem_singleton.mp hmem ▸ hc
    rw [cons_append] at h
    cases b with
    | nil =>
      rcases scan_cons (by decide) h with ⟨-, hnil⟩ | ⟨-, v', hv, hrest⟩
      · cases hnil
      · obtain ⟨-, rfl⟩ := List.cons.inj hv
        rw [append_nil] at hrest
        exact hd (hspecial d (mem_of_scan hs hd hrest))
    | cons c b =>
      by_cases hc : c = '\\'
      · subst hc
        cases b with
        | nil =>
          -- the blank after the text is escaped, and what follows is not special
          obtain ⟨v', hv, hrest⟩ := scan_backslash h
          obtain ⟨-, rfl⟩ := List.cons.inj hv
          exact hd (hsnoc _ hbackslash d (mem_of_scan hs hd hrest))
        | cons y b =>
          obtain ⟨v', hv, hrest⟩ := scan_backslash h
          obtain ⟨rfl, rfl⟩ := List.cons.inj hv
          refine ih b.length (by simp only [length_cons]; omega) b (w ++ ['\\'] ++ [x]) (by simp) ?_ (by simpa using hrest) rfl
          intro c' hc'
          rcases mem_append.mp hc' with hmem | hmem
          · exact hsnoc _ hbackslash c' hmem
          · exact mem_singleton.mp hmem ▸ hx
      · rcases scan_cons hc h with ⟨-, hnil⟩ | ⟨-, v', hv, hrest⟩
        · cases hnil
        · obtain ⟨rfl, rfl⟩ := List.cons.inj hv
          exact ih b.length (by simp) b (w ++ [x]) (by simp) (hsnoc _ hx) (by simpa using hrest) rfl

/-- A text that is read as itself has nothing special in it but quotes. -/
theorem chars_of_scan (hspace : stop = sp.isSpace) (h : scan stop (q ++ ' ' :: d :: r) = some (q, rest)) :
    ∀ c ∈ q, sp.isSpace c = false ∧ c ≠ '\\' := by
  induction q with
  | nil => simp
  | cons c q ih =>
    by_cases hc : c = '\\'
    · subst hc
      exfalso
      cases q with
      | nil =>
        obtain ⟨v', hv, -⟩ := scan_backslash h
        exact absurd (List.cons.inj hv).1 (by decide)
      | cons y q =>
        obtain ⟨v', hv, hrest⟩ := scan_backslash h
        obtain ⟨rfl, rfl⟩ := List.cons.inj hv
        refine scan_ne hs hd q ['\\'] (by simp) ?_ hrest
        intro c hc
        exact .inr (.inr (mem_singleton.mp hc))
    · rcases scan_cons hc h with ⟨-, hnil⟩ | ⟨hstop, v', hv, hrest⟩
      · cases hnil
      · obtain ⟨-, rfl⟩ := List.cons.inj hv
        exact forall_mem_cons.mpr ⟨⟨hspace ▸ hstop, hc⟩, ih hrest⟩

end

/-- Only a plain value is read as itself when it stands without quotes and another
parameter follows. -/
theorem plain_of_value {r d} (hd : ¬ Special sp d)
    (h : value sp (q ++ ' ' :: d :: r) = some (q, rest)) : Plain sp q := by
  have hspaces : ∀ c, sp.isSpace c = true → Special sp c := fun c hc => .inl hc
  have hquotes : ∀ c, decide (c = '\'') = true → Special sp c := fun c hc => .inr (.inl (of_decide_eq_true hc))
  have hfront : ∀ c ∈ q.takeWhile sp.isSpace, Special sp c := fun c hc => .inl (mem_takeWhile_imp hc)
  have hsplit : q.takeWhile sp.isSpace ++ q.dropWhile sp.isSpace = q := takeWhile_append_dropWhile
  rw [value, ← hsplit, append_assoc, dropWhile_append_of_pos fun c hc => mem_takeWhile_imp hc] at h
  cases hq : q.dropWhile sp.isSpace with
  | nil =>
    -- nothing but white space: the value is what follows
    have hdrop : (([] : List Char) ++ ' ' :: d :: r).dropWhile sp.isSpace = d :: r := by
      have hsolid : sp.isSpace d = false := Bool.eq_false_iff.mpr fun hsp => hd (.inl hsp)
      simp [sp.blank, hsolid]
    rw [hq, hdrop] at h
    dsimp only at h
    rw [if_neg fun heq => hd (.inr (.inl heq)), append_nil] at h
    exact absurd (hfront d (mem_of_scan hspaces hd h)) hd
  | cons c t =>
    have hc : sp.isSpace c = false := by
      have hne : q.dropWhile sp.isSpace ≠ [] := by simp [hq]
      simpa [hq] using head_dropWhile_not sp.isSpace hne
    rw [hq, cons_append, dropWhile_cons_of_neg (by simp [hc])] at h
    dsimp only at h
    split_ifs at h with hquote
    · split at h
      · rename_i v x rest' hscan
        cases h
        subst hquote
        exfalso
        refine scan_ne hquotes hd t (q.takeWhile sp.isSpace ++ ['\'']) (by simp) ?_ (by simpa using hscan)
        intro c hc
        rcases mem_append.mp hc with hmem | hmem
        · exact hfront c hmem
        · exact .inr (.inl (mem_singleton.mp hmem))
      · cases h
    · by_cases hnil : q.takeWhile sp.isSpace = []
      · rw [hnil, nil_append] at h hsplit
        rw [hq] at hsplit
        rw [← hsplit]
        exact ⟨chars_of_scan hspaces hd rfl h, by simpa using hquote⟩
      · exact (scan_ne hspaces hd (c :: t) _ hnil hfront h).elim

/-! ## Parameters -/

def isLetter (c : Char) : Bool := ('a' ≤ c && c ≤ 'z') || c = '_'

/-- A keyword: small letters and underscores. -/
def Keyword (k : List Char) : Prop := (!k.isEmpty && k.all isLetter) = true

instance (k : List Char) : Decidable (Keyword k) := inferInstanceAs (Decidable (_ = true))

theorem Keyword.ne_nil (hk : Keyword k) : k ≠ [] := by
  simp only [Keyword, Bool.and_eq_true, Bool.not_eq_true', isEmpty_eq_false_iff] at hk
  exact hk.1

theorem Keyword.letter (hk : Keyword k) (hc : c ∈ k) : 97 ≤ c.toNat ∧ c.toNat ≤ 122 ∨ c = '_' := by
  simp only [Keyword, Bool.and_eq_true, all_eq_true] at hk
  have hletter := hk.2 c hc
  simp only [isLetter, Bool.or_eq_true, Bool.and_eq_true, decide_eq_true_eq] at hletter
  exact hletter

theorem Keyword.not_special (hk : Keyword k) (hc : c ∈ k) : ¬ Special sp c := by
  have hvisible : 33 ≤ c.toNat ∧ c.toNat < 127 := by
    rcases hk.letter hc with ⟨hlow, hhigh⟩ | rfl
    · omega
    · decide
  rintro (hspace | rfl | rfl)
  · rw [sp.visible c hvisible.1 hvisible.2] at hspace
    cases hspace
  · exact absurd (hk.letter hc) (by decide)
  · exact absurd (hk.letter hc) (by decide)

theorem Keyword.solid (hk : Keyword k) (hc : c ∈ k) : sp.isSpace c = false :=
  Bool.eq_false_iff.mpr fun hspace => hk.not_special hc (.inl hspace)

theorem Keyword.isKey (hk : Keyword k) (hc : c ∈ k) : isKey sp c = true := by
  have hequals : c ≠ '=' := by
    rintro rfl
    exact absurd (hk.letter hc) (by decide)
  simp [Conninfo.isKey, hk.solid hc, hequals]

theorem parseFrom_blank (n : Nat) (s : List Char) : parseFrom sp (n + 1) (' ' :: s) = parseFrom sp (n + 1) s := by
  simp only [parseFrom, dropWhile_cons, sp.blank, if_true]

theorem parseFrom_param (hk : Keyword k) (n : Nat) (text : List Char) : parseFrom sp (n + 1) (k ++ '=' :: text) =
      (value sp text).bind fun p => (parseFrom sp n p.2).map fun l => (k, p.1) :: l := by
  have hchars : ∀ c ∈ k, isKey sp c = true := fun c hc => hk.isKey hc
  obtain ⟨c, t, rfl⟩ := exists_cons_of_ne_nil hk.ne_nil
  have hc : sp.isSpace c = false := hk.solid (.head _)
  have hequals : isKey sp '=' = false := by simp [isKey]
  have hsolid : sp.isSpace '=' = false := sp.visible _ (by decide) (by decide)
  have hdrop : (c :: t ++ '=' :: text).dropWhile sp.isSpace = c :: t ++ '=' :: text := by
    simp [hc]
  have htake : (c :: t ++ '=' :: text).takeWhile (isKey sp) = c :: t := by
    rw [takeWhile_append_of_pos hchars]
    simp [hequals]
  have hrest : ((c :: t ++ '=' :: text).dropWhile (isKey sp)).dropWhile sp.isSpace = '=' :: text := by
    rw [dropWhile_append_of_pos hchars]
    simp [hequals, hsolid]
  simp only [parseFrom, hdrop, htake, hrest, if_true]
  rfl

/-- A parameter: its keyword, the value it stands for and how the value is written. -/
structure Param where
  key : List Char
  value : List Char
  text : List Char

def Param.render (p : Param) : List Char := p.key ++ '=' :: p.text

def Param.pair (p : Param) : List Char × List Char := (p.key, p.value)

/-- The value is in quotes, or does not need them. -/
structure Param.Good (sp : Spaces) (p : Param) : Prop where
  key : Keyword p.key
  text : p.text = quote p.value ∨ p.text = p.value ∧ Plain sp p.value ∧ p.value ≠ []

/-- Parameters behind others. -/
def trail (ps : List Param) : List Char := ps.flatMap fun p => ' ' :: p.render

def join : List Param → List Char
  | [] => []
  | p :: ps => p.render ++ trail ps

theorem intercalate_render (ps : List Param) : [' '].intercalate (ps.map Param.render) = join ps := by
  induction ps with
  | nil => rfl
  | cons p ps ih =>
    cases ps with
    | nil => simp [join, trail, intercalate_singleton]
    | cons p' ps =>
      rw [map_cons, map_cons, intercalate_cons_cons, ← map_cons, ih]
      simp [join, trail]

theorem ended_trail (ps : List Param) : Ended (trail ps) := by
  cases ps with
  | nil => exact .inl rfl
  | cons p ps => exact .inr ⟨_, flatMap_cons⟩

theorem parseFrom_trail (n : Nat) (ps : List Param) :
    parseFrom sp (n + 1) (trail ps) = parseFrom sp (n + 1) (join ps) := by
  cases ps with
  | nil => rfl
  | cons p ps => rw [trail, flatMap_cons, cons_append, parseFrom_blank, join, trail]

theorem length_le_trail (ps : List Param) : ps.length ≤ (trail ps).length := by
  induction ps with
  | nil => simp
  | cons p ps ih =>
    simp only [trail, flatMap_cons, length_append, length_cons] at ih ⊢
    omega

theorem length_le_join (ps : List Param) : ps.length ≤ (join ps).length := by
  cases ps with
  | nil => simp
  | cons p ps =>
    have htrail := length_le_trail ps
    simp only [join, Param.render, length_append, length_cons]
    omega

theorem Param.Good.value_text {p : Param} (h : p.Good sp) (hrest : Ended rest) :
    Conninfo.value sp (p.text ++ rest) = some (p.value, rest) := by
  rcases h.text with htext | ⟨htext, hplain, hne⟩
  · rw [htext, value_quote]
  · rw [htext, value_plain hplain hne hrest]

theorem parseFrom_join {p} (hk : Keyword p.key) (n : Nat) (ps : List Param) :
    parseFrom sp (n + 1) (join (p :: ps)) =
      (value sp (p.text ++ trail ps)).bind fun q => (parseFrom sp n q.2).map fun l => (p.key, q.1) :: l := by
  rw [join, Param.render, append_assoc, cons_append, parseFrom_param hk]

variable {ps : List Param}

theorem parseFrom_append (h : ∀ p ∈ ps, p.Good sp) (qs : List Param) (n : Nat) :
    parseFrom sp (ps.length + (n + 1)) (join (ps ++ qs)) =
      (parseFrom sp (n + 1) (join qs)).map fun l => ps.map Param.pair ++ l := by
  induction ps with
  | nil => simp
  | cons p ps ih =>
    obtain ⟨hp, hps⟩ := forall_mem_cons.mp h
    have hfuel : (p :: ps).length + (n + 1) = (ps.length + n + 1) + 1 := by
      simp only [length_cons]
      omega
    rw [cons_append, hfuel, parseFrom_join hp.key, hp.value_text (ended_trail _), Option.bind_some,
      parseFrom_trail, Nat.add_assoc, ih hps, Option.map_map]
    rfl

theorem parse_append (h : ∀ p ∈ ps, p.Good sp) (qs : List Param) : ∃ n, parse sp (join (ps ++ qs)) =
      (parseFrom sp (n + 1) (join qs)).map fun l => ps.map Param.pair ++ l := by
  have hlen := length_le_join (ps ++ qs)
  rw [length_append] at hlen
  obtain ⟨n, hn⟩ := Nat.exists_eq_add_of_le (show ps.length ≤ (join (ps ++ qs)).length by omega)
  refine ⟨n, ?_⟩
  rw [parse, hn, Nat.add_assoc, parseFrom_append h]

theorem parse_join (h : ∀ p ∈ ps, p.Good sp) : parse sp (join ps) = some (ps.map Param.pair) := by
  obtain ⟨n, hn⟩ := parse_append h []
  rw [append_nil] at hn
  rw [hn]
  simp [join, parseFrom]

/-- A value that is written as it is, with another parameter after it, and is read as it
is, needs no quotes. -/
theorem plain_of_parse {qs p q l}
    (hps : ∀ p ∈ ps, p.Good sp) (hp : Keyword p.key) (htext : p.text = p.value) (hq : Keyword q.key)
    (h : parse sp (join (ps ++ p :: q :: qs)) = some l) (hvalue : ∀ v, (p.key, v) ∈ l → v = p.value) :
    Plain sp p.value := by
  obtain ⟨n, hn⟩ := parse_append hps (p :: q :: qs)
  rw [hn] at h
  obtain ⟨l', hl', rfl⟩ := Option.map_eq_some_iff.mp h
  rw [parseFrom_join hp, htext] at hl'
  obtain ⟨⟨v, rest⟩, hv, hmap⟩ := Option.bind_eq_some_iff.mp hl'
  obtain ⟨l'', -, rfl⟩ := Option.map_eq_some_iff.mp hmap
  obtain rfl : v = p.value := hvalue v (mem_append_right _ (.head _))
  -- after the blank stands a letter of the next keyword
  obtain ⟨d, t, hd⟩ := exists_cons_of_ne_nil hq.ne_nil
  have hspecial : ¬ Special sp d := hq.not_special (by simp [hd])
  have htrail : trail (q :: qs) = ' ' :: d :: (t ++ '=' :: (q.text ++ trail qs)) := by
    simp [trail, Param.render, hd]
  rw [htrail] at hv
  exact plain_of_value hspecial hv

end KubeYamls.Data.Conninfo
