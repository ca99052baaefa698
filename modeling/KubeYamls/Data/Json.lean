import Mathlib.Data.List.Basic

/-! JSON values without numbers: the text Go's `encoding/json` writes for one and the
value it reads from a text, and how it fills a struct from an object. -/
namespace KubeYamls.Data
open List List Option

inductive Json where
  | null
  | bool (b : Bool)
  | str (s : String)
  | arr (elems : List Json)
  | obj (members : List (String × Json))

namespace Json

/-! ## Strings -/

def hexDigits : List Char := "0123456789abcdef".toList

def hexDigit (n : Nat) : Char := hexDigits.getD n '0'

def hexValue (c : Char) : Option Nat :=
  if '0' ≤ c ∧ c ≤ '9' then some (c.toNat - '0'.toNat)
  else if 'a' ≤ c ∧ c ≤ 'f' then some (c.toNat - 'a'.toNat + 10)
  else if 'A' ≤ c ∧ c ≤ 'F' then some (c.toNat - 'A'.toNat + 10)
  else none

/-- `\u` and four digits. -/
def unicodeEscape (n : Nat) : List Char :=
  ['\\', 'u', hexDigit (n / 4096 % 16), hexDigit (n / 256 % 16), hexDigit (n / 16 % 16), hexDigit (n % 16)]

/-- Control characters, characters with a meaning in HTML and the two line separators
are escaped by number. -/
def byNumber (c : Char) : Bool :=
  c.toNat < 0x20 || c = '<' || c = '>' || c = '&' || c.toNat = 0x2028 || c.toNat = 0x2029

def escape (c : Char) : List Char :=
  if c = '"' ∨ c = '\\' then ['\\', c]
  else if c = '\n' then ['\\', 'n']
  else if c = '\r' then ['\\', 'r']
  else if c = '\t' then ['\\', 't']
  else if byNumber c then unicodeEscape c.toNat
  else [c]

def printString (s : String) : List Char := '"' :: (s.toList.flatMap escape ++ ['"'])

def hex4 : List Char → Option (Nat × List Char)
  | a :: b :: c :: d :: rest => do
    let a ← hexValue a
    let b ← hexValue b
    let c ← hexValue c
    let d ← hexValue d
    return (a * 4096 + b * 256 + c * 16 + d, rest)
  | _ => none

def isSurrogate (n : Nat) : Bool := 0xD800 ≤ n && n < 0xE000

/-- The second half of a surrogate pair, if it follows. -/
def secondHalf (n : Nat) : List Char → Option (Char × List Char)
  | '\\' :: 'u' :: rest =>
    match hex4 rest with
    | some (m, rest) =>
      if n < 0xDC00 ∧ 0xDC00 ≤ m ∧ m < 0xE000 then
        some (Char.ofNat ((n - 0xD800) * 1024 + (m - 0xDC00) + 0x10000), rest)
      else none
    | none => none
  | _ => none

/-- The escaped character after a backslash. Half a surrogate pair becomes the
replacement character. -/
def unescape : List Char → Option (Char × List Char)
  | [] => none
  | c :: rest =>
    if c = 'u' then
      match hex4 rest with
      | none => none
      | some (n, rest) =>
        if isSurrogate n then some ((secondHalf n rest).getD ('�', rest)) else some (Char.ofNat n, rest)
    else if c = '"' ∨ c = '\\' ∨ c = '/' then some (c, rest)
    else if c = 'b' then some ('\x08', rest)
    else if c = 'f' then some ('\x0c', rest)
    else if c = 'n' then some ('\n', rest)
    else if c = 'r' then some ('\r', rest)
    else if c = 't' then some ('\t', rest)
    else none

/-- The characters up to the closing quote. -/
def parseChars : Nat → List Char → Option (List Char × List Char)
  | 0, _ => none
  | _ + 1, [] => none
  | fuel + 1, c :: rest =>
    if c = '"' then some ([], rest)
    else if c = '\\' then
      (unescape rest).bind fun p => (parseChars fuel p.2).map fun q => (p.1 :: q.1, q.2)
    else if c.toNat < 0x20 then none
    else (parseChars fuel rest).map fun q => (c :: q.1, q.2)

def parseString (s : List Char) : Option (String × List Char) :=
  (parseChars (s.length + 1) s).map fun p => (String.ofList p.1, p.2)

theorem hexValue_hexDigit : ∀ n < 16, hexValue (hexDigit n) = some n := by decide +kernel

theorem hex4_digits (n : Nat) (h : n < 65536) (rest : List Char) :
    hex4 ((unicodeEscape n).drop 2 ++ rest) = some (n, rest) := by
  have hdigit : ∀ m, hexValue (hexDigit (m % 16)) = some (m % 16) := fun m =>
    hexValue_hexDigit _ (Nat.mod_lt _ (by decide))
  simp only [unicodeEscape, drop_succ_cons, drop_zero, cons_append, nil_append, hex4, hdigit]
  simp only [Option.bind_eq_bind, Option.bind_some, Option.pure_def, Option.some.injEq, Prod.mk.injEq, and_true]
  omega

/-- What is escaped by number is one code unit and no surrogate. -/
theorem byNumber_lt {c} (h : byNumber c = true) : c.toNat < 0x202A := by
  simp only [byNumber, Bool.or_eq_true, decide_eq_true_eq] at h
  rcases h with ((((h | rfl) | rfl) | rfl) | h) | h
  · omega
  · decide
  · decide
  · decide
  · omega
  · omega

theorem unescape_unicode {c} (h : byNumber c = true) (rest : List Char) :
    unescape ((unicodeEscape c.toNat).drop 1 ++ rest) = some (c, rest) := by
  have hlt := byNumber_lt h
  have hhex := hex4_digits c.toNat (by omega) rest
  have hsurrogate : isSurrogate c.toNat = false := by
    simp only [isSurrogate, Bool.and_eq_false_iff, decide_eq_false_iff_not]
    omega
  have hunescape : unescape ((unicodeEscape c.toNat).drop 1 ++ rest) =
      match hex4 ((unicodeEscape c.toNat).drop 2 ++ rest) with
      | none => none
      | some (n, rest) =>
        if isSurrogate n then some ((secondHalf n rest).getD ('�', rest)) else some (Char.ofNat n, rest) := rfl
  rw [hunescape, hhex]
  simp only [hsurrogate, Bool.false_eq_true, if_false, Char.ofNat_toNat]

/-- A character is escaped so that it is found again, or needs no escape. -/
theorem escape_cases (c : Char) :
    (∃ text, escape c = '\\' :: text ∧ ∀ rest, unescape (text ++ rest) = some (c, rest)) ∨
      escape c = [c] ∧ c ≠ '"' ∧ c ≠ '\\' ∧ 0x20 ≤ c.toNat := by
  unfold escape
  split_ifs with hquote hn hr ht hnumber
  · rcases hquote with rfl | rfl
    · exact .inl ⟨_, rfl, fun _ => rfl⟩
    · exact .inl ⟨_, rfl, fun _ => rfl⟩
  · exact .inl ⟨_, rfl, fun _ => hn ▸ rfl⟩
  · exact .inl ⟨_, rfl, fun _ => hr ▸ rfl⟩
  · exact .inl ⟨_, rfl, fun _ => ht ▸ rfl⟩
  · exact .inl ⟨_, rfl, unescape_unicode hnumber⟩
  · obtain ⟨hquote, hbackslash⟩ := not_or.mp hquote
    refine .inr ⟨rfl, hquote, hbackslash, ?_⟩
    simp only [byNumber, Bool.or_eq_true, decide_eq_true_eq, not_or] at hnumber
    omega

theorem parseChars_escape (c : Char) (fuel : Nat) (rest : List Char) :
    parseChars (fuel + 1) (escape c ++ rest) = (parseChars fuel rest).map fun q => (c :: q.1, q.2) := by
  rcases escape_cases c with ⟨text, htext, hunescape⟩ | ⟨htext, hquote, hbackslash, hcontrol⟩
  · rw [htext, cons_append, parseChars, if_neg (by decide), if_pos rfl, hunescape]
    rfl
  · rw [htext, singleton_append, parseChars, if_neg hquote, if_neg hbackslash, if_neg (by omega)]

theorem parseChars_print (cs : List Char) {fuel} (h : cs.length < fuel) (rest : List Char) :
    parseChars fuel (cs.flatMap escape ++ '"' :: rest) = some (cs, rest) := by
  induction cs generalizing fuel with
  | nil =>
    obtain ⟨n, rfl⟩ := Nat.exists_eq_add_of_lt h
    rfl
  | cons c cs ih =>
    obtain ⟨n, rfl⟩ := Nat.exists_eq_add_of_lt h
    rw [flatMap_cons, append_assoc, parseChars_escape, ih (by simp only [length_cons]; omega)]
    rfl

theorem length_escape (c : Char) : 1 ≤ (escape c).length := by
  rcases escape_cases c with ⟨text, htext, -⟩ | ⟨htext, -⟩ <;> simp [htext]

theorem length_le_flatMap_escape (cs : List Char) : cs.length ≤ (cs.flatMap escape).length := by
  induction cs with
  | nil => simp
  | cons c cs ih =>
    have hc := length_escape c
    simp only [flatMap_cons, length_append, length_cons]
    omega

theorem parseString_print (s : String) (rest : List Char) :
    parseString (s.toList.flatMap escape ++ '"' :: rest) = some (s, rest) := by
  have hlen := length_le_flatMap_escape s.toList
  have hfuel : s.toList.length < (s.toList.flatMap escape ++ '"' :: rest).length + 1 := by
    rw [length_append]
    omega
  rw [parseString, parseChars_print _ hfuel]
  simp

/-! ## Values -/

def isSpace (c : Char) : Bool := c = ' ' || c = '\t' || c = '\n' || c = '\r'

def skip (s : List Char) : List Char := s.dropWhile isSpace

theorem skip_cons {c} (h : isSpace c = false) (s : List Char) : skip (c :: s) = c :: s := by
  simp [skip, h]

mutual

def print : Json → List Char
  | .null => ['n', 'u', 'l', 'l']
  | .bool true => ['t', 'r', 'u', 'e']
  | .bool false => ['f', 'a', 'l', 's', 'e']
  | .str s => printString s
  | .arr [] => ['[', ']']
  | .arr (v :: elems) => '[' :: (v.print ++ printElems elems)
  | .obj [] => ['{', '}']
  | .obj ((key, v) :: members) => '{' :: (printString key ++ ':' :: (v.print ++ printMembers members))

def printElems : List Json → List Char
  | [] => [']']
  | v :: elems => ',' :: (v.print ++ printElems elems)

def printMembers : List (String × Json) → List Char
  | [] => ['}']
  | (key, v) :: members => ',' :: (printString key ++ ':' :: (v.print ++ printMembers members))

end

def expect (text s : List Char) : Option (List Char) :=
  if text.isPrefixOf s then some (s.drop text.length) else none

mutual

def parseValue : Nat → List Char → Option (Json × List Char)
  | 0, _ => none
  | fuel + 1, s =>
    match skip s with
    | [] => none
    | c :: rest =>
      if c = 'n' then (expect ['u', 'l', 'l'] rest).map fun r => (.null, r)
      else if c = 't' then (expect ['r', 'u', 'e'] rest).map fun r => (.bool true, r)
      else if c = 'f' then (expect ['a', 'l', 's', 'e'] rest).map fun r => (.bool false, r)
      else if c = '"' then (parseString rest).map fun p => (.str p.1, p.2)
      else if c = '[' then
        if (skip rest).head? = some ']' then some (.arr [], (skip rest).drop 1)
        else (parseElems fuel rest).map fun p => (.arr p.1, p.2)
      else if c = '{' then
        if (skip rest).head? = some '}' then some (.obj [], (skip rest).drop 1)
        else (parseMembers fuel rest).map fun p => (.obj p.1, p.2)
      else none

/-- An element, and the others up to the closing bracket. -/
def parseElems : Nat → List Char → Option (List Json × List Char)
  | 0, _ => none
  | fuel + 1, s =>
    (parseValue fuel s).bind fun p =>
      match skip p.2 with
      | [] => none
      | c :: rest =>
        if c = ',' then (parseElems fuel rest).map fun q => (p.1 :: q.1, q.2)
        else if c = ']' then some ([p.1], rest)
        else none

def parseMembers : Nat → List Char → Option (List (String × Json) × List Char)
  | 0, _ => none
  | fuel + 1, s =>
    (expect ['"'] (skip s)).bind fun s => (parseString s).bind fun key =>
      (expect [':'] (skip key.2)).bind fun s => (parseValue fuel s).bind fun p =>
        match skip p.2 with
        | [] => none
        | c :: rest =>
          if c = ',' then (parseMembers fuel rest).map fun q => ((key.1, p.1) :: q.1, q.2)
          else if c = '}' then some ([(key.1, p.1)], rest)
          else none

end

def parse (s : List Char) : Option Json :=
  (parseValue (s.length + 1) s).bind fun p => if skip p.2 = [] then some p.1 else none

/-! ## Reading what was written -/

mutual

/-- How far the parser has to go down for a value. -/
def cost : Json → Nat
  | .arr elems => 1 + costElems elems
  | .obj members => 1 + costMembers members
  | _ => 1

def costElems : List Json → Nat
  | [] => 0
  | v :: elems => 1 + v.cost + costElems elems

def costMembers : List (String × Json) → Nat
  | [] => 0
  | (_, v) :: members => 1 + v.cost + costMembers members

end

theorem expect_append (text rest : List Char) : expect text (text ++ rest) = some rest := by
  simp [expect]

theorem expect_cons (c : Char) (rest : List Char) : expect [c] (c :: rest) = some rest := expect_append [c] rest

theorem print_head (v : Json) : ∃ c s, v.print = c :: s ∧ isSpace c = false ∧ c ≠ ']' := by
  cases v with
  | null => exact ⟨_, _, rfl, by decide, by decide⟩
  | bool b => cases b <;> exact ⟨_, _, rfl, by decide, by decide⟩
  | str s => exact ⟨_, _, rfl, by decide, by decide⟩
  | arr elems => cases elems <;> exact ⟨_, _, rfl, by decide, by decide⟩
  | obj members => cases members <;> exact ⟨_, _, rfl, by decide, by decide⟩

theorem parseElems_step {fuel : Nat} {s s' rest : List Char} {v : Json} {elems : List Json}
    (hv : parseValue fuel s = some (v, s'))
    (h : (elems = [] ∧ s' = ']' :: rest) ∨ ∃ t, s' = ',' :: t ∧ parseElems fuel t = some (elems, rest)) :
    parseElems (fuel + 1) s = some (v :: elems, rest) := by
  rw [parseElems, hv, bind_some]
  rcases h with ⟨rfl, rfl⟩ | ⟨t, rfl, ht⟩
  · rw [skip_cons (by decide)]
    rfl
  · rw [skip_cons (by decide)]
    dsimp only
    rw [if_pos rfl, ht]
    rfl

theorem parseMembers_step {fuel : Nat} {s s' rest : List Char} (key : String) {v : Json}
    {members : List (String × Json)} (hv : parseValue fuel s = some (v, s'))
    (h : (members = [] ∧ s' = '}' :: rest) ∨ ∃ t, s' = ',' :: t ∧ parseMembers fuel t = some (members, rest)) :
    parseMembers (fuel + 1) (printString key ++ ':' :: s) = some ((key, v) :: members, rest) := by
  have hkey : printString key ++ ':' :: s = '"' :: (key.toList.flatMap escape ++ '"' :: ':' :: s) := by
    simp [printString]
  rw [parseMembers, hkey, skip_cons (by decide), expect_cons, bind_some, parseString_print, bind_some,
    skip_cons (by decide), expect_cons, bind_some, hv, bind_some]
  rcases h with ⟨rfl, rfl⟩ | ⟨t, rfl, ht⟩
  · rw [skip_cons (by decide)]
    rfl
  · rw [skip_cons (by decide)]
    dsimp only
    rw [if_pos rfl, ht]
    rfl

theorem parseValue_arr {fuel : Nat} {c : Char} {s rest : List Char} {elems : List Json} (hc : isSpace c = false)
    (hne : c ≠ ']') (h : parseElems fuel (c :: s) = some (elems, rest)) :
    parseValue (fuel + 1) ('[' :: c :: s) = some (.arr elems, rest) := by
  rw [parseValue, skip_cons (by decide)]
  show (if (skip (c :: s)).head? = some ']' then _ else _) = _
  rw [skip_cons hc, head?_cons, if_neg (by simpa using hne), h]
  rfl

theorem parseValue_obj {fuel s rest members} (h : parseMembers fuel ('"' :: s) = some (members, rest)) :
    parseValue (fuel + 1) ('{' :: '"' :: s) = some (.obj members, rest) := by
  have hmembers : parseValue (fuel + 1) ('{' :: '"' :: s) =
      (parseMembers fuel ('"' :: s)).map fun p => (.obj p.1, p.2) := rfl
  rw [hmembers, h]
  rfl

/-! The induction is on the fuel, which every call of the parser uses up by one. -/

def ParsesValues (n : Nat) : Prop := ∀ v rest, v.cost ≤ n → parseValue n (v.print ++ rest) = some (v, rest)

def ParsesElems (n : Nat) : Prop := ∀ v elems rest, costElems (v :: elems) ≤ n →
  parseElems n (v.print ++ printElems elems ++ rest) = some (v :: elems, rest)

def ParsesMembers (n : Nat) : Prop := ∀ key v members rest, costMembers ((key, v) :: members) ≤ n →
  parseMembers n (printString key ++ ':' :: (v.print ++ printMembers members ++ rest)) =
    some ((key, v) :: members, rest)

theorem parsesValues_succ {n} (hElems : ParsesElems n) (hMembers : ParsesMembers n) : ParsesValues (n + 1) := by
  intro v rest h
  cases v with
  | null => rfl
  | bool b => cases b <;> rfl
  | str s =>
    have hprint : (Json.str s).print ++ rest = '"' :: (s.toList.flatMap escape ++ '"' :: rest) := by
      simp [print, printString]
    rw [hprint, parseValue, skip_cons (by decide)]
    show (parseString _).map _ = _
    rw [parseString_print]
    rfl
  | arr elems =>
    cases elems with
    | nil => rfl
    | cons v elems =>
      simp only [cost] at h
      have helems := hElems v elems rest (by omega)
      obtain ⟨c, s, hs, hc, hne⟩ := print_head v
      rw [hs, append_assoc, cons_append] at helems
      rw [print, hs]
      simpa using parseValue_arr hc hne helems
  | obj members =>
    cases members with
    | nil => rfl
    | cons member members =>
      obtain ⟨key, v⟩ := member
      simp only [cost] at h
      have hmembers := hMembers key v members rest (by omega)
      rw [printString, cons_append] at hmembers
      rw [print, printString]
      simpa using parseValue_obj hmembers

theorem parsesElems_succ {n} (hValues : ParsesValues n) (hElems : ParsesElems n) : ParsesElems (n + 1) := by
  intro v elems rest h
  simp only [costElems] at h
  rw [append_assoc]
  refine parseElems_step (hValues v _ (by omega)) ?_
  cases elems with
  | nil => exact .inl ⟨rfl, rfl⟩
  | cons v' elems =>
    refine .inr ⟨v'.print ++ printElems elems ++ rest, by simp [printElems], hElems v' elems rest ?_⟩
    omega

theorem parsesMembers_succ {n} (hValues : ParsesValues n) (hMembers : ParsesMembers n) :
    ParsesMembers (n + 1) := by
  intro key v members rest h
  simp only [costMembers] at h
  rw [append_assoc]
  refine parseMembers_step key (hValues v _ (by omega)) ?_
  cases members with
  | nil => exact .inl ⟨rfl, rfl⟩
  | cons member members =>
    obtain ⟨key', v'⟩ := member
    refine .inr ⟨printString key' ++ ':' :: (v'.print ++ printMembers members ++ rest),
      by simp [printMembers], hMembers key' v' members rest ?_⟩
    omega

theorem parse_print_aux (n : Nat) : ParsesValues n ∧ ParsesElems n ∧ ParsesMembers n := by
  induction n with
  | zero =>
    refine ⟨?_, ?_, ?_⟩
    · intro v rest h
      cases v <;> simp [cost] at h
    · intro v elems rest h
      simp [costElems] at h
    · intro key v members rest h
      simp [costMembers] at h
  | succ n ih =>
    obtain ⟨hValues, hElems, hMembers⟩ := ih
    exact ⟨parsesValues_succ hElems hMembers, parsesElems_succ hValues hElems, parsesMembers_succ hValues hMembers⟩

mutual

theorem cost_le : ∀ v : Json, v.cost ≤ v.print.length
  | .null => by decide
  | .bool true => by decide
  | .bool false => by decide
  | .str s => by simp [cost, print, printString]
  | .arr [] => by decide
  | .arr (v :: elems) => by
    have hv := cost_le v
    have helems := costElems_le elems
    simp only [cost, costElems, print, length_cons, length_append]
    omega
  | .obj [] => by decide
  | .obj ((key, v) :: members) => by
    have hv := cost_le v
    have hmembers := costMembers_le members
    simp only [cost, costMembers, print, length_cons, length_append]
    omega

theorem costElems_le : ∀ elems : List Json, costElems elems + 1 ≤ (printElems elems).length
  | [] => by decide
  | v :: elems => by
    have hv := cost_le v
    have helems := costElems_le elems
    simp only [costElems, printElems, length_cons, length_append]
    omega

theorem costMembers_le : ∀ members : List (String × Json), costMembers members + 1 ≤ (printMembers members).length
  | [] => by decide
  | (key, v) :: members => by
    have hv := cost_le v
    have hmembers := costMembers_le members
    simp only [costMembers, printMembers, length_cons, length_append]
    omega

end

theorem parse_print (v : Json) : parse v.print = some v := by
  have hcost := cost_le v
  have hvalue := (parse_print_aux (v.print.length + 1)).1 v [] (by omega)
  rw [append_nil] at hvalue
  rw [parse, hvalue, bind_some, skip]
  rfl

/-! ## Structs

The fields of a struct are found by their names, exactly or up to case. A member without
a field is skipped, and `null` leaves a field that is no slice as it is. -/

/-- Letters up to case, with the two letters outside ASCII that fold into it. -/
def fold (c : Char) : Char := if c.toNat = 0x17F then 's' else if c.toNat = 0x212A then 'k' else c.toLower

def foldEq (a b : String) : Bool := a.toList.map fold = b.toList.map fold

section
variable {F α : Type}

def findField (fields : List (String × F)) (key : String) : Option F :=
  ((fields.find? fun p => p.1 = key).or (fields.find? fun p => foldEq p.1 key)).map Prod.snd

def fill (fields : List (String × F)) (set : F → Json → α → Option α) : List (String × Json) → α → Option α
  | [], a => some a
  | (key, v) :: members, a =>
    match findField fields key with
    | none => fill fields set members a
    | some f => (set f v a).bind (fill fields set members)

def setString (v : Json) (a : α) (update : String → α) : Option α :=
  match v with
  | .str s => some (update s)
  | .null => some a
  | _ => none

def setBool (v : Json) (a : α) (update : Bool → α) : Option α :=
  match v with
  | .bool b => some (update b)
  | .null => some a
  | _ => none

def element : Json → Option String
  | .str s => some s
  | .null => some ""
  | _ => none

def setStrings (v : Json) (update : List String → α) : Option α :=
  match v with
  | .arr elems => (elems.mapM element).map update
  | .null => some (update [])
  | _ => none

def setStruct {β : Type} (v : Json) (a : α) (b : β) (decode : List (String × Json) → β → Option β)
    (update : β → α) : Option α :=
  match v with
  | .obj members => (decode members b).map update
  | .null => some a
  | _ => none

/-- The members that are written for a struct: its tags, with the fields left out that
are empty. -/
def members (tags : List (String × F)) (get : F → Option Json) : List (String × Json) :=
  tags.filterMap fun p => (get p.2).map fun v => (p.1, v)

def omitEmpty {β : Type} [DecidableEq β] (empty b : β) (v : Json) : Option Json := if b = empty then none else some v

theorem fill_members {fields tags set}
    (h : ∀ p ∈ tags, findField fields p.1 = some p.2) (get : F → Option Json) (a : α) :
    fill fields set (members tags get) a =
      tags.foldlM (fun a p => (get p.2).elim (some a) fun v => set p.2 v a) a := by
  induction tags generalizing a with
  | nil => rfl
  | cons p tags ih =>
    obtain ⟨hp, htags⟩ := forall_mem_cons.mp h
    rw [foldlM_cons, members, filterMap_cons]
    cases hget : get p.2 with
    | none => exact ih htags a
    | some v =>
      simp only [map_some, fill, hp, elim_some]
      exact congrArg _ (funext fun a => ih htags a)

theorem foldlM_some {β : Type} {f} {a b : α} {p} (h : f a p = some b) (l : List β) :
    (p :: l).foldlM f a = l.foldlM f b := by
  rw [foldlM_cons, h]
  rfl

theorem element_str (l : List String) : (l.map Json.str).mapM element = some l := by
  induction l with
  | nil => rfl
  | cons s l ih => simp [mapM_cons, element, ih]

theorem setStrings_arr (l : List String) (update : List String → α) :
    setStrings (.arr (l.map Json.str)) update = some (update l) := by
  rw [setStrings, element_str]
  rfl

theorem elim_omitEmpty {β : Type} [DecidableEq β] (empty b : β) (v : Json) (set : Json → Option α)
    (update : β → α) (hset : set v = some (update b)) :
    (omitEmpty empty b v).elim (some (update empty)) set = some (update b) := by
  rw [omitEmpty]
  split_ifs with hb
  · rw [hb]
    rfl
  · exact hset

end

end Json

end KubeYamls.Data
