import Mathlib.Data.List.Basic

/-! # Text functions of Go's standard library

What the server uses of `strings`, `fmt`, `net/url` and `net`, as of Go 1.11 (the
release in `dex/Dockerfile`). Strings are text: a percent escape that would
leave bytes that are not UTF-8 is treated as malformed. -/
namespace KubeYamls.Dex

def bytes (s : String) : List UInt8 := s.toUTF8.data.toList

def text (b : List UInt8) : Option String := String.fromUTF8? ⟨b.toArray⟩

theorem text_bytes (s : String) : text (bytes s) = some s := by
  have h : (⟨(bytes s).toArray⟩ : ByteArray) = s.toByteArray := rfl
  rw [text, h, String.fromUTF8?, dif_pos s.isValidUTF8]
  rfl

theorem bytes_eq (s : String) : bytes s = s.toList.flatMap String.utf8EncodeChar := by
  have h : s.toByteArray = s.toList.utf8Encode := String.utf8Encode_toList.symm
  simp [bytes, h, List.utf8Encode]

/-- `unicode.IsSpace` -/
def isSpace (c : Char) : Bool :=
  c.toNat ∈ [0x09, 0x0A, 0x0B, 0x0C, 0x0D, 0x20, 0x85, 0xA0, 0x1680, 0x2028, 0x2029, 0x202F,
    0x205F, 0x3000] || (0x2000 ≤ c.toNat && c.toNat ≤ 0x200A)

/-- `strings.Fields`: the maximal runs of characters that are not white space.
`acc` is the run being read, reversed. -/
def fieldsFrom (acc : List Char) : List Char → List String
  | [] => if acc.isEmpty then [] else [String.ofList acc.reverse]
  | c :: cs =>
    if isSpace c then
      if acc.isEmpty then fieldsFrom [] cs else String.ofList acc.reverse :: fieldsFrom [] cs
    else fieldsFrom (c :: acc) cs

def fields (s : String) : List String := fieldsFrom [] s.toList

/-- `strings.HasPrefix` with the rest of the string. -/
def cutPrefix (pre s : String) : Option String :=
  if pre.toList.isPrefixOf s.toList then some (String.ofList (s.toList.drop pre.length)) else none

/-- The lower case mapping of the Unicode tables, `unicode.ToLower`. Of the table
only this is used: ASCII is mapped as everywhere, and lower case text stays. -/
structure CaseTable where
  toLower : Char → Char
  ascii : ∀ c, c.toNat < 128 → toLower c = c.toLower
  idem : ∀ c, toLower (toLower c) = toLower c

/-- `strings.ToLower` -/
def CaseTable.lower (u : CaseTable) (s : String) : String := String.ofList (s.toList.map u.toLower)

theorem CaseTable.lower_lower (u : CaseTable) (s : String) : u.lower (u.lower s) = u.lower s := by
  simp [lower, Function.comp_def, u.idem]

private theorem char_toLower_toLower (c : Char) : c.toLower.toLower = c.toLower := by
  unfold Char.toLower
  split
  · rename_i h
    have hge : 65 ≤ c.val.toNat := UInt32.le_iff_toNat_le.mp h.1
    have hle : c.val.toNat ≤ 90 := UInt32.le_iff_toNat_le.mp h.2
    have hsum : (c.val + ('a'.val - 'A'.val)).toNat = c.val.toNat + 32 := by
      rw [UInt32.toNat_add]
      show (c.val.toNat + 32) % 2 ^ 32 = _
      omega
    refine dif_neg fun h' => ?_
    have hle' : (c.val + ('a'.val - 'A'.val)).toNat ≤ 90 := UInt32.le_iff_toNat_le.mp h'.2
    omega
  · rfl

def asciiCase : CaseTable where
  toLower := Char.toLower
  ascii := fun _ _ => rfl
  idem := char_toLower_toLower

/-- `fmt`'s `%q` on a string. -/
def quote (s : String) : String :=
  let hex := fun n : Nat => "0123456789abcdef".toList.getD n '0'
  let esc := fun c : Char =>
    if c = '"' then ['\\', '"'] else if c = '\\' then ['\\', '\\']
    else if c = '\n' then ['\\', 'n'] else if c = '\t' then ['\\', 't']
    else if c = '\r' then ['\\', 'r'] else if c.toNat = 7 then ['\\', 'a']
    else if c.toNat = 8 then ['\\', 'b'] else if c.toNat = 12 then ['\\', 'f']
    else if c.toNat = 11 then ['\\', 'v']
    else if c.toNat < 32 ∨ c.toNat = 127 then ['\\', 'x', hex (c.toNat / 16), hex (c.toNat % 16)]
    else [c]
  String.ofList ('"' :: s.toList.flatMap esc ++ ['"'])

/-- `fmt`'s `%q` on a slice of strings. -/
def quoteAll (ss : List String) : String :=
  "[" ++ " ".intercalate (ss.map quote) ++ "]"

/-- `unhex`, for bytes that are hexadecimal digits. -/
def unhex (b : UInt8) : Option UInt8 :=
  if 48 ≤ b ∧ b ≤ 57 then some (b - 48)
  else if 97 ≤ b ∧ b ≤ 102 then some (b - 97 + 10)
  else if 65 ≤ b ∧ b ≤ 70 then some (b - 65 + 10)
  else none

/-- `unescape` in mode `encodeQueryComponent`. -/
def unescapeQuery : List UInt8 → Option (List UInt8)
  | [] => some []
  | 37 :: a :: b :: rest => do
    let hi ← unhex a
    let lo ← unhex b
    return (hi * 16 + lo) :: (← unescapeQuery rest)
  | 37 :: _ => none
  | 43 :: rest => return 32 :: (← unescapeQuery rest)
  | b :: rest => return b :: (← unescapeQuery rest)

/-- `url.QueryUnescape` -/
def queryUnescape (s : String) : Option String := do
  String.fromUTF8? ⟨(← unescapeQuery s.toUTF8.data.toList).toArray⟩

/-! ## url.Parse, as far as scheme, host and failure go -/

structure URL where
  scheme : String
  host : String
  deriving DecidableEq

/-- `split(s, c, true)`: what is before and after the first `c`. -/
def cut (c : Char) (s : List Char) : List Char × List Char :=
  (s.takeWhile (· ≠ c), (s.dropWhile (· ≠ c)).drop 1)

def isHex (c : Char) : Bool := c.isDigit || ('a' ≤ c && c ≤ 'f') || ('A' ≤ c && c ≤ 'F')

/-- Every `%` is followed by two hexadecimal digits: what `unescape` asks of a
path, a fragment and user information. -/
def validEscapes : List Char → Bool
  | [] => true
  | '%' :: a :: b :: rest => isHex a && isHex b && validEscapes rest
  | '%' :: _ => false
  | _ :: rest => validEscapes rest

/-- The ASCII characters that `shouldEscape` leaves alone in a host. -/
def hostChar (c : Char) : Bool :=
  c.isAlphanum || c ∈ "-_.~!$&'()*+,;=:[]<>\"".toList || c.toNat ≥ 128

def hexVal (c : Char) : Nat :=
  if c.isDigit then c.toNat - 48 else if 'a' ≤ c then c.toNat - 87 else c.toNat - 55

/-- `unescape` in mode `encodeHost`: only `%25` and bytes from 0x80 on may be
escaped. -/
def unescapeHost : List Char → Option (List Char)
  | [] => some []
  | '%' :: a :: b :: rest =>
    if isHex a && isHex b && (decide (8 ≤ hexVal a) || (a == '2' && b == '5')) then
      return Char.ofNat (16 * hexVal a + hexVal b) :: (← unescapeHost rest)
    else none
  | '%' :: _ => none
  | c :: rest => if hostChar c then return c :: (← unescapeHost rest) else none

def validOptionalPort : List Char → Bool
  | [] => true
  | ':' :: port => port.all Char.isDigit
  | _ => false

/-- `parseHost`. A zone (`%25` inside brackets) is unescaped like the rest. -/
def parseHost (host : List Char) : Option (List Char) :=
  if host.head? = some '[' then
    if ']' ∈ host then
      let colonPort := (host.reverse.takeWhile (· ≠ ']')).reverse
      if validOptionalPort colonPort then unescapeHost host else none
    else none
  else unescapeHost host

def validUserinfo (s : List Char) : Bool :=
  s.all fun c => c.isAlphanum || c ∈ "-._:~!$&'()*+,;=%@".toList

/-- `parseAuthority`: the host after the last `@`. -/
def parseAuthority (authority : List Char) : Option (List Char) :=
  if '@' ∈ authority then do
    let host ← parseHost (authority.reverse.takeWhile (· ≠ '@')).reverse
    let userinfo := ((authority.reverse.dropWhile (· ≠ '@')).drop 1).reverse
    if validUserinfo userinfo && validEscapes userinfo then some host else none
  else parseHost authority

/-- `getscheme`: `none` for a missing scheme before the colon. -/
def getscheme (raw : List Char) : Option (List Char × List Char) :=
  let scheme := raw.takeWhile fun c => c.isAlphanum || c ∈ ['+', '-', '.']
  match raw.drop scheme.length with
  | ':' :: rest =>
    match scheme with
    | [] => none
    | c :: _ => if c.isAlpha then some (scheme, rest) else some ([], raw)
  | _ => some ([], raw)

/-- `parse` on what is left of the fragment. -/
def parseURL (raw : List Char) : Option URL := do
  if raw = ['*'] then return ⟨"", ""⟩
  let (scheme, rest) ← getscheme raw
  let scheme := String.ofList (scheme.map Char.toLower)
  let rest := (cut '?' rest).1
  if rest.head? ≠ some '/' then
    -- a rootless path is opaque after a scheme; without one it may not start with a colon
    if scheme ≠ "" then return ⟨scheme, ""⟩
    if ':' ∈ (cut '/' rest).1 then none
  if "//".toList.isPrefixOf rest && (scheme ≠ "" || !"///".toList.isPrefixOf rest) then
    let authority := (rest.drop 2).takeWhile (· ≠ '/')
    let path := (rest.drop 2).dropWhile (· ≠ '/')
    let host ← parseAuthority authority
    if validEscapes path then return ⟨scheme, String.ofList host⟩ else none
  else if validEscapes rest then return ⟨scheme, ""⟩
  else none

def urlParse (raw : String) : Option URL := do
  let (u, frag) := cut '#' raw.toList
  let url ← parseURL u
  if validEscapes frag then return url else none

/-- The host `net.SplitHostPort` finds in front of the port. -/
def splitHostPort (hostport : List Char) : Option (List Char) :=
  if ':' ∈ hostport then
    match hostport with
    | '[' :: rest =>
      if ']' ∈ rest then
        let host := rest.takeWhile (· ≠ ']')
        match (rest.dropWhile (· ≠ ']')).drop 1 with
        | ':' :: port =>
          if ':' ∈ port || '[' ∈ host || '[' ∈ port || ']' ∈ port then none else some host
        | _ => none
      else none
    | _ =>
      let host := ((hostport.reverse.dropWhile (· ≠ ':')).drop 1).reverse
      if ':' ∈ host || '[' ∈ hostport || ']' ∈ hostport then none else some host
  else none

end KubeYamls.Dex
