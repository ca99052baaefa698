import Mathlib.Data.List.TakeDrop
import Mathlib.Algebra.Group.Nat.Defs
import Mathlib.Algebra.Ring.Int.Defs

/-! Functions of Go's `strings`, `strconv` and `path` packages. -/
namespace KubeYamls.Data
open List Option

/-- The part of a separator still to be passed over, and the piece read so far, in
reverse. -/
def splitFrom (sep : List Char) (skip : Nat) (piece : List Char) : List Char → List String
  | [] => [String.ofList piece.reverse]
  | c :: cs =>
    if 0 < skip then splitFrom sep (skip - 1) piece cs
    else if sep.isPrefixOf (c :: cs) then
      String.ofList piece.reverse :: splitFrom sep (sep.length - 1) [] cs
    else splitFrom sep 0 (c :: piece) cs

/-- `strings.Split` with a separator that is not empty. -/
def split (s sep : String) : List String := splitFrom sep.toList 0 [] s.toList

section split

theorem splitFrom_cons (c d : Char) (piece cs : List Char) : splitFrom [c] 0 piece (d :: cs) =
      if d = c then String.ofList piece.reverse :: splitFrom [c] 0 [] cs
      else splitFrom [c] 0 (d :: piece) cs := by
  by_cases h : d = c
  · simp [splitFrom, h]
  · simp [splitFrom, h, Ne.symm h]

theorem splitFrom_ne_nil (c : Char) (piece cs : List Char) : splitFrom [c] 0 piece cs ≠ [] := by
  induction cs generalizing piece with
  | nil => simp [splitFrom]
  | cons d cs ih =>
    rw [splitFrom_cons]
    split
    · simp
    · exact ih _

theorem splitFrom_append_sep (c : Char) (piece as bs : List Char) :
    splitFrom [c] 0 piece (as ++ c :: bs) = splitFrom [c] 0 piece as ++ splitFrom [c] 0 [] bs := by
  induction as generalizing piece with
  | nil => simp [splitFrom]
  | cons a as ih =>
    simp only [cons_append, splitFrom_cons]
    split <;> simp [ih]

theorem splitFrom_of_notMem {c as} (h : c ∉ as) (piece : List Char) :
    splitFrom [c] 0 piece as = [String.ofList (piece.reverse ++ as)] := by
  induction as generalizing piece with
  | nil => simp [splitFrom]
  | cons a as ih =>
    obtain ⟨ha, has⟩ := not_or.mp (mt mem_cons.mpr h)
    rw [splitFrom_cons, if_neg (Ne.symm ha), ih has]
    simp

theorem notMem_of_mem_splitFrom {c piece cs} (hpiece : c ∉ piece) {s}
    (h : s ∈ splitFrom [c] 0 piece cs) : c ∉ s.toList := by
  induction cs generalizing piece with
  | nil =>
    obtain rfl := mem_singleton.mp h
    simpa using hpiece
  | cons d cs ih =>
    rw [splitFrom_cons] at h
    split at h
    · rcases mem_cons.mp h with rfl | h
      · simpa using hpiece
      · exact ih (not_mem_nil) h
    · rename_i hd
      exact ih (by simp [hpiece, Ne.symm hd]) h

variable {s t sep : String} {c : Char}

section
variable (hsep : sep.toList = [c])
include hsep

theorem intercalate_splitFrom (piece cs : List Char) :
    sep.intercalate (splitFrom [c] 0 piece cs) = String.ofList (piece.reverse ++ cs) := by
  induction cs generalizing piece with
  | nil => simp [splitFrom, String.intercalate_singleton]
  | cons d cs ih =>
    rw [splitFrom_cons]
    split
    · next hd =>
      obtain ⟨first, rest, hrest⟩ := exists_cons_of_ne_nil (splitFrom_ne_nil c [] cs)
      have htext : sep.intercalate (first :: rest) = String.ofList cs := hrest ▸ ih []
      rw [hrest, String.intercalate_cons_cons, htext]
      apply String.toList_inj.mp
      simp [hsep, hd]
    · rw [ih]
      simp

theorem split_ne_nil : split s sep ≠ [] := by
  unfold split
  rw [hsep]
  exact splitFrom_ne_nil c _ _

theorem split_append : split (s ++ sep ++ t) sep = split s sep ++ split t sep := by
  simp [split, hsep, splitFrom_append_sep]

theorem split_of_notMem (h : c ∉ s.toList) : split s sep = [s] := by
  simp [split, hsep, splitFrom_of_notMem h]

/-- Joining undone, up to the blanks that are joined in. -/
theorem split_intercalate {pad} (hpad : c ∉ pad.toList) {l} (h : ∀ s ∈ l, c ∉ s.toList) :
    split ((sep ++ pad).intercalate (s :: l)) sep = split s sep ++ l.map (pad ++ ·) := by
  induction l generalizing s with
  | nil => simp [String.intercalate_singleton]
  | cons t l ih =>
    obtain ⟨ht, hl⟩ := forall_mem_cons.mp h
    have hpiece : c ∉ (pad ++ t).toList := by simp [hpad, ht]
    have hjoined : (sep ++ pad).intercalate (s :: t :: l) = s ++ sep ++ (sep ++ pad).intercalate ((pad ++ t) :: l) := by
      rw [String.intercalate_cons_cons, String.intercalate_cons_append]
      simp only [String.append_assoc]
    rw [hjoined, split_append hsep, ih hl, split_of_notMem hsep hpiece]
    simp

/-- The pieces are what the text is joined from and have no separator in them. -/
theorem split_eq_iff {l} : split s sep = l ↔ l ≠ [] ∧ s = sep.intercalate l ∧ ∀ t ∈ l, c ∉ t.toList := by
  constructor
  · intro h
    refine ⟨h ▸ split_ne_nil hsep, ?_, fun t ht => ?_⟩
    · rw [← h, split, hsep, intercalate_splitFrom hsep]
      simp
    · rw [← h, split, hsep] at ht
      exact notMem_of_mem_splitFrom not_mem_nil ht
  · intro ⟨hne, hs, hl⟩
    obtain ⟨t, l, rfl⟩ := exists_cons_of_ne_nil hne
    obtain ⟨ht, hl⟩ := forall_mem_cons.mp hl
    have hsplit : split ((sep ++ "").intercalate (t :: l)) sep = split t sep ++ l.map ("" ++ ·) :=
      split_intercalate hsep (by simp) hl
    rw [String.append_empty, ← hs, split_of_notMem hsep ht] at hsplit
    simpa using hsplit

theorem two_le_length_split : 2 ≤ (split (s ++ sep ++ t) sep).length := by
  have hs := length_pos_iff.mpr (split_ne_nil (s := s) hsep)
  have ht := length_pos_iff.mpr (split_ne_nil (s := t) hsep)
  rw [split_append hsep, length_append]
  omega

theorem exists_split_of_mem (h : c ∈ s.toList) : ∃ first second rest, split s sep = first :: second :: rest := by
  obtain ⟨before, after, hs⟩ := append_of_mem h
  have hjoined : s = String.ofList before ++ sep ++ String.ofList after := by
    apply String.toList_inj.mp
    simp [hs, hsep]
  have hlength : 2 ≤ (split s sep).length := hjoined ▸ two_le_length_split hsep
  match hpieces : split s sep with
  | [] | [_] => simp [hpieces] at hlength
  | first :: second :: rest => exact ⟨first, second, rest, rfl⟩

end

end split

/-- `strings.SplitN` with a blank and 2. -/
def splitAtBlank (s : String) : List String :=
  match s.toList.span (· ≠ ' ') with
  | (piece, []) => [String.ofList piece]
  | (piece, _ :: rest) => [String.ofList piece, String.ofList rest]

theorem splitAtBlank_append {s t} (h : ' ' ∉ s.toList) : splitAtBlank (s ++ " " ++ t) = [s, t] := by
  have hspan : (s.toList ++ ' ' :: t.toList).span (· ≠ ' ') = (s.toList, ' ' :: t.toList) := by
    have hpos : ∀ c ∈ s.toList, (c ≠ ' ') = true := by
      intro c hc
      simpa using fun hblank : c = ' ' => h (hblank ▸ hc)
    rw [span_eq_takeWhile_dropWhile, takeWhile_append_of_pos (by simpa using hpos),
      dropWhile_append_of_pos (by simpa using hpos)]
    simp
  have htext : (s ++ " " ++ t).toList = s.toList ++ ' ' :: t.toList := by simp
  rw [splitAtBlank, htext, hspan]
  simp

/-- `unicode.IsSpace` -/
def isSpace (c : Char) : Bool :=
  c.toNat ∈ [0x09, 0x0a, 0x0b, 0x0c, 0x0d, 0x20, 0x85, 0xa0, 0x1680, 0x2028, 0x2029, 0x202f, 0x205f,
    0x3000] || (0x2000 ≤ c.toNat && c.toNat ≤ 0x200a)

/-- `strings.TrimSpace` -/
def trimSpace (s : String) : String :=
  String.ofList ((s.toList.dropWhile isSpace).reverse.dropWhile isSpace).reverse

section trim

theorem dropWhile_eq_self {p} {l : List Char} (h : ∀ c ∈ l.head?, p c = false) : l.dropWhile p = l := by
  cases l with
  | nil => rfl
  | cons c l => exact dropWhile_cons_of_neg (by simp [h c rfl])

theorem head?_dropWhile {p} (l : List Char) : ∀ c ∈ (l.dropWhile p).head?, p c = false := by
  intro c hc
  have hnot := head?_dropWhile_not p l
  rw [mem_def.mp hc] at hnot
  exact hnot

theorem trimSpace_eq_self {s} (hhead : ∀ c ∈ s.toList.head?, isSpace c = false)
    (hlast : ∀ c ∈ s.toList.getLast?, isSpace c = false) : trimSpace s = s := by
  rw [trimSpace, dropWhile_eq_self hhead, dropWhile_eq_self (by simpa using hlast), reverse_reverse,
    String.ofList_toList]

theorem trimSpace_blank_append (s : String) : trimSpace (" " ++ s) = trimSpace s := by
  have hblank : isSpace ' ' = true := by decide
  simp [trimSpace, hblank]

theorem getLast?_trimSpace (s : String) : ∀ c ∈ (trimSpace s).toList.getLast?, isSpace c = false := by
  rw [trimSpace, String.toList_ofList, getLast?_reverse]
  exact head?_dropWhile _

end trim

/-- `strings.HasPrefix` -/
def startsWith (s beginning : String) : Bool := beginning.toList.isPrefixOf s.toList

/-- `strings.Replace` of every `a` by `b`, two characters. -/
def replace (s : String) (a b : Char) : String :=
  String.ofList (s.toList.map fun c => if c = a then b else c)

/-- `strconv.Itoa` and the `%v` and `%d` of an integer. -/
def itoa : Int → String
  | .ofNat n => String.ofList (Nat.toDigits 10 n)
  | .negSucc n => String.ofList ('-' :: Nat.toDigits 10 (n + 1))

theorem notMem_itoa {c} (hc : c.isDigit = false) (hm : c ≠ '-') (n : Int) : c ∉ (itoa n).toList := by
  have hdigits : ∀ m, c ∉ Nat.toDigits 10 m := fun m h => by
    have := Nat.isDigit_of_mem_toDigits (by decide) (by decide) h
    simp [hc] at this
  cases n with
  | ofNat m => simpa [itoa] using hdigits m
  | negSucc m => simpa [itoa, hm] using hdigits (m + 1)

/-- The value of a string of decimal digits. -/
def digits : List Char → Option Nat
  | [] => none
  | cs => if cs.all Char.isDigit then some (cs.foldl (fun n c => 10 * n + (c.toNat - '0'.toNat)) 0)
    else none

/-- An integer in base 10 with an optional sign, of any size. -/
def signed (s : String) : Option Int :=
  match s.toList with
  | '-' :: cs => (digits cs).map fun n => -(n : Int)
  | '+' :: cs => (digits cs).map Int.ofNat
  | cs => (digits cs).map Int.ofNat

theorem digits_cons_eq_none {c} (hc : c.isDigit = false) (cs : List Char) : digits (c :: cs) = none := by
  simp [digits, hc]

/-- A positive number is read with a plus sign in front or without. -/
theorem signed_eq_some_iff {s} {n : Nat} (hn : 0 < n) :
    signed s = some (n : Int) ↔ digits s.toList = some n ∨ ∃ cs, s.toList = '+' :: cs ∧ digits cs = some n := by
  unfold signed
  split
  · next cs hcs =>
    rw [hcs, digits_cons_eq_none (by decide)]
    constructor
    · intro hneg
      obtain ⟨m, hm, hneg⟩ := map_eq_some_iff.mp hneg
      obtain ⟨k, -, hk⟩ := bind_eq_some_iff.mp hm
      cases hk
      omega
    · simp
  · next cs hcs =>
    rw [hcs, digits_cons_eq_none (by decide)]
    simp
  · next _ hplus =>
    have hno : ¬∃ cs, s.toList = '+' :: cs ∧ digits cs = some n := fun ⟨cs, hcs, _⟩ => hplus cs hcs
    simp [hno]

/-- `strconv.ParseInt` in base 10, where an error is all the caller looks at. -/
def parseInt (s : String) (bits : Nat) : Option Int :=
  (signed s).filter fun n => -2 ^ (bits - 1) ≤ n ∧ n < 2 ^ (bits - 1)

/-- The number `strconv.Atoi` returns, also where it returns an error: 0 for what is
no number, the nearest integer for what does not fit. -/
def atoi (s : String) : Int :=
  match signed s with
  | none => 0
  | some n => max (-2 ^ 63) (min n (2 ^ 63 - 1))

def int32 (n : Int) : Int := Int.bmod n (2 ^ 32)

/-- `strconv.ParseBool` -/
def parseBool (s : String) : Option Bool :=
  if s ∈ ["1", "t", "T", "TRUE", "true", "True"] then some true
  else if s ∈ ["0", "f", "F", "FALSE", "false", "False"] then some false
  else none

/-- One element of a rooted path in `path.Clean`. -/
def cleanElement (done : List String) (element : String) : List String :=
  if element = "" ∨ element = "." then done
  else if element = ".." then done.dropLast
  else done ++ [element]

/-- `path.Join` of a rooted directory and a name. -/
def joinPath (dir name : String) : String :=
  "/" ++ "/".intercalate ((split (dir ++ "/" ++ name) "/").foldl cleanElement [])

theorem joinPath_of_notMem {dir name} (elements : List String)
    (hdir : (split dir "/").foldl cleanElement [] = elements) (hslash : '/' ∉ name.toList)
    (hempty : name ≠ "") (hdot : name ≠ ".") (hdots : name ≠ "..") :
    joinPath dir name = "/" ++ "/".intercalate (elements ++ [name]) := by
  rw [joinPath, split_append rfl, split_of_notMem rfl hslash, foldl_append, hdir]
  simp [cleanElement, hempty, hdot, hdots]

end KubeYamls.Data
