import Mathlib.Tactic.IntervalCases
import KubeYamls.Nginx.Config
import KubeYamls.Data.Regexp

/-! # Times and methods

What `ParseSlowStart` and the parsers of load-balancing methods accept, over all texts.
The parser of times is a reader with four states in the model; here it is compared with
the regular expression that it stands for, and the expression with the grammar that its
list of suffixes is meant for. -/
namespace KubeYamls.Nginx
open Data List

/-! ## Times -/

def validTimeSuffixes : List String := ["ms", "s", "m", "h", "d", "w", "M", "y"]

def durationEscaped : String := "|".intercalate validTimeSuffixes

/-- The expression that `validNginxTime` is compiled from. The suffixes stand in brackets. -/
def validNginxTimeExpr : RegularExpression Char :=
  oneOrMore (oneOrMore (charClass "0123456789".toList) *
    zeroOrOne (zeroOrOne (charClass durationEscaped.toList)) * .star (charClass [' ']))

structure TimeItem (units : List String) where
  number : List Char
  number_ne_nil : number ≠ []
  isDigit : ∀ c ∈ number, c.isDigit = true
  suffix : String
  suffix_mem : suffix = "" ∨ suffix ∈ units
  blanks : Nat

def TimeItem.text {units : List String} (item : TimeItem units) : List Char :=
  item.number ++ item.suffix.toList ++ List.replicate item.blanks ' '

def IsTime (units : List String) (s : String) : Prop :=
  ∃ words : List (List Char), words ≠ [] ∧ s.toList = words.flatten ∧
    ∀ word ∈ words, ∃ item : TimeItem units, word = item.text

/-- What stands in the brackets, one by one. -/
def classUnits : List String := durationEscaped.toList.map String.singleton

section grammar
variable {units units' : List String} {s : String}

theorem IsTime.mono (h : IsTime units s) (hunits : ∀ u ∈ units, u.toList <:+: s.toList → u ∈ units') :
    IsTime units' s := by
  obtain ⟨words, hne, hs, hwords⟩ := h
  refine ⟨words, hne, hs, fun word hword => ?_⟩
  obtain ⟨item, rfl⟩ := hwords word hword
  have hinfix : item.suffix.toList <:+: s.toList := by
    rw [hs]
    exact List.IsInfix.trans ⟨item.number, List.replicate item.blanks ' ', rfl⟩ (infix_of_mem_flatten hword)
  exact ⟨{ item with suffix_mem := item.suffix_mem.imp_right fun hmem => hunits _ hmem hinfix }, rfl⟩

theorem IsTime.mem (h : IsTime units s) {c} (hc : c ∈ s.toList) :
    c.isDigit = true ∨ c = ' ' ∨ ∃ u ∈ units, c ∈ u.toList := by
  obtain ⟨words, -, hs, hwords⟩ := h
  rw [hs] at hc
  obtain ⟨word, hword, hc⟩ := mem_flatten.mp hc
  obtain ⟨item, rfl⟩ := hwords word hword
  simp only [TimeItem.text, mem_append, mem_replicate] at hc
  obtain (hc | hc) | hc := hc
  · exact .inl (item.isDigit c hc)
  · obtain hempty | hmem := item.suffix_mem
    · rw [hempty] at hc
      cases hc
    · exact .inr (.inr ⟨item.suffix, hmem, hc⟩)
  · exact .inr (.inl hc.2)

theorem mem_classUnits {u} : u ∈ classUnits ↔ ∃ c ∈ durationEscaped.toList, u.toList = [c] := by
  simp only [classUnits, mem_map]
  refine exists_congr fun c => and_congr_right fun _ => ?_
  rw [← String.toList_inj, String.toList_singleton, eq_comm]

end grammar

/-! The reader. -/

section reader
variable {q q' : TimeState} {c : Char} {cs : List Char}

theorem mem_durationEscaped : c ∈ durationEscaped.toList ↔ c ∈ ['m', 's', '|', 'h', 'd', 'w', 'M', 'y'] := by
  have htext : durationEscaped = "ms|s|m|h|d|w|M|y" := by decide
  rw [htext]
  simp
  tauto

theorem TimeState.next_digit (h : c.isDigit = true) (q : TimeState) : q.next c = some .number := by
  simp [TimeState.next, h]

theorem TimeState.next_blank (h : q ≠ .start) : q.next ' ' = some .blank := by
  cases q with
  | start => exact absurd rfl h
  | number | unit | blank => rfl

theorem TimeState.next_unit (h : c ∈ durationEscaped.toList) : TimeState.number.next c = some .unit := by
  simp only [mem_durationEscaped, mem_cons, not_mem_nil, or_false] at h
  obtain rfl | rfl | rfl | rfl | rfl | rfl | rfl | rfl := h <;> rfl

theorem TimeState.next_eq_some (h : q.next c = some q') :
    (c.isDigit = true ∧ q' = .number) ∨ (c = ' ' ∧ q ≠ .start ∧ q' = .blank) ∨
      (c ∈ durationEscaped.toList ∧ q = .number ∧ q' = .unit) := by
  rw [mem_durationEscaped]
  by_cases hdigit : c.isDigit = true
  · rw [TimeState.next_digit hdigit] at h
    cases h
    exact .inl ⟨hdigit, rfl⟩
  · unfold TimeState.next at h
    dsimp only at h
    rw [if_neg hdigit] at h
    split at h
    · cases h
      exact .inr (.inl ⟨rfl, nofun, rfl⟩)
    · cases h
      exact .inr (.inl ⟨rfl, nofun, rfl⟩)
    · cases h
      exact .inr (.inl ⟨rfl, nofun, rfl⟩)
    · split at h
      · next hmem =>
        cases h
        exact .inr (.inr ⟨hmem, rfl, rfl⟩)
      · cases h
    · cases h

theorem foldlM_number (h : ∀ c ∈ cs, c.isDigit = true) : cs.foldlM TimeState.next .number = some .number := by
  induction cs with
  | nil => rfl
  | cons c cs ih =>
    obtain ⟨hc, hcs⟩ := forall_mem_cons.mp h
    rw [foldlM_cons, TimeState.next_digit hc]
    exact ih hcs

theorem foldlM_suffix (item : TimeItem classUnits) :
    ∃ q, q ≠ .start ∧ item.suffix.toList.foldlM TimeState.next .number = some q := by
  obtain hempty | hmem := item.suffix_mem
  · rw [hempty]
    exact ⟨.number, nofun, rfl⟩
  · obtain ⟨c, hc, hsuffix⟩ := mem_classUnits.mp hmem
    rw [hsuffix, foldlM_cons, TimeState.next_unit hc]
    exact ⟨.unit, nofun, rfl⟩

theorem foldlM_blanks (n : Nat) (hq : q ≠ .start) :
    ∃ q', q' ≠ .start ∧ (List.replicate n ' ').foldlM TimeState.next q = some q' := by
  induction n generalizing q with
  | zero => exact ⟨q, hq, rfl⟩
  | succ n ih =>
    rw [replicate_succ, foldlM_cons, TimeState.next_blank hq]
    exact ih nofun

theorem foldlM_item (item : TimeItem classUnits) (q : TimeState) :
    ∃ q', q' ≠ .start ∧ item.text.foldlM TimeState.next q = some q' := by
  obtain ⟨c, cs, hnumber⟩ := exists_cons_of_ne_nil item.number_ne_nil
  obtain ⟨hc, hcs⟩ := forall_mem_cons.mp (hnumber ▸ item.isDigit)
  obtain ⟨q1, hq1, hsuffix⟩ := foldlM_suffix item
  obtain ⟨q2, hq2, hblanks⟩ := foldlM_blanks item.blanks hq1
  refine ⟨q2, hq2, ?_⟩
  have hdigits : item.number.foldlM TimeState.next q = some .number := by
    rw [hnumber, foldlM_cons, TimeState.next_digit hc]
    exact foldlM_number hcs
  rw [TimeItem.text, foldlM_append, foldlM_append, hdigits]
  simp only [Option.bind_eq_bind, Option.bind_some, hsuffix, hblanks]

theorem foldlM_words {words} (hwords : ∀ word ∈ words, ∃ item : TimeItem classUnits, word = item.text)
    (h : words ≠ [] ∨ q ≠ .start) : ∃ q', q' ≠ .start ∧ words.flatten.foldlM TimeState.next q = some q' := by
  induction words generalizing q with
  | nil => exact ⟨q, h.resolve_left (absurd rfl), rfl⟩
  | cons word words ih =>
    obtain ⟨⟨item, rfl⟩, hrest⟩ := forall_mem_cons.mp hwords
    obtain ⟨q1, hq1, hitem⟩ := foldlM_item item q
    rw [flatten_cons, foldlM_append, hitem]
    exact ih hrest (.inr hq1)

/-- What has been read where the reader stands: nothing, or items of which the last is nothing but a number
while the reader is in it. -/
def HasRead (q : TimeState) (cs : List Char) : Prop :=
  (q = .start ∧ cs = []) ∨ ∃ (words : List (List Char)) (last : TimeItem classUnits), cs = words.flatten ++ last.text ∧
    (∀ word ∈ words, ∃ item : TimeItem classUnits, word = item.text) ∧
    (q = .number → last.suffix = "" ∧ last.blanks = 0)

theorem HasRead.next (h : HasRead q cs) (hnext : q.next c = some q') : HasRead q' (cs ++ [c]) := by
  obtain ⟨hdigit, rfl⟩ | ⟨rfl, hq, rfl⟩ | ⟨hc, rfl, rfl⟩ := TimeState.next_eq_some hnext
  · -- a digit can always begin an item
    refine .inr ?_
    obtain ⟨-, rfl⟩ | ⟨words, last, rfl, hwords, -⟩ := h
    · exact ⟨[], ⟨[c], cons_ne_nil c [], by simpa using hdigit, "", .inl rfl, 0⟩, rfl, by simp, fun _ => ⟨rfl, rfl⟩⟩
    · refine ⟨words ++ [last.text], ⟨[c], cons_ne_nil c [], by simpa using hdigit, "", .inl rfl, 0⟩, ?_, ?_,
        fun _ => ⟨rfl, rfl⟩⟩
      · simp [TimeItem.text]
      · exact forall_mem_append.mpr ⟨hwords, by simp⟩
  · obtain ⟨hstart, -⟩ | ⟨words, last, rfl, hwords, -⟩ := h
    · exact absurd hstart hq
    · refine .inr ⟨words, { last with blanks := last.blanks + 1 }, ?_, hwords, nofun⟩
      simp [TimeItem.text, replicate_succ']
  · obtain ⟨hstart, -⟩ | ⟨words, last, rfl, hwords, hlast⟩ := h
    · cases hstart
    · obtain ⟨hsuffix, hblanks⟩ := hlast rfl
      have hmem : String.singleton c ∈ classUnits := mem_classUnits.mpr ⟨c, hc, String.toList_singleton c⟩
      refine .inr ⟨words, { last with suffix := String.singleton c, suffix_mem := .inr hmem }, ?_, hwords, nofun⟩
      simp [TimeItem.text, hsuffix, hblanks]

theorem hasRead_of_foldlM (h : cs.foldlM TimeState.next .start = some q) : HasRead q cs := by
  induction cs using List.reverseRecOn generalizing q with
  | nil =>
    cases h
    exact .inl ⟨rfl, rfl⟩
  | append_singleton cs c ih =>
    rw [foldlM_append, Option.bind_eq_bind] at h
    obtain ⟨q1, hq1, h⟩ := Option.bind_eq_some_iff.mp h
    exact (ih hq1).next (by simpa using h)

end reader

/-- The reader accepts the times whose units are the letters of the suffixes, and the bar. -/
theorem validNginxTime_iff_isTime {s} : validNginxTime s = true ↔ IsTime classUnits s := by
  constructor
  · intro h
    unfold validNginxTime at h
    split at h
    · cases h
    · cases h
    · next q hstart hread =>
      obtain ⟨rfl, -⟩ | ⟨words, last, hs, hwords, -⟩ := hasRead_of_foldlM hread
      · exact absurd rfl hstart
      · exact ⟨words ++ [last.text], by simp, by simpa using hs, forall_mem_append.mpr ⟨hwords, by simp⟩⟩
  · intro ⟨words, hne, hs, hwords⟩
    obtain ⟨q, hq, hread⟩ := foldlM_words hwords (.inl hne)
    rw [validNginxTime, hs, hread]
    cases q with
    | start => exact absurd rfl hq
    | number | unit | blank => rfl

theorem isDigit_iff_mem {c} : c.isDigit = true ↔ c ∈ "0123456789".toList := by
  constructor
  · intro h
    have hrange : 48 ≤ c.toNat ∧ c.toNat ≤ 57 := by
      simpa [Char.isDigit, UInt32.le_iff_toNat_le] using h
    rw [← Char.ofNat_toNat c]
    obtain ⟨hlow, hhigh⟩ := hrange
    generalize c.toNat = n at hlow hhigh
    interval_cases n <;> decide
  · intro h
    simp at h
    obtain rfl | rfl | rfl | rfl | rfl | rfl | rfl | rfl | rfl | rfl := h <;> rfl

theorem mem_item_iff {word} :
    word ∈ (oneOrMore (charClass "0123456789".toList) * zeroOrOne (zeroOrOne (charClass durationEscaped.toList)) *
      .star (charClass [' '])).matches' ↔ ∃ item : TimeItem classUnits, word = item.text := by
  simp only [mem_comp, mem_oneOrMore_charClass, mem_zeroOrOne, mem_charClass, mem_star_charClass, ← isDigit_iff_mem]
  constructor
  · intro ⟨_, ⟨number, ⟨hne, hdigits⟩, suffix, hsuffix, rfl⟩, blanks, hblanks, heq⟩
    have hreplicate : blanks = List.replicate blanks.length ' ' :=
      eq_replicate_of_mem fun c hc => mem_singleton.mp (hblanks c hc)
    have hunit : String.ofList suffix = "" ∨ String.ofList suffix ∈ classUnits := by
      obtain rfl | rfl | ⟨c, hc, rfl⟩ := hsuffix
      · exact .inl rfl
      · exact .inl rfl
      · exact .inr (mem_classUnits.mpr ⟨c, hc, String.toList_ofList⟩)
    refine ⟨⟨number, hne, hdigits, String.ofList suffix, hunit, blanks.length⟩, ?_⟩
    rw [TimeItem.text, String.toList_ofList, ← hreplicate, heq]
  · intro ⟨item, hword⟩
    refine ⟨item.number ++ item.suffix.toList, ⟨item.number, ⟨item.number_ne_nil, item.isDigit⟩, item.suffix.toList, ?_, rfl⟩,
      List.replicate item.blanks ' ', fun c hc => mem_singleton.mpr (eq_of_mem_replicate hc), hword.symm⟩
    obtain hempty | hmem := item.suffix_mem
    · exact .inl (by rw [hempty]; rfl)
    · exact .inr (.inr (mem_classUnits.mp hmem))

/-- The model of the parser accepts what the expression of the source matches. -/
theorem validNginxTime_iff_matches {s} : validNginxTime s = true ↔ s.toList ∈ validNginxTimeExpr.matches' := by
  rw [validNginxTime_iff_isTime, validNginxTimeExpr, mem_oneOrMore, IsTime]
  simp only [mem_item_iff]

section units
variable {s : String}

theorem IsTime.no_two_letters (h : IsTime classUnits s) : ¬['m', 's'] <:+: s.toList := by
  intro ⟨before, after, hs⟩
  have hvalid := validNginxTime_iff_isTime.mpr h
  have hstuck : ∀ q : TimeState, ['m', 's'].foldlM TimeState.next q = none := by
    intro q
    cases q <;> rfl
  have hnone : s.toList.foldlM TimeState.next .start = none := by
    rw [← hs, foldlM_append, foldlM_append]
    cases before.foldlM TimeState.next .start with
    | none => rfl
    | some q =>
      simp only [Option.bind_eq_bind, Option.bind_some, hstuck]
      rfl
  rw [validNginxTime, hnone] at hvalid
  cases hvalid

theorem IsTime.notMem_bar (h : IsTime validTimeSuffixes s) : '|' ∉ s.toList := by
  intro hbar
  have hno : ∀ u ∈ validTimeSuffixes, '|' ∉ u.toList := by decide
  obtain hdigit | hblank | ⟨u, hu, hmem⟩ := h.mem hbar
  · exact absurd hdigit (by decide)
  · exact absurd hblank (by decide)
  · exact hno u hu hmem

theorem mem_classUnits_of_suffix {u} (hu : u ∈ validTimeSuffixes) (hne : u ≠ "ms") : u ∈ classUnits := by
  have hall : ∀ u ∈ validTimeSuffixes, u = "ms" ∨ u ∈ classUnits := by decide
  exact (hall u hu).resolve_left hne

theorem suffix_of_mem_classUnits {u} (hu : u ∈ classUnits) (hne : u ≠ "|") : u ∈ validTimeSuffixes := by
  have hall : ∀ u ∈ classUnits, u = "|" ∨ u ∈ validTimeSuffixes := by decide
  exact (hall u hu).resolve_left hne

/-- The brackets differ from the alternatives that they were meant for in the bar and in milliseconds. -/
theorem isTime_classUnits_iff : (IsTime classUnits s ↔ IsTime validTimeSuffixes s) ↔
      ¬(IsTime classUnits s ∧ '|' ∈ s.toList) ∧ ¬(IsTime validTimeSuffixes s ∧ ['m', 's'] <:+: s.toList) := by
  constructor
  · intro heq
    exact ⟨fun ⟨htime, hbar⟩ => (heq.mp htime).notMem_bar hbar, fun ⟨htime, hms⟩ => (heq.mpr htime).no_two_letters hms⟩
  · intro ⟨hbar, hms⟩
    constructor
    · intro htime
      refine htime.mono fun u hu hinfix => suffix_of_mem_classUnits hu ?_
      intro hu
      rw [hu] at hinfix
      exact hbar ⟨htime, hinfix.subset (by decide)⟩
    · intro htime
      refine htime.mono fun u hu hinfix => mem_classUnits_of_suffix hu ?_
      intro hu
      rw [hu] at hinfix
      exact hms ⟨htime, hinfix⟩

end units

/-- A time is refused exactly if it has milliseconds, and what is no time is accepted exactly if it has a bar
for a unit. -/
theorem parseSlowStart_times_iff (s : String) :
    (∀ r, parseSlowStart s = some r ↔ r = trimSpace s ∧ IsTime validTimeSuffixes (trimSpace s)) ↔
      ¬(IsTime classUnits (trimSpace s) ∧ '|' ∈ (trimSpace s).toList) ∧
        ¬(IsTime validTimeSuffixes (trimSpace s) ∧ ['m', 's'] <:+: (trimSpace s).toList) := by
  have hparse : ∀ r, parseSlowStart s = some r ↔ r = trimSpace s ∧ IsTime classUnits (trimSpace s) := by
    intro r
    rw [← validNginxTime_iff_isTime]
    unfold parseSlowStart
    by_cases hvalid : validNginxTime (trimSpace s) = true
    · simp [hvalid, eq_comm]
    · simp [hvalid]
  rw [← isTime_classUnits_iff]
  constructor
  · intro h
    have hself := (hparse (trimSpace s)).symm.trans (h (trimSpace s))
    simpa using hself
  · intro heq r
    rw [hparse r, heq]

theorem milliseconds_refused : parseSlowStart "100ms" = none ∧ IsTime validTimeSuffixes (trimSpace "100ms") ∧
    parseSlowStart "5|" = some "5|" ∧ ¬IsTime validTimeSuffixes (trimSpace "5|") := by
  have hms : IsTime validTimeSuffixes (trimSpace "100ms") :=
    ⟨["100ms".toList], by decide, by decide,
      by simpa using ⟨⟨"100".toList, by decide, all_eq_true.mp (by decide), "ms", by decide, 0⟩, by decide⟩⟩
  exact ⟨by decide, hms, by decide, fun h => h.notMem_bar (by decide)⟩

/-! ## Methods -/

/-- The method with a key, which may be said to be consistent. -/
def IsHashOf (key t : String) : Prop := ' ' ∉ key.toList ∧ (t = "hash " ++ key ∨ t = "hash " ++ key ++ " consistent")

section methods
variable {t r : String}

theorem split_hash_iff {key} : split t " " = ["hash", key] ↔ ' ' ∉ key.toList ∧ t = "hash " ++ key := by
  have hjoined : " ".intercalate ["hash", key] = "hash " ++ key := rfl
  rw [split_eq_iff (c := ' ') rfl, hjoined]
  simp [and_comm]

theorem split_consistent_iff {key} :
    split t " " = ["hash", key, "consistent"] ↔ ' ' ∉ key.toList ∧ t = "hash " ++ key ++ " consistent" := by
  have hjoined : " ".intercalate ["hash", key, "consistent"] = "hash " ++ key ++ " consistent" := by
    apply String.toList_inj.mp
    simp
  rw [split_eq_iff (c := ' ') rfl, hjoined]
  simp [and_comm]

theorem validateHashLBMethod_eq_some_iff : validateHashLBMethod t = some r ↔ (∃ key, IsHashOf key t) ∧ r = t := by
  simp only [IsHashOf, and_or_left, ← split_hash_iff, ← split_consistent_iff]
  unfold validateHashLBMethod
  split
  · next key h => simp [h, eq_comm]
  · next key h => simp [h, eq_comm]
  · next hhash hconsistent =>
    constructor
    · nofun
    · intro ⟨⟨key, hsplit⟩, _⟩
      exact hsplit.elim (fun h => absurd h (hhash key)) fun h => absurd h (hconsistent key)

theorem IsHashOf.startsWith {key} (h : IsHashOf key t) : startsWith t "hash" = true := by
  obtain rfl | rfl := h.2 <;> simp [KubeYamls.Data.startsWith, List.isPrefixOf]

theorem exists_isHashOf_iff (s : String) : (∃ key, IsHashOf key (trimSpace s)) ↔
      (∃ key, key ≠ "" ∧ IsHashOf key (trimSpace s)) ∨ trimSpace s = "hash  consistent" := by
  constructor
  · intro ⟨key, hkey⟩
    by_cases hempty : key = ""
    · subst hempty
      refine .inr (hkey.2.resolve_left fun ht => ?_)
      have hlast := getLast?_trimSpace s
      rw [ht] at hlast
      exact absurd (hlast ' ' rfl) (by decide)
    · exact .inl ⟨key, hempty, hkey⟩
  · intro h
    obtain ⟨key, -, hkey⟩ | ht := h
    · exact ⟨key, hkey⟩
    · exact ⟨"", by decide, .inr ht⟩

theorem not_isHashOf_of_ne {key} (hkey : key ≠ "") : ¬IsHashOf key "hash  consistent" := by
  intro ⟨hblank, ht⟩
  obtain ht | ht := ht
  · have htail : " consistent".toList = key.toList := by
      simpa using congrArg String.toList ht
    rw [← htail] at hblank
    exact absurd hblank (by decide)
  · have htail : " consistent".toList = key.toList ++ " consistent".toList := by
      simpa using congrArg String.toList ht
    have hempty : key.toList = [] := self_eq_append_left.mp htail
    exact hkey (by simpa using hempty)

def IsMethod (valid : List String) (t : String) : Prop :=
  t = "round_robin" ∨ t ∈ valid ∨ ∃ key, key ≠ "" ∧ IsHashOf key t

variable {valid : List String} (hvalid : ∀ m ∈ valid, startsWith m "hash" = false)
include hvalid

theorem parseMethod_eq_some_iff {s} : parseMethod valid s = some r ↔
      (trimSpace s = "round_robin" ∨ trimSpace s ∈ valid ∨ ∃ key, IsHashOf key (trimSpace s)) ∧
        r = if trimSpace s = "round_robin" then "" else trimSpace s := by
  unfold parseMethod
  dsimp only
  generalize trimSpace s = t
  by_cases hround : t = "round_robin"
  · simp [hround, eq_comm]
  · simp only [hround, if_false, false_or]
    by_cases hhash : startsWith t "hash" = true
    · have hno : t ∉ valid := fun hmem => by simp [hvalid t hmem] at hhash
      rw [if_pos hhash, validateHashLBMethod_eq_some_iff]
      simp [hno]
    · have hno : ¬∃ key, IsHashOf key t := fun ⟨_, hkey⟩ => hhash hkey.startsWith
      rw [if_neg hhash]
      by_cases hmem : t ∈ valid <;> simp [hmem, hno, eq_comm]

theorem not_isMethod_of_no_key : ¬IsMethod valid "hash  consistent" := by
  intro h
  obtain hround | hmem | ⟨key, hkey, hhash⟩ := h
  · exact absurd hround (by decide)
  · exact absurd (hvalid _ hmem) (by decide)
  · exact not_isHashOf_of_ne hkey hhash

theorem parseMethod_law_iff (s : String) : (∀ r, parseMethod valid s = some r ↔
      IsMethod valid (trimSpace s) ∧ r = if trimSpace s = "round_robin" then "" else trimSpace s) ↔
      trimSpace s ≠ "hash  consistent" := by
  constructor
  · intro h ht
    have hsome : parseMethod valid s = some "hash  consistent" :=
      (parseMethod_eq_some_iff hvalid).mpr ⟨.inr (.inr ((exists_isHashOf_iff s).mpr (.inr ht))), by rw [ht]; rfl⟩
    exact not_isMethod_of_no_key hvalid (ht ▸ ((h _).mp hsome).1)
  · intro hne r
    rw [parseMethod_eq_some_iff hvalid, exists_isHashOf_iff s, IsMethod]
    simp [hne]

end methods

/-- The law of both parsers fails for one text, where the key is missing. -/
theorem lb_methods_iff (s : String) : ((∀ r, parseLBMethod s = some r ↔
      IsMethod nginxLBValidInput (trimSpace s) ∧ r = if trimSpace s = "round_robin" then "" else trimSpace s) ↔
        trimSpace s ≠ "hash  consistent") ∧ ((∀ r, parseLBMethodForPlus s = some r ↔
      IsMethod nginxPlusLBValidInput (trimSpace s) ∧ r = if trimSpace s = "round_robin" then "" else trimSpace s) ↔
        trimSpace s ≠ "hash  consistent") ∧ ∀ r, parseLBMethod s = some r → parseLBMethodForPlus s = some r := by
  have hvalid : ∀ m ∈ nginxLBValidInput, startsWith m "hash" = false := by decide
  have hplus : ∀ m ∈ nginxPlusLBValidInput, startsWith m "hash" = false := by decide
  have hsubset : nginxLBValidInput ⊆ nginxPlusLBValidInput := by decide
  refine ⟨parseMethod_law_iff hvalid s, parseMethod_law_iff hplus s, fun r hr => ?_⟩
  obtain ⟨hmethod, hresult⟩ := (parseMethod_eq_some_iff hvalid).mp hr
  exact (parseMethod_eq_some_iff hplus).mpr ⟨hmethod.imp_right (Or.imp_left (@hsubset _)), hresult⟩

theorem hash_without_key : parseLBMethod "hash  consistent" = some "hash  consistent" ∧
    parseLBMethodForPlus "hash  consistent" = some "hash  consistent" ∧
    ¬IsMethod nginxLBValidInput (trimSpace "hash  consistent") ∧
    ¬IsMethod nginxPlusLBValidInput (trimSpace "hash  consistent") := by
  have htrim : trimSpace "hash  consistent" = "hash  consistent" := by decide
  rw [htrim]
  exact ⟨by decide, by decide, not_isMethod_of_no_key (by decide), not_isMethod_of_no_key (by decide)⟩

end KubeYamls.Nginx
