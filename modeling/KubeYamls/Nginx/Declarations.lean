import KubeYamls.Nginx.Events

/-! # Declarations in annotations

`nginx.org/rewrites` and `nginx.com/sticky-cookie-services` declare a value for each of
some services, and `nginx.org/listen-ports` and its sibling list ports. The values are cut
out of the text by splitting it at one character after the other, and what does not fit
is left out without an error. -/
namespace KubeYamls.Nginx
open Data List

/-! ## Values for services -/

structure Declarable (p : String × String) : Prop where
  service : isDNS1123Subdomain p.1 = true
  value : p.2 ≠ ""
  semicolon : ';' ∉ p.2.toList
  first : ∀ c ∈ p.2.toList.head?, isSpace c = false
  last : ∀ c ∈ p.2.toList.getLast?, isSpace c = false

theorem declarable_iff {p} : Declarable p ↔ isDNS1123Subdomain p.1 = true ∧ p.2 ≠ "" ∧ ';' ∉ p.2.toList ∧
      p.2.toList.head?.all (!isSpace ·) = true ∧ p.2.toList.getLast?.all (!isSpace ·) = true := by
  simp only [Option.all_eq_true, Bool.not_eq_true']
  exact ⟨fun ⟨hs, hv, hsemi, hf, hl⟩ => ⟨hs, hv, hsemi, hf, hl⟩, fun ⟨hs, hv, hsemi, hf, hl⟩ => ⟨hs, hv, hsemi, hf, hl⟩⟩

instance (p : String × String) : Decidable (Declarable p) := decidable_of_iff _ declarable_iff.symm

def rewriteDeclaration (p : String × String) : String := "serviceName=" ++ p.1 ++ " " ++ ("rewrite=" ++ p.2)

def stickyDeclaration (p : String × String) : String := "serviceName=" ++ p.1 ++ " " ++ p.2

def lastValue (pairs : List (String × String)) (service : String) : Option String :=
  (pairs.reverse.find? (·.1 = service)).map (·.2)

section lastValue
variable {pairs : List (String × String)} {service value : String}

theorem lastValue_eq_none : lastValue pairs service = none ↔ ∀ p ∈ pairs, p.1 ≠ service := by
  simp [lastValue]

theorem mem_of_lastValue (h : lastValue pairs service = some value) : (service, value) ∈ pairs := by
  obtain ⟨⟨service', value'⟩, hfind, rfl⟩ := Option.map_eq_some_iff.mp h
  obtain rfl : service' = service := by simpa using find?_some hfind
  exact mem_reverse.mp (mem_of_find?_eq_some hfind)

theorem lastValue_filter_iff {keep} :
    (∀ service, lastValue (pairs.filter keep) service = lastValue pairs service) ↔
      ∀ service value, lastValue pairs service = some value → keep (service, value) = true := by
  constructor
  · intro h service value hlast
    rw [← h service] at hlast
    exact (mem_filter.mp (mem_of_lastValue hlast)).2
  · intro h service
    rw [lastValue, lastValue, ← filter_reverse, find?_filter]
    cases hfind : pairs.reverse.find? (·.1 = service) with
    | none =>
      have hnone := find?_eq_none.mp hfind
      rw [find?_eq_none.mpr fun p hp => by simpa using fun _ => by simpa using hnone p hp]
    | some p =>
      -- what comes after the last value is for other services
      obtain ⟨hp, after, before, heq, hafter⟩ := find?_eq_some_iff_append.mp hfind
      obtain rfl : p.1 = service := by simpa using hp
      have hkeep : keep p = true := h p.1 p.2 (by rw [lastValue, hfind]; rfl)
      rw [find?_eq_some_iff_append.mpr ⟨by simp [hkeep], after, before, heq, fun q hq => ?_⟩]
      have hother := hafter q hq
      simp only [Bool.not_eq_true', decide_eq_false_iff_not] at hother
      simp [hother]

theorem lastValue_head_iff : (∀ service, lastValue pairs.head?.toList service = lastValue pairs service) ↔
      ∀ service value, lastValue pairs service = some value → pairs.head? = some (service, value) := by
  constructor
  · intro h service value hlast
    rw [← h service] at hlast
    exact Option.mem_toList.mp (mem_of_lastValue hlast)
  · intro h service
    cases hlast : lastValue pairs service with
    | none =>
      refine lastValue_eq_none.mpr fun p hp => lastValue_eq_none.mp hlast p ?_
      exact mem_of_mem_head? (Option.mem_toList.mp hp)
    | some value =>
      rw [h service value hlast]
      simp [lastValue]

end lastValue

section parsing
variable {p : String × String}

section
variable (h : Declarable p)
include h

theorem Declarable.notMem {c} (hc : (c.isLower || c.isDigit || c = '-' || c = '.') = false) : c ∉ p.1.toList := by
  intro hmem
  have hlegal := h.service
  simp only [isDNS1123Subdomain, Bool.and_eq_true, all_eq_true] at hlegal
  exact absurd (hlegal.1.1 c hmem) (by simp [hc])

theorem split_serviceName : split ("serviceName=" ++ p.1) "=" = ["serviceName", p.1] := by
  have hname : "serviceName=" ++ p.1 = "serviceName" ++ "=" ++ p.1 := rfl
  rw [hname, split_append rfl, split_of_notMem rfl (h.notMem (by decide)), split_of_notMem rfl (by decide)]
  rfl

theorem splitAtBlank_declaration (rest : String) :
    splitAtBlank ("serviceName=" ++ p.1 ++ " " ++ rest) = ["serviceName=" ++ p.1, rest] := by
  apply splitAtBlank_append
  have hblank := h.notMem (c := ' ') (by decide)
  simp [hblank]

theorem trimSpace_rewriteDeclaration : trimSpace (rewriteDeclaration p) = rewriteDeclaration p := by
  apply trimSpace_eq_self
  · simp [rewriteDeclaration]
    decide
  · have hne : p.2.toList ≠ [] := by simpa using h.value
    have hlist : (rewriteDeclaration p).toList = ("serviceName=" ++ p.1 ++ " rewrite=").toList ++ p.2.toList := by
      simp [rewriteDeclaration]
    rw [hlist, getLast?_append_of_ne_nil _ hne]
    exact h.last

theorem parseRewrites_declaration {pad} (hpad : pad = "" ∨ pad = " ") :
    parseRewrites (pad ++ rewriteDeclaration p) = if '=' ∈ p.2.toList then none else some p := by
  have htrim : trimSpace (pad ++ rewriteDeclaration p) = rewriteDeclaration p := by
    obtain rfl | rfl := hpad
    · rw [String.empty_append, trimSpace_rewriteDeclaration h]
    · rw [trimSpace_blank_append, trimSpace_rewriteDeclaration h]
  have hvalue : "rewrite=" ++ p.2 = "rewrite" ++ "=" ++ p.2 := rfl
  have hkey : split "rewrite" "=" = ["rewrite"] := split_of_notMem rfl (by decide)
  rw [parseRewrites, htrim, rewriteDeclaration, splitAtBlank_declaration h]
  dsimp only
  rw [split_serviceName h, hvalue, split_append rfl, hkey]
  split_ifs with heq
  · obtain ⟨first, second, rest, hpieces⟩ : ∃ first second rest, split p.2 "=" = first :: second :: rest :=
      exists_split_of_mem rfl heq
    rw [hpieces]
    rfl
  · rw [split_of_notMem rfl heq]
    rfl

theorem parseStickyService_declaration : parseStickyService (stickyDeclaration p) = some p := by
  rw [parseStickyService, stickyDeclaration, splitAtBlank_declaration h]
  dsimp only
  rw [split_serviceName h]

end

theorem parseStickyService_blank (s : String) : parseStickyService (" " ++ s) = none := by
  have hsplit : splitAtBlank (" " ++ s) = ["", s] := splitAtBlank_append (s := "") (by simp)
  rw [parseStickyService, hsplit]
  rfl

end parsing

section annotation
variable {ing : Ingress} {pairs : List (String × String)} {key pad : String}

theorem lookup_declarationsOf {text} (h : ing.annotated key = some text)
    (parse : String → Option (String × String)) (service : String) :
    (declarationsOf ing key parse).lookup service = lastValue ((split text ";").filterMap parse) service := by
  have hfold : declarationsOf ing key parse =
      ((split text ";").filterMap parse).foldl (fun t p => t.insert p.1 p.2) ∅ := by
    rw [declarationsOf, h, foldl_filterMap]
    refine congrArg (fun f => List.foldl f ∅ (split text ";")) ?_
    funext t declaration
    cases parse declaration <;> rfl
  rw [hfold, Table.lookup_foldl_insert_eq, lastValue]
  simp

/-- The declarations that are read back out of an annotation: the first, and the others with a blank
in front or not. -/
theorem filterMap_split {parse : String → Option (String × String)} {declaration}
    (hempty : parse "" = none) (hsemicolon : ∀ p ∈ pairs, ';' ∉ (declaration p).toList)
    (hpad : pad = "" ∨ pad = " ") :
    (split ((";" ++ pad).intercalate (pairs.map declaration)) ";").filterMap parse =
      pairs.head?.toList.filterMap (fun p => parse (declaration p)) ++
        pairs.tail.filterMap fun p => parse (pad ++ declaration p) := by
  cases pairs with
  | nil =>
    have hnothing : split "" ";" = [""] := by decide
    simp [hnothing, hempty]
  | cons p pairs =>
    obtain ⟨hp, hpairs⟩ := forall_mem_cons.mp hsemicolon
    have hpad' : ';' ∉ pad.toList := by
      obtain rfl | rfl := hpad <;> decide
    rw [map_cons, split_intercalate rfl hpad' (forall_mem_map.mpr hpairs), split_of_notMem rfl hp,
      filterMap_append, filterMap_map, filterMap_map]
    rfl

theorem filterMap_parseRewrites (h : ∀ p ∈ pairs, Declarable p) (hpad : pad = "" ∨ pad = " ") :
    (split ((";" ++ pad).intercalate (pairs.map rewriteDeclaration)) ";").filterMap parseRewrites =
      pairs.filter ('=' ∉ ·.2.toList) := by
  have hsemicolon : ∀ p ∈ pairs, ';' ∉ (rewriteDeclaration p).toList := by
    intro p hp
    have hname := (h p hp).notMem (c := ';') (by decide)
    simp [rewriteDeclaration, hname, (h p hp).semicolon]
  have hone : ∀ pad, pad = "" ∨ pad = " " → ∀ l : List (String × String), (∀ p ∈ l, Declarable p) →
      l.filterMap (fun p => parseRewrites (pad ++ rewriteDeclaration p)) = l.filter ('=' ∉ ·.2.toList) := by
    intro pad hpad l hl
    rw [← filterMap_eq_filter]
    refine filterMap_congr fun p hp => ?_
    rw [parseRewrites_declaration (hl p hp) hpad, Option.guard]
    by_cases heq : '=' ∈ p.2.toList <;> simp [heq]
  have hfirst := hone "" (.inl rfl) pairs.head?.toList fun p hp => h p (mem_of_mem_head? (by simpa using hp))
  simp only [String.empty_append] at hfirst
  rw [filterMap_split (by decide) hsemicolon hpad, hfirst,
    hone pad hpad pairs.tail fun p hp => h p (mem_of_mem_tail hp), ← filter_append]
  cases pairs <;> rfl

theorem filterMap_parseStickyService (h : ∀ p ∈ pairs, Declarable p) (hpad : pad = "" ∨ pad = " ") :
    (split ((";" ++ pad).intercalate (pairs.map stickyDeclaration)) ";").filterMap parseStickyService =
      if pad = "" then pairs else pairs.head?.toList := by
  have hsemicolon : ∀ p ∈ pairs, ';' ∉ (stickyDeclaration p).toList := by
    intro p hp
    have hname := (h p hp).notMem (c := ';') (by decide)
    simp [stickyDeclaration, hname, (h p hp).semicolon]
  have hone : ∀ l : List (String × String), (∀ p ∈ l, Declarable p) →
      l.filterMap (fun p => parseStickyService (stickyDeclaration p)) = l := by
    intro l hl
    rw [filterMap_congr fun p hp => parseStickyService_declaration (hl p hp), filterMap_some]
  rw [filterMap_split (by decide) hsemicolon hpad,
    hone pairs.head?.toList fun p hp => h p (mem_of_mem_head? (by simpa using hp))]
  obtain rfl | rfl := hpad
  · simp only [String.empty_append, hone pairs.tail fun p hp => h p (mem_of_mem_tail hp), if_true]
    cases pairs <;> rfl
  · simp [parseStickyService_blank]

end annotation

/-- A rewrite is lost exactly if there is an equals sign in it, and a cookie exactly if a blank comes before
its declaration and nothing in front of the blank declares the same. -/
theorem declarations_read_back_iff {pairs : List (String × String)} (h : ∀ p ∈ pairs, Declarable p) (ing : Ingress)
    {sep : String} (hsep : sep = ";" ∨ sep = "; ") :
    (ing.annotated "nginx.org/rewrites" = some (sep.intercalate (pairs.map rewriteDeclaration)) →
      ((∀ service, (getRewrites ing).lookup service = lastValue pairs service) ↔
        ∀ service value, lastValue pairs service = some value → '=' ∉ value.toList)) ∧
    (ing.annotated "nginx.com/sticky-cookie-services" = some (sep.intercalate (pairs.map stickyDeclaration)) →
      ((∀ service, (getSessionPersistenceServices ing).lookup service = lastValue pairs service) ↔
        sep = ";" ∨ ∀ service value, lastValue pairs service = some value → pairs.head? = some (service, value))) := by
  obtain ⟨pad, hpad, rfl⟩ : ∃ pad, (pad = "" ∨ pad = " ") ∧ sep = ";" ++ pad := by
    obtain rfl | rfl := hsep
    · exact ⟨"", .inl rfl, rfl⟩
    · exact ⟨" ", .inr rfl, rfl⟩
  constructor
  · intro hing
    simp only [getRewrites, lookup_declarationsOf hing, filterMap_parseRewrites h hpad, lastValue_filter_iff,
      decide_eq_true_eq]
  · intro hing
    simp only [getSessionPersistenceServices, lookup_declarationsOf hing, filterMap_parseStickyService h hpad]
    obtain rfl | rfl := hpad
    · simp
    · have hne : ";" ++ " " ≠ ";" := by decide
      have hpad : " " ≠ "" := by decide
      simp only [hne, hpad, if_false, false_or]
      exact lastValue_head_iff

theorem declarations_read_back_cafe : (∀ service, (getRewrites (cafe [("nginx.org/rewrites",
        "serviceName=tea-svc rewrite=/leaves/; serviceName=coffee-svc rewrite=/beans/")])).lookup service =
      lastValue [("tea-svc", "/leaves/"), ("coffee-svc", "/beans/")] service) ∧
    (∀ service, (getSessionPersistenceServices (cafe [("nginx.com/sticky-cookie-services",
        "serviceName=tea-svc srv_id path=/tea;serviceName=tea-svc srv_id expires=1h")])).lookup service =
      lastValue [("tea-svc", "srv_id path=/tea"), ("tea-svc", "srv_id expires=1h")] service) := by
  have hequals : ∀ p ∈ [("tea-svc", "/leaves/"), ("coffee-svc", "/beans/")], '=' ∉ p.2.toList := by decide
  constructor
  · exact ((declarations_read_back_iff (by decide) (cafe _) (.inr rfl)).1 rfl).mpr
      fun service value hlast => hequals _ (mem_of_lastValue hlast)
  · exact ((declarations_read_back_iff (by decide) (cafe _) (.inl rfl)).2 rfl).mpr (.inl rfl)

/-- A query makes a rewrite invalid, and a blank after the semicolon the cookie of the second service. -/
theorem declarations_not_read_back : (Declarable ("tea-svc", "/search?q=tea") ∧
      (getRewrites (cafe [("nginx.org/rewrites", ";".intercalate
        ([("tea-svc", "/search?q=tea")].map rewriteDeclaration))])).lookup "tea-svc" = none) ∧
    (∀ p ∈ [("coffee-svc", "srv_id"), ("tea-svc", "srv_id")], Declarable p) ∧
      (getSessionPersistenceServices (cafe [("nginx.com/sticky-cookie-services", "; ".intercalate
        ([("coffee-svc", "srv_id"), ("tea-svc", "srv_id")].map stickyDeclaration))])).lookup "tea-svc" = none := by
  decide

/-! ## Ports -/

def portItems (ing : Ingress) (key : String) : List String := ((ing.annotated key).map (split · ",")).getD []

def listedPort (item : String) : Option Int :=
  ((digits item.toList).filter fun n => 1 ≤ n ∧ n ≤ 65535).map Int.ofNat

/-- An item that is a port beyond the range of `int16`. -/
def IsHighPort (item : String) : Prop := ∃ n ∈ digits item.toList, 2 ^ 15 ≤ n ∧ n ≤ 65535

def IsSignedPort (item : String) : Prop := ∃ cs, item.toList = '+' :: cs ∧ ∃ n ∈ digits cs, 1 ≤ n ∧ n < 2 ^ 15

section ports
variable {item : String} {port : Int}

theorem listedPort_eq_some_iff :
    listedPort item = some port ↔ ∃ n : Nat, digits item.toList = some n ∧ (1 ≤ n ∧ n ≤ 65535) ∧ port = n := by
  simp only [listedPort, Option.map_eq_some_iff, Option.filter_eq_some_iff, decide_eq_true_eq]
  exact exists_congr fun n => by rw [and_assoc, Int.ofNat_eq_natCast, eq_comm (a := port)]

theorem parsePort_eq_some_iff : parsePort item = some port ↔ ∃ n : Nat, (digits item.toList = some n ∨
      ∃ cs, item.toList = '+' :: cs ∧ digits cs = some n) ∧ (1 ≤ n ∧ n < 2 ^ 15) ∧ port = n := by
  simp only [parsePort, parseInt, Option.filter_eq_some_iff, decide_eq_true_eq]
  constructor
  · intro ⟨⟨hsigned, hrange⟩, hpos⟩
    obtain ⟨n, rfl⟩ := Int.eq_ofNat_of_zero_le hpos.le
    exact ⟨n, (signed_eq_some_iff (by omega)).mp hsigned, by omega, rfl⟩
  · intro ⟨n, hdigits, hrange, hport⟩
    subst hport
    exact ⟨⟨(signed_eq_some_iff (by omega)).mpr hdigits, by omega⟩, by omega⟩

theorem lt_of_parsePort (h : parsePort item = some port) : port < 2 ^ 15 := by
  obtain ⟨n, -, hrange, rfl⟩ := parsePort_eq_some_iff.mp h
  omega

theorem parsePort_of_listedPort (h : listedPort item = some port) (hlt : port < 2 ^ 15) : parsePort item = some port := by
  obtain ⟨n, hn, hrange, rfl⟩ := listedPort_eq_some_iff.mp h
  exact parsePort_eq_some_iff.mpr ⟨n, .inl hn, by omega, rfl⟩

theorem parsePort_eq_listedPort_iff :
    parsePort item = listedPort item ↔ ¬IsHighPort item ∧ ¬IsSignedPort item := by
  constructor
  · intro h
    constructor
    · intro ⟨n, hn, hlow, hhigh⟩
      have hlisted : listedPort item = some (n : Int) := listedPort_eq_some_iff.mpr ⟨n, hn, by omega, rfl⟩
      have hlt := lt_of_parsePort (h.trans hlisted)
      omega
    · intro ⟨cs, hcs, n, hn, hrange⟩
      have hparsed : parsePort item = some (n : Int) := parsePort_eq_some_iff.mpr ⟨n, .inr ⟨cs, hcs, hn⟩, hrange, rfl⟩
      obtain ⟨m, hm, -⟩ := listedPort_eq_some_iff.mp (h.symm.trans hparsed)
      rw [hcs, digits_cons_eq_none (by decide)] at hm
      cases hm
  · intro ⟨hhigh, hsigned⟩
    ext port
    constructor
    · intro hparsed
      obtain ⟨n, hn, hrange, rfl⟩ := parsePort_eq_some_iff.mp hparsed
      obtain hn | ⟨cs, hcs, hn⟩ := hn
      · exact listedPort_eq_some_iff.mpr ⟨n, hn, by omega, rfl⟩
      · exact absurd ⟨cs, hcs, n, hn, hrange⟩ hsigned
    · intro hlisted
      apply parsePort_of_listedPort hlisted
      obtain ⟨n, hn, hrange, rfl⟩ := listedPort_eq_some_iff.mp hlisted
      by_contra hlt
      exact hhigh ⟨n, hn, by omega, hrange.2⟩

theorem filterMap_parsePort_eq_iff {items : List String} :
    items.filterMap parsePort = items.filterMap listedPort ↔
      ∀ item ∈ items, ¬IsHighPort item ∧ ¬IsSignedPort item := by
  constructor
  · intro heq item hitem
    refine parsePort_eq_listedPort_iff.mp (forall_eq_of_filterMap_eq (fun item' hitem' port hport => ?_) heq item hitem)
    -- what is listed was read from some item, so it is small enough to be read from its own
    have hmem : port ∈ items.filterMap parsePort := heq ▸ mem_filterMap.mpr ⟨item', hitem', hport⟩
    obtain ⟨other, -, hother⟩ := mem_filterMap.mp hmem
    exact parsePort_of_listedPort hport (lt_of_parsePort hother)
  · intro h
    exact filterMap_congr fun item hitem => parsePort_eq_listedPort_iff.mpr (h item hitem)

end ports

/-- The ports that are listed are returned exactly if none is above 32767, and nothing else is exactly if
there is no sign. -/
theorem getServicesPorts_eq_iff (ing : Ingress) :
    ((getServicesPorts ing).1 = (portItems ing "nginx.org/listen-ports").filterMap listedPort ↔
      ∀ item ∈ portItems ing "nginx.org/listen-ports", ¬IsHighPort item ∧ ¬IsSignedPort item) ∧
    ((getServicesPorts ing).2 = (portItems ing "nginx.org/listen-ports-ssl").filterMap listedPort ↔
      ∀ item ∈ portItems ing "nginx.org/listen-ports-ssl", ¬IsHighPort item ∧ ¬IsSignedPort item) :=
  ⟨filterMap_parsePort_eq_iff, filterMap_parsePort_eq_iff⟩

theorem high_port_not_returned :
    getServicesPorts (cafe [("nginx.org/listen-ports", "8080,40000"), ("nginx.org/listen-ports-ssl", "8443,+9443")]) =
      ([8080], [8443, 9443]) ∧
    ["8080", "40000"].filterMap listedPort = [8080, 40000] ∧ ["8443", "+9443"].filterMap listedPort = [8443] := by
  decide

end KubeYamls.Nginx
