import KubeYamls.Saml.Provider

/-! # What an accepted response has been through

The checks of `HandlePOST` read off a call that succeeded, and two calls compared: the
parts of a document that no signature covers do not reach the identity. -/
namespace KubeYamls.Saml
open Data Data.Xml List Except
open Dex (Time ConnScopes Identity)

/-! ## Checks -/

def InWindow (now notBefore notOnOrAfter : Time) : Prop :=
  (notBefore ≠ 0 → notBefore - allowedClockDrift ≤ now) ∧
    (notOnOrAfter ≠ 0 → now ≤ notOnOrAfter + allowedClockDrift)

structure Confirms (p : Provider) (inResponseTo : String) (c : SubjectConfirmation)
    (data : SubjectConfirmationData) : Prop where
  present : c.subjectConfirmationData = some data
  method : c.method = subjectConfirmationMethodBearer
  inResponseTo : data.inResponseTo = inResponseTo
  recipient : data.recipient = "" ∨ data.recipient = p.redirectURI
  window : InWindow p.now data.notBefore data.notOnOrAfter

structure Intended (p : Provider) (c : Conditions) : Prop where
  window : InWindow p.now c.notBefore c.notOnOrAfter
  audience : ∀ r ∈ c.audienceRestriction, ∃ aud ∈ r.audiences,
    aud.value = if p.entityIssuer = "" then p.redirectURI else p.entityIssuer

/-- What is asked of the root element. -/
structure RootMatches (p : Provider) (inResponseTo : String) (resp : Response) : Prop where
  inResponseTo : resp.inResponseTo = inResponseTo
  destination : resp.destination = "" ∨ resp.destination = p.redirectURI
  issuer : p.ssoIssuer ≠ "" → ∀ i ∈ resp.issuer, i.issuer = p.ssoIssuer
  status : ∃ status ∈ resp.status, ∃ code ∈ status.statusCode, code.value = statusCodeSuccess

/-- The root element of the document that was posted. -/
def rootOf (lib : Library) (samlResponse : String) : Option Element := do
  let data ← (Base64.decodeStd samlResponse.toList).toOption
  let doc ← (lib.parse data).toOption
  Document.root doc

/-- The validator accepts the root element, or there is none. -/
def RootVerified (lib : Library) (p : Provider) (samlResponse : String) : Prop :=
  ∀ validate ∈ p.validator, ∃ root ∈ rootOf lib samlResponse, ∃ verified, validate root = .ok verified

def AttributeStatement.HasValue (a : AttributeStatement) (name value : String) : Prop :=
  ∃ attr ∈ a.attributes, attr.name = name ∧ ∃ v ∈ attr.attributeValues, v.value = value

structure Identifies (p : Provider) (a : Assertion) (subject : Subject) (ident : Identity) : Prop where
  userID : ∃ name ∈ subject.nameID, ident.userID = name.value
  email : ∃ st ∈ a.attributeStatement, st.HasValue p.emailAttr ident.email
  username : ∃ st ∈ a.attributeStatement, st.HasValue p.usernameAttr ident.username
  userID_ne : ident.userID ≠ ""
  email_ne : ident.email ≠ ""
  username_ne : ident.username ≠ ""

variable {samlResponse : String}

section
variable {lib : Library} {p : Provider} {inResponseTo : String}

variable {u : Unit}

theorem checkWindow_eq_ok {notBefore notOnOrAfter} (h : checkWindow lib p notBefore notOnOrAfter = .ok u) :
    InWindow p.now notBefore notOnOrAfter := by
  simp only [checkWindow, bind_eq_ok, refuse_eq_ok, before, after, decide_eq_true_eq, not_and] at h
  obtain ⟨_, hb, ha⟩ := h
  refine ⟨fun hne => ?_, fun hne => Int.not_lt.mp (ha hne)⟩
  exact Int.sub_right_le_of_le_add (Int.not_lt.mp (hb hne))

theorem validateConfirmation_eq_ok {c} (h : validateConfirmation lib p inResponseTo c = .ok u) :
    ∃ data, Confirms p inResponseTo c data := by
  simp only [validateConfirmation, bind_eq_ok, refuse_eq_ok, present_eq_ok, ne_eq, not_not] at h
  obtain ⟨_, hm, data, hd, _, hr, _, hw, hrec⟩ := h
  refine ⟨data, hd, hm, hr, ?_, checkWindow_eq_ok hw⟩
  by_cases he : data.recipient = ""
  · exact .inl he
  · exact .inr (Classical.byContradiction fun hne => hrec ⟨he, hne⟩)

theorem confirmationLoop_eq_ok {cs errs} (h : confirmationLoop lib p inResponseTo errs cs = .ok u) :
    ∃ c ∈ cs, ∃ data, Confirms p inResponseTo c data := by
  induction cs generalizing errs with
  | nil =>
    unfold confirmationLoop at h
    split at h <;> cases h
  | cons c cs ih =>
    unfold confirmationLoop at h
    cases hc : validateConfirmation lib p inResponseTo c with
    | ok u => exact ⟨c, mem_cons_self, validateConfirmation_eq_ok hc⟩
    | error err =>
      rw [hc] at h
      obtain ⟨c', hm, hd⟩ := ih h
      exact ⟨c', mem_cons_of_mem _ hm, hd⟩

theorem validateSubject_eq_ok {subject} (h : validateSubject lib p subject inResponseTo = .ok u) :
    ∃ c ∈ subject.subjectConfirmations, ∃ data, Confirms p inResponseTo c data := by
  obtain ⟨_, _, hl⟩ := bind_eq_ok.mp h
  exact confirmationLoop_eq_ok hl

theorem audienceLoop_eq_ok {rs} (h : audienceLoop p rs = .ok u) :
    ∀ r ∈ rs, ∃ aud ∈ r.audiences, aud.value = expAud p := by
  induction rs with
  | nil => simp
  | cons r rs ih =>
    unfold audienceLoop at h
    split at h
    · rename_i hany
      simp only [any_eq_true, decide_eq_true_eq] at hany
      exact forall_mem_cons.mpr ⟨hany, ih h⟩
    · cases h

theorem validateConditions_eq_ok {c} (h : validateConditions lib p c = .ok u) : Intended p c := by
  obtain ⟨_, hw, ha⟩ := bind_eq_ok.mp h
  exact ⟨checkWindow_eq_ok hw, audienceLoop_eq_ok ha⟩

theorem validateStatus_eq_ok {status} (h : validateStatus lib status = .ok u) :
    ∃ code ∈ status.statusCode, code.value = statusCodeSuccess := by
  simp only [validateStatus, bind_eq_ok, present_eq_ok] at h
  obtain ⟨code, hc, h⟩ := h
  refine ⟨code, hc, Classical.byContradiction fun hne => ?_⟩
  rw [if_pos hne] at h
  split at h <;> cases h

theorem validateRoot_eq_ok {resp} (h : validateRoot lib p resp inResponseTo = .ok u) :
    RootMatches p inResponseTo resp := by
  simp only [validateRoot, bind_eq_ok, refuse_eq_ok, present_eq_ok, ne_eq, not_not, not_and, not_exists] at h
  obtain ⟨_, hi, _, hr, _, hd, status, hs, hv⟩ := h
  refine ⟨hr, ?_, hi, status, hs, validateStatus_eq_ok hv⟩
  by_cases he : resp.destination = ""
  · exact .inl he
  · exact .inr (hd he)

theorem getFrom_ne {name ok attrs} (h : (AttributeStatement.getFrom name ok attrs).1 ≠ "") :
    ∃ attr ∈ attrs, attr.name = name ∧
      ∃ v ∈ attr.attributeValues, v.value = (AttributeStatement.getFrom name ok attrs).1 := by
  induction attrs generalizing ok with
  | nil => exact absurd rfl h
  | cons attr attrs ih =>
    unfold AttributeStatement.getFrom at h ⊢
    by_cases hn : attr.name = name
    · rw [if_pos hn] at h ⊢
      cases hv : attr.attributeValues with
      | nil =>
        simp only [hv] at h ⊢
        obtain ⟨a, ha, hrest⟩ := ih h
        exact ⟨a, mem_cons_of_mem _ ha, hrest⟩
      | cons v vs => exact ⟨attr, mem_cons_self, hn, v, hv ▸ mem_cons_self, rfl⟩
    · rw [if_neg hn] at h ⊢
      obtain ⟨a, ha, hrest⟩ := ih h
      exact ⟨a, mem_cons_of_mem _ ha, hrest⟩

theorem identityOf_eq_ok {s assertion ident} (h : identityOf lib p s inResponseTo assertion = .ok ident) :
    ∃ a ∈ assertion, ∃ subject ∈ a.subject,
      (∃ c ∈ subject.subjectConfirmations, ∃ data, Confirms p inResponseTo c data) ∧
      (∀ c ∈ a.conditions, Intended p c) ∧ Identifies p a subject ident := by
  simp only [identityOf, bind_eq_ok, refuse_eq_ok, present_eq_ok, ifPresent_eq_ok] at h
  obtain ⟨a, ha, subject, hs, _, hv, _, hc, name, hn, _, hname, st, hst, _, he, _, hu, groups, _, hid⟩ := h
  cases hid
  exact ⟨a, ha, subject, hs, validateSubject_eq_ok hv, fun c hmem => validateConditions_eq_ok (hc c hmem),
    ⟨name, hn, rfl⟩, ⟨st, hst, getFrom_ne he⟩, ⟨st, hst, getFrom_ne hu⟩, hname, he, hu⟩

theorem verifyResponseSig_eq_ok {validate data raw signed}
    (h : verifyResponseSig lib validate data = .ok (raw, signed)) : ∃ doc root, lib.parse data = .ok doc ∧
      Document.root doc = some root ∧ (signed = true ↔ ∃ verified, validate root = .ok verified) := by
  simp only [verifyResponseSig, bind_eq_ok, mapError_eq_ok, present_eq_ok] at h
  obtain ⟨doc, hdoc, root, hroot, h⟩ := h
  refine ⟨doc, root, hdoc, hroot, ?_⟩
  split at h
  · rename_i verified hv
    obtain ⟨_, _, hsigned⟩ := bind_eq_ok.mp h
    cases hsigned
    exact iff_of_true rfl ⟨verified, hv⟩
  · rename_i e hv
    simp only [bind_eq_ok] at h
    obtain ⟨_, _, _, _, _, _, _, _, hsigned⟩ := h
    cases hsigned
    exact iff_of_false Bool.false_ne_true (by simp [hv])

theorem received_signed {resp signed} (h : received lib p samlResponse = .ok (resp, signed)) :
    signed = true ↔ RootVerified lib p samlResponse := by
  cases hp : p.validator with
  | none =>
    simp only [received, hp, bind_eq_ok, pure_bind] at h
    obtain ⟨_, _, _, _, hr⟩ := h
    cases hr
    simp [RootVerified, hp]
  | some validate =>
    simp only [received, hp, bind_eq_ok, mapError_eq_ok] at h
    obtain ⟨data, hdata, ⟨raw, signed'⟩, hsig, _, _, hr⟩ := h
    cases hr
    obtain ⟨doc, root, hdoc, hroot, hiff⟩ := verifyResponseSig_eq_ok hsig
    simp [RootVerified, hp, rootOf, hdata, hdoc, hroot, Except.toOption, hiff]

theorem handlePOST_eq_ok {s ident} (h : handlePOST lib p s samlResponse inResponseTo = .ok ident) :
    ∃ resp signed, received lib p samlResponse = .ok (resp, signed) ∧
      (signed = true → validateRoot lib p resp inResponseTo = .ok ()) ∧
      identityOf lib p s inResponseTo resp.assertion = .ok ident := by
  simp only [handlePOST, bind_eq_ok, onlyIf_eq_ok, mapError_eq_ok] at h
  obtain ⟨⟨resp, signed⟩, hr, _, hroot, hid⟩ := h
  exact ⟨resp, signed, hr, hroot, hid⟩

end

/-- A response that is accepted is one to the request, for this provider, at this time,
and the identity is taken from its assertion. The root element is looked at if it was
verified, or if nothing is. -/
theorem handlePOST_sound (lib : Library) (p : Provider) (s : ConnScopes)
    (samlResponse inResponseTo : String) (ident : Identity)
    (h : handlePOST lib p s samlResponse inResponseTo = .ok ident) :
    ∃ resp signed, received lib p samlResponse = .ok (resp, signed) ∧
      (signed = true ↔ RootVerified lib p samlResponse) ∧
      (RootVerified lib p samlResponse → RootMatches p inResponseTo resp) ∧
      ∃ a ∈ resp.assertion, ∃ subject ∈ a.subject,
        (∃ c ∈ subject.subjectConfirmations, ∃ data, Confirms p inResponseTo c data) ∧
        (∀ c ∈ a.conditions, Intended p c) ∧ Identifies p a subject ident := by
  obtain ⟨resp, signed, hr, hroot, hid⟩ := handlePOST_eq_ok h
  have hsigned := received_signed hr
  exact ⟨resp, signed, hr, hsigned, fun hv => validateRoot_eq_ok (hroot (hsigned.mpr hv)),
    identityOf_eq_ok hid⟩

/-! ### A login -/

section

def element (space tag : String) (attrs : List (String × String)) (children : List Node) : Element :=
  .mk true space tag (attrs.map fun a => ⟨"", a.1, a.2⟩) children

def attributeElement (name value : String) : Node :=
  .elem (element assertionSpace "Attribute" [("Name", name)]
    [.elem (element assertionSpace "AttributeValue" [] [.text value])])

def janeAssertion : Element :=
  element assertionSpace "Assertion" [("Version", "2.0")] [
    .elem (element assertionSpace "Subject" [] [
      .elem (element assertionSpace "NameID" [] [.text "jane"]),
      .elem (element assertionSpace "SubjectConfirmation" [("Method", subjectConfirmationMethodBearer)] [
        .elem (element assertionSpace "SubjectConfirmationData" [("InResponseTo", "request")] [])])]),
    .elem (element assertionSpace "AttributeStatement" []
      [attributeElement "email" "jane@example.com", attributeElement "name" "Jane"])]

def janeResponse (issuer : String) : Element :=
  element protocolSpace "Response" [("InResponseTo", "request")] [
    .elem (element assertionSpace "Issuer" [] [.text issuer]),
    .elem (element protocolSpace "Status" []
      [.elem (element protocolSpace "StatusCode" [("Value", statusCodeSuccess)] [])]),
    .elem janeAssertion]

mutual

/-- The element as it is written, with its name space declared in it. -/
def elementText : Element → String
  | .mk _ space tag attrs children =>
    "<" ++ tag ++ " xmlns=\"" ++ space ++ "\"" ++
      String.join (attrs.map fun a => " " ++ a.tag ++ "=\"" ++ a.value ++ "\"") ++ ">" ++
      textOf children ++ "</" ++ tag ++ ">"

def textOf : List Node → String
  | [] => ""
  | .elem e :: rest => elementText e ++ textOf rest
  | .text data :: rest => data ++ textOf rest
  | .other :: rest => textOf rest

end

/-- The bytes of the document. -/
@[irreducible] def xml (d : Document) : List UInt8 := Dex.bytes (textOf d)

/-- The document as it is posted. -/
def posted (d : Document) : String := String.ofList (Base64.encodeStd (xml d))

theorem decode_posted (d : Document) : Base64.decodeStd (posted d).toList = .ok (xml d) := by
  rw [posted, String.toList_ofList, Base64.decodeStd_encodeStd]

def decoded (d : Document) : Except String Response := unmarshalDocument (Response.struct fun _ => .ok 0) {} d

/-- What the libraries do with the texts of some documents. One that is decoded as one of
them is printed as that. -/
def reading (ds : List Document) : Library where
  parse data := (ds.find? (xml · = data)).elim (.error "another document") .ok
  print d := (ds.find? (decoded · = decoded d)).elim (.error "another document") fun d => .ok (xml d)
  unmarshal data := (ds.find? (xml · = data)).elim (.error "another document") decoded
  timeText _ := ""
  sprintf := id

/-- The root is accepted as it is. -/
def unchecked : Provider where
  now := 0
  usernameAttr := "name"
  emailAttr := "email"
  redirectURI := "https://dex.example.com/callback"
  validator := some .ok

def jane : Identity := ⟨"jane", "Jane", "jane@example.com", true, [], []⟩

theorem received_posted {lib p validate d d' signed} (hp : p.validator = some validate)
    (hsig : verifyResponseSig lib validate (xml d) = .ok (xml d', signed))
    (hdecode : lib.unmarshal (xml d') = decoded d') : received lib p (posted d) = (do
      let resp ← (decoded d').mapError fun e => .error ("unmarshal response: " ++ e)
      return (resp, signed)) := by
  rw [received, decode_posted, hp]
  simp [hsig, hdecode, Except.mapError, bind, Except.bind]

theorem verify_reading (e : Element) :
    verifyResponseSig (reading [[.elem e]]) .ok (xml [.elem e]) = .ok (xml [.elem e], true) := by
  simp [verifyResponseSig, reading, Except.mapError, bind, Except.bind, pure, Except.pure, present, Document.root,
    Document.setRoot]

theorem rootOf_reading (e : Element) : rootOf (reading [[.elem e]]) (posted [.elem e]) = some e := by
  rw [rootOf, decode_posted]
  simp [reading, Except.toOption, Document.root]

/-- The issuer is not looked at unless one is configured. -/
theorem handlePOST_any_issuer : let d := [.elem (janeResponse "https://other.example.com")]
    handlePOST (reading [d]) unchecked {} (posted d) "request" = .ok jane ∧
      ((received (reading [d]) unchecked (posted d)).map fun r => (r.1.issuer, r.2)) =
        .ok (some ⟨"https://other.example.com"⟩, true) ∧ unchecked.ssoIssuer ≠ "https://other.example.com" := by
  dsimp only [handlePOST]
  rw [received_posted rfl (verify_reading _) (by simp [reading])]
  decide +kernel

def checked : Provider := { unchecked with ssoIssuer := "https://idp.example.com" }

theorem handlePOST_sound_jane : let d := [.elem (janeResponse "https://idp.example.com")]
    handlePOST (reading [d]) checked {} (posted d) "request" = .ok jane ∧
      ∃ resp, received (reading [d]) checked (posted d) = .ok (resp, true) ∧ RootMatches checked "request" resp := by
  intro d
  have h : handlePOST (reading [d]) checked {} (posted d) "request" = .ok jane := by
    dsimp only [handlePOST]
    rw [received_posted rfl (verify_reading _) (by simp [reading])]
    decide +kernel
  have hverified : RootVerified (reading [d]) checked (posted d) := by
    rintro _ ⟨⟩
    exact ⟨_, rootOf_reading _, _, rfl⟩
  obtain ⟨resp, signed, hr, hsigned, hroot, _⟩ := handlePOST_sound _ _ _ _ _ _ h
  exact ⟨h, resp, hsigned.mpr hverified ▸ hr, hroot hverified⟩

end

/-! ## Content that is not signed -/

/-- What is decoded from a printed document is what the tree says. -/
def Library.Preserves (lib : Library) (parseTime : String → Except String Time) : Prop :=
  ∀ d data, lib.print d = .ok data → lib.unmarshal data = unmarshalDocument (Response.struct parseTime) {} d

def OnlyAssertionVerified (lib : Library) (validate : Element → Except String Element)
    (samlResponse : String) (verified : Element) : Prop :=
  ∃ data doc root e assertion, Base64.decodeStd samlResponse.toList = .ok data ∧
    lib.parse data = .ok doc ∧ Document.root doc = some root ∧ validate root = .error e ∧
    root.select assertionSpace "Assertion" = .ok (some assertion) ∧ validate assertion = .ok verified

section
variable {parseTime : String → Except String Time}

theorem attr_keeps_assertion {s s' a}
    (h : (Response.struct parseTime).attr a s = .ok s') : s'.assertion = s.assertion := by
  simp only [Response.struct, samlVersion] at h
  split at h
  · cases h
    rfl
  · split at h <;> cases h
    rfl
  · cases h
    rfl
  · cases h
    rfl

theorem child_assertion {s s' e} (h : (Response.struct parseTime).child e s = .ok s') :
    if e.tag = "Assertion" then (Assertion.struct parseTime).pointer {} e s.assertion = .ok s'.assertion
    else s'.assertion = s.assertion := by
  simp only [Response.struct] at h
  split at h
  · rename_i htag
    obtain ⟨_, _, rfl⟩ := map_eq_ok.mp h
    rw [if_neg (by rw [htag]; decide)]
  · rename_i htag
    obtain ⟨_, _, rfl⟩ := map_eq_ok.mp h
    rw [if_neg (by rw [htag]; decide)]
  · rename_i htag
    obtain ⟨_, ha, rfl⟩ := map_eq_ok.mp h
    rw [if_pos htag]
    exact ha
  · rename_i hne
    cases h
    rw [if_neg hne]

theorem onlyChild_assertion {verified root1 root2 : Element} {r1 r2}
    (h1 : (Response.struct parseTime).unmarshal (root1.onlyChild verified) {} = .ok r1)
    (h2 : (Response.struct parseTime).unmarshal (root2.onlyChild verified) {} = .ok r2) :
    r1.assertion = r2.assertion := by
  simp only [Struct.unmarshal, Struct.children, Element.childElements_onlyChild, foldlM_cons,
    foldlM_nil, bind_eq_ok, bind_pure] at h1 h2
  obtain ⟨_, _, s, hs, s', hs', hr1⟩ := h1
  obtain ⟨_, _, t, ht, t', ht', hr2⟩ := h2
  have hst : s.assertion = t.assertion := by
    rw [foldlM_keeps (fun _ _ _ => attr_keeps_assertion) hs,
      foldlM_keeps (fun _ _ _ => attr_keeps_assertion) ht]
  have hs' := child_assertion hs'
  have ht' := child_assertion ht'
  cases hr1
  cases hr2
  split at hs'
  · rename_i htag
    rw [if_pos htag, ← hst, hs'] at ht'
    exact ok.inj ht'
  · rename_i htag
    rw [if_neg htag] at ht'
    exact hs'.trans (hst.trans ht'.symm)

theorem received_onlyChild {lib} (hlib : lib.Preserves parseTime) {p validate} (hp : p.validator = some validate)
    {verified} (hv : OnlyAssertionVerified lib validate samlResponse verified)
    {resp signed} (h : received lib p samlResponse = .ok (resp, signed)) :
    ∃ root : Element, (Response.struct parseTime).unmarshal (root.onlyChild verified) {} = .ok resp := by
  obtain ⟨data, doc, root, e, assertion, hdata, hdoc, hroot, he, hsel, ha⟩ := hv
  simp only [received, hp, bind_eq_ok, mapError_eq_ok] at h
  obtain ⟨data', hdata', ⟨raw, signed'⟩, hsig, resp', hresp, hr⟩ := h
  cases hr
  cases hdata.symm.trans hdata'
  simp only [verifyResponseSig, bind_eq_ok, mapError_eq_ok, present_eq_ok] at hsig
  obtain ⟨doc', hdoc', root', hroot', hsig⟩ := hsig
  cases hdoc.symm.trans hdoc'
  cases hroot.symm.trans hroot'
  simp only [he, bind_eq_ok, mapError_eq_ok, present_eq_ok] at hsig
  obtain ⟨_, hsel', _, rfl, verified', hv, printed, hprint, hraw⟩ := hsig
  cases hsel.symm.trans hsel'
  cases ha.symm.trans hv
  cases hraw
  refine ⟨root, ?_⟩
  rw [hlib _ _ hprint, unmarshalDocument, Document.root_setRoot] at hresp
  exact hresp

end

/-- Two documents with the same verified assertion, and no other signature, give the
same identity if they give any. -/
theorem unsigned_content_ignored (lib : Library) (parseTime : String → Except String Time)
    (hlib : lib.Preserves parseTime) (p : Provider) (validate : Element → Except String Element)
    (hp : p.validator = some validate) (s : ConnScopes) (inResponseTo text1 text2 : String)
    (verified : Element) (h1 : OnlyAssertionVerified lib validate text1 verified)
    (h2 : OnlyAssertionVerified lib validate text2 verified) (ident1 ident2 : Identity)
    (hok1 : handlePOST lib p s text1 inResponseTo = .ok ident1)
    (hok2 : handlePOST lib p s text2 inResponseTo = .ok ident2) : ident1 = ident2 := by
  obtain ⟨resp1, _, hr1, _, hid1⟩ := handlePOST_eq_ok hok1
  obtain ⟨resp2, _, hr2, _, hid2⟩ := handlePOST_eq_ok hok2
  obtain ⟨root1, hroot1⟩ := received_onlyChild hlib hp h1 hr1
  obtain ⟨root2, hroot2⟩ := received_onlyChild hlib hp h2 hr2
  rw [onlyChild_assertion hroot1 hroot2, hid2] at hid1
  exact (ok.inj hid1).symm

/-! ### Two documents around one assertion -/

section

/-- The unsigned part of a response: its issuer, its status, and where it is sent. -/
def janeAround (destination : String) (unsigned : List Node) : Document :=
  [.elem (element protocolSpace "Response" [("Destination", destination)]
    (unsigned ++ [.elem janeAssertion]))]

def validateAssertions (e : Element) : Except String Element :=
  if e.tag = "Assertion" then .ok e else .error "Missing signature referencing the top-level element"

def sent : Document := janeAround "a" [.elem (element assertionSpace "Issuer" [] [.text "x"])]

/-- Without its issuer. -/
def cutDown : Document := janeAround "a" []

/-- There is nothing to cut from this one. -/
def resent : Document := janeAround "b" [.text "y"]

theorem xml_ne : xml sent ≠ xml cutDown ∧ xml sent ≠ xml resent ∧ xml cutDown ≠ xml resent := by
  unfold xml
  decide +kernel

def twoDocuments : Library := reading [sent, cutDown, resent]

theorem twoDocuments_preserves : twoDocuments.Preserves fun _ => .ok 0 := by
  intro d data h
  change twoDocuments.unmarshal data = decoded d
  obtain ⟨hcut, hre, hcutre⟩ := xml_ne
  simp only [twoDocuments, reading, find?_cons] at h ⊢
  split at h
  · rename_i hd
    cases h
    simpa using hd
  split at h
  · rename_i hd
    cases h
    simpa [hcut] using hd
  split at h
  · rename_i hd
    cases h
    simpa [hre, hcutre] using hd
  · cases h

def signedOnly : Provider := { unchecked with validator := some validateAssertions }

/-- A document is cut down to its assertion, and printed as `d`. -/
theorem verify_cut {root d} (hparse : twoDocuments.parse (xml [.elem root]) = .ok [.elem root])
    (htag : root.tag ≠ "Assertion") (hsel : root.select assertionSpace "Assertion" = .ok (some janeAssertion))
    (hprint : twoDocuments.print [.elem (root.onlyChild janeAssertion)] = .ok (xml d)) :
    verifyResponseSig twoDocuments validateAssertions (xml [.elem root]) = .ok (xml d, false) := by
  obtain ⟨e, hroot⟩ : ∃ e, validateAssertions root = .error e := ⟨_, if_neg htag⟩
  have hassertion : validateAssertions janeAssertion = .ok janeAssertion := rfl
  simp [verifyResponseSig, Except.mapError, bind, Except.bind, pure, Except.pure, present, Document.root,
    Document.setRoot, hparse, hroot, hsel, hassertion, hprint]

theorem unsigned_content_ignored_jane : handlePOST twoDocuments signedOnly {} (posted sent) "request" = .ok jane ∧
      ∃ ident, handlePOST twoDocuments signedOnly {} (posted resent) "request" = .ok ident ∧ jane = ident := by
  obtain ⟨hcut, hre, hcutre⟩ := xml_ne
  have hparse1 : twoDocuments.parse (xml sent) = .ok sent := by simp [twoDocuments, reading]
  have hparse2 : twoDocuments.parse (xml resent) = .ok resent := by simp [twoDocuments, reading, hre, hcutre]
  have hok1 : handlePOST twoDocuments signedOnly {} (posted sent) "request" = .ok jane := by
    have hsig := verify_cut (d := cutDown) hparse1 (by decide) rfl rfl
    rw [handlePOST, received_posted (d := sent) rfl hsig (by simp [twoDocuments, reading, hcut])]
    decide +kernel
  have hok2 : handlePOST twoDocuments signedOnly {} (posted resent) "request" = .ok jane := by
    have hsig := verify_cut (d := resent) hparse2 (by decide) rfl rfl
    rw [handlePOST, received_posted (d := resent) rfl hsig (by simp [twoDocuments, reading, hre, hcutre])]
    decide +kernel
  exact ⟨hok1, jane, hok2, unsigned_content_ignored twoDocuments _ twoDocuments_preserves signedOnly validateAssertions
    rfl {} "request" _ _ janeAssertion ⟨_, _, _, _, _, decode_posted _, hparse1, rfl, rfl, rfl, rfl⟩
    ⟨_, _, _, _, _, decode_posted _, hparse2, rfl, rfl, rfl, rfl⟩ jane jane hok1 hok2⟩

end

end KubeYamls.Saml
