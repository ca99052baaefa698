import KubeYamls.Dex.AuthRequests

/-! # Codes of one request

`sendCodeResponse` first deletes the request, so one approval at most gets to
the loop over the response types, and the loop creates a code at every `code` in
the list. The parser lets a type through any number of times. -/
namespace KubeYamls.Dex
open Data Conc List

section
variable {S : Setup} {s : Sys (dex S)} {tid : Nat} {req : Request} {id : String}

/-- The code that a step creates, with the ID of the request it approves. -/
def codeFor : Step S → Option (String × AuthCode)
  | .act _ ⟨_, .approval r⟩ (.createAuthCode c) (.ok ()) _ _ => some (r.req, c)
  | _ => none

/-- The codes created for the request `id`. -/
def codesFor (hist : List (Step S)) (id : String) : List AuthCode :=
  (hist.filterMap codeFor).filterMap fun x => if x.1 = id then some x.2 else none

/-- How many codes the form asks for that a step begins to serve. -/
def codesAsked : Step S → Nat
  | .start _ ⟨_, .authorization q⟩ => (fields q.responseType).count responseTypeCode
  | _ => 0

def AsksOnce (_ : List (Step S)) (e : Step S) : Prop := codesAsked e ≤ 1

instance (hist : List (Step S)) (e : Step S) : Decidable (AsksOnce hist e) :=
  inferInstanceAs (Decidable (codesAsked e ≤ 1))

variable {c : AuthCode} {hist : List (Step S)}

theorem codeFor_eq {e : Step S} (h : codeFor e = some (id, c)) : ∃ tid inst r pre post, r.req = id ∧
      e = .act tid ⟨inst, .approval r⟩ (.createAuthCode c) (.ok ()) pre post := by
  unfold codeFor at h
  split at h
  · cases h
    exact ⟨_, _, _, _, _, rfl, rfl⟩
  · cases h

theorem mem_codesFor (h : c ∈ codesFor hist id) : ∃ e ∈ hist, codeFor e = some (id, c) := by
  obtain ⟨⟨id', c'⟩, hm, hc⟩ := mem_filterMap.mp h
  obtain ⟨e, he, hf⟩ := mem_filterMap.mp hm
  dsimp only at hc
  split at hc
  · rename_i hid
    cases hc
    exact ⟨e, he, hid ▸ hf⟩
  · cases hc

theorem codesFor_cons_of_ne {e} (h : ∀ c, codeFor e ≠ some (id, c)) :
    codesFor (e :: hist) id = codesFor hist id := by
  unfold codesFor
  cases he : codeFor e with
  | none => rw [filterMap_cons_none he]
  | some x =>
    rw [filterMap_cons_some he, filterMap_cons_none]
    exact if_neg fun hid => h x.2 (by rw [he, ← hid])

theorem codesFor_cons_self {e} (h : codeFor e = some (id, c)) :
    codesFor (e :: hist) id = c :: codesFor hist id := by
  unfold codesFor
  rw [filterMap_cons_some h]
  exact filterMap_cons_some (if_pos rfl)

theorem code_asked_once (h : Reach Blank s) (hC : Along AsksOnce s.hist) {a}
    (hd : did (past tid s.hist) (.getAuthRequest id) (.ok a)) : a.responseTypes.count responseTypeCode ≤ 1 := by
  obtain ⟨t, hacc⟩ := read_accepted h hd
  obtain ⟨inst, q, _, p, hth, hv, _⟩ := accepted_form h hacc
  have htypes : a.responseTypes = fields q.responseType := hv.responseTypes
  obtain ⟨l1, l2, hl⟩ := append_of_mem (h.started hth)
  rw [hl] at hC
  rw [htypes]
  exact hC.at.1

theorem createAuthCode_claimed (h : Reach Initial s) {r k} (hk : req.kind = .approval r)
    (hth : s.threads[tid]? = some ⟨req, .act (.createAuthCode c) k⟩) : ∃ a,
      did (past tid s.hist) (.getAuthRequest r.req) (.ok a) ∧
      did (past tid s.hist) (.deleteAuthRequest r.req) (.ok ()) ∧
      (past tid s.hist).countP createsCode < a.responseTypes.count responseTypeCode := by
  obtain ⟨r', a, _, hs, _, _, _, hcount⟩ := Reach.duty h hth
  cases hk.symm.trans hs.kind
  have hid := read_authRequest_id h hs.read
  exact ⟨a, hs.read, hid ▸ hs.deleted, hcount⟩

theorem codesFor_nil (h : Reach Blank s) (hC : Along AsksOnce s.hist) {r : ApprovalRequest}
    {k} (hk : req.kind = .approval r) (hth : s.threads[tid]? = some ⟨req, .act (.createAuthCode c) k⟩) :
    codesFor s.hist r.req = [] := by
  have hi : Reach Initial s := h.mono fun _ hw => hw.toInitial
  obtain ⟨a, hread, hdel, hcount⟩ := createAuthCode_claimed hi hk hth
  have hone := code_asked_once h hC hread
  refine eq_nil_iff_forall_not_mem.mpr fun c' hc' => ?_
  obtain ⟨e, he, hfor⟩ := mem_codesFor hc'
  obtain ⟨t, inst, r', pre, post, hreq, rfl⟩ := codeFor_eq hfor
  obtain ⟨l1, l2, hl⟩ := append_of_mem he
  obtain ⟨s0, hm, _, _⟩ := Reach.made hi hl
  obtain ⟨k', hth'⟩ := hm.ready
  obtain ⟨_, _, hdel', _⟩ := createAuthCode_claimed hm.reach rfl hth'
  -- both have deleted the request, so both are the same thread
  obtain rfl := deleteAuthRequest_once hi hdel (hreq ▸ hdel'.mono hm.sublist)
  have hpos : 0 < (past tid s.hist).countP createsCode :=
    countP_pos_iff.mpr ⟨_, mem_past.mpr ⟨_, _, _, he⟩, rfl⟩
  omega

end

/-- At most one code is ever created for each request. -/
theorem one_code_per_request (S : Setup) (s : Sys (dex S)) (h : Reach Blank s)
    (hC : Along AsksOnce s.hist) (id : String) : (codesFor s.hist id).length ≤ 1 := by
  refine Conc.Reach.induct (C := AsksOnce) (I := fun s => (codesFor s.hist id).length ≤ 1)
    ?_ ?_ ?_ ?_ h hC
  · intro w _
    exact Nat.zero_le 1
  · intro s req _ _ ih
    exact ih
  · intro s tid req o k ans r w hr hC ih hth _
    by_cases hfor : ∃ c, codeFor (.act tid req o r s.world w : Step S) = some (id, c)
    · obtain ⟨c, hc⟩ := hfor
      obtain ⟨_, _, r', _, _, rfl, heq⟩ := codeFor_eq hc
      cases heq
      rw [Sys.acted, codesFor_cons_self hc, codesFor_nil hr hC.2 rfl hth]
      exact Nat.le_refl 1
    · rw [Sys.acted, codesFor_cons_of_ne fun c hc => hfor ⟨c, hc⟩]
      exact ih
  · intro s m w _ _ ih _
    exact ih

/-- Alice logs in for a request with these response types. -/
def requesting (types : String) : List (Label (dex demo)) :=
  serving 0 (.authorization {
    redirectURI := "http://app/cb", clientID := "app", scope := "openid", responseType := types })
    (.plain :: .text "r" :: plains 5) ++ loginA 1 "r" offlineA

/-- Two approvals have read the request before the first deletes it. -/
@[irreducible] def approvedTwiceRun : Sys (dex demo) := .after demoWorld <|
  requesting "code" ++ serving 2 (.approval ⟨.post, "r", "approve"⟩) (plains 2) ++
  serving 3 (.approval ⟨.post, "r", "approve"⟩) (plains 2) ++
  going 2 (.plain :: .text "at" :: .text "c" :: plains 3) ++ going 3 (plains 2)

theorem approved_twice_one_code : Along AsksOnce approvedTwiceRun.hist ∧
    (codesFor approvedTwiceRun.hist "r").map (·.id) = ["c"] ∧
    (codesFor approvedTwiceRun.hist "r").length ≤ 1 := by
  have h : Reach Blank approvedTwiceRun := by
    unfold approvedTwiceRun
    exact .after demo_blank _
  obtain ⟨hC, hcodes⟩ : Along AsksOnce approvedTwiceRun.hist ∧
      (codesFor approvedTwiceRun.hist "r").map (·.id) = ["c"] := by
    decide +kernel
  exact ⟨hC, hcodes, one_code_per_request demo approvedTwiceRun h hC "r"⟩

/-- The form names `code` twice, and one approval creates two codes. -/
@[irreducible] def doubledRun : Sys (dex demo) := .after demoWorld <|
  requesting "code code" ++ serving 2 (.approval ⟨.post, "r", "approve"⟩)
    (plains 3 ++ .text "at" :: .text "c" :: plains 2 ++ .text "d" :: plains 3)

theorem doubled_code : Reach Blank doubledRun ∧ (codesFor doubledRun.hist "r").map (·.id) = ["d", "c"] := by
  refine ⟨?_, by decide +kernel⟩
  unfold doubledRun
  exact .after demo_blank _

end KubeYamls.Dex
