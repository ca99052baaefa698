import KubeYamls.Dex.Responses

/-! # What a refused code tells

`handleAuthCode` (`dex/server/handlers.go`) refuses a code that is not stored, one
that has expired and one of another client in the same branch. The branch then asks
whether the storage reported `ErrNotFound`, which it did for the first alone. -/
namespace KubeYamls.Dex
open Data Conc Prog

/-- The code is absent, expired or issued to another client. -/
def Unusable (w : World) (code : String) (client : Client) : Prop :=
  ∀ a, w.store.authCodes.lookup code = some a → w.clock > a.expiry ∨ a.clientID ≠ client.id

def refusal (stored : Option AuthCode) : Response :=
  match stored with
  | none => .tokenErr errInvalidRequest "Invalid or expired code parameter." 400
  | some _ => .tokenErr errServerError "" 500

theorem refusal_eq_iff {stored stored'} :
    refusal stored = refusal stored' ↔ (stored = none ↔ stored' = none) := by
  cases stored <;> cases stored' <;> simp [refusal]

section
variable {codec : Codec} {inst : Nat} {c : Config} {r : TokenRequest} {client : Client} {w w' : World}
  {es : List (Ev sig)}

theorem tokenErrHelper_calls {typ description status}
    (h : Runs (exec codec inst) (tokenErrHelper typ description status) w es () w') :
    es = [⟨.write (.tokenErr typ description status), ()⟩] := by
  obtain ⟨_, -, hes⟩ := h.op_inv
  exact hes

theorem getAuthCode_answer {id ans res} (h : exec codec inst (.getAuthCode id) ans w = some (res, w')) :
    w' = w ∧ (res = get id w.store.authCodes ∨ res = .error failure) := by
  cases ans <;> cases h
  · exact ⟨rfl, .inl rfl⟩
  · exact ⟨rfl, .inr rfl⟩

theorem runs_unusable (hcode : Unusable w r.code client)
    (hrun : Runs (exec codec inst) (handleAuthCode c r client) w es () w')
    (hread : ¬ did es (.getAuthCode r.code) (.error failure)) :
    responses es = [refusal (w.store.authCodes.lookup r.code)] := by
  obtain ⟨ans, res, w1, es1, hx, hrest, rfl⟩ := hrun.step_inv
  obtain ⟨rfl, rfl | rfl⟩ := getAuthCode_answer hx
  · unfold get at hrest ⊢
    cases hlookup : w1.store.authCodes.lookup r.code with
    | none =>
      rw [hlookup] at hrest
      rw [tokenErrHelper_calls hrest]
      rfl
    | some a =>
      rw [hlookup] at hrest
      obtain ⟨ans, t, w2, es2, hnow, hrefused, rfl⟩ := hrest.step_inv
      have ht : t = w1.clock := by
        cases ans <;> cases hnow
        rfl
      rw [if_pos (ht ▸ hcode a hlookup)] at hrefused
      rw [tokenErrHelper_calls hrefused]
      rfl
  · exact absurd (.head _) hread

end

/-- A client that presents the same code in two states of the storage, unusable in
both, gets the same answer exactly if the code is absent in both or stored in both. -/
theorem probing_iff (codec : Codec) (inst : Nat) (c : Config) (r : TokenRequest) (client : Client)
    (w1 w2 w1' w2' : World) (es1 es2 : List (Ev sig))
    (h1 : Unusable w1 r.code client) (h2 : Unusable w2 r.code client)
    (run1 : Runs (exec codec inst) (handleAuthCode c r client) w1 es1 () w1')
    (run2 : Runs (exec codec inst) (handleAuthCode c r client) w2 es2 () w2')
    (read1 : ¬ did es1 (.getAuthCode r.code) (.error failure))
    (read2 : ¬ did es2 (.getAuthCode r.code) (.error failure)) : responses es1 = responses es2 ↔
      (w1.store.authCodes.lookup r.code = none ↔ w2.store.authCodes.lookup r.code = none) := by
  rw [runs_unusable h1 run1 read1, runs_unusable h2 run2 read2, List.cons.injEq, and_iff_left rfl,
    refusal_eq_iff]

def webCode (expiry : Time) : AuthCode := ⟨"c", "web", "", "", [], "", [], {}, expiry⟩

def foreignCode (expiry : Time) : World :=
  { demoWorld with store := { demoWorld.store with
      authCodes := (∅ : Table String AuthCode).insert "c" (webCode expiry) } }

theorem lookup_foreignCode (expiry : Time) :
    (foreignCode expiry).store.authCodes.lookup "c" = some (webCode expiry) :=
  Table.lookup_insert_iff.mpr (.inl ⟨rfl, rfl⟩)

theorem unusable_foreignCode (expiry : Time) : Unusable (foreignCode expiry) "c" app := by
  intro a ha
  cases (lookup_foreignCode expiry).symm.trans ha
  exact .inr (by simp [webCode, app])

def foreignCalls (expiry : Time) : List (Ev sig) :=
  [⟨.getAuthCode "c", .ok (webCode expiry)⟩, ⟨.now, (0 : Time)⟩, ⟨.write (.tokenErr errServerError "" 500), ()⟩]

theorem foreignCalls_read (expiry : Time) : ¬ did (foreignCalls expiry) (.getAuthCode "c") (.error failure) := by
  simp [did, foreignCalls]

theorem runs_foreignCode (expiry : Time) :
    Runs (exec codec 0) (handleAuthCode (demo.config 0) { code := "c" } app) (foreignCode expiry)
      (foreignCalls expiry) () (foreignCode expiry) := by
  have hread : exec codec 0 (.getAuthCode "c") .plain (foreignCode expiry) =
      some (.ok (webCode expiry), foreignCode expiry) := rfl
  have hnow : exec codec 0 .now .plain (foreignCode expiry) = some ((0 : Time), foreignCode expiry) := rfl
  have hwrite : exec codec 0 (.write (.tokenErr errServerError "" 500)) .plain (foreignCode expiry) =
      some ((), foreignCode expiry) := rfl
  have hrefused : (0 : Time) > (webCode expiry).expiry ∨ (webCode expiry).clientID ≠ app.id :=
    .inr (by simp [webCode, app])
  refine .act hread (.act hnow ?_)
  simp only [Prog.bind]
  rw [if_pos hrefused]
  exact .act hwrite (.ret () _)

/-- Whether the code of the other client has expired makes no difference. -/
theorem foreign_codes_alike :
    Runs (exec codec 0) (handleAuthCode (demo.config 0) { code := "c" } app) (foreignCode 100)
      (foreignCalls 100) () (foreignCode 100) ∧
    Runs (exec codec 0) (handleAuthCode (demo.config 0) { code := "c" } app) (foreignCode (-1))
      (foreignCalls (-1)) () (foreignCode (-1)) ∧
    responses (foreignCalls 100) = responses (foreignCalls (-1)) := by
  refine ⟨runs_foreignCode _, runs_foreignCode _, (probing_iff codec 0 (demo.config 0) { code := "c" } app
    _ _ _ _ _ _ (unusable_foreignCode _) (unusable_foreignCode _) (runs_foreignCode _) (runs_foreignCode _)
    (foreignCalls_read _) (foreignCalls_read _)).mpr ?_⟩
  simp [lookup_foreignCode]

/-- A client that asks for a code learns whether another client has it. -/
theorem foreign_code_revealed : Unusable demoWorld "c" app ∧ Unusable (foreignCode 100) "c" app ∧
    Runs (exec codec 0) (handleAuthCode (demo.config 0) { code := "c" } app) demoWorld
      [⟨.getAuthCode "c", .error .notFound⟩,
        ⟨.write (.tokenErr errInvalidRequest "Invalid or expired code parameter." 400), ()⟩] () demoWorld ∧
    Runs (exec codec 0) (handleAuthCode (demo.config 0) { code := "c" } app) (foreignCode 100)
      (foreignCalls 100) () (foreignCode 100) := by
  have hdrive : (handleAuthCode (demo.config 0) { code := "c" } app).drive (exec codec 0) (plains 2)
      demoWorld = some (_, (), demoWorld) := rfl
  refine ⟨?_, unusable_foreignCode 100, runs_of_drive hdrive, runs_foreignCode 100⟩
  intro a ha
  cases ha

end KubeYamls.Dex
