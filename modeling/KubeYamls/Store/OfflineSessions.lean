import KubeYamls.Dex.Runs
import KubeYamls.Store.Sequential

/-! # Offline sessions of different users

A session belongs to a user ID and a connector ID. The memory storage files it
under the pair, etcd under one key made of both, and Kubernetes under a hash of
both; so in the last two, two pairs can meet. -/
namespace KubeYamls.Store
open Data Conc
open Dex (Error Outcome CaseTable asciiCase bytes)

/-- A user ID and a connector ID. -/
abbrev Pair := String × String

def sessionOf (p : Pair) (o : Dex.OfflineSessions) : Dex.OfflineSessions :=
  { o with userID := p.1, connID := p.2 }

namespace Memory

def sessionMethod (p : Pair) :
    (m : Method Dex.OfflineSessions) → Table Pair Dex.OfflineSessions → m.Res × Table Pair Dex.OfflineSessions
  | .create o => method p (.create (sessionOf p o))
  | m => method p m

def Isolated (p q : Pair) : Prop :=
  ∀ (m m' : Method Dex.OfflineSessions) (t : Table Pair Dex.OfflineSessions),
    (sessionMethod q m' (sessionMethod p m t).2).1 = (sessionMethod q m' t).1

theorem sessionMethod_acts (p : Pair) (m : Method Dex.OfflineSessions) :
    ActsOn (fun t : Table Pair Dex.OfflineSessions => t.lookup) (sessionMethod p m) p
      (({ filed := sessionOf p } : Rules Dex.OfflineSessions).apply m) := by
  cases m with
  | create o =>
    have hfiled := Rules.apply_create (R := {}) (Q := { filed := sessionOf p }) (a := sessionOf p o)
      (b := o) rfl
    exact hfiled ▸ method_acts p (.create (sessionOf p o))
  | get => exact method_acts p .get
  | update f => exact method_acts p (.update f)
  | delete => exact method_acts p .delete

theorem isolated {p q} (h : p ≠ q) : Isolated p q := fun m m' t =>
  (sessionMethod_acts p m).frame (sessionMethod_acts q m') h.symm t

end Memory

/-! ## etcd -/

namespace Etcd

def sessionMethod (u : CaseTable) (p : Pair) : (m : Method Dex.OfflineSessions) → Conn nothing m.Res
  | .create o => createOfflineSessions u (sessionOf p o)
  | .get => getOfflineSessions u p.1 p.2
  | .update f => do return (← updateOfflineSessions u p.1 p.2 f).map fun _ => ()
  | .delete => deleteOfflineSessions u p.1 p.2

/-- As for the memory storage, with any keys in etcd. -/
def Isolated (u : CaseTable) (p q : Pair) : Prop :=
  ∀ (m m' : Method Dex.OfflineSessions) (s : Db × List Note),
    ((sessionMethod u q m').alone respond ((sessionMethod u p m).alone respond s).2).1 =
      ((sessionMethod u q m').alone respond s).1

def sessionRules (p : Pair) : Rules Dex.OfflineSessions :=
  { rules .offlineSessions with filed := sessionOf p }

section
variable {u : CaseTable} {p q : Pair}

theorem sessionMethod_acts (p : Pair) (m : Method Dex.OfflineSessions) :
    ActsOn (look .offlineSessions) ((sessionMethod u p m).alone respond)
      (keySession u offlineSessionPrefix p.1 p.2) ((sessionRules p).apply m) := by
  cases m with
  | create o =>
    have hfiled := Rules.apply_create (R := rules .offlineSessions) (Q := sessionRules p)
      (a := sessionOf p o) (b := o) rfl
    exact hfiled ▸ method_acts .offlineSessions _ (.create (sessionOf p o))
  | get => exact method_acts .offlineSessions _ .get
  | update f => exact method_acts .offlineSessions _ (.update f)
  | delete => exact method_acts .offlineSessions _ .delete

theorem isolated_of_ne
    (h : keySession u offlineSessionPrefix p.1 p.2 ≠ keySession u offlineSessionPrefix q.1 q.2) :
    Isolated u p q := fun m m' s =>
  (sessionMethod_acts p m).frame (sessionMethod_acts q m') h.symm s

/-- What is created under a key is found under it, for whatever pair. -/
theorem not_isolated (h : keySession u offlineSessionPrefix p.1 p.2 = keySession u offlineSessionPrefix q.1 q.2) :
    ¬ Isolated u p q := by
  intro hi
  have hget := hi (.create ⟨"", "", ∅⟩) .get (.empty, [])
  have hlook := (sessionMethod_acts (u := u) p (.create ⟨"", "", ∅⟩)).look_self (.empty, [])
  rw [(sessionMethod_acts q .get _).1, (sessionMethod_acts q .get _).1, ← h, hlook] at hget
  cases hget

end

end Etcd

/-- The memory storage keeps the sessions of different pairs apart. In etcd those,
and only those, are kept apart whose IDs, with a `|` between them, differ by more
than letter case. -/
theorem session_isolation (u : CaseTable) (p q : Pair) : (p ≠ q → Memory.Isolated p q) ∧
    (Etcd.Isolated u p q ↔ u.lower (p.1 ++ "|" ++ p.2) ≠ u.lower (q.1 ++ "|" ++ q.2)) := by
  refine ⟨Memory.isolated, ?_⟩
  have hkey : Etcd.keySession u Etcd.offlineSessionPrefix p.1 p.2 =
      Etcd.keySession u Etcd.offlineSessionPrefix q.1 q.2 ↔
      u.lower (p.1 ++ "|" ++ p.2) = u.lower (q.1 ++ "|" ++ q.2) := String.append_right_inj _
  rw [ne_eq, ← hkey]
  exact ⟨fun hi h => Etcd.not_isolated h hi, Etcd.isolated_of_ne⟩

theorem sessions_of_two_users :
    Memory.Isolated ("1", "a") ("2", "a") ∧ Etcd.Isolated asciiCase ("1", "a") ("2", "a") := by
  obtain ⟨hmem, hetcd⟩ := session_isolation asciiCase ("1", "a") ("2", "a")
  exact ⟨hmem (by decide), hetcd.mpr (by decide)⟩

/-- Two users whose IDs differ in case, and two pairs that differ in where the `|`
is: one gets the session of the other. -/
theorem shared_session : ((Etcd.sessionMethod asciiCase ("BOB", "a") .get).alone Etcd.respond
      ((Etcd.sessionMethod asciiCase ("bob", "a") (.create ⟨"", "", ∅⟩)).alone Etcd.respond
        (.empty, [])).2).1.map (·.userID) = .ok "bob" ∧ ¬ Etcd.Isolated asciiCase ("bob", "a") ("BOB", "a") ∧
    ¬ Etcd.Isolated asciiCase ("x|y", "z") ("x", "y|z") := by
  refine ⟨?_, Etcd.not_isolated (by decide), Etcd.not_isolated (by decide)⟩
  decide +kernel

/-! ## Kubernetes -/

namespace Kubernetes

def sessionMethod (u : CaseTable) (p : Pair) : (m : Method Dex.OfflineSessions) → Conn nothing m.Res
  | .create o => createOfflineSessions (sessionOf p o)
  | .get => getOfflineSessions p.1 p.2
  | .update f => do return (← updateOfflineSessions u p.1 p.2 f).map fun _ => ()
  | .delete => deleteOfflineSessions p.1 p.2

def wrongSession : Error := .other "get offline session: wrong session retrieved"

/-- After a get the IDs are compared. -/
def sessionRules (p : Pair) : Rules Dex.OfflineSessions where
  filed := sessionOf p
  wrong o := if p.1 ≠ o.userID ∨ p.2 ≠ o.connID then some wrongSession else none

/-- The server has a session that was created for `p`. -/
def Has (a : Api) (p : Pair) : Prop :=
  ∃ o, look .offlineSessions a (offlineTokenName p.1 p.2) = some (sessionOf p o)

def Unaffected (u : CaseTable) (p q : Pair) : Prop :=
  ∀ (a : Api), Has a p → ∀ m, ((sessionMethod u q m).alone respond a).1 =
    ((sessionMethod u q m).alone respond (a.remove .offlineSessions (offlineTokenName p.1 p.2))).1

/-- What a method returns where its name is taken by another session. -/
def refused : (m : Method Dex.OfflineSessions) → m.Res
  | .create _ => .error .alreadyExists
  | .get => .error wrongSession
  | .update _ => .error wrongSession
  | .delete => .error wrongSession

section
variable {u : CaseTable} {p q : Pair}

theorem sessionMethod_acts (p : Pair) (m : Method Dex.OfflineSessions) :
    ActsOn (look .offlineSessions) ((sessionMethod u p m).alone respond)
      (offlineTokenName p.1 p.2) ((sessionRules p).apply m) := by
  cases m with
  | create o => exact post_acts (k := .offlineSessions) (R := sessionRules p) rfl
  | get => exact get_acts (k := .offlineSessions) (R := sessionRules p) (fun _ => rfl) _
  | update f =>
    exact update_acts (k := .offlineSessions) (R := sessionRules p) (fun _ => rfl) rfl
      (fun _ _ => rfl) _ f
  | delete => exact delete_acts (k := .offlineSessions) (R := sessionRules p) (fun _ => rfl) _

theorem unaffected_of_ne (h : offlineTokenName p.1 p.2 ≠ offlineTokenName q.1 q.2) : Unaffected u p q := by
  intro a _ m
  refine (sessionMethod_acts q m).result_congr ?_
  rw [look_remove, Function.update_of_ne h.symm]

theorem wrong_session (hne : p ≠ q) (o : Dex.OfflineSessions) :
    (sessionRules q).wrong (sessionOf p o) = some wrongSession := by
  refine if_pos ?_
  by_cases h : q.1 = p.1
  · exact .inr fun h' => hne (Prod.ext h h').symm
  · exact .inl h

theorem refused_of_eq (hne : p ≠ q) (h : offlineTokenName p.1 p.2 = offlineTokenName q.1 q.2)
    {a} (ha : Has a p) (m : Method Dex.OfflineSessions) : ((sessionMethod u q m).alone respond a).1 = refused m ∧
      look .offlineSessions ((sessionMethod u q m).alone respond a).2 = look .offlineSessions a := by
  obtain ⟨o, ho⟩ := ha
  rw [h] at ho
  have happly : (sessionRules q).apply m (some (sessionOf p o)) = (refused m, some (sessionOf p o)) := by
    cases m <;> simp [Rules.apply, Rules.found, wrong_session hne, refused]
  refine ⟨?_, (sessionMethod_acts q m).look_same ?_⟩
  · rw [(sessionMethod_acts q m a).1, ho, happly]
  · rw [ho, happly]

theorem has_created (u : CaseTable) (p : Pair) :
    Has ((sessionMethod u p (.create ⟨"", "", ∅⟩)).alone respond .empty).2 p :=
  ⟨⟨"", "", ∅⟩, (sessionMethod_acts p (.create ⟨"", "", ∅⟩)).look_self _⟩

theorem unaffected_iff (hne : p ≠ q) :
    Unaffected u p q ↔ offlineTokenName p.1 p.2 ≠ offlineTokenName q.1 q.2 := by
  refine ⟨fun hu h => ?_, unaffected_of_ne⟩
  -- a second creation is refused that would succeed without the first
  have hcreate := hu _ (has_created u p) (.create ⟨"", "", ∅⟩)
  rw [(refused_of_eq hne h (has_created u p) _).1, (sessionMethod_acts q _ _).1, look_remove, h,
    Function.update_self] at hcreate
  cases hcreate

theorem offlineTokenName_of_append {u c u' c'} (h : u ++ c = u' ++ c') :
    offlineTokenName u c = offlineTokenName u' c' := by
  have hwrite : ∀ x y : String,
      hashWrite (hashWrite offset64 (bytes x)) (bytes y) = hashWrite offset64 (bytes (x ++ y)) := by
    intro x y
    simp [hashWrite, bytes, List.foldl_append]
  simp only [offlineTokenName, hwrite, h]

end

/-- Sessions whose object names differ do not affect each other. Where two pairs
have one name, the session that is there first stays as it is, and every method on
the other one is refused. -/
theorem session_names (u : CaseTable) (p q : Pair) (hne : p ≠ q) :
    (Unaffected u p q ↔ offlineTokenName p.1 p.2 ≠ offlineTokenName q.1 q.2) ∧
    (offlineTokenName p.1 p.2 = offlineTokenName q.1 q.2 → ∀ (a : Api), Has a p → ∀ m,
      ((sessionMethod u q m).alone respond a).1 = refused m ∧
        look .offlineSessions ((sessionMethod u q m).alone respond a).2 = look .offlineSessions a) :=
  ⟨unaffected_iff hne, fun h _ ha m => refused_of_eq hne h ha m⟩

theorem names_of_two_users : Unaffected asciiCase ("1", "a") ("2", "a") ∧
    ((sessionMethod asciiCase ("a", "bc") .get).alone respond
      ((sessionMethod asciiCase ("ab", "c") (.create ⟨"", "", ∅⟩)).alone respond .empty).2).1 =
        .error wrongSession := by
  refine ⟨(session_names _ _ _ (by decide)).1.mpr (by decide +kernel), ?_⟩
  exact ((session_names asciiCase ("ab", "c") ("a", "bc") (by decide)).2
    (offlineTokenName_of_append (by decide)) _ (has_created _ _) .get).1

/-- A session of the user `ab` at the connector `c` keeps the user `a` at the
connector `bc` from having one. -/
theorem names_that_meet :
    ((sessionMethod asciiCase ("a", "bc") (.create ⟨"", "", ∅⟩)).alone respond .empty).1 = .ok () ∧
    ((sessionMethod asciiCase ("a", "bc") (.create ⟨"", "", ∅⟩)).alone respond
      ((sessionMethod asciiCase ("ab", "c") (.create ⟨"", "", ∅⟩)).alone respond .empty).2).1 =
        .error .alreadyExists ∧ ¬ Unaffected asciiCase ("ab", "c") ("a", "bc") := by
  have hne : (("ab", "c") : Pair) ≠ ("a", "bc") := by decide
  have hname : offlineTokenName "ab" "c" = offlineTokenName "a" "bc" :=
    offlineTokenName_of_append (by decide)
  refine ⟨?_, ?_, fun h => (unaffected_iff hne).mp h hname⟩
  · exact (sessionMethod_acts ("a", "bc") (.create ⟨"", "", ∅⟩) .empty).1
  · exact (refused_of_eq (p := ("ab", "c")) (q := ("a", "bc")) hne hname (has_created _ _)
      (.create ⟨"", "", ∅⟩)).1

end Kubernetes

end KubeYamls.Store
