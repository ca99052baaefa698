import KubeYamls.Store.Sequential
import KubeYamls.Store.Sql

/-! # Passwords in the four storages

Each storage files a password under a key made of its email in lower case; they
differ in whether the email inside the password is changed as well, and in what an
update does without a password. Calls that bring these differences to light apart,
the storages cannot be told from each other by a sequence of calls: all of them
simulate one table that is keyed by email. -/
namespace KubeYamls.Store
open Data Conc Rules List Function
open Dex (Error Outcome CaseTable asciiCase)

/-! ## Calls and replies -/

inductive PasswordCall where
  | create (p : Dex.Password)
  | get (email : String)
  | update (email : String) (updater : Dex.Password → Except Error Dex.Password)
  | delete (email : String)
  | list

inductive PasswordReply where
  | done (r : Outcome Unit)
  | found (r : Except Error Dex.Password)
  | listed (r : Except Error (List Dex.Password))

def sameError : Error → Error → Bool
  | .notFound, .notFound => true
  | .alreadyExists, .alreadyExists => true
  | .other _, .other _ => true
  | _, _ => false

/-- Replies that are the same up to the order of lists and the text of errors. -/
inductive PasswordReply.Same : PasswordReply → PasswordReply → Prop
  | done (r : Outcome Unit) : Same (.done r) (.done r)
  | doneError {e e' : Error} (h : sameError e e') : Same (.done (.error e)) (.done (.error e'))
  | found (r : Except Error Dex.Password) : Same (.found r) (.found r)
  | foundError {e e' : Error} (h : sameError e e') : Same (.found (.error e)) (.found (.error e'))
  | listed {l l' : List Dex.Password} (h : l.Perm l') : Same (.listed (.ok l)) (.listed (.ok l'))
  | listedError {e e' : Error} (h : sameError e e') :
    Same (.listed (.error e)) (.listed (.error e'))

def PasswordCall.addressed : PasswordCall → Option (String × Method Dex.Password)
  | .create p => some (p.email, .create p)
  | .get email => some (email, .get)
  | .update email updater => some (email, .update fun p => .ofExcept (updater p))
  | .delete email => some (email, .delete)
  | .list => none

def Method.reply : (m : Method Dex.Password) → m.Res → PasswordReply
  | .create _, r => .done (.ofExcept r)
  | .get, r => .found r
  | .update _, r => .done r
  | .delete, r => .done (.ofExcept r)

def Method.slot (m : Method Dex.Password) (R : Rules Dex.Password) (x : Option Dex.Password) :
    PasswordReply × Option Dex.Password :=
  Prod.map m.reply id (R.apply m x)

/-! ## The storages -/

/-- A call that may not bring differences to light: what is created under an email
has this very email, and what is updated exists and keeps its email. -/
def Regular (email : String) (x : Option Dex.Password) : Method Dex.Password → Prop
  | .create p => p.email = email
  | .update updater => x.isSome ∧ ∀ p p', updater p = .ok p' → p'.email = p.email
  | _ => True

/-- A storage for passwords: what its calls do, and where and how it files the
passwords. On regular calls it follows the plain rules. -/
structure Backend (u : CaseTable) where
  State : Type
  initial : State
  step : PasswordCall → State → PasswordReply × State
  look : State → String → Option Dex.Password
  key : String → String
  rules : String → Rules Dex.Password
  key_injective : Function.Injective key
  look_initial : look initial = fun _ => none
  acts : ∀ c email m, c.addressed = some (email, m) →
    ActsOn look (step c) (key (u.lower email)) (m.slot (rules (u.lower email)))
  lists : ∀ s, ∃ values, step .list s = (.listed (.ok values), s) ∧ Lists (look s) values
  plain : ∀ email m x, u.lower email = email → (∀ p ∈ x, p.email = email) → Regular email x m →
    (rules email).apply m x = ({} : Rules Dex.Password).apply m x

variable {m : Method Dex.Password} {c : PasswordCall}

theorem Rules.plain {R : Rules Dex.Password} {email}
    (hfiled : ∀ p : Dex.Password, p.email = email → R.filed p = p)
    (hwrong : ∀ p : Dex.Password, p.email = email → R.wrong p = none)
    (hkept : ∀ old new : Dex.Password, old.email = email → new.email = email → R.kept old new = new)
    {x} (hx : ∀ p ∈ x, p.email = email) (hm : Regular email x m) :
    R.apply m x = ({} : Rules Dex.Password).apply m x := by
  have hfound : R.found x = ({} : Rules Dex.Password).found x := by
    cases x with
    | none => rfl
    | some p => simp [found, hwrong p (hx p rfl)]
  cases m with
  | create p =>
    exact congrFun (apply_create (R := R) (Q := {}) (hfiled p hm)) x
  | get | delete => simp only [apply, hfound]
  | update f =>
    obtain ⟨hsome, hf⟩ := hm
    obtain ⟨old, rfl⟩ := Option.isSome_iff_exists.mp hsome
    have hold := hx old rfl
    simp only [apply, Option.some_or, found, hwrong old hold]
    cases hnew : f old with
    | ok new => simp only [hkept old new hold ((hf old new hnew).trans hold)]
    | error | panic => rfl

namespace Memory
variable (u : CaseTable)

def createPassword (p : Dex.Password) (t : Table String Dex.Password) :
    Except Error Unit × Table String Dex.Password :=
  Dex.create (u.lower p.email) p t

def getPassword (email : String) (t : Table String Dex.Password) : Except Error Dex.Password :=
  Dex.get (u.lower email) t

def updatePassword (email : String) (updater : Dex.Password → Except Error Dex.Password)
    (t : Table String Dex.Password) : Outcome Dex.Password × Table String Dex.Password :=
  Dex.update (u.lower email) (fun p => .ofExcept (updater p)) t

def deletePassword (email : String) (t : Table String Dex.Password) :
    Except Error Unit × Table String Dex.Password :=
  Dex.delete (u.lower email) t

def listPasswords (t : Table String Dex.Password) : List Dex.Password := t.entries.map fun e => e.2

def passwordStep : PasswordCall → Table String Dex.Password → PasswordReply × Table String Dex.Password
  | .create p, t => Prod.map (fun r => .done (.ofExcept r)) id (createPassword u p t)
  | .get email, t => (.found (getPassword u email t), t)
  | .update email updater, t =>
    Prod.map (fun r => .done (r.map fun _ => ())) id (updatePassword u email updater t)
  | .delete email, t => Prod.map (fun r => .done (.ofExcept r)) id (deletePassword u email t)
  | .list, t => (.listed (.ok (listPasswords t)), t)

theorem passwordStep_acts (c : PasswordCall) (email : String) (m : Method Dex.Password)
    (h : c.addressed = some (email, m)) :
    ActsOn (fun t : Table String Dex.Password => t.lookup) (passwordStep u c) (u.lower email) (m.slot {}) := by
  have hacts := (method_acts (u.lower email) m).map m.reply
  cases c with
  | list => cases h
  | _ =>
    cases h
    exact hacts

def passwords : Backend u where
  State := Table String Dex.Password
  initial := ∅
  step := passwordStep u
  look := fun t => t.lookup
  key := id
  rules := fun _ => {}
  key_injective := injective_id
  look_initial := rfl
  acts := passwordStep_acts u
  lists := fun t => ⟨_, rfl, by simpa [listPasswords] using t.lists fun _ p => p⟩
  plain := fun _ _ _ _ _ _ => rfl

end Memory

namespace Sql
variable (u : CaseTable)

def passwordStep : PasswordCall → Passwords → PasswordReply × Passwords
  | .create p, t => Prod.map (fun r => .done (.ofExcept r)) id (createPassword u p t)
  | .get email, t => (.found (getPassword u email t), t)
  | .update email updater, t =>
    Prod.map (fun r => .done (.ofExcept r)) id (updatePassword u email updater t)
  | .delete email, t => Prod.map (fun r => .done (.ofExcept r)) id (deletePassword u email t)
  | .list, t => (.listed (.ok (listPasswords t)), t)

/-- The email is in lower case in the row, and is not updated. -/
def passwordRules : Rules Dex.Password where
  filed p := { p with email := u.lower p.email }
  kept old new := { new with email := old.email }

def lookPassword (t : Passwords) (email : String) : Option Dex.Password :=
  (t.lookup email).map (scanPassword email)

section
variable {u} {email : String} {t : Passwords}

theorem lookPassword_insert (row : PasswordRow) : lookPassword (t.insert email row) =
      update (lookPassword t) email (some (scanPassword email row)) :=
  Table.map_lookup_insert scanPassword email row t

theorem lookPassword_erase : lookPassword (t.erase email) = update (lookPassword t) email none :=
  Table.map_lookup_erase scanPassword email t

theorem lookPassword_none (h : t.lookup email = none) : lookPassword t email = none := by
  simp [lookPassword, h]

theorem lookPassword_some {row} (h : t.lookup email = some row) :
    lookPassword t email = some (scanPassword email row) := by
  simp [lookPassword, h]

theorem passwordStep_acts (c : PasswordCall) (email : String) (m : Method Dex.Password)
    (h : c.addressed = some (email, m)) :
    ActsOn lookPassword (passwordStep u c) (u.lower email) (m.slot (passwordRules u)) := by
  intro t
  cases c with
  | list => cases h
  | create p =>
    cases h
    cases hl : t.lookup (u.lower p.email) with
    | none =>
      have hx := lookPassword_none hl
      simp only [passwordStep, createPassword, hl, hx]
      exact ⟨rfl, lookPassword_insert _⟩
    | some row =>
      have hx := lookPassword_some hl
      simp only [passwordStep, createPassword, hl, hx]
      exact ⟨rfl, eq_update_self_iff.mpr hx⟩
  | get email =>
    cases h
    refine ⟨?_, (update_eq_self _ _).symm⟩
    cases hl : t.lookup (u.lower email) <;>
      simp [passwordStep, getPassword, Method.slot, Method.reply, apply, found,
        passwordRules, lookPassword, hl]
  | update email f =>
    cases h
    cases hl : t.lookup (u.lower email) with
    | none =>
      have hx := lookPassword_none hl
      simp only [passwordStep, updatePassword, getPassword, hl, hx]
      exact ⟨rfl, eq_update_self_iff.mpr hx⟩
    | some row =>
      have hx := lookPassword_some hl
      have hemail : (scanPassword (u.lower email) row).email = u.lower email := rfl
      simp only [passwordStep, updatePassword, getPassword, hl, hx, Method.slot, apply,
        Option.some_or, found, passwordRules]
      cases hf : f (scanPassword (u.lower email) row) with
      | error e => exact ⟨rfl, eq_update_self_iff.mpr hx⟩
      | ok np =>
        dsimp only [Outcome.ofExcept]
        rw [hemail, hl]
        exact ⟨rfl, lookPassword_insert _⟩
  | delete email =>
    cases h
    cases hl : t.lookup (u.lower email) with
    | none =>
      have hx := lookPassword_none hl
      simp only [passwordStep, deletePassword, hl, hx]
      exact ⟨rfl, eq_update_self_iff.mpr hx⟩
    | some row =>
      have hx := lookPassword_some hl
      simp only [passwordStep, deletePassword, hl, hx]
      exact ⟨rfl, lookPassword_erase⟩

end

def passwords : Backend u where
  State := Passwords
  initial := ∅
  step := passwordStep u
  look := lookPassword
  key := id
  rules := fun _ => passwordRules u
  key_injective := injective_id
  look_initial := rfl
  acts := passwordStep_acts
  lists := fun t => ⟨_, rfl, t.lists scanPassword⟩
  plain := fun email m x hlower hx hm => plain
    (fun p hp => by subst hp; simp [passwordRules, hlower]) (fun _ _ => rfl)
    (fun old new hold hnew => by simp [passwordRules, hold, ← hnew]) hx hm

end Sql

namespace Etcd
variable (u : CaseTable)

def passwordStep : PasswordCall → Db × List Note → PasswordReply × (Db × List Note)
  | .create p, s => Prod.map (fun r => .done (.ofExcept r)) id ((createPassword u p).alone respond s)
  | .get email, s => Prod.map .found id ((getPassword u email).alone respond s)
  | .update email updater, s =>
    Prod.map (fun r => .done (r.map fun _ => ())) id
      ((updatePassword u email fun p => .ofExcept (updater p)).alone respond s)
  | .delete email, s =>
    Prod.map (fun r => .done (.ofExcept r)) id ((deletePassword u email).alone respond s)
  | .list, s => Prod.map .listed id (listPasswords.alone respond s)

theorem passwordStep_acts (c : PasswordCall) (email : String) (m : Method Dex.Password)
    (h : c.addressed = some (email, m)) :
    ActsOn (look .password) (passwordStep u c) (passwordPrefix ++ u.lower email) (m.slot (rules .password)) := by
  have hacts := (method_acts .password (passwordPrefix ++ u.lower email) m).map m.reply
  cases c with
  | list => cases h
  | update email f =>
    cases h
    refine hacts.congr fun s => ?_
    rw [method, Prog.alone_map (updateKey _ _ _)]
    rfl
  | _ =>
    cases h
    exact hacts

def passwords : Backend u where
  State := Db × List Note
  initial := (.empty, [])
  step := passwordStep u
  look := look .password
  key := fun email => passwordPrefix ++ email
  rules := fun _ => rules .password
  key_injective := fun _ _ h => (String.append_right_inj _).mp h
  look_initial := rfl
  acts := passwordStep_acts u
  lists := fun s => ⟨_, rfl, by
    show Lists _ (((s.1.tables .password).entries.map fun e => e.2.1).map (toStorage .password))
    rw [map_map]
    exact (s.1.tables .password).lists fun _ v => toStorage .password v.1⟩
  plain := fun _ _ _ _ hx hm =>
    plain (fun _ _ => rfl) (fun _ _ => rfl) (fun _ _ _ _ => rfl) hx hm

end Etcd

namespace Kubernetes
variable (u : CaseTable)

def passwordStep : PasswordCall → Api → PasswordReply × Api
  | .create p, a => Prod.map (fun r => .done (.ofExcept r)) id ((createPassword u p).alone respond a)
  | .get email, a => Prod.map .found id ((getPassword u email).alone respond a)
  | .update email updater, a =>
    Prod.map (fun r => .done (r.map fun _ => ())) id
      ((updatePassword u email fun p => .ofExcept (updater p)).alone respond a)
  | .delete email, a =>
    Prod.map (fun r => .done (.ofExcept r)) id ((deletePassword u email).alone respond a)
  | .list, a => Prod.map .listed id (listPasswords.alone respond a)

/-- The email is in lower case in the object, stays what it was, and is compared
after a get. -/
def passwordRules (email : String) : Rules Dex.Password where
  filed p := { p with email := u.lower p.email }
  wrong p := if email ≠ p.email then
      some (.other ("get email: email " ++ Dex.quote email ++ " mapped to password with email " ++
        Dex.quote p.email))
    else none
  kept old new := { new with email := u.lower old.email }

theorem updatePassword_acts (email : String) (f : Dex.Password → Outcome Dex.Password) :
    ActsOn (look .password) ((do return (← updatePassword u email f).map fun _ => () :
        Conn nothing (Outcome Unit)).alone respond)
      (idToName (u.lower email)) ((passwordRules u (u.lower email)).apply (.update f)) :=
  update_acts (k := .password) (R := passwordRules u (u.lower email)) (fun _ => rfl) rfl
    (fun _ _ => rfl) _ f

theorem passwordStep_acts (c : PasswordCall) (email : String) (m : Method Dex.Password)
    (h : c.addressed = some (email, m)) : ActsOn (look .password) (passwordStep u c) (idToName (u.lower email))
      (m.slot (passwordRules u (u.lower email))) := by
  cases c with
  | list => cases h
  | create p =>
    cases h
    exact (post_acts (k := .password) (R := passwordRules u (u.lower p.email)) rfl).map _
  | get email =>
    cases h
    exact (get_acts (k := .password) (R := passwordRules u (u.lower email)) (fun _ => rfl) _).map _
  | update email f =>
    cases h
    refine ((updatePassword_acts u email fun p => .ofExcept (f p)).map PasswordReply.done).congr
      fun a => ?_
    rw [Prog.alone_map (updatePassword u email _)]
    rfl
  | delete email =>
    cases h
    exact (delete_acts (k := .password) (R := passwordRules u (u.lower email)) (fun _ => rfl) _).map _

def passwords : Backend u where
  State := Api
  initial := .empty
  step := passwordStep u
  look := look .password
  key := idToName
  rules := passwordRules u
  key_injective := idToName_injective
  look_initial := rfl
  acts := passwordStep_acts u
  lists := fun a => ⟨_, rfl, by
    rw [map_map]
    exact (a.store.tables .password).lists fun _ v => toStorage .password v.1⟩
  plain := fun email m x hlower hx hm => plain
    (fun p hp => by subst hp; simp [passwordRules, hlower])
    (fun p hp => if_neg (by simp [hp]))
    (fun old new hold hnew => by subst hnew; simp [passwordRules, hold, hlower]) hx hm

end Kubernetes

/-! ## One table for all -/

section
variable {u : CaseTable}

abbrev ByEmail := String → Option Dex.Password

def ByEmail.next (u : CaseTable) (x : ByEmail) (c : PasswordCall) : ByEmail :=
  match c.addressed with
  | some (email, m) => update x (u.lower email) (m.slot {} (x (u.lower email))).2
  | none => x

def ByEmail.Answers (u : CaseTable) (x : ByEmail) (c : PasswordCall) (r : PasswordReply) : Prop :=
  match c.addressed with
  | some (email, m) => r = (m.slot {} (x (u.lower email))).1
  | none => ∃ values, r = .listed (.ok values) ∧ Lists x values

/-- The passwords have the email they stand under, in lower case. -/
def ByEmail.Proper (u : CaseTable) (x : ByEmail) : Prop :=
  ∀ email p, x email = some p → p.email = email ∧ u.lower email = email

theorem PasswordReply.Same.refl (r : PasswordReply) (h : ∀ e, r ≠ .listed (.error e)) : r.Same r := by
  cases r with
  | done r => exact .done r
  | found r => exact .found r
  | listed r =>
    cases r with
    | ok l => exact .listed (.refl l)
    | error e => exact absurd rfl (h e)

theorem Method.reply_ne_listed (m : Method Dex.Password) (r : m.Res)
    (l : Except Error (List Dex.Password)) : m.reply r ≠ .listed l := by
  cases m <;> exact nofun

theorem ByEmail.Answers.same {x : ByEmail} {r r'} (h : x.Answers u c r) (h' : x.Answers u c r') : r.Same r' := by
  unfold Answers at h h'
  cases hc : c.addressed with
  | some a =>
    rw [hc] at h h'
    subst h h'
    exact .refl _ fun e => Method.reply_ne_listed _ _ _
  | none =>
    rw [hc] at h h'
    obtain ⟨values, rfl, hl⟩ := h
    obtain ⟨values', rfl, hl'⟩ := h'
    exact .listed (hl.perm hl')

theorem Regular.email_of_slot {email x} (hm : Regular email x m)
    (hx : ∀ p ∈ x, p.email = email) : ∀ p ∈ (m.slot {} x).2, p.email = email := by
  cases m with
  | create o =>
    cases x with
    | none =>
      intro p hp
      cases hp
      exact hm
    | some old => exact hx
  | get => exact hx
  | update f =>
    obtain ⟨hsome, hf⟩ := hm
    obtain ⟨old, rfl⟩ := Option.isSome_iff_exists.mp hsome
    simp only [Method.slot, apply, Option.some_or, found, Prod.map_snd, id]
    cases hnew : f old with
    | ok new =>
      intro p hp
      cases hp
      exact (hf old new hnew).trans (hx old rfl)
    | error | panic => exact hx
  | delete =>
    cases x with
    | none => exact hx
    | some old =>
      intro p hp
      cases hp

theorem ByEmail.Proper.next {x : ByEmail} (hx : x.Proper u)
    (hc : ∀ email m, c.addressed = some (email, m) → Regular (u.lower email) (x (u.lower email)) m) :
    (x.next u c).Proper u := by
  unfold ByEmail.next
  split
  · rename_i email m hm
    intro e p hp
    by_cases he : e = u.lower email
    · subst he
      rw [update_self] at hp
      exact ⟨(hc email m hm).email_of_slot (fun p hp => (hx _ p hp).1) p hp, u.lower_lower email⟩
    · rw [update_of_ne he] at hp
      exact hx e p hp
  · exact hx

/-- A storage follows the table, call by call. -/
theorem Backend.simulates (B : Backend u) {x : ByEmail} {s} (hs : Filed B.key x (B.look s)) (hx : x.Proper u)
    (hc : ∀ email m, c.addressed = some (email, m) → Regular (u.lower email) (x (u.lower email)) m) :
    x.Answers u c (B.step c s).1 ∧ Filed B.key (x.next u c) (B.look (B.step c s).2) := by
  unfold ByEmail.Answers ByEmail.next
  split
  · rename_i email m hm
    have hplain : m.slot (B.rules (u.lower email)) (x (u.lower email)) = m.slot {} (x (u.lower email)) := by
      rw [Method.slot, B.plain _ m _ (u.lower_lower email) (fun p hp => (hx _ p hp).1) (hc _ m hm),
        Method.slot]
    have hacts := hs.acts B.key_injective (B.acts c email m hm)
    rw [hplain] at hacts
    exact hacts
  · rename_i hm
    obtain rfl : c = .list := by
      cases c <;> first | rfl | cases hm
    obtain ⟨values, hstep, hl⟩ := B.lists s
    rw [hstep]
    exact ⟨⟨values, rfl, hs.lists B.key_injective hl⟩, hs⟩

def Backend.replies (B : Backend u) : List PasswordCall → B.State → List PasswordReply
  | [], _ => []
  | c :: cs, s => (B.step c s).1 :: B.replies cs (B.step c s).2

end

def PasswordCall.KeepsEmail : PasswordCall → Prop
  | .update _ updater => ∀ p p', updater p = .ok p' → p'.email = p.email
  | _ => True

/-- What is created has its email in lower case, and what is updated exists. -/
def PasswordCall.Usual (u : CaseTable) (t : Table String Dex.Password) : PasswordCall → Prop
  | .create p => u.lower p.email = p.email
  | .update email _ => (t.lookup (u.lower email)).isSome
  | _ => True

/-- All calls are usual where they are made, by what the memory storage holds then. -/
def UsualCalls (u : CaseTable) : List PasswordCall → Table String Dex.Password → Prop
  | [], _ => True
  | c :: cs, t => c.Usual u t ∧ UsualCalls u cs (Memory.passwordStep u c t).2

inductive Storage where
  | memory
  | sql
  | etcd
  | kubernetes

def Storage.passwords (u : CaseTable) : Storage → Backend u
  | .memory => Memory.passwords u
  | .sql => Sql.passwords u
  | .etcd => Etcd.passwords u
  | .kubernetes => Kubernetes.passwords u

def Storage.replies (u : CaseTable) (b : Storage) (calls : List PasswordCall) : List PasswordReply :=
  (b.passwords u).replies calls (b.passwords u).initial

section
variable {u : CaseTable}

theorem PasswordCall.regular {x : ByEmail} {t}
    (ht : ∀ email, t.lookup email = x email) (hk : c.KeepsEmail) (hu : c.Usual u t) {email}
    (hm : c.addressed = some (email, m)) : Regular (u.lower email) (x (u.lower email)) m := by
  cases c with
  | list => cases hm
  | create p =>
    cases hm
    exact hu.symm
  | get email =>
    cases hm
    trivial
  | delete email =>
    cases hm
    trivial
  | update email f =>
    cases hm
    exact ⟨ht (u.lower email) ▸ hu, fun p p' hp => hk p p' (Outcome.ofExcept_eq_ok.mp hp)⟩

theorem replies_same (A B : Backend u) (calls : List PasswordCall) :
    ∀ (x : ByEmail) (s : A.State) (s' : B.State) (t : Table String Dex.Password),
      Filed A.key x (A.look s) → Filed B.key x (B.look s') → Filed id x t.lookup → x.Proper u →
      (∀ c ∈ calls, c.KeepsEmail) → UsualCalls u calls t →
      List.Forall₂ PasswordReply.Same (A.replies calls s) (B.replies calls s') := by
  induction calls with
  | nil =>
    intros
    exact .nil
  | cons c cs ih =>
    intro x s s' t hs hs' ht hx hk ⟨hu, hcs⟩
    obtain ⟨hkc, hk⟩ := forall_mem_cons.mp hk
    have hreg : ∀ email m, c.addressed = some (email, m) → Regular (u.lower email) (x (u.lower email)) m :=
      fun _ _ hm => PasswordCall.regular ht.entry hkc hu hm
    have hA := A.simulates hs hx hreg
    have hB := B.simulates hs' hx hreg
    have hM := (Memory.passwords u).simulates ht hx hreg
    exact .cons (hA.1.same hB.1) (ih _ _ _ _ hA.2 hB.2 hM.2 (hx.next hreg) hk hcs)

end

/-- Whatever passwords are created, fetched, updated, deleted and listed, any two of
the storages reply the same, if all emails are created in lower case and only
existing passwords are updated. -/
theorem passwords_agree (u : CaseTable) (calls : List PasswordCall)
    (hk : ∀ c ∈ calls, c.KeepsEmail) (hu : UsualCalls u calls ∅) (b b' : Storage) :
    List.Forall₂ PasswordReply.Same (b.replies u calls) (b'.replies u calls) := by
  have hinit : ∀ B : Backend u, Filed B.key (fun _ => none) (B.look B.initial) := by
    intro B
    rw [B.look_initial]
    exact .empty _
  exact replies_same _ _ calls _ _ _ ∅ (hinit _) (hinit _) (.empty _) nofun hk hu

/-! ## Calls that the storages agree on, and others -/

instance (u : CaseTable) (t : Table String Dex.Password) :
    (c : PasswordCall) → Decidable (c.Usual u t)
  | .create p => inferInstanceAs (Decidable (u.lower p.email = p.email))
  | .update email _ => inferInstanceAs (Decidable ((t.lookup (u.lower email)).isSome = true))
  | .get _ => .isTrue trivial
  | .delete _ => .isTrue trivial
  | .list => .isTrue trivial

instance UsualCalls.decidable (u : CaseTable) :
    (calls : List PasswordCall) → (t : Table String Dex.Password) → Decidable (UsualCalls u calls t)
  | [], _ => .isTrue trivial
  | c :: cs, t =>
    have := UsualCalls.decidable u cs (Memory.passwordStep u c t).2
    inferInstanceAs (Decidable (c.Usual u t ∧ _))

def alice : Dex.Password := ⟨"alice@example.com", [1], "alice", "1"⟩

def rehash (p : Dex.Password) : Except Error Dex.Password := .ok { p with hash := [2] }

def aliceCalls : List PasswordCall :=
  [.create alice, .get "ALICE@example.com", .update "Alice@example.com" rehash, .list,
    .delete "alice@EXAMPLE.com", .get "alice@example.com"]

/-- Whether a call succeeded, and the email of what it found. -/
def PasswordReply.gist : PasswordReply → Bool × Option String
  | .done (.ok ()) => (true, none)
  | .found (.ok p) => (true, some p.email)
  | .listed (.ok _) => (true, none)
  | _ => (false, none)

theorem PasswordReply.Same.gist {r r' : PasswordReply} (h : r.Same r') : r.gist = r'.gist := by
  cases h <;> rfl

theorem gists_of_same {l l' : List PasswordReply} (h : List.Forall₂ PasswordReply.Same l l') :
    l.map PasswordReply.gist = l'.map PasswordReply.gist := by
  induction h with
  | nil => rfl
  | cons h _ ih => rw [map_cons, map_cons, h.gist, ih]

/-- The case of an email in a call does not matter once the password is there. -/
theorem passwords_agree_on_alice :
    (∀ b b' : Storage, List.Forall₂ PasswordReply.Same (b.replies asciiCase aliceCalls)
      (b'.replies asciiCase aliceCalls)) ∧ (Storage.etcd.replies asciiCase aliceCalls).map PasswordReply.gist =
      [(true, none), (true, some "alice@example.com"), (true, none), (true, none), (true, none),
        (false, none)] := by
  refine ⟨passwords_agree asciiCase aliceCalls ?_ (by decide +kernel), by decide +kernel⟩
  intro c hc
  simp only [aliceCalls, mem_cons, not_mem_nil, or_false] at hc
  rcases hc with rfl | rfl | rfl | rfl | rfl | rfl
  case inr.inr.inl => exact fun p p' h => by cases h; rfl
  all_goals trivial

/-- The email comes back as it was written, or in lower case. An update of what is
not there fails, or creates it. -/
theorem passwords_differ : ¬ List.Forall₂ PasswordReply.Same (Storage.memory.replies asciiCase
        [.create { alice with email := "Alice@Example.com" }, .get "alice@example.com"])
      (Storage.sql.replies asciiCase
        [.create { alice with email := "Alice@Example.com" }, .get "alice@example.com"]) ∧
    ¬ List.Forall₂ PasswordReply.Same (Storage.memory.replies asciiCase [.update "alice@example.com" rehash])
      (Storage.etcd.replies asciiCase [.update "alice@example.com" rehash]) := by
  exact ⟨fun h => absurd (gists_of_same h) (by decide +kernel),
    fun h => absurd (gists_of_same h) (by decide +kernel)⟩

end KubeYamls.Store
