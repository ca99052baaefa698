import KubeYamls.Data.Slots
import KubeYamls.Store.Etcd
import KubeYamls.Store.Kubernetes

/-! # Calls made one at a time

What the methods of the remote storages come to where no other process makes
requests: each is a function of the one object that its key or name addresses. The
storages follow the same scheme there and differ in four points, which are the
fields of `Rules`. -/
namespace KubeYamls.Store
open Data Conc Prog Option Function
open Dex (Error Outcome CaseTable)

/-! ## One object -/

/-- The methods that a storage has for the objects of a kind. -/
inductive Method (α : Type) where
  | create (o : α)
  | get
  | update (updater : α → Outcome α)
  | delete

@[reducible] def Method.Res {α : Type} : Method α → Type
  | .create _ => Except Error Unit
  | .get => Except Error α
  | .update _ => Outcome Unit
  | .delete => Except Error Unit

structure Rules (α : Type) where
  /-- what is stored of a new object -/
  filed : α → α := id
  /-- the error for an object that is not the one that was meant -/
  wrong : α → Option Error := fun _ => none
  /-- what is stored of an updated object, given the one before -/
  kept : α → α → α := fun _ new => new
  /-- what an updater is called on where there is no object -/
  absent : Option α := none

namespace Rules
variable {α : Type} (R : Rules α)

def found : Option α → Except Error α
  | none => .error .notFound
  | some o =>
    match R.wrong o with
    | some e => .error e
    | none => .ok o

def apply : (m : Method α) → Option α → m.Res × Option α
  | .create o, none => (.ok (), some (R.filed o))
  | .create _, some old => (.error .alreadyExists, some old)
  | .get, x => (R.found x, x)
  | .update updater, x =>
    match R.found (x.or R.absent) with
    | .error e => (.error e, x)
    | .ok old =>
      match updater old with
      | .ok new => (.ok (), some (R.kept old new))
      | .error e => (.error e, x)
      | .panic => (.panic, x)
  | .delete, x =>
    match R.found x with
    | .error e => (.error e, x)
    | .ok _ => (.ok (), none)

theorem apply_create {R Q : Rules α} {a b} (h : R.filed a = Q.filed b) :
    R.apply (.create a) = Q.apply (.create b) := by
  funext x
  cases x <;> simp [apply, h]

end Rules

/-! ## The memory storage -/

namespace Memory
variable {κ α : Type} [DecidableEq κ]

def method (key : κ) : (m : Method α) → Table κ α → m.Res × Table κ α
  | .create o, t => Dex.create key o t
  | .get, t => (Dex.get key t, t)
  | .update updater, t => ((Dex.update key updater t).1.map fun _ => (), (Dex.update key updater t).2)
  | .delete, t => Dex.delete key t

theorem method_acts (key : κ) (m : Method α) :
    ActsOn (fun t : Table κ α => t.lookup) (method key m) key (({} : Rules α).apply m) := by
  intro t
  cases m with
  | create o =>
    cases hl : t.lookup key with
    | none => simp [method, Dex.create, hl, Rules.apply, Table.lookup_insert_eq_update]
    | some old =>
      simp only [method, Dex.create, hl, Rules.apply]
      exact ⟨trivial, eq_update_self_iff.mpr hl⟩
  | get =>
    refine ⟨?_, (update_eq_self _ _).symm⟩
    cases hl : t.lookup key <;> simp [method, Dex.get, hl, Rules.apply, Rules.found]
  | update f =>
    cases hl : t.lookup key with
    | none =>
      simp only [method, Dex.update, hl, Rules.apply, Rules.found, or_none]
      exact ⟨rfl, eq_update_self_iff.mpr hl⟩
    | some old =>
      simp only [method, Dex.update, hl, Rules.apply, Rules.found, or_none]
      cases hf : f old with
      | ok new => exact ⟨rfl, Table.lookup_insert_eq_update key new t⟩
      | error | panic => exact ⟨rfl, eq_update_self_iff.mpr hl⟩
  | delete =>
    cases hl : t.lookup key with
    | none =>
      simp only [method, Dex.delete, hl, Rules.apply, Rules.found]
      exact ⟨trivial, eq_update_self_iff.mpr hl⟩
    | some old => simp [method, Dex.delete, hl, Rules.apply, Rules.found, Table.lookup_erase_eq_update]

end Memory

/-! ## etcd -/

namespace Etcd

def method (k : Kind) (key : String) : (m : Method (Obj k)) → Conn nothing m.Res
  | .create o => txnCreate k key (fromStorage k o)
  | .get => getKey k key
  | .update updater => do return (← updateKey k key updater).map fun _ => ()
  | .delete => deleteKey k key

/-- Updaters are called on the zero value where there is no object. -/
def rules (k : Kind) : Rules (Obj k) where
  absent := some (toStorage k (zero k))

/-- What the updater of an etcd update is called on. -/
def subject (k : Kind) (key : String) (db : Db) : Obj k :=
  toStorage k (((db.lookup k key).map Prod.fst).getD (zero k))

/-- What an etcd update returns and leaves. -/
def updated (k : Kind) (key : String) (f : Obj k → Outcome (Obj k)) (db : Db) :
    Outcome (Obj k) × Db :=
  match f (subject k key db) with
  | .ok new => (.ok (subject k key db), db.write k key (fromStorage k new))
  | .error e => (.error e, db)
  | .panic => (.panic, db)

theorem updateKey_alone (k : Kind) (key : String) (f : Obj k → Outcome (Obj k)) (db : Db)
    (notes : List Note) : (updateKey k key f).alone respond (db, notes) =
      ((updated k key f db).1, (updated k key f db).2, .updater k key :: .update k key :: notes) := by
  have hholds :
      Db.holds db k key (.modRevision (((db.lookup k key).map Prod.snd).getD 0)) = true := by
    simp [Db.holds, Db.modRevision]
  unfold updateKey txnUpdate
  rw [alone_note, alone_bind, alone_request]
  dsimp only [Db.serve]
  rw [alone_bind, alone_note]
  simp only [alone_pure]
  unfold updated subject
  cases hf : f (toStorage k (((db.lookup k key).map Prod.fst).getD (zero k))) with
  | ok new =>
    dsimp only [Outcome.map]
    rw [alone_request, Db.serve_txn hholds]
    rfl
  | error | panic => rfl

/-- The objects of a kind as a process alone finds them. -/
abbrev look (k : Kind) (s : Db × List Note) : String → Option (Obj k) := objects toStorage s.1 k

theorem look_write (k : Kind) (key : String) (v : Doc k) (db : Db) (notes : List Note) :
    look k (db.write k key v, notes) = update (look k (db, notes)) key (some (toStorage k v)) := by
  simp [look, objects_write, Objects.set]

theorem look_remove (k : Kind) (key : String) (db : Db) (notes : List Note) :
    look k (db.remove k key, notes) = update (look k (db, notes)) key none := by
  simp [look, objects_remove, Objects.set]

section
variable {k : Kind} {key : String} {db : Db}

theorem look_none (h : db.lookup k key = none) (notes : List Note) : look k (db, notes) key = none := by
  simp [look, objects, h]

theorem look_some {kv} (h : db.lookup k key = some kv) (notes : List Note) :
    look k (db, notes) key = some (toStorage k kv.1) := by
  simp [look, objects, h]

end

theorem method_acts (k : Kind) (key : String) (m : Method (Obj k)) :
    ActsOn (look k) ((method k key m).alone respond) key ((rules k).apply m) := by
  intro ⟨db, notes⟩
  cases m with
  | create o =>
    unfold method txnCreate
    rw [alone_request]
    cases hl : db.lookup k key with
    | none =>
      have hx := look_none hl notes
      rw [Db.serve_txn (by simp [Db.holds, hl]), hx]
      refine ⟨rfl, (look_write _ _ _ _ _).trans ?_⟩
      rw [toStorage_fromStorage]
      rfl
    | some kv =>
      have hx := look_some hl notes
      rw [Db.serve_txn_not (by simp [Db.holds, hl]), hx]
      exact ⟨rfl, eq_update_self_iff.mpr hx⟩
  | get =>
    unfold method getKey
    rw [alone_request]
    dsimp only [Db.serve]
    cases hl : db.lookup k key with
    | none =>
      have hx := look_none hl notes
      rw [hx]
      exact ⟨rfl, eq_update_self_iff.mpr hx⟩
    | some kv =>
      have hx := look_some hl notes
      rw [hx]
      exact ⟨rfl, eq_update_self_iff.mpr hx⟩
  | update f =>
    have hx : (rules k).found ((look k (db, notes) key).or (rules k).absent) = .ok (subject k key db) := by
      cases hl : db.lookup k key <;> simp [look, objects, hl, subject, rules, Rules.found]
    unfold method
    rw [alone_bind, updateKey_alone, alone_pure]
    simp only [Rules.apply, hx]
    unfold updated
    cases hf : f (subject k key db) with
    | ok new => exact ⟨rfl, (look_write _ _ _ _ _).trans (by rw [toStorage_fromStorage]; rfl)⟩
    | error | panic => exact ⟨rfl, (update_eq_self _ _).symm⟩
  | delete =>
    unfold method deleteKey
    rw [alone_request]
    cases hl : db.lookup k key with
    | none =>
      have hx := look_none hl notes
      rw [Db.serve_delete_none hl, hx]
      exact ⟨rfl, eq_update_self_iff.mpr hx⟩
    | some kv =>
      have hx := look_some hl notes
      rw [Db.serve_delete hl, hx]
      exact ⟨rfl, look_remove _ _ _ _⟩

end Etcd

/-! ## Kubernetes -/

namespace Kubernetes

/-- The objects of a kind as a process alone finds them. -/
abbrev look (k : Kind) (a : Api) : String → Option (Obj k) := objects toStorage a.store k

section
variable {k : Kind} {name : String}

theorem look_write (v : Doc k) (a : Api) : look k (a.write k v) =
      update (look k a) (objectMeta k v).name (some (toStorage k v)) := by
  simp [look, Api.write, objects_write, Objects.set]

theorem look_remove (a : Api) : look k (a.remove k name) = update (look k a) name none := by
  simp [look, Api.remove, objects_remove, Objects.set]

theorem post_acts {R : Rules (Obj k)} {v o} (hv : toStorage k v = R.filed o) :
    ActsOn (look k) ((request (.post k v)).alone respond) (objectMeta k v).name (R.apply (.create o)) := by
  intro a
  show (a.serve (.post k v)).1 = _ ∧ look k (a.serve (.post k v)).2 = _
  cases hl : a.store.lookup k (objectMeta k v).name with
  | none =>
    have hx : look k a (objectMeta k v).name = none := by simp [look, objects, hl]
    simp only [Api.serve, hl, hx, Rules.apply, look_write, hv, and_self]
  | some old =>
    have hx : look k a (objectMeta k v).name = some (toStorage k old.1) := by
      simp [look, objects, hl]
    simp only [Api.serve, hl, hx, Rules.apply, true_and]
    rw [← hx, update_eq_self]

variable {R : Rules (Obj k)} {wrong : Doc k → Option Error}

theorem alone_request {α : Type} (q : Request) (f : Except Error (Reply q) → Conn nothing α)
    (a : Api) : (request q >>= f).alone respond a = (f (a.serve q).1).alone respond (a.serve q).2 := rfl

theorem fetch_alone (hw : ∀ v, wrong v = R.wrong (toStorage k v)) (name : String) (a : Api) :
    (∃ e, (fetch k name wrong).alone respond a = (.error e, a) ∧ R.found (look k a name) = .error e) ∨
    ∃ v, (fetch k name wrong).alone respond a = (.ok (Api.stamp k v), a) ∧
      a.store.lookup k name = some v ∧ (objectMeta k (Api.stamp k v)).name = name ∧
      R.found (look k a name) = .ok (toStorage k v.1) := by
  unfold fetch
  rw [alone_request]
  cases hl : a.store.lookup k name with
  | none =>
    refine .inl ⟨.notFound, ?_, ?_⟩
    · simp only [Api.serve, hl, alone_pure]
    · simp [look, objects, hl, Rules.found]
  | some v =>
    have hwrong : wrong (Api.stamp k v) = R.wrong (toStorage k v.1) := by
      rw [hw, Api.toStorage_stamp]
    have hname : (objectMeta k (Api.stamp k v)).name = name := by
      rw [Api.stamp_name, a.named k name v.1 v.2 hl]
    have hx : look k a name = some (toStorage k v.1) := by simp [look, objects, hl]
    simp only [Api.serve, hl, hwrong, hx, Rules.found]
    cases R.wrong (toStorage k v.1) with
    | some e => exact .inl ⟨e, rfl, rfl⟩
    | none => exact .inr ⟨v, rfl, rfl, hname, rfl⟩

theorem get_acts (hw : ∀ v, wrong v = R.wrong (toStorage k v)) (name : String) :
    ActsOn (look k) ((getObject k (fetch k name wrong)).alone respond) name (R.apply .get) := by
  intro a
  unfold getObject
  rw [alone_bind]
  simp only [Rules.apply, update_eq_self]
  rcases fetch_alone hw name a with ⟨e, hf, hx⟩ | ⟨v, hf, _, _, hx⟩
  · rw [hf, hx]
    exact ⟨rfl, rfl⟩
  · rw [hf, hx]
    exact ⟨congrArg Except.ok (Api.toStorage_stamp k v), rfl⟩

theorem delete_acts (hw : ∀ v, wrong v = R.wrong (toStorage k v)) (name : String) :
    ActsOn (look k) ((deleteFetched k (fetch k name wrong)).alone respond) name (R.apply .delete) := by
  intro a
  unfold deleteFetched
  rw [alone_bind]
  simp only [Rules.apply]
  rcases fetch_alone hw name a with ⟨e, hf, hx⟩ | ⟨v, hf, hl, hname, hx⟩
  · rw [hf, hx]
    exact ⟨rfl, (update_eq_self _ _).symm⟩
  · rw [hf, hx]
    show (a.serve (.delete k (objectMeta k (Api.stamp k v)).name)).1 = _ ∧
      look k (a.serve (.delete k (objectMeta k (Api.stamp k v)).name)).2 = _
    rw [hname]
    simp only [Api.serve, hl, look_remove, and_self]

theorem put_back {a : Api} {v} (hl : a.store.lookup k name = some v) (d : Doc k) :
    a.serve (.put k name (setObjectMeta (objectMeta k (Api.stamp k v)) k d)) =
      (.ok (), a.write k (setObjectMeta (objectMeta k (Api.stamp k v)) k d)) := by
  have hmeta : objectMeta k (Api.stamp k v) = ⟨name, some v.2⟩ := by
    rw [Api.stamp, objectMeta_set, a.named k name v.1 v.2 hl]
  simp only [Api.serve, hl, objectMeta_set, hmeta, and_self, if_true]

theorem update_acts {u : CaseTable} (hw : ∀ v, wrong v = R.wrong (toStorage k v))
    (habsent : R.absent = none) {fix}
    (hfix : ∀ v new, toStorage k (setObjectMeta (objectMeta k v) k (fromStorage u k (fix v new))) =
      R.kept (toStorage k v) new) (name : String) (f : Obj k → Outcome (Obj k)) : ActsOn (look k) ((do
      return (← updateObject u k (fetch k name wrong) (fun v => (objectMeta k v).name) fix f).map
        fun _ => () : Conn nothing (Outcome Unit)).alone respond) name (R.apply (.update f)) := by
  intro a
  unfold updateObject
  rw [alone_bind, alone_bind]
  simp only [Rules.apply, habsent, or_none]
  rcases fetch_alone hw name a with ⟨e, hf, hx⟩ | ⟨v, hf, hl, hname, hx⟩
  · rw [hf, hx]
    exact ⟨rfl, (update_eq_self _ _).symm⟩
  · rw [hf, hx]
    dsimp only
    rw [Api.toStorage_stamp]
    cases hnew : f (toStorage k v.1) with
    | error | panic => exact ⟨rfl, (update_eq_self _ _).symm⟩
    | ok new =>
      dsimp only
      rw [hname, alone_request, put_back hl]
      refine ⟨rfl, (look_write _ a).trans ?_⟩
      rw [objectMeta_set, hname, hfix, Api.toStorage_stamp]

end

end Kubernetes

end KubeYamls.Store
