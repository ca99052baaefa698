import KubeYamls.Store.Sql

/-! # Migrations are applied once

Instances of the server migrate one database concurrently. The invariant is that
the table `migrations` and the schema tell the same; every transaction that
commits a migration takes both one step further. -/
namespace KubeYamls.Store.Sql
open Data Conc Option List Prod
open Dex (Error)

/-! ## The database -/

namespace Db

/-- The numbers in the table `migrations`; none if there is no table. -/
def rows (db : Db) : List Nat := db.migrations.getD []

/-- `max(num)` -/
def maxNum (db : Db) : Nat := db.rows.max?.getD 0

end Db

/-- The schema after the first `k` migrations on an empty database. -/
def schemaAt (k : Nat) : Option Schema := (migrations.take k).foldlM (fun s m => m.run s) ∅

/-- The table holds the numbers 1 to its maximum, each once, and these migrations
are the ones the schema comes from. -/
structure Consistent (db : Db) : Prop where
  rows : db.rows.Perm (range' 1 db.maxNum)
  schema : schemaAt db.maxNum = some db.schema
  bound : db.maxNum ≤ migrations.length

/-- The next migration was run and recorded. -/
structure Advanced (db db' : Db) : Prop where
  run : ∃ m, migrations[db.maxNum]? = some m ∧ m.run db.schema = some db'.schema
  rows : db'.rows = db.rows ++ [db.maxNum + 1]

theorem max_of_perm {l : List Nat} {k} (h : l.Perm (range' 1 k)) : l.max?.getD 0 = k := by
  cases k with
  | zero =>
    rw [range'_zero, perm_nil] at h
    simp [h]
  | succ k =>
    have hmax : l.max? = some (k + 1) := by
      rw [max?_eq_some_iff]
      refine ⟨h.mem_iff.mpr ?_, fun n hn => ?_⟩
      · rw [mem_range'_1]
        omega
      · have := mem_range'_1.mp (h.mem_iff.mp hn)
        omega
    rw [hmax, getD_some]

theorem schemaAt_succ {k m} (h : migrations[k]? = some m) : schemaAt (k + 1) = (schemaAt k).bind m.run := by
  unfold schemaAt
  rw [take_add_one, h, foldlM_append]
  simp

section
variable {db db' : Db}

theorem Advanced.perm (h : Advanced db db') (hc : Consistent db) : db'.rows.Perm (range' 1 (db.maxNum + 1)) := by
  rw [h.rows, range'_1_concat, Nat.add_comm 1]
  exact hc.rows.append_right _

theorem Advanced.maxNum (h : Advanced db db') (hc : Consistent db) : db'.maxNum = db.maxNum + 1 :=
  max_of_perm (h.perm hc)

theorem Advanced.lt (h : Advanced db db') : db.maxNum < migrations.length := by
  obtain ⟨m, hm, _⟩ := h.run
  exact (List.getElem?_eq_some_iff.mp hm).1

theorem Consistent.advanced (hc : Consistent db) (h : Advanced db db') : Consistent db' := by
  have hmax := h.maxNum hc
  obtain ⟨m, hm, hrun⟩ := h.run
  refine ⟨hmax ▸ h.perm hc, ?_, hmax ▸ h.lt⟩
  rw [hmax, schemaAt_succ hm, hc.schema]
  exact hrun

end

/-! ## What one call does -/

theorem execTx_cases {α : Type} (fault : Option Fault) (fn : Db → Except Error (α × Db)) (db : Db) :
    (∃ a, (execTx fault fn db).1 = .ok a ∧ fn db = .ok (a, (execTx fault fn db).2)) ∨
    ∃ e, (execTx fault fn db).1 = .error e ∧
      ((execTx fault fn db).2 = db ∨ ∃ a, fn db = .ok (a, (execTx fault fn db).2)) := by
  unfold execTx
  cases failing fault .begin with
  | some reason => exact .inr ⟨_, rfl, .inl rfl⟩
  | none =>
    cases hf : fn db with
    | error e => exact .inr ⟨_, rfl, .inl rfl⟩
    | ok x =>
      dsimp only
      split
      · rename_i persisted _
        cases persisted with
        | false => exact .inr ⟨_, rfl, .inl rfl⟩
        | true => exact .inr ⟨_, rfl, .inr ⟨_, rfl⟩⟩
      · exact .inl ⟨_, rfl, rfl⟩

theorem selectMax_ok {fault db n} (h : selectMax fault db = .ok n) :
    n = db.maxNum ∧ db.migrations = some db.rows := by
  unfold selectMax at h
  split at h
  · cases h
  · cases h
  · rename_i hrows
    cases h
    simp [Db.maxNum, Db.rows, hrows]

theorem migrateOne_cases {fault db db' done} (h : migrateOne fault db = .ok (done, db')) :
    (done = true ∧ db' = db ∧ migrations.length ≤ db.maxNum) ∨ (done = false ∧ Advanced db db') := by
  unfold migrateOne at h
  cases hn : selectMax fault db with
  | error reason =>
    rw [hn] at h
    cases h
  | ok n =>
    obtain ⟨rfl, hrows⟩ := selectMax_ok hn
    rw [hn] at h
    dsimp only at h
    split at h
    · rename_i hle
      cases h
      exact .inl ⟨rfl, rfl, hle⟩
    · rename_i hlt
      split at h
      · cases h
      · cases h
      · rename_i hrun
        split at h
        · cases h
        · cases h
          refine .inr ⟨rfl, ⟨_, getElem?_eq_getElem (by omega), hrun⟩, ?_⟩
          show (db.migrations.map _).getD [] = _
          rw [hrows, map_some, getD_some]

/-- A transaction says that all is done, or does the next migration, or fails; and
then too it may have done it. -/
theorem exec_execTx (fault : Option Fault) (db : Db) :
    ((exec fault .execTx db).1 = .ok true ∧ (exec fault .execTx db).2 = db ∧ migrations.length ≤ db.maxNum) ∨
    ((exec fault .execTx db).1 = .ok false ∧ Advanced db (exec fault .execTx db).2) ∨
    ∃ e, (exec fault .execTx db).1 = .error e ∧
      ((exec fault .execTx db).2 = db ∨ Advanced db (exec fault .execTx db).2) := by
  rcases execTx_cases fault (migrateOne fault) db with ⟨done, hr, hf⟩ | ⟨e, hr, hf⟩
  · rcases migrateOne_cases hf with ⟨rfl, hdb, hle⟩ | ⟨rfl, ha⟩
    · exact .inl ⟨hr, hdb, hle⟩
    · exact .inr (.inl ⟨hr, ha⟩)
  · refine .inr (.inr ⟨e, hr, ?_⟩)
    rcases hf with hdb | ⟨done, hf⟩
    · exact .inl hdb
    · rcases migrateOne_cases hf with ⟨_, hdb, _⟩ | ⟨_, ha⟩
      · exact .inl hdb
      · exact .inr ha

theorem exec_other (fault : Option Fault) {o} (ho : o ≠ .execTx) (db : Db) :
    (exec fault o db).2.rows = db.rows ∧ (exec fault o db).2.schema = db.schema := by
  have hcreate : ∀ {x : Unit} {db' : Db}, createTable fault db = .ok (x, db') →
      db'.rows = db.rows ∧ db'.schema = db.schema := by
    intro x db' h
    unfold createTable at h
    split at h
    · cases h
    · cases h
      simp [Db.rows]
  cases o with
  | execTx => exact absurd rfl ho
  | finish | outOfFuel => exact ⟨rfl, rfl⟩
  | createTable =>
    rcases execTx_cases fault (createTable fault) db with ⟨_, _, hf⟩ | ⟨_, _, hdb | ⟨_, hf⟩⟩
    · exact hcreate hf
    · show (execTx fault (createTable fault) db).2.rows = _ ∧ _
      rw [hdb]
      exact ⟨rfl, congrArg Db.schema hdb⟩
    · exact hcreate hf

/-! ## Runs -/

/-- The instance and the number of a migration that a call committed. -/
def committed : Entry instances → Option (Nat × Nat)
  | .act tid _ _ _ pre post => if post.maxNum = pre.maxNum then none else some (tid, post.maxNum)
  | _ => none

def log (hist : List (Entry instances)) : List (Nat × Nat) := hist.filterMap committed

section
variable {tid : Nat} {req : Unit} {o : Op} {r : Res o} {pre post : Db}
  {hist : List (Entry instances)}

theorem log_same (h : post.maxNum = pre.maxNum) : log (.act tid req o r pre post :: hist) = log hist :=
  filterMap_cons_none (if_pos h)

theorem log_next (h : post.maxNum = pre.maxNum + 1) :
    log (.act tid req o r pre post :: hist) = (tid, pre.maxNum + 1) :: log hist := by
  refine filterMap_cons_some (b := (tid, pre.maxNum + 1)) ?_
  rw [← h]
  exact if_neg (by omega)

end

/-- What an instance has seen of its transactions. -/
def succeeded : Ev sig → Bool
  | ⟨.execTx, .ok false⟩ => true
  | _ => false

def failed : Ev sig → Bool
  | ⟨.execTx, .error _⟩ => true
  | _ => false

/-- `migrate` returns nil after the transactions it has counted, none of which
failed, and one that found nothing to do. -/
def counting : Contract sig where
  duty past
    | .finish i none => (∀ ev ∈ past, failed ev = false) ∧ past.countP succeeded = i ∧
        (⟨.execTx, .ok true⟩ : Ev sig) ∈ past
    | .outOfFuel => (∀ ev ∈ past, failed ev = false) ∧ past.countP succeeded = migrations.length + 1
    | _ => True
  grant _ _ _ := True

theorem migrateLoop_counting (fuel : Nat) : ∀ (i : Nat) (past : List (Ev sig)),
    (∀ ev ∈ past, failed ev = false) → past.countP succeeded = i →
    fuel + i = migrations.length + 1 → (migrateLoop fuel i).wp counting (fun _ _ => True) past := by
  induction fuel with
  | zero =>
    intro i past hf hc hi
    exact Prog.wp_op (S := sig) ⟨hf, by omega⟩ fun _ _ => trivial
  | succ fuel ih =>
    intro i past hf hc hi
    refine Prog.wp_step (S := sig) trivial fun r _ => ?_
    match r with
    | .error e => exact Prog.wp_op (S := sig) trivial fun _ _ => trivial
    | .ok true =>
      refine Prog.wp_op (S := sig) ⟨?_, ?_, mem_cons_self⟩ fun _ _ => trivial
      · exact forall_mem_cons.mpr ⟨rfl, hf⟩
      · rw [countP_cons_of_neg (by simp [succeeded]), hc]
    | .ok false =>
      refine ih (i + 1) _ (forall_mem_cons.mpr ⟨rfl, hf⟩) ?_ (by omega)
      rw [countP_cons_of_pos rfl, hc]

theorem migrate_counting : migrate.wp counting (fun _ _ => True) [] := by
  refine Prog.wp_step (S := sig) trivial fun r _ => ?_
  match r with
  | .error e => exact Prog.wp_op (S := sig) trivial fun _ _ => trivial
  | .ok () =>
    refine migrateLoop_counting _ 0 _ ?_ ?_ rfl
    · simp [failed]
    · simp [succeeded]

section
variable {fault : Option Fault} {o : Op} {r : Res o} {db db' : Db}

theorem exec_consistent (hx : exec fault o db = (r, db')) (hc : Consistent db) :
    Consistent db' ∧ (db'.maxNum = db.maxNum ∨ db'.maxNum = db.maxNum + 1) := by
  by_cases ho : o = .execTx
  · subst ho
    have hcases := exec_execTx fault db
    rw [hx] at hcases
    rcases hcases with ⟨_, rfl, _⟩ | ⟨_, ha⟩ | ⟨_, _, rfl | ha⟩
    · exact ⟨hc, .inl rfl⟩
    · exact ⟨hc.advanced ha, .inr (ha.maxNum hc)⟩
    · exact ⟨hc, .inl rfl⟩
    · exact ⟨hc.advanced ha, .inr (ha.maxNum hc)⟩
  · obtain ⟨hrows, hschema⟩ := exec_other fault ho db
    rw [hx] at hrows hschema
    have hmax : db'.maxNum = db.maxNum := by rw [Db.maxNum, hrows, Db.maxNum]
    exact ⟨⟨hrows ▸ hmax ▸ hc.rows, hschema ▸ hmax ▸ hc.schema, hmax ▸ hc.bound⟩, .inl hmax⟩

theorem exec_counted (hx : exec fault o db = (r, db')) (hc : Consistent db) (hf : failed ⟨o, r⟩ = false) :
    db'.maxNum = db.maxNum + (if succeeded ⟨o, r⟩ then 1 else 0) := by
  by_cases ho : o = .execTx
  · subst ho
    have hcases := exec_execTx fault db
    rw [hx] at hcases
    rcases hcases with ⟨rfl, rfl, _⟩ | ⟨rfl, ha⟩ | ⟨e, rfl, _⟩
    · rfl
    · exact ha.maxNum hc
    · cases hf
  · have hrows := (exec_other fault ho db).1
    rw [hx] at hrows
    have hs : succeeded ⟨o, r⟩ = false := by
      cases o with
      | execTx => exact absurd rfl ho
      | _ => rfl
    rw [hs, Db.maxNum, hrows]
    rfl

theorem exec_done (hx : exec fault .execTx db = (.ok true, db')) : migrations.length ≤ db'.maxNum := by
  have hcases := exec_execTx fault db
  rw [hx] at hcases
  rcases hcases with ⟨_, rfl, hle⟩ | ⟨hr, _⟩ | ⟨_, hr, _⟩
  · exact hle
  · cases hr
  · cases hr

end

section
variable {n : Nat} {s : Sys instances}

/-- Databases as instances may find them. -/
def Started (n : Nat) (db : Db) : Prop := Consistent db ∧ db.maxNum = n

section
variable (h : Reach (Started n) s)
include h

theorem log_eq : Consistent s.world ∧ (log s.hist).map snd = (range' (n + 1) (s.world.maxNum - n)).reverse ∧
    n ≤ s.world.maxNum := by
  refine Reach.induct' (I := fun s : Sys instances => Consistent s.world ∧
    (log s.hist).map snd = (range' (n + 1) (s.world.maxNum - n)).reverse ∧
    n ≤ s.world.maxNum) ?_ ?_ ?_ ?_ h
  · intro db ⟨hc, hn⟩
    refine ⟨hc, ?_, Nat.le_of_eq hn.symm⟩
    show [] = (range' (n + 1) (db.maxNum - n)).reverse
    rw [hn, Nat.sub_self]
    rfl
  · intro s req _ ih
    exact ih
  · intro s tid req o k fault r db _ ⟨hc, hlog, hn⟩ _ hx
    obtain ⟨hc', hmax⟩ := exec_consistent (some.inj hx) hc
    refine ⟨hc', ?_, ?_⟩
    · show (log (.act tid req o r s.world db :: s.hist)).map snd = (range' (n + 1) (db.maxNum - n)).reverse
      rcases hmax with hmax | hmax
      · rw [log_same hmax, hlog, hmax]
      · have hnext : db.maxNum - n = s.world.maxNum - n + 1 := by omega
        rw [log_next hmax, map_cons, hlog, hnext, range'_1_concat, reverse_append]
        simp only [reverse_singleton, singleton_append, cons.injEq, and_true]
        omega
    · show n ≤ db.maxNum
      omega
  · intro s m
    exact m.elim

theorem own_count (tid : Nat) (hf : ∀ ev ∈ past tid s.hist, failed ev = false) :
    ((log s.hist).map fst).count tid = (past tid s.hist).countP succeeded := by
  refine Reach.induct' (I := fun s : Sys instances =>
    (∀ ev ∈ past tid s.hist, failed ev = false) →
      ((log s.hist).map fst).count tid = (past tid s.hist).countP succeeded) ?_ ?_ ?_ ?_ h hf
  · intro db _ _
    rfl
  · intro s req _ ih hf
    exact ih hf
  · intro s t req o k fault r db hr ih _ hx hf
    have hc := (log_eq hr).1
    have hx := some.inj hx
    simp only [Sys.acted] at hf ⊢
    by_cases ht : t = tid
    · subst ht
      rw [past_act_self] at hf ⊢
      obtain ⟨hf1, hf⟩ := forall_mem_cons.mp hf
      have hnum := exec_counted hx hc hf1
      cases hs : succeeded ⟨o, r⟩ with
      | true =>
        rw [hs, if_pos rfl] at hnum
        rw [log_next hnum, map_cons, count_cons_self, countP_cons_of_pos hs, ih hf]
      | false =>
        rw [hs, if_neg Bool.false_ne_true] at hnum
        rw [log_same hnum, countP_cons_of_neg (by simp [hs]), ih hf]
    · rw [past_act_ne ht] at hf ⊢
      rcases (exec_consistent hx hc).2 with hmax | hmax
      · rw [log_same hmax, ih hf]
      · rw [log_next hmax, map_cons, count_cons_of_ne ht, ih hf]
  · intro s m
    exact m.elim

theorem all_done {tid} (hd : (⟨.execTx, .ok true⟩ : Ev sig) ∈ past tid s.hist) :
    migrations.length ≤ s.world.maxNum := by
  refine Reach.induct' (I := fun s : Sys instances =>
    (⟨.execTx, .ok true⟩ : Ev sig) ∈ past tid s.hist → migrations.length ≤ s.world.maxNum)
    ?_ ?_ ?_ ?_ h hd
  · intro db _ hd
    cases hd
  · intro s req _ ih hd
    exact ih hd
  · intro s t req o k fault r db hr ih _ hx hd
    have hx := some.inj hx
    have hle : s.world.maxNum ≤ db.maxNum := by
      have := (exec_consistent hx (log_eq hr).1).2
      omega
    simp only [Sys.acted] at hd ⊢
    by_cases ht : t = tid
    · subst ht
      rw [past_act_self] at hd
      rcases mem_cons.mp hd with heq | hd
      · cases heq
        exact exec_done hx
      · exact Nat.le_trans (ih hd) hle
    · rw [past_act_ne ht] at hd
      exact Nat.le_trans (ih hd) hle
  · intro s m
    exact m.elim

theorem counted {tid req o k} (hth : s.threads[tid]? = some ⟨req, .act o k⟩) :
    counting.duty (past tid s.hist) o :=
  (h.contract (C := fun _ => counting) (Q := fun _ _ _ => True) (fun _ => migrate_counting)
    (fun _ _ _ _ _ _ _ _ _ _ _ => trivial) tid _ hth).1

/-- No loop goes round more often than there are migrations, and once more. -/
theorem enough_fuel {tid : Nat} {req k} : s.threads[tid]? ≠ some ⟨req, .act .outOfFuel k⟩ := by
  intro hth
  obtain ⟨hf, hcount⟩ := counted h hth
  obtain ⟨hc, hlog, _⟩ := log_eq h
  have hown := own_count h tid hf
  have hle := count_le_length (a := tid) (l := (log s.hist).map fst)
  have hlen := congrArg length hlog
  have hbound := hc.bound
  simp only [length_map, length_reverse, length_range'] at hle hlen
  omega

end

end

/-- Instances find a database with the migrations up to `n` and run concurrently.
At every moment the table and the schema tell of the same migrations, the first
ones up to the maximum; the numbers were committed in order, each once, and the
maximum never decreases. `migrate` does not loop for ever, and when it returns nil
all migrations are recorded and it has itself committed as many as it says. -/
theorem migrated_once (n : Nat) (s : Sys instances) (h : Reach (Started n) s) : Consistent s.world ∧
    (log s.hist).map snd = (range' (n + 1) (s.world.maxNum - n)).reverse ∧
    (∀ (tid : Nat) (req : Unit) (o : Op) (r : Res o) (pre post : Db),
      Entry.act tid req o r pre post ∈ s.hist → pre.maxNum ≤ post.maxNum) ∧
    (∀ (tid : Nat) (req : Unit) (i : Nat) (pre post : Db) (l1 l2 : List (Entry instances)),
      s.hist = l1 ++ .act tid req (.finish i none) () pre post :: l2 →
        migrations.length ≤ pre.maxNum ∧ ((log l2).map fst).count tid = i) ∧
    ∀ (tid : Nat) (req : Unit) (k : Unit → Prog sig Unit), s.threads[tid]? ≠ some ⟨req, .act .outOfFuel k⟩ := by
  obtain ⟨hc, hlog, _⟩ := log_eq h
  refine ⟨hc, hlog, ?_, ?_, fun _ _ _ => enough_fuel h⟩
  · intro tid req o r pre post he
    obtain ⟨l1, l2, hs⟩ := append_of_mem he
    obtain ⟨s0, _, _, hr, _, rfl, _, hx⟩ := h.split_act hs
    have := (exec_consistent (some.inj hx) (log_eq hr).1).2
    omega
  · intro tid req i pre post l1 l2 hs
    obtain ⟨s0, _, _, hr, rfl, rfl, hth, _⟩ := h.split_act hs
    obtain ⟨hf, hcount, hdone⟩ := counted hr hth
    exact ⟨all_done hr hdone, (own_count hr tid hf).trans hcount⟩

/-- Two instances find an empty database. The second one does the second migration
and the third, of which it is told that it failed. -/
@[irreducible] def twoInstances : Sys instances := .after ⟨∅, none⟩ [
  .start (), .start (), .act 0 none, .act 1 none, .act 0 none, .act 1 none,
  .act 1 (some ⟨.commit true, "connection lost"⟩), .act 1 none,
  .act 0 none, .act 0 none, .act 0 none]

theorem empty_started : Started 0 ⟨∅, none⟩ := ⟨⟨.nil, rfl, Nat.zero_le _⟩, rfl⟩

/-- What an instance returned, if that was the last step. -/
def lastFinish : List (Entry instances) → Option (Nat × Nat × Bool)
  | .act tid _ (.finish i err) _ _ _ :: _ => some (tid, i, err.isSome)
  | _ => none

theorem migrated_by_two : Consistent twoInstances.world ∧ twoInstances.world.maxNum = 4 ∧
    log twoInstances.hist = [(0, 4), (1, 3), (1, 2), (0, 1)] ∧
    lastFinish twoInstances.hist = some (0, 2, false) := by
  have hreach : Reach (Started 0) twoInstances := by
    unfold twoInstances
    exact .after empty_started _
  exact ⟨(migrated_once 0 _ hreach).1, by decide +kernel⟩

end KubeYamls.Store.Sql
