import KubeYamls.Conc.Machine
import KubeYamls.Dex.Storage
import KubeYamls.Dex.Text

/-! # The SQL storage

`migrate.go`, `ExecTx` of `sql.go` and the methods of `crud.go` for passwords, in
`dex/storage/sql`. A transaction is serializable, so it reads and changes the
database at one moment; it can fail at any of its statements or at its commit, and
a commit can take effect although an error is reported. The methods for passwords
are modelled without failures of the database, on the rows of their table. -/
namespace KubeYamls.Store.Sql
open Data Conc
open Dex (Error CaseTable)

/-! ## Schemas -/

inductive ColumnType where
  | text
  | bytea
  | boolean
  | timestamptz
  deriving DecidableEq

structure Column where
  name : String
  type : ColumnType
  notNull : Bool := true
  default : Option String := none
  deriving DecidableEq

structure Relation where
  columns : List Column
  primaryKey : List String
  deriving DecidableEq

/-- The tables by name, `migrations` apart. -/
abbrev Schema := Table String Relation

inductive Statement where
  | createTable (name : String) (columns : List Column) (primaryKey : List String)
  | addColumn (table : String) (column : Column)

/-- A statement on a schema, `none` where the database refuses it. -/
def Statement.run : Statement → Schema → Option Schema
  | .createTable name columns primaryKey, s =>
    if (s.lookup name).isSome then none else some (s.insert name ⟨columns, primaryKey⟩)
  | .addColumn table column, s =>
    match s.lookup table with
    | none => none
    | some r =>
      if column.name ∈ r.columns.map Column.name then none
      else some (s.insert table { r with columns := r.columns ++ [column] })

structure Migration where
  stmt : List Statement

def Migration.run (m : Migration) (s : Schema) : Option Schema :=
  m.stmt.foldlM (fun s stmt => stmt.run s) s

def text (name : String) : Column := ⟨name, .text, true, none⟩

def bytea (name : String) : Column := ⟨name, .bytea, true, none⟩

def boolean (name : String) : Column := ⟨name, .boolean, true, none⟩

def timestamptz (name : String) : Column := ⟨name, .timestamptz, true, none⟩

def Column.nullable (c : Column) : Column := { c with notNull := false }

def Column.orElse (c : Column) (default : String) : Column := { c with default := some default }

/-- The columns for claims and connector that three tables have. -/
def claimsColumns : List Column :=
  [text "claims_user_id", text "claims_username", text "claims_email",
   boolean "claims_email_verified", bytea "claims_groups",
   text "connector_id", (bytea "connector_data").nullable]

def migrations : List Migration := [
  ⟨[.createTable "client"
      [text "id", text "secret", bytea "redirect_uris", bytea "trusted_peers", boolean "public",
       text "name", text "logo_url"] ["id"],
    .createTable "auth_request"
      ([text "id", text "client_id", bytea "response_types", bytea "scopes", text "redirect_uri",
        text "nonce", text "state", boolean "force_approval_prompt", boolean "logged_in"] ++
       claimsColumns ++ [timestamptz "expiry"]) ["id"],
    .createTable "auth_code"
      ([text "id", text "client_id", bytea "scopes", text "nonce", text "redirect_uri"] ++
       claimsColumns ++ [timestamptz "expiry"]) ["id"],
    .createTable "refresh_token"
      ([text "id", text "client_id", bytea "scopes", text "nonce"] ++ claimsColumns) ["id"],
    .createTable "password"
      [text "email", bytea "hash", text "username", text "user_id"] ["email"],
    .createTable "keys"
      [text "id", bytea "verification_keys", bytea "signing_key", bytea "signing_key_pub",
       timestamptz "next_rotation"] ["id"]]⟩,
  ⟨[.addColumn "refresh_token" ((text "token").orElse ""),
    .addColumn "refresh_token" ((timestamptz "created_at").orElse "0001-01-01 00:00:00 UTC"),
    .addColumn "refresh_token" ((timestamptz "last_used").orElse "0001-01-01 00:00:00 UTC")]⟩,
  ⟨[.createTable "offline_session"
      [text "user_id", text "conn_id", bytea "refresh"] ["user_id", "conn_id"]]⟩,
  ⟨[.createTable "connector"
      [text "id", text "type", text "name", text "resource_version", (bytea "config").nullable]
      ["id"]]⟩]

/-! ## Transactions -/

/-- The committed database: the schema, and the numbers in the table `migrations`
if it exists. -/
structure Db where
  schema : Schema
  migrations : Option (List Nat)

/-- Where a transaction can fail. A failed commit may have taken effect. -/
inductive Point where
  | begin
  | select
  | stmt
  | insert
  | commit (persisted : Bool)
  deriving DecidableEq

structure Fault where
  point : Point
  reason : String

def failing (fault : Option Fault) (p : Point) : Option String :=
  fault.bind fun f => if f.point = p then some f.reason else none

/-- `ExecTx`: what `fn` did is committed if it returned nil, and rolled back if not. -/
def execTx {α : Type} (fault : Option Fault) (fn : Db → Except Error (α × Db)) (db : Db) :
    Except Error α × Db :=
  match failing fault .begin with
  | some reason => (.error (.other reason), db)
  | none =>
    match fn db with
    | .error e => (.error e, db)
    | .ok (a, db') =>
      match fault with
      | some ⟨.commit persisted, reason⟩ => (.error (.other reason), if persisted then db' else db)
      | _ => (.ok a, db')

/-- `select max(num) from migrations`, where an invalid `NullInt64` counts as 0. -/
def selectMax (fault : Option Fault) (db : Db) : Except String Nat :=
  match failing fault .select, db.migrations with
  | some reason, _ => .error reason
  | none, none => .error "no such table: migrations"
  | none, some rows => .ok (rows.max?.getD 0)

/-- The transaction of `migrate`: the value of `done`, and what it leaves. -/
def migrateOne (fault : Option Fault) (db : Db) : Except Error (Bool × Db) :=
  match selectMax fault db with
  | .error reason => .error (.other ("select max migration: " ++ reason))
  | .ok n =>
    if h : n ≥ migrations.length then .ok (true, db)
    else
      let migrationNum := n + 1
      let m := migrations[n]
      match failing fault .stmt, m.run db.schema with
      | some reason, _ =>
        .error (.other ("migration " ++ toString migrationNum ++ " failed: " ++ reason))
      | none, none =>
        .error (.other ("migration " ++ toString migrationNum ++ " failed: statement refused"))
      | none, some schema =>
        match failing fault .insert with
        | some reason => .error (.other ("update migration table: " ++ reason))
        | none => .ok (false, ⟨schema, db.migrations.map fun rows => rows ++ [migrationNum]⟩)

/-! ## migrate -/

inductive Op where
  /-- `create table if not exists migrations` -/
  | createTable
  /-- `ExecTx` with the transaction of `migrate` -/
  | execTx
  /-- `migrate` returns -/
  | finish (i : Nat) (err : Option Error)
  /-- the loop goes round more often than it was given fuel for -/
  | outOfFuel

@[reducible] def Res : Op → Type
  | .createTable => Except Error Unit
  | .execTx => Except Error Bool
  | .finish _ _ => Unit
  | .outOfFuel => Unit

abbrev sig : Sig := ⟨Op, Res⟩

/-- The loop of `migrate`, with the migrations performed so far. -/
def migrateLoop : Nat → Nat → Prog sig Unit
  | 0, _ => Prog.op (S := sig) .outOfFuel
  | fuel + 1, i => do
    match ← Prog.op (S := sig) .execTx with
    | .error e => Prog.op (S := sig) (.finish i (some e))
    | .ok done =>
      if done then Prog.op (S := sig) (.finish i none)
      else migrateLoop fuel (i + 1)

def migrate : Prog sig Unit := do
  match ← Prog.op (S := sig) .createTable with
  | .error e =>
    Prog.op (S := sig) (.finish 0 (some (.other ("creating migration table: " ++ e.text))))
  | .ok () => migrateLoop (migrations.length + 1) 0

/-- One statement is a transaction of its own. -/
def createTable (fault : Option Fault) (db : Db) : Except Error (Unit × Db) :=
  match failing fault .stmt with
  | some reason => .error (.other reason)
  | none => .ok ((), { db with migrations := some (db.migrations.getD []) })

def exec (fault : Option Fault) : (o : Op) → Db → Res o × Db
  | .createTable, db => execTx fault (createTable fault) db
  | .execTx, db => execTx fault (migrateOne fault) db
  | .finish _ _, db => ((), db)
  | .outOfFuel, db => ((), db)

/-- Instances that call `migrate`, in any interleaving of their transactions, with
any failures; one that is stopped makes no further calls. -/
abbrev instances : Machine sig where
  World := Db
  Req := Unit
  Ans := Option Fault
  Move := Empty
  main := fun _ => migrate
  exec := fun _ o fault db => some (exec fault o db)
  move := fun m _ => m.elim

/-! ## Passwords -/

/-- The columns besides the primary key `email`. -/
structure PasswordRow where
  hash : List UInt8
  username : String
  userID : String
  deriving DecidableEq

abbrev Passwords := Table String PasswordRow

def scanPassword (email : String) (row : PasswordRow) : Dex.Password :=
  ⟨email, row.hash, row.username, row.userID⟩

section
variable (u : CaseTable)

/-- The insertion fails on the primary key if there is a row already. -/
def createPassword (p : Dex.Password) (t : Passwords) : Except Error Unit × Passwords :=
  let p := { p with email := u.lower p.email }
  match t.lookup p.email with
  | some _ => (.error .alreadyExists, t)
  | none => (.ok (), t.insert p.email ⟨p.hash, p.username, p.userID⟩)

def getPassword (email : String) (t : Passwords) : Except Error Dex.Password :=
  match t.lookup (u.lower email) with
  | none => .error .notFound
  | some row => .ok (scanPassword (u.lower email) row)

def updatePassword (email : String) (updater : Dex.Password → Except Error Dex.Password)
    (t : Passwords) : Except Error Unit × Passwords :=
  match getPassword u email t with
  | .error e => (.error e, t)
  | .ok p =>
    match updater p with
    | .error e => (.error e, t)
    | .ok np =>
      match t.lookup p.email with
      | none => (.ok (), t)
      | some _ => (.ok (), t.insert p.email ⟨np.hash, np.username, np.userID⟩)

def listPasswords (t : Passwords) : List Dex.Password :=
  t.entries.map fun e => scanPassword e.1 e.2

/-- The number of rows affected tells whether there was one. -/
def deletePassword (email : String) (t : Passwords) : Except Error Unit × Passwords :=
  match t.lookup (u.lower email) with
  | some _ => (.ok (), t.erase (u.lower email))
  | none => (.error .notFound, t)

end

end KubeYamls.Store.Sql
