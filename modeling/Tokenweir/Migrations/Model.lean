import Mathlib.Data.Finset.Insert
import Tokenweir.Lib.Session
import Tokenweir.Migrations.Package

/-!
# The migration runner

The database as far as the runner knows it, its statements, and its four entry points as programs
over a session.

* `Applied`, `StateTable`, `Data`, `Statement`, `dialect`;
* `advisoryLock`, `ensureStateTable`, `appliedVersions`, `checkApplied`, `pending`, `apply`,
  `status`;
* `Call`, `entryPoint`.
-/

namespace Tokenweir.Migrations

/-! ### The database -/

/-- A row of `schema_migrations`, as far as the runner reads and writes it. -/
structure Applied where
  version : ℤ
  name : Option Text
  checksum : Option Text
  deriving DecidableEq

def nameColumn : Text := Text.of "name"
def checksumColumn : Text := Text.of "checksum"
def appliedAtColumn : Text := Text.of "applied_at"

/-- `schema_migrations`: its columns beside the version, and its rows, which say nothing of a
column that is not there. -/
structure StateTable where
  columns : Finset Text
  rows : List Applied
  versions_nodup : (rows.map Applied.version).Nodup
  name_absent : nameColumn ∉ columns → ∀ row ∈ rows, row.name = none
  checksum_absent : checksumColumn ∉ columns → ∀ row ∈ rows, row.checksum = none

/-- A database: the runner's table, all other objects, and, as history, the migrations whose SQL
has been run, each with the role that it was run for. -/
structure Data (O : Type) where
  table : Option StateTable
  objects : O
  journal : List (Migration × Option Text)

/-- The rows of the runner's table. -/
def Data.rows {O : Type} (d : Data O) : List Applied := d.table.elim [] StateTable.rows

/-- What the runner executes. -/
inductive Statement
  | createTable
  | columns
  | addColumn (column : Text)
  | setDefault
  | versions
  | setRole (role : Text)
  | run (migration : Migration)
  | insert (migration : Migration)

/-- What it fetches. -/
abbrev Rows : Statement → Type
  | .columns => Finset Text
  | .versions => List (ℤ × Option Text)
  | _ => Unit

/-- `SELECT version, checksum … ORDER BY version`. -/
def fetched (rows : List Applied) : List (ℤ × Option Text) :=
  (rows.map fun row => (row.version, row.checksum)).insertionSort fun x y => x.1 ≤ y.1

/-- The table as `CREATE TABLE` makes it. -/
def StateTable.fresh : StateTable where
  columns := {nameColumn, checksumColumn, appliedAtColumn}
  rows := []
  versions_nodup := List.nodup_nil
  name_absent := by simp
  checksum_absent := by simp

/-- `ADD COLUMN IF NOT EXISTS`, with nulls. -/
def StateTable.addColumn (t : StateTable) (column : Text) : StateTable :=
  { t with
    columns := insert column t.columns
    name_absent := fun h => t.name_absent fun hmem => h (Finset.mem_insert_of_mem hmem)
    checksum_absent := fun h => t.checksum_absent fun hmem => h (Finset.mem_insert_of_mem hmem) }

/-- `INSERT`, of a version that is not there, into the columns that have to be. -/
def StateTable.insert (t : StateTable) (row : Applied) : Option StateTable :=
  if h : nameColumn ∈ t.columns ∧ checksumColumn ∈ t.columns ∧
      row.version ∉ t.rows.map Applied.version then
    some { t with
      rows := t.rows ++ [row]
      versions_nodup := by
        rw [List.map_append, List.nodup_append]
        refine ⟨t.versions_nodup, List.nodup_singleton _, ?_⟩
        rintro v hv w hw rfl
        obtain rfl := List.mem_singleton.1 hw
        exact h.2.2 hv
      name_absent := fun hnot => absurd h.1 hnot
      checksum_absent := fun hnot => absurd h.2.1 hnot }
  else none

variable (u : Characters)

/-- The row that the runner records a migration with. -/
def Migration.record (m : Migration) : Applied := ⟨m.version, some m.name, some (m.checksum u)⟩

variable {O : Type} (effect : Option Text → Text → O → Option O)

/-- What the statements mean; `effect` says what the SQL of a migration makes of the objects, for
a reader role. -/
def meaning : (s : Statement) → Option Text → Data O →
    Option (Rows s × Option Text × Option (Data O))
  | .createTable, role, d =>
    match d.table with
    | some _ => some ((), role, none)
    | none => some ((), role, some { d with table := some StateTable.fresh })
  | .columns, role, d => some (d.table.elim (∅ : Finset Text) StateTable.columns, role, none)
  | .addColumn column, role, d =>
    match d.table with
    | none => none
    | some t => some ((), role, some { d with table := some (t.addColumn column) })
  | .setDefault, role, d =>
    match d.table with
    | none => none
    | some t => if appliedAtColumn ∈ t.columns then some ((), role, none) else none
  | .versions, role, d =>
    match d.table with
    | none => none
    | some t =>
      if checksumColumn ∈ t.columns then some (fetched t.rows, role, none) else none
  | .setRole role, _, _ => some ((), some role, none)
  | .run m, role, d =>
    match effect role m.sql d.objects with
    | none => none
    | some objects => some ((), role, some { d with objects, journal := d.journal ++ [(m, role)] })
  | .insert m, role, d =>
    match d.table.bind fun t => t.insert (m.record u) with
    | none => none
    | some t => some ((), role, some { d with table := some t })

/-- The server; a transaction begins without a reader role. -/
def dialect : Dialect Statement Rows (Option Text) (Data O) where
  settings := none
  meaning := meaning u effect

/-! ### The runner -/

/-- A program of the runner. -/
abbrev Db (α : Type) := Program (Request Statement) (Answer Rows) Error α

/-- `cursor.execute`, and the fetch of its rows. -/
def execute (s : Statement) : Db (Rows s) := .ask (.statement s) .done

def commit : Db Unit := .ask .commit .done
def rollback : Db Unit := .ask .rollback .done
def acquireLock : Db Unit := .ask .lock .done
def releaseLock : Db Unit := .ask .unlock .done

/-- `_advisory_lock`, around a block. -/
def advisoryLock {α : Type} (enabled : Bool) (block : Db α) : Db α :=
  if enabled then do
    acquireLock
    commit
    block.tryFinally (tryCatch (do releaseLock; commit) fun _ => pure ())
  else block

/-- A column of `_ensure_state_table`'s loop. -/
def ensureColumn (present : Finset Text) (column : Text) : Db Unit :=
  if column ∈ present then pure ()
  else do
    execute (.addColumn column)
    if column = appliedAtColumn then execute .setDefault

/-- `_ensure_state_table`. -/
def ensureStateTable : Db Unit := do
  execute .createTable
  let present ← execute .columns
  ensureColumn present nameColumn
  ensureColumn present checksumColumn
  ensureColumn present appliedAtColumn

/-- `applied_versions`. -/
def appliedVersions (lock : Bool) : Db (List (ℤ × Option Text)) :=
  advisoryLock lock do
    ensureStateTable
    let rows ← execute .versions
    commit
    return rows

/-- The shipped migration of a version. -/
def byVersion (shipped : List Migration) (version : ℤ) : Option Migration :=
  shipped.find? fun m => m.version = version

/-- `_check_applied`. -/
def checkApplied (applied : List (ℤ × Option Text)) (shipped : List Migration) (verify : Bool) :
    Except Error Unit :=
  let unknown := applied.filter fun row => (byVersion shipped row.1).isNone
  if unknown ≠ [] then
    .error (.unknownApplied (unknown.map Prod.fst) ((shipped.map Migration.version).foldl max 0))
  else if verify then
    let changed := applied.filterMap fun row => do
      let checksum ← row.2
      let m ← byVersion shipped row.1
      if checksum ≠ m.checksum u then some (m.filename) else none
    if changed ≠ [] then .error (.checksum changed) else .ok ()
  else .ok ()

/-- The shipped migrations whose version is not recorded. -/
def notApplied (shipped : List Migration) (applied : List (ℤ × Option Text)) : List Migration :=
  shipped.filter fun m => m.version ∉ applied.map Prod.fst

variable (files : List (Text × Text))

/-- `pending`. -/
def pending (verify lock : Bool) : Db (List Migration) := do
  let shipped ← Program.ofExcept (discover u files)
  let applied ← appliedVersions lock
  Program.ofExcept (checkApplied u applied shipped verify)
  return notApplied shipped applied

/-- The options of `apply`. -/
structure Options where
  readerRole : Option Text
  allowDestructive : Bool
  advisoryLock : Bool
  verifyChecksums : Bool

/-- The destructive statements of some migrations. -/
def offenders (outstanding : List Migration) : List (Text × List Text) :=
  (outstanding.map fun m => (m.filename, destructiveStatements u m.sql)).filter (·.2 ≠ [])

/-- One migration with its row, in a transaction of its own. -/
def runAndRecord (readerRole : Option Text) (m : Migration) : Db Unit := do
  if let some role := readerRole then execute (.setRole role)
  execute (.run m)
  execute (.insert m)
  commit

/-- A round of the loop of `apply`. -/
def applyOne (readerRole : Option Text) (m : Migration) : Db Unit :=
  tryCatch (runAndRecord readerRole m) fun e => do
    rollback
    throw e

/-- The loop of `apply`. -/
def applyAll (readerRole : Option Text) : List Migration → Db Unit
  | [] => pure ()
  | m :: ms => do
    applyOne readerRole m
    applyAll readerRole ms

/-- `apply`, on a connection that is in autocommit mode or not. -/
def apply (autocommit : Bool) (o : Options) : Db (List Migration) :=
  if autocommit then throw .autocommit
  else advisoryLock o.advisoryLock do
    let outstanding ← pending u files o.verifyChecksums false
    if outstanding = [] then return []
    if !o.allowDestructive && offenders u outstanding ≠ [] then
      throw (.destructive (offenders u outstanding))
    applyAll o.readerRole outstanding
    return outstanding

/-- `status`. -/
def status (verify lock : Bool) : Db (List Migration × List Migration) := do
  let shipped ← Program.ofExcept (discover u files)
  let known ← appliedVersions lock
  Program.ofExcept (checkApplied u known shipped verify)
  return (known.filterMap fun row => byVersion shipped row.1, notApplied shipped known)

/-- A call of an entry point. -/
inductive Call
  | apply (o : Options)
  | pending (verify lock : Bool)
  | status (verify lock : Bool)
  | appliedVersions (lock : Bool)

/-- Whether it takes the lock. -/
def Call.lock : Call → Bool
  | .apply o => o.advisoryLock
  | .pending _ lock | .status _ lock | .appliedVersions lock => lock

/-- The program of a call on a session. -/
def entryPoint (c : Call) (session : Session (Option Text) (Data O)) : Db Unit :=
  match c with
  | .apply o => do let _ ← apply u files session.autocommit o
  | .pending verify lock => do let _ ← pending u files verify lock
  | .status verify lock => do let _ ← status u files verify lock
  | .appliedVersions lock => do let _ ← appliedVersions lock

end Tokenweir.Migrations
