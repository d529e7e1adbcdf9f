import Mathlib.Data.List.AList
import Tokenweir.Lib.Sql

/-!
# A catalog of relations, and statements that define data

The relations of a schema as PostgreSQL has them, with their rows, and the statements that
add to them or take from them, each with the conditions under which the server refuses it.

* `Column`, `Constraint`, `Key`, `Index`, `Relation`, `Database`;
* `Statement`, `exec`, `execute`;
* `alter_eq_some`, `mem_names`, `exec_find_of_ne`.
-/

namespace Tokenweir.Sql

/-! ### Relations -/

/-- `pg_class.relkind`. -/
inductive Kind
  | table
  /-- With the columns, or expressions, that the rows are divided by. -/
  | partitioned (by_ : List Text)
  | view
  | materialized
  | other (relkind : Char)
  deriving DecidableEq

namespace Kind

/-- The letter of a kind. -/
def relkind : Kind → Char
  | table => 'r'
  | partitioned _ => 'p'
  | view => 'v'
  | materialized => 'm'
  | other c => c

/-- The kinds that columns and constraints are added to. -/
def isTable : Kind → Bool
  | table | partitioned _ => true
  | _ => false

/-- The kinds whose rows can be asked for: no index and no composite type. -/
def isReadable : Kind → Bool
  | other c => c ≠ 'i' && c ≠ 'I' && c ≠ 'c'
  | _ => true

theorem isReadable_of_isTable {kind : Kind} (h : kind.isTable = true) : kind.isReadable = true := by
  cases kind with
  | table | partitioned _ => rfl
  | view | materialized | other _ => cases h

end Kind

/-- `pg_attribute.attidentity`. -/
inductive Identity
  | ordinary
  | always
  | byDefault
  deriving DecidableEq

/-- `pg_attribute.attgenerated`. -/
inductive Generated
  | ordinary
  | stored
  | virtual
  deriving DecidableEq

structure Column where
  name : Text
  type : Text
  notNull : Bool
  default : Option Text
  identity : Identity
  generated : Generated
  deriving DecidableEq

/-- Columns, each of a name of its own. -/
abbrev Columns := { columns : List Column // (columns.map Column.name).Nodup }

/-- A constraint other than the primary key; `check` is what a `CHECK` says. -/
structure Constraint where
  name : Text
  definition : Text
  columns : List Text
  check : Option Predicate
  deriving DecidableEq

/-- A primary key, with the foreign keys and views that rest on it. -/
structure Key where
  name : Text
  columns : List Text
  dependents : List Text
  deriving DecidableEq

/-- An index that backs no constraint: its name, the name as it is written, quoted where it
needs quotes, what stands from `USING` on, and the columns that this names. -/
structure Index where
  name : Text
  written : Text
  unique : Bool
  body : Text
  columns : List Text
  deriving DecidableEq

/-- `pg_get_indexdef`, without the name of the schema. -/
def Index.definition (i : Index) (table : Text) (kind : Kind) : Text :=
  Text.of "CREATE " ++ (if i.unique then Text.of "UNIQUE " else []) ++ Text.of "INDEX " ++
    i.written ++ Text.of " ON " ++
    (match kind with
      | .partitioned _ => Text.of "ONLY "
      | _ => []) ++
    table ++ Text.of " " ++ i.body

/-- An object that rests on a relation, through a rewrite rule of another relation or not. -/
structure Dependent where
  name : Text
  viaRewrite : Bool
  deriving DecidableEq

/-- A relation; only tables have keys, and a column that is `NOT NULL` holds no null. -/
structure Relation where
  kind : Kind
  columns : List Column
  key : Option Key
  constraints : List Constraint
  /-- The names of its constraints of further types. -/
  otherConstraints : List Text
  indexes : List Index
  /-- The names of the indexes that back its constraints other than the key. -/
  otherIndexes : List Text
  dependents : List Dependent
  /-- The roles that may select from it. -/
  grantees : List Text
  rows : List Row
  columns_nodup : (columns.map Column.name).Nodup
  key_isTable : key ≠ none → kind.isTable = true
  rows_notNull : ∀ c ∈ columns, c.notNull = true → ∀ row ∈ rows, row c.name ≠ .null

namespace Relation

variable (r : Relation)

/-- The column of this name. -/
def column (name : Text) : Option Column := r.columns.find? fun c => c.name = name

/-- The names that are taken among its constraints. -/
def constraintNames : List Text :=
  r.key.toList.map Key.name ++ r.constraints.map Constraint.name ++ r.otherConstraints

/-- The names that its key and its indexes take in the schema. -/
def names : List Text :=
  r.key.toList.map Key.name ++ r.indexes.map Index.name ++ r.otherIndexes

variable {r}

theorem column_name {n : Text} {c : Column} (h : r.column n = some c) : c.name = n := by
  simpa using List.find?_some h

theorem mem_columns_of_column {n : Text} {c : Column} (h : r.column n = some c) :
    c ∈ r.columns :=
  List.mem_of_find?_eq_some h

theorem column_eq_none {n : Text} : r.column n = none ↔ ∀ c ∈ r.columns, c.name ≠ n := by
  simp [column]

theorem mem_columns {c : Column} : c ∈ r.columns ↔ r.column c.name = some c := by
  refine ⟨fun h => ?_, mem_columns_of_column⟩
  cases hf : r.column c.name with
  | none => exact absurd rfl (column_eq_none.1 hf c h)
  | some d =>
    -- two columns of one name are one column
    exact congrArg some (List.inj_on_of_nodup_map r.columns_nodup (mem_columns_of_column hf) h
      (column_name hf))

/-- Change columns, but neither their names nor, unless no row has a null there, whether they
are `NOT NULL`. -/
def modify (r : Relation) (f : Column → Column) (hname : ∀ c, (f c).name = c.name)
    (hnull : ∀ c ∈ r.columns, (f c).notNull = true → c.notNull = true ∨
      ∀ row ∈ r.rows, row c.name ≠ .null) : Relation :=
  { r with
    columns := r.columns.map f
    columns_nodup := by
      have hnames : Column.name ∘ f = Column.name := funext hname
      rw [List.map_map, hnames]
      exact r.columns_nodup
    rows_notNull := by
      intro d hd hn row hrow
      obtain ⟨c, hc, rfl⟩ := List.mem_map.1 hd
      rw [hname c]
      rcases hnull c hc hn with h | h
      · exact r.rows_notNull c hc h row hrow
      · exact h row hrow }

@[simp] theorem column_modify (f : Column → Column) (hname) (hnull) (n : Text) :
    (r.modify f hname hnull).column n = (r.column n).map f := by
  have hp : ((fun c : Column => decide (c.name = n)) ∘ f) = fun c => decide (c.name = n) :=
    funext fun c => by simp [hname c]
  rw [column, column, modify, List.find?_map, hp]

/-- Make columns without nulls `NOT NULL`. -/
def require (r : Relation) (names : List Text)
    (h : ∀ n ∈ names, ∀ row ∈ r.rows, row n ≠ .null) : Relation :=
  r.modify (fun c => if c.name ∈ names then { c with notNull := true } else c)
    (fun c => by split <;> rfl)
    (fun c _ hn => by
      by_cases hc : c.name ∈ names
      · exact Or.inr (h c.name hc)
      · exact Or.inl (by simpa [hc] using hn))

/-! ### Changes of a relation -/

/-- `ADD COLUMN`. -/
def addColumn (r : Relation) (now : ℤ) (name type : Text) (notNull : Bool)
    (default : Option Expression) : Option Relation :=
  match default.elim (some .null) (Expression.value now) with
  | none => none
  | some v =>
    if h : r.kind.isTable = true ∧ r.column name = none ∧
        (notNull = true → v ≠ .null ∨ r.rows = []) then
      some { r with
        columns := r.columns ++
          [⟨name, type, notNull, default.map Expression.text, .ordinary, .ordinary⟩]
        rows := r.rows.map fun row => Function.update row name v
        columns_nodup := by
          rw [List.map_append, List.nodup_append]
          refine ⟨r.columns_nodup, by simp, ?_⟩
          rintro a ha b hb rfl
          obtain ⟨c, hc, rfl⟩ := List.mem_map.1 ha
          exact column_eq_none.1 h.2.1 c hc (by simpa using hb)
        rows_notNull := by
          intro c hc hn row hrow
          obtain ⟨old, hold, rfl⟩ := List.mem_map.1 hrow
          rcases List.mem_append.1 hc with hc | hc
          · rw [Function.update_of_ne (column_eq_none.1 h.2.1 c hc)]
            exact r.rows_notNull c hc hn old hold
          · obtain rfl := List.mem_singleton.1 hc
            rcases h.2.2 hn with hv | hv
            · simpa using hv
            · simp [hv] at hold }
    else none

/-- `ALTER COLUMN … DROP DEFAULT` and `SET DEFAULT`. -/
def setDefault (r : Relation) (name : Text) (default : Option Text) : Option Relation :=
  match r.column name with
  | none => none
  | some c =>
    if (r.kind.isTable ∨ r.kind = .view) ∧ c.identity = .ordinary ∧ c.generated = .ordinary then
      some (r.modify (fun c => if c.name = name then { c with default } else c)
        (fun c => by split <;> rfl)
        (fun c _ h => Or.inl (by split at h <;> exact h)))
    else none

/-- `ALTER COLUMN … SET NOT NULL`. -/
def setNotNull (r : Relation) (name : Text) : Option Relation :=
  if h : r.kind.isTable = true ∧ r.column name ≠ none ∧
      ∀ n ∈ [name], ∀ row ∈ r.rows, row n ≠ .null then
    some (r.require [name] h.2.2)
  else none

/-- `ADD CONSTRAINT … CHECK`. -/
def addCheck (r : Relation) (constraint : Constraint) : Option Relation :=
  match constraint.check with
  | none => none
  | some p =>
    if r.kind.isTable = true ∧ constraint.name ∉ r.constraintNames ∧
        (∀ c ∈ p.columns, r.column c ≠ none) ∧ ∀ row ∈ r.rows, p.eval row ≠ some false then
      some { r with constraints := r.constraints ++ [constraint] }
    else none

/-- `CREATE INDEX`, on a relation of a kind that takes one. -/
def addIndex (r : Relation) (index : Index) : Option Relation :=
  if (r.kind.isTable ∨ r.kind = .materialized) ∧ ∀ c ∈ index.columns, r.column c ≠ none then
    some { r with indexes := r.indexes ++ [index] }
  else none

/-- The relation without its primary key. -/
def withoutKey (r : Relation) : Relation :=
  { r with key := none, key_isTable := fun h => absurd rfl h }

/-- `DROP CONSTRAINT`, of the primary key. -/
def dropKey (r : Relation) (name : Text) : Option Relation :=
  match r.key with
  | none => none
  | some key =>
    if key.name = name ∧ key.dependents = [] then some r.withoutKey else none

/-- The columns that the rows are divided by are among these. -/
def dividedBy (r : Relation) (columns : List Text) : Bool :=
  match r.kind with
  | .partitioned by_ => by_.all (· ∈ columns)
  | _ => true

/-- `ADD PRIMARY KEY`, which makes its columns `NOT NULL`. -/
def addKey (r : Relation) (name : Text) (columns : List Text) : Option Relation :=
  if h : r.kind.isTable = true ∧ r.key = none ∧ r.dividedBy columns = true ∧
      (∀ c ∈ columns, r.column c ≠ none) ∧ (∀ c ∈ columns, ∀ row ∈ r.rows, row c ≠ .null) ∧
      (r.rows.map fun row => columns.map row).Nodup then
    some { r.require columns h.2.2.2.2.1 with
      key := some ⟨name, columns, []⟩
      key_isTable := fun _ => h.1 }
  else none

end Relation

/-! ### Databases -/

/-- What the operators of a type can do: be grouped by and ordered, have a greatest value that is
compared with a string, be compared with a number; and whether a client gets its values as
strings. -/
structure Traits where
  groups : Bool
  maximum : Bool
  numeric : Bool
  strings : Bool

/-- A schema: its relations by their names, the columns of its indexes by theirs, and the types. -/
structure Database where
  relations : AList fun _ : Text => Relation
  attributes : Text → Columns
  traits : Text → Traits

namespace Database

variable (db : Database)

/-- The relation of this name. -/
def find (name : Text) : Option Relation := db.relations.lookup name

/-- The names that are taken in the schema, by relations, keys and indexes. -/
def names : List Text := db.relations.entries.flatMap fun e => e.1 :: e.2.names

/-- Put a relation under a name. -/
def set (name : Text) (r : Relation) : Database :=
  { db with relations := db.relations.insert name r }

/-- Take a relation away. -/
def erase (name : Text) : Database := { db with relations := db.relations.erase name }

/-- Change the relation of this name. -/
def alter (name : Text) (f : Relation → Option Relation) : Option Database :=
  match db.find name with
  | none => none
  | some r => (f r).map (db.set name)

variable {db}

@[simp] theorem find_set_self (name : Text) (r : Relation) : (db.set name r).find name = some r :=
  AList.lookup_insert _

theorem find_set_of_ne {name other : Text} (h : other ≠ name) (r : Relation) :
    (db.set name r).find other = db.find other :=
  AList.lookup_insert_ne h

theorem find_erase_of_ne {name other : Text} (h : other ≠ name) :
    (db.erase name).find other = db.find other :=
  AList.lookup_erase_ne h

@[simp] theorem find_erase_self (name : Text) : (db.erase name).find name = none :=
  AList.lookup_erase name _

theorem alter_eq_some {db' : Database} {name : Text} {f : Relation → Option Relation} :
    db.alter name f = some db' ↔
      ∃ r r', db.find name = some r ∧ f r = some r' ∧ db' = db.set name r' := by
  rw [alter]
  cases db.find name with
  | none => simp
  | some r => simp [eq_comm]

theorem mem_names {n : Text} :
    n ∈ db.names ↔ ∃ name r, db.find name = some r ∧ (n = name ∨ n ∈ r.names) := by
  rw [names, List.mem_flatMap]
  constructor
  · rintro ⟨⟨name, r⟩, he, hn⟩
    exact ⟨name, r, AList.mem_lookup_iff.2 he, List.mem_cons.1 hn⟩
  · rintro ⟨name, r, hf, hn⟩
    exact ⟨⟨name, r⟩, AList.mem_lookup_iff.1 hf, List.mem_cons.2 hn⟩

/-- In a schema of unique names, the name of a relation is no name of an index. -/
theorem find_not_mem_names (hunique : db.names.Nodup) {name other : Text} {r s : Relation}
    (hr : db.find name = some r) (hs : db.find other = some s) : name ∉ s.names := by
  intro hmem
  rw [names, List.nodup_flatMap] at hunique
  obtain ⟨hone, hpair⟩ := hunique
  have hre := AList.mem_lookup_iff.1 (show r ∈ db.relations.lookup name from hr)
  have hse := AList.mem_lookup_iff.1 (show s ∈ db.relations.lookup other from hs)
  by_cases heq : name = other
  · subst heq
    exact (List.nodup_cons.1 (hone _ hse)).1 hmem
  · have hne : (⟨name, r⟩ : Sigma fun _ : Text => Relation) ≠ ⟨other, s⟩ := fun h =>
      heq (congrArg Sigma.fst h)
    have hsymm : Std.Symm (Function.onFun List.Disjoint
        fun e : Sigma fun _ : Text => Relation => e.1 :: e.2.names) :=
      ⟨fun _ _ h => List.Disjoint.symm h⟩
    have hdisjoint := hpair.forall hre hse hne
    exact hdisjoint List.mem_cons_self (List.mem_cons_of_mem _ hmem)

end Database

/-! ### Statements -/

/-- A view to create: its columns, and the columns it reads of other relations. -/
structure View where
  name : Text
  columns : List Column
  sources : List (Text × List Text)
  columns_nodup : (columns.map Column.name).Nodup
  deriving DecidableEq

/-- The relation that a view is; its rows are computed when it is read. -/
def View.relation (v : View) : Relation where
  kind := .view
  columns := v.columns
  key := none
  constraints := []
  otherConstraints := []
  indexes := []
  otherIndexes := []
  dependents := []
  grantees := []
  rows := []
  columns_nodup := v.columns_nodup
  key_isTable := fun h => absurd rfl h
  rows_notNull := by simp

inductive Statement
  | addColumn (table name type : Text) (notNull : Bool) (default : Option Expression)
  | dropDefault (table column : Text)
  | setDefault (table column default : Text)
  | setNotNull (table column : Text)
  | addCheck (table : Text) (constraint : Constraint)
  | createIndex (table : Text) (index : Index)
  | dropKey (table name : Text)
  | addKey (table : Text) (columns : List Text)
  | dropView (view : Text)
  | createView (view : View)
  deriving DecidableEq

/-- The relation a statement is about. -/
def Statement.target : Statement → Text
  | addColumn table _ _ _ _ | dropDefault table _ | setDefault table _ _ | setNotNull table _
  | addCheck table _ | createIndex table _ | dropKey table _ | addKey table _ => table
  | dropView view => view
  | createView view => view.name

/-- The server: the instant at which the transaction begins, and how a name that nothing has
is made out of one that may be taken. -/
structure Server where
  now : ℤ
  suffix : Text → List Text → Text
  suffix_free : ∀ name taken, name ++ suffix name taken ∉ taken

/-- The name of a new primary key. -/
def Server.keyName (server : Server) (db : Database) (table : Text) (r : Relation) : Text :=
  let name := table ++ Text.of "_pkey"
  name ++ server.suffix name (db.names ++ r.constraintNames)

variable (server : Server)

/-- Execute a statement; nothing if the server refuses it. -/
def exec (db : Database) : Statement → Option Database
  | .addColumn table name type notNull default =>
    db.alter table fun r => r.addColumn server.now name type notNull default
  | .dropDefault table column => db.alter table fun r => r.setDefault column none
  | .setDefault table column default => db.alter table fun r => r.setDefault column (some default)
  | .setNotNull table column => db.alter table fun r => r.setNotNull column
  | .addCheck table constraint => db.alter table fun r => r.addCheck constraint
  | .createIndex table index =>
    if index.name ∈ db.names then none else db.alter table fun r => r.addIndex index
  | .dropKey table name => db.alter table fun r => r.dropKey name
  | .addKey table columns =>
    db.alter table fun r => r.addKey (server.keyName db table r) columns
  | .dropView view =>
    match db.find view with
    | none => none
    | some r => if r.kind = .view ∧ r.dependents = [] then some (db.erase view) else none
  | .createView view =>
    if view.name ∉ db.names ∧ ∀ source ∈ view.sources, ∃ r ∈ db.find source.1,
        ∀ c ∈ source.2, r.column c ≠ none then
      some (db.set view.name view.relation)
    else none

/-- Execute statements in order. -/
def execute (db : Database) (statements : List Statement) : Option Database :=
  statements.foldlM (exec server) db

variable {server} {db db' : Database}

@[simp] theorem execute_nil : execute server db [] = some db := rfl

theorem execute_cons {s : Statement} {ss : List Statement} :
    execute server db (s :: ss) = (exec server db s).bind fun db => execute server db ss := rfl

theorem execute_append {ss ts : List Statement} :
    execute server db (ss ++ ts) = (execute server db ss).bind fun db => execute server db ts :=
  List.foldlM_append

/-- A statement changes no relation but the one it is about. -/
theorem exec_find_of_ne {s : Statement} (h : exec server db s = some db') {name : Text}
    (hne : name ≠ s.target) : db'.find name = db.find name := by
  have halter : ∀ {f : Relation → Option Relation},
      db.alter s.target f = some db' → db'.find name = db.find name := fun h => by
    obtain ⟨r, r', -, -, rfl⟩ := Database.alter_eq_some.1 h
    exact Database.find_set_of_ne hne r'
  cases s with
  | createIndex table index =>
    rw [exec] at h
    split at h
    · cases h
    · exact halter h
  | dropView view =>
    rw [exec] at h
    split at h
    · cases h
    · split at h
      · cases h
        exact Database.find_erase_of_ne hne
      · cases h
  | createView view =>
    rw [exec] at h
    split at h
    · cases h
      exact Database.find_set_of_ne hne _
    · cases h
  | addColumn | dropDefault | setDefault | setNotNull | addCheck | dropKey | addKey =>
    exact halter h

end Tokenweir.Sql
