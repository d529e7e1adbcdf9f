import Tokenweir.Lib.Frame

/-!
# When statements succeed

The conditions under which the server executes statements on one relation, and the relation
they leave.

* `Database.Alters`, databases that differ in one relation at most;
* `Leads`, what statements on one relation lead to, and its rules;
* `exec_addColumn`, `exec_setDefault`, `exec_setNotNull`;
* `execute_fill`, `execute_swapKey`, `execute_createIndexes`, `execute_addChecks`.
-/

namespace Tokenweir.Sql

variable {server : Server} {db db' db'' : Database} {r r' : Relation} {table : Text}

/-! ### Databases that differ in one relation -/

/-- The relations of other names, and the types, are the same. -/
structure Database.Alters (name : Text) (db db' : Database) : Prop where
  others : ∀ n, n ≠ name → db'.find n = db.find n
  traits : db'.traits = db.traits

namespace Database.Alters

theorem refl : Alters table db db := ⟨fun _ _ => rfl, rfl⟩

theorem trans (h : Alters table db db') (h' : Alters table db' db'') : Alters table db db'' where
  others := fun n hn => (h'.others n hn).trans (h.others n hn)
  traits := h'.traits.trans h.traits

theorem set (r : Relation) : Alters table db (db.set table r) :=
  ⟨fun _ hn => Database.find_set_of_ne hn r, rfl⟩

end Database.Alters

/-- The names that are taken, seen from one relation. -/
theorem Database.mem_names_of_find (hr : db.find table = some r) {n : Text} :
    n ∈ db.names ↔ n = table ∨ n ∈ r.names ∨
      ∃ m s, m ≠ table ∧ db.find m = some s ∧ (n = m ∨ n ∈ s.names) := by
  rw [Database.mem_names]
  constructor
  · rintro ⟨m, s, hm, hn⟩
    by_cases hmt : m = table
    · subst hmt
      obtain rfl : s = r := Option.some_injective _ (hm.symm.trans hr)
      exact hn.imp_right Or.inl
    · exact Or.inr (Or.inr ⟨m, s, hmt, hm, hn⟩)
  · rintro (rfl | hn | ⟨m, s, -, hm, hn⟩)
    · exact ⟨n, r, hr, Or.inl rfl⟩
    · exact ⟨table, r, hr, Or.inr hn⟩
    · exact ⟨m, s, hm, hn⟩

/-- A change of one relation changes the names by those of this relation. -/
theorem Database.Alters.mem_names (h : Database.Alters table db db') (hr : db.find table = some r)
    (hr' : db'.find table = some r') {n : Text} {P : Prop}
    (hn : n ∈ r'.names ↔ P ∨ n ∈ r.names) : n ∈ db'.names ↔ P ∨ n ∈ db.names := by
  have hothers : (∃ m s, m ≠ table ∧ db'.find m = some s ∧ (n = m ∨ n ∈ s.names)) ↔
      ∃ m s, m ≠ table ∧ db.find m = some s ∧ (n = m ∨ n ∈ s.names) := by
    refine exists_congr fun m => exists_congr fun s => and_congr_right fun hm => ?_
    rw [h.others m hm]
  rw [Database.mem_names_of_find hr', Database.mem_names_of_find hr, hothers, hn, or_assoc,
    or_left_comm]

theorem Database.Alters.mem_names_congr (h : Database.Alters table db db')
    (hr : db.find table = some r) (hr' : db'.find table = some r') (hn : r'.names = r.names)
    {n : Text} : n ∈ db'.names ↔ n ∈ db.names := by
  have hmem : n ∈ r'.names ↔ False ∨ n ∈ r.names := by rw [hn, false_or]
  rw [h.mem_names hr hr' hmem, false_or]

/-- A statement changes the relation it is about. -/
theorem exec_alters {s : Statement} (h : exec server db s = some db') :
    Database.Alters s.target db db' := by
  refine ⟨fun n hn => exec_find_of_ne h hn, ?_⟩
  have halter : ∀ {name : Text} {f : Relation → Option Relation},
      db.alter name f = some db' → db'.traits = db.traits := fun h => by
    obtain ⟨r, r', -, -, rfl⟩ := Database.alter_eq_some.1 h
    rfl
  cases s with
  | createIndex table index =>
    rw [exec] at h
    split at h
    · cases h
    · exact halter h
  | dropView view =>
    rw [exec] at h
    split at h
    · cases h
    · split at h <;> cases h
      rfl
  | createView view =>
    rw [exec] at h
    split at h <;> cases h
    rfl
  | addColumn | dropDefault | setDefault | setNotNull | addCheck | dropKey | addKey =>
    exact halter h

theorem execute_alters {ss : List Statement} (hss : ∀ s ∈ ss, s.target = table)
    (h : execute server db ss = some db') : Database.Alters table db db' := by
  induction ss generalizing db with
  | nil =>
    cases h
    exact .refl
  | cons s ss ih =>
    rw [execute_cons, Option.bind_eq_some_iff] at h
    obtain ⟨db₁, hs, hrest⟩ := h
    have hfirst := exec_alters hs
    rw [hss s List.mem_cons_self] at hfirst
    exact hfirst.trans (ih (fun t ht => hss t (List.mem_cons_of_mem s ht)) hrest)

theorem Database.alter_of_find {f : Relation → Option Relation} (hr : db.find table = some r)
    (hf : f r = some r') : db.alter table f = some (db.set table r') := by
  rw [Database.alter, hr]
  simp [hf]

theorem Database.alter_eq_none {f : Relation → Option Relation} (hr : db.find table = some r)
    (hf : f r = none) : db.alter table f = none := by
  rw [Database.alter, hr]
  simp [hf]

/-! ### What statements lead to -/

/-- The statements, which are about this relation, succeed, and the relation is then so. -/
def Leads (server : Server) (table : Text) (db : Database) (ss : List Statement)
    (P : Relation → Prop) : Prop :=
  ∃ db' r', execute server db ss = some db' ∧ Database.Alters table db db' ∧
    db'.find table = some r' ∧ P r'

namespace Leads

variable {ss ts : List Statement} {P Q : Relation → Prop}

theorem nil (hr : db.find table = some r) (h : P r) : Leads server table db [] P :=
  ⟨db, r, rfl, .refl, hr, h⟩

theorem single {s : Statement} (h : exec server db s = some (db.set table r)) (hP : P r) :
    Leads server table db [s] P :=
  ⟨db.set table r, r, by rw [execute_cons, h]; rfl, .set r, Database.find_set_self _ _, hP⟩

theorem append (h : Leads server table db ss P)
    (h' : ∀ db' r', Database.Alters table db db' → db'.find table = some r' → P r' →
      Leads server table db' ts Q) : Leads server table db (ss ++ ts) Q := by
  obtain ⟨db', r', hexec, halters, hfind, hP⟩ := h
  obtain ⟨db'', r'', hexec', halters', hfind', hQ⟩ := h' db' r' halters hfind hP
  exact ⟨db'', r'', by rw [execute_append, hexec, Option.bind_some, hexec'],
    halters.trans halters', hfind', hQ⟩

theorem mono (h : Leads server table db ss P) (hPQ : ∀ r, P r → Q r) :
    Leads server table db ss Q := by
  obtain ⟨db', r', hexec, halters, hfind, hP⟩ := h
  exact ⟨db', r', hexec, halters, hfind, hPQ r' hP⟩

end Leads

/-! ### Columns -/

theorem exec_addColumn (name type : Text) (notNull : Bool) (default : Option Expression)
    {v : Value} (hr : db.find table = some r) (hkind : r.kind.isTable = true)
    (hnew : r.column name = none)
    (hv : default.elim (some .null) (Expression.value server.now) = some v)
    (hnull : notNull = true → v ≠ .null) :
    Leads server table db [.addColumn table name type notNull default] fun r' =>
      r.Extends r' ∧ r.SameObjects r' ∧ (∀ row ∈ r'.rows, row name = v) ∧ ∀ m, r'.column m =
        if m = name then
          some ⟨name, type, notNull, default.map Expression.text, .ordinary, .ordinary⟩
        else r.column m := by
  obtain ⟨r', hr'⟩ : ∃ r', r.addColumn server.now name type notNull default = some r' := by
    rw [Relation.addColumn, hv]
    exact ⟨_, dif_pos ⟨hkind, hnew, fun h => Or.inl (hnull h)⟩⟩
  obtain ⟨w, hw, -, hrows, hsame, hcolumns⟩ := Relation.addColumn_eq_some hr'
  obtain rfl : v = w := Option.some_injective _ (hv.symm.trans hw)
  refine .single (Database.alter_of_find hr hr') ⟨Relation.addColumn_extends hr', hsame,
    fun row hrow => ?_, Relation.column_addColumn hnew hcolumns⟩
  rw [hrows] at hrow
  obtain ⟨old, -, rfl⟩ := List.mem_map.1 hrow
  exact Function.update_self ..

/-- `DROP DEFAULT` and `SET DEFAULT` of a column that is neither an identity nor generated. -/
theorem exec_setDefault {s : Statement} {name : Text} (default : Option Text) {c : Column}
    (hs : exec server db s = db.alter table fun r => r.setDefault name default)
    (hr : db.find table = some r) (hkind : r.kind.isTable = true) (hc : r.column name = some c)
    (hidentity : c.identity = .ordinary) (hgenerated : c.generated = .ordinary) :
    Leads server table db [s] fun r' => r.Extends r' ∧ r.SameObjects r' ∧ r'.rows = r.rows ∧
      r'.column name = some { c with default } ∧ ∀ m, m ≠ name → r'.column m = r.column m := by
  obtain ⟨r', hr'⟩ : ∃ r', r.setDefault name default = some r' := by
    rw [Relation.setDefault, hc]
    exact ⟨_, if_pos ⟨Or.inl hkind, hidentity, hgenerated⟩⟩
  obtain ⟨hext, hsame, hrows, hcolumn⟩ := Relation.setDefault_eq_some hr'
  refine .single (hs.trans (Database.alter_of_find hr hr'))
    ⟨hext, hsame, hrows, ?_, fun m hm => ?_⟩
  · rw [hcolumn, hc, Option.map_some, if_pos (Relation.column_name hc)]
  · rw [hcolumn]
    cases hd : r.column m with
    | none => rfl
    | some d => rw [Option.map_some, if_neg (by rwa [Relation.column_name hd])]

theorem exec_setNotNull {name : Text} {c : Column} (hr : db.find table = some r)
    (hkind : r.kind.isTable = true) (hc : r.column name = some c)
    (hnull : ∀ row ∈ r.rows, row name ≠ .null) :
    Leads server table db [.setNotNull table name] fun r' => r.Extends r' ∧ r.SameObjects r' ∧
      r'.column name = some { c with notNull := true } ∧
      ∀ m, m ≠ name → r'.column m = r.column m := by
  obtain ⟨r', hr'⟩ : ∃ r', r.setNotNull name = some r' := by
    refine ⟨_, dif_pos ⟨hkind, by rw [hc]; exact Option.some_ne_none c, fun n hn => ?_⟩⟩
    obtain rfl := List.mem_singleton.1 hn
    exact hnull
  obtain ⟨hext, hsame, -, hcolumn⟩ := Relation.setNotNull_eq_some hr'
  refine .single (Database.alter_of_find hr hr') ⟨hext, hsame, ?_, fun m hm => ?_⟩
  · rw [hcolumn, hc, Option.map_some, if_pos (by simp [Relation.column_name hc])]
  · rw [hcolumn]
    cases hd : r.column m with
    | none => rfl
    | some d => rw [Option.map_some, if_neg (by simpa [Relation.column_name hd] using hm)]

/-- A relation that is no table takes no column. -/
theorem exec_addColumn_eq_none {name type : Text} {notNull : Bool} {default : Option Expression}
    (hr : db.find table = some r) (hkind : r.kind.isTable = false) :
    exec server db (.addColumn table name type notNull default) = none := by
  have hnone : r.addColumn server.now name type notNull default = none := by
    rw [Relation.addColumn]
    split
    · rfl
    · rw [dif_neg]
      simp [hkind]
  exact Database.alter_eq_none hr hnone

/-- A column is added, its default fills the rows that are there, and the default goes. -/
theorem execute_fill (server : Server) (name type : Text) (e : Expression) {v : Value}
    (hr : db.find table = some r) (hkind : r.kind.isTable = true) (hnew : r.column name = none)
    (hv : e.value server.now = some v) (hnull : v ≠ .null) :
    Leads server table db [.addColumn table name type true (some e), .dropDefault table name]
      fun r' => r.Extends r' ∧ r.SameObjects r' ∧ (∀ row ∈ r'.rows, row name = v) ∧
        ∀ m, r'.column m = if m = name then some ⟨name, type, true, none, .ordinary, .ordinary⟩
          else r.column m := by
  refine (exec_addColumn name type true (some e) hr hkind hnew hv fun _ => hnull).append
    fun db₁ r₁ _ hr₁ h₁ => ?_
  obtain ⟨hext, hsame, hrows, hcolumn⟩ := h₁
  refine (exec_setDefault none rfl hr₁ (hsame.kind ▸ hkind)
    ((hcolumn name).trans (if_pos rfl)) rfl rfl).mono fun r₂ h₂ => ?_
  obtain ⟨hext', hsame', hrows', hname, hother⟩ := h₂
  refine ⟨hext.trans hext', hsame.trans hsame', hrows'.symm ▸ hrows, fun m => ?_⟩
  by_cases hm : m = name
  · subst hm
    rw [if_pos rfl, hname]
  · rw [if_neg hm, hother m hm, hcolumn, if_neg hm]

/-! ### Keys -/

/-- The statements that put a key in the place of the one there is. -/
def swapKey (table : Text) (key : Option Key) (columns : List Text) : List Statement :=
  ((key.map Key.name).toList.map fun name => .dropKey table name) ++ [.addKey table columns]

/-- What has a new key over these columns, named after the table, and is otherwise the same. -/
structure Relation.Rekeyed (table : Text) (columns : List Text) (r r' : Relation) : Prop where
  extends_ : r.Extends r'
  key : ∃ suffix, r'.key = some ⟨table ++ Text.of "_pkey" ++ suffix, columns, []⟩
  rows : r'.rows = r.rows
  column : ∀ n, r'.column n = (r.column n).map fun c =>
    if c.name ∈ columns then { c with notNull := true } else c
  constraints : r'.constraints = r.constraints
  otherConstraints : r'.otherConstraints = r.otherConstraints
  indexes : r'.indexes = r.indexes
  otherIndexes : r'.otherIndexes = r.otherIndexes

/-- A key is added to a relation that has none. -/
theorem exec_addKey (server : Server) (columns : List Text) (hr : db.find table = some r)
    (hkind : r.kind.isTable = true) (hkey : r.key = none)
    (hcolumns : ∀ c ∈ columns, r.column c ≠ none)
    (hnull : ∀ c ∈ columns, ∀ row ∈ r.rows, row c ≠ .null)
    (hunique : (r.rows.map fun row => columns.map row).Nodup) :
    (r.dividedBy columns = true ∧
        Leads server table db [.addKey table columns] (r.Rekeyed table columns)) ∨
      (r.dividedBy columns = false ∧ execute server db [.addKey table columns] = none) := by
  by_cases hdiv : r.dividedBy columns = true
  · refine Or.inl ⟨hdiv, ?_⟩
    obtain ⟨r', hr'⟩ : ∃ r', r.addKey (server.keyName db table r) columns = some r' :=
      ⟨_, dif_pos ⟨hkind, hkey, hdiv, hcolumns, hnull, hunique⟩⟩
    obtain ⟨-, hext, hrows, hkey', hcolumn, hcon, hother, hidx, hoidx⟩ :=
      Relation.addKey_eq_some hr'
    exact .single (Database.alter_of_find hr hr')
      ⟨hext, ⟨_, hkey'⟩, hrows, hcolumn, hcon, hother, hidx, hoidx⟩
  · rw [Bool.not_eq_true] at hdiv
    refine Or.inr ⟨hdiv, ?_⟩
    have hnone : r.addKey (server.keyName db table r) columns = none :=
      dif_neg fun h => by simp [hdiv] at h
    rw [execute_cons, exec, Database.alter_eq_none hr hnone]
    rfl

/-- **A key takes the place of another one exactly if the rows may be divided as they are and
nothing rests on the key that goes.** -/
theorem execute_swapKey (server : Server) {columns : List Text} (hr : db.find table = some r)
    (hkind : r.kind.isTable = true) (hcolumns : ∀ c ∈ columns, r.column c ≠ none)
    (hnull : ∀ c ∈ columns, ∀ row ∈ r.rows, row c ≠ .null)
    (hunique : (r.rows.map fun row => columns.map row).Nodup) :
    ((r.dividedBy columns = true ∧ ∀ key, r.key = some key → key.dependents = []) ∧
        Leads server table db (swapKey table r.key columns) (r.Rekeyed table columns)) ∨
      (¬ (r.dividedBy columns = true ∧ ∀ key, r.key = some key → key.dependents = []) ∧
        execute server db (swapKey table r.key columns) = none) := by
  cases hkey : r.key with
  | none =>
    have hlist : swapKey table none columns = [.addKey table columns] := rfl
    rw [hlist]
    rcases exec_addKey server columns hr hkind hkey hcolumns hnull hunique with
      ⟨hdiv, hleads⟩ | ⟨hdiv, hnone⟩
    · exact Or.inl ⟨⟨hdiv, by simp⟩, hleads⟩
    · exact Or.inr ⟨by simp [hdiv], hnone⟩
  | some key =>
    have hlist : swapKey table (some key) columns =
        [.dropKey table key.name] ++ [.addKey table columns] := rfl
    rw [hlist]
    by_cases hdep : key.dependents = []
    · -- without its key, the relation takes the new one
      have hdrop : r.dropKey key.name = some r.withoutKey := by
        rw [Relation.dropKey, hkey]
        exact if_pos ⟨rfl, hdep⟩
      have hexec : exec server db (.dropKey table key.name) = some (db.set table r.withoutKey) :=
        Database.alter_of_find hr hdrop
      have hfind : (db.set table r.withoutKey).find table = some r.withoutKey :=
        Database.find_set_self table r.withoutKey
      rcases exec_addKey server columns hfind hkind rfl hcolumns hnull hunique with
        ⟨hdiv, hleads⟩ | ⟨hdiv, hnone⟩
      · refine Or.inl ⟨⟨hdiv, ?_⟩, ?_⟩
        · rintro key' hkey'
          cases hkey'
          exact hdep
        · obtain ⟨db', r', hexec', halters, hfind, hre⟩ := hleads
          refine ⟨db', r', ?_, (Database.Alters.set _).trans halters, hfind,
            r.extends_withoutKey.trans hre.extends_, hre.key, hre.rows, hre.column,
            hre.constraints, hre.otherConstraints, hre.indexes, hre.otherIndexes⟩
          rw [List.singleton_append, execute_cons, hexec, Option.bind_some, hexec']
      · refine Or.inr ⟨fun h => ?_, ?_⟩
        · have hdiv' : r.dividedBy columns = false := hdiv
          rw [h.1] at hdiv'
          cases hdiv'
        · rw [List.singleton_append, execute_cons, hexec, Option.bind_some, hnone]
    · refine Or.inr ⟨fun h => hdep (h.2 key rfl), ?_⟩
      have hdrop : r.dropKey key.name = none := by
        rw [Relation.dropKey, hkey]
        exact if_neg fun h => hdep h.2
      rw [List.singleton_append, execute_cons, exec, Database.alter_eq_none hr hdrop]
      rfl

/-! ### Indexes -/

/-- **Indexes are created exactly if all their names are free.** -/
theorem execute_createIndexes (server : Server) {is : List Index} (hr : db.find table = some r)
    (hkind : r.kind.isTable = true) (hcolumns : ∀ i ∈ is, ∀ c ∈ i.columns, r.column c ≠ none)
    (hnodup : (is.map Index.name).Nodup) :
    ((∀ i ∈ is, i.name ∉ db.names) ∧ Leads server table db (is.map (.createIndex table))
        fun r' => r' = { r with indexes := r.indexes ++ is }) ∨
      ((∃ i ∈ is, i.name ∈ db.names) ∧
        execute server db (is.map (.createIndex table)) = none) := by
  induction is generalizing db r with
  | nil => exact Or.inl ⟨by simp, .nil hr (by simp)⟩
  | cons i is ih =>
    rw [List.map_cons]
    by_cases htaken : i.name ∈ db.names
    · refine Or.inr ⟨⟨i, List.mem_cons_self, htaken⟩, ?_⟩
      rw [execute_cons, exec, if_pos htaken]
      rfl
    · have hadd : r.addIndex i = some { r with indexes := r.indexes ++ [i] } :=
        if_pos ⟨Or.inl hkind, hcolumns i List.mem_cons_self⟩
      have hexec : exec server db (.createIndex table i) =
          some (db.set table { r with indexes := r.indexes ++ [i] }) := by
        rw [exec, if_neg htaken]
        exact Database.alter_of_find hr hadd
      -- the name of the first one is taken now, and no other one is
      have hnames : ∀ n, n ∈ (db.set table { r with indexes := r.indexes ++ [i] }).names ↔
          n = i.name ∨ n ∈ db.names := fun n => by
        refine (Database.Alters.set _).mem_names hr (Database.find_set_self _ _) ?_
        simp only [Relation.names, List.map_append, List.mem_append, List.map_cons, List.map_nil,
          List.mem_singleton]
        tauto
      rw [List.map_cons, List.nodup_cons] at hnodup
      rcases ih (Database.find_set_self table { r with indexes := r.indexes ++ [i] }) hkind
        (fun j hj => hcolumns j (List.mem_cons_of_mem i hj)) hnodup.2 with
        ⟨hfree, db', r', hdb', halters, hfind, rfl⟩ | ⟨⟨j, hj, htaken'⟩, hnone⟩
      · refine Or.inl ⟨fun j hj => ?_, db', _, ?_, (Database.Alters.set _).trans halters, hfind,
          by simp⟩
        · rcases List.mem_cons.1 hj with rfl | hj
          · exact htaken
          · exact fun h => hfree j hj ((hnames _).2 (Or.inr h))
        · rw [execute_cons, hexec, Option.bind_some, hdb']
      · refine Or.inr ⟨⟨j, List.mem_cons_of_mem i hj, ?_⟩, ?_⟩
        · refine ((hnames _).1 htaken').resolve_left fun h => hnodup.1 ?_
          exact h ▸ List.mem_map_of_mem hj
        · rw [execute_cons, hexec, Option.bind_some, hnone]

/-! ### Checks -/

/-- **Checks that the rows pass are added exactly if all their names are free.** -/
theorem execute_addChecks (server : Server) {cs : List Constraint} (hr : db.find table = some r)
    (hkind : r.kind.isTable = true)
    (hcheck : ∀ c ∈ cs, ∃ p, c.check = some p ∧ (∀ n ∈ p.columns, r.column n ≠ none) ∧
      ∀ row ∈ r.rows, p.eval row ≠ some false)
    (hnodup : (cs.map Constraint.name).Nodup) :
    ((∀ c ∈ cs, c.name ∉ r.constraintNames) ∧ Leads server table db (cs.map (.addCheck table))
        fun r' => r' = { r with constraints := r.constraints ++ cs }) ∨
      ((∃ c ∈ cs, c.name ∈ r.constraintNames) ∧
        execute server db (cs.map (.addCheck table)) = none) := by
  induction cs generalizing db r with
  | nil => exact Or.inl ⟨by simp, .nil hr (by simp)⟩
  | cons c cs ih =>
    rw [List.map_cons]
    obtain ⟨p, hp, hcolumns, hrows⟩ := hcheck c List.mem_cons_self
    by_cases htaken : c.name ∈ r.constraintNames
    · refine Or.inr ⟨⟨c, List.mem_cons_self, htaken⟩, ?_⟩
      have hadd : r.addCheck c = none := by
        rw [Relation.addCheck, hp]
        exact if_neg fun h => h.2.1 htaken
      rw [execute_cons, exec, Database.alter_eq_none hr hadd]
      rfl
    · have hadd : r.addCheck c = some { r with constraints := r.constraints ++ [c] } := by
        rw [Relation.addCheck, hp]
        exact if_pos ⟨hkind, htaken, hcolumns, hrows⟩
      have hexec : exec server db (.addCheck table c) =
          some (db.set table { r with constraints := r.constraints ++ [c] }) :=
        Database.alter_of_find hr hadd
      have hnames : ∀ n, n ∈ Relation.constraintNames
          { r with constraints := r.constraints ++ [c] } ↔
            n = c.name ∨ n ∈ r.constraintNames := fun n => by
        simp only [Relation.constraintNames, List.map_append, List.mem_append, List.map_cons,
          List.map_nil, List.mem_singleton]
        tauto
      rw [List.map_cons, List.nodup_cons] at hnodup
      rcases ih (Database.find_set_self table { r with constraints := r.constraints ++ [c] })
        hkind (fun d hd => hcheck d (List.mem_cons_of_mem c hd)) hnodup.2 with
        ⟨hfree, db', r', hdb', halters, hfind, rfl⟩ | ⟨⟨d, hd, htaken'⟩, hnone⟩
      · refine Or.inl ⟨fun d hd => ?_, db', _, ?_, (Database.Alters.set _).trans halters, hfind,
          by simp⟩
        · rcases List.mem_cons.1 hd with rfl | hd
          · exact htaken
          · exact fun h => hfree d hd ((hnames _).2 (Or.inr h))
        · rw [execute_cons, hexec, Option.bind_some, hdb']
      · refine Or.inr ⟨⟨d, List.mem_cons_of_mem c hd, ?_⟩, ?_⟩
        · refine ((hnames _).1 htaken').resolve_left fun h => hnodup.1 ?_
          exact h ▸ List.mem_map_of_mem hd
        · rw [execute_cons, hexec, Option.bind_some, hnone]

end Tokenweir.Sql
