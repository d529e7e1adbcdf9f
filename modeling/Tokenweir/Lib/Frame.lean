import Tokenweir.Lib.Catalog

/-!
# What statements keep

The frame of the statements of a catalog: what a change of a relation leaves as it was, and
that no statement but the removal of a view takes anything away.

* `Relation.Extends`, a relation that has all that another one has;
* `Relation.SameObjects`, a relation that differs from another one in its columns at most;
* an inversion lemma for each change of a relation;
* `exec_extends`, the frame of a statement.
-/

namespace Tokenweir.Sql

namespace Relation

variable {r r' s t : Relation}

/-! ### Extensions -/

/-- `r'` has the columns of `r` and, row by row, their values. -/
structure Extends (r r' : Relation) : Prop where
  kind : r'.kind = r.kind
  columns : ∀ n c, r.column n = some c → ∃ c', r'.column n = some c' ∧ c'.type = c.type
  rows : ∃ f : Row → Row, r'.rows = r.rows.map f ∧
    ∀ row ∈ r.rows, ∀ n, r.column n ≠ none → f row n = row n

theorem Extends.refl (r : Relation) : r.Extends r where
  kind := rfl
  columns := fun _ c h => ⟨c, h, rfl⟩
  rows := ⟨id, r.rows.map_id.symm, fun _ _ _ _ => rfl⟩

/-- A column stays. -/
theorem Extends.column_ne_none (h : r.Extends r') {n : Text} (hn : r.column n ≠ none) :
    r'.column n ≠ none := by
  obtain ⟨c, hc⟩ := Option.ne_none_iff_exists'.1 hn
  obtain ⟨c', hc', -⟩ := h.columns n c hc
  rw [hc']
  exact Option.some_ne_none c'

theorem extends_withoutKey (r : Relation) : r.Extends r.withoutKey :=
  ⟨rfl, (Extends.refl r).columns, (Extends.refl r).rows⟩

theorem Extends.trans (h : r.Extends s) (h' : s.Extends t) : r.Extends t where
  kind := h'.kind.trans h.kind
  columns := by
    intro n c hc
    obtain ⟨c', hc', ht⟩ := h.columns n c hc
    obtain ⟨c'', hc'', ht'⟩ := h'.columns n c' hc'
    exact ⟨c'', hc'', ht'.trans ht⟩
  rows := by
    obtain ⟨f, hf, hkeep⟩ := h.rows
    obtain ⟨g, hg, hkeep'⟩ := h'.rows
    refine ⟨g ∘ f, by rw [hg, hf, List.map_map], fun row hrow n hn => ?_⟩
    have hmem : f row ∈ s.rows := hf ▸ List.mem_map_of_mem hrow
    rw [Function.comp_apply, hkeep' (f row) hmem n (h.column_ne_none hn), hkeep row hrow n hn]

/-- A row of the extension comes from a row, whose values it has. -/
theorem Extends.exists_row (h : r.Extends r') {row' : Row} (hrow : row' ∈ r'.rows) :
    ∃ row ∈ r.rows, ∀ n, r.column n ≠ none → row' n = row n := by
  obtain ⟨f, hf, hkeep⟩ := h.rows
  rw [hf] at hrow
  obtain ⟨row, hmem, rfl⟩ := List.mem_map.1 hrow
  exact ⟨row, hmem, hkeep row hmem⟩

/-- The same kind and the same constraints, indexes and dependents. -/
structure SameObjects (r r' : Relation) : Prop where
  kind : r'.kind = r.kind
  key : r'.key = r.key
  constraints : r'.constraints = r.constraints
  otherConstraints : r'.otherConstraints = r.otherConstraints
  indexes : r'.indexes = r.indexes
  otherIndexes : r'.otherIndexes = r.otherIndexes

theorem SameObjects.refl (r : Relation) : r.SameObjects r := ⟨rfl, rfl, rfl, rfl, rfl, rfl⟩

theorem SameObjects.trans (h : r.SameObjects s) (h' : s.SameObjects t) : r.SameObjects t where
  kind := h'.kind.trans h.kind
  key := h'.key.trans h.key
  constraints := h'.constraints.trans h.constraints
  otherConstraints := h'.otherConstraints.trans h.otherConstraints
  indexes := h'.indexes.trans h.indexes
  otherIndexes := h'.otherIndexes.trans h.otherIndexes

theorem SameObjects.names (h : r.SameObjects r') : r'.names = r.names := by
  simp only [Relation.names, h.key, h.indexes, h.otherIndexes]

theorem SameObjects.constraintNames (h : r.SameObjects r') :
    r'.constraintNames = r.constraintNames := by
  simp only [Relation.constraintNames, h.key, h.constraints, h.otherConstraints]

/-! ### One change -/

/-- A change of columns that keeps their names and types extends a relation. -/
theorem modify_extends {f : Column → Column} {hname hnull}
    (htype : ∀ c, (f c).type = c.type) : r.Extends (r.modify f hname hnull) where
  kind := rfl
  columns := by
    intro n c hc
    exact ⟨f c, by rw [column_modify, hc, Option.map_some], htype c⟩
  rows := (Extends.refl r).rows

theorem require_extends {names : List Text} {h} : r.Extends (r.require names h) :=
  modify_extends fun c => by split <;> rfl

theorem column_require {names : List Text} (h) (n : Text) : (r.require names h).column n =
    (r.column n).map fun c => if c.name ∈ names then { c with notNull := true } else c :=
  column_modify _ _ _ n

theorem addColumn_eq_some {now : ℤ} {name type : Text} {notNull : Bool}
    {default : Option Expression} (h : r.addColumn now name type notNull default = some r') :
    ∃ v, default.elim (some .null) (Expression.value now) = some v ∧ r.column name = none ∧
      r'.rows = r.rows.map (fun row => Function.update row name v) ∧ r.SameObjects r' ∧
      r'.columns = r.columns ++
        [⟨name, type, notNull, default.map Expression.text, .ordinary, .ordinary⟩] := by
  rw [addColumn] at h
  split at h
  · cases h
  · rename_i v hv
    split at h
    · rename_i hok
      cases h
      exact ⟨v, hv, hok.2.1, rfl, ⟨rfl, rfl, rfl, rfl, rfl, rfl⟩, rfl⟩
    · cases h

/-- The columns after `ADD COLUMN`. -/
theorem column_addColumn {c : Column} (hnew : r.column c.name = none)
    (hcolumns : r'.columns = r.columns ++ [c]) (n : Text) :
    r'.column n = if n = c.name then some c else r.column n := by
  rw [column, hcolumns, List.find?_append]
  by_cases hn : n = c.name
  · subst hn
    have hnone : r.columns.find? (fun d => decide (d.name = c.name)) = none := hnew
    simp [hnone]
  · have hne : ¬ c.name = n := fun h => hn h.symm
    simp [hn, hne, column]

theorem addColumn_extends {now : ℤ} {name type : Text} {notNull : Bool}
    {default : Option Expression} (h : r.addColumn now name type notNull default = some r') :
    r.Extends r' := by
  obtain ⟨v, -, hnew, hrows, hsame, hcolumns⟩ := addColumn_eq_some h
  refine ⟨hsame.kind, ?_, _, hrows, ?_⟩
  · intro n c hc
    have hne : n ≠ name := by
      rintro rfl
      rw [hnew] at hc
      cases hc
    exact ⟨c, by rw [column_addColumn hnew hcolumns, if_neg hne, hc], rfl⟩
  · intro row _ n hn
    have hne : n ≠ name := by
      rintro rfl
      exact hn hnew
    exact Function.update_of_ne hne v row

theorem setDefault_eq_some {name : Text} {default : Option Text}
    (h : r.setDefault name default = some r') :
    r.Extends r' ∧ r.SameObjects r' ∧ r'.rows = r.rows ∧ ∀ n, r'.column n =
      (r.column n).map fun c => if c.name = name then { c with default } else c := by
  rw [setDefault] at h
  split at h
  · cases h
  · split at h
    · cases h
      exact ⟨modify_extends fun c => by split <;> rfl, ⟨rfl, rfl, rfl, rfl, rfl, rfl⟩, rfl,
        column_modify _ _ _⟩
    · cases h

theorem setNotNull_eq_some {name : Text} (h : r.setNotNull name = some r') :
    r.Extends r' ∧ r.SameObjects r' ∧ r'.rows = r.rows ∧ ∀ n, r'.column n =
      (r.column n).map fun c => if c.name ∈ [name] then { c with notNull := true } else c := by
  rw [setNotNull] at h
  split at h
  · cases h
    exact ⟨require_extends, ⟨rfl, rfl, rfl, rfl, rfl, rfl⟩, rfl, column_require _⟩
  · cases h

theorem addCheck_eq_some {constraint : Constraint} (h : r.addCheck constraint = some r') :
    constraint.name ∉ r.constraintNames ∧
      r' = { r with constraints := r.constraints ++ [constraint] } := by
  rw [addCheck] at h
  split at h
  · cases h
  · split at h
    · rename_i hok
      cases h
      exact ⟨hok.2.1, rfl⟩
    · cases h

theorem addIndex_eq_some {index : Index} (h : r.addIndex index = some r') :
    r' = { r with indexes := r.indexes ++ [index] } := by
  rw [addIndex] at h
  split at h
  · cases h
    rfl
  · cases h

theorem dropKey_eq_some {name : Text} (h : r.dropKey name = some r') :
    ∃ key, r.key = some key ∧ key.name = name ∧ key.dependents = [] ∧ r' = r.withoutKey := by
  rw [dropKey] at h
  split at h
  · cases h
  · rename_i key hkey
    split at h
    · rename_i hok
      cases h
      exact ⟨key, hkey, hok.1, hok.2, rfl⟩
    · cases h

theorem addKey_eq_some {name : Text} {columns : List Text}
    (h : r.addKey name columns = some r') :
    r.key = none ∧ r.Extends r' ∧ r'.rows = r.rows ∧ r'.key = some ⟨name, columns, []⟩ ∧
      (∀ n, r'.column n = (r.column n).map fun c =>
        if c.name ∈ columns then { c with notNull := true } else c) ∧
      r'.constraints = r.constraints ∧ r'.otherConstraints = r.otherConstraints ∧
      r'.indexes = r.indexes ∧ r'.otherIndexes = r.otherIndexes := by
  rw [addKey] at h
  split at h
  · rename_i hok
    cases h
    have hext : r.Extends (r.require columns hok.2.2.2.2.1) := require_extends
    exact ⟨hok.2.1, ⟨rfl, hext.columns, hext.rows⟩, rfl, rfl, column_require hok.2.2.2.2.1, rfl,
      rfl, rfl, rfl⟩
  · cases h

end Relation

/-! ### One statement -/

variable {server : Server} {db db' : Database} {r : Relation}

/-- **The frame.** A statement that removes no view leaves a relation with all that it has;
and where the relation has a new column, the statement is the one that adds it, and all rows
have the value of its default there. -/
theorem exec_extends {s : Statement} (h : exec server db s = some db')
    (hdrop : ∀ view, s ≠ .dropView view) (hr : db.find s.target = some r) :
    ∃ r', db'.find s.target = some r' ∧ r.Extends r' ∧
      ∀ n, r.column n = none → r'.column n ≠ none →
        ∃ table type notNull default v, s = .addColumn table n type notNull default ∧
          default.elim (some .null) (Expression.value server.now) = some v ∧
          ∀ row ∈ r'.rows, row n = v := by
  -- every change of the relation but one keeps the set of its columns
  have hsame : ∀ {f : Relation → Option Relation}, db.alter s.target f = some db' →
      (∀ r', f r = some r' → r.Extends r' ∧ ∀ n, r.column n = none → r'.column n = none) →
      ∃ r', db'.find s.target = some r' ∧ r.Extends r' ∧
        ∀ n, r.column n = none → r'.column n ≠ none →
          ∃ table type notNull default v, s = .addColumn table n type notNull default ∧
            default.elim (some .null) (Expression.value server.now) = some v ∧
            ∀ row ∈ r'.rows, row n = v := fun halter hf => by
    obtain ⟨q, r', hq, hr', rfl⟩ := Database.alter_eq_some.1 halter
    obtain rfl : q = r := Option.some_injective _ (hq.symm.trans hr)
    obtain ⟨hext, hnone⟩ := hf r' hr'
    exact ⟨r', Database.find_set_self _ _, hext, fun n hn hn' => absurd (hnone n hn) hn'⟩
  cases s with
  | addColumn table name type notNull default =>
    obtain ⟨q, r', hq, hr', rfl⟩ := Database.alter_eq_some.1 h
    obtain rfl : q = r := Option.some_injective _ (hq.symm.trans hr)
    obtain ⟨v, hv, hnew, hrows, -, hcolumns⟩ := Relation.addColumn_eq_some hr'
    refine ⟨r', Database.find_set_self _ _, Relation.addColumn_extends hr', fun n hn hn' => ?_⟩
    rw [Relation.column_addColumn hnew hcolumns] at hn'
    obtain rfl : n = name := by
      by_contra hne
      exact hn' (by rw [if_neg hne, hn])
    refine ⟨table, type, notNull, default, v, rfl, hv, fun row hrow => ?_⟩
    rw [hrows] at hrow
    obtain ⟨old, -, rfl⟩ := List.mem_map.1 hrow
    exact Function.update_self ..
  | dropDefault table column =>
    refine hsame h fun r' hr' => ?_
    obtain ⟨hext, -, -, hcolumn⟩ := Relation.setDefault_eq_some hr'
    exact ⟨hext, fun n hn => by rw [hcolumn, hn, Option.map_none]⟩
  | setDefault table column default =>
    refine hsame h fun r' hr' => ?_
    obtain ⟨hext, -, -, hcolumn⟩ := Relation.setDefault_eq_some hr'
    exact ⟨hext, fun n hn => by rw [hcolumn, hn, Option.map_none]⟩
  | setNotNull table column =>
    refine hsame h fun r' hr' => ?_
    obtain ⟨hext, -, -, hcolumn⟩ := Relation.setNotNull_eq_some hr'
    exact ⟨hext, fun n hn => by rw [hcolumn, hn, Option.map_none]⟩
  | addCheck table constraint =>
    refine hsame h fun r' hr' => ?_
    obtain ⟨-, rfl⟩ := Relation.addCheck_eq_some hr'
    exact ⟨⟨rfl, (Relation.Extends.refl r).columns, (Relation.Extends.refl r).rows⟩, fun _ => id⟩
  | createIndex table index =>
    rw [exec] at h
    split at h
    · cases h
    · refine hsame h fun r' hr' => ?_
      obtain rfl := Relation.addIndex_eq_some hr'
      exact ⟨⟨rfl, (Relation.Extends.refl r).columns, (Relation.Extends.refl r).rows⟩,
        fun _ => id⟩
  | dropKey table name =>
    refine hsame h fun r' hr' => ?_
    obtain ⟨-, -, -, -, rfl⟩ := Relation.dropKey_eq_some hr'
    exact ⟨r.extends_withoutKey, fun _ => id⟩
  | addKey table columns =>
    refine hsame h fun r' hr' => ?_
    obtain ⟨-, hext, -, -, hcolumn, -⟩ := Relation.addKey_eq_some hr'
    exact ⟨hext, fun n hn => by rw [hcolumn, hn, Option.map_none]⟩
  | dropView view => exact absurd rfl (hdrop view)
  | createView view =>
    rw [exec] at h
    split at h
    · rename_i hok
      -- the name of a relation is not free
      exact absurd (Database.mem_names.2 ⟨view.name, r, hr, Or.inl rfl⟩) hok.1
    · cases h

/-- A view is removed only if it is one. -/
theorem exec_dropView {view : Text} (h : exec server db (.dropView view) = some db')
    (hr : db.find view = some r) : r.kind = .view ∧ r.dependents = [] := by
  rw [exec, hr] at h
  by_contra hcon
  simp [hcon] at h

end Tokenweir.Sql
