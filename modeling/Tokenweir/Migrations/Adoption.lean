import Tokenweir.Migrations.Runner

/-!
# Making and adopting the runner's table

What `_ensure_state_table` and `applied_versions` do, statement by statement: the rows and the
objects stay as they are, whether the table is made, adopted or complete, and the rows that are
read are those of the data when the read is committed.

* `Adopting`, `follows_adopt`, the rule for these statements;
* `follows_ensureColumn`, `follows_ensureStateTable`; `Read`, `follows_readRows`.
-/

namespace Tokenweir.Migrations.Setting

open Program (Follows)

variable {O : Type} {σ : Setting O} {c : Call} {l l' : Local (Option Text) (Data O)} {v : Data O}

variable (σ) in
/-- What has been seen and written so far, in a block that has not migrated yet. -/
structure Begun (l : Local (Option Text) (Data O)) (v : Data O) : Prop where
  unchanged : σ.Advanced l.base l.data []
  seen : σ.Advanced l.base v []
  kept : σ.discipline.inv v

variable (σ c) in
/-- While the table is made or adopted. -/
structure Adopting (l : Local (Option Text) (Data O)) (v : Data O) : Prop extends
  Within σ c l none v, Begun σ l v

theorem progress_of_advanced {base d : Data O} (h : σ.Advanced base d []) :
    σ.discipline.progress c base d :=
  ⟨[], h, fun _ he => nomatch he⟩

/-- The columns of the table may change, nothing else. -/
theorem Begun.adopt (h : Begun σ l v) {v' : Data O} (hv : σ.Advanced v v' []) :
    Begun σ l v' := by
  refine ⟨h.unchanged, h.seen.trans σ.shipped_nodup hv, ?_⟩
  obtain ⟨ran, hran, hroles⟩ := h.kept
  refine ⟨ran, ?_, hroles⟩
  have htrans := hran.trans σ.shipped_nodup hv
  rwa [List.append_nil] at htrans

/-- **The rule for a statement that makes or adopts the table.** -/
theorem follows_adopt {s : Statement}
    {post : Local (Option Text) (Data O) → Except Error (Rows s) → Prop} (h : In σ c l none v)
    (hbegun : σ.discipline.Exclusive l → Begun σ l v)
    (hgood : l.session.alive = true → σ.discipline.good c l s)
    (hstep : ∀ a role' change, meaning σ.characters σ.effect s none v = some (a, role', change) →
      role' = none ∧ σ.Advanced v (change.getD v) [])
    (hok : ∀ a change l', meaning σ.characters σ.effect s none v = some (a, none, change) →
      Adopting σ c l' (change.getD v) → l'.session.autocommit = l.session.autocommit →
      post l' (.ok a))
    (herror : ∀ e l', Out σ c l' → post l' (.error e)) :
    (execute s).Follows (σ.protocol c) post l := by
  refine follows_execute h hgood ?_ ?_ herror
  · intro hex _ a role' change hmeaning
    have hbegun' := (hbegun hex).adopt (hstep a role' change hmeaning).2
    exact ⟨hbegun'.kept, progress_of_advanced hbegun'.seen⟩
  · intro hex a role' change l' hmeaning hwithin hmode hbase hdata
    obtain ⟨rfl, hadvanced⟩ := hstep a role' change hmeaning
    rw [ite_self] at hwithin
    have hbegun' := (hbegun hex).adopt hadvanced
    refine hok a change l' hmeaning ⟨hwithin, ?_, ?_, hbegun'.kept⟩ hmode
    · rw [hbase, hdata]
      split
      · exact hbegun'.seen
      · exact hbegun'.unchanged
    · rw [hbase]
      exact hbegun'.seen

section Meaning

variable {u : Characters} {effect : Option Text → Text → O → Option O} {role role' : Option Text}
  {change : Option (Data O)}

/-- A table that is made has no rows. -/
theorem meaning_createTable {a : Unit}
    (h : meaning u effect .createTable role v = some (a, role', change)) :
    role' = role ∧ (change.getD v).table ≠ none ∧
      ∀ shipped, Migrations.Advanced u effect shipped v (change.getD v) [] := by
  obtain ⟨table, objects, journal⟩ := v
  cases table with
  | some t =>
    obtain ⟨⟩ := h
    exact ⟨rfl, Option.some_ne_none t, fun _ => .refl _⟩
  | none =>
    obtain ⟨⟩ := h
    refine ⟨rfl, Option.some_ne_none _, fun shipped => ?_⟩
    exact Advanced.adopt (d := ⟨none, objects, journal⟩) rfl (Finset.empty_subset _)
      Finset.subset_union_right

theorem meaning_columns {a : Finset Text}
    (h : meaning u effect .columns role v = some (a, role', change)) :
    role' = role ∧ change = none ∧ a = v.columns := by
  obtain ⟨⟩ := h
  exact ⟨rfl, rfl, rfl⟩

/-- A column that is added is null in all rows. -/
theorem meaning_addColumn {column : Text} {a : Unit}
    (h : meaning u effect (.addColumn column) role v = some (a, role', change)) :
    role' = role ∧ (change.getD v).table ≠ none ∧
      (change.getD v).columns = insert column v.columns ∧
      (column ∈ required → ∀ shipped, Migrations.Advanced u effect shipped v (change.getD v) []) := by
  obtain ⟨table, objects, journal⟩ := v
  cases table with
  | none => cases h
  | some t =>
    obtain ⟨⟩ := h
    refine ⟨rfl, Option.some_ne_none _, rfl, fun hcolumn shipped => ?_⟩
    refine Advanced.adopt (d := ⟨some t, objects, journal⟩) rfl (Finset.subset_insert _ _) ?_
    exact Finset.insert_subset (Finset.mem_union_right _ hcolumn) Finset.subset_union_left

theorem meaning_setDefault {a : Unit}
    (h : meaning u effect .setDefault role v = some (a, role', change)) :
    role' = role ∧ change = none := by
  obtain ⟨table, objects, journal⟩ := v
  cases table with
  | none => cases h
  | some t =>
    rw [meaning] at h
    dsimp only at h
    split at h
    · obtain ⟨⟩ := h
      exact ⟨rfl, rfl⟩
    · cases h

theorem meaning_versions {a : List (ℤ × Option Text)}
    (h : meaning u effect .versions role v = some (a, role', change)) :
    role' = role ∧ change = none ∧ a = fetched v.rows := by
  obtain ⟨table, objects, journal⟩ := v
  cases table with
  | none => cases h
  | some t =>
    rw [meaning] at h
    dsimp only at h
    split at h
    · obtain ⟨⟩ := h
      exact ⟨rfl, rfl, rfl⟩
    · cases h

end Meaning

theorem follows_ensureColumn {present : Finset Text} {column : Text} (h : Adopting σ c l v)
    (hcolumn : column ∈ required) (hpresent : present ⊆ v.columns) (htable : v.table ≠ none) :
    (ensureColumn present column).Follows (σ.protocol c) (fun l' r =>
      match r with
      | .ok () => ∃ v', Adopting σ c l' v' ∧ l'.session.autocommit = l.session.autocommit ∧
        v.columns ⊆ v'.columns ∧ column ∈ v'.columns ∧ v'.table ≠ none
      | .error _ => Out σ c l') l := by
  unfold ensureColumn
  split
  · rename_i hmem
    exact ⟨v, h, rfl, Finset.Subset.refl _, hpresent hmem, htable⟩
  · apply Program.follows_bind.2
    refine follows_adopt h.in (fun _ => h.toBegun) (fun _ => trivial) ?_ ?_ fun _ _ => id
    · intro a role' change hmeaning
      obtain ⟨hrole, -, -, hadvanced⟩ := meaning_addColumn hmeaning
      exact ⟨hrole, hadvanced hcolumn _⟩
    · intro a change l₁ hmeaning h₁ hmode
      obtain ⟨-, htable, hcolumns, -⟩ := meaning_addColumn hmeaning
      have hsubset : v.columns ⊆ (change.getD v).columns := by
        rw [hcolumns]
        exact Finset.subset_insert _ _
      have hmem : column ∈ (change.getD v).columns := by
        rw [hcolumns]
        exact Finset.mem_insert_self _ _
      dsimp only
      split
      · -- the default of `applied_at` concerns later rows alone
        refine follows_adopt h₁.in (fun _ => h₁.toBegun) (fun _ => trivial) ?_ ?_ fun _ _ => id
        · intro a role' change hmeaning
          obtain ⟨rfl, rfl⟩ := meaning_setDefault hmeaning
          exact ⟨rfl, .refl _⟩
        · intro a change' l₂ hmeaning h₂ hmode'
          obtain ⟨-, rfl⟩ := meaning_setDefault hmeaning
          exact ⟨_, h₂, hmode'.trans hmode, hsubset, hmem, htable⟩
      · exact ⟨_, h₁, hmode, hsubset, hmem, htable⟩

/-- **The table** is there, with all columns that the runner needs, whatever was there before. -/
theorem follows_ensureStateTable (h : Entered σ c l) :
    ensureStateTable.Follows (σ.protocol c) (fun l' r =>
      match r with
      | .ok () => ∃ v, Adopting σ c l' v ∧ l'.session.autocommit = l.session.autocommit ∧
        v.table ≠ none ∧ required ⊆ v.columns
      | .error _ => Out σ c l') l := by
  have hbegun : σ.discipline.Exclusive l → Begun σ l l.data := fun hex =>
    ⟨h.base hex, h.base hex, h.inv hex⟩
  unfold ensureStateTable
  apply Program.follows_bind.2
  refine follows_adopt h.toOut.in hbegun (fun _ => trivial) ?_ ?_ fun _ _ => id
  · intro a role' change hmeaning
    obtain ⟨hrole, -, hadvanced⟩ := meaning_createTable hmeaning
    exact ⟨hrole, hadvanced _⟩
  intro a change l₁ hmeaning h₁ hmode₁
  obtain ⟨-, htable, -⟩ := meaning_createTable hmeaning
  generalize change.getD l.data = v at h₁ htable
  apply Program.follows_bind.2
  refine follows_adopt h₁.in (fun _ => h₁.toBegun) (fun _ => trivial) ?_ ?_ fun _ _ => id
  · intro present role' change hmeaning
    obtain ⟨hrole, rfl, -⟩ := meaning_columns hmeaning
    exact ⟨hrole, .refl _⟩
  intro present change l₂ hmeaning h₂ hmode₂
  obtain ⟨-, rfl, rfl⟩ := meaning_columns hmeaning
  rw [Option.getD_none] at h₂
  -- one column after the other
  apply Program.follows_bind.2
  refine (follows_ensureColumn h₂ (by simp [required]) (Finset.Subset.refl _) htable).mono ?_
  rintro l₃ (e | ⟨⟩) h₃
  · exact h₃
  obtain ⟨v₃, h₃, hmode₃, hsubset₃, hname, htable₃⟩ := h₃
  apply Program.follows_bind.2
  refine (follows_ensureColumn h₃ (by simp [required]) hsubset₃ htable₃).mono ?_
  rintro l₄ (e | ⟨⟩) h₄
  · exact h₄
  obtain ⟨v₄, h₄, hmode₄, hsubset₄, hchecksum, htable₄⟩ := h₄
  refine (follows_ensureColumn h₄ (by simp [required]) (hsubset₃.trans hsubset₄) htable₄).mono ?_
  rintro l₅ (e | ⟨⟩) h₅
  · exact h₅
  obtain ⟨v₅, h₅, hmode₅, hsubset₅, happliedAt, htable₅⟩ := h₅
  refine ⟨v₅, h₅, ?_, htable₅, ?_⟩
  · rw [hmode₅, hmode₄, hmode₃, hmode₂, hmode₁]
  · intro column hcolumn
    simp only [required, Finset.mem_insert, Finset.mem_singleton] at hcolumn
    rcases hcolumn with rfl | rfl | rfl
    · exact hsubset₅ (hsubset₄ hname)
    · exact hsubset₅ hchecksum
    · exact happliedAt

variable (σ c) in
/-- After the rows have been read: they are those of the data, which no call has migrated since. -/
structure Read (l : Local (Option Text) (Data O)) (rows : List (ℤ × Option Text)) : Prop extends
    Out σ c l where
  alive : l.session.alive = true
  idle : l.session.transaction = none
  held : σ.discipline.Exclusive l
  unchanged : σ.Advanced l.base l.data []
  table : l.data.table ≠ none
  columns : required ⊆ l.data.columns
  rows_eq : rows = fetched l.data.rows

theorem Advanced.rows_eq {d d' : Data O} (h : σ.Advanced d d' []) : d'.rows = d.rows := by
  rw [Migrations.Advanced.rows h, List.map_nil, List.append_nil]

/-- **The rows** that a call reads are those of the data. -/
theorem follows_readRows (h : Entered σ c l) :
    (appliedVersions false).Follows (σ.protocol c) (fun l' r =>
      match r with
      | .ok rows => Read σ c l' rows ∧ l'.session.autocommit = l.session.autocommit
      | .error _ => Out σ c l') l := by
  show Follows _ _ (ensureStateTable >>= fun _ => _) l
  apply Program.follows_bind.2
  refine (follows_ensureStateTable h).mono ?_
  rintro l₁ (e | ⟨⟩) h₁
  · exact h₁
  obtain ⟨v, h₁, hmode₁, htable, hcolumns⟩ := h₁
  apply Program.follows_bind.2
  refine follows_adopt h₁.in (fun _ => h₁.toBegun) (fun _ => ?_) ?_ ?_ fun _ _ => id
  · -- what it reads was there when it got the lock
    show (l₁.view (l₁.transaction σ.dialect l₁.data)).rows = l₁.data.rows
    rw [h₁.sees.transaction.2.1, h₁.seen.rows_eq, h₁.unchanged.rows_eq]
  · intro rows role' change hmeaning
    obtain ⟨hrole, rfl, -⟩ := meaning_versions hmeaning
    exact ⟨hrole, .refl _⟩
  intro rows change l₂ hmeaning h₂ hmode₂
  obtain ⟨-, rfl, rfl⟩ := meaning_versions hmeaning
  rw [Option.getD_none] at h₂
  apply Program.follows_bind.2
  refine follows_commit h₂.toWithin ⟨h₂.kept, progress_of_advanced h₂.seen⟩ ?_ fun _ _ => id
  intro l₃ h₃ hex halive hidle hmode₃ hbase hdata
  have hseen := h₂.seen
  rw [← hbase, ← hdata] at hseen
  rw [← hdata] at htable hcolumns ⊢
  exact ⟨⟨h₃, halive, hidle, hex, hseen, htable, hcolumns, rfl⟩, by rw [hmode₃, hmode₂, hmode₁]⟩

end Tokenweir.Migrations.Setting
