import Tokenweir.Migrations.Model

/-!
# What migrations should do to a database

The abstract view of the runner: some of the outstanding migrations, in order, are run and
recorded, and nothing else happens to the rows and the objects.

* `released`, `outstanding`, `Refused`, `Complete`; `runAll`;
* `Advanced`, `Advanced.trans`, `Advanced.outstanding_eq`; `Advanced.adopt`, `Advanced.one`;
* `not_refused`, what the checks of the runner come to;
* `Advanced.eq_of_complete`, a complete database does not tell how it became so.
-/

namespace Tokenweir.Migrations

variable (u : Characters) {O : Type} (effect : Option Text → Text → O → Option O)
  (shipped : List Migration)

/-! ### Migrations to run -/

/-- The migrations that ship, none if the files are refused. -/
def released (files : List (Text × Text)) : List Migration := (discover u files).toOption.getD []

theorem released_versions (files : List (Text × Text)) :
    ((released u files).map Migration.version).Pairwise (· < ·) := by
  unfold released
  cases h : discover u files with
  | error e => exact List.Pairwise.nil
  | ok migrations =>
    show (migrations.map Migration.version).Pairwise (· < ·)
    rw [(discover_versions u h).2, List.pairwise_map]
    refine List.pairwise_lt_range.imp fun hlt => ?_
    omega

theorem released_nodup (files : List (Text × Text)) :
    ((released u files).map Migration.version).Nodup :=
  (released_versions u files).imp ne_of_lt

/-- The shipped migrations that are not recorded, in order. -/
def outstanding (d : Data O) : List Migration :=
  shipped.filter fun m => m.version ∉ d.rows.map Applied.version

/-- What `apply` must not migrate: a database with a version that is not shipped, with a checksum
that differs, or that a destructive migration would be run on. -/
def Refused (o : Options) (d : Data O) : Prop :=
  (∃ row ∈ d.rows, ∀ m ∈ shipped, m.version ≠ row.version) ∨
  (o.verifyChecksums = true ∧ ∃ row ∈ d.rows, ∃ m ∈ shipped, m.version = row.version ∧
    ∃ checksum, row.checksum = some checksum ∧ checksum ≠ m.checksum u) ∨
  (o.allowDestructive = false ∧ ∃ m ∈ outstanding shipped d, destructiveStatements u m.sql ≠ [])

/-- The SQL of some migrations, one after the other, each for its role. -/
def runAll : List (Migration × Option Text) → O → Option O
  | [], objects => some objects
  | e :: es, objects => (effect e.2 e.1.sql objects).bind (runAll es)

/-- The columns of the runner's table beside the version. -/
def Data.columns (d : Data O) : Finset Text := d.table.elim ∅ StateTable.columns

/-- The columns that the runner needs. -/
def required : Finset Text := {nameColumn, checksumColumn, appliedAtColumn}

/-- A database with all migrations. -/
structure Complete (d : Data O) : Prop where
  table : d.table ≠ none
  columns : required ⊆ d.columns
  outstanding : outstanding shipped d = []

/-- `d'` is `d` after some of its outstanding migrations, in order. -/
structure Advanced (d d' : Data O) (ran : List (Migration × Option Text)) : Prop where
  journal : d'.journal = d.journal ++ ran
  rows : d'.rows = d.rows ++ ran.map fun e => e.1.record u
  objects : runAll effect ran d.objects = some d'.objects
  order : ∃ rest, outstanding shipped d = ran.map Prod.fst ++ rest
  columns : d.columns ⊆ d'.columns
  columns_subset : d'.columns ⊆ d.columns ∪ required

variable {u effect shipped} {d d' d'' : Data O} {ran ran' : List (Migration × Option Text)}

theorem runAll_append (es es' : List (Migration × Option Text)) (objects : O) :
    runAll effect (es ++ es') objects = (runAll effect es objects).bind (runAll effect es') := by
  induction es generalizing objects with
  | nil => rfl
  | cons e es ih =>
    rw [List.cons_append, runAll, runAll, Option.bind_assoc]
    exact congrArg _ (funext ih)

/-- Migrations that have been recorded are not outstanding any more. -/
theorem outstanding_append (hnodup : (shipped.map Migration.version).Nodup) {ms rest : List Migration}
    (hrows : d'.rows.map Applied.version = d.rows.map Applied.version ++ ms.map Migration.version)
    (h : outstanding shipped d = ms ++ rest) : outstanding shipped d' = rest := by
  have hsplit : outstanding shipped d' =
      (outstanding shipped d).filter fun m => m.version ∉ ms.map Migration.version := by
    unfold outstanding
    rw [List.filter_filter, hrows]
    refine List.filter_congr fun m _ => ?_
    simp only [List.mem_append, not_or, Bool.decide_and, Bool.and_comm]
  have hdistinct : ((ms ++ rest).map Migration.version).Nodup :=
    h ▸ hnodup.sublist (List.filter_sublist.map _)
  rw [List.map_append, List.nodup_append] at hdistinct
  rw [hsplit, h, List.filter_append, List.filter_eq_nil_iff.2, List.filter_eq_self.2,
    List.nil_append]
  · intro m hm
    refine decide_eq_true fun hmem => ?_
    exact hdistinct.2.2 _ hmem _ (List.mem_map_of_mem hm) rfl
  · intro m hm hnot
    exact of_decide_eq_true hnot (List.mem_map_of_mem hm)

theorem Advanced.versions (h : Advanced u effect shipped d d' ran) :
    d'.rows.map Applied.version =
      d.rows.map Applied.version ++ (ran.map Prod.fst).map Migration.version := by
  rw [h.rows, List.map_append, List.map_map, List.map_map]
  rfl

/-- What is left to run. -/
theorem Advanced.outstanding_eq (hnodup : (shipped.map Migration.version).Nodup)
    (h : Advanced u effect shipped d d' ran) :
    outstanding shipped d = ran.map Prod.fst ++ outstanding shipped d' := by
  obtain ⟨rest, hrest⟩ := h.order
  rw [outstanding_append hnodup h.versions hrest, hrest]

theorem Advanced.refl (d : Data O) : Advanced u effect shipped d d [] where
  journal := (List.append_nil _).symm
  rows := (List.append_nil _).symm
  objects := rfl
  order := ⟨_, rfl⟩
  columns := Finset.Subset.refl _
  columns_subset := Finset.subset_union_left

theorem Advanced.trans (hnodup : (shipped.map Migration.version).Nodup)
    (h : Advanced u effect shipped d d' ran) (h' : Advanced u effect shipped d' d'' ran') :
    Advanced u effect shipped d d'' (ran ++ ran') where
  journal := by rw [h'.journal, h.journal, List.append_assoc]
  rows := by rw [h'.rows, h.rows, List.append_assoc, List.map_append]
  objects := by rw [runAll_append, h.objects, Option.bind_some, h'.objects]
  order := by
    obtain ⟨rest, hrest⟩ := h'.order
    refine ⟨rest, ?_⟩
    rw [h.outstanding_eq hnodup, hrest, List.map_append, List.append_assoc]
  columns := h.columns.trans h'.columns
  columns_subset := by
    refine h'.columns_subset.trans (Finset.union_subset ?_ Finset.subset_union_right)
    exact h.columns_subset

/-- A change of the columns alone. -/
theorem Advanced.adopt {table : Option StateTable} (hrows : ({ d with table } : Data O).rows = d.rows)
    (hcolumns : d.columns ⊆ ({ d with table } : Data O).columns)
    (hsubset : ({ d with table } : Data O).columns ⊆ d.columns ∪ required) :
    Advanced u effect shipped d { d with table } [] :=
  ⟨(List.append_nil _).symm, hrows.trans (List.append_nil _).symm, rfl, ⟨_, rfl⟩, hcolumns, hsubset⟩

/-- One migration with its row. -/
theorem Advanced.one {m : Migration} {role : Option Text} {t t' : StateTable} {objects : O}
    {rest : List Migration} (ht : d.table = some t) (hinsert : t.insert (m.record u) = some t')
    (hobjects : effect role m.sql d.objects = some objects)
    (hm : outstanding shipped d = m :: rest) :
    Advanced u effect shipped d ⟨some t', objects, d.journal ++ [(m, role)]⟩ [(m, role)] := by
  unfold StateTable.insert at hinsert
  split at hinsert
  · obtain rfl := Option.some.inj hinsert
    have hrows : d.rows = t.rows := by rw [Data.rows, ht]; rfl
    have hcolumns : d.columns = t.columns := by rw [Data.columns, ht]; rfl
    refine ⟨rfl, ?_, ?_, ⟨rest, hm⟩, ?_, ?_⟩
    · rw [hrows]
      rfl
    · rw [runAll, hobjects]
      rfl
    · rw [hcolumns]
      exact Finset.Subset.refl _
    · rw [hcolumns]
      exact Finset.subset_union_left
  · cases hinsert

/-! ### The checks -/

theorem mem_fetched {rows : List Applied} {x : ℤ × Option Text} :
    x ∈ fetched rows ↔ ∃ row ∈ rows, (row.version, row.checksum) = x := by
  rw [fetched, List.mem_insertionSort, List.mem_map]

/-- The shipped migration of a version is the one that has it. -/
theorem byVersion_eq (hnodup : (shipped.map Migration.version).Nodup) {m : Migration}
    (hm : m ∈ shipped) {version : ℤ} (h : m.version = version) :
    byVersion shipped version = some m := by
  cases hfind : byVersion shipped version with
  | none => exact absurd (decide_eq_true h) (List.find?_eq_none.1 hfind m hm)
  | some found =>
    have hversion : found.version = version := by simpa using List.find?_some hfind
    exact congrArg some (List.inj_on_of_nodup_map hnodup (List.mem_of_find?_eq_some hfind) hm
      (hversion.trans h.symm))

/-- The runner computes what is outstanding from the rows that it has fetched. -/
theorem notApplied_fetched (d : Data O) :
    notApplied shipped (fetched d.rows) = outstanding shipped d := by
  refine List.filter_congr fun m _ => ?_
  have hmem : m.version ∈ (fetched d.rows).map Prod.fst ↔ m.version ∈ d.rows.map Applied.version := by
    simp only [List.mem_map, mem_fetched]
    constructor
    · rintro ⟨x, ⟨row, hrow, rfl⟩, hx⟩
      exact ⟨row, hrow, hx⟩
    · rintro ⟨row, hrow, hx⟩
      exact ⟨_, ⟨row, hrow, rfl⟩, hx⟩
  rw [decide_eq_decide, hmem]

/-- **The checks** let no database pass that must not be migrated. -/
theorem not_refused (hnodup : (shipped.map Migration.version).Nodup) {o : Options}
    (hcheck : checkApplied u (fetched d.rows) shipped o.verifyChecksums = .ok ())
    (hoffenders : o.allowDestructive = true ∨ offenders u (outstanding shipped d) = []) :
    ¬ Refused u shipped o d := by
  unfold checkApplied at hcheck
  dsimp only at hcheck
  split at hcheck
  · cases hcheck
  rename_i hunknown
  rw [not_not, List.filter_eq_nil_iff] at hunknown
  rintro (⟨row, hrow, hnone⟩ | ⟨hverify, row, hrow, m, hm, hversion, checksum, hsome, hne⟩ |
    ⟨hallow, m, hm, hfound⟩)
  · refine hunknown _ (mem_fetched.2 ⟨row, hrow, rfl⟩) ?_
    rw [Option.isNone_iff_eq_none]
    exact List.find?_eq_none.2 fun m hm heq => hnone m hm (of_decide_eq_true heq)
  · rw [if_pos hverify] at hcheck
    split at hcheck
    · cases hcheck
    rename_i hchanged
    rw [not_not, List.filterMap_eq_nil_iff] at hchanged
    have hnone := hchanged _ (mem_fetched.2 ⟨row, hrow, rfl⟩)
    simp [hsome, byVersion_eq hnodup hm hversion, hne] at hnone
  · rcases hoffenders with hoffenders | hoffenders
    · rw [hallow] at hoffenders
      cases hoffenders
    · rw [offenders, List.filter_eq_nil_iff] at hoffenders
      exact hoffenders _ (List.mem_map_of_mem hm) (decide_eq_true hfound)

theorem refused_congr {o : Options} (h : d'.rows = d.rows) :
    Refused u shipped o d' ↔ Refused u shipped o d := by
  unfold Refused outstanding
  rw [h]

/-! ### The end -/

theorem table_eq {t t' : StateTable} (hrows : t.rows = t'.rows) (hcolumns : t.columns = t'.columns) :
    t = t' := by
  obtain ⟨columns, rows, _, _, _⟩ := t
  obtain ⟨columns', rows', _, _, _⟩ := t'
  cases hrows
  cases hcolumns
  rfl

/-- **Complete databases** that come from one database, with the same roles, are the same. -/
theorem Advanced.eq_of_complete (hnodup : (shipped.map Migration.version).Nodup)
    (h : Advanced u effect shipped d d' ran) (h' : Advanced u effect shipped d d'' ran')
    (hcomplete : Complete shipped d') (hcomplete' : Complete shipped d'')
    (hroles : ∀ e ∈ ran, ∀ e' ∈ ran', e.2 = e'.2) : d' = d'' := by
  -- both have run all that was outstanding
  have hran := h.outstanding_eq hnodup
  have hran' := h'.outstanding_eq hnodup
  rw [hcomplete.outstanding, List.append_nil] at hran
  rw [hcomplete'.outstanding, List.append_nil] at hran'
  have hmaps : ran.map Prod.fst = ran'.map Prod.fst := hran.symm.trans hran'
  have hsame : ran = ran' := by
    refine List.ext_getElem (by simpa using congrArg List.length hmaps) fun i hi hi' => ?_
    have hfst := List.getElem_of_eq hmaps ((List.length_map _).symm ▸ hi)
    rw [List.getElem_map, List.getElem_map] at hfst
    exact Prod.ext hfst (hroles _ (List.getElem_mem hi) _ (List.getElem_mem hi'))
  subst hsame
  have hcolumns : ∀ {e : Data O}, Advanced u effect shipped d e ran → Complete shipped e →
      e.columns = d.columns ∪ required := fun he hc =>
    he.columns_subset.antisymm (Finset.union_subset he.columns hc.columns)
  have hobjects := Option.some.inj (h.objects.symm.trans h'.objects)
  have hjournal := h.journal.trans h'.journal.symm
  have hrows := h.rows.trans h'.rows.symm
  have hcols := (hcolumns h hcomplete).trans (hcolumns h' hcomplete').symm
  have htable := hcomplete.table
  have htable' := hcomplete'.table
  obtain ⟨table, objects, journal⟩ := d'
  obtain ⟨table', objects', journal'⟩ := d''
  dsimp only at hobjects hjournal
  subst hobjects hjournal
  cases table with
  | none => exact absurd rfl htable
  | some t =>
    cases table' with
    | none => exact absurd rfl htable'
    | some t' =>
      have heq : t = t' := table_eq hrows hcols
      subst heq
      rfl

end Tokenweir.Migrations
