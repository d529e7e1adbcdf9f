import Tokenweir.Migrations.EntryPoints

/-!
# The runner resumes

One session at a time that makes any sequence of `apply` calls, with a failure at any statement or
commit: the recorded versions are those whose SQL has been committed, nothing runs twice, a
database that is refused is left alone, and a call that returns leaves the same database, however
many calls it took.

* `Exact`; `exact_of_advanced`;
* `ApplyCalls`, `Returned`, `AboutToRun`; `sound_of_run`, the discipline along a run; `spared_of_run`;
* `resumable`.
-/

namespace Tokenweir.Migrations

variable {O : Type} {u : Characters} {effect : Option Text → Text → O → Option O}
  {files : List (Text × Text)}

/-- Parties that run the entry points. -/
abbrev Parties (ι O : Type) :=
  World ι Statement Rows (Option Text) (Data O) Error Unit Call

variable (u effect files) in
/-- What has been recorded is what has been run, in order, each migration once, with its own
checksum. -/
structure Exact (start d : Data O) : Prop where
  rows : d.rows = start.rows ++ d.journal.map fun e => e.1.record u
  objects : runAll effect d.journal start.objects = some d.objects
  order : d.journal.map Prod.fst <+: outstanding (released u files) start
  ascending : (d.journal.map fun e => e.1.version).Pairwise (· < ·)
  unrecorded : ∀ e ∈ d.journal, e.1.version ∉ start.rows.map Applied.version

theorem exact_of_advanced {start d : Data O} {ran : List (Migration × Option Text)}
    (hstart : start.journal = []) (h : Advanced u effect (released u files) start d ran) :
    d.journal = ran ∧ Exact u effect files start d := by
  have hjournal : d.journal = ran := by
    rw [h.journal, hstart, List.nil_append]
  subst hjournal
  obtain ⟨rest, hrest⟩ := h.order
  have hsub : (d.journal.map Prod.fst).Sublist (released u files) := by
    refine (List.sublist_append_left _ rest).trans ?_
    rw [← hrest]
    exact List.filter_sublist
  refine ⟨rfl, h.rows, h.objects, ⟨rest, hrest.symm⟩, ?_, fun e he => ?_⟩
  · have hascending := (released_versions u files).sublist (hsub.map Migration.version)
    rwa [List.map_map] at hascending
  · have hmem : e.1 ∈ outstanding (released u files) start := by
      rw [hrest]
      exact List.mem_append_left _ (List.mem_map_of_mem he)
    exact of_decide_eq_true (List.mem_filter.1 hmem).2

section Runs

variable {start : Data O} {w w' : Parties Unit O} {as : List (Action Unit Error Call)}
  {es : List Empty}

variable (u effect files start) in
/-- A session that is alone, in a run with these calls. -/
def alone (as : List (Action Unit Error Call)) : Setting O :=
  ⟨u, effect, files, True, start, fun role => ∃ o, .start () (.apply o) ∈ as ∧ o.readerRole = role⟩

/-- All calls are calls of `apply`, with any options. -/
def ApplyCalls (as : List (Action Unit Error Call)) : Prop :=
  ∀ c, .start () c ∈ as → ∃ o, c = .apply o

/-- The last call was one of `apply`, and has returned normally. -/
def Returned (w : Parties Unit O) : Prop :=
  (∃ o, (w.party ()).call = some (.apply o)) ∧ (w.party ()).program = .done (.ok ())

/-- The next request is the SQL of a migration, on a session that is open. -/
def AboutToRun (w : Parties Unit O) (m : Migration) : Prop :=
  (w.party ()).session.alive = true ∧
    ∃ next, (w.party ()).program = .ask (.statement (.run m)) next

/-- A call begins as the discipline says. -/
theorem follows_alone {c : Call} (hc : .start () c ∈ as) (ho : ∃ o, c = .apply o)
    {l : Local (Option Text) (Data O)} (hspent : l.session.Spent)
    (hinv : (alone u effect files start as).discipline.inv l.data) (hbase : l.base = l.data) :
    (entryPoint u files c l.session).Follows ((alone u effect files start as).protocol c)
      ((alone u effect files start as).discipline.Post c) l := by
  obtain ⟨o, rfl⟩ := ho
  refine Setting.follows_entryPoint (σ := alone u effect files start as) (.inr trivial) ?_ hspent
    hinv hbase
  rintro _ ⟨⟩
  exact ⟨o, hc, rfl⟩

/-- **What holds after every run.** -/
theorem sound_of_run {bs : List (Action Unit Error Call)} (hbs : bs ⊆ as) (hw : w.Initial start)
    (hcalls : ApplyCalls as)
    (h : (World.machine (dialect u effect) (entryPoint u files)).run w bs = some (w', es)) :
    (alone u effect files start as).discipline.Sound (dialect u effect) w' := by
  refine Discipline.sound_run (fun _ => inferInstance) ?_ (Discipline.sound_initial hw ?_) h
  · rintro ⟨⟩ c hc l hspent hinv hbase
    exact follows_alone (hbs hc) (hcalls c (hbs hc)) hspent hinv hbase
  · exact ⟨[], .refl start, fun _ he => nomatch he⟩

/-- In a call that has met a database that it must not migrate. -/
structure Spared (w : Parties Unit O) (o : Options) (met : Data O) : Prop where
  call : (w.party ()).call = some (.apply o)
  base : (w.party ()).base.rows = met.rows ∧ (w.party ()).base.journal = met.journal
  data : w.data.rows = met.rows ∧ w.data.journal = met.journal

/-- A call that must not migrate has not migrated anything. -/
theorem spared_of_base {o : Options} {met : Data O} (hrefused : Refused u (released u files) o met)
    (hw : (alone u effect files start as).discipline.Sound (dialect u effect) w)
    (hcall : (w.party ()).call = some (.apply o))
    (hbase : (w.party ()).base.rows = met.rows ∧ (w.party ()).base.journal = met.journal) :
    Spared w o met := by
  obtain ⟨ran, hran, hallowed⟩ := hw.progress hcall (.inl trivial)
  have hnil : ran = [] := by
    cases ran with
    | nil => rfl
    | cons e ran =>
      obtain ⟨_, ⟨⟩, -, hnot⟩ := hallowed e (List.mem_cons_self ..)
      exact absurd ((refused_congr hbase.1).2 hrefused)
        hnot
  subst hnil
  refine ⟨hcall, hbase, hran.rows_eq.trans hbase.1, ?_⟩
  rw [hran.journal, List.append_nil, hbase.2]

/-- **A refused database** is left alone from the beginning of the call to its end. -/
theorem spared_of_run {o : Options} {as₂ : List (Action Unit Error Call)}
    (hcalls : ∀ c, .start () c ∉ as₂) (hrefused : Refused u (released u files) o w.data)
    (hw : (alone u effect files start as).discipline.Sound (dialect u effect) w)
    (ho : .start () (.apply o) ∈ as)
    (h : (World.machine (dialect u effect) (entryPoint u files)).run w
      (.start () (.apply o) :: as₂) = some (w', es)) : Spared w' o w.data := by
  obtain ⟨v, e, es', hstart, hrun, -⟩ := Machine.run_cons.1 h
  replace hstart := World.step_of_machine hstart
  have hsound : ∀ {a : Action Unit Error Call} {w₁ w₂ : Parties Unit O},
      (∀ c, a = .start () c → c = .apply o) →
      (alone u effect files start as).discipline.Sound (dialect u effect) w₁ →
      w₁.step (dialect u effect) (entryPoint u files) a = some w₂ →
      (alone u effect files start as).discipline.Sound (dialect u effect) w₂ := by
    intro a w₁ w₂ ha hw₁ hstep
    refine Discipline.sound_step (fun _ => inferInstance) ?_ hw₁ hstep
    rintro ⟨⟩ c hc l hspent hinv hbase
    obtain rfl := ha c hc
    exact follows_alone ho ⟨o, rfl⟩ hspent hinv hbase
  have hv := hsound (fun c hc => by cases hc; rfl) hw hstart
  -- the call begins with the data that it meets
  have hbegin : Spared v o w.data := by
    rw [World.step] at hstart
    split at hstart
    · obtain rfl := Option.some.inj hstart
      refine spared_of_base hrefused hv ?_ ?_
      · rw [World.update_self]
      · rw [World.update_self]
        exact ⟨rfl, rfl⟩
    · cases hstart
  refine (Machine.run_induction (I := fun as' _ w' => as' ⊆ as₂ →
    (alone u effect files start as).discipline.Sound (dialect u effect) w' ∧ Spared w' o w.data)
    (fun _ => ⟨hv, hbegin⟩) ?_ hrun fun _ => id).2
  intro as' es' w₁ a w₂ e ih hstep hsub
  replace hstep := World.step_of_machine hstep
  obtain ⟨hw₁, hspared⟩ := ih fun b hb => hsub (List.mem_append_left _ hb)
  have ha : ∀ c, a ≠ .start () c := by
    rintro c rfl
    exact hcalls c (hsub (List.mem_append_right _ (List.mem_singleton_self _)))
  have hw₂ := hsound (fun c hc => absurd hc (ha c)) hw₁ hstep
  obtain ⟨hcall, hbase⟩ := World.call_of_step hstep () ha
  refine ⟨hw₂, spared_of_base hrefused hw₂ (hcall.trans hspared.call) ?_⟩
  rcases hbase with hbase | hbase
  · rw [hbase]
    exact hspared.base
  · rw [hbase]
    exact hspared.data

/-- What a statement can rely on. -/
theorem good_of_aboutToRun {m : Migration}
    (hw : (alone u effect files start as).discipline.Sound (dialect u effect) w)
    (h : AboutToRun w m) : ∃ o, (w.party ()).call = some (.apply o) ∧
      ¬ Refused u (released u files) o (w.party ()).base ∧
      ∃ rest, outstanding (released u files) w.data = m :: rest := by
  obtain ⟨halive, next, hp⟩ := h
  obtain ⟨c, hc⟩ := hw.exists_call hp
  obtain ⟨-, o, rfl, hnot, hrest⟩ := hw.good hc hp halive
  exact ⟨o, hc, hnot, hrest⟩

/-- What a call leaves that returns. -/
theorem complete_of_returned (hw : (alone u effect files start as).discipline.Sound (dialect u effect) w)
    (h : Returned w) : Complete (released u files) w.data := by
  obtain ⟨⟨o, hcall⟩, hp⟩ := h
  exact (hw.result hcall hp (.inl trivial) rfl o rfl).1

/-- **The runner is resumable and exact.** After every run of `apply` calls on one session, with
failures at any request: what is recorded is what has been run; a call that meets a database that
it must not migrate runs nothing; what is run is the first migration that is outstanding; and when
a call returns, the database is complete, and the same as after any other run with the same role
that ends with a call that returned, an uninterrupted one for example. -/
theorem resumable (hstart : start.journal = []) (hw : w.Initial start) (hcalls : ApplyCalls as)
    (h : (World.machine (dialect u effect) (entryPoint u files)).run w as = some (w', es)) :
    Exact u effect files start w'.data ∧
    (∀ as₁ o as₂ w₁ es₁, as = as₁ ++ .start () (.apply o) :: as₂ → (∀ c, .start () c ∉ as₂) →
      (World.machine (dialect u effect) (entryPoint u files)).run w as₁ = some (w₁, es₁) →
      Refused u (released u files) o w₁.data →
      w'.data.journal = w₁.data.journal ∧ w'.data.rows = w₁.data.rows ∧
        ∀ m, ¬ AboutToRun w' m) ∧
    (∀ m, AboutToRun w' m → ∃ rest, outstanding (released u files) w'.data = m :: rest) ∧
    (Returned w' → Complete (released u files) w'.data ∧
      ∀ v bs v' es', v.Initial start → ApplyCalls bs →
        (World.machine (dialect u effect) (entryPoint u files)).run v bs = some (v', es') →
        Returned v' → (∃ role, ∀ o, .start () (.apply o) ∈ as ++ bs → o.readerRole = role) →
        v'.data = w'.data) := by
  have hsound := sound_of_run (List.Subset.refl as) hw hcalls h
  obtain ⟨ran, hran, hroles⟩ := hsound.inv
  obtain ⟨hjournal, hexact⟩ := exact_of_advanced hstart hran
  refine ⟨hexact, ?_, ?_, fun hreturned => ⟨complete_of_returned hsound hreturned, ?_⟩⟩
  · rintro as₁ o as₂ w₁ es₁ rfl hlast h₁ hrefused
    have ho : Action.start () (.apply o) ∈ as₁ ++ .start () (.apply o) :: as₂ :=
      List.mem_append_right _ (List.mem_cons_self ..)
    have hsound₁ := sound_of_run (List.subset_append_left as₁ _) hw hcalls h₁
    obtain ⟨w₁', es₁', es₂', h₁', h₂, -⟩ := Machine.run_append.1 h
    obtain ⟨rfl, -⟩ := Prod.mk.inj (Option.some.inj (h₁.symm.trans h₁'))
    have hspared := spared_of_run hlast hrefused hsound₁ ho h₂
    refine ⟨hspared.data.2, hspared.data.1, fun m hm => ?_⟩
    obtain ⟨o', ho', hnot, -⟩ := good_of_aboutToRun hsound hm
    obtain ⟨⟩ := hspared.call.symm.trans ho'
    exact hnot ((refused_congr hspared.base.1).2 hrefused)
  · intro m hm
    obtain ⟨-, -, -, hrest⟩ := good_of_aboutToRun hsound hm
    exact hrest
  · rintro v bs v' es' hv hbs h' hreturned' ⟨role, hrole⟩
    have hsound' := sound_of_run (List.Subset.refl bs) hv hbs h'
    obtain ⟨ran', hran', hroles'⟩ := hsound'.inv
    refine hran'.eq_of_complete (released_nodup u files) hran (complete_of_returned hsound' hreturned')
      (complete_of_returned hsound hreturned) fun e he e' he' => ?_
    -- all migrations are run for the one role
    obtain ⟨o, ho, hrole₁⟩ := hroles' e he
    obtain ⟨o', ho', hrole₂⟩ := hroles e' he'
    rw [← hrole₁, ← hrole₂, hrole o (List.mem_append_right _ ho),
      hrole o' (List.mem_append_left _ ho')]

end Runs

/-! ### An example -/

/-- ASCII, and the digests of the two texts below. -/
def asciiCharacters : Characters where
  digit c := if 48 ≤ c.val ∧ c.val ≤ 57 then some (c.val - 48) else none
  isWord c := decide (48 ≤ c.val ∧ c.val ≤ 57 ∨ 65 ≤ c.val ∧ c.val ≤ 90 ∨ 97 ≤ c.val ∧ c.val ≤ 122 ∨
    c.val = 95)
  sha256 text :=
    if text = Text.of "CREATE TABLE a ();" then
      Text.of "902f5c947b00294d6b0cdb41666553a31c51672ed6e65af6209e622790dce7b1"
    else Text.of "82415ef6a49d008d43c44f90c4256a346375c6c3b0c51bbcef6fd15137b3e780"

def twoFiles : List (Text × Text) :=
  [(Text.of "001_a.sql", Text.of "CREATE TABLE a ();"),
    (Text.of "002_b.sql", Text.of "CREATE TABLE b ();")]

/-- What these statements do to the names of the tables. -/
def createTables : Option Text → Text → List Text → Option (List Text) := fun _ sql tables =>
  let name := (sql.drop 13).take 1
  if name ∈ tables then none else some (tables ++ [name])

/-- A new database with new sessions. -/
def freshParties (ι : Type) : Parties ι (List Text) where
  data := ⟨none, [], []⟩
  lock := none
  party _ := ⟨.opened false false, none, .done (.error .database), none, ⟨none, [], []⟩, false⟩

theorem freshParties_initial (ι : Type) [DecidableEq ι] :
    (freshParties ι).Initial ⟨none, [], []⟩ where
  data := rfl
  call _ := rfl
  program _ := ⟨_, rfl⟩
  spent _ := Session.spent_of_none rfl
  inside _ := rfl

/-- A call whose second migration fails at its commit, and another call. -/
def failAndResume : List (Action Unit Error Call) :=
  .start () (.apply ⟨none, false, true, true⟩) :: .issue () :: List.replicate 11 (.succeed ()) ++
    .fail () .database :: List.replicate 3 (.succeed ()) ++
    .start () (.apply ⟨none, false, true, true⟩) :: .issue () :: List.replicate 11 (.succeed ())

/-- Whether the last call has returned normally. -/
def hasReturned (w : Parties Unit O) : Bool :=
  match (w.party ()).call, (w.party ()).program with
  | some (.apply _), .done (.ok ()) => true
  | _, _ => false

theorem returned_of_hasReturned {w : Parties Unit O} (h : hasReturned w = true) : Returned w := by
  unfold hasReturned at h
  split at h
  · rename_i o hcall hprogram
    exact ⟨⟨o, hcall⟩, hprogram⟩
  · cases h

/-- The second call finishes what the first one has left. -/
theorem resumable_second_call : ∃ w' es,
    (World.machine (dialect asciiCharacters createTables)
      (entryPoint asciiCharacters twoFiles)).run (freshParties Unit) failAndResume = some (w', es) ∧
    Exact asciiCharacters createTables twoFiles ⟨none, [], []⟩ w'.data ∧
    Complete (released asciiCharacters twoFiles) w'.data := by
  have hrun : ((World.machine (dialect asciiCharacters createTables)
      (entryPoint asciiCharacters twoFiles)).run (freshParties Unit) failAndResume).any
        (fun x => hasReturned x.1) = true := by
    decide +kernel
  obtain ⟨⟨w', es⟩, h, hreturned⟩ := (Option.any_eq_true ..).1 hrun
  have hcalls : ApplyCalls failAndResume := by
    rintro c hc
    refine ⟨⟨none, false, true, true⟩, ?_⟩
    simpa [failAndResume, List.mem_replicate] using hc
  obtain ⟨hexact, -, -, hend⟩ := resumable rfl (freshParties_initial Unit) hcalls h
  exact ⟨w', es, h, hexact, (hend (returned_of_hasReturned hreturned)).1⟩

end Tokenweir.Migrations
