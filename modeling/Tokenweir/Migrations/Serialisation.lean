import Tokenweir.Migrations.Resumption

/-!
# Migrators are serialised

Any number of sessions that run the entry points with the advisory lock, in any interleaving of
their statements, with failures and with sessions that are closed: no two of them are in their
critical sections at once, and each decides and migrates on the data as its predecessor has left
them.

* `locked`, the setting; `sound_of_locked`;
* `serialised`.
-/

namespace Tokenweir.Migrations

variable {O : Type} {u : Characters} {effect : Option Text → Text → O → Option O}
  {files : List (Text × Text)} {ι : Type}

/-- The next request of a session that is open is this statement. -/
def AboutTo (w : Parties ι O) (i : ι) (s : Statement) : Prop :=
  (w.party i).session.alive = true ∧ ∃ next, (w.party i).program = .ask (.statement s) next

section Runs

variable [DecidableEq ι] {start : Data O} {w w' : Parties ι O} {as : List (Action ι Error Call)}
  {es : List Empty}

variable (u effect files start) in
/-- Sessions that exclude one another by the lock. -/
def locked : Setting O := ⟨u, effect, files, False, start, fun _ => True⟩

/-- **What holds after every run.** -/
theorem sound_of_locked (hw : w.Initial start) (hcalls : ∀ i c, .start i c ∈ as → c.lock = true)
    (h : (World.machine (dialect u effect) (entryPoint u files)).run w as = some (w', es)) :
    (locked u effect files start).discipline.Sound (dialect u effect) w' := by
  refine Discipline.sound_run False.elim ?_ (Discipline.sound_initial hw ?_) h
  · rintro i c hc l hspent hinv hbase
    exact Setting.follows_entryPoint (σ := locked u effect files start) (.inl (hcalls i c hc))
      (fun _ _ => trivial) hspent hinv hbase
  · exact ⟨[], .refl start, fun _ he => nomatch he⟩

/-- A session that is about to make a statement holds the lock, and knows what it makes it for. -/
theorem good_of_aboutTo {i : ι} {s : Statement}
    (hw : (locked u effect files start).discipline.Sound (dialect u effect) w) (h : AboutTo w i s) :
    0 < w.locks i ∧ ∃ c, (w.party i).call = some c ∧
      (locked u effect files start).discipline.good c (w.local_ i) s := by
  obtain ⟨halive, next, hp⟩ := h
  obtain ⟨c, hc⟩ := hw.exists_call hp
  obtain ⟨hex, hgood⟩ := hw.good hc hp halive
  exact ⟨hex.resolve_left id, c, hc, hgood⟩

/-- **Concurrent migrators are serialised.** After every run, in any interleaving: at most one
session has made a statement and not yet given back the lock, or is about to make one; each
migration has been committed once at most; a session is about to insert only a version that nobody
has recorded; what it reads is what has been committed last; and what it runs is the first
migration that is outstanding then. -/
theorem serialised (hstart : start.journal = []) (hw : w.Initial start)
    (hcalls : ∀ i c, .start i c ∈ as → c.lock = true)
    (h : (World.machine (dialect u effect) (entryPoint u files)).run w as = some (w', es)) :
    (∀ i j, (w'.party i).inside = true ∨ (∃ s, AboutTo w' i s) →
      (w'.party j).inside = true ∨ (∃ s, AboutTo w' j s) → i = j) ∧
    (w'.data.journal.map fun e => e.1.version).Nodup ∧
    (∀ i m, AboutTo w' i (.insert m) → m.version ∉ w'.data.rows.map Applied.version) ∧
    (∀ i, AboutTo w' i .versions →
      ((w'.local_ i).view ((w'.local_ i).transaction (dialect u effect) w'.data)).rows =
        w'.data.rows) ∧
    (∀ i m, AboutTo w' i (.run m) →
      ∃ rest, outstanding (released u files) w'.data = m :: rest) := by
  have hsound := sound_of_locked hw hcalls h
  obtain ⟨ran, hran, -⟩ := hsound.inv
  obtain ⟨-, hexact⟩ := exact_of_advanced hstart hran
  have hholds : ∀ i, (w'.party i).inside = true ∨ (∃ s, AboutTo w' i s) → 0 < w'.locks i := by
    rintro i (hinside | ⟨s, hs⟩)
    · exact (hsound.inside i hinside).2.resolve_left id
    · exact (good_of_aboutTo hsound hs).1
  refine ⟨fun i j hi hj => eq_of_heldBy (hholds i hi) (hholds j hj),
    hexact.ascending.imp ne_of_lt, fun i m hm => ?_, fun i hi => ?_, fun i m hm => ?_⟩
  · obtain ⟨-, c, -, rest, hrest⟩ := good_of_aboutTo hsound hm
    have hmem : m ∈ outstanding (released u files) w'.data := by
      have hmem : m ∈ m :: rest := List.mem_cons_self ..
      exact hrest ▸ hmem
    exact of_decide_eq_true (List.mem_filter.1 hmem).2
  · obtain ⟨-, c, -, hrows⟩ := good_of_aboutTo hsound hi
    exact hrows
  · obtain ⟨-, c, -, o, -, -, hrest⟩ := good_of_aboutTo hsound hm
    exact hrest

end Runs

/-- `status` waits for an `apply` on a new database, up to its own read. -/
def statusWaits : List (Action Bool Error Call) :=
  .start true (.status false true) :: .start false (.apply ⟨none, false, true, true⟩) ::
    .issue false :: .succeed false :: .issue true :: List.replicate 13 (.succeed false) ++
    List.replicate 4 (.succeed true)

/-- Whether a session is about to read the rows. -/
def isAboutToRead (w : Parties ι O) (i : ι) : Bool :=
  match (w.party i).program with
  | .ask (.statement .versions) _ => (w.party i).session.alive
  | _ => false

theorem aboutTo_of_isAboutToRead {w : Parties ι O} {i : ι} (h : isAboutToRead w i = true) :
    AboutTo w i .versions := by
  unfold isAboutToRead at h
  split at h
  · rename_i next hprogram
    exact ⟨h, next, hprogram⟩
  · cases h

/-- What it reads is what the other one has committed. -/
theorem serialised_status_waits : ∃ w' es,
    (World.machine (dialect asciiCharacters createTables)
      (entryPoint asciiCharacters twoFiles)).run (freshParties Bool) statusWaits = some (w', es) ∧
    AboutTo w' true .versions ∧
    ((w'.local_ true).view ((w'.local_ true).transaction (dialect asciiCharacters createTables)
      w'.data)).rows = w'.data.rows := by
  have hrun : ((World.machine (dialect asciiCharacters createTables)
      (entryPoint asciiCharacters twoFiles)).run (freshParties Bool) statusWaits).any
        (fun x => isAboutToRead x.1 true) = true := by
    decide +kernel
  obtain ⟨⟨w', es⟩, h, hread⟩ := (Option.any_eq_true ..).1 hrun
  have habout := aboutTo_of_isAboutToRead hread
  have hcalls : ∀ i c, Action.start i c ∈ statusWaits → c.lock = true := by
    rintro i c hc
    simp only [statusWaits, List.cons_append, List.mem_cons, List.mem_append, List.mem_replicate,
      Action.start.injEq, reduceCtorEq, and_false, or_false] at hc
    rcases hc with ⟨-, rfl⟩ | ⟨-, rfl⟩ <;> rfl
  obtain ⟨-, -, -, hrows, -⟩ := serialised rfl (freshParties_initial Bool) hcalls h
  exact ⟨w', es, h, habout, hrows true habout⟩

end Tokenweir.Migrations
