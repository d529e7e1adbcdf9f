import Tokenweir.Lib.Faults
import Tokenweir.Migrations.Resumption

/-!
# The advisory lock at the end of a call

Whether an entry point gives the lock back and leaves its connection outside a failed transaction,
for every way in which its statements and commits may fail.

* `Released`; `Uncleaned`, the failures that the runner does not clean up after; `Clean`;
* `Inside`, `Steady`, `Raised`, `Keeps`, what the runner keeps while it holds the lock;
* `lock_released`, `lock_kept_refusedCreation`.
-/

namespace Tokenweir.Migrations

open Program (Follows)

variable {O : Type}

/-- A session that is watched. -/
abbrev Watch (O : Type) := Watched Statement (Option Text) (Data O)

/-- The session does not hold the lock, and is not in a failed transaction. -/
def Released (w : Watch O) : Prop := w.local_.locks = 0 ∧ ¬w.Aborted

/-! ### The failures that matter -/

/-- The statements on `schema_migrations` outside the transaction of a migration. -/
def Statement.Bookkeeping : Statement → Prop
  | .createTable | .columns | .addColumn _ | .setDefault | .versions => True
  | .setRole _ | .run _ | .insert _ => False

/-- The failures that nothing cleans up after, by what was asked and when: of the request for the
lock, of the commit after it, of a statement that creates or reads `schema_migrations`, and of the
release itself. -/
def Uncleaned (auto : Bool) (k : ℕ) : Request Statement → Prop
  | .lock => auto = false
  | .commit => k = 1
  | .unlock => True
  | .statement s => auto = false ∧ s.Bookkeeping
  | .rollback => False

/-- No request failed that nothing cleans up after. -/
def Clean (auto : Bool) (log : List (Request Statement × Bool)) : Prop :=
  ∀ k q, log[k]? = some (q, false) → ¬Uncleaned auto k q

theorem clean_nil (auto : Bool) : Clean auto [] := by
  intro k q h
  cases h

theorem clean_snoc {auto done : Bool} {log : List (Request Statement × Bool)}
    {q : Request Statement} :
    Clean auto (log ++ [(q, done)]) ↔
      Clean auto log ∧ (done = false → ¬Uncleaned auto log.length q) := by
  constructor
  · intro h
    refine ⟨fun k q' hk => h k q' ?_, ?_⟩
    · rw [List.getElem?_append_left (List.getElem?_eq_some_iff.1 hk).1]
      exact hk
    · rintro rfl
      exact h _ q (by simp)
  · rintro ⟨h, hlast⟩ k q' hk
    rw [List.getElem?_append] at hk
    split at hk
    · exact h k q' hk
    · rename_i hle
      obtain ⟨hlt, heq⟩ := List.getElem?_eq_some_iff.1 hk
      obtain rfl : k = log.length := by
        rw [List.length_singleton] at hlt
        omega
      simp only [Nat.sub_self, List.getElem_cons_zero, Prod.mk.injEq] at heq
      obtain ⟨rfl, rfl⟩ := heq
      exact hlast rfl

/-! ### What the runner keeps -/

/-- The runner holds the lock. -/
structure Inside (auto : Bool) (w : Watch O) : Prop where
  alive : w.local_.session.alive = true
  mode : w.local_.session.autocommit = auto
  locks : w.local_.locks = 1
  begun : 2 ≤ w.log.length

/-- It holds the lock, and its transaction goes on. -/
structure Steady (auto : Bool) (w : Watch O) : Prop extends Inside auto w where
  clean : Clean auto w.log
  good : ¬w.Aborted

/-- It holds the lock, and an error is on its way. -/
structure Raised (auto : Bool) (w : Watch O) : Prop extends Inside auto w where
  aborted_iff : w.Aborted ↔ ¬Clean auto w.log

/-- What a part of the runner keeps that holds the lock. -/
def Keeps {α : Type} (auto : Bool) (w : Watch O) : Except Error α → Prop
  | .ok _ => Steady auto w
  | .error _ => Raised auto w

variable {u : Characters} {effect : Option Text → Text → O → Option O} {auto : Bool}
  {w w' : Watch O} {α β : Type}

/-- The server, as far as the runner knows. -/
abbrev server (u : Characters) (effect : Option Text → Text → O → Option O) :
    Protocol (Watch O) (Request Statement) (Answer Rows) Error :=
  Watched.protocol (dialect u effect)

theorem Steady.raised (h : Steady auto w) : Raised auto w :=
  ⟨h.toInside, iff_of_false h.good (not_not_intro h.clean)⟩

/-- A request that neither takes nor gives back the lock leaves the runner with it. -/
theorem Inside.next {q : Request Statement} {done : Bool} (h : Inside auto w)
    (hleaves : w.Leaves q done w') (hlocks : w'.local_.locks = w.local_.locks) :
    Inside auto w' where
  alive := hleaves.alive
  mode := hleaves.autocommit.trans h.mode
  locks := hlocks.trans h.locks
  begun := by
    rw [hleaves.log, List.length_append]
    exact h.begun.trans (Nat.le_add_right _ _)

theorem Steady.next {q : Request Statement} {a : Answer Rows q} (h : Steady auto w)
    (hdone : Watched.Answered (ε := Error) (dialect u effect) w q (.ok a) w')
    (hlocks : Watched.locksAfter q w.local_.locks = w.local_.locks) : Steady auto w' := by
  obtain ⟨hleaves, hafter, hgood, -⟩ := hdone.done
  refine ⟨h.toInside.next hleaves (hafter.trans hlocks), ?_, hgood⟩
  rw [hleaves.log, clean_snoc]
  exact ⟨h.clean, nofun⟩

/-- A failure while the runner holds the lock. -/
theorem Steady.failed {q : Request Statement} {e : Error} (h : Steady auto w)
    (hfailed : Watched.Answered (dialect u effect) w q (.error e) w') :
    Inside auto w' ∧ (w'.Aborted ↔ q ≠ .commit ∧ auto = false) ∧
      (Clean auto w'.log ↔ ¬Uncleaned auto w.log.length q) := by
  obtain ⟨hleaves, hlocks, -, haborted⟩ := hfailed.failed h.alive
  refine ⟨h.toInside.next hleaves hlocks, ?_, ?_⟩
  · rw [haborted, h.mode]
  · rw [hleaves.log, clean_snoc]
    simp [h.clean]

/-! ### Its functions -/

theorem keeps_bind {p : Db α} {f : α → Db β}
    (hp : p.Follows (server u effect) (Keeps auto) w)
    (hf : ∀ a w, Steady auto w → (f a).Follows (server u effect) (Keeps auto) w) :
    (p >>= f).Follows (server u effect) (Keeps auto) w := by
  rw [Program.follows_bind]
  apply hp.mono
  intro w r h
  cases r with
  | ok a => exact hf a w h
  | error e => exact h

theorem keeps_ofExcept {r : Except Error α} (h : Steady auto w) :
    (Program.ofExcept r : Db α).Follows (server u effect) (Keeps auto) w := by
  cases r with
  | ok a => exact h
  | error e => exact h.raised

/-- A statement on `schema_migrations` that fails leaves its transaction as it is. -/
theorem keeps_execute {s : Statement} (hs : s.Bookkeeping) (h : Steady auto w) :
    (execute s).Follows (server u effect) (Keeps auto) w := by
  refine ⟨trivial, fun x w' hnext => ?_⟩
  cases x with
  | ok a => exact h.next hnext rfl
  | error e =>
    obtain ⟨hinside, haborted, hclean⟩ := h.failed hnext
    refine ⟨hinside, ?_⟩
    rw [haborted, hclean, not_not]
    simp [Uncleaned, hs]

theorem keeps_commit (h : Steady auto w) :
    commit.Follows (server u effect) (Keeps auto) w := by
  refine ⟨trivial, fun x w' hnext => ?_⟩
  cases x with
  | ok a => exact h.next hnext rfl
  | error e =>
    obtain ⟨hinside, haborted, hclean⟩ := h.failed hnext
    refine ⟨hinside, ?_⟩
    rw [haborted, hclean, not_not]
    have hbegun := h.begun
    simp only [ne_eq, not_true_eq_false, false_and, Uncleaned, false_iff]
    omega

theorem keeps_ensureColumn (present : Finset Text) (column : Text) (h : Steady auto w) :
    (ensureColumn present column).Follows (server u effect) (Keeps auto) w := by
  unfold ensureColumn
  split
  · exact h
  · apply keeps_bind (keeps_execute (s := .addColumn column) trivial h)
    intro _ w h
    split
    · exact keeps_execute (s := .setDefault) trivial h
    · exact h

theorem keeps_ensureStateTable (h : Steady auto w) :
    ensureStateTable.Follows (server u effect) (Keeps auto) w := by
  apply keeps_bind (keeps_execute (s := .createTable) trivial h)
  intro _ w h
  apply keeps_bind (keeps_execute (s := .columns) trivial h)
  intro present w h
  apply keeps_bind (keeps_ensureColumn present _ h)
  intro _ w h
  apply keeps_bind (keeps_ensureColumn present _ h)
  intro _ w h
  exact keeps_ensureColumn present _ h

/-- The block of `applied_versions`. -/
theorem keeps_readVersions (h : Steady auto w) :
    (do
      ensureStateTable
      let rows ← execute .versions
      commit
      return rows : Db (List (ℤ × Option Text))).Follows (server u effect) (Keeps auto) w := by
  apply keeps_bind (keeps_ensureStateTable h)
  intro _ w h
  apply keeps_bind (keeps_execute (s := .versions) trivial h)
  intro rows w h
  apply keeps_bind (keeps_commit h)
  intro _ w h
  exact h

/-- `pending`, which does not take the lock again. -/
theorem keeps_pending (files : List (Text × Text)) (verify : Bool) (h : Steady auto w) :
    (pending u files verify false).Follows (server u effect) (Keeps auto) w := by
  apply keeps_bind (keeps_ofExcept h)
  intro shipped w h
  apply keeps_bind (keeps_readVersions h)
  intro applied w h
  apply keeps_bind (keeps_ofExcept h)
  intro _ w h
  exact h

/-! ### Migrations -/

/-- In the transaction of a migration an error does not matter. -/
def Guarded {α : Type} (auto : Bool) (w : Watch O) : Except Error α → Prop
  | .ok _ => Steady auto w
  | .error _ => Inside auto w ∧ Clean auto w.log

theorem guarded_bind {p : Db α} {f : α → Db β}
    (hp : p.Follows (server u effect) (Guarded auto) w)
    (hf : ∀ a w, Steady auto w → (f a).Follows (server u effect) (Guarded auto) w) :
    (p >>= f).Follows (server u effect) (Guarded auto) w := by
  rw [Program.follows_bind]
  apply hp.mono
  intro w r h
  cases r with
  | ok a => exact hf a w h
  | error e => exact h

theorem guarded_execute {s : Statement} (hs : ¬s.Bookkeeping) (h : Steady auto w) :
    (execute s).Follows (server u effect) (Guarded auto) w := by
  refine ⟨trivial, fun x w' hnext => ?_⟩
  cases x with
  | ok a => exact h.next hnext rfl
  | error e =>
    obtain ⟨hinside, -, hclean⟩ := h.failed hnext
    exact ⟨hinside, hclean.2 fun hun => hs hun.2⟩

theorem guarded_commit (h : Steady auto w) :
    commit.Follows (server u effect) (Guarded auto) w := by
  refine ⟨trivial, fun x w' hnext => ?_⟩
  cases x with
  | ok a => exact h.next hnext rfl
  | error e =>
    obtain ⟨hinside, -, hclean⟩ := h.failed hnext
    have hbegun := h.begun
    refine ⟨hinside, hclean.2 fun hun => ?_⟩
    have hone : w.log.length = 1 := hun
    omega

theorem guarded_runAndRecord (readerRole : Option Text) (m : Migration) (h : Steady auto w) :
    (runAndRecord readerRole m).Follows (server u effect) (Guarded auto) w := by
  have hrun : ∀ w, Steady auto w → (do
      execute (.run m)
      execute (.insert m)
      commit : Db Unit).Follows (server u effect) (Guarded auto) w := by
    intro w h
    apply guarded_bind (guarded_execute id h)
    intro _ w h
    apply guarded_bind (guarded_execute id h)
    intro _ w h
    exact guarded_commit h
  unfold runAndRecord
  cases readerRole with
  | none => exact hrun w h
  | some role => exact guarded_bind (guarded_execute id h) fun _ w h => hrun w h

/-- A migration that fails is rolled back. -/
theorem keeps_applyOne (readerRole : Option Text) (m : Migration) (h : Steady auto w) :
    (applyOne readerRole m).Follows (server u effect) (Keeps auto) w := by
  rw [applyOne, Program.follows_tryCatch]
  apply (guarded_runAndRecord readerRole m h).mono
  rintro w (e | a) h
  · obtain ⟨hinside, hclean⟩ := h
    refine ⟨trivial, fun x w' hnext => ?_⟩
    cases x with
    | ok a =>
      obtain ⟨hleaves, hlocks, hgood, -⟩ := hnext.done
      refine ⟨hinside.next hleaves hlocks, iff_of_false hgood (not_not_intro ?_)⟩
      rw [hleaves.log, clean_snoc]
      exact ⟨hclean, nofun⟩
    | error e => exact absurd rfl (hnext.failed hinside.alive).2.2.1
  · exact h

theorem keeps_applyAll (readerRole : Option Text) (ms : List Migration) (h : Steady auto w) :
    (applyAll readerRole ms).Follows (server u effect) (Keeps auto) w := by
  induction ms generalizing w with
  | nil => exact h
  | cons m ms ih =>
    apply keeps_bind (keeps_applyOne readerRole m h)
    intro _ w h
    exact ih h

/-! ### The lock -/

/-- The lock before a block: where it is not got, or not for sure, the block does not begin. -/
theorem follows_acquire {l : Local (Option Text) (Data O)} (halive : l.session.alive = true)
    (hlocks : l.locks = 0) :
    (do acquireLock; commit : Db Unit).Follows (server u effect) (fun w r =>
      match r with
      | .ok _ => Steady l.session.autocommit w
      | .error _ => Released w ↔ Clean l.session.autocommit w.log) ⟨l, []⟩ := by
  refine ⟨trivial, fun x w hnext => ?_⟩
  cases x with
  | error e =>
    -- the request for the lock fails its transaction
    obtain ⟨hleaves, hlocked, -, haborted⟩ := hnext.failed halive
    show Released w ↔ Clean _ w.log
    rw [hleaves.log, clean_snoc, Released, hlocked, haborted]
    simp [hlocks, clean_nil, Uncleaned]
  | ok a =>
    obtain ⟨hleaves, hlocked, -, -⟩ := hnext.done
    refine ⟨trivial, fun x w' hnext' => ?_⟩
    have hone : w.local_.locks = 1 := by
      rw [hlocked, hlocks]
      rfl
    cases x with
    | error e =>
      -- the lock is held, and no block is there to end
      obtain ⟨hleaves', hlocked', -, -⟩ := hnext'.failed hleaves.alive
      show Released w' ↔ Clean _ w'.log
      refine iff_of_false (fun h => ?_) ?_
      · rw [Released, hlocked', hone] at h
        exact Nat.one_ne_zero h.1
      · rw [hleaves'.log, clean_snoc, hleaves.log]
        simp [Uncleaned]
    | ok a' =>
      obtain ⟨hleaves', hlocked', hgood', -⟩ := hnext'.done
      refine ⟨⟨hleaves'.alive, hleaves'.autocommit.trans hleaves.autocommit, hlocked'.trans hone, ?_⟩,
        ?_, hgood'⟩
      · rw [hleaves'.log, hleaves.log]
        exact le_rfl
      · rw [hleaves'.log, clean_snoc, hleaves.log, clean_snoc]
        exact ⟨⟨clean_nil _, nofun⟩, nofun⟩

/-- The release fails in a failed transaction, and no other one. -/
theorem follows_release_lock (h : Raised auto w) :
    (tryCatch (do releaseLock; commit) fun _ => pure () : Db Unit).Follows (server u effect)
      (fun w r => r = .ok () ∧ (Released w ↔ Clean auto w.log)) w := by
  rw [Program.follows_tryCatch]
  refine ⟨trivial, fun x w' hnext => ?_⟩
  cases x with
  | error e =>
    obtain ⟨hleaves, hlocked, -, -⟩ := hnext.failed h.alive
    refine ⟨rfl, iff_of_false (fun hreleased => ?_) ?_⟩
    · rw [Released, hlocked, h.locks] at hreleased
      exact Nat.one_ne_zero hreleased.1
    · rw [hleaves.log, clean_snoc]
      exact fun hclean => hclean.2 rfl trivial
  | ok a =>
    obtain ⟨hleaves, hlocked, hgood, hbefore⟩ := hnext.done
    have hclean : Clean auto w.log := not_not.1 fun hnot => hbefore trivial (h.aborted_iff.2 hnot)
    have hzero : w'.local_.locks = 0 := by
      rw [hlocked, h.locks]
      rfl
    have hclean' : Clean auto w'.log := by
      rw [hleaves.log, clean_snoc]
      exact ⟨hclean, nofun⟩
    refine ⟨trivial, fun x w'' hnext' => ?_⟩
    cases x with
    | error e =>
      obtain ⟨hleaves', hlocked', -, haborted⟩ := hnext'.failed hleaves.alive
      refine ⟨rfl, iff_of_true ⟨hlocked'.trans hzero, ?_⟩ ?_⟩
      · rw [haborted]
        exact fun hcommit => hcommit.1 rfl
      · rw [hleaves'.log, clean_snoc]
        refine ⟨hclean', fun _ hone => ?_⟩
        have hlength : w'.log.length = 1 := hone
        have hbegun := h.begun
        rw [hleaves.log, List.length_append, List.length_singleton] at hlength
        omega
    | ok a' =>
      obtain ⟨hleaves', hlocked', hgood', -⟩ := hnext'.done
      refine ⟨rfl, iff_of_true ⟨hlocked'.trans hzero, hgood'⟩ ?_⟩
      rw [hleaves'.log, clean_snoc]
      exact ⟨hclean', nofun⟩

/-- A block with the lock. -/
theorem follows_locked {block : Db α} {l : Local (Option Text) (Data O)}
    (halive : l.session.alive = true) (hlocks : l.locks = 0)
    (hblock : ∀ w, Steady l.session.autocommit w →
      block.Follows (server u effect) (Keeps l.session.autocommit) w) :
    (advisoryLock true block).Follows (server u effect)
      (fun w _ => Released w ↔ Clean l.session.autocommit w.log) ⟨l, []⟩ := by
  have hrun : ∀ w, Steady l.session.autocommit w →
      (block.tryFinally (tryCatch (do releaseLock; commit) fun _ => pure ())).Follows
        (server u effect) (fun w _ => Released w ↔ Clean l.session.autocommit w.log) w := by
    intro w h
    rw [Program.follows_tryFinally]
    apply (hblock w h).mono
    intro w r hkeeps
    have hraised : Raised l.session.autocommit w := by
      cases r with
      | ok a => exact Steady.raised hkeeps
      | error e => exact hkeeps
    apply (follows_release_lock hraised).mono
    rintro w _ ⟨rfl, hreleased⟩
    exact hreleased
  have hacquire := @follows_acquire _ u effect _ halive hlocks
  refine ⟨trivial, fun x w hnext => ?_⟩
  cases x with
  | error e => exact hacquire.2 _ w hnext
  | ok a =>
    refine ⟨trivial, fun x w' hnext' => ?_⟩
    have hentered := (hacquire.2 _ w hnext).2 x w' hnext'
    cases x with
    | error e => exact hentered
    | ok a' => exact hrun w' hentered

/-! ### The entry points -/

/-- The block of `apply`. -/
theorem keeps_applyBlock (files : List (Text × Text)) (o : Options) (h : Steady auto w) :
    (do
      let outstanding ← pending u files o.verifyChecksums false
      if outstanding = [] then return []
      if !o.allowDestructive && offenders u outstanding ≠ [] then
        throw (.destructive (offenders u outstanding))
      applyAll o.readerRole outstanding
      return outstanding : Db (List Migration)).Follows (server u effect) (Keeps auto) w := by
  apply keeps_bind (keeps_pending files o.verifyChecksums h)
  intro outstanding w h
  split
  · exact h
  split
  · exact h.raised
  · apply keeps_bind (keeps_applyAll o.readerRole outstanding h)
    intro _ w h
    exact h

/-- What comes after the lock asks nothing of the session. -/
theorem follows_after {Q : Watch O → Prop} {p : Db α} {f : α → Db β}
    (hp : p.Follows (server u effect) (fun w _ => Q w) w) (hf : ∀ a, ∃ r, f a = .done r) :
    (p >>= f).Follows (server u effect) (fun w _ => Q w) w := by
  rw [Program.follows_bind]
  apply hp.mono
  intro w r h
  cases r with
  | ok a =>
    obtain ⟨r, hr⟩ := hf a
    show (f a).Follows (server u effect) (fun w _ => Q w) w
    rw [hr]
    exact h
  | error e => exact h

/-- `applied_versions`, and a function of its result. -/
theorem follows_reading {files : List (Text × Text)} {verify : Bool}
    {f : List Migration → List (ℤ × Option Text) → α} {l : Local (Option Text) (Data O)}
    (halive : l.session.alive = true) (hgood : ¬l.session.Aborted) (hlocks : l.locks = 0) :
    (do
      let shipped ← Program.ofExcept (discover u files)
      let applied ← appliedVersions true
      Program.ofExcept (checkApplied u applied shipped verify)
      return f shipped applied : Db α).Follows (server u effect)
      (fun w _ => Released w ↔ Clean l.session.autocommit w.log) ⟨l, []⟩ := by
  rw [Program.follows_bind]
  cases discover u files with
  | error e => exact iff_of_true ⟨hlocks, hgood⟩ (clean_nil _)
  | ok shipped =>
    refine follows_after (follows_locked halive hlocks fun w h => keeps_readVersions h) fun rows => ?_
    cases checkApplied u rows shipped verify with
    | error e => exact ⟨_, rfl⟩
    | ok _ => exact ⟨_, rfl⟩

/-- **The advisory lock** is given back, and the connection is left outside a failed transaction,
exactly where no request failed that nothing cleans up after. -/
theorem lock_released (u : Characters) (effect : Option Text → Text → O → Option O)
    (files : List (Text × Text)) {c : Call} {l : Local (Option Text) (Data O)}
    {r : Except Error Unit} {w : Watch O} (hlock : c.lock = true) (halive : l.session.alive = true)
    (hgood : ¬l.session.Aborted) (hlocks : l.locks = 0)
    (hrun : (entryPoint u files c l.session).Run (server u effect) ⟨l, []⟩ r w) :
    Released w ↔ Clean l.session.autocommit w.log := by
  let post : Watch O → Except Error Unit → Prop := fun w _ =>
    Released w ↔ Clean l.session.autocommit w.log
  refine (?_ : Program.Follows _ post _ _).post_of_run hrun
  cases c with
  | apply o =>
    refine follows_after ?_ fun _ => ⟨_, rfl⟩
    unfold apply
    split
    · exact iff_of_true ⟨hlocks, hgood⟩ (clean_nil _)
    · rw [show o.advisoryLock = true from hlock]
      exact follows_locked halive hlocks fun w h => keeps_applyBlock files o h
  | pending verify lock =>
    obtain rfl : lock = true := hlock
    exact follows_after (follows_reading halive hgood hlocks) fun _ => ⟨_, rfl⟩
  | status verify lock =>
    obtain rfl : lock = true := hlock
    exact follows_after (follows_reading halive hgood hlocks) fun _ => ⟨_, rfl⟩
  | appliedVersions lock =>
    obtain rfl : lock = true := hlock
    exact follows_after (follows_locked halive hlocks fun w h => keeps_readVersions h)
      fun _ => ⟨_, rfl⟩

/-- A session on a fresh database, before a call. -/
def freshLocal : Local (Option Text) (Data Unit) :=
  ⟨Session.opened false false, 0, ⟨none, (), []⟩, ⟨none, (), []⟩, false⟩

/-- A session whose role may not create tables, after `applied_versions`. -/
def refusedCreation : Watch Unit where
  local_ := { freshLocal with
    session := freshLocal.session.within ⟨⟨none, (), []⟩, none, none, true⟩
    locks := 1 }
  log := [(.lock, true), (.commit, true), (.statement .createTable, false), (.unlock, false)]

theorem run_refusedCreation :
    (entryPoint asciiCharacters [] (.appliedVersions true) freshLocal.session).Run
      (server asciiCharacters fun _ _ _ => none) ⟨freshLocal, []⟩ (.error .database)
      refusedCreation :=
  .ask (.succeed freshLocal.data freshLocal.data rfl) <|
  .ask (.succeed freshLocal.data freshLocal.data rfl) <|
  .ask (.fail freshLocal.data freshLocal.data .database nofun) <|
  .ask (.fail freshLocal.data freshLocal.data .database nofun) <|
  .done _ _

/-- The failure that is not cleaned up after. -/
theorem lock_released_refusedCreation :
    Released refusedCreation ↔ Clean false refusedCreation.log :=
  lock_released asciiCharacters (fun _ _ _ => none) [] rfl rfl (by rintro ⟨_, ⟨⟩, -⟩) rfl
    run_refusedCreation

/-- A table that cannot be created: the session keeps the lock, in a failed transaction. -/
theorem lock_kept_refusedCreation : ∃ r w,
    (entryPoint asciiCharacters [] (.appliedVersions true) freshLocal.session).Run
      (server asciiCharacters fun _ _ _ => none) ⟨freshLocal, []⟩ r w ∧
    ¬Released w ∧ w.Aborted :=
  ⟨_, _, run_refusedCreation, fun h => Nat.one_ne_zero h.1, ⟨_, rfl, rfl⟩⟩

end Tokenweir.Migrations
