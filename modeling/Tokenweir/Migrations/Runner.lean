import Tokenweir.Lib.Discipline
import Tokenweir.Migrations.History

/-!
# What the runner keeps to

The discipline of the runner, and that its entry points follow it, with every statement and every
commit that may fail, and with other sessions that change the database while it is not excluded.

* `Setting`, its `discipline`;
* `In`, `Entered`, `Ends`, what holds within a transaction, at the beginning of a block and at its
  end;
* `follows_execute`, `follows_commit`, `follows_rollback`, `follows_advisoryLock`, the rules.
-/

namespace Tokenweir.Migrations

open Program (Follows)

/-- What a run of the runner depends on: the files that ship, what their SQL does, whether a session
is alone, the data at the beginning, and the roles that the calls name. -/
structure Setting (O : Type) where
  characters : Characters
  effect : Option Text → Text → O → Option O
  files : List (Text × Text)
  serial : Prop
  start : Data O
  roles : Option Text → Prop

namespace Setting

variable {O : Type} (σ : Setting O)

/-- The migrations that ship. -/
abbrev shipped : List Migration := released σ.characters σ.files

theorem shipped_nodup : (σ.shipped.map Migration.version).Nodup :=
  released_nodup σ.characters σ.files

/-- The server. -/
def dialect : Dialect Statement Rows (Option Text) (Data O) :=
  Migrations.dialect σ.characters σ.effect

/-- `d'` is `d` after some of its outstanding migrations. -/
abbrev Advanced (d d' : Data O) (ran : List (Migration × Option Text)) : Prop :=
  Migrations.Advanced σ.characters σ.effect σ.shipped d d' ran

/-- What `apply` must not migrate. -/
abbrev Refused (o : Options) (d : Data O) : Prop :=
  Migrations.Refused σ.characters σ.shipped o d

/-- A database with all migrations. -/
abbrev Complete (d : Data O) : Prop := Migrations.Complete σ.shipped d

/-- What the runner keeps to: a call only migrates, and only a database that it may migrate. -/
def discipline : Discipline Statement (Option Text) (Data O) Error Unit Call where
  inv d := ∃ ran, σ.Advanced σ.start d ran ∧ ∀ e ∈ ran, σ.roles e.2
  serial := σ.serial
  progress c base d := ∃ ran, σ.Advanced base d ran ∧
    ∀ e ∈ ran, ∃ o, c = .apply o ∧ e.2 = o.readerRole ∧ ¬ σ.Refused o base
  good c l
    | .versions => (l.view (l.transaction σ.dialect l.data)).rows = l.data.rows
    | .run m => ∃ o, c = .apply o ∧ ¬ σ.Refused o l.base ∧
      ∃ rest, outstanding σ.shipped l.data = m :: rest
    | .insert m => ∃ rest, outstanding σ.shipped l.data = m :: rest
    | _ => True
  result c r base d := r = .ok () → ∀ o, c = .apply o → σ.Complete d ∧ ¬ σ.Refused o base

/-- What a program has to follow in a call. -/
abbrev protocol (c : Call) : Protocol (Local (Option Text) (Data O)) (Request Statement)
    (Answer Rows) Error :=
  σ.discipline.protocol σ.dialect c

variable {σ} {c : Call} {l l' : Local (Option Text) (Data O)} {role : Option Text} {v : Data O}
  {α : Type}

/-! ### What holds in a call -/

variable (σ c) in
/-- In a transaction: what it sees, if it can go on, and what holds of the data, if no other session
changes them. -/
structure In (l : Local (Option Text) (Data O)) (role : Option Text) (v : Data O) : Prop where
  exclusive : l.session.alive = true → σ.discipline.Exclusive l
  sees : l.session.alive = true → (l.transaction σ.dialect l.data).aborted = false →
    l.Sees σ.dialect role v
  progress : σ.discipline.Exclusive l → σ.discipline.progress c l.base l.data
  inv : σ.discipline.Exclusive l → σ.discipline.inv l.data

variable (σ c) in
/-- In a transaction, after a statement that succeeded. -/
structure Within (l : Local (Option Text) (Data O)) (role : Option Text) (v : Data O) : Prop where
  alive : l.session.alive = true
  exclusive : σ.discipline.Exclusive l
  sees : l.Sees σ.dialect role v
  progress : σ.discipline.progress c l.base l.data
  inv : σ.discipline.inv l.data

theorem Within.in (h : Within σ c l role v) : In σ c l role v :=
  ⟨fun _ => h.exclusive, fun _ _ => h.sees, fun _ => h.progress, fun _ => h.inv⟩

variable (σ c) in
/-- After an error, or between two transactions. -/
structure Out (l : Local (Option Text) (Data O)) : Prop where
  spent : l.session.Spent
  exclusive : l.session.alive = true → σ.discipline.Exclusive l
  progress : σ.discipline.Exclusive l → σ.discipline.progress c l.base l.data
  inv : σ.discipline.Exclusive l → σ.discipline.inv l.data

theorem Out.in (h : Out σ c l) : In σ c l none l.data := by
  refine ⟨h.exclusive, fun _ habort => .inl ⟨?_, rfl, rfl⟩, h.progress, h.inv⟩
  cases ht : l.session.transaction with
  | none => rfl
  | some t =>
    -- an aborted transaction sees nothing
    unfold Local.transaction at habort
    rw [ht, Option.getD_some, h.spent t ht] at habort
    cases habort

/-- A session that has lost the lock is closed, and relies on nothing. -/
theorem In.of_data (h : In σ c l role v) {d : Data O}
    (hd : σ.discipline.Exclusive l → d = l.data) : In σ c { l with data := d } role v := by
  by_cases hex : σ.discipline.Exclusive l
  · rw [hd hex]
    exact h
  · exact ⟨fun halive => absurd (h.exclusive halive) hex, fun halive =>
      absurd (h.exclusive halive) hex, fun hex' => absurd hex' hex, fun hex' => absurd hex' hex⟩

variable (σ) in
/-- Nothing that can be relied on in `l'` has changed since `l`. -/
structure Keeps (l l' : Local (Option Text) (Data O)) : Prop where
  base : l'.base = l.base
  exclusive : σ.discipline.Exclusive l' → σ.discipline.Exclusive l
  data : σ.discipline.Exclusive l' → l'.data = l.data

theorem Keeps.trans {l'' : Local (Option Text) (Data O)} (h : Keeps σ l l') (h' : Keeps σ l' l'') :
    Keeps σ l l'' where
  base := h'.base.trans h.base
  exclusive hex := h.exclusive (h'.exclusive hex)
  data hex := (h'.data hex).trans (h.data (h'.exclusive hex))

/-- A request that fails, or a session that ends. -/
theorem Keeps.stopped {issued : Data O} {q : Request Statement}
    (hl' : l' = l.fail σ.dialect issued q ∨ l' = l.close) : Keeps σ l l' := by
  rcases hl' with rfl | rfl
  · refine ⟨Local.fail_base _ _, fun hex => ?_, fun _ => Local.fail_data _ _⟩
    unfold Discipline.Exclusive at hex
    rwa [Local.fail_locks] at hex
  · exact ⟨rfl, fun hex => .inl (hex.resolve_right (Nat.lt_irrefl 0)), fun _ => rfl⟩

theorem spent_of_stopped {issued : Data O} {q : Request Statement} (hq : q ≠ .rollback)
    (hl' : l' = l.fail σ.dialect issued q ∨ l' = l.close) : l'.session.Spent := by
  rcases hl' with rfl | rfl
  · exact Local.fail_spent _ hq
  · exact Session.spent_of_none rfl

/-- Data that have changed where nothing is relied on. -/
theorem Keeps.of_data {d : Data O} (hd : σ.discipline.Exclusive l → d = l.data) :
    Keeps σ l { l with data := d } :=
  ⟨rfl, id, hd⟩

/-- A request that fails, or a session that ends. -/
theorem In.stopped (h : In σ c l role v) {q : Request Statement} (hq : q ≠ .rollback)
    (hl' : l' = l.fail σ.dialect l.data q ∨ l' = l.close) : Out σ c l' := by
  have hkeeps := Keeps.stopped hl'
  refine ⟨spent_of_stopped hq hl', fun halive => ?_, fun hex => ?_, fun hex => ?_⟩
  · rcases hl' with rfl | rfl
    · rw [Local.fail_alive] at halive
      unfold Discipline.Exclusive
      rw [Local.fail_locks]
      exact h.exclusive halive
    · exact absurd halive Bool.false_ne_true
  · rw [hkeeps.base, hkeeps.data hex]
    exact h.progress (hkeeps.exclusive hex)
  · rw [hkeeps.data hex]
    exact h.inv (hkeeps.exclusive hex)

/-- **The rule for a statement.** -/
theorem follows_execute {s : Statement}
    {post : Local (Option Text) (Data O) → Except Error (Rows s) → Prop} (h : In σ c l role v)
    (hgood : l.session.alive = true → σ.discipline.good c l s)
    (hauto : σ.discipline.Exclusive l → l.session.autocommit = true → ∀ a role' change,
      meaning σ.characters σ.effect s role v = some (a, role', change) →
        σ.discipline.inv (change.getD v) ∧ σ.discipline.progress c l.base (change.getD v))
    (hok : σ.discipline.Exclusive l → ∀ a role' change l',
      meaning σ.characters σ.effect s role v = some (a, role', change) →
      Within σ c l' (if l.session.autocommit then none else role') (change.getD v) →
      l'.session.autocommit = l.session.autocommit → l'.base = l.base →
      l'.data = (if l.session.autocommit then change.getD v else l.data) → post l' (.ok a))
    (herror : ∀ e l', Out σ c l' → post l' (.error e)) :
    (execute s).Follows (σ.protocol c) post l := by
  -- a statement that succeeds
  have hperformed : ∀ {a l'}, l.perform σ.dialect l.data (.statement s) = some (a, l') →
      ∃ role' change, meaning σ.characters σ.effect s role v = some (a, role', change) ∧
        Within σ c l' (if l.session.autocommit then none else role') (change.getD v) ∧
        l'.session.autocommit = l.session.autocommit ∧ l'.base = l.base ∧
        l'.data = (if l.session.autocommit then change.getD v else l.data) := by
    intro a l' hperform
    obtain ⟨halive, habort, -⟩ := Local.perform_statement.1 hperform
    obtain ⟨role', change, hmeaning, hsees, hdata, hbase, hlocks, halive', hmode⟩ :=
      (h.sees halive habort).perform hperform
    have hex := h.exclusive halive
    have hex' : σ.discipline.Exclusive l' := by
      unfold Discipline.Exclusive
      rwa [hlocks]
    refine ⟨role', change, hmeaning, ⟨halive', hex', hsees, ?_, ?_⟩, hmode, hbase, hdata⟩
    · rw [hdata, hbase]
      split
      · rename_i hmode
        exact (hauto hex hmode a role' change hmeaning).2
      · exact h.progress hex
    · rw [hdata]
      split
      · rename_i hmode
        exact (hauto hex hmode a role' change hmeaning).1
      · exact h.inv hex
  refine ⟨⟨h.progress, fun halive => ⟨h.exclusive halive, hgood halive, fun a l' hmode hperform =>
    ?_⟩⟩, ?_⟩
  · obtain ⟨role', change, hmeaning, -, -, -, hdata⟩ := hperformed hperform
    rw [hdata, if_pos hmode]
    exact (hauto (h.exclusive halive) hmode a role' change hmeaning).1
  · rintro x l' ⟨d, issued, hd, -, hissued, hout⟩
    obtain rfl := hissued (by simp)
    have h' := h.of_data hd
    cases hout with
    | performed hperform =>
      have halive := Local.alive_of_perform hperform
      have hdata := hd (h.exclusive halive)
      subst hdata
      obtain ⟨role', change, hmeaning, hwithin, hmode, hbase, hdata⟩ := hperformed hperform
      exact hok (h.exclusive halive) _ role' change l' hmeaning hwithin hmode hbase hdata
    | failed e => exact herror e _ (h'.stopped (by simp) (.inl rfl))
    | closed e => exact herror e _ (h'.stopped (q := .commit) (by simp) (.inr rfl))

/-- **The rule for a commit**, of data that may be committed. -/
theorem follows_commit {post : Local (Option Text) (Data O) → Except Error Unit → Prop}
    (h : Within σ c l role v) (hv : σ.discipline.inv v ∧ σ.discipline.progress c l.base v)
    (hok : ∀ l', Out σ c l' → σ.discipline.Exclusive l' → l'.session.alive = true →
      l'.session.transaction = none → l'.session.autocommit = l.session.autocommit →
      l'.base = l.base → l'.data = v → post l' (.ok ()))
    (herror : ∀ e l', Out σ c l' → post l' (.error e)) :
    commit.Follows (σ.protocol c) post l := by
  have hex := h.exclusive
  have hcommitted := h.sees.committed
  refine ⟨⟨fun _ => h.progress, fun _ => .inr ⟨hex, hcommitted ▸ hv.1⟩⟩, ?_⟩
  rintro x l' ⟨d, issued, hd, -, hissued, hout⟩
  obtain rfl := hissued (by simp)
  obtain rfl := hd hex
  cases hout with
  | performed hperform =>
    obtain ⟨-, rfl⟩ := Local.perform_commit.1 hperform
    exact hok _ ⟨Session.idle_spent _, fun _ => hex, fun _ => hcommitted ▸ hv.2,
      fun _ => hcommitted ▸ hv.1⟩ hex h.alive rfl rfl rfl hcommitted
  | failed e => exact herror e _ (h.in.stopped (by simp) (.inl rfl))
  | closed e => exact herror e _ (h.in.stopped (q := .commit) (by simp) (.inr rfl))

/-- A rollback after an error, which may fail itself. -/
theorem follows_rollback {post : Local (Option Text) (Data O) → Except Error Unit → Prop}
    (h : Out σ c l) (hpost : ∀ r l', Out σ c l' → post l' r) :
    rollback.Follows (σ.protocol c) post l := by
  refine ⟨⟨h.progress, fun _ => trivial⟩, ?_⟩
  rintro x l' ⟨d, issued, hd, -, -, hout⟩
  have hdata : σ.discipline.Exclusive l → l.data = d := fun hex => (hd hex).symm
  cases hout with
  | performed hperform =>
    obtain ⟨-, rfl⟩ := Local.perform_rollback.1 hperform
    exact hpost _ _ ⟨Session.idle_spent _, h.exclusive, fun hex => hd hex ▸ h.progress hex,
      fun hex => hd hex ▸ h.inv hex⟩
  | failed e =>
    exact hpost _ _ ⟨h.spent, h.exclusive, fun hex => hd hex ▸ h.progress hex,
      fun hex => hd hex ▸ h.inv hex⟩
  | closed e => exact hpost _ _ ((h.in.of_data hd).stopped (q := .commit) (by simp) (.inr rfl))

/-! ### The lock -/

variable (σ c) in
/-- At the beginning of a block that no other session interrupts. -/
structure Entered (l : Local (Option Text) (Data O)) : Prop extends Out σ c l where
  base : σ.discipline.Exclusive l → σ.Advanced l.base l.data []

variable (σ c) in
/-- At the end of a call, or of a block, with what its result says. -/
structure Ends (R : α → Data O → Data O → Prop) (l : Local (Option Text) (Data O))
    (r : Except Error α) : Prop where
  spent : l.session.Spent
  progress : σ.discipline.Exclusive l → σ.discipline.progress c l.base l.data
  inv : σ.discipline.Exclusive l → σ.discipline.inv l.data
  result : ∀ a, r = .ok a → σ.discipline.Exclusive l → R a l.base l.data

theorem Out.ends_error (h : Out σ c l) (R : α → Data O → Data O → Prop) (e : Error) :
    Ends σ c R l (.error e) :=
  ⟨h.spent, h.progress, h.inv, fun _ h => nomatch h⟩

/-- A call that has not migrated yet. -/
theorem progress_refl {base d : Data O} (h : base = d) : σ.discipline.progress c base d := by
  subst h
  exact ⟨[], .refl _, fun _ he => nomatch he⟩

theorem Ends.of_keeps {R : α → Data O → Data O → Prop} {r : Except Error α} (h : Ends σ c R l r)
    (hkeeps : Keeps σ l l') (hspent : l'.session.Spent) : Ends σ c R l' r where
  spent := hspent
  progress hex := by
    rw [hkeeps.base, hkeeps.data hex]
    exact h.progress (hkeeps.exclusive hex)
  inv hex := by
    rw [hkeeps.data hex]
    exact h.inv (hkeeps.exclusive hex)
  result a ha hex := by
    rw [hkeeps.base, hkeeps.data hex]
    exact h.result a ha (hkeeps.exclusive hex)

/-- An error leaves no transaction that could go on. -/
theorem stopped_of_next {q : Request Statement} {e : Error} (hq : q ≠ .rollback)
    (h : (σ.protocol c).next l q (.error e) l') :
    ∃ d, (σ.discipline.Exclusive l → d = l.data) ∧ σ.discipline.inv d ∧
      Keeps σ { l with data := d } l' ∧ l'.session.Spent := by
  obtain ⟨d, issued, hd, hinv, -, hout⟩ := h
  refine ⟨d, hd, hinv, ?_⟩
  have hl' : l' = Local.fail σ.dialect issued { l with data := d } q ∨
      l' = Local.close { l with data := d } := by
    cases hout with
    | failed e => exact .inl rfl
    | closed e => exact .inr rfl
  exact ⟨.stopped hl', spent_of_stopped hq hl'⟩

/-- An unlock or a commit of nothing. -/
theorem keeps_of_next {q : Request Statement} {x : Except Error (Answer Rows q)}
    (hq : q = .unlock ∨ q = .commit) (hneutral : l.session.Neutral)
    (h : (σ.protocol c).next l q x l') :
    Keeps σ l l' ∧ l'.session.Neutral ∧ (q = .commit ∨ (∃ e, x = .error e) → l'.session.Spent) := by
  have hrollback : q ≠ .rollback := by
    rintro rfl
    rcases hq with h | h <;> cases h
  cases x with
  | error e =>
    obtain ⟨d, hd, -, hkeeps, hspent⟩ := stopped_of_next hrollback h
    exact ⟨(Keeps.of_data hd).trans hkeeps, hspent.neutral, fun _ => hspent⟩
  | ok a =>
    obtain ⟨d, issued, hd, -, -, hout⟩ := h
    rcases hq with rfl | rfl
    · obtain ⟨hperform⟩ := hout
      obtain ⟨hcan, rfl⟩ := Local.perform_unlock.1 hperform
      have hless : σ.discipline.serial ∨ 0 < l.locks - 1 → σ.discipline.Exclusive l :=
        Or.imp_right fun hpos => hpos.trans_le (Nat.sub_le _ _)
      refine ⟨⟨rfl, hless, fun hex => hd (hless hex)⟩, ?_, ?_⟩
      · exact Local.neutral_within_transaction (l := { l with data := d }) hneutral issued
      · rintro (h | ⟨e, h⟩) <;> cases h
    · obtain ⟨hperform⟩ := hout
      obtain ⟨-, rfl⟩ := Local.perform_commit.1 hperform
      have hsame : Local.committed { l with data := d } = d := Local.committed_of_neutral hneutral
      have hspent := Session.idle_spent l.session
      exact ⟨⟨rfl, id, fun hex => hsame.trans (hd hex)⟩, hspent.neutral, fun _ => hspent⟩

/-- The release of the lock, whatever comes of it. -/
theorem follows_release {R : α → Data O → Data O → Prop} {r : Except Error α}
    (h : Ends σ c R l r) :
    (tryCatch (do releaseLock; commit) fun _ => pure () : Db Unit).Follows (σ.protocol c)
      (fun l r' =>
        match r' with
        | .ok () => Ends σ c R l r
        | .error e => Ends σ c R l (.error e)) l := by
  rw [Program.follows_tryCatch, Program.follows_bind]
  refine ⟨⟨h.progress, fun _ => h.spent.neutral⟩, fun x l₁ hnext => ?_⟩
  obtain ⟨hkeeps, hneutral, hspent⟩ := keeps_of_next (.inl rfl) h.spent.neutral hnext
  cases x with
  | error e => exact h.of_keeps hkeeps (hspent (.inr ⟨e, rfl⟩))
  | ok _ =>
    refine ⟨⟨fun hex => ?_, fun _ => .inl hneutral⟩, fun x l₂ hnext => ?_⟩
    · rw [hkeeps.base, hkeeps.data hex]
      exact h.progress (hkeeps.exclusive hex)
    · obtain ⟨hkeeps', -, hspent⟩ := keeps_of_next (.inr rfl) hneutral hnext
      have hends := h.of_keeps (hkeeps.trans hkeeps') (hspent (.inl rfl))
      cases x with
      | ok _ => exact hends
      | error e => exact hends

/-- **The rule for the lock.** A block that no other session interrupts keeps to the discipline
within it, and without it if the session is alone. -/
theorem follows_advisoryLock {enabled : Bool} {block : Db α} {R : α → Data O → Data O → Prop}
    (hlock : enabled = true ∨ σ.serial) (hspent : l.session.Spent)
    (hinv : σ.discipline.inv l.data) (hbase : l.base = l.data)
    (hblock : ∀ l', Entered σ c l' → l'.session.autocommit = l.session.autocommit →
      block.Follows (σ.protocol c) (Ends σ c R) l') :
    (advisoryLock enabled block).Follows (σ.protocol c) (Ends σ c R) l := by
  cases enabled with
  | false =>
    have hserial : σ.serial := hlock.resolve_left Bool.false_ne_true
    have hbegin : σ.Advanced l.base l.data [] := by
      rw [hbase]
      exact .refl _
    exact hblock l
      ⟨⟨hspent, fun _ => .inl hserial, fun _ => progress_refl hbase, fun _ => hinv⟩, fun _ => hbegin⟩ rfl
  | true =>
    show Follows _ _ (acquireLock >>= fun _ => _) l
    rw [Program.follows_bind]
    refine ⟨⟨fun _ => progress_refl hbase, fun _ => trivial⟩, fun x l₁ hnext => ?_⟩
    cases x with
    | error e =>
      obtain ⟨d, hd, hinv, hkeeps, hspent⟩ := stopped_of_next (by simp) hnext
      refine ⟨hspent, fun hex => ?_, fun hex => ?_, fun _ h => nomatch h⟩
      · rw [hkeeps.base, hkeeps.data hex]
        exact progress_refl (hbase.trans (hd (hkeeps.exclusive hex)).symm)
      · rw [hkeeps.data hex]
        exact hinv
    | ok a =>
      obtain ⟨d, issued, -, hinv, -, hout⟩ := hnext
      obtain ⟨hperform⟩ := hout
      obtain ⟨-, rfl⟩ := Local.perform_lock.1 hperform
      -- with the lock, the data are those of the predecessor's last commit
      have hneutral := Local.neutral_within_transaction (δ := σ.dialect)
        (l := { l with data := d }) hspent.neutral issued
      have hrefl : σ.discipline.progress c d d := progress_refl rfl
      show Follows _ _ (commit >>= fun _ => _) _
      rw [Program.follows_bind]
      refine ⟨⟨fun _ => hrefl, fun _ => .inl hneutral⟩, fun x l₂ hnext => ?_⟩
      obtain ⟨hkeeps, -, hspent⟩ := keeps_of_next (.inr rfl) hneutral hnext
      replace hspent := hspent (.inl rfl)
      have hsame : σ.discipline.Exclusive l₂ → l₂.data = d := hkeeps.data
      cases x with
      | error e =>
        refine ⟨hspent, fun hex => ?_, fun hex => ?_, fun _ h => nomatch h⟩
        · rw [hkeeps.base, hsame hex]
          exact hrefl
        · rw [hsame hex]
          exact hinv
      | ok a =>
        obtain ⟨d', issued', -, -, -, hout⟩ := hnext
        obtain ⟨hperform⟩ := hout
        obtain ⟨-, rfl⟩ := Local.perform_commit.1 hperform
        have hdata := hsame (.inr (Nat.succ_pos _))
        have hbegin : σ.Advanced d d [] := .refl d
        have hmode := Session.within_autocommit l.session
          (Local.transaction σ.dialect issued { l with data := d })
        show Follows _ _ (Program.tryFinally _ _) _
        rw [Program.follows_tryFinally]
        refine (hblock _ ⟨⟨hspent, fun _ => .inr (Nat.succ_pos _), fun _ => ?_, fun _ => ?_⟩,
          fun _ => ?_⟩ hmode).mono fun l₃ r hends => (follows_release hends).mono ?_
        · rw [hdata]
          exact hrefl
        · rw [hdata]
          exact hinv
        · rw [hdata]
          exact hbegin
        · rintro l₄ (e | ⟨⟩) hends
          · exact hends
          · exact hends

end Setting

end Tokenweir.Migrations
