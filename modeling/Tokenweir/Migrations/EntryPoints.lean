import Tokenweir.Migrations.Adoption

/-!
# The entry points keep the discipline

`apply` with its loop, `pending`, `status` and `applied_versions`: each migration and its row are
committed together or not at all, and only where nothing is refused.

* `Ready`, between two migrations of the loop; `follows_applyOne`, `follows_applyAll`;
* `follows_pending`, `follows_applyBlock`, `follows_appliedVersions`;
* `follows_entryPoint`.
-/

namespace Tokenweir.Migrations.Setting

open Program (Follows)

variable {O : Type} {σ : Setting O} {c : Call} {l l' : Local (Option Text) (Data O)}
  {role : Option Text} {v : Data O} {o : Options} {m : Migration} {ms : List Migration}

/-! ### The loop -/

variable (σ o) in
/-- Before the next migration, with those that are left. -/
structure Ready (l : Local (Option Text) (Data O)) (ms : List Migration) : Prop extends
    Out σ (.apply o) l where
  alive : l.session.alive = true
  idle : l.session.transaction = none
  held : σ.discipline.Exclusive l
  manual : l.session.autocommit = false
  notRefused : ¬ σ.Refused o l.base
  table : l.data.table ≠ none
  columns : required ⊆ l.data.columns
  left : outstanding σ.shipped l.data = ms

/-- The rule for a statement of a transaction that is committed explicitly. -/
theorem follows_manual {s : Statement}
    {post : Local (Option Text) (Data O) → Except Error (Rows s) → Prop} (h : In σ c l role v)
    (hmanual : l.session.autocommit = false)
    (hgood : l.session.alive = true → σ.discipline.good c l s)
    (hok : ∀ a role' change l', meaning σ.characters σ.effect s role v = some (a, role', change) →
      Within σ c l' role' (change.getD v) → l'.session.autocommit = false → l'.base = l.base →
      l'.data = l.data → post l' (.ok a))
    (herror : ∀ e l', Out σ c l' → post l' (.error e)) :
    (execute s).Follows (σ.protocol c) post l := by
  have hnot : ¬ l.session.autocommit = true := by
    rw [hmanual]
    exact Bool.false_ne_true
  refine follows_execute h hgood (fun _ hmode => absurd hmode hnot) ?_ herror
  intro _ a role' change l' hmeaning hwithin hmode hbase hdata
  rw [if_neg hnot] at hwithin hdata
  exact hok a role' change l' hmeaning hwithin (hmode.trans hmanual) hbase hdata

/-- What a migration and its row come to. -/
theorem meaning_run {u : Characters} {effect : Option Text → Text → O → Option O}
    {role' : Option Text} {change : Option (Data O)} {a : Unit}
    (h : meaning u effect (.run m) role v = some (a, role', change)) :
    role' = role ∧ ∃ objects, effect role m.sql v.objects = some objects ∧
      change = some { v with objects, journal := v.journal ++ [(m, role)] } := by
  rw [meaning] at h
  split at h
  · cases h
  · rename_i objects hobjects
    obtain ⟨⟩ := h
    exact ⟨rfl, objects, hobjects, rfl⟩

theorem meaning_insert {u : Characters} {effect : Option Text → Text → O → Option O}
    {role' : Option Text} {change : Option (Data O)} {a : Unit}
    (h : meaning u effect (.insert m) role v = some (a, role', change)) :
    role' = role ∧ ∃ t t', v.table = some t ∧ t.insert (m.record u) = some t' ∧
      change = some { v with table := some t' } := by
  rw [meaning] at h
  split at h
  · cases h
  · rename_i t' hinsert
    obtain ⟨⟩ := h
    obtain ⟨t, ht, hinsert⟩ := Option.bind_eq_some_iff.1 hinsert
    exact ⟨rfl, t, t', ht, hinsert, rfl⟩

/-- The invariant after a migration. -/
theorem inv_advanced {base d d' : Data O} (hroles : σ.roles o.readerRole)
    (hnot : ¬ σ.Refused o base) (hinv : σ.discipline.inv d)
    (hprogress : σ.discipline.progress (.apply o) base d)
    (hd : σ.Advanced d d' [(m, o.readerRole)]) :
    σ.discipline.inv d' ∧ σ.discipline.progress (.apply o) base d' := by
  obtain ⟨ran, hran, hroles'⟩ := hinv
  obtain ⟨ran', hran', hcall⟩ := hprogress
  refine ⟨⟨_, hran.trans σ.shipped_nodup hd, fun e he => ?_⟩,
    ⟨_, hran'.trans σ.shipped_nodup hd, fun e he => ?_⟩⟩
  · rcases List.mem_append.1 he with he | he
    · exact hroles' e he
    · obtain rfl := List.mem_singleton.1 he
      exact hroles
  · rcases List.mem_append.1 he with he | he
    · exact hcall e he
    · obtain rfl := List.mem_singleton.1 he
      exact ⟨o, rfl, rfl, hnot⟩

/-- The SQL of a migration, its row, and the commit of both. -/
theorem follows_runWithRole (hroles : σ.roles o.readerRole)
    (h : In σ (.apply o) l o.readerRole l.data) (hmanual : l.session.autocommit = false)
    (hnot : ¬ σ.Refused o l.base) (hcolumns : required ⊆ l.data.columns)
    (hleft : outstanding σ.shipped l.data = m :: ms) :
    (do execute (.run m); execute (.insert m); commit : Db Unit).Follows (σ.protocol (.apply o))
      (fun l' r =>
        match r with
        | .ok () => Ready σ o l' ms
        | .error _ => Out σ (.apply o) l') l := by
  apply Program.follows_bind.2
  refine follows_manual h hmanual (fun _ => ⟨o, rfl, hnot, ms, hleft⟩) ?_ fun _ _ => id
  intro a role' change l₁ hmeaning h₁ hmanual₁ hbase₁ hdata₁
  obtain ⟨rfl, objects, hobjects, rfl⟩ := meaning_run hmeaning
  apply Program.follows_bind.2
  refine follows_manual h₁.in hmanual₁ (fun _ => ⟨ms, hdata₁ ▸ hleft⟩) ?_ fun _ _ => id
  intro a role' change l₂ hmeaning h₂ hmanual₂ hbase₂ hdata₂
  obtain ⟨rfl, t, t', ht, hinsert, rfl⟩ := meaning_insert hmeaning
  -- what is committed is the data after one more migration
  have hone : σ.Advanced l.data ⟨some t', objects, l.data.journal ++ [(m, o.readerRole)]⟩
      [(m, o.readerRole)] := Advanced.one ht hinsert hobjects hleft
  have hsame : l₂.data = l.data := hdata₂.trans hdata₁
  have hbase : l₂.base = l.base := hbase₂.trans hbase₁
  have hinv := h₂.inv
  have hprogress := h₂.progress
  rw [hsame] at hinv hprogress
  rw [hbase] at hprogress
  have hcommit := inv_advanced hroles hnot hinv hprogress hone
  refine follows_commit h₂ ⟨hcommit.1, hbase ▸ hcommit.2⟩ ?_ fun _ _ => id
  intro l₃ h₃ hex halive hidle hmode hbase₃ hdata₃
  dsimp only [Option.getD_some] at hdata₃
  rw [← hdata₃] at hone
  refine ⟨h₃, halive, hidle, hex, hmode.trans hmanual₂, ?_, ?_, hcolumns.trans hone.columns, ?_⟩
  · rwa [hbase₃, hbase]
  · rw [hdata₃]
    exact Option.some_ne_none t'
  · have heq := hone.outstanding_eq σ.shipped_nodup
    rw [hleft] at heq
    exact (List.cons.inj heq).2.symm

theorem follows_runAndRecord (hroles : σ.roles o.readerRole) (h : Ready σ o l (m :: ms)) :
    (runAndRecord o.readerRole m).Follows (σ.protocol (.apply o)) (fun l' r =>
      match r with
      | .ok () => Ready σ o l' ms
      | .error _ => Out σ (.apply o) l') l := by
  cases hrole : o.readerRole with
  | none =>
    exact follows_runWithRole hroles (hrole ▸ h.toOut.in) h.manual h.notRefused h.columns h.left
  | some role =>
    apply Program.follows_bind.2
    refine follows_manual h.toOut.in h.manual (fun _ => trivial) ?_ fun _ _ => id
    intro a role' change l₁ hmeaning h₁ hmanual₁ hbase₁ hdata₁
    obtain ⟨⟩ := hmeaning
    rw [Option.getD_none, ← hdata₁, ← hrole] at h₁
    exact follows_runWithRole hroles h₁.in hmanual₁ (hbase₁ ▸ h.notRefused) (hdata₁ ▸ h.columns)
      (hdata₁ ▸ h.left)

/-- **One migration**, with its row, or neither. -/
theorem follows_applyOne (hroles : σ.roles o.readerRole) (h : Ready σ o l (m :: ms)) :
    (applyOne o.readerRole m).Follows (σ.protocol (.apply o)) (fun l' r =>
      match r with
      | .ok () => Ready σ o l' ms
      | .error _ => Out σ (.apply o) l') l := by
  unfold applyOne
  apply Program.follows_tryCatch.2
  refine (follows_runAndRecord hroles h).mono ?_
  rintro l₁ (e | ⟨⟩) h₁
  · apply Program.follows_bind.2
    refine follows_rollback h₁ ?_
    rintro (e' | ⟨⟩) l₂ h₂
    · exact h₂
    · exact h₂
  · exact h₁

/-- **The loop**, by induction on the migrations that are left. -/
theorem follows_applyAll (hroles : σ.roles o.readerRole) (h : Ready σ o l ms) :
    (applyAll o.readerRole ms).Follows (σ.protocol (.apply o)) (fun l' r =>
      match r with
      | .ok () => Ready σ o l' []
      | .error _ => Out σ (.apply o) l') l := by
  induction ms generalizing l with
  | nil => exact h
  | cons m ms ih =>
    apply Program.follows_bind.2
    refine (follows_applyOne hroles h).mono ?_
    rintro l₁ (e | ⟨⟩) h₁
    · exact h₁
    · exact ih h₁

/-! ### The calls -/

variable (σ) in
/-- What a call that has read the rows knows, besides what they are. -/
structure Known (l : Local (Option Text) (Data O)) (verify : Bool) (ms : List Migration) : Prop where
  left : ms = outstanding σ.shipped l.data
  checked : checkApplied σ.characters (fetched l.data.rows) σ.shipped verify = .ok ()

/-- `pending`, within the lock. -/
theorem follows_pending {verify : Bool} (h : Entered σ c l) :
    (pending σ.characters σ.files verify false).Follows (σ.protocol c) (fun l' r =>
      match r with
      | .ok ms => Known σ l' verify ms ∧ (∃ rows, Read σ c l' rows) ∧
        l'.session.autocommit = l.session.autocommit
      | .error _ => Out σ c l') l := by
  unfold pending
  apply Program.follows_bind.2
  cases hfiles : discover σ.characters σ.files with
  | error e => exact h.toOut
  | ok shipped =>
    have hshipped : σ.shipped = shipped := by
      rw [Setting.shipped, released, hfiles]
      rfl
    apply Program.follows_bind.2
    refine (follows_readRows h).mono ?_
    rintro l₁ (e | rows) h₁
    · exact h₁
    obtain ⟨h₁, hmode⟩ := h₁
    obtain rfl := h₁.rows_eq
    apply Program.follows_bind.2
    cases hcheck : checkApplied σ.characters (fetched l₁.data.rows) shipped verify with
    | error e => exact h₁.toOut
    | ok a =>
      refine ⟨⟨?_, hshipped ▸ hcheck⟩, ⟨_, h₁⟩, hmode⟩
      rw [hshipped, notApplied_fetched]

/-- `apply`, within the lock. -/
theorem follows_applyBlock (hroles : σ.roles o.readerRole) (h : Entered σ (.apply o) l)
    (hmanual : l.session.autocommit = false) :
    (do
      let outstanding ← pending σ.characters σ.files o.verifyChecksums false
      if outstanding = [] then return []
      if !o.allowDestructive && offenders σ.characters outstanding ≠ [] then
        throw (.destructive (offenders σ.characters outstanding))
      applyAll o.readerRole outstanding
      return outstanding : Db (List Migration)).Follows (σ.protocol (.apply o))
      (Ends σ (.apply o) fun _ base d => σ.Complete d ∧ ¬ σ.Refused o base) l := by
  have hout : ∀ {l' e}, Out σ (.apply o) l' → Ends σ (.apply o)
      (fun (_ : List Migration) base d => σ.Complete d ∧ ¬ σ.Refused o base) l' (.error e) :=
    fun h => h.ends_error _ _
  apply Program.follows_bind.2
  refine (follows_pending h).mono ?_
  rintro l₁ (e | ms) h₁
  · exact hout h₁
  obtain ⟨hknown, ⟨rows, h₁⟩, hmode⟩ := h₁
  obtain ⟨hleft, hchecked⟩ := hknown
  have hrefused : o.allowDestructive = true ∨ offenders σ.characters ms = [] →
      ¬ σ.Refused o l₁.base := by
    intro hoffenders hbase
    refine not_refused σ.shipped_nodup hchecked (hleft ▸ hoffenders) ?_
    exact (refused_congr h₁.unchanged.rows_eq).2 hbase
  dsimp only
  split
  · -- nothing is outstanding
    rename_i hnil
    have hcomplete : σ.Complete l₁.data := ⟨h₁.table, h₁.columns, hleft.symm.trans hnil⟩
    have hnot := hrefused (.inr (by rw [hnil]; rfl))
    exact ⟨h₁.spent, h₁.progress, h₁.inv, fun _ _ _ => ⟨hcomplete, hnot⟩⟩
  split
  · exact hout h₁.toOut
  · rename_i hallow
    have hnot : ¬ σ.Refused o l₁.base := by
      refine hrefused ?_
      simpa [or_iff_not_imp_left] using hallow
    have hready : Ready σ o l₁ ms := ⟨h₁.toOut, h₁.alive, h₁.idle, h₁.held, hmode.trans hmanual,
      hnot, h₁.table, h₁.columns, hleft.symm⟩
    apply Program.follows_bind.2
    refine (follows_applyAll hroles hready).mono ?_
    rintro l₂ (e | ⟨⟩) h₂
    · exact hout h₂
    · exact ⟨h₂.spent, h₂.progress, h₂.inv, fun _ _ _ =>
        ⟨⟨h₂.table, h₂.columns, h₂.left⟩, h₂.notRefused⟩⟩

/-- The end of a call. -/
theorem Ends.post {α : Type} {R : α → Data O → Data O → Prop} {r : Except Error α}
    (h : Ends σ c R l r)
    (hresult : ∀ a base d, R a base d → ∀ o, c = .apply o → σ.Complete d ∧ ¬ σ.Refused o base) :
    σ.discipline.Post c l (r.map fun _ => ()) := by
  refine ⟨h.spent, fun hex => ⟨h.progress hex, fun hr => ?_⟩⟩
  cases r with
  | error e => cases hr
  | ok a => exact hresult a _ _ (h.result a rfl hex)

/-- The lock around a call, and what it returns left out. -/
theorem follows_call {α : Type} {p : Db α} {R : α → Data O → Data O → Prop}
    (h : p.Follows (σ.protocol c) (Ends σ c R) l)
    (hresult : ∀ a base d, R a base d → ∀ o, c = .apply o → σ.Complete d ∧ ¬ σ.Refused o base) :
    (p >>= fun _ => pure () : Db Unit).Follows (σ.protocol c) (σ.discipline.Post c) l := by
  apply Program.follows_bind.2
  refine h.mono ?_
  rintro l₁ (e | a) hends
  · exact hends.post hresult
  · exact hends.post hresult

/-- `applied_versions`, and what a call computes from its rows. -/
theorem follows_appliedVersions {lock : Bool} (hlock : lock = true ∨ σ.serial)
    (hspent : l.session.Spent) (hinv : σ.discipline.inv l.data) (hbase : l.base = l.data) :
    (appliedVersions lock).Follows (σ.protocol c) (Ends σ c fun _ _ _ => True) l := by
  refine follows_advisoryLock hlock hspent hinv hbase fun l' h' _ => (follows_readRows h').mono ?_
  rintro l₁ (e | rows) h₁
  · exact h₁.ends_error _ e
  · exact ⟨h₁.1.spent, h₁.1.progress, h₁.1.inv, fun _ _ _ => trivial⟩

theorem Ends.any {α β : Type} {R : α → Data O → Data O → Prop} {r : Except Error α}
    (h : Ends σ c R l r) (r' : Except Error β) : Ends σ c (fun _ _ _ => True) l r' :=
  ⟨h.spent, h.progress, h.inv, fun _ _ _ => trivial⟩

/-- A call that reads the rows and checks them. -/
theorem follows_reader {α : Type} {verify lock : Bool}
    {f : List Migration → List (ℤ × Option Text) → α} (hlock : lock = true ∨ σ.serial)
    (hspent : l.session.Spent) (hinv : σ.discipline.inv l.data) (hbase : l.base = l.data) :
    (do
      let shipped ← Program.ofExcept (discover σ.characters σ.files)
      let applied ← appliedVersions lock
      Program.ofExcept (checkApplied σ.characters applied shipped verify)
      return f shipped applied : Db α).Follows (σ.protocol c) (Ends σ c fun _ _ _ => True) l := by
  apply Program.follows_bind.2
  cases discover σ.characters σ.files with
  | error e => exact ⟨hspent, fun _ => progress_refl hbase, fun _ => hinv, fun _ _ _ => trivial⟩
  | ok shipped =>
    apply Program.follows_bind.2
    refine (follows_appliedVersions hlock hspent hinv hbase).mono ?_
    rintro l₁ (e | rows) hends
    · exact hends.any _
    · apply Program.follows_bind.2
      cases checkApplied σ.characters rows shipped verify with
      | error e => exact hends.any _
      | ok a => exact hends.any _

/-- **The entry points** keep the discipline, with the lock or alone. -/
theorem follows_entryPoint (hlock : c.lock = true ∨ σ.serial)
    (hroles : ∀ o, c = .apply o → σ.roles o.readerRole) (hspent : l.session.Spent)
    (hinv : σ.discipline.inv l.data) (hbase : l.base = l.data) :
    (entryPoint σ.characters σ.files c l.session).Follows (σ.protocol c)
      (σ.discipline.Post c) l := by
  cases c with
  | apply o =>
    refine follows_call (R := fun _ base d => σ.Complete d ∧ ¬ σ.Refused o base) ?_ ?_
    · show (apply σ.characters σ.files l.session.autocommit o).Follows _ _ l
      unfold apply
      split
      · exact ⟨hspent, fun _ => progress_refl hbase, fun _ => hinv, fun _ h => nomatch h⟩
      · rename_i hmanual
        refine follows_advisoryLock hlock hspent hinv hbase fun l' h' hmode => ?_
        exact follows_applyBlock (hroles o rfl) h' (hmode.trans (Bool.eq_false_iff.2 hmanual))
    · rintro _ base d hresult _ ⟨⟩
      exact hresult
  | pending verify lock =>
    exact follows_call (follows_reader hlock hspent hinv hbase) fun _ _ _ _ _ h => nomatch h
  | status verify lock =>
    exact follows_call (follows_reader hlock hspent hinv hbase) fun _ _ _ _ _ h => nomatch h
  | appliedVersions lock =>
    exact follows_call (follows_appliedVersions hlock hspent hinv hbase)
      fun _ _ _ _ _ h => nomatch h

end Tokenweir.Migrations.Setting
