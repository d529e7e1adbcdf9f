import Tokenweir.Lib.Transaction
import Tokenweir.Reconcile.Preservation

/-!
# Applying a plan

`apply` derives the plan anew, refuses it or executes all of it in one transaction; everything
that it asks of the database may fail.

* `Faults`, `ApplyError`; `replan`, `executePlan`, `apply`;
* `Rederived`, `Refused`; `apply_cases`, what can become of a call;
* `apply_atomic`.
-/

namespace Tokenweir.Reconcile

open Sql (Database Statement Day Server)

/-! ### The model -/

/-- What fails of the calls to the database. -/
structure Faults where
  /-- The reference schema cannot be built. -/
  reference : Bool
  /-- The catalog cannot be read. -/
  reading : Bool
  /-- A statement of the plan raises. -/
  statement : ℕ → Bool
  commit : Bool

/-- The exceptions of `apply`. -/
inductive ApplyError
  | autocommit
  | planning (f : Failure)
  | contradiction
  | reference
  | reading
  | stale
  | manualResolution
  | statement
  | commit
  deriving DecidableEq

/-- `signature`. -/
def Plan.signature (p : Plan) : List (Text × Text × Resolution × List Statement) :=
  p.discrepancies.map fun d => (d.relation, d.description, d.resolution, d.statements)

/-- The baseline that is given disagrees with that of the plan that is given. -/
def contradicts (given : Option Day) (existing : Option Plan) : Bool :=
  given.isSome && existing.any fun p => p.baseline ≠ given

/-- The baseline to plan with: that of the plan, if one is given. -/
def baselineOf (given : Option Day) (existing : Option Plan) : Option Day :=
  existing.elim given Plan.baseline

/-- A connection to the database. -/
abbrev DatabaseConnection := Connection Database Statement

/-- `plan`, on a connection that is not in autocommit mode; it ends in a rollback. -/
def replan (faults : Faults) (c : DatabaseConnection) (baseline : Option Baseline) :
    Except ApplyError Plan × DatabaseConnection :=
  match normaliseBaseline baseline with
  | .error e => (.error (.planning e), c)
  | .ok day =>
    if faults.reference then (.error .reference, c.rollback)
    else if faults.reading then (.error .reading, c.rollback)
    else
      match planWith c.store day with
      | .error e => (.error (.planning e), c.rollback)
      | .ok p => (.ok p, c.rollback)

/-- The transaction of `apply`. -/
def executePlan (server : Server) (faults : Faults) (c : DatabaseConnection) (p : Plan) :
    Except ApplyError Plan × DatabaseConnection :=
  match Connection.executeAll (Sql.exec server) faults.statement 0 c p.statements with
  | (false, c) => (.error .statement, c.rollback)
  | (true, c) =>
    match c.commit faults.commit with
    | (false, c) => (.error .commit, c.rollback)
    | (true, c) => (.ok p, c)

/-- `apply`. -/
def apply (server : Server) (faults : Faults) (autocommit : Bool) (c : DatabaseConnection)
    (existing : Option Plan) (given : Option Baseline) :
    Except ApplyError Plan × DatabaseConnection :=
  if autocommit then (.error .autocommit, c)
  else
    match normaliseBaseline given with
    | .error e => (.error (.planning e), c)
    | .ok day =>
      if contradicts day existing then (.error .contradiction, c)
      else
        -- the baseline is handed over as text
        match replan faults c ((baselineOf day existing).map fun d => .text d.text) with
        | (.error e, c) => (.error e, c)
        | (.ok current, c) =>
          if existing.any (fun p => p.signature ≠ current.signature) then (.error .stale, c)
          else if current.manual ≠ [] then (.error .manualResolution, c)
          else if current.isEmpty then (.ok current, c)
          else executePlan server faults c current

/-! ### What is derived anew -/

/-- The plan that is derived anew. -/
def Rederived (db : Database) (existing : Option Plan) (given : Option Baseline) (p : Plan) :
    Prop :=
  ∃ day, normaliseBaseline given = .ok day ∧ planWith db (baselineOf day existing) = .ok p

/-- The reasons to refuse. -/
def Refused (autocommit : Bool) (db : Database) (existing : Option Plan)
    (given : Option Baseline) : Prop :=
  autocommit = true ∨
    (∃ day, normaliseBaseline given = .ok day ∧ contradicts day existing = true) ∨
    ∃ p, Rederived db existing given p ∧
      (p.manual ≠ [] ∨ ∃ q ∈ existing, q.signature ≠ p.signature)

/-- A baseline that is normal stays as it is. -/
theorem normaliseBaseline_text {d : Day} {day : Option Day}
    (h : normaliseBaseline (some (.text d.text)) = .ok day) : day = some d := by
  cases d with
  | minusInfinity =>
    have hok : normaliseBaseline (some (.text Day.minusInfinity.text)) =
        .ok (some .minusInfinity) := by
      decide +kernel
    exact (Except.ok.inj (hok.symm.trans h)).symm
  | infinity =>
    have herror : normaliseBaseline (some (.text Day.infinity.text)) = .error .valueError := by
      decide +kernel
    rw [herror] at h
    cases h
  | date d =>
    have hstrip : (Sql.isoText d).strip = Sql.isoText d :=
      Text.strip_eq_self (Sql.isoText_not_isSpace d)
    have hlower : ∀ s : Text, s.length ≠ 10 → (Sql.isoText d).lower ≠ s := fun s hs heq =>
      hs (by rw [← heq, Text.length_lower, Sql.length_isoText])
    have hok : normaliseBaseline (some (.text (Day.date d).text)) = .ok (some (.date d)) := by
      unfold normaliseBaseline
      dsimp only [Day.text]
      rw [hstrip, if_neg (hlower _ (by decide)), if_neg (hlower _ (by decide)),
        Sql.isoDate_isoText]
    exact (Except.ok.inj (hok.symm.trans h)).symm

theorem normaliseBaseline_map_text {b day : Option Day}
    (h : normaliseBaseline (b.map fun d => .text d.text) = .ok day) : day = b := by
  cases b with
  | none => exact (Except.ok.inj h).symm
  | some d => exact normaliseBaseline_text h

/-! ### A call -/

variable {server : Server} {faults : Faults} {autocommit : Bool} {c : DatabaseConnection}
  {existing : Option Plan} {given : Option Baseline}

/-- Planning commits and sends nothing, and a plan that it returns is the plan of the
database. -/
theorem replan_cases (faults : Faults) (c : DatabaseConnection) (b : Option Day) :
    ∃ result c', replan faults c (b.map fun d => .text d.text) = (result, c') ∧
      (c' = c ∨ c' = c.rollback) ∧
      ∀ p, result = .ok p → c' = c.rollback ∧ planWith c.store b = .ok p := by
  unfold replan
  split
  · exact ⟨_, _, rfl, Or.inl rfl, fun p hp => by cases hp⟩
  · rename_i day hday
    obtain rfl := normaliseBaseline_map_text hday
    split
    · exact ⟨_, _, rfl, Or.inr rfl, fun p hp => by cases hp⟩
    split
    · exact ⟨_, _, rfl, Or.inr rfl, fun p hp => by cases hp⟩
    split
    · exact ⟨_, _, rfl, Or.inr rfl, fun p hp => by cases hp⟩
    · rename_i p hp
      exact ⟨_, _, rfl, Or.inr rfl, fun q hq => ⟨rfl, Except.ok.inj hq ▸ hp⟩⟩

/-- **What can become of a call**: it raises before it sends anything, or it goes on with the
plan that is derived anew, which it has not refused. -/
theorem apply_cases (server : Server) (faults : Faults) (autocommit : Bool)
    (c : DatabaseConnection) (existing : Option Plan) (given : Option Baseline) :
    (∃ e c', apply server faults autocommit c existing given = (.error e, c') ∧
      c'.store = c.store ∧ c'.history = c.history ∧ c'.sent = c.sent) ∨
    ∃ p, ¬ Refused autocommit c.store existing given ∧ Rederived c.store existing given p ∧
      p.manual = [] ∧ (∀ q ∈ existing, q.signature = p.signature) ∧
      apply server faults autocommit c existing given =
        if p.isEmpty then (.ok p, c.rollback) else executePlan server faults c.rollback p := by
  unfold apply
  split
  · exact Or.inl ⟨_, _, rfl, rfl, rfl, rfl⟩
  rename_i hauto
  split
  · exact Or.inl ⟨_, _, rfl, rfl, rfl, rfl⟩
  rename_i day hday
  split
  · exact Or.inl ⟨_, _, rfl, rfl, rfl, rfl⟩
  rename_i hagree
  obtain ⟨result, c', heq, hc', hok⟩ := replan_cases faults c (baselineOf day existing)
  have hkept : c'.store = c.store ∧ c'.history = c.history ∧ c'.sent = c.sent := by
    rcases hc' with rfl | rfl <;> exact ⟨rfl, rfl, rfl⟩
  rw [heq]
  cases result with
  | error e => exact Or.inl ⟨_, _, rfl, hkept⟩
  | ok p =>
    obtain ⟨rfl, hplan⟩ := hok p rfl
    dsimp only
    split
    · exact Or.inl ⟨_, _, rfl, hkept⟩
    rename_i hfresh
    split
    · exact Or.inl ⟨_, _, rfl, hkept⟩
    rename_i hmanual
    rw [not_not] at hmanual
    have hsignature : ∀ q ∈ existing, q.signature = p.signature := by
      rintro q rfl
      simpa using hfresh
    refine Or.inr ⟨p, ?_, ⟨day, hday, hplan⟩, hmanual, hsignature, rfl⟩
    rintro (h | ⟨day', hday', h⟩ | ⟨q, ⟨day', hday', hq⟩, h⟩)
    · exact hauto h
    · obtain rfl : day' = day := Except.ok.inj (hday'.symm.trans hday)
      exact hagree h
    · -- the plan that is derived anew is the only one
      obtain rfl : day' = day := Except.ok.inj (hday'.symm.trans hday)
      obtain rfl : q = p := Except.ok.inj (hq.symm.trans hplan)
      exact h.elim (fun h => h hmanual) fun ⟨r, hr, hne⟩ => hne (hsignature r hr)

/-- The transaction: all statements are committed at once, or nothing is. -/
theorem executePlan_cases (server : Server) (faults : Faults) (c : DatabaseConnection) (p : Plan)
    (hview : c.view = some c.store) (hpending : c.pending = []) :
    (∃ e c', executePlan server faults c p = (.error e, c') ∧ c'.store = c.store ∧
      c'.history = c.history) ∨
    ∃ c', executePlan server faults c p = (.ok p, c') ∧
      Sql.execute server c.store p.statements = some c'.store ∧
      c'.history = c.history ++ [p.statements] := by
  obtain ⟨hstore, hhistory⟩ := @Connection.executeAll_frame _ _ (Sql.exec server)
    faults.statement 0 c p.statements
  unfold executePlan
  split
  · rename_i d hd
    rw [hd] at hstore hhistory
    exact Or.inl ⟨_, _, rfl, hstore, hhistory⟩
  · rename_i d hd
    rw [hd] at hstore hhistory
    obtain ⟨s, hs, hsview, hspending⟩ := Connection.executeAll_view hview hd
    rw [hpending, List.nil_append] at hspending
    split
    · rename_i d' hd'
      obtain ⟨hstore', hhistory'⟩ := Connection.commit_false hd'
      exact Or.inl ⟨_, _, rfl, hstore'.trans hstore, hhistory'.trans hhistory⟩
    · rename_i d' hd'
      obtain ⟨hstore', hhistory'⟩ := Connection.commit_true hsview hd'
      refine Or.inr ⟨d', rfl, ?_, ?_⟩
      · rw [hstore']
        exact hs
      · rw [hhistory', hspending, hhistory]

/-- The statements of a plan are determined by its signature. -/
theorem statements_of_signature {p q : Plan} (h : q.signature = p.signature) :
    q.statements = p.statements := by
  have hsecond : ∀ p : Plan, p.statements = (p.signature.map fun s => s.2.2.2).flatten := by
    intro p
    rw [Plan.statements, Plan.signature, List.map_map, List.flatMap]
    rfl
  rw [hsecond q, hsecond p, h]

/-- **`apply` is all or nothing, and runs what was read.** A call that returns has committed, in
one transaction, the statements of the plan that was derived anew, which are those of the plan
that was given; a call that raises has committed nothing; and what is to be refused raises
before a statement is sent. -/
theorem apply_atomic (server : Server) (faults : Faults) (autocommit : Bool)
    (c : DatabaseConnection) (existing : Option Plan) (given : Option Baseline) :
    ∃ result c', apply server faults autocommit c existing given = (result, c') ∧
      (∀ p, result = .ok p → Rederived c.store existing given p ∧ p.manual = [] ∧
        (∀ q ∈ existing, q.statements = p.statements) ∧
        Sql.execute server c.store p.statements = some c'.store ∧
        c'.history = c.history ++ if p.isEmpty then [] else [p.statements]) ∧
      (∀ e, result = .error e → c'.store = c.store ∧ c'.history = c.history) ∧
      (Refused autocommit c.store existing given →
        (∃ e, result = .error e) ∧ c'.store = c.store ∧ c'.sent = c.sent) := by
  rcases apply_cases server faults autocommit c existing given with
    ⟨e, c', heq, hstore, hhistory, hsent⟩ | ⟨p, hfine, hplan, hmanual, hsignature, heq⟩
  · exact ⟨_, c', heq, fun p hp => (by cases hp), fun _ _ => ⟨hstore, hhistory⟩,
      fun _ => ⟨⟨e, rfl⟩, hstore, hsent⟩⟩
  have hsame : ∀ q ∈ existing, q.statements = p.statements := fun q hq =>
    statements_of_signature (hsignature q hq)
  rw [heq]
  by_cases hempty : p.isEmpty = true
  · -- nothing is to be done
    rw [if_pos hempty]
    refine ⟨_, _, rfl, fun q hq => ?_, fun e he => (by cases he), fun h => absurd h hfine⟩
    obtain rfl := Except.ok.inj hq
    have hnone : p.statements = [] := by
      rw [Plan.statements, List.isEmpty_iff.1 hempty]
      rfl
    refine ⟨hplan, hmanual, hsame, ?_, by rw [if_pos hempty, List.append_nil]; rfl⟩
    rw [hnone]
    rfl
  · rw [if_neg hempty]
    rcases executePlan_cases server faults c.rollback p rfl rfl with
      ⟨e, c', hexec, hstore, hhistory⟩ | ⟨c', hexec, hexecuted, hhistory⟩
    · exact ⟨_, c', hexec, fun q hq => (by cases hq), fun _ _ => ⟨hstore, hhistory⟩,
        fun h => absurd h hfine⟩
    · refine ⟨_, c', hexec, fun q hq => ?_, fun e he => (by cases he), fun h => absurd h hfine⟩
      obtain rfl := Except.ok.inj hq
      exact ⟨hplan, hmanual, hsame, hexecuted, by rw [if_neg hempty]; exact hhistory⟩

/-- An operator's plan for the gateway's database, applied: one transaction, its statements. -/
example : ((planWith legacy (some .minusInfinity)).toOption.map fun p =>
    let c := (apply plainServer ⟨false, false, fun _ => false, false⟩ false
      (Connection.opened legacy) (some p) none).2
    decide (c.history = [p.statements])) = some true := by
  decide +kernel

end Tokenweir.Reconcile
