import Mathlib.Logic.Function.Basic
import Tokenweir.Lib.Machine
import Tokenweir.Lib.Program

/-!
# Sessions of a database server

Parties that run programs, each on a session of its own, against one server: statements in
transactions, with an error that aborts them, and one lock that a session holds across its
transactions, as often as it has taken it, until it gives it back or is closed.

* `Dialect`, what statements mean; `Request`, `Session`, `Local`; `perform`, `fail`, `close`;
* `World`, `World.step`, every interleaving of the parties, with failures; `World.Initial`;
* `World.call_of_step`, what a party remembers of its call.
-/

namespace Tokenweir

/-- What a server makes of the statements `S` in a transaction: the answer, the settings of the
transaction, and the data if they change; nothing if the statement is an error. -/
structure Dialect (S : Type) (A : S → Type) (L D : Type) where
  settings : L
  meaning : (s : S) → L → D → Option (A s × L × Option D)

/-- What a program asks of its session. -/
inductive Request (S : Type)
  | statement (s : S)
  | lock
  | unlock
  | commit
  | rollback

/-- What it gets. -/
def Answer {S : Type} (A : S → Type) : Request S → Type
  | .statement s => A s
  | _ => Unit

/-! ### Sessions -/

/-- A transaction: the data when it began, its settings, and the data as it has written them. -/
structure Transaction (L D : Type) where
  snapshot : D
  settings : L
  written : Option D
  aborted : Bool

/-- A session; one that is not in autocommit mode begins a transaction with its first statement,
which reads the data as they are, or all along as they were when it began. -/
structure Session (L D : Type) where
  autocommit : Bool
  repeatable : Bool
  alive : Bool
  transaction : Option (Transaction L D)
  transaction_none : autocommit = true ∨ alive = false → transaction = none

/-- What concerns one party: its session, how often it holds the lock, the data, the data when its
call began or got the lock, and whether it has made a statement since and not unlocked. -/
structure Local (L D : Type) where
  session : Session L D
  locks : ℕ
  data : D
  base : D
  inside : Bool

namespace Session

variable {L D : Type}

/-- Nothing is written that a commit would keep. -/
def Neutral (s : Session L D) : Prop := ∀ t ∈ s.transaction, t.aborted = true ∨ t.written = none

/-- There is no transaction that could go on. -/
def Spent (s : Session L D) : Prop := ∀ t ∈ s.transaction, t.aborted = true

/-- The session without a transaction. -/
def idle (s : Session L D) : Session L D :=
  { s with transaction := none, transaction_none := fun _ => rfl }

/-- The session in a transaction, unless it is in autocommit mode or has ended. -/
def within (s : Session L D) (t : Transaction L D) : Session L D :=
  if h : s.autocommit = true ∨ s.alive = false then s
  else { s with transaction := some t, transaction_none := fun h' => absurd h' h }

/-- A new session. -/
def opened (autocommit repeatable : Bool) : Session L D :=
  ⟨autocommit, repeatable, true, none, fun _ => rfl⟩

/-- A session that has ended. -/
def closed (s : Session L D) : Session L D :=
  { s with alive := false, transaction := none, transaction_none := fun _ => rfl }

theorem Spent.neutral {s : Session L D} (h : s.Spent) : s.Neutral := fun t ht => .inl (h t ht)

theorem spent_of_none {s : Session L D} (h : s.transaction = none) : s.Spent := by
  intro t ht
  rw [h] at ht
  cases ht

@[simp] theorem idle_transaction (s : Session L D) : s.idle.transaction = none := rfl
@[simp] theorem idle_alive (s : Session L D) : s.idle.alive = s.alive := rfl
@[simp] theorem idle_autocommit (s : Session L D) : s.idle.autocommit = s.autocommit := rfl
@[simp] theorem idle_repeatable (s : Session L D) : s.idle.repeatable = s.repeatable := rfl

theorem idle_spent (s : Session L D) : s.idle.Spent := spent_of_none rfl

@[simp] theorem within_alive (s : Session L D) (t : Transaction L D) :
    (s.within t).alive = s.alive := by
  unfold within
  split <;> rfl

@[simp] theorem within_autocommit (s : Session L D) (t : Transaction L D) :
    (s.within t).autocommit = s.autocommit := by
  unfold within
  split <;> rfl

theorem within_neutral (s : Session L D) {t : Transaction L D}
    (ht : t.aborted = true ∨ t.written = none) : (s.within t).Neutral := by
  unfold within
  split
  · rename_i hnone
    exact (spent_of_none (s.transaction_none hnone)).neutral
  · rintro _ ⟨⟩
    exact ht

theorem within_spent (s : Session L D) {t : Transaction L D} (ht : t.aborted = true) :
    (s.within t).Spent := by
  unfold within
  split
  · rename_i hnone
    exact spent_of_none (s.transaction_none hnone)
  · rintro _ ⟨⟩
    exact ht

end Session

namespace Local

variable {S : Type} {A : S → Type} {L D : Type} (δ : Dialect S A L D)

/-- The transaction of a request that is made, where it begins one, of the data `issued`. -/
def transaction (issued : D) (l : Local L D) : Transaction L D :=
  l.session.transaction.getD ⟨issued, δ.settings, none, false⟩

/-- The data as a statement finds them. -/
def view (l : Local L D) (t : Transaction L D) : D :=
  t.written.getD (if l.session.repeatable then t.snapshot else l.data)

/-- The data after a commit. -/
def committed (l : Local L D) : D :=
  match l.session.transaction with
  | none => l.data
  | some t => if t.aborted then l.data else t.written.getD l.data

/-- A request that succeeds. -/
def perform (issued : D) (l : Local L D) : (q : Request S) → Option (Answer A q × Local L D)
  | .statement s =>
    let t := l.transaction δ issued
    if l.session.alive && !t.aborted then
      match δ.meaning s t.settings (l.view t) with
      | none => none
      | some (a, settings, change) =>
        some (a, { l with
          session := l.session.within { t with settings, written := change.or t.written }
          data := if l.session.autocommit then change.getD l.data else l.data
          inside := true })
    else none
  | .lock =>
    if l.session.alive && !(l.transaction δ issued).aborted then
      some ((), { l with
        session := l.session.within (l.transaction δ issued)
        locks := l.locks + 1
        base := l.data })
    else none
  | .unlock =>
    if l.session.alive && !(l.transaction δ issued).aborted then
      some ((), { l with
        session := l.session.within (l.transaction δ issued)
        locks := l.locks - 1
        inside := false })
    else none
  | .commit =>
    if l.session.alive then some ((), { l with session := l.session.idle, data := l.committed })
    else none
  | .rollback =>
    if l.session.alive then some ((), { l with session := l.session.idle }) else none

/-- The session after an error in its transaction. -/
def abort (issued : D) (l : Local L D) : Session L D :=
  l.session.within { l.transaction δ issued with aborted := true }

/-- A request that fails: an error aborts the transaction, and a commit that fails undoes it. -/
def fail (issued : D) (l : Local L D) : Request S → Local L D
  | .statement _ =>
    if l.session.alive then { l with session := l.abort δ issued, inside := true } else l
  | .lock => if l.session.alive then { l with session := l.abort δ issued } else l
  | .unlock =>
    if l.session.alive then { l with session := l.abort δ issued, inside := false } else l
  | .commit => { l with session := l.session.idle }
  | .rollback => l

/-- The end of the session, which undoes its transaction and frees its lock. -/
def close (l : Local L D) : Local L D :=
  { l with session := l.session.closed, locks := 0, inside := false }

variable {δ}

theorem perform_statement {issued : D} {l l' : Local L D} {s : S} {a : A s} :
    l.perform δ issued (.statement s) = some (a, l') ↔
      l.session.alive = true ∧ (l.transaction δ issued).aborted = false ∧
        ∃ settings change, δ.meaning s (l.transaction δ issued).settings
            (l.view (l.transaction δ issued)) = some (a, settings, change) ∧
          l' = { l with
            session := l.session.within { l.transaction δ issued with
              settings, written := change.or (l.transaction δ issued).written }
            data := if l.session.autocommit then change.getD l.data else l.data
            inside := true } := by
  rw [perform]
  dsimp only
  split
  · rename_i h
    rw [Bool.and_eq_true, Bool.not_eq_true'] at h
    split
    · rename_i hnone
      simp [hnone]
    · rename_i a' settings change hsome
      rw [hsome]
      constructor
      · rintro ⟨⟩
        exact ⟨h.1, h.2, settings, change, rfl, rfl⟩
      · rintro ⟨-, -, settings', change', ⟨⟩, rfl⟩
        rfl
  · rename_i h
    rw [Bool.and_eq_true, Bool.not_eq_true'] at h
    constructor
    · intro hnone
      cases hnone
    · rintro ⟨halive, habort, -⟩
      exact absurd ⟨halive, habort⟩ h

theorem ite_some_eq {b : Bool} {l l' : Local L D} {a : Unit} :
    (if b then some ((), l) else none) = some (a, l') ↔ b = true ∧ l' = l := by
  cases b <;> simp [eq_comm]

theorem perform_lock {issued : D} {l l' : Local L D} {a : Unit} :
    l.perform δ issued (.lock : Request S) = some (a, l') ↔
      (l.session.alive && !(l.transaction δ issued).aborted) = true ∧
        l' = { l with
          session := l.session.within (l.transaction δ issued)
          locks := l.locks + 1
          base := l.data } :=
  ite_some_eq

theorem perform_unlock {issued : D} {l l' : Local L D} {a : Unit} :
    l.perform δ issued (.unlock : Request S) = some (a, l') ↔
      (l.session.alive && !(l.transaction δ issued).aborted) = true ∧
        l' = { l with
          session := l.session.within (l.transaction δ issued)
          locks := l.locks - 1
          inside := false } :=
  ite_some_eq

theorem perform_commit {issued : D} {l l' : Local L D} {a : Unit} :
    l.perform δ issued (.commit : Request S) = some (a, l') ↔
      l.session.alive = true ∧ l' = { l with session := l.session.idle, data := l.committed } :=
  ite_some_eq

theorem perform_rollback {issued : D} {l l' : Local L D} {a : Unit} :
    l.perform δ issued (.rollback : Request S) = some (a, l') ↔
      l.session.alive = true ∧ l' = { l with session := l.session.idle } :=
  ite_some_eq

/-- A commit of nothing changes nothing. -/
theorem committed_of_neutral {l : Local L D} (h : l.session.Neutral) : l.committed = l.data := by
  unfold committed
  split
  · rfl
  · rename_i t ht
    rcases h t ht with h | h
    · rw [if_pos h]
    · split
      · rfl
      · rw [h, Option.getD_none]

/-- The lock and its release write nothing. -/
theorem neutral_within_transaction {l : Local L D} (h : l.session.Neutral) (issued : D) :
    (l.session.within (l.transaction δ issued)).Neutral := by
  apply Session.within_neutral
  unfold Local.transaction
  cases ht : l.session.transaction with
  | none => exact .inr rfl
  | some t => exact h t ht

/-- A request succeeds only on a session that is open. -/
theorem alive_of_perform {issued : D} {l l' : Local L D} {q : Request S} {a : Answer A q}
    (h : l.perform δ issued q = some (a, l')) : l.session.alive = true := by
  by_contra hnot
  cases q <;> simp [perform, hnot] at h

section Fail

variable {l : Local L D}

theorem fail_of_not_alive {issued : D} {q : Request S} (h : l.session.alive = false)
    (hidle : l.session.transaction = none) : l.fail δ issued q = l := by
  obtain ⟨⟨autocommit, repeatable, alive, transaction, _⟩, locks, data, base, inside⟩ := l
  dsimp only at h hidle
  subst h hidle
  cases q <;> rfl

/-- A request that fails leaves the data. -/
theorem fail_data (issued : D) (q : Request S) : (l.fail δ issued q).data = l.data := by
  cases q <;> rw [Local.fail]
  all_goals split <;> rfl

theorem fail_locks (issued : D) (q : Request S) : (l.fail δ issued q).locks = l.locks := by
  cases q <;> rw [Local.fail]
  all_goals split <;> rfl

theorem fail_base (issued : D) (q : Request S) : (l.fail δ issued q).base = l.base := by
  cases q <;> rw [Local.fail]
  all_goals split <;> rfl

theorem fail_alive (issued : D) (q : Request S) :
    (l.fail δ issued q).session.alive = l.session.alive := by
  cases q <;> rw [Local.fail]
  all_goals first | rfl | split
  all_goals first | rfl | exact Session.within_alive _ _

/-- A transaction does not go on after an error. -/
theorem fail_spent (issued : D) {q : Request S} (hq : q ≠ .rollback) :
    (l.fail δ issued q).session.Spent := by
  have hdead : ¬ l.session.alive = true → l.session.Spent := fun hnot =>
    Session.spent_of_none (l.session.transaction_none (.inr (Bool.eq_false_iff.2 hnot)))
  cases q with
  | rollback => exact absurd rfl hq
  | commit => exact Session.idle_spent _
  | statement s | lock | unlock =>
    rw [Local.fail]
    split
    · exact Session.within_spent _ rfl
    · exact hdead (by assumption)

end Fail

/-- A request that succeeds changes the base to the data, or not at all. -/
theorem base_of_perform {issued : D} {l l' : Local L D} {q : Request S} {a : Answer A q}
    (h : l.perform δ issued q = some (a, l')) : l'.base = l.base ∨ l'.base = l.data := by
  cases q with
  | statement s =>
    obtain ⟨-, -, settings, change, -, rfl⟩ := perform_statement.1 h
    exact .inl rfl
  | lock =>
    obtain ⟨-, rfl⟩ := perform_lock.1 h
    exact .inr rfl
  | unlock =>
    obtain ⟨-, rfl⟩ := perform_unlock.1 h
    exact .inl rfl
  | commit =>
    obtain ⟨-, rfl⟩ := perform_commit.1 h
    exact .inl rfl
  | rollback =>
    obtain ⟨-, rfl⟩ := perform_rollback.1 h
    exact .inl rfl

/-- Only the request for the lock takes it. -/
theorem locks_eq_of_perform {issued : D} {l l' : Local L D} {q : Request S} {a : Answer A q}
    (h : l.perform δ issued q = some (a, l')) (hq : q ≠ .lock) (hzero : l.locks = 0) :
    l'.locks = l.locks := by
  cases q with
  | statement s =>
    obtain ⟨-, -, settings, change, -, rfl⟩ := perform_statement.1 h
    rfl
  | lock => exact absurd rfl hq
  | unlock =>
    obtain ⟨-, rfl⟩ := perform_unlock.1 h
    show l.locks - 1 = l.locks
    omega
  | commit =>
    obtain ⟨-, rfl⟩ := perform_commit.1 h
    rfl
  | rollback =>
    obtain ⟨-, rfl⟩ := perform_rollback.1 h
    rfl

variable (δ) in
/-- A transaction that can go on, or none yet, with these settings, sees these data: those of its
session, or what it has written itself. -/
def Sees (l : Local L D) (settings : L) (v : D) : Prop :=
  (l.session.transaction = none ∧ settings = δ.settings ∧ v = l.data) ∨
    ∃ t, l.session.transaction = some t ∧ t.aborted = false ∧ t.settings = settings ∧
      t.snapshot = l.data ∧ t.written.getD l.data = v

variable {l l' : Local L D} {settings : L} {v : D}

theorem Sees.transaction (h : l.Sees δ settings v) :
    (l.transaction δ l.data).settings = settings ∧ l.view (l.transaction δ l.data) = v ∧
      (l.transaction δ l.data).snapshot = l.data ∧
      (l.transaction δ l.data).written.getD l.data = v := by
  unfold Local.transaction view
  rcases h with ⟨htransaction, rfl, rfl⟩ | ⟨t, htransaction, -, rfl, hsnapshot, hv⟩
  · rw [htransaction]
    exact ⟨rfl, ite_self _, rfl, rfl⟩
  · rw [htransaction, Option.getD_some, hsnapshot, ite_self]
    exact ⟨rfl, hv, rfl, hv⟩

/-- A commit keeps what the transaction sees. -/
theorem Sees.committed (h : l.Sees δ settings v) : l.committed = v := by
  unfold Local.committed
  rcases h with ⟨htransaction, -, rfl⟩ | ⟨t, htransaction, habort, -, -, hv⟩
  · rw [htransaction]
  · rw [htransaction]
    dsimp only
    rw [habort]
    exact hv

/-- **A statement**, by what its transaction sees. -/
theorem Sees.perform {s : S} {a : A s} (h : l.Sees δ settings v)
    (hperform : l.perform δ l.data (.statement s) = some (a, l')) :
    ∃ settings' change, δ.meaning s settings v = some (a, settings', change) ∧
      l'.Sees δ (if l.session.autocommit then δ.settings else settings') (change.getD v) ∧
      l'.data = (if l.session.autocommit then change.getD v else l.data) ∧ l'.base = l.base ∧
      l'.locks = l.locks ∧ l'.session.alive = true ∧
      l'.session.autocommit = l.session.autocommit := by
  obtain ⟨hsettings, hview, hsnapshot, hwritten⟩ := h.transaction
  obtain ⟨halive, habort, settings', change, hmeaning, rfl⟩ := perform_statement.1 hperform
  rw [hsettings, hview] at hmeaning
  refine ⟨settings', change, hmeaning, ?_⟩
  by_cases hauto : l.session.autocommit = true
  · -- the statement is its own transaction
    have hnone := l.session.transaction_none (.inl hauto)
    have hv : v = l.data := by
      rcases h with ⟨-, -, hv⟩ | ⟨t, ht, -⟩
      · exact hv
      · rw [hnone] at ht
        cases ht
    subst hv
    simp only [Session.within, hauto, true_or, dite_true, if_true, halive, and_true]
    exact .inl ⟨hnone, rfl, rfl⟩
  · simp only [Session.within, hauto, dite_false, if_false, halive, and_true, Bool.false_eq_true,
      Bool.true_eq_false, or_self]
    refine .inr ⟨_, rfl, habort, rfl, hsnapshot, ?_⟩
    cases change with
    | none => exact hwritten
    | some d => rfl

end Local

/-! ### Worlds -/

section World

variable {ι S : Type} {A : S → Type} {L D ε ρ C : Type}

/-- A party: its session, the call that it makes and what is left of its program, and the data
when it asked for the lock, if it waits for it. -/
structure Party (S : Type) (A : S → Type) (L D ε ρ C : Type) where
  session : Session L D
  call : Option C
  program : Program (Request S) (Answer A) ε ρ
  waiting : Option D
  base : D
  inside : Bool

/-- The data, the lock with its holder and how often it is held, and the parties. -/
structure World (ι S : Type) (A : S → Type) (L D ε ρ C : Type) where
  data : D
  lock : Option (ι × ℕ)
  party : ι → Party S A L D ε ρ C

/-- What can happen: a call begins, asks for the lock, has a request answered or refused; a
session is closed, and is opened anew or rolled back between two calls. -/
inductive Action (ι ε C : Type)
  | start (i : ι) (c : C)
  | issue (i : ι)
  | succeed (i : ι)
  | fail (i : ι) (e : ε)
  | close (i : ι)
  | reopen (i : ι) (autocommit repeatable : Bool)
  | rollback (i : ι)

/-- How often a party holds a lock. -/
def heldBy [DecidableEq ι] (lock : Option (ι × ℕ)) (i : ι) : ℕ :=
  match lock with
  | none => 0
  | some (j, n) => if j = i then n else 0

/-- The lock after a party holds it `n` times. -/
def relock [DecidableEq ι] (lock : Option (ι × ℕ)) (i : ι) (n : ℕ) : Option (ι × ℕ) :=
  if n = heldBy lock i then lock else if n = 0 then none else some (i, n)

theorem heldBy_relock_self [DecidableEq ι] (lock : Option (ι × ℕ)) (i : ι) (n : ℕ) :
    heldBy (relock lock i n) i = n := by
  unfold relock
  split
  · rename_i h
    exact h.symm
  · split
    · rename_i h
      exact h.symm
    · simp [heldBy]

theorem heldBy_relock_of_ne [DecidableEq ι] {lock : Option (ι × ℕ)} {i j : ι} {n : ℕ}
    (h : n = heldBy lock i ∨ heldBy lock j = 0) (hj : j ≠ i) :
    heldBy (relock lock i n) j = heldBy lock j := by
  unfold relock
  split
  · rfl
  · rename_i hne
    rw [h.resolve_left hne]
    split
    · rfl
    · simp [heldBy, hj.symm]

/-- Two parties do not hold the lock at once. -/
theorem eq_of_heldBy [DecidableEq ι] {lock : Option (ι × ℕ)} {i j : ι} (hi : 0 < heldBy lock i)
    (hj : 0 < heldBy lock j) : i = j := by
  cases lock with
  | none => exact absurd hi (Nat.lt_irrefl 0)
  | some held =>
    obtain ⟨k, n⟩ := held
    have hholder : ∀ {m : ι}, 0 < heldBy (some (k, n)) m → k = m := by
      intro m hm
      by_contra hne
      simp [heldBy, hne] at hm
    exact (hholder hi).symm.trans (hholder hj)

namespace World

variable [DecidableEq ι] (w : World ι S A L D ε ρ C)

/-- How often a party holds the lock. -/
def locks (i : ι) : ℕ := heldBy w.lock i

/-- What concerns one party. -/
def local_ (i : ι) : Local L D :=
  ⟨(w.party i).session, w.locks i, w.data, (w.party i).base, (w.party i).inside⟩

/-- The world after a party has changed what concerns it. -/
def update (i : ι) (l : Local L D) (call : Option C) (program : Program (Request S) (Answer A) ε ρ) :
    World ι S A L D ε ρ C where
  data := l.data
  lock := relock w.lock i l.locks
  party := Function.update w.party i ⟨l.session, call, program, none, l.base, l.inside⟩

/-- The data that a request begins with, if it can be answered now: a lock that another party
holds is waited for. -/
def issued (i : ι) : Request S → Option D
  | .lock =>
    if (w.lock.elim true fun held => held.1 = i) then (w.party i).waiting else none
  | _ => some w.data

variable (δ : Dialect S A L D)
  (program : C → Session L D → Program (Request S) (Answer A) ε ρ)

/-- A step. -/
def step : Action ι ε C → Option (World ι S A L D ε ρ C)
  | .start i c =>
    match (w.party i).program with
    | .done _ =>
      some (w.update i { w.local_ i with base := w.data, inside := false } (some c)
        (program c (w.party i).session))
    | .ask _ _ => none
  | .issue i =>
    match (w.party i).program with
    | .ask .lock _ =>
      if (w.party i).session.alive && (w.party i).waiting.isNone then
        some { w with party := Function.update w.party i { w.party i with waiting := some w.data } }
      else none
    | _ => none
  | .succeed i =>
    match (w.party i).program with
    | .done _ => none
    | .ask q next =>
      match w.issued i q with
      | none => none
      | some issued =>
        match (w.local_ i).perform δ issued q with
        | none => none
        | some (a, l) => some (w.update i l (w.party i).call (next (.ok a)))
  | .fail i e =>
    match (w.party i).program with
    | .done _ => none
    | .ask q next =>
      some (w.update i ((w.local_ i).fail δ w.data q) (w.party i).call (next (.error e)))
  | .close i => some (w.update i (w.local_ i).close (w.party i).call (w.party i).program)
  | .reopen i autocommit repeatable =>
    match (w.party i).program with
    | .done _ =>
      if (w.party i).session.alive then none
      else some (w.update i { w.local_ i with session := .opened autocommit repeatable }
        (w.party i).call (w.party i).program)
    | .ask _ _ => none
  | .rollback i =>
    match (w.party i).program with
    | .done _ => some (w.update i { w.local_ i with session := (w.party i).session.idle }
        (w.party i).call (w.party i).program)
    | .ask _ _ => none

/-- Before any call, on new or used sessions. -/
structure Initial (d : D) : Prop where
  data : w.data = d
  call : ∀ i, (w.party i).call = none
  program : ∀ i, ∃ r, (w.party i).program = .done r
  spent : ∀ i, (w.party i).session.Spent
  inside : ∀ i, (w.party i).inside = false

/-- The parties as a machine. -/
def machine : Machine (World ι S A L D ε ρ C) (Action ι ε C) Empty where
  step w a := (w.step δ program a).map fun w' => (w', [])

variable {w δ program} {w' : World ι S A L D ε ρ C} {i j : ι}

theorem step_of_machine {a : Action ι ε C} {e : List Empty}
    (h : (machine δ program).step w a = some (w', e)) : w.step δ program a = some w' := by
  obtain ⟨v, hv, hpair⟩ := Option.map_eq_some_iff.1 h
  obtain ⟨rfl, -⟩ := Prod.mk.inj hpair
  exact hv

theorem update_self (l : Local L D) (call : Option C) (p : Program (Request S) (Answer A) ε ρ) :
    (w.update i l call p).party i = ⟨l.session, call, p, none, l.base, l.inside⟩ :=
  Function.update_self ..

theorem update_of_ne (l : Local L D) (call : Option C) (p : Program (Request S) (Answer A) ε ρ)
    (h : j ≠ i) : (w.update i l call p).party j = w.party j :=
  Function.update_of_ne h ..

/-- What a party remembers of its call changes only when it begins another one or gets the lock. -/
theorem call_of_step {a : Action ι ε C} (h : w.step δ program a = some w') (j : ι)
    (ha : ∀ c, a ≠ .start j c) : (w'.party j).call = (w.party j).call ∧
      ((w'.party j).base = (w.party j).base ∨ (w'.party j).base = w.data) := by
  -- an action of a party, by what it does to what concerns it
  have hupdate : ∀ {i : ι} {l : Local L D} {p : Program (Request S) (Answer A) ε ρ},
      l.base = (w.party i).base ∨ l.base = w.data →
      ((w.update i l (w.party i).call p).party j).call = (w.party j).call ∧
        (((w.update i l (w.party i).call p).party j).base = (w.party j).base ∨
          ((w.update i l (w.party i).call p).party j).base = w.data) := by
    intro i l p hbase
    by_cases hj : j = i
    · subst hj
      rw [update_self]
      exact ⟨rfl, hbase⟩
    · rw [update_of_ne _ _ _ hj]
      exact ⟨rfl, .inl rfl⟩
  cases a with
  | start i c =>
    rw [World.step] at h
    split at h
    · obtain rfl := Option.some.inj h
      have hj : j ≠ i := by
        rintro rfl
        exact ha c rfl
      rw [update_of_ne _ _ _ hj]
      exact ⟨rfl, .inl rfl⟩
    · cases h
  | issue i =>
    rw [World.step] at h
    split at h
    · split at h
      · obtain rfl := Option.some.inj h
        by_cases hj : j = i
        · subst hj
          simp
        · simp [Function.update_of_ne hj]
      · cases h
    · cases h
  | succeed i =>
    rw [World.step] at h
    split at h
    · cases h
    · split at h
      · cases h
      · split at h
        · cases h
        · rename_i hperform
          obtain rfl := Option.some.inj h
          exact hupdate (Local.base_of_perform hperform)
  | fail i e =>
    rw [World.step] at h
    split at h
    · cases h
    · obtain rfl := Option.some.inj h
      exact hupdate (.inl (Local.fail_base _ _))
  | close i =>
    obtain rfl := Option.some.inj h
    exact hupdate (.inl rfl)
  | reopen i autocommit repeatable =>
    rw [World.step] at h
    split at h
    · split at h
      · cases h
      · obtain rfl := Option.some.inj h
        exact hupdate (.inl rfl)
    · cases h
  | rollback i =>
    rw [World.step] at h
    split at h
    · obtain rfl := Option.some.inj h
      exact hupdate (.inl rfl)
    · cases h

end World

end World

end Tokenweir
