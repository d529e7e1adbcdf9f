import Tokenweir.Lib.Session

/-!
# A session with faults

One session, each of whose requests may fail for a reason of its own, while others commit what they
like: the session stays open, and an error leaves its transaction aborted until a rollback.

* `Session.Aborted`; `Watched`, a session with what was asked of it; `Watched.protocol`;
* `Answered.done`, `Answered.failed`, what a request leaves behind.
-/

namespace Tokenweir

variable {S : Type} {A : S → Type} {L D ε : Type}

/-- The session is in a transaction in which every statement fails. -/
def Session.Aborted (s : Session L D) : Prop := ∃ t ∈ s.transaction, t.aborted = true

namespace Session

theorem not_aborted_idle (s : Session L D) : ¬s.idle.Aborted := by
  rintro ⟨t, ⟨⟩, -⟩

theorem not_aborted_of_autocommit {s : Session L D} (h : s.autocommit = true) : ¬s.Aborted := by
  rintro ⟨t, ht, -⟩
  rw [s.transaction_none (.inl h)] at ht
  cases ht

/-- A session goes on in a transaction, unless it is in autocommit mode. -/
theorem aborted_within {s : Session L D} (halive : s.alive = true) (t : Transaction L D) :
    (s.within t).Aborted ↔ s.autocommit = false ∧ t.aborted = true := by
  unfold within
  split
  · rename_i h
    have hauto : s.autocommit = true := h.resolve_right (by simp [halive])
    exact iff_of_false (not_aborted_of_autocommit hauto) (by simp [hauto])
  · rename_i h
    rw [not_or, Bool.not_eq_true] at h
    simp [Aborted, h.1]

end Session

/-- A session, and what it was asked for, each with whether it was done. -/
structure Watched (S L D : Type) where
  local_ : Local L D
  log : List (Request S × Bool)

namespace Watched

/-- A request is answered, or refused for whatever reason, at some time; a rollback is not. -/
inductive Answered (δ : Dialect S A L D) (w : Watched S L D) :
    (q : Request S) → Except ε (Answer A q) → Watched S L D → Prop
  | succeed {q : Request S} {a : Answer A q} {l : Local L D} (issued d : D)
      (h : { w.local_ with data := d }.perform δ issued q = some (a, l)) :
      Answered δ w q (.ok a) ⟨l, w.log ++ [(q, true)]⟩
  | fail {q : Request S} (issued d : D) (e : ε) (hq : q ≠ .rollback) :
      Answered δ w q (.error e)
        ⟨{ w.local_ with data := d }.fail δ issued q, w.log ++ [(q, false)]⟩

/-- All that a session may be asked, and how it may answer. -/
def protocol (δ : Dialect S A L D) : Protocol (Watched S L D) (Request S) (Answer A) ε where
  allowed _ _ := True
  next := Answered δ

/-- The session has failed in its transaction. -/
abbrev Aborted (w : Watched S L D) : Prop := w.local_.session.Aborted

/-- What a request leaves of a session that is open. -/
structure Leaves (w : Watched S L D) (q : Request S) (done : Bool) (w' : Watched S L D) : Prop where
  alive : w'.local_.session.alive = true
  autocommit : w'.local_.session.autocommit = w.local_.session.autocommit
  log : w'.log = w.log ++ [(q, done)]

variable {δ : Dialect S A L D} {w w' : Watched S L D}

theorem aborted_transaction (l : Local L D) (issued : D) :
    (l.transaction δ issued).aborted = true ↔ l.session.Aborted := by
  unfold Local.transaction Session.Aborted
  cases l.session.transaction with
  | none => simp
  | some t => simp

/-- How often the lock is held after a request that is done. -/
def locksAfter : Request S → ℕ → ℕ
  | .lock, n => n + 1
  | .unlock, n => n - 1
  | _, n => n

/-- Whether a request is refused in a transaction that has failed. -/
def NeedsTransaction : Request S → Prop
  | .commit | .rollback => False
  | _ => True

/-- A transaction that goes on has not failed. -/
theorem not_aborted_before {l : Local L D} {issued : D}
    (h : (l.transaction δ issued).aborted = false) : ¬l.session.Aborted := by
  intro haborted
  rw [← aborted_transaction (δ := δ) l issued, h] at haborted
  cases haborted

theorem not_aborted_after {l : Local L D} {t : Transaction L D} (halive : l.session.alive = true)
    (h : t.aborted = false) : ¬(l.session.within t).Aborted := by
  intro haborted
  have habort := ((Session.aborted_within halive t).1 haborted).2
  rw [h] at habort
  cases habort

/-- **A request that is done**: the session is not in a failed transaction, nor was it, unless the
request ends the transaction. -/
theorem Answered.done {q : Request S} {a : Answer A q} (h : Answered (ε := ε) δ w q (.ok a) w') :
    w.Leaves q true w' ∧ w'.local_.locks = locksAfter q w.local_.locks ∧ ¬w'.Aborted ∧
      (NeedsTransaction q → ¬w.Aborted) := by
  cases h with
  | succeed issued d h =>
    have halive : { w.local_ with data := d }.session.alive = true := Local.alive_of_perform h
    cases q with
    | statement s =>
      obtain ⟨-, habort, settings, change, -, rfl⟩ := Local.perform_statement.1 h
      exact ⟨⟨(Session.within_alive _ _).trans halive, Session.within_autocommit _ _, rfl⟩, rfl,
        not_aborted_after halive habort, fun _ => not_aborted_before habort⟩
    | lock =>
      obtain ⟨hgood, rfl⟩ := Local.perform_lock.1 h
      rw [Bool.and_eq_true, Bool.not_eq_true'] at hgood
      exact ⟨⟨(Session.within_alive _ _).trans halive, Session.within_autocommit _ _, rfl⟩, rfl,
        not_aborted_after halive hgood.2, fun _ => not_aborted_before hgood.2⟩
    | unlock =>
      obtain ⟨hgood, rfl⟩ := Local.perform_unlock.1 h
      rw [Bool.and_eq_true, Bool.not_eq_true'] at hgood
      exact ⟨⟨(Session.within_alive _ _).trans halive, Session.within_autocommit _ _, rfl⟩, rfl,
        not_aborted_after halive hgood.2, fun _ => not_aborted_before hgood.2⟩
    | commit =>
      obtain ⟨-, rfl⟩ := Local.perform_commit.1 h
      exact ⟨⟨halive, rfl, rfl⟩, rfl, Session.not_aborted_idle _, False.elim⟩
    | rollback =>
      obtain ⟨-, rfl⟩ := Local.perform_rollback.1 h
      exact ⟨⟨halive, rfl, rfl⟩, rfl, Session.not_aborted_idle _, False.elim⟩

/-- **A request that fails** fails its transaction, if it is within one; a commit ends it. -/
theorem Answered.failed {q : Request S} {e : ε} (halive : w.local_.session.alive = true)
    (h : Answered δ w q (.error e) w') :
    w.Leaves q false w' ∧ w'.local_.locks = w.local_.locks ∧ q ≠ .rollback ∧
      (w'.Aborted ↔ q ≠ .commit ∧ w.local_.session.autocommit = false) := by
  cases h with
  | fail issued d e hq =>
    have hwithin : ∀ t : Transaction L D, t.aborted = true →
        ((w.local_.session.within t).Aborted ↔ w.local_.session.autocommit = false) := by
      intro t ht
      rw [Session.aborted_within halive, ht]
      simp
    refine ⟨⟨?_, ?_, rfl⟩, Local.fail_locks _ _, hq, ?_⟩
    · exact (Local.fail_alive _ _).trans halive
    · cases q with
      | statement s | lock | unlock =>
        simp only [Local.fail, halive, if_true]
        exact Session.within_autocommit _ _
      | commit | rollback => rfl
    · cases q with
      | statement s | lock | unlock =>
        simp only [Aborted, Local.fail, halive, if_true]
        rw [Local.abort, hwithin _ rfl]
        simp
      | commit => exact iff_of_false (Session.not_aborted_idle _) fun h => h.1 rfl
      | rollback => exact absurd rfl hq

end Watched

end Tokenweir
