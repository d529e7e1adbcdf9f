import Tokenweir.Store.Refinement

/-!
# Calls of the direct sink

What a call of `DirectSink.emit_batch` whose transaction is its own does to the table and to the
counters, whoever makes the call.

* `inflight`, `Ready`;
* `Advance.keeps`, a step inside the call; `Advance.settles`, its end.
-/

namespace Tokenweir.Store

open Emitter (Outcome)

/-- The records of a call that are committed and not counted yet. -/
def inflight : Option Call → List UsageRecord
  | some (.wrote rs) => rs
  | _ => []

/-- What the transaction holds at each place of a call. -/
def Ready (transaction : List Row) : Option Call → Prop
  | some (.committing rs) => ∃ now, transaction = rs.map (storedRow now)
  | some (.executing rs rows) => transaction = [] ∧ rowsFor rs = some rows
  | _ => transaction = []

/-- A step inside a call keeps its batch; it commits all of it, or nothing. -/
theorem Advance.keeps {sink : DirectSink} {db db' : Database} {c c' : Call} {a : Action}
    (hp : Advance sink db c a (.inside c' db')) (h : Ready db.transaction (some c)) :
    c'.batch = c.batch ∧ Ready db'.transaction (some c') ∧ ∃ ps : List (ℤ × UsageRecord),
      db'.table = db.table ++ rowsOf ps ∧
        inflight (some c') = inflight (some c) ++ ps.map Prod.snd := by
  cases hp with
  | passed rs hne hopen => exact ⟨rfl, h, [], by simp [rowsOf], rfl⟩
  | rejected rs autocommit => exact ⟨rfl, h, [], by simp [rowsOf], rfl⟩
  | mapped rs rows hrows => exact ⟨rfl, ⟨h, hrows⟩, [], by simp [rowsOf], rfl⟩
  | mappedNothing => exact ⟨rfl, h, [], by simp [rowsOf], rfl⟩
  | executed rs rows now sent =>
    obtain ⟨htr, hrows⟩ := h
    refine ⟨rfl, ⟨now, ?_⟩, [], by simp [rowsOf], rfl⟩
    show db.transaction ++ rows.map (insert now) = _
    rw [htr, (rowsFor_eq_some hrows now).2, List.nil_append]
  | executionFailed rs rows now sent =>
    exact ⟨rfl, rfl, [], by simp [rowsOf, Database.rollback], rfl⟩
  | committed rs done =>
    obtain ⟨now, htr⟩ := h
    refine ⟨rfl, rfl, rs.map (now, ·), ?_, ?_⟩
    · show db.table ++ db.transaction = _
      rw [htr, rowsOf, List.map_map]
      rfl
    · simp [inflight, Function.comp_def]
  | commitFailed rs done => exact ⟨rfl, rfl, [], by simp [rowsOf, Database.rollback], rfl⟩

/-- **The end of a call**: its batch is stored, or it is not and a drop is counted for each
record. -/
theorem Advance.settles {sink sink' : DirectSink} {db db' : Database} {c : Call} {a : Action}
    {o : Outcome} (hp : Advance sink db c a (.ended o sink' db'))
    (h : Ready db.transaction (some c)) (hfatal : a.isFatal = false) :
    o = .returned ∧ db' = db ∧ db.transaction = [] ∧
      (inflight (some c) = c.batch ∧ sink'.dropped = sink.dropped ∨
        inflight (some c) = [] ∧ sink'.dropped = sink.dropped + c.batch.length) := by
  cases hp with
  | nothing => exact ⟨rfl, rfl, h, .inr ⟨rfl, rfl⟩⟩
  | refused rs => exact ⟨rfl, rfl, h, .inr ⟨rfl, rfl⟩⟩
  | counted rs => exact ⟨rfl, rfl, h, .inl ⟨rfl, rfl⟩⟩
  | lost rs => exact ⟨rfl, rfl, h, .inr ⟨rfl, rfl⟩⟩
  | executionCut => cases hfatal
  | commitCut => cases hfatal
  | interrupted => cases hfatal

end Tokenweir.Store
