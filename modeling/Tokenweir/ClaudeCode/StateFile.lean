import Tokenweir.ClaudeCode.Hook
import Tokenweir.Lib.Disk
import Tokenweir.Lib.JsonDump

/-!
# The baseline file

`write_baseline` of `tokenweir.claude_code`, one operation on the disk after the other: any of
them can raise, and the process can be killed or lose power at any moment.

* `Job`, `document`, what is written, and `readFile`, what `read_baseline` makes of a file;
* `Place`, `Writing`, `writeBaseline`, the machine;
* `Atomic`, of the target; `Placed`, of the place;
* `write_baseline_atomic`.
-/

namespace Tokenweir.ClaudeCode

open JsonText

/-! ### The document -/

/-- What `write_baseline` is called with, and the time. -/
structure Job where
  transcript : Option Text
  updatedAt : Text
  totals : TokenTotals

/-- `int.__repr__` takes the counts. -/
def Printable (t : TokenTotals) : Prop := ∀ f, (digitsText (t f)).length ≤ 4300

instance (t : TokenTotals) : Decidable (Printable t) :=
  inferInstanceAs (Decidable (∀ f, (digitsText (t f)).length ≤ 4300))

/-- `json.dump(totals.as_dict())`. -/
def dumpTotals (t : TokenTotals) : Text :=
  dumpObject [(Text.of CountField.inputTokens.name, dumpInt (t .inputTokens)),
    (Text.of CountField.outputTokens.name, dumpInt (t .outputTokens)),
    (Text.of CountField.cacheCreationInputTokens.name, dumpInt (t .cacheCreationInputTokens)),
    (Text.of CountField.cacheReadInputTokens.name, dumpInt (t .cacheReadInputTokens))]

/-- `json.dump(payload)`. -/
def document (job : Job) : Text :=
  dumpObject [(Text.of "schema", dumpInt 1),
    (Text.of "transcript_path", (job.transcript.map dumpString).getD (Text.of "null")),
    (Text.of "cumulative", dumpTotals job.totals),
    (Text.of "updated_at", dumpString job.updatedAt)]

/-- `read_baseline`, of the text of the file: what is no JSON is an empty baseline. -/
def readFile (content : Option Text) : TokenTotals := readBaseline (content.bind loads)

/-- The counts, on the page. -/
theorem writes_dumpTotals {t : TokenTotals} (h : Printable t) : Writes (dumpTotals t) (asDict t) := by
  have hcount : ∀ f, Writes (dumpInt (t f)) (.int (t f)) := fun f => by
    refine writes_dumpInt ?_
    rw [Int.natAbs_natCast]
    exact h f
  have hkeys : ∀ f : CountField, PairFree (Text.of f.name) := fun f => by
    cases f <;> decide
  have hnodup : [Text.of CountField.inputTokens.name, Text.of CountField.outputTokens.name,
      Text.of CountField.cacheCreationInputTokens.name,
      Text.of CountField.cacheReadInputTokens.name].Nodup := by
    decide +kernel
  let dumped (f : CountField) : Dumped := ⟨Text.of f.name, .int (t f), _, hkeys f, hcount f⟩
  exact @writes_dumpObject_of_nodup [dumped .inputTokens, dumped .outputTokens,
    dumped .cacheCreationInputTokens, dumped .cacheReadInputTokens] (List.cons_ne_nil _ _) hnodup

/-- **What is written of totals** is read as these totals. -/
theorem readFile_document {job : Job} (h : Printable job.totals) :
    readFile (some (document job)) = job.totals := by
  have hpath : Writes ((job.transcript.map dumpString).getD (Text.of "null"))
      ((job.transcript.map fun p => Json.str (readBack p)).getD .null) := by
    cases job.transcript with
    | none =>
      refine .literal ?_
      simp [literals]
    | some p => exact .string (writesString_readBack p)
  have hkey : ∀ k ∈ ["schema", "transcript_path", "cumulative", "updated_at"],
      PairFree (Text.of k) := by
    decide
  have hnodup : [Text.of "schema", Text.of "transcript_path", Text.of "cumulative",
      Text.of "updated_at"].Nodup := by
    decide +kernel
  have hobject := @writes_dumpObject_of_nodup [
    ⟨Text.of "schema", .int 1, _, hkey _ (by decide), writes_dumpInt (by decide)⟩,
    ⟨Text.of "transcript_path", _, _, hkey _ (by decide), hpath⟩,
    ⟨Text.of "cumulative", _, _, hkey _ (by decide), writes_dumpTotals h⟩,
    ⟨Text.of "updated_at", _, _, hkey _ (by decide),
      .string (writesString_readBack job.updatedAt)⟩] (List.cons_ne_nil _ _) hnodup
  have hloads := loads_of_document
    ⟨⟨[], by decide⟩, _, ⟨[], by decide⟩, hobject, (List.append_nil _).symm⟩
  rw [readFile, Option.bind_some]
  exact (congrArg readBaseline hloads).trans (fromMapping_asDict job.totals)

/-! ### The steps -/

/-- The target, and the temporary file next to it. -/
inductive FileName
  | target
  | temp
  deriving DecidableEq

/-- The operation under way, with the file that is open. -/
inductive Place
  | mkdir
  | create
  /-- `json.dump` and `flush`; some of the document is not in the file yet. -/
  | writing (fd : ℕ) (left : Text)
  | flushed (fd : ℕ)
  | synced
  | closed
  /-- `os.unlink`, in the handler. -/
  | cleanup
  | returned (written : Bool)
  | crashed
  deriving DecidableEq

structure Writing where
  disk : Disk FileName CodePoint
  place : Place
  unlinkFailed : Bool

inductive WriteAction
  /-- The operation under way succeeds. -/
  | succeed
  /-- Some more of the document reaches the file. -/
  | write (n : ℕ)
  /-- The operation under way raises; of what is buffered, some more reaches the file. -/
  | fail (n : ℕ)
  | kill
  | powerLoss (kept : ℕ) (garbage : ℕ → Text)

/-- The disk before: the file of an earlier call, if any. -/
def diskBefore (before : Option Text) : Disk FileName CodePoint where
  files := before.toList.map fun content => ⟨content, true⟩
  settled name := if name = .target then before.map fun _ => 0 else none
  journal := []

def writingBefore (before : Option Text) : Writing := ⟨diskBefore before, .mkdir, false⟩

/-- A step of `write_baseline`. -/
def writeStep (job : Job) (w : Writing) (a : WriteAction) : Option Writing :=
  match w.place, a with
  | .crashed, _ => none
  | _, .powerLoss kept garbage =>
    some { w with disk := w.disk.powerLoss kept garbage, place := .crashed }
  | .returned _, _ => none
  | _, .kill => some { w with place := .crashed }
  | .mkdir, .succeed => some { w with place := .create }
  | .create, .succeed =>
    some { w with
      disk := w.disk.create .temp
      place := .writing w.disk.files.length (document job) }
  -- No file was made, so the handler has nothing to remove.
  | .mkdir, .fail _ | .create, .fail _ => some { w with place := .returned false }
  | .writing fd left, .write n =>
    some { w with disk := w.disk.append fd (left.take n), place := .writing fd (left.drop n) }
  | .writing fd left, .succeed =>
    if Printable job.totals then
      some { w with disk := w.disk.append fd left, place := .flushed fd }
    else none
  | .writing fd left, .fail n =>
    some { w with disk := w.disk.append fd (left.take n), place := .cleanup }
  | .flushed fd, .succeed => some { w with disk := w.disk.sync fd, place := .synced }
  | .synced, .succeed => some { w with place := .closed }
  | .closed, .succeed =>
    some { w with disk := w.disk.change (.rename .temp .target), place := .returned true }
  | .flushed _, .fail _ | .synced, .fail _ | .closed, .fail _ => some { w with place := .cleanup }
  | .cleanup, .succeed =>
    some { w with disk := w.disk.change (.unlink .temp), place := .returned false }
  | .cleanup, .fail _ => some { w with place := .returned false, unlinkFailed := true }
  | _, .write _ => none

/-- `write_baseline`, with the failures of its environment. -/
def writeBaseline (job : Job) : Machine Writing WriteAction Empty where
  step w a := (writeStep job w a).map fun w' => (w', [])

/-- `read_baseline`, now. -/
def Writing.read (w : Writing) : TokenTotals := readFile (w.disk.read .target)

/-! ### The invariant -/

section

variable {job : Job} {before : Option Text} {d : Disk FileName CodePoint}

/-- The number of the old file, and of the new one. -/
def oldFile (before : Option Text) : Option ℕ := before.map fun _ => 0
def newFile (before : Option Text) : ℕ := before.toList.length

/-- The old file is on the disk. -/
def OldKept (before : Option Text) (d : Disk FileName CodePoint) : Prop :=
  ∀ c, before = some c → d.files[0]? = some ⟨c, true⟩

/-- The new file is on the disk, with all of the document. -/
def Stored (job : Job) (before : Option Text) (d : Disk FileName CodePoint) : Prop :=
  Printable job.totals ∧ d.files[newFile before]? = some ⟨document job, true⟩

/-- The target is the old file, whatever is lost. -/
structure Unreplaced (before : Option Text) (d : Disk FileName CodePoint) : Prop where
  kept : OldKept before d
  target : ∀ o, d.Possible .target o → o = oldFile before

/-- The target is the old file, or the new one with all of the document, whatever is lost. -/
structure Atomic (job : Job) (before : Option Text) (d : Disk FileName CodePoint) : Prop where
  kept : OldKept before d
  target : ∀ o, d.Possible .target o →
    o = oldFile before ∨ o = some (newFile before) ∧ Stored job before d

theorem Unreplaced.atomic (h : Unreplaced before d) : Atomic job before d :=
  ⟨h.kept, fun o ho => .inl (h.target o ho)⟩

/-- The temporary file is the new one. -/
def Temporary (before : Option Text) (d : Disk FileName CodePoint)
    (f : File CodePoint) : Prop :=
  d.dir .temp = some (newFile before) ∧ d.files[newFile before]? = some f

/-- What holds at a place. -/
def Placed (job : Job) (before : Option Text) (d : Disk FileName CodePoint) (unlinkFailed : Bool) :
    Place → Prop
  | .mkdir | .create => d = diskBefore before
  | .writing fd left =>
    Unreplaced before d ∧ fd = newFile before ∧
      ∃ c, Temporary before d ⟨c, false⟩ ∧ c ++ left = document job
  | .flushed fd =>
    Unreplaced before d ∧ fd = newFile before ∧ Printable job.totals ∧
      Temporary before d ⟨document job, false⟩
  | .synced | .closed =>
    Unreplaced before d ∧ Printable job.totals ∧ Temporary before d ⟨document job, true⟩
  | .cleanup => Unreplaced before d
  | .returned true =>
    Atomic job before d ∧ d.dir .target = some (newFile before) ∧ Stored job before d
  | .returned false => Unreplaced before d ∧ (unlinkFailed = false → d.dir .temp = none)
  | .crashed => Atomic job before d

theorem newFile_ne_zero {c : Text} (h : before = some c) : newFile before ≠ 0 := by
  rw [newFile, h]
  exact one_ne_zero

theorem unreplaced_diskBefore (before : Option Text) : Unreplaced before (diskBefore before) where
  kept := by
    rintro c rfl
    rfl
  target := by
    rintro o ⟨kept, rfl⟩
    rw [diskBefore, List.take_nil]
    rfl

/-- Any place but the last ones is before the replacement. -/
theorem Placed.atomic {u : Bool} {place : Place} (h : Placed job before d u place) :
    Atomic job before d := by
  cases place with
  | mkdir | create =>
    obtain rfl : d = _ := h
    exact (unreplaced_diskBefore before).atomic
  | writing fd left | flushed fd | synced | closed => exact h.1.atomic
  | cleanup => exact Unreplaced.atomic h
  | returned written =>
    cases written with
    | true => exact h.1
    | false => exact h.1.atomic
  | crashed => exact h

/-! ### What the operations preserve -/

theorem OldKept.append (h : OldKept before d) (data : Text) :
    OldKept before (d.append (newFile before) data) := fun c hc => by
  rw [Disk.files_append_of_ne (newFile_ne_zero hc)]
  exact h c hc

theorem OldKept.sync (h : OldKept before d) : OldKept before (d.sync (newFile before)) := fun c hc => by
  rw [Disk.files_sync_of_ne (newFile_ne_zero hc)]
  exact h c hc

/-- Writing to the new file does not touch the target. -/
theorem Unreplaced.append (h : Unreplaced before d) (data : Text) :
    Unreplaced before (d.append (newFile before) data) :=
  ⟨h.kept.append data, h.target⟩

theorem Unreplaced.sync (h : Unreplaced before d) : Unreplaced before (d.sync (newFile before)) :=
  ⟨h.kept.sync, h.target⟩

theorem Temporary.append {c : Text} {b : Bool} (h : Temporary before d ⟨c, b⟩) (data : Text) :
    Temporary before (d.append (newFile before) data) ⟨c ++ data, false⟩ :=
  ⟨h.1, Disk.files_append_self h.2 data⟩

theorem Temporary.sync {c : Text} {b : Bool} (h : Temporary before d ⟨c, b⟩) :
    Temporary before (d.sync (newFile before)) ⟨c, true⟩ :=
  ⟨h.1, Disk.files_sync_self h.2⟩

theorem length_diskBefore (before : Option Text) :
    (diskBefore before).files.length = newFile before :=
  List.length_map _

/-- A new file has a name of its own. -/
theorem unreplaced_create (before : Option Text) :
    Unreplaced before ((diskBefore before).create .temp) where
  kept := fun c hc => by
    subst hc
    rfl
  target := fun o ho => by
    rcases Disk.possible_create.1 ho with ho | rfl
    · exact (unreplaced_diskBefore before).target o ho
    · exact (unreplaced_diskBefore before).target _ (Disk.possible_dir _ _)

theorem temporary_create (before : Option Text) :
    Temporary before ((diskBefore before).create .temp) ⟨[], false⟩ := by
  constructor
  · rw [Disk.dir_create, Function.update_self, length_diskBefore]
  · rw [Disk.files_create, ← length_diskBefore, List.getElem?_concat_length]

/-- The temporary file is removed, or it is not. -/
theorem Unreplaced.unlink (h : Unreplaced before d) :
    Unreplaced before (d.change (.unlink .temp)) where
  kept := h.kept
  target := fun o ho => by
    rcases Disk.possible_change.1 ho with ho | rfl
    · exact h.target o ho
    · exact h.target _ (Disk.possible_dir _ _)

theorem dir_rename (d : Disk FileName CodePoint) :
    (d.change (.rename .temp .target)).dir .target = d.dir .temp := by
  rw [Disk.dir_change]
  rfl

/-- **The replacement.** The new file is complete when it becomes the target. -/
theorem Unreplaced.replace (h : Unreplaced before d) (hprintable : Printable job.totals)
    (htemp : Temporary before d ⟨document job, true⟩) :
    Atomic job before (d.change (.rename .temp .target)) where
  kept := h.kept
  target := fun o ho => by
    rcases Disk.possible_change.1 ho with ho | rfl
    · exact .inl (h.target o ho)
    · exact .inr ⟨htemp.1, hprintable, htemp.2⟩

/-- A loss of power leaves the old file or all of the new one. -/
theorem Atomic.powerLoss (h : Atomic job before d) (kept : ℕ) (garbage : ℕ → Text) :
    Atomic job before (d.powerLoss kept garbage) where
  kept := fun c hc => Disk.files_powerLoss (h.kept c hc) rfl kept garbage
  target := fun o ho => by
    rcases h.target o (Disk.possible_powerLoss ho) with hold | ⟨hnew, hprintable, hstored⟩
    · exact .inl hold
    · exact .inr ⟨hnew, hprintable, Disk.files_powerLoss hstored rfl kept garbage⟩

/-- The old file is read as it was. -/
theorem OldKept.read (h : OldKept before d) (hdir : d.dir .target = oldFile before) :
    d.read .target = before := by
  cases hb : before with
  | none =>
    rw [hb] at hdir
    exact Disk.read_eq_none hdir
  | some c =>
    have hfile := h c hb
    rw [hb] at hdir
    exact Disk.read_of hdir hfile

theorem Unreplaced.read (h : Unreplaced before d) : d.read .target = before :=
  h.kept.read (h.target _ (Disk.possible_dir d _))

theorem Stored.read (h : Stored job before d) (hdir : d.dir .target = some (newFile before)) :
    readFile (d.read .target) = job.totals := by
  rw [Disk.read_of hdir h.2]
  exact readFile_document h.1

/-! ### One step, and a run -/

/-- The operation under way succeeds. -/
theorem placed_succeed {w w' : Writing} (h : Placed job before w.disk w.unlinkFailed w.place)
    (hstep : writeStep job w .succeed = some w') :
    Placed job before w'.disk w'.unlinkFailed w'.place := by
  rcases w with ⟨d, place, u⟩
  cases place with
  | mkdir =>
    cases hstep
    exact h
  | create =>
    cases hstep
    obtain rfl : d = diskBefore before := h
    exact ⟨unreplaced_create before, length_diskBefore before, [], temporary_create before, rfl⟩
  | writing fd left =>
    obtain ⟨hun, rfl, c, htemp, hdocument⟩ := h
    unfold writeStep at hstep
    dsimp only at hstep
    split_ifs at hstep with hprintable
    cases hstep
    refine ⟨hun.append left, rfl, hprintable, ?_⟩
    rw [← hdocument]
    exact htemp.append left
  | flushed fd =>
    obtain ⟨hun, rfl, hprintable, htemp⟩ := h
    cases hstep
    exact ⟨hun.sync, hprintable, htemp.sync⟩
  | synced =>
    cases hstep
    exact h
  | closed =>
    cases hstep
    obtain ⟨hun, hprintable, htemp⟩ := h
    exact ⟨hun.replace hprintable htemp, (dir_rename d).trans htemp.1, hprintable, htemp.2⟩
  | cleanup =>
    cases hstep
    refine ⟨Unreplaced.unlink h, fun _ => ?_⟩
    rw [Disk.dir_change]
    rfl
  | returned written | crashed => cases hstep

/-- The operation under way raises: the handler runs, or there is nothing to remove. -/
theorem placed_fail {w w' : Writing} {n : ℕ}
    (h : Placed job before w.disk w.unlinkFailed w.place)
    (hstep : writeStep job w (.fail n) = some w') :
    Placed job before w'.disk w'.unlinkFailed w'.place := by
  rcases w with ⟨d, place, u⟩
  cases place with
  | mkdir | create =>
    cases hstep
    obtain rfl : d = diskBefore before := h
    exact ⟨unreplaced_diskBefore before, fun _ => rfl⟩
  | writing fd left =>
    obtain ⟨hun, rfl, -⟩ := h
    cases hstep
    exact hun.append _
  | flushed fd | synced | closed =>
    cases hstep
    exact h.1
  | cleanup =>
    cases hstep
    refine ⟨h, fun hunlink => ?_⟩
    cases hunlink
  | returned written | crashed => cases hstep

/-- A part of the document is written. -/
theorem placed_write {w w' : Writing} {n : ℕ}
    (h : Placed job before w.disk w.unlinkFailed w.place)
    (hstep : writeStep job w (.write n) = some w') :
    Placed job before w'.disk w'.unlinkFailed w'.place := by
  rcases w with ⟨d, place, u⟩
  cases place with
  | writing fd left =>
    obtain ⟨hun, rfl, c, htemp, hdocument⟩ := h
    cases hstep
    refine ⟨hun.append _, rfl, c ++ left.take n, htemp.append _, ?_⟩
    rw [List.append_assoc, List.take_append_drop, hdocument]
  | mkdir | create | flushed fd | synced | closed | cleanup | returned written | crashed =>
    cases hstep

/-- A kill leaves the disk as it is. -/
theorem placed_kill {w w' : Writing} (h : Placed job before w.disk w.unlinkFailed w.place)
    (hstep : writeStep job w .kill = some w') :
    Placed job before w'.disk w'.unlinkFailed w'.place := by
  have hcrashed : w' = { w with place := .crashed } := by
    rcases w with ⟨d, place, u⟩
    cases place <;> cases hstep <;> rfl
  subst hcrashed
  exact h.atomic

theorem placed_powerLoss {w w' : Writing} {kept : ℕ} {garbage : ℕ → Text}
    (h : Placed job before w.disk w.unlinkFailed w.place)
    (hstep : writeStep job w (.powerLoss kept garbage) = some w') :
    Placed job before w'.disk w'.unlinkFailed w'.place := by
  have hcrashed : w' = { w with disk := w.disk.powerLoss kept garbage, place := .crashed } := by
    rcases w with ⟨d, place, u⟩
    cases place <;> cases hstep <;> rfl
  subst hcrashed
  exact h.atomic.powerLoss kept garbage

theorem placed_step {w w' : Writing} {a : WriteAction}
    (h : Placed job before w.disk w.unlinkFailed w.place) (hstep : writeStep job w a = some w') :
    Placed job before w'.disk w'.unlinkFailed w'.place := by
  cases a with
  | succeed => exact placed_succeed h hstep
  | write n => exact placed_write h hstep
  | fail n => exact placed_fail h hstep
  | kill => exact placed_kill h hstep
  | powerLoss kept garbage => exact placed_powerLoss h hstep

theorem placed_run {as : List WriteAction} {w : Writing} {es : List Empty}
    (h : (writeBaseline job).run (writingBefore before) as = some (w, es)) :
    Placed job before w.disk w.unlinkFailed w.place := by
  have hstart : Placed job before (writingBefore before).disk (writingBefore before).unlinkFailed
      (writingBefore before).place := rfl
  refine Machine.run_induction (M := writeBaseline job)
    (I := fun _ _ w => Placed job before w.disk w.unlinkFailed w.place) hstart ?_ h
  intro as es w a w' e hplaced hstep
  obtain ⟨v, hv, hpair⟩ := Option.map_eq_some_iff.1 hstep
  obtain ⟨rfl, -⟩ := Prod.mk.inj hpair
  exact placed_step hplaced hv

end

/-- When nothing fails, the baseline is written. -/
theorem write_baseline_returns {job : Job} (h : Printable job.totals) (before : Option Text) :
    ∃ w, (writeBaseline job).run (writingBefore before) (List.replicate 6 .succeed) =
      some (w, []) ∧ w.place = .returned true := by
  have hlength := length_diskBefore before
  let stored : Disk FileName CodePoint :=
    (((diskBefore before).create .temp).append (newFile before) (document job)).sync
      (newFile before)
  refine ⟨⟨stored.change (.rename .temp .target), .returned true, false⟩, ?_, rfl⟩
  simp [List.replicate, Machine.run, writeBaseline, writeStep, writingBefore, h, hlength, stored]

/-- **The baseline file is crash-atomic, and it is read back.** Whatever the operations do, and
whenever the process dies or loses power: the file is read as before, or as the new totals. -/
theorem write_baseline_atomic (job : Job) (before : Option Text) (as : List WriteAction)
    {w : Writing} {es : List Empty}
    (h : (writeBaseline job).run (writingBefore before) as = some (w, es)) :
    (w.read = readFile before ∨ w.read = job.totals) ∧
      (∀ old : Job, Printable old.totals → before = some (document old) →
        readFile before = old.totals) ∧
      (before = none → readFile before = 0) ∧
      (w.place = .returned true → w.read = job.totals) ∧
      (w.place = .returned false → w.disk.read .target = before ∧
        (w.unlinkFailed = false → w.disk.read .temp = none)) := by
  have hplaced := placed_run h
  refine ⟨?_, ?_, ?_, fun htrue => ?_, fun hfalse => ?_⟩
  · rcases hplaced.atomic.target _ (Disk.possible_dir _ _) with hold | ⟨hnew, hstored⟩
    · exact .inl (congrArg readFile (hplaced.atomic.kept.read hold))
    · exact .inr (hstored.read hnew)
  · rintro old hold rfl
    exact readFile_document hold
  · rintro rfl
    rfl
  · rw [htrue] at hplaced
    exact hplaced.2.2.read hplaced.2.1
  · rw [hfalse] at hplaced
    exact ⟨hplaced.1.read, fun hunlink => Disk.read_eq_none (hplaced.2 hunlink)⟩

/-- A job whose four counts are one number. -/
def jobOf (n : ℕ) : Job :=
  ⟨some (Text.of "/t.jsonl"), Text.of "2026-01-01T00:00:00+00:00", fun _ => n⟩

/-- The power is lost while the new totals are written. -/
theorem write_baseline_atomic_torn :
    ∃ w, (writeBaseline (jobOf 25)).run (writingBefore (some (document (jobOf 7))))
      [.succeed, .succeed, .write 20, .powerLoss 1 fun _ => Text.of "torn"] = some (w, []) ∧
      (w.read = (fun _ => 7) ∨ w.read = (fun _ => 25)) := by
  obtain ⟨w, hrun⟩ : ∃ w, (writeBaseline (jobOf 25)).run (writingBefore (some (document (jobOf 7))))
      [.succeed, .succeed, .write 20, .powerLoss 1 fun _ => Text.of "torn"] = some (w, []) :=
    ⟨_, rfl⟩
  refine ⟨w, hrun, ?_⟩
  have hatomic := write_baseline_atomic (jobOf 25) (some (document (jobOf 7)))
    [.succeed, .succeed, .write 20, .powerLoss 1 fun _ => Text.of "torn"] hrun
  have hold := hatomic.2.1 (jobOf 7) (by decide) rfl
  rw [hold] at hatomic
  exact hatomic.1

end Tokenweir.ClaudeCode
