import Mathlib.Tactic
import Tokenweir.ClaudeCode.Settled

/-!
# Overlapping hooks

There is no lock between `read_baseline` and `write_baseline`. Runs that overlap there report
the same tokens twice, and the last write may be the older one; runs that do not, store no
more than the transcript holds, however else they overlap.

* `overlap`, the condition under which nothing is counted twice;
* `overlap_counts_twice`, two runs that overlap.
-/

namespace Tokenweir.ClaudeCode

/-- Whether a step is undisturbed can be computed. -/
instance (w : World) : ∀ a, Decidable (Undisturbed w a)
  | .readBaseline i =>
    match h : w.runs[i]? with
    | some (.scanned env scan) =>
      decidable_of_iff
        (scan.readable = true → ∀ f : CountField, readBaseline w.baseline f ≤ scan.totals f)
        ⟨fun hcov env' scan' he => by
            cases h.symm.trans he
            exact hcov,
          fun hcov => hcov env scan h⟩
    | none | some (.started _) | some (.reporting _ _ _ _) | some (.connected _ _ _)
    | some (.closing _) | some (.counted _ _) | some (.writing _ _) | some (.returned _)
    | some .killed => .isTrue fun env scan he => by cases h.symm.trans he
  | .connect i cfg degraded droppedBefore =>
    match h : w.runs[i]? with
    | some (.reporting env scan baseline delta) =>
      decidable_of_iff
        (readBaseline w.baseline = baseline ∧ ∀ p ∈ w.runs, p.emitting = false)
        ⟨fun hcur env' scan' baseline' delta' he => by
            cases h.symm.trans he
            exact hcur,
          fun hcur => hcur env scan baseline delta h⟩
    | none | some (.started _) | some (.scanned _ _) | some (.connected _ _ _)
    | some (.closing _) | some (.counted _ _) | some (.writing _ _) | some (.returned _)
    | some .killed => .isTrue fun env scan baseline delta he => by cases h.symm.trans he
  | .grow _ | .start _ | .scan _ _ | .emit _ | .client _ _ | .sinkReturns _ _ | .readStats _
  | .decide _ | .write _ _ _ _ | .kill _ => .isTrue trivial

/-- **Runs that do not overlap in their emission.** When each run's scan covers the baseline it
reads, and it goes on to emit only while that baseline is still on disk and no other run is
between its emission and its write, then in every state reached what was stored does not exceed
the transcript's totals, and the baseline never moves backwards. No run is cut short; all other
steps interleave at will. -/
theorem overlap {as : List Action} {w : World} {evs : List Event}
    (hund : hook.Along Undisturbed {} as) (hprompt : hook.Along Prompt {} as)
    (hrun : hook.run {} as = some (w, evs)) :
    countsOf (storedOf evs) ≤ totals w.file ∧
      ∀ bs cs u es, as = bs ++ cs → hook.run {} bs = some (u, es) →
        readBaseline u.baseline ≤ readBaseline w.baseline := by
  obtain ⟨hco, -⟩ := coherent_init.run hund hrun
  have hset := settled_init.run coherent_init hund hprompt hrun
  refine ⟨hset.stored_le hco, ?_⟩
  rintro bs cs u es rfl hbs
  obtain ⟨v, es₁, es₂, h₁, h₂, rfl⟩ := Machine.run_append.1 hrun
  obtain ⟨rfl, rfl⟩ := Prod.mk.inj (Option.some.inj (h₁.symm.trans hbs))
  obtain ⟨hbefore, hafter⟩ := (Machine.along_append h₁).1 hund
  exact ((coherent_init.run hbefore h₁).1.run hafter h₂).2

/-- The second run scans while the first one emits, and reads the baseline after its write. -/
theorem overlap_scan_while_emitting :
    let as : List Action :=
      [.grow [usageLine 3], .start plainEnvironment, .start plainEnvironment, .scan 0 .whole,
        .readBaseline 0, .grow [usageLine 4], .scan 1 .whole] ++
      emission 0 .stored ++ [.write 0 [] [] true, .readBaseline 1] ++ emission 1 .stored ++
      [.write 1 [] [] true]
    ∃ w evs, hook.run {} as = some (w, evs) ∧
      countsOf (storedOf evs) ≤ totals w.file ∧ countsOf (storedOf evs) .inputTokens = 7 := by
  intro as
  have hund : hook.Along Undisturbed {} as := by decide +kernel
  have hprompt : hook.Along Prompt {} as := by decide +kernel
  exact ⟨_, _, rfl, (overlap hund hprompt rfl).1, by decide +kernel⟩

/-- Both runs read the baseline before either emits, on a transport that stores what it is given
and with no run cut short: ten tokens are stored of seven, and the first run, which scanned before
the transcript grew, moves the baseline back from seven to three. -/
theorem overlap_counts_twice :
    let before : List Action :=
      [.grow [usageLine 3], .start plainEnvironment, .scan 0 .whole, .readBaseline 0,
        .grow [usageLine 4], .start plainEnvironment, .scan 1 .whole, .readBaseline 1] ++
      emission 1 .stored ++ [.write 1 [] [] true]
    let after : List Action := emission 0 .stored ++ [.write 0 [] [] true]
    ∃ u es w evs, hook.Along Prompt {} (before ++ after) ∧ hook.run {} before = some (u, es) ∧
      hook.run {} (before ++ after) = some (w, evs) ∧
      totals w.file .inputTokens = 7 ∧ countsOf (storedOf evs) .inputTokens = 10 ∧
      readBaseline u.baseline .inputTokens = 7 ∧ readBaseline w.baseline .inputTokens = 3 ∧
      ¬ countsOf (storedOf evs) ≤ totals w.file ∧
      ¬ readBaseline u.baseline ≤ readBaseline w.baseline := by
  intro before after
  refine ⟨_, _, _, _, by decide +kernel, rfl, rfl, by decide +kernel, by decide +kernel,
    by decide +kernel, by decide +kernel, fun hle => ?_, fun hle => ?_⟩
  · exact absurd (hle .inputTokens) (by decide +kernel)
  · exact absurd (hle .inputTokens) (by decide +kernel)

end Tokenweir.ClaudeCode
