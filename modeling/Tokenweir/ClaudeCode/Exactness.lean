import Mathlib.Tactic
import Tokenweir.ClaudeCode.Settled

/-!
# Sequential sessions

One run at a time, each cut short at any moment: the baseline never runs ahead of what was
stored, and what was stored is the baseline but for the records of runs that were cut short
between the store and the write.

* `Sequential`, and `Alone`, what it preserves; `undisturbed_of_sequential`;
* `exactness`.
-/

namespace Tokenweir.ClaudeCode

/-! ### One run at a time -/

/-- A run starts when every earlier one has returned or been killed. -/
def Sequential (w : World) : Action → Prop
  | .start _ => ∀ p ∈ w.runs, p.live = false
  | _ => True

instance (w : World) : ∀ a, Decidable (Sequential w a)
  | .start _ => inferInstanceAs (Decidable (∀ p ∈ w.runs, p.live = false))
  | .grow _ | .scan _ _ | .readBaseline _ | .connect _ _ _ _ | .emit _ | .client _ _
  | .sinkReturns _ _ | .readStats _ | .decide _ | .write _ _ _ _ | .kill _ => .isTrue trivial

/-- One live run at most; what it has read of the baseline is still on disk, and its scan covers
it unless it ended early. -/
structure Alone (w : World) : Prop where
  one : ∀ (i j : ℕ) (p q : Run), w.runs[i]? = some p → w.runs[j]? = some q → p.live = true →
    q.live = true → i = j
  covers : ∀ (i : ℕ) env scan, w.runs[i]? = some (.scanned env scan) → scan.readable = true →
    readBaseline w.baseline ≤ scan.totals
  current : ∀ (i : ℕ) env scan b delta, w.runs[i]? = some (.reporting env scan b delta) →
    readBaseline w.baseline = b

/-- A sequential session is undisturbed. -/
theorem Alone.undisturbed {w : World} (h : Alone w) (a : Action) : Undisturbed w a := by
  cases a with
  | readBaseline i => exact fun env scan hp => h.covers i env scan hp
  | connect i cfg degraded droppedBefore =>
    intro env scan b delta hp
    refine ⟨h.current i env scan b delta hp, fun q hq => ?_⟩
    by_contra hem
    have hem : q.emitting = true := by simpa using hem
    obtain ⟨j, hj⟩ := List.mem_iff_getElem?.1 hq
    obtain rfl := h.one i j _ q hp hj rfl (live_of_emitting hem)
    obtain rfl := Option.some.inj (hp.symm.trans hj)
    cases hem
  | _ => trivial

/-- One run moves. -/
theorem Alone.update {w : World} {i : ℕ} {p p' : Run} (h : Alone w) (hp : w.runs[i]? = some p)
    (hlive : p'.live = true → p.live = true)
    (hcov : ∀ env scan, p' = .scanned env scan → scan.readable = true →
      readBaseline w.baseline ≤ scan.totals)
    (hcur : ∀ env scan b delta, p' = .reporting env scan b delta → readBaseline w.baseline = b) :
    Alone (w.set i p') := by
  have hlt : i < w.runs.length := (List.getElem?_eq_some_iff.1 hp).1
  have hcases : ∀ j q, (w.set i p').runs[j]? = some q → j = i ∧ q = p' ∨ w.runs[j]? = some q :=
    fun j q hq => by
      by_cases hj : j = i
      · subst hj
        left
        rw [World.set, List.getElem?_set_self hlt] at hq
        exact ⟨rfl, (Option.some.inj hq).symm⟩
      · right
        rwa [World.set, List.getElem?_set_ne (Ne.symm hj)] at hq
  refine ⟨fun j k q r hq hr hql hrl => ?_, fun j env scan hq => ?_, fun j env scan b delta hq => ?_⟩
  · rcases hcases j q hq with ⟨hj, rfl⟩ | hq' <;> rcases hcases k r hr with ⟨hk, rfl⟩ | hr'
    · exact hj.trans hk.symm
    · exact hj.trans (h.one i k p r hp hr' (hlive hql) hrl)
    · exact (h.one j i q p hq' hp hql (hlive hrl)).trans hk.symm
    · exact h.one j k q r hq' hr' hql hrl
  · rcases hcases j _ hq with ⟨-, he⟩ | hq
    · exact hcov env scan he.symm
    · exact h.covers j env scan hq
  · rcases hcases j _ hq with ⟨-, he⟩ | hq
    · exact hcur env scan b delta he.symm
    · exact h.current j env scan b delta hq

theorem live_setDelivery {p : Run} {d : Delivery} (d' : Delivery) (hd : p.delivery = some d) :
    (p.setDelivery d').live = p.live ∧ (∀ env scan, p.setDelivery d' ≠ .scanned env scan) ∧
      ∀ env scan b delta, p.setDelivery d' ≠ .reporting env scan b delta := by
  cases p with
  | started | scanned | reporting | killed => cases hd
  | _ => simp [Run.setDelivery, Run.live]

/-- A run that moves. -/
theorem Alone.move {evs e : List Event} {w : World} {a : Action} {i : ℕ} {p p' : Run}
    (h : Alone w) (hco : Coherent evs w) (hp : w.runs[i]? = some p) (hmove : Move w i a p p' e) :
    Alone (w.set i p') := by
  cases hmove with
  | scan env r =>
    refine h.update hp (fun _ => rfl) (fun env' scan he hr => ?_) (fun _ _ _ _ he => by cases he)
    cases he
    rw [scanTranscript_totals_eq hr]
    exact hco.le
  | readBaseline env scan =>
    refine h.update hp (fun _ => rfl) (fun env' scan' he => ?_) (fun env' scan' b delta he => ?_)
    · unfold afterRead at he
      split at he <;> cases he
    · unfold afterRead at he
      split at he <;> cases he
      rfl
  | client p d d' a hd ha hstep =>
    obtain ⟨hl, hns, hnr⟩ := live_setDelivery d' hd
    exact h.update hp (fun hl' => hl ▸ hl') (fun env scan he => absurd he (hns env scan))
      (fun env scan b delta he => absurd he (hnr env scan b delta))
  | sinkReturns p d d' o rs hd hstep =>
    obtain ⟨hl, hns, hnr⟩ := live_setDelivery d' hd
    exact h.update hp (fun hl' => hl ▸ hl') (fun env scan he => absurd he (hns env scan))
      (fun env scan b delta he => absurd he (hnr env scan b delta))
  | connect | emit | readStats | kept | notKept | writeFails =>
    exact h.update hp (fun _ => rfl) (fun _ _ he => by cases he) (fun _ _ _ _ he => by cases he)
  | kill =>
    exact h.update hp (fun hl => by cases hl) (fun _ _ he => by cases he)
      (fun _ _ _ _ he => by cases he)

/-- **Sequential steps keep it.** -/
theorem Alone.step {evs e : List Event} {w w' : World} {a : Action} (h : Alone w)
    (hco : Coherent evs w) (hseq : Sequential w a) (hstep : step w a = some (w', e)) :
    Alone w' := by
  cases step_cases hstep with
  | grow ls => exact ⟨h.one, h.covers, h.current⟩
  | start env =>
    refine ⟨fun i j p q hp hq hpl hql => ?_, fun i env' scan hp => ?_,
      fun i env' scan b delta hp => ?_⟩
    · rcases getElem?_snoc hp with hp | ⟨rfl, -⟩
      · rw [hseq p (List.mem_of_getElem? hp)] at hpl
        cases hpl
      · rcases getElem?_snoc hq with hq | ⟨rfl, -⟩
        · rw [hseq q (List.mem_of_getElem? hq)] at hql
          cases hql
        · rfl
    · rcases getElem?_snoc hp with hp | ⟨-, hp⟩
      · exact h.covers i env' scan hp
      · cases hp
    · rcases getElem?_snoc hp with hp | ⟨-, hp⟩
      · exact h.current i env' scan b delta hp
      · cases hp
  | move i a p p' e hp hmove => exact h.move hco hp hmove
  | wrote i t d transcriptPath updatedAt hp =>
    have hset : Alone (w.set i (.returned d)) := h.update hp (fun hl => by cases hl)
      (fun _ _ he => by cases he) (fun _ _ _ _ he => by cases he)
    -- no other run is live, so none holds what it has read
    have hnone : ∀ (j : ℕ) (q : Run), (w.set i (.returned d)).runs[j]? = some q →
        q.live = false := fun j q hq => by
      by_contra hl
      have hl : q.live = true := by simpa using hl
      by_cases hj : j = i
      · subst hj
        rw [World.set, List.getElem?_set_self (List.getElem?_eq_some_iff.1 hp).1] at hq
        obtain rfl := Option.some.inj hq
        cases hl
      · rw [World.set, List.getElem?_set_ne (Ne.symm hj)] at hq
        exact hj (h.one j i q _ hq hp hl rfl)
    refine ⟨hset.one, fun j env scan hq => ?_, fun j env scan b delta hq => ?_⟩
    · cases hnone j _ hq
    · cases hnone j _ hq

theorem alone_init : Alone {} :=
  ⟨fun i j p q hp => by simp at hp, fun i env scan hp => by simp at hp,
    fun i env scan b delta hp => by simp at hp⟩

/-- A sequential session is undisturbed. -/
theorem undisturbed_of_sequential {as : List Action} (h : hook.Along Sequential {} as) :
    hook.Along Undisturbed {} as :=
  have hinit : Coherent [] {} ∧ Alone {} := ⟨coherent_init, alone_init⟩
  Machine.Along.of_invariant (I := fun es t => Coherent es t ∧ Alone t) hinit
    (fun _ _ a _ _ hI hP hstep =>
      ⟨(hI.1.step (hI.2.undisturbed a) hstep).1, hI.2.step hI.1 hP hstep⟩)
    (fun _ _ a hI _ => hI.2.undisturbed a) h

/-! ### The session -/

/-- **Exactness and no loss.** In every sequential session, at every moment: the baseline is the
sum of the counts of the records whose runs wrote it, so it is at most what was stored; it never
decreases and never exceeds the transcript; and a run stores one record at most. A run that read
the whole file and wrote the baseline, or found nothing to report, left nothing behind. When no
run is killed, no `close` times out and no write fails, what was stored never exceeds the
transcript either; between two runs it is the baseline exactly, and a run that read the whole
file has left nothing behind unless it stored nothing. -/
theorem exactness {as : List Action} {w : World} {evs : List Event}
    (hseq : hook.Along Sequential {} as) (hrun : hook.run {} as = some (w, evs)) :
    readBaseline w.baseline ≤ countsOf (storedOf evs) ∧
      readBaseline w.baseline = reported evs ∧
      readBaseline w.baseline ≤ totals w.file ∧
      (∀ bs cs u es, as = bs ++ cs → hook.run {} bs = some (u, es) →
        readBaseline u.baseline ≤ readBaseline w.baseline) ∧
      (∀ i, (storedBy i evs).length ≤ 1) ∧
      (∀ i f, .scanned i f ∈ evs → i ∈ writers evs ∨ w.runs[i]? = some (.returned none) →
        totals f ≤ readBaseline w.baseline) ∧
      (hook.Along Prompt {} as →
        countsOf (storedOf evs) ≤ totals w.file ∧
          ((∀ p ∈ w.runs, p.live = false) →
            countsOf (storedOf evs) = readBaseline w.baseline) ∧
          ∀ i f d, .scanned i f ∈ evs → w.runs[i]? = some (.returned d) → storedBy i evs ≠ [] →
            totals f ≤ readBaseline w.baseline) := by
  have hund := undisturbed_of_sequential hseq
  obtain ⟨hco, -⟩ := coherent_init.run hund hrun
  rw [List.nil_append] at hco
  have hleft : ∀ i f, Event.scanned i f ∈ evs →
      i ∈ writers evs ∨ w.runs[i]? = some (.returned none) →
      totals f ≤ readBaseline w.baseline := fun i f hf hret => by
    have hlt : i < w.runs.length := hco.bound _ hf
    obtain ⟨p, hp⟩ : ∃ p, w.runs[i]? = some p := ⟨_, List.getElem?_eq_getElem hlt⟩
    refine (hco.seen i f hf p hp).2.2 (hret.imp_right fun hret => ?_)
    exact Option.some.inj (hp.symm.trans hret)
  refine ⟨?_, hco.exact, hco.le, ?_, ?_, hleft, ?_⟩
  · rw [hco.exact]
    exact countsOf_filter_le _ _
  · rintro bs cs u es rfl hbs
    obtain ⟨v, es₁, es₂, h₁, h₂, rfl⟩ := Machine.run_append.1 hrun
    obtain ⟨rfl, rfl⟩ := Prod.mk.inj (Option.some.inj (h₁.symm.trans hbs))
    obtain ⟨hbefore, hafter⟩ := (Machine.along_append h₁).1 hund
    exact ((coherent_init.run hbefore h₁).1.run hafter h₂).2
  · intro i
    by_cases hlt : i < w.runs.length
    · exact (hco.ok i _ (List.getElem?_eq_getElem hlt)).length_le
    · have : storedBy i evs = [] := storedBy_eq_nil fun x hx he => hlt (he ▸ hco.bound x hx)
      rw [this]
      exact Nat.zero_le 1
  · intro hprompt
    have hset := settled_init.run coherent_init hund hprompt hrun
    rw [List.nil_append] at hset
    refine ⟨hset.stored_le hco, hset.stored_eq hco, fun i f d hf hp hne => ?_⟩
    cases d with
    | none => exact hleft i f hf (.inr hp)
    | some d =>
      have := hset i _ hp
      exact hleft i f hf (.inl (this.2.resolve_left hne))

/-- The delivery of the first turn fails, and its tokens are carried into the second. -/
theorem exactness_carried_turn :
    let as : List Action :=
      [.grow [usageLine 3], .start plainEnvironment, .scan 0 .whole, .readBaseline 0] ++
        emission 0 .raised ++
      [.grow [usageLine 4], .start plainEnvironment, .scan 1 .whole, .readBaseline 1] ++
        emission 1 .stored ++ [.write 1 [] [] true]
    ∃ w evs, hook.run {} as = some (w, evs) ∧
      countsOf (storedOf evs) = readBaseline w.baseline ∧
      totals [usageLine 3, usageLine 4] ≤ readBaseline w.baseline ∧
      readBaseline w.baseline .inputTokens = 7 := by
  intro as
  have hseq : hook.Along Sequential {} as := by decide +kernel
  obtain ⟨-, -, -, -, -, hleft, hprompt⟩ := exactness hseq rfl
  have hdone := (hprompt (by decide +kernel)).2.1 (by decide +kernel)
  exact ⟨_, _, rfl, hdone,
    hleft 1 [usageLine 3, usageLine 4] (.tail _ (.tail _ (.head _))) (.inl (.head _)),
    by decide +kernel⟩

end Tokenweir.ClaudeCode
