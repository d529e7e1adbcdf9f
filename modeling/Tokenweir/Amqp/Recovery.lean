import Mathlib.Tactic
import Tokenweir.Amqp.Policy

/-!
# Recovery

Once the broker is healthy again a sink drops records for at most one interval.

* `Healthy`, a run whose dials, and whose publishes on what it dials, succeed from some
  moment on;
* `Phase`, where such a run stands: it still holds what it held, has lost it, or has dialled;
* `recovery`, every record from one interval after the loss on is published.
-/

namespace Tokenweir.Amqp

open Tokenweir.Window

/-- No dial fails, and no publish but on the channel that `s` holds. -/
def Sound (s : Sink) (fs : List Event) : Prop :=
  (∀ r, .dialFailed r ∉ fs) ∧ ∀ c, .publishFailed c ∈ fs → s.channel = some c

/-- A run of a sink built by `from_url` to `s`, by the calls `is`, and on to `t`, by the calls
`js`, with the broker healthy from `t₀`, between the two, until after the call `i`. -/
structure Healthy (R t₀ : ℚ) (is js : List Input) (i : Emit) (s t : Sink) (es fs : List Event) :
    Prop where
  clocked : Clocked (is ++ js ++ [.emit i])
  before : ∀ r ∈ is.flatMap Input.readings, r ≤ t₀
  after : ∀ r ∈ (js ++ [Input.emit i]).flatMap Input.readings, t₀ ≤ r
  reached : sink.run (fromUrl R) is = some (s, es)
  goesOn : sink.run s js = some (t, fs)
  sound : Sound s (fs ++ (emit t i).2)

/-- The moment of the loss: `t₀` when no channel is held then, and otherwise the moment the held
channel fails a publish. -/
def LostAt (t₀ : ℚ) (s : Sink) (fs : List Event) (u : ℚ) : Prop :=
  s.channel = none ∧ u = t₀ ∨ ∃ c, s.channel = some c ∧ .discarded c u ∈ fs

/-- The record of the call is published, and counted. -/
def Published (t : Sink) (i : Emit) : Prop :=
  (∃ c, .published c ∈ (emit t i).2) ∧ (emit t i).1.published = t.published + 1

/-! ### Where a run stands -/

/-- Where a run from `s` stands at `t`, after the events `fs`. -/
inductive Phase (s : Sink) (fs : List Event) (t : Sink) : Prop
  /-- It holds what it held. -/
  | same (hch : t.channel = s.channel) (htimes : times fs = [])
  /-- It has lost the channel it held. -/
  | lost (c : ℕ) (u : ℚ) (hch : t.channel = none) (hs : s.channel = some c)
      (hfail : .publishFailed c ∈ fs) (htimes : times fs = [u])
  /-- It has dialled. -/
  | dialled (c : ℕ) (hch : t.channel = some c) (hnew : s.opened ≤ c)

/-- A run, its phase, and the connections opened. -/
structure Stands (s : Sink) (fs : List Event) (t : Sink) : Prop where
  canReconnect : t.canReconnect = true
  opened : s.opened ≤ t.opened
  phase : Sound s fs → Phase s fs t

theorem Sound.left {s : Sink} {fs gs : List Event} (h : Sound s (fs ++ gs)) : Sound s fs :=
  ⟨fun r hr => h.1 r (List.mem_append_left _ hr), fun c hc => h.2 c (List.mem_append_left _ hc)⟩

theorem Stands.move {s t v : Sink} {fs gs : List Event} {i : Input}
    (hheld : ∀ c, s.channel = some c → c < s.opened) (h : Stands s fs t) (hmove : Move t i gs v) :
    Stands s (fs ++ gs) v := by
  refine ⟨hmove.canReconnect.trans h.canReconnect, ?_, fun hsound => ?_⟩
  · have := h.opened
    cases hmove with
    | quiet | published | lost => exact this
    | opened => exact this.trans (Nat.le_succ _)
    | dialFailed i ends dials n es hch hb hd hes =>
      rcases hes with ⟨-, rfl⟩ | ⟨-, rfl⟩
      · exact this
      · exact this.trans (Nat.le_succ _)
  · have hphase := h.phase hsound.left
    cases hmove with
    | quiet i gs dropped closed hgs =>
      have htimes : times (fs ++ gs) = times fs := by simp [times_quiet hgs]
      cases hphase with
      | same hch ht => exact .same hch (htimes.trans ht)
      | lost c u hch hs hfail ht =>
        exact .lost c u hch hs (List.mem_append_left _ hfail) (htimes.trans ht)
      | dialled c hch hnew => exact .dialled c hch hnew
    | opened i ends dials hch hb hd ho => exact .dialled t.opened rfl h.opened
    | dialFailed i ends dials n es hch hb hd hes =>
      exact absurd (List.mem_append_right fs (by simp)) (hsound.1 i.afterDial)
    | published i c hch hp =>
      have htimes : times (fs ++ [.published c]) = times fs := by simp [Event.time]
      cases hphase with
      | same hch ht => exact .same hch (htimes.trans ht)
      | lost c u hch hs hfail ht =>
        exact .lost c u hch hs (List.mem_append_left _ hfail) (htimes.trans ht)
      | dialled c hch hnew => exact .dialled c hch hnew
    | lost i c gs hch hp hgs =>
      have hs : s.channel = some c := hsound.2 c (List.mem_append_right fs List.mem_cons_self)
      cases hphase with
      | same hch' ht =>
        refine .lost c i.afterPublish rfl hs (List.mem_append_right fs (by simp)) ?_
        simp [ht, Event.time, times_quiet hgs]
      | lost c' u hch' => simp [hch'] at hch
      | dialled c' hch' hnew =>
        obtain rfl : c' = c := Option.some.inj (hch'.symm.trans hch)
        exact absurd (hheld c' hs) (not_lt_of_ge hnew)

/-- **Every run stands in a phase**, while dials and new channels work. -/
theorem stands_of_run {s t : Sink} (hr : s.canReconnect = true)
    (hheld : ∀ c, s.channel = some c → c < s.opened) {js : List Input} (hclock : Clocked js)
    {fs : List Event} (h : sink.run s js = some (t, fs)) : Stands s fs t :=
  move_induction (I := Stands s) (fun _ _ hI => hI.canReconnect)
    ⟨hr, le_rfl, fun _ => .same rfl rfl⟩ (fun _ _ _ _ _ hI _ hm => hI.move hheld hm) hclock h

/-! ### The emit after the loss -/

/-- A publish on a held channel that does not fail. -/
theorem published_of_held {t : Sink} {i : Emit} {c : ℕ} (hr : t.canReconnect = true)
    (hm : i.mapped = true) (hc : t.closed = false) (hch : t.channel = some c)
    (hno : .publishFailed c ∉ (emit t i).2) : Published t i := by
  have hemit : emit t i = publish t i c := by simp [emit, liveChannel, hm, hc, hch]
  rw [Published, hemit]
  rw [hemit] at hno
  cases hp : i.publishes with
  | true => rw [publish_of_succeeds hp]; exact ⟨⟨c, List.mem_cons_self⟩, rfl⟩
  | false =>
    rw [publish_of_fails hr hp] at hno
    exact absurd List.mem_cons_self hno

/-- A dial that does not fail, and a publish on its channel that does not either. -/
theorem published_of_dialed {t : Sink} {i : Emit} (hr : t.canReconnect = true)
    (hm : i.mapped = true) (hc : t.closed = false) (hch : t.channel = none)
    (hb : t.nextReconnectAt ≤ i.start) (hroom : (mayDial t i.window).isSome)
    (hdial : ∀ r, .dialFailed r ∉ (emit t i).2) (hno : .publishFailed t.opened ∉ (emit t i).2) :
    Published t i := by
  rw [Published]
  have hcall := step_cases t (.emit i)
  rw [step] at hcall
  generalize (emit t i).1 = v, (emit t i).2 = es at hcall hdial hno ⊢
  cases hcall with
  | unmapped i hm' => simp [hm'] at hm
  | refusedClosed i hm' hc' => simp [hc'] at hc
  | held i c hm' hc' hch' => simp [hch'] at hch
  | noChannel i hm' hc' hch' hr' => simp [hr'] at hr
  | backoff i hm' hc' hch' hr' hb' => exact absurd hb (not_le_of_gt hb')
  | capped i hm' hc' hch' hr' hb' hd => simp [hd] at hroom
  | dialFails i s' hm' hc' hch' hr' hb' hd ho =>
    exact absurd (List.mem_append_right _ List.mem_cons_self) (hdial i.afterDial)
  | redialed i s' hm' hc' hch' hr' hb' hd ho =>
    obtain ⟨ends, dials, rfl⟩ := mayDial_frame hd
    cases hp : i.publishes with
    | true =>
      rw [publish_of_succeeds hp]
      exact ⟨⟨t.opened, List.mem_append_right _ List.mem_cons_self⟩, rfl⟩
    | false =>
      rw [publish_of_fails (by exact hr) hp] at hno
      exact absurd (List.mem_append_right _ List.mem_cons_self) hno

/-- When every event of a history lies at `u` or before, the gates are open one interval later. -/
theorem gates_open {R u : ℚ} (hR : 0 ≤ R) {is : List Input} (hclock : Clocked is)
    {es : List Event} {t : Sink} (h : sink.run (fromUrl R) is = some (t, es))
    (hpast : ∀ r ∈ times es, r ≤ u) {i : Emit} (hi : i.start ≤ i.window) (hnow : 0 ≤ i.start)
    (hlate : u + R ≤ i.start) :
    t.nextReconnectAt ≤ i.start ∧ (mayDial t i.window).isSome := by
  have hinv := explained_of_run hR hclock h
  constructor
  · have hback := hinv.backoff
    cases hcauses : causes es.reverse with
    | nil => rw [hcauses] at hback; rwa [hback]
    | cons p ps =>
      rw [hcauses] at hback
      have hmem : p.1 ∈ times es := by
        have := (causes_times es.reverse).subset (a := p.1) (by simp [hcauses])
        rwa [List.reverse_reverse] at this
      rw [hback.1]
      exact (add_le_add_left (hpast _ hmem) R).trans hlate
  · rw [mayDial_isSome_of_run hR hclock h]
    right
    rw [dialsInCurrentWindow]
    cases hw : windows R (dialTimes es) with
    | nil => exact Nat.zero_lt_succ 2
    | cons w ws =>
      have hmem : w.anchor ∈ dialTimes es := by
        have := anchor_mem_instants (hw ▸ List.mem_cons_self : w ∈ windows R (dialTimes es))
        rwa [instants_windows] at this
      have hle := hpast _ ((dialTimes_sublist es).subset hmem)
      have : w.anchor + R ≤ i.window := (add_le_add_left hle R).trans (hlate.trans hi)
      simp [this, maxDialsPerInterval]

/-- **A sink recovers within an interval.** From every reachable state of a sink built by
`from_url`, once every dial, and every publish on what is dialled, succeeds: a valid record
emitted one interval or more after the held channel was lost, or after `t₀` when none was held,
is published and counted, at any clock that is not negative; and while the held channel does not
fail every valid record is. -/
theorem recovery {R t₀ : ℚ} (hR : 0 ≤ R) {is js : List Input} {i : Emit} {s t : Sink}
    {es fs : List Event} (h : Healthy R t₀ is js i s t es fs) (hm : i.mapped = true)
    (hc : t.closed = false) :
    (∀ u, LostAt t₀ s fs u → u + R ≤ i.start → 0 ≤ i.start → Published t i) ∧
    (∀ c, s.channel = some c → .publishFailed c ∉ fs ++ (emit t i).2 → Published t i) := by
  obtain ⟨hclock, hbefore, hafter, hreach, hon, hsound⟩ := h
  obtain ⟨hrun, hi, -⟩ := clocked_snoc.1 hclock
  have hjs : Clocked js := by
    rw [Clocked, List.flatMap_append] at hrun
    exact (List.pairwise_append.1 hrun).2.1
  have his : Clocked is := by
    rw [Clocked, List.flatMap_append] at hrun
    exact (List.pairwise_append.1 hrun).1
  have hinv := explained_of_run hR his hreach
  have hstands := stands_of_run hinv.canReconnect (fun c hc => hinv.fresh c (.inl hc)) hjs hon
  have hwhole : sink.run (fromUrl R) (is ++ js) = some (t, es ++ fs) :=
    Machine.run_append.2 ⟨s, es, fs, hreach, hon, rfl⟩
  have hr := hstands.canReconnect
  have hstart := (emit_readings_le hi).1
  have hdial : ∀ r, .dialFailed r ∉ (emit t i).2 := fun r hr' =>
    hsound.1 r (List.mem_append_right _ hr')
  have hpast : ∀ r ∈ times es, r ≤ t₀ := fun r hr' =>
    hbefore r ((run_times hreach).2.subset hr')
  -- what is dialled in this run publishes
  have hnew : ∀ c, t.channel = some c → s.opened ≤ c → Published t i := fun c hch hle => by
    refine published_of_held hr hm hc hch fun hfail => ?_
    have hheld := hsound.2 c (List.mem_append_right _ hfail)
    exact absurd (hinv.fresh c (.inl hheld)) (not_lt_of_ge hle)
  constructor
  · intro u hu hlate hnow
    -- with no channel held, the gates are open and the dial works
    have hredial : t.channel = none → (∀ r ∈ times (es ++ fs), r ≤ u) → Published t i :=
      fun hch hall => by
        obtain ⟨hb, hroom⟩ := gates_open hR hrun hwhole hall hstart hnow hlate
        refine published_of_dialed hr hm hc hch hb hroom hdial fun hfail => ?_
        have hheld := hsound.2 _ (List.mem_append_right _ hfail)
        exact absurd (hinv.fresh _ (.inl hheld)) (not_lt_of_ge hstands.opened)
    cases hstands.phase hsound.left with
    | same hch htimes =>
      rcases hu with ⟨hnone, rfl⟩ | ⟨c, -, hdisc⟩
      · refine hredial (hch.trans hnone) fun r hr' => hpast r ?_
        rwa [times_append, htimes, List.append_nil] at hr'
      · have hmem : u ∈ times fs := List.mem_filterMap.2 ⟨_, hdisc, rfl⟩
        rw [htimes] at hmem
        cases hmem
    | lost c u' hch hs hfail htimes =>
      rcases hu with ⟨hnone, -⟩ | ⟨c', -, hdisc⟩
      · simp [hnone] at hs
      · have hmem : u ∈ times fs := List.mem_filterMap.2 ⟨_, hdisc, rfl⟩
        obtain rfl : u = u' := by rwa [htimes, List.mem_singleton] at hmem
        have hsorted := hrun.sublist (run_times hwhole).2
        rw [times_append, htimes] at hsorted
        refine hredial hch fun r hr' => ?_
        rw [times_append, htimes, List.mem_append, List.mem_singleton] at hr'
        rcases hr' with hr' | rfl
        · exact (List.pairwise_append.1 hsorted).2.2 r hr' u (List.mem_singleton_self u)
        · exact le_rfl
    | dialled c hch hle => exact hnew c hch hle
  · intro c hs hno
    cases hstands.phase hsound.left with
    | same hch htimes =>
      exact published_of_held hr hm hc (hch.trans hs) fun hfail =>
        hno (List.mem_append_right _ hfail)
    | lost c' u hch hs' hfail htimes =>
      obtain rfl : c' = c := Option.some.inj (hs'.symm.trans hs)
      exact absurd (List.mem_append_left _ hfail) hno
    | dialled c' hch hle => exact hnew c' hch hle

/-- An `emit` at `7`, an interval after `2`, of a sink whose back-off was armed until `6`. -/
theorem recovery_after_barren_connections :
    ∃ s t es fs, Healthy 5 2 [emitAt 0 false, emitAt 1 false] [emitAt 3 true]
        ⟨true, 7, 7, .opened, 7, true, 7, false⟩ s t es fs ∧
      s.nextReconnectAt = 6 ∧ Published t ⟨true, 7, 7, .opened, 7, true, 7, false⟩ := by
  obtain ⟨s, es, hs, hnext, hch⟩ : ∃ s es, sink.run (fromUrl 5)
      [emitAt 0 false, emitAt 1 false] = some (s, es) ∧ s.nextReconnectAt = 6 ∧
        s.channel = none := ⟨_, _, rfl, by decide +kernel⟩
  obtain ⟨t, fs, ht, hopen, hevents⟩ : ∃ t fs, sink.run s [emitAt 3 true] = some (t, fs) ∧
      t.closed = false ∧ fs ++ (emit t ⟨true, 7, 7, .opened, 7, true, 7, false⟩).2 =
        [.warned .awaitingPublishable, .dialed 7, .opened 2, .published 2] := by
    obtain ⟨rfl, rfl⟩ := Prod.mk.inj (Option.some.inj hs)
    exact ⟨_, _, rfl, by decide +kernel⟩
  have healthy : Healthy 5 2 [emitAt 0 false, emitAt 1 false] [emitAt 3 true]
      ⟨true, 7, 7, .opened, 7, true, 7, false⟩ s t es fs := by
    refine ⟨?_, by decide +kernel, by decide +kernel, hs, ht, ?_⟩
    · unfold Clocked
      decide +kernel
    · rw [Sound, hevents]
      simp
  exact ⟨s, t, es, fs, healthy, hnext,
    (recovery (by norm_num) healthy rfl hopen).1 2 (.inl ⟨hch, rfl⟩) (by norm_num) (by norm_num)⟩

/-- On a clock that runs below zero a sink that has lost its channel waits for zero: nothing has
armed the back-off, and the deadline it starts with is `0`. -/
theorem recovery_negative_clock :
    ∃ s es, Healthy 5 (-90) [emitAt (-100) false] [] ⟨true, -50, -50, .opened, -50, true, -50, false⟩
        s s es [] ∧
      s.closed = false ∧ LostAt (-90) s [] (-90) ∧ (-90 : ℚ) + 5 ≤ -50 ∧
      ¬ Published s ⟨true, -50, -50, .opened, -50, true, -50, false⟩ := by
  obtain ⟨s, es, hs, hch, hopen, hevents⟩ : ∃ s es, sink.run (fromUrl 5) [emitAt (-100) false] =
      some (s, es) ∧ s.channel = none ∧ s.closed = false ∧
        (emit s ⟨true, -50, -50, .opened, -50, true, -50, false⟩).2 = [.warned .awaitingRedial] :=
    ⟨_, _, rfl, by decide +kernel⟩
  refine ⟨s, es, ⟨?_, by decide +kernel, by decide +kernel, hs, rfl, ?_⟩, hopen, .inl ⟨hch, rfl⟩,
    by norm_num, ?_⟩
  · unfold Clocked
    decide +kernel
  · rw [Sound, hevents]
    simp
  · rintro ⟨⟨c, hc⟩, -⟩
    rw [hevents] at hc
    simp at hc

end Tokenweir.Amqp
