import Mathlib.Tactic
import Tokenweir.Amqp.DialCap

/-!
# The reconnect policy, from the history

When a sink that holds no channel dials, said of everything that has happened to it. A
history is read backwards here, its latest event first.

* `streak`, the discards in a row that had published nothing;
* `causes`, the events that make the next dial wait, with what they are reported as, and
  `mem_causes_iff`;
* `inForce`, `dialsInCurrentWindow`, `refusal`, the specification;
* `Explained`, the fields in terms of the history, and `Explained.move`;
* `policy`, the code decides as the specification does.
-/

namespace Tokenweir.Amqp

open Tokenweir.Window

/-! ### The specification -/

/-- The number of discards, since the last discard of a connection that had published, of
connections that had not. -/
def streak : List Event → ℕ
  | [] => 0
  | .discarded c _ :: h => if .published c ∈ h then 0 else streak h + 1
  | _ :: h => streak h

/-- The events that make the next dial wait, the latest first: a failed dial, and a discard of
a connection that had published nothing, when the discard before was one too. -/
def causes : List Event → List (ℚ × Warning)
  | [] => []
  | .dialFailed t :: h => (t, .awaitingRedial) :: causes h
  | .discarded c t :: h =>
    if .published c ∉ h ∧ 0 < streak h then (t, .awaitingPublishable) :: causes h else causes h
  | _ :: h => causes h

/-- The causes whose interval is still running at `now`. -/
def inForce (R now : ℚ) (h : List Event) : List (ℚ × Warning) :=
  (causes h).filter fun p => now < p.1 + R

/-- The number of dials in the window that holds `now`. -/
def dialsInCurrentWindow (R : ℚ) (es : List Event) (now : ℚ) : ℕ :=
  match windows R (dialTimes es) with
  | [] => 0
  | w :: _ => if w.anchor + R ≤ now then 0 else w.members.length

/-- What a refused `emit` is attributed to: the most recent cause still in force, and the cap
when there is none. -/
def refusal (R now : ℚ) (h : List Event) : Warning :=
  match inForce R now h with
  | [] => .dialCeilingReached
  | p :: _ => p.2

/-! ### The causes of a history -/

@[simp] theorem streak_quiet {fs h : List Event} (hfs : ∀ e ∈ fs, e.Quiet) :
    streak (fs ++ h) = streak h := by
  induction fs with
  | nil => rfl
  | cons e fs ih =>
    have hrest := ih fun e' he' => hfs e' (List.mem_cons_of_mem _ he')
    have he := hfs e List.mem_cons_self
    cases e <;> first | exact hrest | exact he.elim

@[simp] theorem causes_quiet {fs h : List Event} (hfs : ∀ e ∈ fs, e.Quiet) :
    causes (fs ++ h) = causes h := by
  induction fs with
  | nil => rfl
  | cons e fs ih =>
    have hrest := ih fun e' he' => hfs e' (List.mem_cons_of_mem _ he')
    have he := hfs e List.mem_cons_self
    cases e <;> first | exact hrest | exact he.elim

/-- The causes are the failed dials and the discards that came at least second in a row. -/
theorem mem_causes_iff {h : List Event} {t : ℚ} {w : Warning} :
    (t, w) ∈ causes h ↔
      (w = .awaitingRedial ∧ .dialFailed t ∈ h) ∨
      (w = .awaitingPublishable ∧ ∃ post c pre, h = post ++ .discarded c t :: pre ∧
        .published c ∉ pre ∧ 1 < streak (.discarded c t :: pre)) := by
  induction h with
  | nil => simp [causes]
  | cons e h ih =>
    have hcons : (∃ post c pre, e :: h = post ++ .discarded c t :: pre ∧ .published c ∉ pre ∧
          1 < streak (.discarded c t :: pre)) ↔
        (∃ c, e = .discarded c t ∧ .published c ∉ h ∧ 0 < streak h) ∨
        ∃ post c pre, h = post ++ .discarded c t :: pre ∧ .published c ∉ pre ∧
          1 < streak (.discarded c t :: pre) := by
      constructor
      · rintro ⟨_ | ⟨e', post⟩, c, pre, hh, hc, hs⟩
        · obtain ⟨rfl, rfl⟩ := List.cons.inj hh
          simp only [streak, if_neg hc] at hs
          exact .inl ⟨c, rfl, hc, by omega⟩
        · obtain ⟨rfl, rfl⟩ := List.cons.inj hh
          exact .inr ⟨post, c, pre, rfl, hc, hs⟩
      · rintro (⟨c, rfl, hc, hs⟩ | ⟨post, c, pre, rfl, hc, hs⟩)
        · exact ⟨[], c, h, rfl, hc, by simp only [streak, if_neg hc]; omega⟩
        · exact ⟨e :: post, c, pre, rfl, hc, hs⟩
    rw [hcons]
    cases e with
    | dialFailed t' =>
      simp only [causes, List.mem_cons, Prod.mk.injEq, Event.dialFailed.injEq, reduceCtorEq,
        false_and, exists_false, false_or]
      rw [ih]
      constructor
      · rintro (⟨rfl, rfl⟩ | ⟨hw, ht⟩ | hw)
        · exact .inl ⟨rfl, .inl rfl⟩
        · exact .inl ⟨hw, .inr ht⟩
        · exact .inr hw
      · rintro (⟨rfl, rfl | ht⟩ | hw)
        · exact .inl ⟨rfl, rfl⟩
        · exact .inr (.inl ⟨rfl, ht⟩)
        · exact .inr (.inr hw)
    | discarded c t' =>
      simp only [causes, List.mem_cons, Event.discarded.injEq, reduceCtorEq, false_or]
      split_ifs with hcond
      · simp only [List.mem_cons, ih, Prod.mk.injEq]
        constructor
        · rintro (⟨rfl, rfl⟩ | hw | hw)
          · exact .inr ⟨rfl, .inl ⟨c, ⟨rfl, rfl⟩, hcond⟩⟩
          · exact .inl hw
          · exact .inr ⟨hw.1, .inr hw.2⟩
        · rintro (hw | ⟨hw, ⟨c', ⟨rfl, rfl⟩, -⟩ | hw'⟩)
          · exact .inr (.inl hw)
          · exact .inl ⟨rfl, hw⟩
          · exact .inr (.inr ⟨hw, hw'⟩)
      · rw [ih]
        constructor
        · rintro (hw | hw)
          · exact .inl hw
          · exact .inr ⟨hw.1, .inr hw.2⟩
        · rintro (hw | ⟨hw, ⟨c', ⟨rfl, rfl⟩, hcond'⟩ | hw'⟩)
          · exact .inl hw
          · exact absurd hcond' hcond
          · exact .inr ⟨hw, hw'⟩
    | dialed | opened | connClosed | published | publishFailed | warned =>
      simp [causes, ih]

/-- The causes happened in order. -/
theorem causes_times (h : List Event) :
    ((causes h).map Prod.fst).reverse.Sublist (times h.reverse) := by
  induction h with
  | nil => exact .slnil
  | cons e h ih =>
    rw [List.reverse_cons, times_append]
    have hskip := ih.trans (List.sublist_append_left (times h.reverse) (times [e]))
    cases e with
    | dialFailed t =>
      simp only [causes, List.map_cons, List.reverse_cons]
      exact ih.append (by simp [Event.time])
    | discarded c t =>
      simp only [causes]
      split_ifs
      · simp only [List.map_cons, List.reverse_cons]
        exact ih.append (by simp [Event.time])
      · exact hskip
    | dialed | opened | connClosed | published | publishFailed | warned => exact hskip

/-! ### The fields, from the history -/

/-- What each field of the back-off says of the history `h`, the latest event first. -/
structure Explained (R : ℚ) (h : List Event) (s : Sink) : Prop where
  interval : s.reconnectInterval = R
  canReconnect : s.canReconnect = true
  backoff : match causes h with
    | [] => s.nextReconnectAt = 0
    | p :: _ => s.nextReconnectAt = p.1 + R ∧ s.backoffMessage = p.2
  unproductive : s.consecutiveUnproductive = streak h
  productive : ∀ c, s.channel = some c → (s.connectionPublishes ≠ 0 ↔ .published c ∈ h)
  unproven : s.channel = none → s.connectionPublishes = 0
  fresh : ∀ c, (s.channel = some c ∨ .published c ∈ h) → c < s.opened

theorem explained_fromUrl {R : ℚ} (hR : 0 ≤ R) : Explained R [] (fromUrl R) where
  interval := max_eq_right hR
  canReconnect := rfl
  backoff := rfl
  unproductive := rfl
  productive c hc := by simp [fromUrl]
  unproven h := by cases h
  fresh c hc := by
    rcases hc with hc | hc
    · obtain rfl : c = 0 := (Option.some.inj hc).symm
      exact Nat.one_pos
    · cases hc

theorem not_quiet_published {fs : List Event} (h : ∀ e ∈ fs, e.Quiet) (c : ℕ) :
    Event.published c ∉ fs := fun hc => (h _ hc).elim

/-- **The invariant is kept by every move.** -/
theorem Explained.move {R : ℚ} {h fs : List Event} {s t : Sink} {i : Input}
    (hs : Explained R h s) (hmove : Move s i fs t) : Explained R (fs.reverse ++ h) t := by
  obtain ⟨hint, hcan, hback, hunp, hprod, hnone, hfresh⟩ := hs
  cases hmove with
  | quiet i fs dropped closed hfs =>
    have hrev : ∀ e ∈ fs.reverse, e.Quiet := fun e he => hfs e (List.mem_reverse.1 he)
    have hmem : ∀ c, Event.published c ∈ fs.reverse ++ h ↔ .published c ∈ h := fun c => by
      simp [not_quiet_published hfs c]
    refine ⟨hint, hcan, ?_, ?_, ?_, hnone, ?_⟩
    · rw [causes_quiet hrev]; exact hback
    · rw [streak_quiet hrev]; exact hunp
    · intro c hc; rw [hmem]; exact hprod c hc
    · intro c; rw [hmem]; exact hfresh c
  | opened i ends dials hch hb hd ho =>
    have hmem : ∀ c, Event.published c ∈ [.opened s.opened, .dialed i.window] ++ h ↔
        .published c ∈ h := fun c => by simp
    refine ⟨hint, hcan, hback, hunp, ?_, fun hc => (by cases hc), ?_⟩
    · -- the new connection has published nothing
      intro c hc
      obtain rfl : s.opened = c := Option.some.inj hc
      have hnew : Event.published s.opened ∉ h := fun hp => (hfresh _ (.inr hp)).ne rfl
      have hzero : s.connectionPublishes = 0 := hnone hch
      simp [hnew, hzero]
    · intro c hc
      rcases hc with hc | hc
      · obtain rfl : s.opened = c := Option.some.inj hc
        exact Nat.lt_succ_self _
      · exact (hfresh c (.inr ((hmem c).1 hc))).trans (Nat.lt_succ_self _)
  | dialFailed i ends dials n fs hch hb hd hfs =>
    have hn : s.opened ≤ n := by rcases hfs with ⟨-, rfl⟩ | ⟨-, rfl⟩ <;> omega
    refine ⟨hint, hcan, ?_, ?_, ?_, fun _ => hnone hch, ?_⟩
    · rcases hfs with ⟨rfl, -⟩ | ⟨rfl, -⟩ <;> exact ⟨by rw [← hint]; rfl, rfl⟩
    · rcases hfs with ⟨rfl, -⟩ | ⟨rfl, -⟩ <;> exact hunp
    · intro c hc
      rw [show ((s.inWindow ends dials).undialed i.afterDial n).channel = none from hch] at hc
      cases hc
    · rintro c (hc | hc)
      · rw [show ((s.inWindow ends dials).undialed i.afterDial n).channel = none from hch] at hc
        cases hc
      · refine (hfresh c (.inr ?_)).trans_le hn
        rcases hfs with ⟨rfl, -⟩ | ⟨rfl, -⟩ <;> simpa using hc
  | published i c hch hp =>
    refine ⟨hint, hcan, hback, hunp, ?_, ?_, ?_⟩
    · intro c' hc'
      obtain rfl : c = c' := Option.some.inj (hch.symm.trans hc')
      simp
    · intro hc
      rw [show s.counted.channel = some c from hch] at hc
      cases hc
    · rintro c' (hc | hc)
      · exact hfresh c' (.inl hc)
      · rcases List.mem_append.1 hc with hc | hc
        · obtain rfl : c' = c := by simpa using hc
          exact hfresh c' (.inl hch)
        · exact hfresh c' (.inr hc)
  | lost i c fs hch hp hfs =>
    have hrev : ∀ e ∈ fs.reverse, e.Quiet := fun e he => hfs e (List.mem_reverse.1 he)
    have hsplit : (.publishFailed c :: .discarded c i.afterPublish :: fs).reverse ++ h =
        fs.reverse ++ .discarded c i.afterPublish :: .publishFailed c :: h := by simp
    have hpub : s.connectionPublishes = 0 ↔ .published c ∉ h := by
      rw [← hprod c hch]; simp
    have harms : s.Arms ↔ .published c ∉ h ∧ 0 < streak h := by
      rw [Sink.Arms, hpub, hunp]
    rw [hsplit]
    refine ⟨hint, hcan, ?_, ?_, fun c' hc' => (by cases hc'), fun _ => rfl, ?_⟩
    · rw [causes_quiet hrev]
      simp only [causes, streak, List.mem_cons, reduceCtorEq, false_or, ← harms]
      split_ifs with ha
      · exact ⟨by simp [ha, hint], by simp [ha]⟩
      · simpa [ha] using hback
    · rw [streak_quiet hrev]
      simp only [streak, List.mem_cons, reduceCtorEq, false_or, Sink.lost_consecutiveUnproductive,
        hunp]
      by_cases hc : Event.published c ∈ h
      · rw [if_pos hc, if_neg fun hz => hpub.1 hz hc]
      · rw [if_neg hc, if_pos (hpub.2 hc)]
    · rintro c' (hc | hc)
      · cases hc
      · refine hfresh c' (.inr ?_)
        simpa [not_quiet_published hfs c'] using hc

/-! ### The decision -/

/-- The causes, the latest first, are in order. -/
theorem causes_sorted {h : List Event} (hsorted : (times h.reverse).Pairwise (· ≤ ·)) :
    (causes h).Pairwise fun p q => q.1 ≤ p.1 := by
  have := hsorted.sublist (causes_times h)
  rwa [List.pairwise_reverse, List.pairwise_map] at this

/-- No cause is in force when, and only when, the deadline has passed. -/
theorem Explained.inForce_eq_nil {R now : ℚ} {h : List Event} {s : Sink} (hs : Explained R h s)
    (hsorted : (times h.reverse).Pairwise (· ≤ ·)) (hnow : 0 ≤ now) :
    inForce R now h = [] ↔ s.nextReconnectAt ≤ now := by
  have hback := hs.backoff
  have hcauses := causes_sorted hsorted
  rw [inForce, List.filter_eq_nil_iff]
  cases hc : causes h with
  | nil =>
    rw [hc] at hback
    simp [hback, hnow]
  | cons p ps =>
    rw [hc] at hback hcauses
    rw [hback.1]
    constructor
    · intro hall
      simpa using hall p List.mem_cons_self
    · intro hle q hq
      have hqp : q.1 ≤ p.1 := by
        rcases List.mem_cons.1 hq with rfl | hq
        · exact le_rfl
        · exact (List.pairwise_cons.1 hcauses).1 q hq
      have : q.1 + R ≤ now := (add_le_add_left hqp R).trans hle
      simpa using this

/-- While the deadline runs, the message is the most recent cause's. -/
theorem Explained.refusal_of_lt {R now : ℚ} {h : List Event} {s : Sink} (hs : Explained R h s)
    (hnow : 0 ≤ now) (hlt : now < s.nextReconnectAt) : refusal R now h = s.backoffMessage := by
  have hback := hs.backoff
  rw [refusal, inForce]
  cases hc : causes h with
  | nil =>
    rw [hc] at hback
    rw [hback] at hlt
    exact absurd hnow (not_le_of_gt hlt)
  | cons p ps =>
    rw [hc] at hback
    rw [hback.1] at hlt
    rw [List.filter_cons_of_pos (by simpa using hlt), hback.2]

/-- The cap has room, in terms of the history. -/
theorem Capped.mayDial_isSome {R now : ℚ} {es : List Event} {s : Sink} (h : Capped R es s) :
    (mayDial s now).isSome ↔ R = 0 ∨ dialsInCurrentWindow R es now < maxDialsPerInterval := by
  have htracks := h.tracks
  rw [← Option.ne_none_iff_isSome, ne_eq, mayDial_eq_none, h.interval, dialsInCurrentWindow]
  cases hw : windows R (dialTimes es) with
  | nil =>
    rw [hw] at htracks
    simp [htracks.2, maxDialsPerInterval]
  | cons w ws =>
    rw [hw] at htracks
    rw [htracks.1, htracks.2]
    by_cases hle : w.anchor + R ≤ now
    · simp [hle, maxDialsPerInterval]
    · have := not_le.1 hle
      simp only [hle, if_false, this, true_and, not_and, not_le]
      tauto

/-- With an open sink that holds no channel, a valid record is dialled for when both gates are
open, and refused for the first that is not. -/
theorem emit_dials {s : Sink} {i : Emit} (hr : s.canReconnect = true) (hm : i.mapped = true)
    (hc : s.closed = false) (hch : s.channel = none) :
    ((∃ t, .dialed t ∈ (emit s i).2) ↔ s.nextReconnectAt ≤ i.start ∧ (mayDial s i.window).isSome) ∧
    ((¬ ∃ t, .dialed t ∈ (emit s i).2) → (emit s i).2 =
      [.warned (if i.start < s.nextReconnectAt then s.backoffMessage else .dialCeilingReached)]) := by
  have hcall := step_cases s (.emit i)
  rw [step] at hcall
  generalize (emit s i).1 = t, (emit s i).2 = es at hcall ⊢
  cases hcall with
  | unmapped i hm' => simp [hm'] at hm
  | refusedClosed i hm' hc' => simp [hc'] at hc
  | noChannel i hm' hc' hch' hr' => simp [hr'] at hr
  | held i c hm' hc' hch' => simp [hch'] at hch
  | backoff i hm' hc' hch' hr' hb => simp [hb, not_le_of_gt hb]
  | capped i hm' hc' hch' hr' hb hd => simp [hd, not_lt_of_ge hb]
  | dialFails i s' hm' hc' hch' hr' hb hd ho =>
    have hdial : ∃ t, .dialed t ∈ (.dialed i.window :: (connect s' i.dial).2 ++
        [.dialFailed i.afterDial, .warned .reconnectFailed] : List Event) := ⟨_, List.mem_cons_self⟩
    exact ⟨by simp [hd, hb], fun hno => absurd hdial hno⟩
  | redialed i s' hm' hc' hch' hr' hb hd ho =>
    have hdial : ∃ t, .dialed t ∈ (.dialed i.window :: (connect s' .opened).2 ++
        (publish (connect s' .opened).1 i s'.opened).2 : List Event) := ⟨_, List.mem_cons_self⟩
    exact ⟨by simp [hd, hb], fun hno => absurd hdial hno⟩

/-- An `emit` dials at most once, and only for a valid record on an open sink that holds no
channel. -/
theorem emit_dials_once {s : Sink} (i : Emit) (hr : s.canReconnect = true) :
    dialTimes (emit s i).2 = [] ∨
      dialTimes (emit s i).2 = [i.window] ∧ i.mapped = true ∧ s.closed = false ∧
        s.channel = none := by
  have hquiet : ∀ (u : Sink) (c : ℕ), u.canReconnect = true → u.channel = some c →
      dialTimes (publish u i c).2 = [] := fun u c hu hc => by
    have hmove := publish_move (i := i) hu hc
    generalize (publish u i c).1 = v, (publish u i c).2 = fs at hmove
    cases hmove with
    | quiet i fs dropped closed hfs => exact dialTimes_quiet hfs
    | opened i ends dials hch | dialFailed i ends dials n fs hch => simp [hc] at hch
    | published i c hch hp => rfl
    | lost i c fs hch hp hfs => simp [Event.dialTime, dialTimes_quiet hfs]
  have hcall := step_cases s (.emit i)
  rw [step] at hcall
  generalize (emit s i).1 = t, (emit s i).2 = es at hcall ⊢
  cases hcall with
  | unmapped | refusedClosed | noChannel | backoff | capped => exact .inl rfl
  | held i c hm hc hch => exact .inl (hquiet s c hr hch)
  | dialFails i s' hm hc hch hr' hb hd ho =>
    have hdial : dialTimes (connect s' i.dial).2 = [] := by cases i.dial <;> rfl
    exact .inr ⟨by simp [Event.dialTime, hdial], hm, hc, hch⟩
  | redialed i s' hm hc hch hr' hb hd ho =>
    obtain ⟨ends, dials, rfl⟩ := mayDial_frame hd
    have hpub := hquiet (s.inWindow ends dials).connected s.opened hr rfl
    have hdial : dialTimes (.dialed i.window :: (connect (s.inWindow ends dials) .opened).2) =
        [i.window] := rfl
    refine .inr ⟨?_, hm, hc, hch⟩
    rw [dialTimes_append, hdial]
    exact congrArg ([i.window] ++ ·) hpub

/-- The fields of a reachable sink, from its history. -/
theorem explained_of_run {R : ℚ} (hR : 0 ≤ R) {is : List Input} (hclock : Clocked is)
    {es : List Event} {s : Sink} (h : sink.run (fromUrl R) is = some (s, es)) :
    Explained R es.reverse s := by
  refine move_induction (I := fun es s => Explained R es.reverse s)
    (fun _ _ hI => hI.canReconnect) (explained_fromUrl hR) (fun es s i fs t hI _ hm => ?_) hclock h
  rw [List.reverse_append]
  exact hI.move hm

/-- The cap of a reachable sink, from its history. -/
theorem mayDial_isSome_of_run {R : ℚ} (hR : 0 ≤ R) {is : List Input} (hclock : Clocked is)
    {es : List Event} {s : Sink} (h : sink.run (fromUrl R) is = some (s, es)) (now : ℚ) :
    (mayDial s now).isSome ↔ R = 0 ∨ dialsInCurrentWindow R es now < maxDialsPerInterval := by
  rcases hR.eq_or_lt with rfl | hpos
  · have := (explained_of_run le_rfl hclock h).interval
    simp [mayDial, this]
  · exact (capped_of_run hpos hclock h).mayDial_isSome

/-- The causes before an event that is none. -/
theorem inForce_of_discard {R now : ℚ} {pre fs : List Event} {c : ℕ} {t : ℚ}
    (hfs : ∀ e ∈ fs, e.Quiet) (hfree : .published c ∈ pre ∨ streak pre.reverse = 0) :
    inForce R now (pre ++ .discarded c t :: fs).reverse = inForce R now pre.reverse := by
  have hrev : ∀ e ∈ fs.reverse, e.Quiet := fun e he => hfs e (List.mem_reverse.1 he)
  have hcond : ¬ (Event.published c ∉ pre.reverse ∧ 0 < streak pre.reverse) := by
    rw [List.mem_reverse]
    rintro ⟨hc, hs⟩
    exact hfree.elim hc hs.ne'
  have hsplit : (pre ++ .discarded c t :: fs).reverse =
      fs.reverse ++ .discarded c t :: pre.reverse := by simp
  rw [inForce, inForce, hsplit, causes_quiet hrev]
  simp only [causes, if_neg hcond]

/-- No cause is in force, cause by cause. -/
theorem inForce_reverse_eq_nil {R now : ℚ} {es : List Event} :
    inForce R now es.reverse = [] ↔
      (∀ t, .dialFailed t ∈ es → t + R ≤ now) ∧
      (∀ pre c t post, es = pre ++ .discarded c t :: post → .published c ∉ pre →
        1 < streak (.discarded c t :: pre.reverse) → t + R ≤ now) := by
  have hall : inForce R now es.reverse = [] ↔
      ∀ t w, (t, w) ∈ causes es.reverse → t + R ≤ now := by
    rw [inForce, List.filter_eq_nil_iff]
    simp [Prod.forall]
  rw [hall]
  constructor
  · intro h
    refine ⟨fun t ht => ?_, fun pre c t post hes hc hs => ?_⟩
    · exact h t _ (mem_causes_iff.2 (.inl ⟨rfl, List.mem_reverse.2 ht⟩))
    · refine h t _ (mem_causes_iff.2 (.inr ⟨rfl, post.reverse, c, pre.reverse, ?_, ?_, hs⟩))
      · simp [hes]
      · simpa using hc
  · rintro ⟨hfail, hbarren⟩ t w htw
    rcases mem_causes_iff.1 htw with ⟨-, ht⟩ | ⟨-, post, c, pre, hes, hc, hs⟩
    · exact hfail t (List.mem_reverse.1 ht)
    · refine hbarren pre.reverse c t post.reverse ?_ (by simpa using hc) (by simpa using hs)
      rw [← List.reverse_reverse es, hes]
      simp

/-- **The reconnect policy is its history specification.** Over every run of a sink built by
`from_url`, whatever the dials and the publishes did, a valid record emitted on an open sink
that holds no channel is dialled for if and only if the interval has passed since every failed
dial, and since every discard of a connection that had published nothing and was at least the
second such in a row, and the current window has room; a refusal is attributed to the most
recent of these causes still in force, and to the cap when there is none; and no `emit` dials
more than once, or when it need not. After a discard that is no cause, only the earlier causes
and the cap count. -/
theorem policy {R : ℚ} (hR : 0 ≤ R) {is : List Input} {i : Emit}
    (hclock : Clocked (is ++ [.emit i]))
    (hnonneg : ∀ t ∈ (is ++ [Input.emit i]).flatMap Input.readings, 0 ≤ t)
    {es : List Event} {s : Sink} (h : sink.run (fromUrl R) is = some (s, es)) :
    (i.mapped = true → s.closed = false → s.channel = none →
      ((∃ t, .dialed t ∈ (emit s i).2) ↔
        (∀ t, .dialFailed t ∈ es → t + R ≤ i.start) ∧
        (∀ pre c t post, es = pre ++ .discarded c t :: post → .published c ∉ pre →
          1 < streak (.discarded c t :: pre.reverse) → t + R ≤ i.start) ∧
        (R = 0 ∨ dialsInCurrentWindow R es i.window < maxDialsPerInterval)) ∧
      ((¬ ∃ t, .dialed t ∈ (emit s i).2) →
        (emit s i).2 = [.warned (refusal R i.start es.reverse)]) ∧
      (∀ pre c t fs, es = pre ++ .discarded c t :: fs → (∀ e ∈ fs, e.Quiet) →
        (.published c ∈ pre ∨ streak pre.reverse = 0) →
        ((∃ t, .dialed t ∈ (emit s i).2) ↔ inForce R i.start pre.reverse = [] ∧
          (R = 0 ∨ dialsInCurrentWindow R es i.window < maxDialsPerInterval)))) ∧
    (dialTimes (emit s i).2).length ≤ 1 ∧
    (i.mapped = false ∨ s.closed = true ∨ s.channel ≠ none → dialTimes (emit s i).2 = []) := by
  obtain ⟨hbefore, -, -⟩ := clocked_snoc.1 hclock
  have hinv := explained_of_run hR hbefore h
  have hsorted : (times es.reverse.reverse).Pairwise (· ≤ ·) := by
    rw [List.reverse_reverse]
    exact hbefore.sublist (run_times h).2
  have hstart : 0 ≤ i.start := hnonneg _ (by simp [Input.readings])
  have hgate := hinv.inForce_eq_nil hsorted hstart
  have hroom := mayDial_isSome_of_run hR hbefore h i.window
  have honce := emit_dials_once i hinv.canReconnect
  refine ⟨fun hm hc hch => ?_, ?_, ?_⟩
  · obtain ⟨hdial, hrefused⟩ := emit_dials hinv.canReconnect hm hc hch
    refine ⟨?_, fun hno => ?_, fun pre c t fs hes hfs hfree => ?_⟩
    · rw [hdial, ← hgate, inForce_reverse_eq_nil, hroom, and_assoc]
    · rw [hrefused hno]
      by_cases hlt : i.start < s.nextReconnectAt
      · rw [if_pos hlt, hinv.refusal_of_lt hstart hlt]
      · rw [if_neg hlt, refusal, hgate.2 (not_lt.1 hlt)]
    · rw [hdial, ← hgate, hroom, hes, inForce_of_discard hfs hfree]
  · rcases honce with hnone | ⟨hone, -⟩
    · simp [hnone]
    · simp [hone]
  · intro hidle
    rcases honce with hnone | ⟨-, hm, hc, hch⟩
    · exact hnone
    · rcases hidle with h' | h' | h'
      · simp [hm] at h'
      · simp [hc] at h'
      · exact absurd hch h'

/-- Two connections in a row that publish nothing arm the back-off; the refusal names it. -/
theorem policy_barren_connections :
    ∃ s es, sink.run (fromUrl 5) [emitAt 0 false, emitAt 1 false] = some (s, es) ∧
      (emit s ⟨true, 3, 3, .opened, 3, true, 3, false⟩).2 = [.warned .awaitingPublishable] := by
  obtain ⟨s, es, h, hfacts⟩ : ∃ s es, sink.run (fromUrl 5) [emitAt 0 false, emitAt 1 false] =
      some (s, es) ∧ (s.closed = false ∧ s.channel = none ∧
        refusal 5 3 es.reverse = .awaitingPublishable ∧
        dialTimes (emit s ⟨true, 3, 3, .opened, 3, true, 3, false⟩).2 = []) :=
    ⟨_, _, rfl, by decide +kernel⟩
  obtain ⟨hc, hch, href, hno⟩ := hfacts
  have hpolicy := policy (R := 5) (by norm_num)
    (i := ⟨true, 3, 3, .opened, 3, true, 3, false⟩) (by unfold Clocked; decide +kernel)
    (by decide +kernel) h
  refine ⟨s, es, h, ?_⟩
  rw [← href]
  refine (hpolicy.1 rfl hc hch).2.1 ?_
  rintro ⟨t, ht⟩
  rw [← mem_dialTimes, hno] at ht
  cases ht

end Tokenweir.Amqp
