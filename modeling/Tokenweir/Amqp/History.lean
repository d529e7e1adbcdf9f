import Mathlib.Tactic
import Tokenweir.Amqp.Model

/-!
# The moves of a sink and the times of its history

A call of a sink that can dial again is at most two moves, a dial and a publish. What is
said of a whole history is preserved by each move.

* `Move`, and `step_moves`, every call is two moves;
* `Sink.inWindow`, `Sink.connected`, `Sink.undialed`, the sink after a dial;
* `Event.time`, and `run_times`, the times of a history are readings of the clock.
-/

namespace Tokenweir.Amqp

/-- Events that say nothing of dials and publishes. -/
def Event.Quiet : Event → Prop
  | .warned _ | .connClosed _ => True
  | _ => False

theorem release_quiet (s : Sink) (b : Bool) : ∀ e ∈ release s b, e.Quiet := by
  unfold release
  by_cases ho : s.ownsConnection = false
  · simp [ho]
  · rw [if_neg ho]
    cases s.connection with
    | none => simp
    | some c => cases b <;> simp [Event.Quiet]

/-- The sink with the window fields of a counted dial. -/
@[simps!] def Sink.inWindow (s : Sink) (ends : ℚ) (dials : ℕ) : Sink :=
  { s with dialWindowEnds := ends, dialsInWindow := dials }

/-- The sink after a dial that opened a channel. -/
@[simps!] def Sink.connected (s : Sink) : Sink :=
  { s with connection := some s.opened, channel := some s.opened, opened := s.opened + 1 }

/-- The sink after a dial that failed, the clock reading `now`; `opened` counts a connection
opened without a channel. -/
@[simps!] def Sink.undialed (s : Sink) (now : ℚ) (opened : ℕ) : Sink :=
  { s with
    opened := opened
    nextReconnectAt := now + s.reconnectInterval
    backoffMessage := .awaitingRedial
    dropped := s.dropped + 1 }

theorem mayDial_frame {s s' : Sink} {now : ℚ} (h : mayDial s now = some s') :
    ∃ ends dials, s' = s.inWindow ends dials := by
  by_cases hR : s.reconnectInterval = 0
  · obtain rfl : s = s' := by simpa [mayDial, hR] using h
    exact ⟨_, _, rfl⟩
  · rcases mayDial_eq_some hR h with ⟨-, rfl⟩ | ⟨-, -, rfl⟩ <;> exact ⟨_, _, rfl⟩

/-- One move of a call: it changes nothing but a count, dials, or publishes. -/
inductive Move (s : Sink) : Input → List Event → Sink → Prop
  | quiet (i : Input) (es : List Event) (dropped : ℕ) (closed : Bool)
      (hes : ∀ e ∈ es, e.Quiet) :
      Move s i es { s with dropped := dropped, closed := closed }
  | opened (i : Emit) (ends : ℚ) (dials : ℕ) (hch : s.channel = none)
      (hb : s.nextReconnectAt ≤ i.start)
      (hd : mayDial s i.window = some (s.inWindow ends dials)) (ho : i.dial = .opened) :
      Move s (.emit i) [.dialed i.window, .opened s.opened] (s.inWindow ends dials).connected
  | dialFailed (i : Emit) (ends : ℚ) (dials : ℕ) (n : ℕ) (es : List Event)
      (hch : s.channel = none) (hb : s.nextReconnectAt ≤ i.start)
      (hd : mayDial s i.window = some (s.inWindow ends dials))
      (hes : es = [] ∧ n = s.opened ∨
        es = [.opened s.opened, .connClosed s.opened] ∧ n = s.opened + 1) :
      Move s (.emit i) (.dialed i.window :: es ++ [.dialFailed i.afterDial, .warned .reconnectFailed])
        ((s.inWindow ends dials).undialed i.afterDial n)
  | published (i : Emit) (c : ℕ) (hch : s.channel = some c) (hp : i.publishes = true) :
      Move s (.emit i) [.published c] s.counted
  | lost (i : Emit) (c : ℕ) (es : List Event) (hch : s.channel = some c)
      (hp : i.publishes = false) (hes : ∀ e ∈ es, e.Quiet) :
      Move s (.emit i) (.publishFailed c :: .discarded c i.afterPublish :: es)
        (s.lost i.afterPublish)

theorem Move.canReconnect {s t : Sink} {i : Input} {es : List Event} (h : Move s i es t) :
    t.canReconnect = s.canReconnect := by
  cases h <;> rfl

theorem Move.reconnectInterval {s t : Sink} {i : Input} {es : List Event} (h : Move s i es t) :
    t.reconnectInterval = s.reconnectInterval := by
  cases h <;> rfl

/-- No move. -/
theorem Move.refl (s : Sink) (i : Input) : Move s i [] s :=
  .quiet i [] s.dropped s.closed (by simp)

/-- A publish is a move. -/
theorem publish_move {s : Sink} {i : Emit} {c : ℕ} (hr : s.canReconnect = true)
    (hch : s.channel = some c) : Move s (.emit i) (publish s i c).2 (publish s i c).1 := by
  cases hp : i.publishes with
  | true =>
    rw [publish_of_succeeds hp]
    exact .published i c hch hp
  | false =>
    rw [publish_of_fails hr hp]
    refine .lost i c _ hch hp fun e he => ?_
    rcases List.mem_append.1 he with he | he
    · exact release_quiet s _ e he
    · obtain rfl := List.mem_singleton.1 he
      trivial

/-- **A call is two moves.** -/
theorem step_moves {s : Sink} (hr : s.canReconnect = true) (i : Input) :
    ∃ u es₁ es₂, Move s i es₁ u ∧ Move u i es₂ (step s i).1 ∧ (step s i).2 = es₁ ++ es₂ := by
  have hcall := step_cases s i
  generalize (step s i).1 = t, (step s i).2 = es at hcall ⊢
  have one : ∀ {es t}, Move s i es t →
      ∃ u es₁ es₂, Move s i es₁ u ∧ Move u i es₂ t ∧ es = es₁ ++ es₂ :=
    fun {es t} h => ⟨t, es, [], h, .refl t i, (List.append_nil es).symm⟩
  have warn : ∀ w, Move s i [.warned w] s.drop := fun w =>
    .quiet i _ (s.dropped + 1) s.closed (by simp [Event.Quiet])
  cases hcall with
  | unmapped i hm => exact one (warn _)
  | refusedClosed i hm hc => exact one (warn _)
  | noChannel i hm hc hch hr' => exact one (warn _)
  | backoff i hm hc hch hr' hb => exact one (warn _)
  | capped i hm hc hch hr' hb hd => exact one (warn _)
  | held i c hm hc hch => exact one (publish_move hr hch)
  | dialFails i s' hm hc hch hr' hb hd ho =>
    obtain ⟨ends, dials, rfl⟩ := mayDial_frame hd
    refine one ?_
    cases hdial : i.dial with
    | opened => exact absurd hdial ho
    | refused => exact .dialFailed i _ _ s.opened [] hch hb hd (.inl ⟨rfl, rfl⟩)
    | noChannel => exact .dialFailed i _ _ (s.opened + 1) _ hch hb hd (.inr ⟨rfl, rfl⟩)
  | redialed i s' hm hc hch hr' hb hd ho =>
    obtain ⟨ends, dials, rfl⟩ := mayDial_frame hd
    exact ⟨_, _, _, .opened i _ _ hch hb hd ho,
      publish_move (s := (s.inWindow _ _).connected) hr rfl, rfl⟩
  | close b =>
    unfold close
    split_ifs with hc
    · exact one (.refl s _)
    · exact one (.quiet _ _ s.dropped true (release_quiet s b))

/-- The invariant rule for moves. -/
theorem move_induction {I : List Event → Sink → Prop} {s₀ : Sink}
    (hcan : ∀ es s, I es s → s.canReconnect = true) (h₀ : I [] s₀)
    (hmove : ∀ es s i fs t, I es s → i.readings.Pairwise (· ≤ ·) → Move s i fs t →
      I (es ++ fs) t)
    {is : List Input} {es : List Event} {s : Sink} (hclock : Clocked is)
    (h : sink.run s₀ is = some (s, es)) : I es s := by
  have hrun := Machine.run_induction (M := sink) (I := fun is es s => Clocked is → I es s)
    (fun _ => h₀) (fun is es s i t fs ih hstep hclock => ?_) h
  · exact hrun hclock
  · obtain ⟨hbefore, hi, -⟩ := clocked_snoc.1 hclock
    have hs := ih hbefore
    obtain ⟨u, es₁, es₂, h₁, h₂, hes⟩ := step_moves (hcan es s hs) i
    obtain ⟨rfl, rfl⟩ : (step s i).1 = t ∧ (step s i).2 = fs := by
      simpa [sink, Prod.ext_iff] using hstep
    rw [hes, ← List.append_assoc]
    exact hmove _ _ i _ _ (hmove es s i _ _ hs hi h₁) hi h₂

/-! ### Times -/

/-- The clock of an event that has one. -/
def Event.time : Event → Option ℚ
  | .dialed t | .dialFailed t | .discarded _ t => some t
  | _ => none

/-- The times of a history, in order. -/
def times (es : List Event) : List ℚ := es.filterMap Event.time

@[simp] theorem times_nil : times [] = [] := rfl

@[simp] theorem times_cons (e : Event) (es : List Event) :
    times (e :: es) = e.time.toList ++ times es := by
  cases h : e.time <;> simp [times, h]

@[simp] theorem times_append (es fs : List Event) : times (es ++ fs) = times es ++ times fs :=
  List.filterMap_append

theorem times_quiet {es : List Event} (h : ∀ e ∈ es, e.Quiet) : times es = [] := by
  rw [times, List.filterMap_eq_nil_iff]
  intro e he
  have := h e he
  cases e <;> first | rfl | exact this.elim

theorem times_publish {s : Sink} (hr : s.canReconnect = true) (i : Emit) (c : ℕ) :
    (times (publish s i c).2).Sublist [i.afterPublish] := by
  cases hp : i.publishes with
  | true => rw [publish_of_succeeds hp]; simp [times, Event.time]
  | false =>
    rw [publish_of_fails hr hp]
    simp [Event.time, times_quiet (release_quiet s i.closeRaises)]

@[simp] theorem times_connect (s : Sink) (o : DialOutcome) : times (connect s o).2 = [] := by
  cases o <;> rfl

/-- The times of a call are readings of the clock during it. -/
theorem step_times {s : Sink} (hr : s.canReconnect = true) (i : Input) :
    (times (step s i).2).Sublist i.readings := by
  have hcall := step_cases s i
  generalize (step s i).1 = t, (step s i).2 = es at hcall ⊢
  cases hcall with
  | unmapped | refusedClosed | noChannel | backoff | capped => exact List.nil_sublist _
  | held i c hm hc hch =>
    exact (times_publish hr i c).trans (by simp [Input.readings])
  | dialFails i s' hm hc hch hr' hb hd ho =>
    have : times (.dialed i.window :: (connect s' i.dial).2 ++
        [.dialFailed i.afterDial, .warned .reconnectFailed]) = [i.window, i.afterDial] := by
      simp [Event.time]
    rw [this]
    exact .cons _ (.cons_cons _ (.cons_cons _ (List.nil_sublist _)))
  | redialed i s' hm hc hch hr' hb hd ho =>
    obtain ⟨ends, dials, rfl⟩ := mayDial_frame hd
    have hpub := times_publish (s := (s.inWindow ends dials).connected) hr i s.opened
    have : times (.dialed i.window :: (connect (s.inWindow ends dials) .opened).2) = [i.window] :=
      rfl
    rw [times_append, this]
    exact .cons _ (.cons_cons _ (.cons _ hpub))
  | close b =>
    unfold close
    split_ifs
    · exact List.nil_sublist _
    · rw [times_quiet (release_quiet s b)]
      exact List.nil_sublist _

/-- **The times of a history** are readings of the clock, in order. -/
theorem run_times {R : ℚ} {is : List Input} {es : List Event} {s : Sink}
    (h : sink.run (fromUrl R) is = some (s, es)) :
    s.canReconnect = true ∧ (times es).Sublist (is.flatMap Input.readings) := by
  refine Machine.run_induction (M := sink)
    (I := fun is es s => s.canReconnect = true ∧ (times es).Sublist (is.flatMap Input.readings))
    ⟨rfl, .slnil⟩ (fun is es s i t fs ih hstep => ?_) h
  obtain ⟨hr, hes⟩ := ih
  obtain ⟨rfl, rfl⟩ : (step s i).1 = t ∧ (step s i).2 = fs := by
    simpa [sink, Prod.ext_iff] using hstep
  refine ⟨?_, ?_⟩
  · obtain ⟨u, es₁, es₂, h₁, h₂, -⟩ := step_moves hr i
    exact h₂.canReconnect.trans (h₁.canReconnect.trans hr)
  · rw [times_append, List.flatMap_append, List.flatMap_singleton]
    exact hes.append (step_times hr i)

end Tokenweir.Amqp
