import Tokenweir.Amqp.Ownership

/-!
# One connection at a time

What the sink of `from_url` does with its connections, event by event: a monitor that follows the
one connection that is open, and accepts no second one, no publish on another connection and no
close of one that is not open. A dial, a publish and a close return or raise an `Exception`.

* `follow`, the monitor; `Sink.held`, the connection that is open between two calls;
* `follow_publish`, `follow_step`, a call keeps to the monitor; `one_connection`, every run does.
-/

namespace Tokenweir.Amqp

/-- The connection that is open after an event; none if the event is out of place. -/
def follow (o : Option ℕ) : Event → Option (Option ℕ)
  | .opened c => if o = none then some (some c) else none
  | .connClosed c => if o = some c then some none else none
  | .published c | .publishFailed c => if o = some c then some o else none
  | .dialed _ | .dialFailed _ | .discarded _ _ | .warned _ => some o

/-- The connection that is open between two calls. -/
def Sink.held (s : Sink) : Option ℕ := if s.closed then none else s.connection

theorem Sink.held_of_open {s : Sink} (h : s.closed = false) : s.held = s.connection := by
  rw [Sink.held, h]
  rfl

/-- `_release` of a connection that is held closes it. -/
theorem follow_release {s : Sink} {c : ℕ} (ho : s.ownsConnection = true)
    (hc : s.connection = some c) (closeRaises : Bool) :
    (release s closeRaises).foldlM follow (some c) = some none := by
  rw [release, ho, hc]
  cases closeRaises <;> simp [follow]

/-- A publish on the connection that is held. -/
theorem follow_publish {s : Sink} {es : List Event} {i : Emit} {c : ℕ} (h : Holds s es)
    (hc : s.closed = false) (hch : s.channel = some c) :
    (publish s i c).2.foldlM follow (some c) = some (publish s i c).1.held := by
  have hconnection : s.connection = some c := h.channel.symm.trans hch
  cases hp : i.publishes with
  | true =>
    rw [publish_of_succeeds hp]
    have hheld : s.counted.held = some c :=
      (Sink.held_of_open (s := s.counted) hc).trans hconnection
    rw [hheld]
    simp [follow]
  | false =>
    rw [publish_of_fails h.canReconnect hp]
    have hheld : (s.lost i.afterPublish).held = none := Sink.held_of_open hc
    have hrelease := follow_release h.ownsConnection hconnection i.closeRaises
    rw [hheld]
    simp only [List.cons_append, List.foldlM_cons, List.foldlM_append, List.foldlM_nil, follow,
      if_true, Option.bind_eq_bind, Option.bind_some, hrelease, Option.pure_def]

/-- **A call** keeps to the monitor. -/
theorem follow_step {s : Sink} {es : List Event} (h : Holds s es) (i : Input) :
    (step s i).2.foldlM follow s.held = some (step s i).1.held := by
  have hcall := step_cases s i
  generalize (Amqp.step s i).1 = t, (Amqp.step s i).2 = fs at hcall ⊢
  cases hcall with
  | unmapped | refusedClosed | noChannel | backoff | capped => rfl
  | held i c hm hc hch =>
    have hheld : s.held = some c := (Sink.held_of_open hc).trans (h.channel.symm.trans hch)
    rw [hheld]
    exact follow_publish h hc hch
  | dialFails i s' hm hc hch hr hb hd ho =>
    obtain ⟨ends, dials, rfl⟩ := mayDial_frame hd
    have hnone : s.connection = none := h.channel.symm.trans hch
    cases hdial : i.dial with
    | opened => exact absurd hdial ho
    | refused | noChannel => simp [connect, follow, Sink.held, Sink.drop, hnone]
  | redialed i s' hm hc hch hr hb hd ho =>
    obtain ⟨ends, dials, rfl⟩ := mayDial_frame hd
    have hnone : s.connection = none := h.channel.symm.trans hch
    have hconnected : Holds (s.inWindow ends dials).connected
        (es ++ [.dialed i.window, .opened s.opened]) := h.connected hc hch ends dials
    have hpublish := follow_publish (i := i) (c := s.opened) hconnected hc rfl
    rw [Sink.held_of_open hc, hnone, List.foldlM_append]
    simp only [connect, List.foldlM_cons, List.foldlM_nil, follow, if_true, Option.bind_eq_bind,
      Option.bind_some, Option.pure_def]
    exact hpublish
  | close closeRaises =>
    unfold close
    split
    · rfl
    · rename_i hopen
      have hc : s.closed = false := Bool.eq_false_iff.2 hopen
      rw [Sink.held_of_open hc]
      cases hconnection : s.connection with
      | none => simp [release, hconnection, Sink.held]
      | some c => exact follow_release h.ownsConnection hconnection closeRaises

/-- **One connection at a time.** In every run of a sink of `from_url`, a connection is opened only
when no other one is open, each publish is on the connection that is open, and each close closes
it. What is open at the end is the connection that the sink holds, and nothing once it is closed. -/
theorem one_connection {interval : ℚ} {is : List Input} {es : List Event} {t : Sink}
    (h : sink.run (fromUrl interval) is = some (t, es)) :
    (.opened 0 :: es).foldlM follow none = some (if t.closed then none else t.connection) := by
  refine (Machine.run_induction (M := sink)
    (I := fun _ es t => Holds t ([.opened 0] ++ es) ∧
      (.opened 0 :: es).foldlM follow none = some t.held)
    ⟨holds_fromUrl interval, rfl⟩ (fun is es t i v fs ih hstep => ?_) h).2
  obtain ⟨rfl, rfl⟩ : (step t i).1 = v ∧ (step t i).2 = fs := by
    simpa [sink, Prod.ext_iff] using hstep
  obtain ⟨hholds, hfollow⟩ := ih
  refine ⟨by rw [← List.append_assoc]; exact hholds.step i, ?_⟩
  rw [← List.cons_append, List.foldlM_append, hfollow]
  exact follow_step hholds i

/-- A publish fails, and the record after it is published on a new connection. -/
theorem one_connection_redial :
    let is : List Input := [.emit ⟨true, 0, 0, .opened, 0, true, 0, false⟩,
      .emit ⟨true, 1, 1, .opened, 1, false, 1, true⟩,
      .emit ⟨true, 2, 2, .opened, 2, true, 2, false⟩, .close false]
    ∃ t es, sink.run (fromUrl 5) is = some (t, es) ∧ t.connection = some 1 ∧
      (Event.opened 0 :: es).foldlM follow none = some none := by
  intro is
  have hkey : (sink.run (fromUrl 5) is).map (fun p => (p.1.closed, p.1.connection)) =
      some (true, some 1) := by decide +kernel
  obtain ⟨⟨t, es⟩, hrun, he⟩ := Option.map_eq_some_iff.1 hkey
  obtain ⟨hclosed, hconnection⟩ := Prod.mk.inj he
  have hone := one_connection hrun
  dsimp only at hclosed
  rw [hclosed] at hone
  exact ⟨t, es, hrun, hconnection, hone⟩

end Tokenweir.Amqp
