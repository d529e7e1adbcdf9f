import Tokenweir.Amqp.Ownership
import Tokenweir.Ratelimit.Warner

/-!
# No drop is silent

The sink over its rate-limited warner: each record that is lost is one call of `warn`, and a line in
the log accounts for it, by itself or in the number of those suppressed, or the warner still counts
it.

* `Warning.drops`, the warnings of a lost record; `warningsOf`; `step_drops`, `run_drops`;
* `bucketsOf`, the calls of a warner in order; `drops_reported`.
-/

namespace Tokenweir.Amqp

/-- The key of a warning. That of a failed dial is its text without the cause. -/
def Warning.key (w : Warning) : Text := Text.of w.message

/-- The warnings of a lost record: all but that of a `close` that raises. -/
def Warning.drops : List Warning :=
  [.notARecord, .sinkClosed, .noChannel, .awaitingRedial, .awaitingPublishable,
    .dialCeilingReached, .reconnectFailed, .publishFailed]

/-- A warning of a lost record. -/
def Warning.isDrop (w : Warning) : Bool := w != .closeFailed

/-- The calls of `warn`, in order. -/
def warningsOf (es : List Event) : List Warning :=
  es.filterMap fun
    | .warned w => some w
    | _ => none

@[simp] theorem warningsOf_append (es fs : List Event) :
    warningsOf (es ++ fs) = warningsOf es ++ warningsOf fs := List.filterMap_append

/-! ### The sink -/

/-- `_release` loses no record. -/
theorem countP_release (s : Sink) (closeRaises : Bool) :
    (warningsOf (release s closeRaises)).countP Warning.isDrop = 0 := by
  unfold release
  split
  · rfl
  · cases s.connection with
    | none => rfl
    | some c => cases closeRaises <;> rfl

/-- What a call of `emit` leaves: its losses are warned of, and so will those be that wait for a
dial. -/
def Warns (s t : Sink) (es : List Event) : Prop :=
  t.dropped = s.dropped + (warningsOf es).countP Warning.isDrop ∧ t.backoffMessage.isDrop = true

theorem publish_drops {s : Sink} (hb : s.backoffMessage.isDrop = true) (i : Emit) (c : ℕ) :
    Warns s (publish s i c).1 (publish s i c).2 := by
  cases hp : i.publishes with
  | true =>
    rw [publish_of_succeeds hp]
    exact ⟨rfl, hb⟩
  | false =>
    cases hr : s.canReconnect with
    | true =>
      rw [publish_of_fails hr hp]
      have hwarnings : warningsOf (.publishFailed c :: .discarded c i.afterPublish ::
          release s i.closeRaises ++ [.warned .publishFailed]) =
          warningsOf (release s i.closeRaises) ++ [.publishFailed] :=
        warningsOf_append (.publishFailed c :: .discarded c i.afterPublish ::
          release s i.closeRaises) _
      refine ⟨?_, ?_⟩
      · rw [hwarnings, List.countP_append, countP_release]
        rfl
      · rw [Sink.lost_backoffMessage]
        split_ifs
        · rfl
        · exact hb
    | false =>
      rw [publish_of_kept hr hp]
      exact ⟨rfl, hb⟩

/-- **A call** warns of each record that it loses, once. -/
theorem step_drops {s : Sink} (hb : s.backoffMessage.isDrop = true) (i : Input) :
    Warns s (step s i).1 (step s i).2 := by
  have hcall := step_cases s i
  generalize (step s i).1 = t, (step s i).2 = es at hcall ⊢
  cases hcall with
  | unmapped | refusedClosed | noChannel | capped => exact ⟨rfl, hb⟩
  | held i c => exact publish_drops hb i c
  | backoff i =>
    refine ⟨?_, hb⟩
    show s.dropped + 1 = s.dropped + [s.backoffMessage].countP Warning.isDrop
    rw [List.countP_singleton, hb]
    rfl
  | dialFails i s' hm hc hch hr _ hd ho =>
    obtain ⟨ends, dials, rfl⟩ := mayDial_frame hd
    cases hdial : i.dial with
    | opened => exact absurd hdial ho
    | refused | noChannel => exact ⟨rfl, rfl⟩
  | redialed i s' hm hc hch hr _ hd ho =>
    obtain ⟨ends, dials, rfl⟩ := mayDial_frame hd
    exact publish_drops (s := (s.inWindow ends dials).connected) hb i s.opened
  | close closeRaises =>
    unfold close
    split
    · exact ⟨rfl, hb⟩
    · exact ⟨congrArg (s.dropped + ·) (countP_release s closeRaises).symm, hb⟩

/-- Every lost record of a run has its warning, and every warning of one is a lost record. -/
theorem run_drops {interval : ℚ} {is : List Input} {es : List Event} {t : Sink}
    (h : sink.run (fromUrl interval) is = some (t, es)) :
    t.dropped = (warningsOf es).countP Warning.isDrop := by
  refine (Machine.run_induction (M := sink)
    (I := fun _ es t => t.dropped = (warningsOf es).countP Warning.isDrop ∧
      t.backoffMessage.isDrop = true) ⟨rfl, rfl⟩ (fun is es t i v fs ih hstep => ?_) h).1
  obtain ⟨rfl, rfl⟩ : (step t i).1 = v ∧ (step t i).2 = fs := by
    simpa [sink, Prod.ext_iff] using hstep
  obtain ⟨hdropped, hb⟩ := step_drops ih.2 i
  refine ⟨?_, hb⟩
  rw [hdropped, ih.1, warningsOf_append, List.countP_append]

/-! ### The warner -/

/-- The warnings of lost records, one kind after the other. -/
theorem countP_isDrop (ws : List Warning) :
    ws.countP Warning.isDrop = (Warning.drops.map fun w => ws.count w).sum := by
  induction ws with
  | nil => rfl
  | cons w ws ih =>
    rw [List.countP_cons, ih]
    simp only [Warning.drops, List.map_cons, List.map_nil, List.sum_cons, List.sum_nil,
      List.count_cons]
    cases w <;> simp [Warning.isDrop] <;> omega

/-- No two warnings have the same text. -/
theorem key_injective {w w' : Warning} (h : w.key = w'.key) : w = w' := by
  have hmessage : w.message = w'.message := Text.of_injective h
  revert hmessage
  cases w <;> cases w' <;> simp [Warning.message]

/-- The keys of the calls of a warner, in order. -/
def bucketsOf (es : List Ratelimit.Event) : List Text :=
  es.filterMap fun
    | .called c => some c.bucket
    | _ => none

theorem length_calledOf (k : Text) (es : List Ratelimit.Event) :
    (Ratelimit.calledOf k es).length = (bucketsOf es).count k := by
  induction es with
  | nil => rfl
  | cons e es ih =>
    cases e with
    | called c =>
      show _ = (c.bucket :: bucketsOf es).count k
      rw [List.count_cons, ← ih]
      by_cases hk : c.bucket = k <;> simp [Ratelimit.calledOf, hk]
    | entered | logged => exact ih

/-- The calls that the log accounts for: the lines of a key, and those that they say were
suppressed. -/
def accountedOf (k : Text) (es : List Ratelimit.Event) : ℕ :=
  (Ratelimit.loggedOf k es).length + ((Ratelimit.loggedOf k es).map Ratelimit.Line.suppressed).sum

/-- **No drop is silent.** Over any run of a sink of `from_url`, and any run of a warner that was
called for its warnings and has no call under way: each record that the sink counts as dropped is
a line in the log under the key of its warning, or is in the number of suppressed ones on such a
line, or in the number that the warner would put on the next one. -/
theorem drops_reported {interval : ℚ} {is : List Input} {es : List Event} {t : Sink}
    (h : sink.run (fromUrl interval) is = some (t, es)) {cfg : Ratelimit.Config}
    {as : List Ratelimit.Action} {ls : List Ratelimit.Event} {s : Ratelimit.State}
    (hwarner : (Ratelimit.warner cfg).run .init as = some (s, ls))
    (hcalls : bucketsOf ls = (warningsOf es).map Warning.key) (hquiet : Ratelimit.Quiet s) :
    t.dropped = (Warning.drops.map fun w =>
      accountedOf w.key ls + Ratelimit.suppressed s (some w.key)).sum := by
  rw [run_drops h, countP_isDrop]
  refine congrArg List.sum (List.map_congr_left fun w _ => ?_)
  have hplaced := Ratelimit.run_placed hwarner w.key
  obtain ⟨hcalled, hlogged⟩ := hplaced.of_quiet hquiet
  have hconserved := ((Ratelimit.run_refines hwarner w.key).honest hplaced).conserved
  have hcount : (warningsOf es).count w = (bucketsOf ls).count w.key := by
    rw [hcalls]
    exact (List.count_map_of_injective _ Warning.key (fun _ _ => key_injective) w).symm
  rw [hcount, ← length_calledOf, hcalled.length_eq, List.length_map, hconserved,
    hlogged.length_eq, (hlogged.map Ratelimit.Line.suppressed).sum_eq, accountedOf]

/-- Of two values that are no records, the first one is logged and the second one counted. -/
theorem drops_reported_refused :
    let is : List Input := [.emit ⟨false, 0, 0, .opened, 0, true, 0, false⟩,
      .emit ⟨false, 1, 1, .opened, 1, true, 1, false⟩]
    let as : List Ratelimit.Action := [.warn Warning.notARecord.key none false 0, .enter 0, .log 0,
      .warn Warning.notARecord.key none false 1, .enter 1]
    let cfg := Ratelimit.init 60 fun _ => Text.of "60"
    ∃ t es s ls, sink.run (fromUrl 5) is = some (t, es) ∧
      (Ratelimit.warner cfg).run .init as = some (s, ls) ∧ t.dropped = 2 ∧
      t.dropped = (Warning.drops.map fun w =>
        accountedOf w.key ls + Ratelimit.suppressed s (some w.key)).sum := by
  intro is as cfg
  have hkey : ((Ratelimit.warner cfg).run .init as).map (fun p => (p.1.calls, bucketsOf p.2)) =
      some ([.returned, .returned], [Warning.notARecord.key, Warning.notARecord.key]) := by
    decide +kernel
  obtain ⟨⟨s, ls⟩, hrun, he⟩ := Option.map_eq_some_iff.1 hkey
  obtain ⟨hcalls, hbuckets⟩ := Prod.mk.inj he
  dsimp only at hcalls hbuckets
  have hquiet : Ratelimit.Quiet s := by
    intro p hp
    rw [hcalls] at hp
    simpa using hp
  have hsink : sink.run (fromUrl 5) is =
      some ((fromUrl 5).drop.drop, [.warned .notARecord, .warned .notARecord]) := rfl
  exact ⟨_, _, s, ls, hsink, hrun, rfl, drops_reported hsink hrun hbuckets hquiet⟩

end Tokenweir.Amqp
