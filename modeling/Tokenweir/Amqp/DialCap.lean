import Mathlib.Tactic
import Tokenweir.Amqp.History
import Tokenweir.Lib.Window

/-!
# The cap on dials

`_may_dial` keeps two fields, the end of the current window and the number of dials in
it. Here the windows are those of the whole history of dials, and the fields are shown to
follow the latest of them.

* `dialTimes`, the re-dials of a history, by the clock as `_may_dial` read it;
* `TracksWindow`, what the two fields say of the windows; `mayDial_tracks`;
* `Capped`, the invariant, and `Capped.move`;
* `dialCap`, the bound of every window and of every span.
-/

namespace Tokenweir.Amqp

open Tokenweir.Window

/-- The clock of a dial. -/
def Event.dialTime : Event → Option ℚ
  | .dialed t => some t
  | _ => none

/-- The re-dials of a history, in order. -/
def dialTimes (es : List Event) : List ℚ := es.filterMap Event.dialTime

@[simp] theorem dialTimes_nil : dialTimes [] = [] := rfl

@[simp] theorem dialTimes_cons (e : Event) (es : List Event) :
    dialTimes (e :: es) = e.dialTime.toList ++ dialTimes es := by
  cases h : e.dialTime <;> simp [dialTimes, h]

@[simp] theorem dialTimes_append (es fs : List Event) :
    dialTimes (es ++ fs) = dialTimes es ++ dialTimes fs := List.filterMap_append

theorem dialTimes_quiet {es : List Event} (h : ∀ e ∈ es, e.Quiet) : dialTimes es = [] := by
  rw [dialTimes, List.filterMap_eq_nil_iff]
  intro e he
  have := h e he
  cases e <;> first | rfl | exact this.elim

theorem mem_dialTimes {t : ℚ} {es : List Event} : t ∈ dialTimes es ↔ .dialed t ∈ es := by
  rw [dialTimes, List.mem_filterMap]
  constructor
  · rintro ⟨e, he, ht⟩
    cases e <;> simp [Event.dialTime] at ht
    rwa [ht] at he
  · exact fun h => ⟨_, h, rfl⟩

theorem dialTimes_sublist (es : List Event) : (dialTimes es).Sublist (times es) := by
  induction es with
  | nil => exact .slnil
  | cons e es ih =>
    rw [dialTimes_cons, times_cons]
    refine List.Sublist.append ?_ ih
    cases e <;> simp [Event.dialTime, Event.time]

/-- The dials of a history are in order. -/
theorem dialTimes_sorted {R : ℚ} {is : List Input} {es : List Event} {s : Sink}
    (hclock : Clocked is) (h : sink.run (fromUrl R) is = some (s, es)) :
    (dialTimes es).Pairwise (· ≤ ·) :=
  hclock.sublist ((dialTimes_sublist es).trans (run_times h).2)

/-! ### The window fields -/

/-- The two window fields, of the windows so far, the latest first. -/
def TracksWindow (R : ℚ) (ws : List (Window ℚ)) (s : Sink) : Prop :=
  match ws with
  | [] => s.dialWindowEnds = 0 ∧ s.dialsInWindow = 0
  | w :: _ => s.dialWindowEnds = w.anchor + R ∧ s.dialsInWindow = w.members.length

/-- Only the two fields matter. -/
theorem TracksWindow.congr {R : ℚ} {ws : List (Window ℚ)} {s s' : Sink} (h : TracksWindow R ws s)
    (h₁ : s'.dialWindowEnds = s.dialWindowEnds) (h₂ : s'.dialsInWindow = s.dialsInWindow) :
    TracksWindow R ws s' := by
  cases ws with
  | nil => exact ⟨h₁.trans h.1, h₂.trans h.2⟩
  | cons w ws => exact ⟨h₁.trans h.1, h₂.trans h.2⟩

/-- **A dial goes into its window**, which had room for it. -/
theorem mayDial_tracks {R now : ℚ} {ws : List (Window ℚ)} {s s' : Sink} (hR : 0 < R)
    (hint : s.reconnectInterval = R) (h : TracksWindow R ws s) (hfirst : ws = [] → 0 ≤ now)
    (hfull : ∀ w ∈ ws, w.members.length ≤ maxDialsPerInterval)
    (hdial : mayDial s now = some s') :
    TracksWindow R (push R ws now) s' ∧
      ∀ w ∈ push R ws now, w.members.length ≤ maxDialsPerInterval := by
  have hone : (Window.mk now []).members.length ≤ maxDialsPerInterval := by
    simp [members, maxDialsPerInterval]
  rcases mayDial_eq_some (by rw [hint]; exact hR.ne') hdial with
    ⟨hends, rfl⟩ | ⟨hends, hroom, rfl⟩
  · -- a new window
    cases ws with
    | nil => exact ⟨⟨by rw [hint], rfl⟩, by simpa [push] using hone⟩
    | cons w ws =>
      rw [h.1] at hends
      simp only [push, if_pos hends]
      refine ⟨⟨by rw [hint], rfl⟩, fun v hv => ?_⟩
      rcases List.mem_cons.1 hv with rfl | hv
      · exact hone
      · exact hfull v hv
  · -- the current one
    cases ws with
    | nil =>
      rw [h.1] at hends
      exact absurd (hfirst rfl) (not_le_of_gt hends)
    | cons w ws =>
      rw [h.1] at hends
      have hlen : (w.members ++ [now]).length = s.dialsInWindow + 1 := by rw [h.2]; simp
      simp only [push, if_neg (not_le_of_gt hends)]
      refine ⟨⟨h.1, hlen.symm⟩, fun v hv => ?_⟩
      rcases List.mem_cons.1 hv with rfl | hv
      · show (w.members ++ [now]).length ≤ maxDialsPerInterval
        omega
      · exact hfull v (List.mem_cons_of_mem _ hv)

theorem push_ne_nil {R t : ℚ} {ws : List (Window ℚ)} : push R ws t ≠ [] := by
  cases ws with
  | nil => simp [push]
  | cons w ws =>
    simp only [push]
    split_ifs <;> simp

/-! ### The invariant -/

/-- Before the first dial the back-off has never been armed: at most one connection was lost,
and one does not arm it. -/
def Untried (s : Sink) : Prop :=
  s.nextReconnectAt = 0 ∧ (s.channel ≠ none → s.consecutiveUnproductive = 0)

/-- The window fields and the cap, of a history. -/
structure Capped (R : ℚ) (es : List Event) (s : Sink) : Prop where
  interval : s.reconnectInterval = R
  canReconnect : s.canReconnect = true
  tracks : TracksWindow R (windows R (dialTimes es)) s
  full : ∀ w ∈ windows R (dialTimes es), w.members.length ≤ maxDialsPerInterval
  untried : windows R (dialTimes es) = [] → Untried s

theorem capped_fromUrl {R : ℚ} (hR : 0 ≤ R) : Capped R [] (fromUrl R) where
  interval := max_eq_right hR
  canReconnect := rfl
  tracks := ⟨rfl, rfl⟩
  full w hw := by cases hw
  untried _ := ⟨rfl, fun _ => rfl⟩

/-- A move that dials nothing. -/
theorem Capped.undisturbed {R : ℚ} {es fs : List Event} {s t : Sink} (h : Capped R es s)
    (hint : t.reconnectInterval = s.reconnectInterval) (hcan : t.canReconnect = s.canReconnect)
    (hends : t.dialWindowEnds = s.dialWindowEnds) (hdials : t.dialsInWindow = s.dialsInWindow)
    (hfs : dialTimes fs = []) (huntried : Untried s → Untried t) : Capped R (es ++ fs) t := by
  have htimes : dialTimes (es ++ fs) = dialTimes es := by simp [hfs]
  refine ⟨hint.trans h.interval, hcan.trans h.canReconnect, ?_, ?_, ?_⟩ <;> rw [htimes]
  · exact h.tracks.congr hends hdials
  · exact h.full
  · exact fun hnone => huntried (h.untried hnone)

/-- A move that dials. -/
theorem Capped.dialed {R : ℚ} {es fs : List Event} {s t : Sink} {i : Emit} {ends : ℚ} {dials : ℕ}
    (hR : 0 < R) (h : Capped R es s) (hclock : i.start ≤ i.window)
    (hd : mayDial s i.window = some (s.inWindow ends dials)) (hb : s.nextReconnectAt ≤ i.start)
    (hint : t.reconnectInterval = s.reconnectInterval) (hcan : t.canReconnect = s.canReconnect)
    (hends : t.dialWindowEnds = ends) (hdials : t.dialsInWindow = dials)
    (hfs : dialTimes fs = []) : Capped R (es ++ .dialed i.window :: fs) t := by
  have htimes : dialTimes (es ++ .dialed i.window :: fs) = dialTimes es ++ [i.window] := by
    simp [hfs, Event.dialTime]
  have hfirst : windows R (dialTimes es) = [] → 0 ≤ i.window := fun hnone => by
    have := (h.untried hnone).1
    exact (this ▸ hb).trans hclock
  obtain ⟨htracks, hfull⟩ := mayDial_tracks hR h.interval h.tracks hfirst h.full hd
  refine ⟨hint.trans h.interval, hcan.trans h.canReconnect, ?_, ?_, ?_⟩ <;>
    rw [htimes, windows_snoc]
  · exact htracks.congr hends hdials
  · exact hfull
  · exact fun hnone => absurd hnone push_ne_nil

/-- **The invariant is kept by every move.** -/
theorem Capped.move {R : ℚ} (hR : 0 < R) {es fs : List Event} {s t : Sink} {i : Input}
    (h : Capped R es s) (hclock : i.readings.Pairwise (· ≤ ·)) (hmove : Move s i fs t) :
    Capped R (es ++ fs) t := by
  cases hmove with
  | quiet i fs dropped closed hfs =>
    exact h.undisturbed rfl rfl rfl rfl (dialTimes_quiet hfs) id
  | opened i ends dials hch hb hd ho =>
    exact h.dialed hR (emit_readings_le hclock).1 hd hb rfl rfl rfl rfl rfl
  | dialFailed i ends dials n fs hch hb hd hfs =>
    refine h.dialed hR (emit_readings_le hclock).1 hd hb rfl rfl rfl rfl ?_
    rcases hfs with ⟨rfl, -⟩ | ⟨rfl, -⟩ <;> rfl
  | published i c hch hp =>
    refine h.undisturbed rfl rfl rfl rfl rfl fun hun => ?_
    exact ⟨hun.1, hun.2⟩
  | lost i c fs hch hp hfs =>
    refine h.undisturbed rfl rfl rfl rfl ?_ fun hun => ?_
    · simp [Event.dialTime, dialTimes_quiet hfs]
    · -- the first loss does not arm the back-off
      have hzero := hun.2 (by simp [hch])
      have hfree : ¬ s.Arms := fun harm => harm.2.ne' hzero
      exact ⟨by simp [hfree, hun.1], by simp⟩

theorem capped_of_run {R : ℚ} (hR : 0 < R) {is : List Input} (hclock : Clocked is)
    {es : List Event} {s : Sink} (h : sink.run (fromUrl R) is = some (s, es)) : Capped R es s :=
  move_induction (fun _ _ hI => hI.canReconnect) (capped_fromUrl hR.le)
    (fun _ _ _ _ _ hI hi hm => hI.move hR hi hm) hclock h

/-- **The cap on dials.** Group the re-dials of any run of a sink built by `from_url` with a
positive interval `R` into windows, each anchored at the first dial at or after the previous
anchor plus `R`: a window holds at most `maxDialsPerInterval` dials, all before its anchor
plus `R`, anchors are at least `R` apart, and a half-open span of length `R` holds at most
`2 * maxDialsPerInterval - 1` dials. -/
theorem dialCap {R : ℚ} (hR : 0 < R) {is : List Input} (hclock : Clocked is) {es : List Event}
    {s : Sink} (h : sink.run (fromUrl R) is = some (s, es)) :
    instants (windows R (dialTimes es)) = dialTimes es ∧
      (∀ w ∈ windows R (dialTimes es), w.members.length ≤ maxDialsPerInterval ∧
        ∀ t ∈ w.members, w.anchor ≤ t ∧ t < w.anchor + R) ∧
      (windows R (dialTimes es)).IsChain (fun w v => v.anchor + R ≤ w.anchor) ∧
      ∀ a, ((dialTimes es).filter fun t => a ≤ t ∧ t < a + R).length ≤
        2 * maxDialsPerInterval - 1 := by
  have hinv := capped_of_run hR hclock h
  have hspaced := windows_spaced hR (dialTimes_sorted hclock h)
  refine ⟨instants_windows R _, fun w hw => ⟨hinv.full w hw, hspaced.before w hw⟩,
    hspaced.apart, fun a => ?_⟩
  have := span_length_le hR hspaced hinv.full a
  rwa [instants_windows] at this

/-- An `emit` of a record at one clock reading, when dialling works. -/
def emitAt (t : ℚ) (publishes : Bool) : Input :=
  .emit ⟨true, t, t, .opened, t, publishes, t, false⟩

/-- A broker that makes every connection look productive: four losses, four re-dials, the
fourth in the next window. -/
theorem dialCap_productive_losses :
    ∃ s es, sink.run (fromUrl 5) [emitAt 0 true, emitAt 1 false, emitAt 2 true, emitAt 2 false,
        emitAt 3 true, emitAt 3 false, emitAt 4 true, emitAt 4 false, emitAt 5 true,
        emitAt 7 true] = some (s, es) ∧
      dialTimes es = [2, 3, 4, 7] ∧
      ∀ a, ((dialTimes es).filter fun t => a ≤ t ∧ t < a + 5).length ≤
        2 * maxDialsPerInterval - 1 := by
  obtain ⟨s, es, h, htimes⟩ : ∃ s es, sink.run (fromUrl 5) [emitAt 0 true, emitAt 1 false,
      emitAt 2 true, emitAt 2 false, emitAt 3 true, emitAt 3 false, emitAt 4 true,
      emitAt 4 false, emitAt 5 true, emitAt 7 true] = some (s, es) ∧
        dialTimes es = [2, 3, 4, 7] := ⟨_, _, rfl, by decide +kernel⟩
  refine ⟨s, es, h, htimes, (dialCap (by norm_num) ?_ h).2.2.2⟩
  unfold Clocked
  decide +kernel

end Tokenweir.Amqp
