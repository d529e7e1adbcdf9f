import Mathlib.Tactic
import Mathlib.Algebra.Order.Ring.Rat
import Tokenweir.Lib.Machine

/-!
# `AMQPSink`: publishing, and when to dial again

The model of `tokenweir.amqp.AMQPSink`. The broker and the clock are inputs: a call
of `emit` comes with what `message_for`, the dial, the publish and the connection's
`close` did (a return or an `Exception`, whose text can be had), and with the clock at
the four moments the source may read it. Its readings and the interval are exact
numbers, not floats that a sum rounds. A connection is a number, counted from the one
`from_url` opens.

* `Sink`, the fields; `fromUrl`, the sink the constructor and `from_url` build;
* `mayDial`, `liveChannel`, `release`, `invalidate`, `publish`, `emit`, `close`;
* `sink`, the machine of a sequence of calls, and `step_cases`, what a call can do.
-/

namespace Tokenweir.Amqp

/-- The cap on dials in an interval. -/
def maxDialsPerInterval : ℕ := 3

/-- What the sink logs; `message` is the text. -/
inductive Warning
  | notARecord
  | sinkClosed
  | noChannel
  | awaitingRedial
  | awaitingPublishable
  | dialCeilingReached
  | reconnectFailed
  | publishFailed
  | closeFailed
  deriving DecidableEq, Repr

def Warning.message : Warning → String
  | .notARecord => "tokenweir: refusing to publish a non-UsageRecord; no metering for this call"
  | .sinkClosed => "tokenweir: refusing to publish through a closed AMQP sink; no metering for this call"
  | .noChannel => "tokenweir: usage record not published — the AMQP sink has no channel to publish on and cannot make one; no metering for this call"
  | .awaitingRedial => "tokenweir: usage record not published — waiting out the reconnect interval after a failed connection attempt; no metering for this call"
  | .awaitingPublishable => "tokenweir: usage record not published — waiting out the reconnect interval after two or more connections in a row failed to publish anything on their first attempt, which points at the connection or the channel rather than at what was being published. No metering for these calls"
  | .dialCeilingReached => "tokenweir: usage record not published — the AMQP sink has hit its cap of 3 reconnects per interval and is waiting; records are not reaching the broker and the connection keeps being replaced. Check that the exchange and routing key exist and are permitted; the underlying error is on the publish-failure warning. No metering for these calls"
  | .reconnectFailed => "tokenweir: could not re-establish the AMQP connection; records will be dropped until the broker is reachable"
  | .publishFailed => "tokenweir: usage record not published — the AMQP channel failed; no metering for this call"
  | .closeFailed => "tokenweir: the AMQP connection raised while closing; releasing it anyway"

/-- How the `connect` closure of `from_url` ends. -/
inductive DialOutcome
  | opened
  /-- `BlockingConnection` raised. -/
  | refused
  /-- The connection opened and its `channel()` raised; the closure closes the connection. -/
  | noChannel
  deriving DecidableEq, Repr

structure Sink where
  channel : Option ℕ
  connection : Option ℕ
  ownsConnection : Bool
  /-- Whether `_reconnect` is set. -/
  canReconnect : Bool
  closed : Bool := false
  published : ℕ := 0
  dropped : ℕ := 0
  reconnectInterval : ℚ
  nextReconnectAt : ℚ := 0
  connectionPublishes : ℕ := 0
  consecutiveUnproductive : ℕ := 0
  dialWindowEnds : ℚ := 0
  dialsInWindow : ℕ := 0
  backoffMessage : Warning := .awaitingRedial
  /-- The number of connections opened so far, the next one's name. -/
  opened : ℕ
  deriving DecidableEq, Repr

/-- The sink `from_url` returns, holding the connection it opened. The constructor clamps
the interval. -/
def fromUrl (reconnectInterval : ℚ) : Sink where
  channel := some 0
  connection := some 0
  ownsConnection := true
  canReconnect := true
  reconnectInterval := max 0 reconnectInterval
  opened := 1

/-- One call of `emit`: whether `message_for` returned, how the dial, the publish and the
connection's `close` would end, and the clock at the four moments it may be read, in order. -/
structure Emit where
  mapped : Bool
  start : ℚ
  window : ℚ
  dial : DialOutcome
  afterDial : ℚ
  publishes : Bool
  afterPublish : ℚ
  closeRaises : Bool
  deriving DecidableEq, Repr

inductive Input
  | emit (i : Emit)
  | close (closeRaises : Bool)
  deriving DecidableEq, Repr

/-- What a call does to the outside. -/
inductive Event
  /-- `_reconnect` is called; the clock as `_may_dial` read it. -/
  | dialed (at' : ℚ)
  /-- The dial raised; the clock as read afterwards. -/
  | dialFailed (at' : ℚ)
  | opened (c : ℕ)
  | connClosed (c : ℕ)
  | published (c : ℕ)
  | publishFailed (c : ℕ)
  /-- The channel of `c` is given up; the clock at that moment. -/
  | discarded (c : ℕ) (at' : ℚ)
  | warned (w : Warning)
  deriving DecidableEq, Repr

/-- `_may_dial`: the sink with this dial counted, or `none` when the cap is reached. -/
def mayDial (s : Sink) (now : ℚ) : Option Sink :=
  if s.reconnectInterval = 0 then some s
  else
    let s :=
      if s.dialWindowEnds ≤ now then
        { s with dialWindowEnds := now + s.reconnectInterval, dialsInWindow := 0 }
      else s
    if maxDialsPerInterval ≤ s.dialsInWindow then none
    else some { s with dialsInWindow := s.dialsInWindow + 1 }

/-- The `connect` closure, as `_reconnect`. -/
def connect (s : Sink) : DialOutcome → Sink × List Event
  | .opened =>
    ({ s with connection := some s.opened, channel := some s.opened, opened := s.opened + 1 },
      [.opened s.opened])
  | .refused => (s, [])
  | .noChannel => ({ s with opened := s.opened + 1 }, [.opened s.opened, .connClosed s.opened])

/-- `_live_channel`: the sink afterwards, the channel to publish on, and the events. -/
def liveChannel (s : Sink) (i : Emit) : Sink × Option ℕ × List Event :=
  match s.channel with
  | some c => (s, some c, [])
  | none =>
    if s.canReconnect = false then (s, none, [.warned .noChannel])
    else if i.start < s.nextReconnectAt then (s, none, [.warned s.backoffMessage])
    else
      match mayDial s i.window with
      | none => (s, none, [.warned .dialCeilingReached])
      | some s =>
        match i.dial with
        | .opened =>
          ((connect s .opened).1, some s.opened, .dialed i.window :: (connect s .opened).2)
        | o =>
          ({ (connect s o).1 with
              nextReconnectAt := i.afterDial + s.reconnectInterval
              backoffMessage := .awaitingRedial }, none,
            .dialed i.window :: (connect s o).2 ++
              [.dialFailed i.afterDial, .warned .reconnectFailed])

/-- `_release`. -/
def release (s : Sink) (closeRaises : Bool) : List Event :=
  if s.ownsConnection = false then []
  else
    match s.connection with
    | none => []
    | some c => .connClosed c :: if closeRaises then [.warned .closeFailed] else []

/-- `_invalidate`. -/
def invalidate (s : Sink) (i : Emit) (c : ℕ) : Sink × List Event :=
  if s.canReconnect = false then (s, [])
  else
    let s' : Sink :=
      if s.connectionPublishes ≠ 0 then { s with consecutiveUnproductive := 0 }
      else if 1 < s.consecutiveUnproductive + 1 then
        { s with
          consecutiveUnproductive := s.consecutiveUnproductive + 1
          nextReconnectAt := i.afterPublish + s.reconnectInterval
          backoffMessage := .awaitingPublishable }
      else { s with consecutiveUnproductive := s.consecutiveUnproductive + 1 }
    ({ s' with channel := none, connection := none, connectionPublishes := 0 },
      .discarded c i.afterPublish :: release s i.closeRaises)

/-- The end of `emit`, on a live channel `c`. -/
def publish (s : Sink) (i : Emit) (c : ℕ) : Sink × List Event :=
  if i.publishes then
    ({ s with
        published := s.published + 1
        connectionPublishes := s.connectionPublishes + 1 }, [.published c])
  else
    let s := { s with dropped := s.dropped + 1 }
    ((invalidate s i c).1, .publishFailed c :: (invalidate s i c).2 ++ [.warned .publishFailed])

/-- A lost record. -/
def Sink.drop (s : Sink) : Sink := { s with dropped := s.dropped + 1 }

/-- `emit`. -/
def emit (s : Sink) (i : Emit) : Sink × List Event :=
  if i.mapped = false then (s.drop, [.warned .notARecord])
  else if s.closed then (s.drop, [.warned .sinkClosed])
  else
    match liveChannel s i with
    | (s, none, es) => (s.drop, es)
    | (s, some c, es) => ((publish s i c).1, es ++ (publish s i c).2)

/-- `close`. -/
def close (s : Sink) (closeRaises : Bool) : Sink × List Event :=
  if s.closed then (s, []) else ({ s with closed := true }, release s closeRaises)

/-- One call on the sink. -/
def step (s : Sink) : Input → Sink × List Event
  | .emit i => emit s i
  | .close closeRaises => close s closeRaises

/-- The sink as a machine: every call is enabled. -/
def sink : Machine Sink Input Event := ⟨fun s i => some (step s i)⟩

/-! ### Clocks -/

/-- The moments of a call at which the clock may be read, in order. -/
def Input.readings : Input → List ℚ
  | .emit i => [i.start, i.window, i.afterDial, i.afterPublish]
  | .close _ => []

/-- The clock never goes back over the calls. -/
def Clocked (is : List Input) : Prop := (is.flatMap Input.readings).Pairwise (· ≤ ·)

theorem clocked_snoc {is : List Input} {i : Input} :
    Clocked (is ++ [i]) ↔
      Clocked is ∧ i.readings.Pairwise (· ≤ ·) ∧
        ∀ t ∈ is.flatMap Input.readings, ∀ u ∈ i.readings, t ≤ u := by
  simp only [Clocked, List.flatMap_append, List.pairwise_append, List.flatMap_singleton]

/-- The four moments of an `emit` are in order. -/
theorem emit_readings_le {i : Emit} (h : (Input.emit i).readings.Pairwise (· ≤ ·)) :
    i.start ≤ i.window ∧ i.window ≤ i.afterDial ∧ i.afterDial ≤ i.afterPublish := by
  simp only [Input.readings, List.pairwise_cons, List.mem_cons, List.not_mem_nil, or_false,
    forall_eq_or_imp, forall_eq] at h
  exact ⟨h.1.1, h.2.1.1, h.2.2.1⟩

/-! ### What a call can do -/

/-- The ends of a call, each with what it needs of the sink. -/
inductive Step (s : Sink) : Input → Sink → List Event → Prop
  | unmapped (i : Emit) (hm : i.mapped = false) : Step s (.emit i) s.drop [.warned .notARecord]
  | refusedClosed (i : Emit) (hm : i.mapped = true) (hc : s.closed = true) :
      Step s (.emit i) s.drop [.warned .sinkClosed]
  | held (i : Emit) (c : ℕ) (hm : i.mapped = true) (hc : s.closed = false)
      (hch : s.channel = some c) : Step s (.emit i) (publish s i c).1 (publish s i c).2
  | noChannel (i : Emit) (hm : i.mapped = true) (hc : s.closed = false)
      (hch : s.channel = none) (hr : s.canReconnect = false) :
      Step s (.emit i) s.drop [.warned .noChannel]
  | backoff (i : Emit) (hm : i.mapped = true) (hc : s.closed = false) (hch : s.channel = none)
      (hr : s.canReconnect = true) (hb : i.start < s.nextReconnectAt) :
      Step s (.emit i) s.drop [.warned s.backoffMessage]
  | capped (i : Emit) (hm : i.mapped = true) (hc : s.closed = false) (hch : s.channel = none)
      (hr : s.canReconnect = true) (hb : s.nextReconnectAt ≤ i.start)
      (hd : mayDial s i.window = none) :
      Step s (.emit i) s.drop [.warned .dialCeilingReached]
  | dialFails (i : Emit) (s' : Sink) (hm : i.mapped = true) (hc : s.closed = false)
      (hch : s.channel = none) (hr : s.canReconnect = true) (hb : s.nextReconnectAt ≤ i.start)
      (hd : mayDial s i.window = some s') (ho : i.dial ≠ .opened) :
      Step s (.emit i)
        (Sink.drop { (connect s' i.dial).1 with
          nextReconnectAt := i.afterDial + s'.reconnectInterval
          backoffMessage := .awaitingRedial })
        (.dialed i.window :: (connect s' i.dial).2 ++
          [.dialFailed i.afterDial, .warned .reconnectFailed])
  | redialed (i : Emit) (s' : Sink) (hm : i.mapped = true) (hc : s.closed = false)
      (hch : s.channel = none) (hr : s.canReconnect = true) (hb : s.nextReconnectAt ≤ i.start)
      (hd : mayDial s i.window = some s') (ho : i.dial = .opened) :
      Step s (.emit i) (publish (connect s' .opened).1 i s'.opened).1
        (.dialed i.window :: (connect s' .opened).2 ++
          (publish (connect s' .opened).1 i s'.opened).2)
  | close (closeRaises : Bool) :
      Step s (.close closeRaises) (close s closeRaises).1 (close s closeRaises).2

/-- **What a call can do**, once for every invariant. -/
theorem step_cases (s : Sink) (i : Input) : Step s i (step s i).1 (step s i).2 := by
  cases i with
  | close closeRaises => exact .close closeRaises
  | emit i =>
    simp only [step, emit]
    split_ifs with hm hc
    · exact .unmapped i hm
    · exact .refusedClosed i (by simpa using hm) hc
    · have hm : i.mapped = true := by simpa using hm
      have hc : s.closed = false := by simpa using hc
      unfold liveChannel
      cases hch : s.channel with
      | some c => simpa using Step.held i c hm hc hch
      | none =>
        dsimp only
        by_cases hr : s.canReconnect = false
        · simpa [hr] using Step.noChannel i hm hc hch hr
        · have hr : s.canReconnect = true := by simpa using hr
          by_cases hb : i.start < s.nextReconnectAt
          · simpa [hr, hb] using Step.backoff i hm hc hch hr hb
          · have hb' := not_lt.1 hb
            cases hd : mayDial s i.window with
            | none => simpa [hr, hb] using Step.capped i hm hc hch hr hb' hd
            | some s' =>
              cases ho : i.dial with
              | opened => simpa [hr, hb] using Step.redialed i s' hm hc hch hr hb' hd ho
              | refused | noChannel =>
                have h := Step.dialFails i s' hm hc hch hr hb' hd (by rw [ho]; decide)
                rw [ho] at h
                simpa [hr, hb] using h

/-- The cap, of a sink with a positive interval: the window that holds `now` is entered, and
the dial counted in it. -/
theorem mayDial_eq_some {s s' : Sink} {now : ℚ} (hR : s.reconnectInterval ≠ 0)
    (h : mayDial s now = some s') :
    (s.dialWindowEnds ≤ now ∧
        s' = { s with dialWindowEnds := now + s.reconnectInterval, dialsInWindow := 1 }) ∨
      (now < s.dialWindowEnds ∧ s.dialsInWindow < maxDialsPerInterval ∧
        s' = { s with dialsInWindow := s.dialsInWindow + 1 }) := by
  unfold mayDial at h
  rw [if_neg hR] at h
  dsimp only at h
  by_cases hw : s.dialWindowEnds ≤ now
  · left
    simp only [hw, if_true] at h
    rw [if_neg (by decide)] at h
    exact ⟨hw, (Option.some.inj h).symm⟩
  · right
    simp only [hw, if_false] at h
    split_ifs at h with hcap
    exact ⟨not_le.1 hw, not_le.1 hcap, (Option.some.inj h).symm⟩

theorem mayDial_eq_none {s : Sink} {now : ℚ} :
    mayDial s now = none ↔
      s.reconnectInterval ≠ 0 ∧ now < s.dialWindowEnds ∧
        maxDialsPerInterval ≤ s.dialsInWindow := by
  unfold mayDial
  by_cases hR : s.reconnectInterval = 0
  · simp [hR]
  · rw [if_neg hR]
    by_cases hw : s.dialWindowEnds ≤ now
    · simp [hw, maxDialsPerInterval]
    · have := not_le.1 hw
      by_cases hcap : maxDialsPerInterval ≤ s.dialsInWindow <;> simp [hw, hcap, hR, this]

/-! ### Losing a connection -/

/-- Whether a failed publish arms the back-off: nothing was published on the connection, and
nothing on the one before it. -/
def Sink.Arms (s : Sink) : Prop := s.connectionPublishes = 0 ∧ 0 < s.consecutiveUnproductive

instance (s : Sink) : Decidable s.Arms := inferInstanceAs (Decidable (_ ∧ _))

/-- The sink after a failed publish, the clock reading `now`, when it can dial again. -/
@[simps] def Sink.lost (s : Sink) (now : ℚ) : Sink where
  channel := none
  connection := none
  ownsConnection := s.ownsConnection
  canReconnect := s.canReconnect
  closed := s.closed
  published := s.published
  dropped := s.dropped + 1
  reconnectInterval := s.reconnectInterval
  nextReconnectAt := if s.Arms then now + s.reconnectInterval else s.nextReconnectAt
  connectionPublishes := 0
  consecutiveUnproductive :=
    if s.connectionPublishes = 0 then s.consecutiveUnproductive + 1 else 0
  dialWindowEnds := s.dialWindowEnds
  dialsInWindow := s.dialsInWindow
  backoffMessage := if s.Arms then .awaitingPublishable else s.backoffMessage
  opened := s.opened

/-- The sink after a publish. -/
@[simps!] def Sink.counted (s : Sink) : Sink :=
  { s with published := s.published + 1, connectionPublishes := s.connectionPublishes + 1 }

theorem publish_of_succeeds {s : Sink} {i : Emit} {c : ℕ} (h : i.publishes = true) :
    publish s i c = (s.counted, [.published c]) := by
  rw [publish, if_pos h]
  rfl

theorem publish_of_fails {s : Sink} {i : Emit} {c : ℕ} (hr : s.canReconnect = true)
    (h : i.publishes = false) :
    publish s i c = (s.lost i.afterPublish,
      .publishFailed c :: .discarded c i.afterPublish :: release s i.closeRaises ++
        [.warned .publishFailed]) := by
  simp only [publish, h, invalidate, hr, Bool.false_eq_true, if_false, Bool.true_eq_false,
    List.cons_append]
  by_cases hp : s.connectionPublishes = 0
  · by_cases hc : 0 < s.consecutiveUnproductive <;> simp [hp, hc, hr, Sink.lost, Sink.Arms, release]
  · simp [hp, hr, Sink.lost, Sink.Arms, release]

end Tokenweir.Amqp
