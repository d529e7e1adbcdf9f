import Tokenweir.Amqp.History

/-!
# Who closes which connection

Every way of building a sink, the constructor included, and what becomes of the connections that the
dial closure of `from_url` opens.

* `Arguments`, `construct`, `Build`, `build`;
* `step_counts`, `step_kept`; `Accounts`, every connection is held or was closed once;
* `Owned`, `owned_iff`, `not_owned_interval`.
-/

namespace Tokenweir.Amqp

/-! ### Building a sink -/

/-- What the constructor makes of its arguments before it returns: the properties, as given or as
`pika` builds them, and the two intervals, as `float` reads them. -/
structure Arguments where
  properties : Bool
  reconnectInterval : Option ℚ
  warnInterval : Bool
  deriving DecidableEq

/-- The constructor raises. -/
def Arguments.Refused (a : Arguments) : Prop :=
  a.properties = false ∨ a.reconnectInterval = none ∨ a.warnInterval = false

/-- `AMQPSink.__init__`. -/
def construct (a : Arguments) (channel connection : Option ℕ) (ownsConnection : Bool) :
    Option Sink :=
  if a.properties then
    match a.reconnectInterval with
    | none => none
    | some interval =>
      if a.warnInterval then
        some {
          channel, connection, ownsConnection
          canReconnect := false
          reconnectInterval := max 0 interval
          opened := 0 }
      else none
  else none

/-- The ways of building a sink: with a channel, and perhaps the connection behind it, or from an
URL. -/
inductive Build
  | supplied (channel connection : Option ℕ) (ownsConnection : Bool)
  | fromUrl (dial : DialOutcome)
  deriving DecidableEq

/-- The sink, unless an exception is raised, and what has happened outside. -/
def build (a : Arguments) : Build → Option Sink × List Event
  | .supplied channel connection ownsConnection =>
    (construct a channel connection ownsConnection, [])
  | .fromUrl .opened =>
    ((construct a (some 0) (some 0) true).map fun s => { s with canReconnect := true, opened := 1 },
      [.opened 0])
  | .fromUrl .refused => (none, [])
  | .fromUrl .noChannel => (none, [.opened 0, .connClosed 0])

theorem construct_eq_none {a : Arguments} {channel connection : Option ℕ} {ownsConnection : Bool} :
    construct a channel connection ownsConnection = none ↔ a.Refused := by
  obtain ⟨properties, reconnectInterval, warnInterval⟩ := a
  cases properties <;> cases reconnectInterval <;> cases warnInterval <;>
    simp [construct, Arguments.Refused]

/-- `from_url` that returns. -/
theorem build_fromUrl {a : Arguments} {s : Sink} {es : List Event} {dial : DialOutcome}
    (h : build a (.fromUrl dial) = (some s, es)) :
    ∃ interval, s = fromUrl interval ∧ es = [.opened 0] := by
  cases dial with
  | refused => cases h
  | noChannel => cases h
  | opened =>
    obtain ⟨properties, reconnectInterval, warnInterval⟩ := a
    obtain ⟨hs, rfl⟩ := Prod.mk.inj h
    obtain ⟨s', hs', rfl⟩ := Option.map_eq_some_iff.1 hs
    unfold construct at hs'
    dsimp only at hs'
    split at hs'
    · split at hs'
      · cases hs'
      · rename_i interval
        split at hs'
        · obtain rfl := Option.some.inj hs'
          exact ⟨interval, rfl, rfl⟩
        · cases hs'
    · cases hs'

/-- The constructor that returns. -/
theorem build_supplied {a : Arguments} {s : Sink} {es : List Event}
    {channel connection : Option ℕ} {ownsConnection : Bool}
    (h : build a (.supplied channel connection ownsConnection) = (some s, es)) :
    s.canReconnect = false ∧ s.published = 0 ∧ s.dropped = 0 ∧ es = [] := by
  obtain ⟨hs, rfl⟩ := Prod.mk.inj h
  unfold construct at hs
  split at hs
  · split at hs
    · cases hs
    · split at hs
      · obtain rfl := Option.some.inj hs
        exact ⟨rfl, rfl, rfl, rfl⟩
      · cases hs
  · cases hs

/-! ### Every call is counted -/

/-- A call of `emit`. -/
def Input.isEmit : Input → Bool
  | .emit _ => true
  | .close _ => false

/-- The number of calls of `emit`. -/
def emits (is : List Input) : ℕ := is.countP Input.isEmit

/-- A publish that fails on a channel that cannot be made again. -/
theorem publish_of_kept {s : Sink} {i : Emit} {c : ℕ} (hr : s.canReconnect = false)
    (h : i.publishes = false) :
    publish s i c = (s.drop, [.publishFailed c, .warned .publishFailed]) := by
  simp [publish, h, invalidate, hr, Sink.drop]

/-- A record that reaches a channel is published or dropped. -/
theorem publish_counts (s : Sink) (i : Emit) (c : ℕ) :
    (publish s i c).1.published + (publish s i c).1.dropped = s.published + s.dropped + 1 := by
  cases hp : i.publishes with
  | true =>
    rw [publish_of_succeeds hp]
    show s.published + 1 + s.dropped = _
    omega
  | false =>
    cases hr : s.canReconnect with
    | true =>
      rw [publish_of_fails hr hp]
      rfl
    | false =>
      rw [publish_of_kept hr hp]
      rfl

/-- **A call** counts its record once, and no other one. -/
theorem step_counts (s : Sink) (i : Input) :
    (step s i).1.published + (step s i).1.dropped =
      s.published + s.dropped + i.isEmit.toNat := by
  have hcall := step_cases s i
  generalize (step s i).1 = t, (step s i).2 = es at hcall ⊢
  cases hcall with
  | unmapped | refusedClosed | noChannel | backoff | capped => rfl
  | held i c => exact publish_counts s i c
  | dialFails i s' hm hc hch hr hb hd ho =>
    obtain ⟨ends, dials, rfl⟩ := mayDial_frame hd
    cases hdial : i.dial with
    | opened => exact absurd hdial ho
    | refused | noChannel => rfl
  | redialed i s' hm hc hch hr hb hd ho =>
    obtain ⟨ends, dials, rfl⟩ := mayDial_frame hd
    exact publish_counts _ i _
  | close closeRaises =>
    unfold close
    split <;> rfl

theorem run_counts {s t : Sink} {is : List Input} {es : List Event}
    (h : sink.run s is = some (t, es)) :
    t.published + t.dropped = s.published + s.dropped + emits is := by
  refine Machine.run_induction (M := sink)
    (I := fun is _ t => t.published + t.dropped = s.published + s.dropped + emits is)
    rfl (fun is es t i v fs ih hstep => ?_) h
  obtain ⟨rfl, rfl⟩ : (step t i).1 = v ∧ (step t i).2 = fs := by
    simpa [sink, Prod.ext_iff] using hstep
  rw [step_counts, ih, emits, emits, List.countP_append, List.countP_singleton]
  cases i.isEmit <;> simp [Nat.add_assoc]

/-! ### A channel that cannot be made again -/

/-- The sink that cannot dial leaves its channel and its connection as they are. -/
theorem step_kept {s : Sink} (hr : s.canReconnect = false) (i : Emit) :
    (step s (.emit i)).1.channel = s.channel ∧ (step s (.emit i)).1.connection = s.connection ∧
      (step s (.emit i)).1.canReconnect = false ∧
      ∀ e ∈ (step s (.emit i)).2, ∀ c, e ≠ .connClosed c ∧ e ≠ .opened c := by
  have hcall := step_cases s (.emit i)
  generalize (step s (.emit i)).1 = t, (step s (.emit i)).2 = es at hcall ⊢
  cases hcall with
  | unmapped | refusedClosed | noChannel => exact ⟨rfl, rfl, hr, by simp⟩
  | held i c hm hc hch =>
    cases hp : i.publishes with
    | true =>
      rw [publish_of_succeeds hp]
      exact ⟨rfl, rfl, hr, by simp⟩
    | false =>
      rw [publish_of_kept hr hp]
      exact ⟨rfl, rfl, hr, by simp⟩
  | backoff _ hm hc hch hr' => exact absurd (hr.symm.trans hr') Bool.false_ne_true
  | capped _ hm hc hch hr' => exact absurd (hr.symm.trans hr') Bool.false_ne_true
  | dialFails _ s' hm hc hch hr' => exact absurd (hr.symm.trans hr') Bool.false_ne_true
  | redialed _ s' hm hc hch hr' => exact absurd (hr.symm.trans hr') Bool.false_ne_true

/-! ### Connections -/

/-- Every connection was opened once, and is held, or its close was called once. -/
def Accounts (s : Sink) (es : List Event) : Prop :=
  ∀ c, es.count (.opened c) = (if c < s.opened then 1 else 0) ∧
    es.count (.connClosed c) + (if s.connection = some c ∧ s.closed = false then 1 else 0) =
      if c < s.opened then 1 else 0

/-- A sink of `from_url` between two calls, with all that has happened. -/
structure Holds (s : Sink) (es : List Event) : Prop where
  canReconnect : s.canReconnect = true
  ownsConnection : s.ownsConnection = true
  channel : s.channel = s.connection
  accounts : Accounts s es

theorem holds_fromUrl (interval : ℚ) : Holds (fromUrl interval) [.opened 0] := by
  refine ⟨rfl, rfl, rfl, fun c => ?_⟩
  cases c <;> simp [fromUrl]

/-- What a call adds: the connections that it opens, and the closes of those that are held no
more. -/
theorem Accounts.append {s t : Sink} {es fs : List Event} (h : Accounts s es)
    (hle : s.opened ≤ t.opened)
    (hopened : ∀ c, fs.count (.opened c) = if s.opened ≤ c ∧ c < t.opened then 1 else 0)
    (hclosed : ∀ c, fs.count (.connClosed c) +
        (if t.connection = some c ∧ t.closed = false then 1 else 0) =
      (if s.connection = some c ∧ s.closed = false then 1 else 0) +
        if s.opened ≤ c ∧ c < t.opened then 1 else 0) : Accounts t (es ++ fs) := by
  intro c
  obtain ⟨ho, hc⟩ := h c
  specialize hopened c
  specialize hclosed c
  rw [List.count_append, List.count_append]
  have hsplit : (if c < t.opened then 1 else 0) =
      (if c < s.opened then 1 else 0) + if s.opened ≤ c ∧ c < t.opened then 1 else 0 := by
    split_ifs <;> omega
  constructor
  · rw [ho, hopened, hsplit]
  · omega

/-- What opens no connection and leaves the one that is held. -/
theorem Accounts.quiet {s t : Sink} {es fs : List Event} (h : Accounts s es)
    (hopened : t.opened = s.opened) (hconnection : t.connection = s.connection)
    (hclosed : t.closed = s.closed) (hfs : ∀ e ∈ fs, ∀ c, e ≠ .connClosed c ∧ e ≠ .opened c) :
    Accounts t (es ++ fs) := by
  refine h.append hopened.ge (fun c => ?_) fun c => ?_
  · rw [List.count_eq_zero.2 fun hmem => (hfs _ hmem c).2 rfl, if_neg (by omega)]
  · rw [List.count_eq_zero.2 fun hmem => (hfs _ hmem c).1 rfl, hconnection, hclosed, if_neg (c := _ ∧ c < _)
      (by omega)]
    omega

/-- `_release` of a connection that is held. -/
theorem count_release {s : Sink} {c : ℕ} (ho : s.ownsConnection = true)
    (hc : s.connection = some c) (closeRaises : Bool) (d : ℕ) :
    (release s closeRaises).count (.opened d) = 0 ∧
      (release s closeRaises).count (.connClosed d) = if c = d then 1 else 0 := by
  rw [release, ho, hc]
  cases closeRaises <;> simp [List.count_cons]

/-- A publish on the connection that is held. -/
theorem Holds.publish {s : Sink} {es : List Event} {i : Emit} {c : ℕ} (h : Holds s es)
    (hc : s.closed = false) (hch : s.channel = some c) :
    Holds (publish s i c).1 (es ++ (publish s i c).2) := by
  have hconnection : s.connection = some c := h.channel.symm.trans hch
  cases hp : i.publishes with
  | true =>
    rw [publish_of_succeeds hp]
    exact ⟨h.canReconnect, h.ownsConnection, h.channel, h.accounts.quiet rfl rfl rfl (by simp)⟩
  | false =>
    rw [publish_of_fails h.canReconnect hp]
    have hrelease := count_release h.ownsConnection hconnection i.closeRaises
    refine ⟨h.canReconnect, h.ownsConnection, rfl, h.accounts.append le_rfl (fun d => ?_) fun d => ?_⟩
    · rw [if_neg (by simp)]
      simp [(hrelease d).1]
    · simp [(hrelease d).2, hconnection, hc]

/-- A dial that does not open a channel closes the connection that it opened. -/
theorem Holds.dialFails {s s' : Sink} {es : List Event} {i : Emit} (h : Holds s es)
    (hch : s.channel = none) (hd : mayDial s i.window = some s') (ho : i.dial ≠ .opened) :
    Holds (Sink.drop { (connect s' i.dial).1 with
        nextReconnectAt := i.afterDial + s'.reconnectInterval
        backoffMessage := .awaitingRedial })
      (es ++ (.dialed i.window :: (connect s' i.dial).2 ++
        [.dialFailed i.afterDial, .warned .reconnectFailed])) := by
  obtain ⟨ends, dials, rfl⟩ := mayDial_frame hd
  cases hdial : i.dial with
  | opened => exact absurd hdial ho
  | refused =>
    exact ⟨h.canReconnect, h.ownsConnection, h.channel, h.accounts.quiet rfl rfl rfl (by simp [connect])⟩
  | noChannel =>
    refine ⟨h.canReconnect, h.ownsConnection, h.channel,
      h.accounts.append (Nat.le_succ _) (fun d => ?_) fun d => ?_⟩
    · simp [connect, Sink.drop, List.count_cons, ← le_antisymm_iff]
    · have hnone : s.connection = none := h.channel.symm.trans hch
      simp [connect, Sink.drop, List.count_cons, ← le_antisymm_iff, hnone]

/-- A dial that opens a channel. -/
theorem Holds.connected {s : Sink} {es : List Event} {now : ℚ} (h : Holds s es)
    (hc : s.closed = false) (hch : s.channel = none) (ends : ℚ) (dials : ℕ) :
    Holds (s.inWindow ends dials).connected (es ++ [.dialed now, .opened s.opened]) := by
  have hnone : s.connection = none := h.channel.symm.trans hch
  refine ⟨h.canReconnect, h.ownsConnection, rfl,
    h.accounts.append (Nat.le_succ _) (fun d => ?_) fun d => ?_⟩
  · simp [List.count_cons, ← le_antisymm_iff]
  · simp [← le_antisymm_iff, hnone, hc]

/-- **A call** keeps the account of the connections. -/
theorem Holds.step {s : Sink} {es : List Event} (h : Holds s es) (i : Input) :
    Holds (step s i).1 (es ++ (step s i).2) := by
  have hcall := step_cases s i
  generalize (Amqp.step s i).1 = t, (Amqp.step s i).2 = fs at hcall ⊢
  have hdrop : ∀ w, Holds s.drop (es ++ [.warned w]) := fun w =>
    ⟨h.canReconnect, h.ownsConnection, h.channel, h.accounts.quiet rfl rfl rfl (by simp)⟩
  cases hcall with
  | unmapped | refusedClosed | noChannel | backoff | capped => exact hdrop _
  | held i c hm hc hch => exact h.publish hc hch
  | dialFails i s' hm hc hch hr hb hd ho => exact h.dialFails hch hd ho
  | redialed i s' hm hc hch hr hb hd ho =>
    obtain ⟨ends, dials, rfl⟩ := mayDial_frame hd
    have hconnected : Holds (s.inWindow ends dials).connected
        (es ++ [.dialed i.window, .opened s.opened]) := h.connected hc hch ends dials
    have hpublish := hconnected.publish (i := i) hc rfl
    rw [List.append_assoc] at hpublish
    exact hpublish
  | close closeRaises =>
    unfold close
    split
    · rw [List.append_nil]
      exact h
    · rename_i hopen
      have hc : s.closed = false := Bool.eq_false_iff.2 hopen
      refine ⟨h.canReconnect, h.ownsConnection, h.channel, ?_⟩
      cases hconnection : s.connection with
      | none =>
        refine h.accounts.append le_rfl (fun d => ?_) fun d => ?_
        · simp [release, hconnection]
        · simp [release, hconnection]
      | some c =>
        have hrelease := count_release h.ownsConnection hconnection closeRaises
        refine h.accounts.append le_rfl (fun d => ?_) fun d => ?_
        · rw [(hrelease d).1, if_neg (by simp)]
        · simp [(hrelease d).2, hconnection, hc]

theorem holds_of_run {s t : Sink} {es₀ es : List Event} {is : List Input} (h : Holds s es₀)
    (hrun : sink.run s is = some (t, es)) : Holds t (es₀ ++ es) := by
  refine Machine.run_induction (M := sink) (I := fun _ es t => Holds t (es₀ ++ es))
    (by rwa [List.append_nil]) (fun is es t i v fs ih hstep => ?_) hrun
  obtain ⟨rfl, rfl⟩ : (Amqp.step t i).1 = v ∧ (Amqp.step t i).2 = fs := by
    simpa [sink, Prod.ext_iff] using hstep
  rw [← List.append_assoc]
  exact ih.step i

/-! ### The whole life of a sink -/

/-- What the sink of a build, and `from_url` where it raises, answer for. -/
structure Owned (a : Arguments) (b : Build) : Prop where
  /-- Every call of `emit` is counted. -/
  counted : ∀ s es₀, build a b = (some s, es₀) → ∀ is t es, sink.run s is = some (t, es) →
    t.published + t.dropped = emits is
  /-- What is no record, or comes after `close`, is a drop and nothing else. -/
  refused : ∀ s es₀, build a b = (some s, es₀) → ∀ is t es, sink.run s is = some (t, es) →
    ∀ i : Emit, i.mapped = false ∨ t.closed = true →
      ∃ w, step t (.emit i) = (t.drop, [.warned w])
  /-- A channel that the sink cannot make again stays as it is. -/
  kept : ∀ s es₀, build a b = (some s, es₀) → ∀ is t es, sink.run s is = some (t, es) →
    t.canReconnect = false → ∀ i : Emit,
      (step t (.emit i)).1.channel = t.channel ∧ (step t (.emit i)).1.connection = t.connection ∧
        ∀ c, Event.connClosed c ∉ (step t (.emit i)).2
  /-- A connection that was dialed is the one that the sink holds, not closed, or its close was
  called once. -/
  held : ∀ s es₀, build a b = (some s, es₀) → ∀ is t es, sink.run s is = some (t, es) →
    ∀ c, Event.opened c ∈ es₀ ++ es → (es₀ ++ es).count (.opened c) = 1 ∧
      ((es₀ ++ es).count (.connClosed c) = 1 ∨
        t.connection = some c ∧ (es₀ ++ es).count (.connClosed c) = 0)
  /-- And where `from_url` raises, its close was called once. -/
  raised : ∀ es₀, build a b = (none, es₀) → ∀ c, Event.opened c ∈ es₀ →
    es₀.count (.connClosed c) = 1

/-- What is refused before the channel is looked at. -/
theorem emit_refused {t : Sink} {i : Emit} (h : i.mapped = false ∨ t.closed = true) :
    ∃ w, step t (.emit i) = (t.drop, [.warned w]) := by
  show ∃ w, emit t i = _
  unfold emit
  by_cases hm : i.mapped = false
  · rw [if_pos hm]
    exact ⟨_, rfl⟩
  · rw [if_neg hm, if_pos (h.resolve_left hm)]
    exact ⟨_, rfl⟩

/-- A sink that was given its channel never dials. -/
theorem run_kept {s t : Sink} {is : List Input} {es : List Event} (hr : s.canReconnect = false)
    (hrun : sink.run s is = some (t, es)) :
    t.canReconnect = false ∧ ∀ c, Event.opened c ∉ es := by
  refine Machine.run_induction (M := sink)
    (I := fun _ es t => t.canReconnect = false ∧ ∀ c, Event.opened c ∉ es)
    ⟨hr, fun _ => List.not_mem_nil⟩ (fun is es t i v fs ih hstep => ?_) hrun
  obtain ⟨hr, hes⟩ := ih
  obtain ⟨rfl, rfl⟩ : (step t i).1 = v ∧ (step t i).2 = fs := by
    simpa [sink, Prod.ext_iff] using hstep
  have hnext : (step t i).1.canReconnect = false ∧ ∀ c, Event.opened c ∉ (step t i).2 := by
    cases i with
    | emit i =>
      obtain ⟨-, -, hr', hfs⟩ := step_kept hr i
      exact ⟨hr', fun c hmem => (hfs _ hmem c).2 rfl⟩
    | close closeRaises =>
      show (close t closeRaises).1.canReconnect = false ∧ ∀ c, .opened c ∉ (close t closeRaises).2
      unfold close
      split
      · exact ⟨hr, fun _ => List.not_mem_nil⟩
      · exact ⟨hr, fun c hmem => release_quiet t closeRaises _ hmem⟩
  refine ⟨hnext.1, fun c hmem => ?_⟩
  rcases List.mem_append.1 hmem with hmem | hmem
  · exact hes c hmem
  · exact hnext.2 c hmem

/-- What a sink of `from_url` has dialed. -/
theorem Holds.held {t : Sink} {es : List Event} (h : Holds t es) {c : ℕ}
    (hmem : Event.opened c ∈ es) :
    es.count (.opened c) = 1 ∧ (es.count (.connClosed c) = 1 ∨
      t.connection = some c ∧ es.count (.connClosed c) = 0) := by
  obtain ⟨ho, hc⟩ := h.accounts c
  have hpos := List.count_pos_iff.2 hmem
  have hlt : c < t.opened := by
    by_contra hge
    rw [if_neg hge] at ho
    omega
  rw [if_pos hlt] at ho hc
  refine ⟨ho, ?_⟩
  by_cases hheld : t.connection = some c ∧ t.closed = false
  · rw [if_pos hheld] at hc
    exact .inr ⟨hheld.1, by omega⟩
  · rw [if_neg hheld] at hc
    exact .inl hc

/-- **Accounting and ownership**: a sink answers for all that it took and dialed, exactly where the
constructor does not raise after `from_url` has opened its connection. -/
theorem owned_iff (a : Arguments) (b : Build) :
    Owned a b ↔ ¬(b = .fromUrl .opened ∧ a.Refused) := by
  constructor
  · rintro h ⟨rfl, hrefused⟩
    have hbuild : build a (.fromUrl .opened) = (none, [.opened 0]) := by
      rw [build, construct_eq_none.2 hrefused]
      rfl
    exact absurd (h.raised _ hbuild 0 (List.mem_singleton_self _)) (by decide)
  · intro hnot
    refine ⟨fun s es₀ hs is t es hrun => ?_, fun s es₀ hs is t es hrun i hi => emit_refused hi,
      fun s es₀ hs is t es hrun hr i => ?_, fun s es₀ hs is t es hrun c hmem => ?_,
      fun es₀ hs c hmem => ?_⟩
    · have hcounts := run_counts hrun
      cases b with
      | supplied channel connection ownsConnection =>
        obtain ⟨-, hpublished, hdropped, -⟩ := build_supplied hs
        omega
      | fromUrl dial =>
        obtain ⟨interval, rfl, -⟩ := build_fromUrl hs
        rw [hcounts]
        exact Nat.zero_add _
    · obtain ⟨hchannel, hconnection, -, hes⟩ := step_kept hr i
      exact ⟨hchannel, hconnection, fun c hmem => (hes _ hmem c).1 rfl⟩
    · cases b with
      | supplied channel connection ownsConnection =>
        obtain ⟨hr, -, -, rfl⟩ := build_supplied hs
        exact absurd hmem ((run_kept hr hrun).2 c)
      | fromUrl dial =>
        obtain ⟨interval, rfl, rfl⟩ := build_fromUrl hs
        exact (holds_of_run (holds_fromUrl interval) hrun).held hmem
    · cases b with
      | supplied channel connection ownsConnection =>
        obtain ⟨-, rfl⟩ := Prod.mk.inj hs
        cases hmem
      | fromUrl dial =>
        cases dial with
        | opened =>
          obtain ⟨hnone, -⟩ := Prod.mk.inj hs
          exact absurd ⟨rfl, construct_eq_none.1 (Option.map_eq_none_iff.1 hnone)⟩ hnot
        | refused =>
          obtain ⟨-, rfl⟩ := Prod.mk.inj hs
          cases hmem
        | noChannel =>
          obtain ⟨-, rfl⟩ := Prod.mk.inj hs
          obtain rfl : c = 0 := by simpa using hmem
          rfl

/-- An interval that is no number: the connection that was opened for the sink stays open. -/
theorem not_owned_interval : ¬Owned ⟨true, none, true⟩ (.fromUrl .opened) := by
  intro h
  exact absurd (h.raised _ rfl 0 (List.mem_singleton_self _)) (by decide)

end Tokenweir.Amqp
