import Mathlib.Data.List.AList
import Mathlib.Tactic
import Tokenweir.Lib.Machine
import Tokenweir.Lib.Suppression
import Tokenweir.Lib.Text

/-!
# The rate-limited warner

The model of `tokenweir._ratelimit`: calls of `warn` from any threads, each of which reads the
clock, then passes the lock, and then logs, or has been counted instead. The clock and the logger
do not raise; readings and the interval are exact numbers, not floats that a sum rounds.

* `Config`, `Call`, `Line`, `State`, `Action`, `Event`, `step`; `warner`, the machine;
* `Refines`, each key has a gate of its own; `run_refines`;
* `Honest`; `warnings`.
-/

namespace Tokenweir.Ratelimit

/-! ### The model -/

/-- What a warner is built with; the interval is not negative. -/
structure Config where
  interval : ℚ
  /-- `format(x, "g")`. -/
  general : ℚ → Text
  nonneg : 0 ≤ interval

/-- `RateLimitedWarner.__init__`. -/
def init (interval : ℚ) (general : ℚ → Text) : Config :=
  ⟨max 0 interval, general, le_max_left 0 interval⟩

/-- A call of `warn` that has read the clock. -/
structure Call where
  message : Text
  bucket : Text
  excInfo : Bool
  now : ℚ
  deriving DecidableEq

/-- What a call logs, with how many were suppressed before it. -/
structure Line where
  call : Call
  suppressed : ℕ
  deriving DecidableEq

/-- The text of a line. -/
def Line.text (cfg : Config) (l : Line) : Text :=
  if l.suppressed = 0 then l.call.message
  else
    l.call.message ++ Text.of " [" ++ Text.decimal l.suppressed ++
      Text.of " further occurrence(s) suppressed in the last " ++ cfg.general cfg.interval ++
      Text.of "s]"

/-- The place of a call. -/
inductive Place
  /-- In front of the lock. -/
  | waiting (c : Call)
  /-- Behind the lock, to be logged. -/
  | logging (l : Line)
  | returned
  deriving DecidableEq

structure State where
  nextAllowed : AList fun _ : Text => ℚ
  suppressed : AList fun _ : Text => ℕ
  /-- The calls, each known by its place in the list. -/
  calls : List Place

inductive Action
  /-- `warn` is called, and reads the clock. -/
  | warn (message : Text) (key : Option Text) (excInfo : Bool) (now : ℚ)
  /-- A call takes the lock and gives it back. -/
  | enter (i : ℕ)
  /-- A call logs its line. -/
  | log (i : ℕ)

inductive Event
  | called (c : Call)
  /-- A call passed the lock: with the number of those suppressed before it, if it logs. -/
  | entered (c : Call) (suppressed : Option ℕ)
  | logged (l : Line) (text : Text)

/-- `RateLimitedWarner.suppressed`. -/
def suppressed (s : State) : Option Text → ℕ
  | none => (s.suppressed.entries.map fun e => e.2).sum
  | some key => (s.suppressed.lookup key).getD 0

/-- What is under the lock. -/
def enter (cfg : Config) (s : State) (c : Call) : Option ℕ × State :=
  if (s.nextAllowed.lookup c.bucket).any fun nextAllowed => c.now < nextAllowed then
    (none, { s with
      suppressed := s.suppressed.insert c.bucket (suppressed s (some c.bucket) + 1) })
  else
    (some (suppressed s (some c.bucket)), { s with
      suppressed := s.suppressed.erase c.bucket
      nextAllowed :=
        if cfg.interval = 0 then s.nextAllowed
        else s.nextAllowed.insert c.bucket (c.now + cfg.interval) })

/-- The place of a call that has passed the lock. -/
def afterLock (c : Call) : Option ℕ → Place
  | none => .returned
  | some n => .logging ⟨c, n⟩

def step (cfg : Config) (s : State) : Action → Option (State × List Event)
  | .warn message key excInfo now =>
    let c : Call := ⟨message, key.getD message, excInfo, now⟩
    some ({ s with calls := s.calls ++ [.waiting c] }, [.called c])
  | .enter i =>
    match s.calls[i]? with
    | some (.waiting c) =>
      let (o, t) := enter cfg s c
      some ({ t with calls := s.calls.set i (afterLock c o) }, [.entered c o])
    | _ => none
  | .log i =>
    match s.calls[i]? with
    | some (.logging l) =>
      some ({ s with calls := s.calls.set i .returned }, [.logged l (l.text cfg)])
    | _ => none

/-- The warner, over any number of calls. -/
def warner (cfg : Config) : Machine State Action Event := ⟨step cfg⟩

/-- No call was made. -/
def State.init : State := ⟨∅, ∅, []⟩

/-- A step of the warner. -/
inductive Step (cfg : Config) (s : State) : Action → State → List Event → Prop
  | warn (message : Text) (key : Option Text) (excInfo : Bool) (now : ℚ) (c : Call)
      (hc : c = ⟨message, key.getD message, excInfo, now⟩) :
      Step cfg s (.warn message key excInfo now) { s with calls := s.calls ++ [.waiting c] }
        [.called c]
  | enter (i : ℕ) (c : Call) (hi : s.calls[i]? = some (.waiting c)) :
      Step cfg s (.enter i)
        { (enter cfg s c).2 with calls := s.calls.set i (afterLock c (enter cfg s c).1) }
        [.entered c (enter cfg s c).1]
  | log (i : ℕ) (l : Line) (hi : s.calls[i]? = some (.logging l)) :
      Step cfg s (.log i) { s with calls := s.calls.set i .returned } [.logged l (l.text cfg)]

variable {cfg : Config} {s t : State} {a : Action} {es e : List Event} {k : Text}

/-- What a step can do. -/
theorem step_cases (h : step cfg s a = some (t, e)) : Step cfg s a t e := by
  cases a with
  | warn message key excInfo now =>
    cases h
    exact .warn message key excInfo now _ rfl
  | enter i =>
    simp only [step] at h
    split at h
    · rename_i c hi
      cases h
      exact .enter i c hi
    · cases h
  | log i =>
    simp only [step] at h
    split at h
    · rename_i l hi
      cases h
      exact .log i l hi
    · cases h

/-! ### One key -/

/-- The gate of a key. -/
def gate (s : State) (k : Text) : Gate ℚ := ⟨s.nextAllowed.lookup k, suppressed s (some k)⟩

/-- The calls of a key. -/
def calledOf (k : Text) (es : List Event) : List Call :=
  es.filterMap fun
    | .called c => if c.bucket = k then some c else none
    | _ => none

/-- The calls of a key that passed the lock, in the order in which they did, with outcomes. -/
def enteredOf (k : Text) (es : List Event) : List (Call × Option ℕ) :=
  es.filterMap fun
    | .entered c o => if c.bucket = k then some (c, o) else none
    | _ => none

/-- The lines of a key, in the order in which their calls passed the lock. -/
def linesOf (k : Text) (es : List Event) : List Line :=
  (enteredOf k es).filterMap fun p => p.2.map fun n => ⟨p.1, n⟩

/-- The lines of a key that were logged. -/
def loggedOf (k : Text) (es : List Event) : List Line :=
  es.filterMap fun
    | .logged l _ => if l.call.bucket = k then some l else none
    | _ => none

/-- The outcomes of a key are those of a gate of its own. -/
def Refines (cfg : Config) (k : Text) (es : List Event) (s : State) : Prop :=
  Gate.account cfg.interval ((enteredOf k es).map fun p => p.1.now) =
    ((enteredOf k es).map fun p => (p.1.now, p.2), gate s k)

/-- The lock does with the gate of a call's key what the gate does with the call. -/
theorem gate_enter_self (c : Call) : (gate s c.bucket).call cfg.interval c.now =
    ((enter cfg s c).1, gate (enter cfg s c).2 c.bucket) := by
  unfold enter Gate.call
  have hclosed : (gate s c.bucket).closed c.now =
      (s.nextAllowed.lookup c.bucket).any fun t => decide (c.now < t) := rfl
  rw [hclosed]
  split
  · simp [gate, suppressed]
  · by_cases hzero : cfg.interval = 0 <;> simp [gate, suppressed, hzero]

/-- The gates of the other keys stay as they are. -/
theorem gate_enter_of_ne {c : Call} (hk : k ≠ c.bucket) : gate (enter cfg s c).2 k = gate s k := by
  unfold enter
  split
  · simp [gate, suppressed, hk]
  · by_cases hzero : cfg.interval = 0 <;> simp [gate, suppressed, hk, hzero]

theorem enteredOf_append (es e : List Event) :
    enteredOf k (es ++ e) = enteredOf k es ++ enteredOf k e :=
  List.filterMap_append ..

theorem step_refines (h : Refines cfg k es s) (hstep : Step cfg s a t e) :
    Refines cfg k (es ++ e) t := by
  cases hstep with
  | warn message key excInfo now c hc =>
    have hentered : enteredOf k [Event.called c] = [] := rfl
    rw [Refines, enteredOf_append, hentered, List.append_nil]
    exact h
  | log i l hi =>
    have hentered : enteredOf k [Event.logged l (l.text cfg)] = [] := rfl
    rw [Refines, enteredOf_append, hentered, List.append_nil]
    exact h
  | enter i c hi =>
    by_cases hk : c.bucket = k
    · subst hk
      have hentered : enteredOf c.bucket [Event.entered c (enter cfg s c).1] =
          [(c, (enter cfg s c).1)] := by
        simp [enteredOf]
      rw [Refines, enteredOf_append, hentered, List.map_append, List.map_append,
        List.map_singleton, List.map_singleton, Gate.account_snoc, h, gate_enter_self]
      rfl
    · have hentered : enteredOf k [Event.entered c (enter cfg s c).1] = [] := by
        simp [enteredOf, hk]
      have hgate : gate { (enter cfg s c).2 with
          calls := s.calls.set i (afterLock c (enter cfg s c).1) } k = gate s k :=
        gate_enter_of_ne (Ne.symm hk)
      rw [Refines, enteredOf_append, hentered, List.append_nil, hgate]
      exact h

theorem refines_init : Refines cfg k [] .init := rfl

/-- Each key has a gate of its own. -/
theorem run_refines {as : List Action} (h : (warner cfg).run .init as = some (s, es)) (k : Text) :
    Refines cfg k es s :=
  Machine.run_induction (M := warner cfg) (I := fun _ es s => Refines cfg k es s) refines_init
    (fun _ _ _ _ _ _ ih hstep => step_refines ih (step_cases hstep)) h

/-! ### Calls under way -/

/-- A call of a key in front of the lock. -/
def Place.waits (k : Text) : Place → Option Call
  | .waiting c => if c.bucket = k then some c else none
  | _ => none

/-- A line of a key that is yet to be logged. -/
def Place.logs (k : Text) : Place → Option Line
  | .logging l => if l.call.bucket = k then some l else none
  | _ => none

def waitingOf (k : Text) (s : State) : List Call := s.calls.filterMap (Place.waits k)

def loggingOf (k : Text) (s : State) : List Line := s.calls.filterMap (Place.logs k)

/-- Each call waits or has entered; each line is logged or will be. -/
structure Placed (k : Text) (es : List Event) (s : State) : Prop where
  called : (calledOf k es).Perm (waitingOf k s ++ (enteredOf k es).map Prod.fst)
  logged : (linesOf k es).Perm (loggedOf k es ++ loggingOf k s)

theorem filterMap_cons_toList {α β : Type} (f : α → Option β) (x : α) (xs : List α) :
    (x :: xs).filterMap f = (f x).toList ++ xs.filterMap f := by
  cases hx : f x <;> simp [hx]

/-- One entry of a list changes, and so does what is taken from it. -/
theorem filterMap_set_perm {α β : Type} (f : α → Option β) {xs : List α} {i : ℕ} {x : α}
    (hi : xs[i]? = some x) (y : α) :
    ((f x).toList ++ (xs.set i y).filterMap f).Perm ((f y).toList ++ xs.filterMap f) := by
  obtain ⟨hlt, rfl⟩ := List.getElem?_eq_some_iff.1 hi
  have hset := (List.set_perm_cons_eraseIdx hlt y).filterMap f
  have hget := (List.getElem_cons_eraseIdx_perm hlt).filterMap f
  rw [filterMap_cons_toList] at hset hget
  exact (hset.append_left _).trans
    ((List.perm_append_comm_assoc ..).trans (hget.append_left _))

theorem calledOf_append (es e : List Event) :
    calledOf k (es ++ e) = calledOf k es ++ calledOf k e :=
  List.filterMap_append ..

theorem linesOf_append (es e : List Event) : linesOf k (es ++ e) = linesOf k es ++ linesOf k e := by
  rw [linesOf, enteredOf_append, List.filterMap_append]
  rfl

theorem loggedOf_append (es e : List Event) :
    loggedOf k (es ++ e) = loggedOf k es ++ loggedOf k e :=
  List.filterMap_append ..

/-- The calls of a key that an event says have entered, and its lines. -/
theorem entered_of_bucket (c : Call) (o : Option ℕ) :
    (enteredOf k [.entered c o]).map Prod.fst = (Place.waits k (.waiting c)).toList ∧
      linesOf k [.entered c o] = (Place.logs k (afterLock c o)).toList := by
  unfold linesOf enteredOf Place.waits Place.logs afterLock
  by_cases hk : c.bucket = k <;> cases o <;> simp [hk]

theorem step_placed (h : Placed k es s) (hstep : Step cfg s a t e) : Placed k (es ++ e) t := by
  obtain ⟨hcalled, hlogged⟩ := h
  rw [List.perm_iff_count] at hcalled hlogged
  cases hstep with
  | warn message key excInfo now c hc =>
    have hcall : calledOf k [.called c] = (Place.waits k (.waiting c)).toList := by
      unfold calledOf Place.waits
      by_cases hk : c.bucket = k <;> simp [hk]
    have henter : enteredOf k [.called c] = [] := rfl
    have hlines : linesOf k [.called c] = [] := rfl
    have hlog : loggedOf k [.called c] = [] := rfl
    have hlogs : Place.logs k (.waiting c) = none := rfl
    refine ⟨List.perm_iff_count.2 fun d => ?_, List.perm_iff_count.2 fun l => ?_⟩
    · have hd := hcalled d
      rw [calledOf_append, hcall, enteredOf_append, henter, List.append_nil]
      simp only [waitingOf, List.filterMap_append, filterMap_cons_toList, List.filterMap_nil,
        List.append_nil, List.count_append] at hd ⊢
      omega
    · have hl := hlogged l
      rw [linesOf_append, loggedOf_append, hlines, hlog, List.append_nil, List.append_nil]
      simp only [loggingOf, List.filterMap_append, filterMap_cons_toList, List.filterMap_nil,
        hlogs, Option.toList_none, List.append_nil, List.count_append] at hl ⊢
      omega
  | enter i c hi =>
    obtain ⟨hentered, hlines⟩ := @entered_of_bucket k c (enter cfg s c).1
    have hwaits := filterMap_set_perm (Place.waits k) hi (afterLock c (enter cfg s c).1)
    have hlogs := filterMap_set_perm (Place.logs k) hi (afterLock c (enter cfg s c).1)
    have hnone : Place.waits k (afterLock c (enter cfg s c).1) = none := by
      cases (enter cfg s c).1 <;> rfl
    have hnone' : Place.logs k (.waiting c) = none := rfl
    rw [List.perm_iff_count] at hwaits hlogs
    refine ⟨List.perm_iff_count.2 fun d => ?_, List.perm_iff_count.2 fun l => ?_⟩
    · have hd := hcalled d
      have hw := hwaits d
      have hcall : calledOf k [.entered c (enter cfg s c).1] = [] := rfl
      rw [calledOf_append, hcall, List.append_nil, enteredOf_append, List.map_append, hentered]
      rw [hnone] at hw
      simp only [waitingOf, List.count_append, Option.toList_none, List.count_nil] at hd hw ⊢
      omega
    · have hl := hlogged l
      have hw := hlogs l
      have hlog : loggedOf k [.entered c (enter cfg s c).1] = [] := rfl
      rw [linesOf_append, loggedOf_append, hlog, List.append_nil, hlines]
      rw [hnone'] at hw
      simp only [loggingOf, List.count_append, Option.toList_none, List.count_nil] at hl hw ⊢
      omega
  | log i l hi =>
    have hwaits := filterMap_set_perm (Place.waits k) hi .returned
    have hlogs := filterMap_set_perm (Place.logs k) hi .returned
    have hlog : loggedOf k [.logged l (l.text cfg)] = (Place.logs k (.logging l)).toList := by
      unfold loggedOf Place.logs
      by_cases hk : l.call.bucket = k <;> simp [hk]
    rw [List.perm_iff_count] at hwaits hlogs
    refine ⟨List.perm_iff_count.2 fun d => ?_, List.perm_iff_count.2 fun m => ?_⟩
    · have hd := hcalled d
      have hw := hwaits d
      have hcall : calledOf k [.logged l (l.text cfg)] = [] := rfl
      have henter : enteredOf k [.logged l (l.text cfg)] = [] := rfl
      have hnone : Place.waits k (.logging l) = none := rfl
      have hnone' : Place.waits k .returned = none := rfl
      rw [calledOf_append, enteredOf_append, hcall, henter, List.append_nil, List.append_nil]
      rw [hnone, hnone'] at hw
      simp only [waitingOf, List.count_append, Option.toList_none, List.count_nil] at hd hw ⊢
      omega
    · have hl := hlogged m
      have hw := hlogs m
      have hline : linesOf k [.logged l (l.text cfg)] = [] := rfl
      have hreturned : Place.logs k .returned = none := rfl
      rw [linesOf_append, loggedOf_append, hlog, hline, List.append_nil]
      rw [hreturned] at hw
      simp only [loggingOf, List.count_append, Option.toList_none, List.count_nil] at hl hw ⊢
      omega

theorem placed_init : Placed k [] .init := ⟨.nil, .nil⟩

theorem run_placed {as : List Action} (h : (warner cfg).run .init as = some (s, es)) (k : Text) :
    Placed k es s :=
  Machine.run_induction (M := warner cfg) (I := fun _ es s => Placed k es s) placed_init
    (fun _ _ _ _ _ _ ih hstep => step_placed ih (step_cases hstep)) h

/-! ### Nothing is hidden -/

/-- What the lines of a key say. -/
structure Honest (cfg : Config) (k : Text) (es : List Event) (s : State) : Prop where
  /-- The first call is logged. -/
  first : ∀ p ∈ (enteredOf k es).head?, p.2 = some 0
  /-- The lines are an interval apart, in the order in which their calls passed the lock. -/
  spaced : 0 < cfg.interval →
    (linesOf k es).Pairwise fun l m => l.call.now + cfg.interval ≤ m.call.now
  /-- They are so in the log, in whatever order they got there. -/
  apart : (loggedOf k es).Pairwise fun l m => cfg.interval ≤ |l.call.now - m.call.now|
  /-- Each call has a line, or is counted on one, or is counted now. -/
  conserved : (enteredOf k es).length =
    (linesOf k es).length + ((linesOf k es).map Line.suppressed).sum + suppressed s (some k)
  /-- Without an interval, every call is logged. -/
  every : cfg.interval = 0 → ∀ p ∈ enteredOf k es, p.2 = some 0
  placed : Placed k es s

theorem linesOf_through (k : Text) (es : List Event) :
    Gate.through ((enteredOf k es).map fun p => (p.1.now, p.2)) =
      (linesOf k es).map fun l => (l.call.now, l.suppressed) := by
  rw [Gate.through, linesOf, List.filterMap_map, List.map_filterMap]
  refine List.filterMap_congr fun p _ => ?_
  cases hp : p.2 <;> simp [hp]

/-- Two lines that are an interval apart in one direction are so in both. -/
theorem apart_of_spaced {l m : Line} (h : l.call.now + cfg.interval ≤ m.call.now) :
    cfg.interval ≤ |l.call.now - m.call.now| := by
  rw [abs_sub_comm]
  exact (le_sub_iff_add_le'.2 h).trans (le_abs_self _)

theorem Refines.honest (h : Refines cfg k es s) (hplaced : Placed k es s) :
    Honest cfg k es s := by
  have houtcomes := congrArg Prod.fst h
  have hgate := congrArg Prod.snd h
  have hspaced : 0 < cfg.interval →
      (linesOf k es).Pairwise fun l m => l.call.now + cfg.interval ≤ m.call.now := by
    intro hinterval
    have hpairwise := @Gate.account_pairwise _ _ _ _ ((enteredOf k es).map fun p => p.1.now) _
      hinterval
    rw [houtcomes, linesOf_through, List.pairwise_map] at hpairwise
    exact hpairwise
  refine ⟨?_, hspaced, ?_, ?_, ?_, hplaced⟩
  · intro p hp
    have hhead := @Gate.account_head _ _ _ cfg.interval ((enteredOf k es).map fun p => p.1.now)
    rw [houtcomes, List.head?_map] at hhead
    exact hhead _ (Option.mem_map_of_mem _ hp)
  · have hlines : (linesOf k es).Pairwise fun l m => cfg.interval ≤ |l.call.now - m.call.now| := by
      rcases cfg.nonneg.eq_or_lt with hzero | hinterval
      · exact List.pairwise_of_forall fun l m => by
          rw [← hzero]
          exact abs_nonneg _
      · exact (hspaced hinterval).imp apart_of_spaced
    -- the order in which the lines got into the log does not matter
    have hsymmetric : ∀ {l m : Line}, cfg.interval ≤ |l.call.now - m.call.now| →
        cfg.interval ≤ |m.call.now - l.call.now| := fun {l m} hlm => by
      rwa [abs_sub_comm]
    exact ((hplaced.logged.pairwise_iff hsymmetric).1 hlines).sublist (List.sublist_append_left ..)
  · have hconserved := @Gate.account_conserved _ _ _ cfg.interval
      ((enteredOf k es).map fun p => p.1.now)
    rw [houtcomes, hgate, linesOf_through] at hconserved
    simpa [Function.comp_def, gate] using hconserved
  · intro hzero p hp
    have hevery := @Gate.account_zero _ _ _ ((enteredOf k es).map fun p => p.1.now)
    rw [← hzero, houtcomes] at hevery
    exact hevery _ (List.mem_map_of_mem hp)

/-- No call is under way. -/
def Quiet (s : State) : Prop := ∀ p ∈ s.calls, p = .returned

theorem Placed.of_quiet (h : Placed k es s) (hquiet : Quiet s) :
    (calledOf k es).Perm ((enteredOf k es).map Prod.fst) ∧
      (linesOf k es).Perm (loggedOf k es) := by
  have hwaiting : waitingOf k s = [] := by
    rw [waitingOf, List.filterMap_eq_nil_iff]
    intro p hp
    rw [hquiet p hp]
    rfl
  have hlogging : loggingOf k s = [] := by
    rw [loggingOf, List.filterMap_eq_nil_iff]
    intro p hp
    rw [hquiet p hp]
    rfl
  obtain ⟨hcalled, hlogged⟩ := h
  rw [hwaiting] at hcalled
  rw [hlogging, List.append_nil] at hlogged
  exact ⟨hcalled, hlogged⟩

/-- **Rate-limited warnings hide nothing.** -/
theorem warnings (cfg : Config) (as : List Action) (es : List Event) (s : State)
    (h : (warner cfg).run .init as = some (s, es)) (k : Text) :
    Honest cfg k es s ∧
    (Quiet s → (calledOf k es).length =
      (loggedOf k es).length + ((loggedOf k es).map Line.suppressed).sum + suppressed s (some k)) ∧
    ∀ (as' : List Action) (es' : List Event) (s' : State),
      (warner cfg).run .init as' = some (s', es') →
      (enteredOf k es').map Prod.fst = (enteredOf k es).map Prod.fst →
      linesOf k es' = linesOf k es ∧ suppressed s' (some k) = suppressed s (some k) ∧
        (Quiet s → Quiet s' → (loggedOf k es').Perm (loggedOf k es)) := by
  have hrefines := run_refines h k
  have hplaced := run_placed h k
  have hhonest := hrefines.honest hplaced
  refine ⟨hhonest, fun hquiet => ?_, fun as' es' s' h' hsame => ?_⟩
  · obtain ⟨hcalled, hlogged⟩ := hplaced.of_quiet hquiet
    rw [hcalled.length_eq, List.length_map, hhonest.conserved, hlogged.length_eq,
      (hlogged.map Line.suppressed).sum_eq]
  · have hrefines' := run_refines h' k
    have htimes : (enteredOf k es').map (fun p => p.1.now) =
        (enteredOf k es).map fun p => p.1.now := by
      simpa [Function.comp_def] using congrArg (List.map Call.now) hsame
    have houtcomes : (enteredOf k es').map Prod.snd = (enteredOf k es).map Prod.snd := by
      have haccount := (congrArg Prod.fst hrefines').symm
      rw [htimes, congrArg Prod.fst hrefines] at haccount
      simpa [Function.comp_def] using congrArg (List.map Prod.snd) haccount
    have hentered : enteredOf k es' = enteredOf k es := by
      rw [List.zip_of_prod hsame houtcomes]
      exact (List.zip_of_prod rfl rfl).symm
    have hlines : linesOf k es' = linesOf k es := by rw [linesOf, hentered, linesOf]
    refine ⟨hlines, ?_, fun hquiet hquiet' => ?_⟩
    · rw [Refines, hentered] at hrefines'
      exact congrArg Gate.held (congrArg Prod.snd (hrefines'.symm.trans hrefines))
    · have hlogged := (hplaced.of_quiet hquiet).2
      have hlogged' := ((run_placed h' k).of_quiet hquiet').2
      rw [hlines] at hlogged'
      exact hlogged'.symm.trans hlogged

/-- Three calls from three threads; the one with the earliest reading passes the lock last. -/
def threeCalls : List Action :=
  [.warn (Text.of "dropped") none false 9, .warn (Text.of "dropped") none false 5,
    .warn (Text.of "refused") none true 7, .enter 0, .enter 2, .enter 1, .log 2, .log 0]

/-- Of the two calls of one key, one is logged and one is counted; all three calls are done. -/
theorem warnings_threeCalls : ∃ s es,
    (warner (init 60 fun _ => Text.of "60")).run .init threeCalls = some (s, es) ∧
      Honest (init 60 fun _ => Text.of "60") (Text.of "dropped") es s ∧
      (loggedOf (Text.of "dropped") es).length = 1 ∧ suppressed s (some (Text.of "dropped")) = 1 := by
  have hrun : ((warner (init 60 fun _ => Text.of "60")).run .init threeCalls).map (fun p =>
      ((loggedOf (Text.of "dropped") p.2).length, suppressed p.1 (some (Text.of "dropped")))) =
        some (1, 1) := by
    decide +kernel
  obtain ⟨⟨s, es⟩, hsome, hcounts⟩ := Option.map_eq_some_iff.1 hrun
  obtain ⟨hlogged, hsuppressed⟩ := Prod.mk.inj hcounts
  have hhonest := (warnings (init 60 fun _ => Text.of "60") threeCalls es s hsome
    (Text.of "dropped")).1
  exact ⟨s, es, hsome, hhonest, hlogged, hsuppressed⟩

end Tokenweir.Ratelimit
