import Tokenweir.ClaudeCode.Exactness
import Tokenweir.ClaudeCode.Responses

/-!
# Request ids

A record takes its id from the last response its run has counted, or is given a fresh one. In a
sequential session whose state file can be written, two kept records have different ids, and what
was not kept is built again under the same id.

* `lastMessageId_totals`: the last id of a scan determines its totals;
* `Intact`, `FreshUuids`, the conditions on a session;
* `Kept`, `Run.Traced`, `Identified`, what they preserve;
* `identities`.
-/

namespace Tokenweir.ClaudeCode

/-! ### The last response of a scan -/

/-- More lines leave a scan at its last response, or end at one that was not seen before. -/
theorem foldl_scanLine_last (s : Scan) (ls : List Line) :
    s.seen ⊆ (ls.foldl scanLine s).seen ∧
      ((ls.foldl scanLine s).totals = s.totals ∧
          (ls.foldl scanLine s).lastMessageId = s.lastMessageId ∨
        ∀ k ∈ s.seen, (ls.foldl scanLine s).lastMessageId ≠ some k) := by
  induction ls using List.reverseRecOn with
  | nil => exact ⟨fun _ => id, .inl ⟨rfl, rfl⟩⟩
  | append_singleton ls l ih =>
    obtain ⟨hseen, hlast⟩ := ih
    rw [List.foldl_append, List.foldl_cons, List.foldl_nil]
    rcases scanLine_cases (ls.foldl scanLine s) l with ⟨-, hs⟩ | ⟨_, _, -, -, -, hs⟩ |
      ⟨r, entry, message, -, hnew, hs⟩
    · rw [hs]
      exact ⟨hseen, hlast⟩
    · rw [hs]
      exact ⟨hseen, hlast⟩
    · rw [hs]
      refine ⟨fun k hk => List.mem_append_right _ (hseen hk), .inr fun k hk hid => ?_⟩
      exact hnew k hid (hseen hk)

/-- The last id is that of a message that was seen. -/
theorem carriesId_lastMessageId {ls : List Line} {k : Text}
    (h : (scanLines ls).lastMessageId = some k) : CarriesId ls k := by
  rw [← (scanLines_gathers ls).seen]
  induction ls using List.reverseRecOn with
  | nil => cases h
  | append_singleton ls l ih =>
    rw [scanLines, List.foldl_append, List.foldl_cons, List.foldl_nil] at h ⊢
    rcases scanLine_cases (ls.foldl scanLine {}) l with ⟨-, hs⟩ | ⟨_, _, -, -, -, hs⟩ |
      ⟨r, entry, message, -, -, hs⟩
    · rw [hs] at h ⊢
      exact ih h
    · rw [hs] at h ⊢
      exact ih h
    · rw [hs] at h ⊢
      exact List.mem_append_left _ (Option.mem_toList.2 h)

/-- **The last id determines the totals**, over all that is read of one transcript. -/
theorem lastMessageId_totals {file ls ms : List Line} {k : Text} (hls : ls <+: file)
    (hms : ms <+: file) (hl : (scanLines ls).lastMessageId = some k)
    (hm : (scanLines ms).lastMessageId = some k) : totals ls = totals ms := by
  have hlonger : ∀ {ls ms : List Line}, ls <+: ms → (scanLines ls).lastMessageId = some k →
      (scanLines ms).lastMessageId = some k → totals ls = totals ms := by
    rintro ls _ ⟨rest, rfl⟩ hl hm
    rw [scanLines, List.foldl_append] at hm
    have hmem : k ∈ (scanLines ls).seen :=
      ((scanLines_gathers ls).seen k).2 (carriesId_lastMessageId hl)
    rcases (foldl_scanLine_last (scanLines ls) rest).2 with ⟨hsame, -⟩ | hnew
    · rw [totals, totals, ← hsame, scanLines, scanLines, List.foldl_append]
    · exact absurd hm (hnew k hmem)
  rcases List.prefix_or_prefix_of_prefix hls hms with h | h
  · exact hlonger h hl hm
  · exact (hlonger h hm hl).symm

/-! ### The id of a record -/

section RequestId

variable {scan : ScanResult}

theorem requestId_of_some {env : Environment} {delta : TokenTotals} {k : Text}
    (h : scan.lastMessageId = some k) :
    (buildFields env delta scan).requestId = k := by
  rw [buildFields, h]

theorem requestId_of_none (env : Environment) (delta : TokenTotals)
    (h : scan.lastMessageId = none) :
    Text.of ":" ++ env.uuid <:+ (buildFields env delta scan).requestId := by
  rw [buildFields, h]
  cases env.sessionId with
  | none => exact ⟨Text.of "claude-code", rfl⟩
  | some sessionId => exact ⟨sessionId, (List.append_assoc _ _ _).symm⟩

end RequestId

/-! ### The conditions on a session -/

/-- A run that has decided about its record. -/
def Run.decided : Run → Bool
  | .writing _ _ | .returned _ => true
  | _ => false

/-- The state file can be written, and a run is cut short only before it decides about its
record. -/
def Intact (w : World) : Action → Prop
  | .kill i => w.runs[i]?.all (fun p => !p.decided) = true
  | .write _ _ _ ok => ok = true
  | _ => True

instance (w : World) : ∀ a, Decidable (Intact w a)
  | .kill i => inferInstanceAs (Decidable (w.runs[i]?.all (fun p => !p.decided) = true))
  | .write _ _ _ ok => inferInstanceAs (Decidable (ok = true))
  | .grow _ | .start _ | .scan _ _ | .readBaseline _ | .connect _ _ _ _ | .emit _ | .client _ _
  | .sinkReturns _ _ | .readStats _ | .decide _ => .isTrue trivial

/-- The environment that a step starts a run in. -/
def Action.environment : Action → Option Environment
  | .start env => some env
  | _ => none

/-- The environments of the runs, in their order. -/
def environments (as : List Action) : List Environment := as.filterMap Action.environment

/-- The values of `uuid4().hex` have 32 characters, all differ, and stand at the end of no message
id of the transcript. -/
structure FreshUuids (as : List Action) (file : List Line) : Prop where
  length : ∀ env ∈ environments as, env.uuid.length = 32
  distinct : ((environments as).map Environment.uuid).Nodup
  unseen : ∀ env ∈ environments as, ∀ k, CarriesId file k → ¬Text.of ":" ++ env.uuid <:+ k

/-! ### The invariant -/

/-- The delivery of a run that has decided to keep its record; `wrote` says that the run has
replaced the state file. -/
def Run.Keeps (wrote : Prop) (d : Delivery) : Run → Prop
  | .writing _ (some d') => d' = d
  | .returned (some d') => wrote ∧ d' = d
  | _ => False

/-- Run `i` has kept its record. -/
def Kept (evs : List Event) (w : World) (i : ℕ) (d : Delivery) : Prop :=
  ∃ p : Run, w.runs[i]? = some p ∧ p.Keeps (i ∈ writers evs) d

/-- A scan of a part of the transcript; of the whole file, if the run is seen to have read it. -/
structure ScanOf (file : List Line) (seen : List Line → Prop) (scan : ScanResult) : Prop where
  part : ∃ ls, ls <+: file ∧ scan.totals = totals ls ∧
    scan.lastMessageId = (scanLines ls).lastMessageId
  whole : ∀ f, seen f → scan = scanTranscript f .whole

/-- What a run emitted; unless a later run, or the run itself, has replaced the state file, it is
what the scan exceeds the baseline `B` by. -/
def Delivery.Emitted (file : List Line) (seen : List Line → Prop) (env : Environment)
    (B : TokenTotals) (unwritten : Prop) (d : Delivery) : Prop :=
  ∃ delta, delta ≠ 0 ∧ ScanOf file seen d.scan ∧
    d.record = buildRecord (buildFields env delta d.scan) ∧
    (unwritten → B + delta = d.scan.totals)

/-- What holds at each place of a run. -/
def Run.Traced (file : List Line) (seen : List Line → Prop) (env : Environment) (B : TokenTotals)
    (unwritten : Prop) : Run → Prop
  | .started env' => env' = env ∧ ∀ f, ¬seen f
  | .scanned env' scan => env' = env ∧ ScanOf file seen scan
  | .reporting env' scan b delta =>
    env' = env ∧ ScanOf file seen scan ∧ delta ≠ 0 ∧ b + delta = scan.totals
  | .connected env' delta d =>
    env' = env ∧ ScanOf file seen d.scan ∧ delta ≠ 0 ∧ d.record = none ∧
      (unwritten → B + delta = d.scan.totals)
  | .closing d | .counted d _ | .writing _ (some d) | .returned (some d) =>
    d.Emitted file seen env B unwritten
  | _ => True

/-- Two kept records are of scans with different totals. -/
structure Identified (envs : List Environment) (evs : List Event) (w : World) : Prop where
  length : envs.length = w.runs.length
  last : ∀ (i : ℕ) (p : Run), w.runs[i]? = some p → p.live = true → i + 1 = w.runs.length
  traced : ∀ (i : ℕ) (p : Run) env, w.runs[i]? = some p → envs[i]? = some env →
    p.Traced w.file (fun f => .scanned i f ∈ evs) env (readBaseline w.baseline)
      (∀ j ∈ writers evs, j < i)
  written : ∀ i d, Kept evs w i d → i ∈ writers evs → d.scan.totals ≤ readBaseline w.baseline
  distinct : ∀ i j d d', Kept evs w i d → Kept evs w j d' → i ≠ j →
    d.scan.totals ≠ d'.scan.totals

section Traced

variable {file file' : List Line} {seen seen' : List Line → Prop} {env : Environment}
  {B B' : TokenTotals} {unwritten unwritten' : Prop} {p : Run} {d d' : Delivery}

theorem ScanOf.mono {scan : ScanResult} (h : ScanOf file seen scan) (hfile : file <+: file')
    (hseen : ∀ f, seen' f → seen f) : ScanOf file' seen' scan := by
  obtain ⟨ls, hls, hscan⟩ := h.part
  exact ⟨⟨ls, hls.trans hfile, hscan⟩, fun f hf => h.whole f (hseen f hf)⟩

theorem Delivery.Emitted.mono (h : d.Emitted file seen env B unwritten) (hfile : file <+: file')
    (hseen : ∀ f, seen' f → seen f) (hB : unwritten' → unwritten ∧ B' = B) :
    d.Emitted file' seen' env B' unwritten' := by
  obtain ⟨delta, hdelta, hscan, hrecord, hdue⟩ := h
  refine ⟨delta, hdelta, hscan.mono hfile hseen, hrecord, fun hun => ?_⟩
  obtain ⟨hun, rfl⟩ := hB hun
  exact hdue hun

/-- The transcript grows, and another run may replace the state file. -/
theorem Run.Traced.mono (h : p.Traced file seen env B unwritten) (hfile : file <+: file')
    (hseen : ∀ f, seen' f → seen f) (hB : unwritten' → unwritten ∧ B' = B) :
    p.Traced file' seen' env B' unwritten' := by
  cases p with
  | started env' => exact ⟨h.1, fun f hf => h.2 f (hseen f hf)⟩
  | scanned env' scan => exact ⟨h.1, h.2.mono hfile hseen⟩
  | reporting env' scan b delta => exact ⟨h.1, h.2.1.mono hfile hseen, h.2.2⟩
  | connected env' delta d =>
    obtain ⟨henv, hscan, hdelta, hrecord, hdue⟩ := h
    refine ⟨henv, hscan.mono hfile hseen, hdelta, hrecord, fun hun => ?_⟩
    obtain ⟨hun, rfl⟩ := hB hun
    exact hdue hun
  | closing d => exact Delivery.Emitted.mono h hfile hseen hB
  | counted d delivered => exact Delivery.Emitted.mono h hfile hseen hB
  | writing t d =>
    cases d with
    | none => trivial
    | some d => exact Delivery.Emitted.mono h hfile hseen hB
  | returned d =>
    cases d with
    | none => trivial
    | some d => exact Delivery.Emitted.mono h hfile hseen hB
  | killed => trivial

/-- A step of the client leaves the scan and the record. -/
theorem Run.Traced.setDelivery (h : p.Traced file seen env B unwritten)
    (hd : p.delivery = some d) (hscan : d'.scan = d.scan) (hrecord : d'.record = d.record) :
    (p.setDelivery d').Traced file seen env B unwritten := by
  have hemitted : d.Emitted file seen env B unwritten → d'.Emitted file seen env B unwritten := by
    unfold Delivery.Emitted
    rw [hscan, hrecord]
    exact id
  cases p with
  | started | scanned | reporting | killed => cases hd
  | connected env' delta d₀ =>
    obtain rfl : d₀ = d := Option.some.inj hd
    obtain ⟨henv, hof, hdelta, hnone, hdue⟩ := h
    exact ⟨henv, hscan.symm ▸ hof, hdelta, hrecord.trans hnone, fun hun =>
      (hdue hun).trans (congrArg ScanResult.totals hscan.symm)⟩
  | closing d₀ =>
    obtain rfl : d₀ = d := Option.some.inj hd
    exact hemitted h
  | counted d₀ delivered =>
    obtain rfl : d₀ = d := Option.some.inj hd
    exact hemitted h
  | writing t d₀ =>
    obtain rfl : d₀ = some d := hd
    exact hemitted h
  | returned d₀ =>
    obtain rfl : d₀ = some d := hd
    exact hemitted h

/-- So does what it keeps. -/
theorem Run.Keeps.setDelivery {wrote : Prop} {d₁ : Delivery} (hd : p.delivery = some d)
    (hscan : d'.scan = d.scan) (h : (p.setDelivery d').Keeps wrote d₁) :
    ∃ d₀, p.Keeps wrote d₀ ∧ d₀.scan = d₁.scan := by
  cases p with
  | started | scanned | reporting | killed => cases hd
  | connected | closing | counted => exact h.elim
  | writing t d₀ =>
    obtain rfl : d₀ = some d := hd
    obtain rfl : d' = d₁ := h
    exact ⟨d, rfl, hscan.symm⟩
  | returned d₀ =>
    obtain rfl : d₀ = some d := hd
    obtain ⟨hwrote, rfl⟩ : wrote ∧ d' = d₁ := h
    exact ⟨d, ⟨hwrote, rfl⟩, hscan.symm⟩

end Traced

/-! ### The steps -/

section Steps

variable {envs : List Environment} {evs e : List Event} {w w' : World} {i : ℕ} {p p' : Run}

/-- A kept record whose run has not replaced the state file is that of the last run. -/
theorem Identified.wrote_of_kept (h : Identified envs evs w) {j : ℕ} {d : Delivery}
    (hj : Kept evs w j d) (hlast : j + 1 ≠ w.runs.length) : j ∈ writers evs := by
  obtain ⟨q, hq, hkeeps⟩ := hj
  cases q with
  | writing t d' => exact absurd (h.last j _ hq rfl) hlast
  | returned d' =>
    cases d' with
    | none => exact hkeeps.elim
    | some d' => exact hkeeps.1
  | started | scanned | reporting | connected | closing | counted | killed => exact hkeeps.elim

/-- One run moves, the state file as it is: it keeps what it kept, or a new record of more than
the baseline. -/
theorem Identified.update (h : Identified envs evs w) (hp : w.runs[i]? = some p)
    (hrun : ∀ x ∈ e, x.run = i) (hw : writers e = []) (hlive : p'.live = true → p.live = true)
    (htraced : ∀ env, envs[i]? = some env → p'.Traced w.file (fun f => .scanned i f ∈ evs ++ e) env
      (readBaseline w.baseline) (∀ j ∈ writers evs, j < i))
    (hkept : ∀ d', p'.Keeps (i ∈ writers evs) d' →
      (∃ d, p.Keeps (i ∈ writers evs) d ∧ d.scan = d'.scan) ∨
        p.live = true ∧ i ∉ writers evs ∧ ¬d'.scan.totals ≤ readBaseline w.baseline) :
    Identified envs (evs ++ e) (w.set i p') := by
  have hlt : i < w.runs.length := (List.getElem?_eq_some_iff.1 hp).1
  have hwriters : writers (evs ++ e) = writers evs := by rw [writers_append, hw, List.append_nil]
  have hcases : ∀ j q, (w.set i p').runs[j]? = some q →
      j = i ∧ q = p' ∨ j ≠ i ∧ w.runs[j]? = some q := fun j q hq => by
    by_cases hj : j = i
    · subst hj
      rw [World.set, List.getElem?_set_self hlt] at hq
      exact .inl ⟨rfl, (Option.some.inj hq).symm⟩
    · rw [World.set, List.getElem?_set_ne (Ne.symm hj)] at hq
      exact .inr ⟨hj, hq⟩
  have hlength : (w.set i p').runs.length = w.runs.length := List.length_set
  -- what is kept was kept before, or is new
  have hback : ∀ j d', Kept (evs ++ e) (w.set i p') j d' →
      (∃ d, Kept evs w j d ∧ d.scan = d'.scan) ∨
        j = i ∧ p.live = true ∧ i ∉ writers evs ∧ ¬d'.scan.totals ≤ readBaseline w.baseline := by
    rintro j d' ⟨q, hq, hkeeps⟩
    rw [hwriters] at hkeeps
    rcases hcases j q hq with ⟨rfl, rfl⟩ | ⟨-, hq⟩
    · rcases hkept d' hkeeps with ⟨d, hd, hscan⟩ | hnew
      · exact .inl ⟨d, ⟨p, hp, hd⟩, hscan⟩
      · exact .inr ⟨rfl, hnew⟩
    · exact .inl ⟨d', ⟨q, hq, hkeeps⟩, rfl⟩
  -- a new record is of more than every other one that is kept
  have hnew : ∀ (j : ℕ) (d d' : Delivery), j ≠ i → p.live = true → Kept evs w j d →
      ¬d'.scan.totals ≤ readBaseline w.baseline → d.scan.totals ≠ d'.scan.totals := by
    intro j d d' hj hl hk hmore heq
    have hlast := h.last i p hp hl
    exact hmore (heq ▸ h.written j d hk (h.wrote_of_kept hk fun hj' => hj (by omega)))
  refine ⟨h.length.trans hlength.symm, fun j q hq hl => ?_, fun j q env hq henv => ?_,
    fun j d' hk hj => ?_, fun j k d d' hj hk hne => ?_⟩
  · rw [hlength]
    rcases hcases j q hq with ⟨rfl, rfl⟩ | ⟨-, hq⟩
    · exact h.last j p hp (hlive hl)
    · exact h.last j q hq hl
  · rw [hwriters]
    rcases hcases j q hq with ⟨rfl, rfl⟩ | ⟨hj, hq⟩
    · exact htraced env henv
    · refine (h.traced j q env hq henv).mono (List.prefix_refl _) (fun f hf => ?_)
        fun hun => ⟨hun, rfl⟩
      rcases List.mem_append.1 hf with hf | hf
      · exact hf
      · exact absurd (hrun _ hf) hj
  · rw [hwriters] at hj
    rcases hback j d' hk with ⟨d, hd, hscan⟩ | ⟨rfl, -, hnot, -⟩
    · rw [← hscan]
      exact h.written j d hd hj
    · exact absurd hj hnot
  · rcases hback j d hj with ⟨d₁, hd₁, hscan₁⟩ | ⟨rfl, hl, -, hmore⟩
    · rcases hback k d' hk with ⟨d₂, hd₂, hscan₂⟩ | ⟨rfl, hl, -, hmore⟩
      · rw [← hscan₁, ← hscan₂]
        exact h.distinct j k d₁ d₂ hd₁ hd₂ hne
      · rw [← hscan₁]
        exact hnew j d₁ d' hne hl hd₁ hmore
    · rcases hback k d' hk with ⟨d₂, hd₂, hscan₂⟩ | ⟨rfl, -, -, -⟩
      · rw [← hscan₂]
        exact (hnew k d₂ d hne.symm hl hd₂ hmore).symm
      · exact absurd rfl hne

/-- What is due is not zero. -/
theorem not_le_of_due {B delta totals : TokenTotals} (hdelta : delta ≠ 0)
    (hdue : B + delta = totals) : ¬totals ≤ B := by
  rintro hle
  refine hdelta (funext fun f => ?_)
  have hf : B f + delta f = totals f := congrFun hdue f
  have hle : totals f ≤ B f := hle f
  show delta f = 0
  omega

theorem scanOf_scanTranscript (file : List Line) (r : Reading) {seen : List Line → Prop}
    (hseen : ∀ f, seen f → r = .whole ∧ f = file) : ScanOf file seen (scanTranscript file r) := by
  refine ⟨?_, fun f hf => ?_⟩
  · cases r with
    | openFails => exact ⟨[], List.nil_prefix, rfl, rfl⟩
    | stopsAfter n => exact ⟨file.take n, List.take_prefix n file, rfl, rfl⟩
    | whole => exact ⟨file, List.prefix_refl _, rfl, rfl⟩
  · obtain ⟨rfl, rfl⟩ := hseen f hf
    rfl

/-- A run that moves. -/
theorem Identified.move {a : Action} (h : Identified envs evs w) (hco : Coherent evs w)
    (hal : Alone w) (hin : Intact w a) (hp : w.runs[i]? = some p) (hmove : Move w i a p p' e) :
    Identified envs (evs ++ e) (w.set i p') := by
  have htraced := fun env henv => h.traced i p env hp henv
  cases hmove with
  | scan env r =>
    refine h.update hp (fun x hx => ?_) ?_ (fun _ => rfl) (fun env' henv => ?_) fun _ hk => hk.elim
    · split_ifs at hx
      · rw [List.mem_singleton.1 hx]
        rfl
      · cases hx
    · split_ifs <;> rfl
    · obtain ⟨rfl, hnone⟩ := htraced env' henv
      refine ⟨rfl, scanOf_scanTranscript w.file r fun f hf => ?_⟩
      rcases List.mem_append.1 hf with hf | hf
      · exact absurd hf (hnone f)
      · split_ifs at hf with hr
        · have hf := List.mem_singleton.1 hf
          injection hf with _ hfile
          exact ⟨hr, hfile⟩
        · cases hf
  | readBaseline env scan =>
    refine h.update hp (fun x hx => by cases hx) rfl (fun _ => rfl) (fun env' henv => ?_)
      fun d' hk => ?_
    · obtain ⟨rfl, hscan⟩ := htraced env' henv
      rw [List.append_nil]
      unfold afterRead turn
      cases hturn : turnDelta scan.totals (readBaseline w.baseline) with
      | none =>
        dsimp only
        split_ifs <;> trivial
      | some delta =>
        dsimp only
        by_cases hzero : delta = 0
        · rw [if_pos hzero]
          trivial
        · rw [if_neg hzero]
          exact ⟨rfl, hscan, hzero, (turnDelta_eq_some hturn).2⟩
    · unfold afterRead at hk
      split at hk <;> exact hk.elim
  | connect env scan b delta cfg degraded droppedBefore =>
    refine h.update hp (fun x hx => by cases hx) rfl (fun _ => rfl) (fun env' henv => ?_)
      fun _ hk => hk.elim
    obtain ⟨rfl, hscan, hdelta, hdue⟩ := htraced env' henv
    rw [List.append_nil]
    refine ⟨rfl, hscan, hdelta, rfl, fun _ => ?_⟩
    rw [hal.current i _ _ _ _ hp]
    exact hdue
  | emit env delta d =>
    refine h.update hp (fun x hx => by cases hx) rfl (fun _ => rfl) (fun env' henv => ?_)
      fun _ hk => hk.elim
    obtain ⟨rfl, hscan, hdelta, hnone, hdue⟩ := htraced env' henv
    rw [List.append_nil]
    have hframe : (d.emit env delta).scan = d.scan ∧
        (d.emit env delta).record = buildRecord (buildFields env delta d.scan) := by
      unfold Delivery.emit
      cases hr : buildRecord (buildFields env delta d.scan) with
      | none => exact ⟨rfl, hnone⟩
      | some r => exact ⟨rfl, rfl⟩
    refine ⟨delta, hdelta, ?_, ?_, ?_⟩
    · rw [hframe.1]
      exact hscan
    · rw [hframe.1, hframe.2]
    · rw [hframe.1]
      exact hdue
  | client p d d' a hd ha hstep =>
    obtain ⟨hscan, hrecord, -⟩ := Delivery.step_frame hstep
    refine h.update hp (fun x hx => by cases hx) rfl (fun hl => (live_setDelivery d' hd).1 ▸ hl)
      (fun env' henv => ?_) fun d₁ hk => .inl (Run.Keeps.setDelivery hd hscan hk)
    rw [List.append_nil]
    exact (htraced env' henv).setDelivery hd hscan hrecord
  | sinkReturns p d d' o rs hd hstep =>
    obtain ⟨hscan, hrecord, -⟩ := Delivery.sinkReturns_frame hstep
    refine h.update hp (fun x hx => by rw [List.mem_singleton.1 hx]; rfl) rfl
      (fun hl => (live_setDelivery d' hd).1 ▸ hl) (fun env' henv => ?_)
      fun d₁ hk => .inl (Run.Keeps.setDelivery hd hscan hk)
    refine ((htraced env' henv).setDelivery hd hscan hrecord).mono (List.prefix_refl _)
      (fun f hf => ?_) fun hun => ⟨hun, rfl⟩
    rcases List.mem_append.1 hf with hf | hf
    · exact hf
    · cases List.mem_singleton.1 hf
  | readStats d hcl =>
    refine h.update hp (fun x hx => by cases hx) rfl (fun _ => rfl) (fun env' henv => ?_)
      fun _ hk => hk.elim
    rw [List.append_nil]
    exact htraced env' henv
  | kept d delivered hk =>
    have hnot : i ∉ writers evs := (hco.ok i _ hp).1
    refine h.update hp (fun x hx => by cases hx) rfl (fun _ => rfl) (fun env' henv => ?_)
      fun d' hd' => .inr ⟨rfl, hnot, ?_⟩
    · rw [List.append_nil]
      exact htraced env' henv
    · obtain rfl : d = d' := hd'
      have hlast := h.last i _ hp rfl
      obtain ⟨env, henv⟩ : ∃ env, envs[i]? = some env :=
        ⟨_, List.getElem?_eq_getElem (by rw [h.length]; omega)⟩
      obtain ⟨delta, hdelta, -, -, hdue⟩ := htraced env henv
      refine not_le_of_due hdelta (hdue fun j hj => ?_)
      -- the writers are runs so far, and this one is the last of them
      obtain ⟨x, hx, hxw⟩ := List.mem_filterMap.1 hj
      have hlt : j < w.runs.length := by
        cases x with
        | wrote k =>
          obtain rfl := Option.some.inj hxw
          exact hco.bound _ hx
        | scanned | stored => cases hxw
      have hne : j ≠ i := fun hji => hnot (hji ▸ hj)
      omega
  | notKept d delivered hk =>
    have hnot : i ∉ writers evs := (hco.ok i _ hp).1
    refine h.update hp (fun x hx => by cases hx) rfl (fun hl => by cases hl) (fun env' henv => ?_)
      fun d' hd' => absurd hd'.1 hnot
    rw [List.append_nil]
    exact htraced env' henv
  | writeFails t d transcriptPath updatedAt => cases hin
  | kill =>
    exact h.update hp (fun x hx => by cases hx) rfl (fun hl => by cases hl) (fun _ _ => trivial)
      fun _ hk => hk.elim

/-- A run replaces the state file. -/
theorem Identified.wrote (h : Identified envs evs w) (hco : Coherent evs w) {t : TokenTotals}
    {d : Option Delivery} (transcriptPath updatedAt : Text)
    (hp : w.runs[i]? = some (.writing t d)) :
    Identified envs (evs ++ [.wrote i])
      { w with
        baseline := some (payload transcriptPath updatedAt t)
        runs := w.runs.set i (.returned d) } := by
  cases d with
  | none => exact (hco.ok i _ hp).elim
  | some d =>
  have hlt : i < w.runs.length := (List.getElem?_eq_some_iff.1 hp).1
  have hlast := h.last i _ hp rfl
  obtain ⟨-, -, ⟨-, hdue⟩, rfl, -, r, hr, -⟩ := hco.ok i _ hp
  have hle : readBaseline w.baseline ≤ d.scan.totals := by
    rw [← hdue r hr]
    exact le_add_of_nonneg_right zero_le
  have hwriters : writers (evs ++ [.wrote i]) = writers evs ++ [i] := by
    rw [writers_append]
    rfl
  have hkept : Kept evs w i d := ⟨_, hp, rfl⟩
  have hcases : ∀ (j : ℕ) (q : Run), (w.runs.set i (.returned (some d)))[j]? = some q →
      j = i ∧ q = .returned (some d) ∨ j ≠ i ∧ w.runs[j]? = some q := fun j q hq => by
    by_cases hj : j = i
    · subst hj
      rw [List.getElem?_set_self hlt] at hq
      exact .inl ⟨rfl, (Option.some.inj hq).symm⟩
    · rw [List.getElem?_set_ne (Ne.symm hj)] at hq
      exact .inr ⟨hj, hq⟩
  -- nothing more is kept than before
  have hback : ∀ j d', Kept (evs ++ [.wrote i])
      { w with
        baseline := some (payload transcriptPath updatedAt d.scan.totals)
        runs := w.runs.set i (.returned (some d)) } j d' → Kept evs w j d' := by
    rintro j d' ⟨q, hq, hkeeps⟩
    rcases hcases j q hq with ⟨rfl, rfl⟩ | ⟨hj, hq⟩
    · obtain ⟨-, rfl⟩ := hkeeps
      exact hkept
    · refine ⟨q, hq, ?_⟩
      rw [hwriters, List.mem_append, List.mem_singleton, or_iff_left hj] at hkeeps
      exact hkeeps
  refine ⟨by rw [h.length, List.length_set], fun j q hq hl => ?_, fun j q env hq henv => ?_,
    fun j d' hk hj => ?_, fun j k d₁ d₂ hj hk hne => h.distinct j k d₁ d₂ (hback j d₁ hj)
      (hback k d₂ hk) hne⟩
  · rw [List.length_set]
    rcases hcases j q hq with ⟨-, rfl⟩ | ⟨-, hq⟩
    · cases hl
    · exact h.last j q hq hl
  · -- the run that writes is the last one, and so a later one than every other
    have hlate : ¬∀ k ∈ writers (evs ++ [.wrote i]), k < j := fun hun => by
      have hij := hun i (by rw [hwriters]; exact List.mem_append_right _ (List.mem_singleton_self i))
      have hj : j < (w.runs.set i (.returned (some d))).length := (List.getElem?_eq_some_iff.1 hq).1
      rw [List.length_set] at hj
      omega
    have hseen : ∀ f, Event.scanned j f ∈ evs ++ [.wrote i] → Event.scanned j f ∈ evs := by
      intro f hf
      rcases List.mem_append.1 hf with hf | hf
      · exact hf
      · cases List.mem_singleton.1 hf
    rcases hcases j q hq with ⟨rfl, rfl⟩ | ⟨-, hq⟩
    · exact Delivery.Emitted.mono (h.traced j _ env hp henv) (List.prefix_refl _) hseen
        fun hun => absurd hun hlate
    · exact (h.traced j q env hq henv).mono (List.prefix_refl _) hseen
        fun hun => absurd hun hlate
  · show d'.scan.totals ≤ readBaseline (some (payload transcriptPath updatedAt d.scan.totals))
    rw [readBaseline_payload]
    by_cases hji : j = i
    · subst hji
      obtain ⟨q, hq, hkeeps⟩ := hback j d' hk
      obtain rfl := Option.some.inj (hp.symm.trans hq)
      obtain rfl : d = d' := hkeeps
      exact le_rfl
    · rw [hwriters, List.mem_append, List.mem_singleton, or_iff_left hji] at hj
      exact (h.written j d' (hback j d' hk) hj).trans hle

/-- **Steps of an intact session keep it.** -/
theorem Identified.step {a : Action} (h : Identified envs evs w) (hco : Coherent evs w)
    (hal : Alone w) (hseq : Sequential w a) (hin : Intact w a)
    (hstep : step w a = some (w', e)) :
    Identified (envs ++ a.environment.toList) (evs ++ e) w' := by
  cases step_cases hstep with
  | grow ls =>
    have hnone : (Action.grow ls).environment = none := rfl
    rw [List.append_nil, hnone, Option.toList_none, List.append_nil]
    refine ⟨h.length, h.last, fun i p env hp henv => ?_, h.written, h.distinct⟩
    exact (h.traced i p env hp henv).mono (List.prefix_append _ _) (fun _ => id)
      fun hun => ⟨hun, rfl⟩
  | start env =>
    rw [List.append_nil]
    have hold : ∀ j d, Kept evs { w with runs := w.runs ++ [.started env] } j d →
        Kept evs w j d := by
      rintro j d ⟨q, hq, hkeeps⟩
      rcases getElem?_snoc hq with hq | ⟨-, rfl⟩
      · exact ⟨q, hq, hkeeps⟩
      · exact hkeeps.elim
    refine ⟨by simp [Action.environment, h.length], fun i p hp hl => ?_,
      fun i p env' hp henv => ?_, fun j d hk hj => h.written j d (hold j d hk) hj,
      fun j k d d' hj hk hne => h.distinct j k d d' (hold j d hj) (hold k d' hk) hne⟩
    · rcases getElem?_snoc hp with hp | ⟨rfl, -⟩
      · rw [hseq p (List.mem_of_getElem? hp)] at hl
        cases hl
      · rw [List.length_append]
        rfl
    · rcases getElem?_snoc hp with hp | ⟨rfl, rfl⟩
      · have hlt : i < envs.length := by
          rw [h.length]
          exact (List.getElem?_eq_some_iff.1 hp).1
        rw [List.getElem?_append_left hlt] at henv
        exact h.traced i p env' hp henv
      · rw [← h.length, Action.environment, Option.toList_some, List.getElem?_concat_length] at henv
        refine ⟨Option.some.inj henv, fun f hf => ?_⟩
        exact absurd (hco.bound _ hf) (lt_irrefl _)
  | move i a p p' e hp hmove =>
    have hnone : a.environment = none := by
      cases hmove <;> rfl
    rw [hnone, Option.toList_none, List.append_nil]
    exact h.move hco hal hin hp hmove
  | wrote i t d transcriptPath updatedAt hp =>
    have hnone : (Action.write i transcriptPath updatedAt true).environment = none := rfl
    rw [hnone, Option.toList_none, List.append_nil]
    exact h.wrote hco transcriptPath updatedAt hp

end Steps

/-! ### One more run -/

section Again

variable (w : World) (p p' : Run)

/-- The world with one more run. -/
def World.add : World := { w with runs := w.runs ++ [p] }

theorem World.add_last : (w.add p).runs[w.runs.length]? = some p := List.getElem?_concat_length

theorem World.add_set : (w.add p).set w.runs.length p' = w.add p' := by
  rw [World.add, World.set, World.add]
  simp

/-- A run that has something to report, up to its emission. -/
def again (env : Environment) (cfg : Emitter.Config) (degraded : Bool)
    (droppedBefore : Option ℕ) : List Action :=
  [.start env, .scan w.runs.length .whole, .readBaseline w.runs.length,
    .connect w.runs.length cfg degraded droppedBefore, .emit w.runs.length]

variable {w}

/-- A run that reads the whole file reports what it exceeds the baseline by. -/
theorem run_again {delta : TokenTotals} (hdelta : delta ≠ 0)
    (hdue : readBaseline w.baseline + delta = totals w.file) (env : Environment)
    (cfg : Emitter.Config) (degraded : Bool) (droppedBefore : Option ℕ) :
    ∃ d, hook.run w (again w env cfg degraded droppedBefore) =
        some (w.add (.closing d), [.scanned w.runs.length w.file]) ∧
      d.record = buildRecord (buildFields env delta (scanTranscript w.file .whole)) := by
  set scan := scanTranscript w.file .whole with hscan
  have hturn : turn scan (readBaseline w.baseline) = .report delta := by
    have htotals : scan.totals = readBaseline w.baseline + delta := hdue.symm
    have hcovers : covers scan.totals (readBaseline w.baseline) := by
      rw [covers_iff, htotals]
      exact le_add_of_nonneg_right zero_le
    have hsub : scan.totals - readBaseline w.baseline = delta := by
      rw [htotals]
      funext f
      exact Nat.add_sub_cancel_left _ _
    rw [turn, turnDelta, if_pos hcovers, hsub]
    exact if_neg hdelta
  set d : Delivery := ⟨scan, cfg, .init UsageRecord, none, degraded, droppedBefore, 0, []⟩ with hd
  have hstart : step w (.start env) = some (w.add (.started env), []) := rfl
  have hscanned : step (w.add (.started env)) (.scan w.runs.length .whole) =
      some (w.add (.scanned env scan), [.scanned w.runs.length w.file]) := by
    simp only [step, World.add_last, World.add_set]
    rfl
  have hread : step (w.add (.scanned env scan)) (.readBaseline w.runs.length) =
      some (w.add (.reporting env scan (readBaseline w.baseline) delta), []) := by
    simp only [step, World.add_last, World.add_set]
    show some (w.add (afterRead env scan (readBaseline w.baseline)), []) = _
    rw [afterRead, hturn]
  have hconnect : step (w.add (.reporting env scan (readBaseline w.baseline) delta))
      (.connect w.runs.length cfg degraded droppedBefore) =
        some (w.add (.connected env delta d), []) := by
    simp only [step, World.add_last, World.add_set]
    rfl
  have hemit : step (w.add (.connected env delta d)) (.emit w.runs.length) =
      some (w.add (.closing (d.emit env delta)), []) := by
    simp only [step, World.add_last, World.add_set]
  refine ⟨d.emit env delta, ?_, ?_⟩
  · refine Machine.run_cons.2 ⟨_, _, _, hstart, Machine.run_cons.2 ⟨_, _, _, hscanned,
      Machine.run_cons.2 ⟨_, _, _, hread, Machine.run_cons.2 ⟨_, _, _, hconnect,
        Machine.run_cons.2 ⟨_, _, _, hemit, rfl, rfl⟩, rfl⟩, rfl⟩, rfl⟩, rfl⟩
  · unfold Delivery.emit
    cases hr : buildRecord (buildFields env delta d.scan) with
    | none => rfl
    | some r => rfl

/-- A record is built from the same scan in every environment with this application and this
endpoint, or in none. -/
theorem buildRecord_isSome {env env' : Environment} {delta : TokenTotals} {scan : ScanResult}
    {k : Text} (hid : scan.lastMessageId = some k) (happ : env'.appId = env.appId)
    (hendpoint : env'.endpoint = env.endpoint) :
    (buildRecord (buildFields env' delta scan)).isSome =
      (buildRecord (buildFields env delta scan)).isSome := by
  have hrequest : (buildFields env' delta scan).requestId = (buildFields env delta scan).requestId :=
    (requestId_of_some hid).trans (requestId_of_some hid).symm
  have happ' : (buildFields env' delta scan).appId = (buildFields env delta scan).appId := happ
  have hendpoint' : (buildFields env' delta scan).endpoint = (buildFields env delta scan).endpoint :=
    hendpoint
  have hmodel : (buildFields env' delta scan).model = (buildFields env delta scan).model := rfl
  have hstatus : (buildFields env' delta scan).status = (buildFields env delta scan).status := rfl
  have hversion :
    (buildFields env' delta scan).schemaVersion = (buildFields env delta scan).schemaVersion := rfl
  unfold buildRecord
  simp only [hrequest, happ', hendpoint', hmodel, hstatus, hversion]
  split_ifs <;> rfl

end Again

/-! ### The session -/

theorem identified_init : Identified [] [] {} where
  length := rfl
  last i p hp := by simp at hp
  traced i p env hp := by simp at hp
  written i d hk := by
    obtain ⟨p, hp, -⟩ := hk
    simp at hp
  distinct i j d d' hk := by
    obtain ⟨p, hp, -⟩ := hk
    simp at hp

/-- **It holds along every intact session.** -/
theorem identified_run {as : List Action} {w : World} {evs : List Event}
    (hseq : hook.Along Sequential {} as) (hin : hook.Along Intact {} as)
    (hrun : hook.run {} as = some (w, evs)) :
    Coherent evs w ∧ Alone w ∧ Identified (environments as) evs w := by
  induction as using List.reverseRecOn generalizing w evs with
  | nil =>
    obtain ⟨rfl, rfl⟩ := Prod.mk.inj (Option.some.inj hrun)
    exact ⟨coherent_init, alone_init, identified_init⟩
  | append_singleton as a ih =>
    obtain ⟨u, es, e, hbefore, hstep, rfl⟩ := Machine.run_snoc.1 hrun
    obtain ⟨hseq, hseqa⟩ := (Machine.along_snoc hbefore).1 hseq
    obtain ⟨hin, hina⟩ := (Machine.along_snoc hbefore).1 hin
    obtain ⟨hco, hal, hid⟩ := ih hseq hin hbefore
    have henvs : environments (as ++ [a]) = environments as ++ a.environment.toList := by
      rw [environments, List.filterMap_append, List.filterMap_cons, List.filterMap_nil]
      cases a.environment <;> rfl
    rw [henvs]
    exact ⟨(hco.step (hal.undisturbed a) hstep).1, hal.step hco hseqa hstep,
      hid.step hco hal hseqa hina hstep⟩

/-- What is known of a kept record, and of the environment of its run. -/
theorem Identified.kept_record {envs : List Environment} {evs : List Event} {w : World} {i : ℕ}
    {d : Delivery} {r : UsageRecord} (h : Identified envs evs w) (hk : Kept evs w i d)
    (hr : d.record = some r) :
    ∃ env delta, envs[i]? = some env ∧ r.toFields = buildFields env delta d.scan ∧
      ∃ ls, ls <+: w.file ∧ d.scan.totals = totals ls ∧
        d.scan.lastMessageId = (scanLines ls).lastMessageId := by
  obtain ⟨p, hp, hkeeps⟩ := hk
  obtain ⟨env, henv⟩ : ∃ env, envs[i]? = some env :=
    ⟨_, List.getElem?_eq_getElem (by
      rw [h.length]
      exact (List.getElem?_eq_some_iff.1 hp).1)⟩
  have htraced := h.traced i p env hp henv
  have hemitted : d.Emitted w.file (fun f => .scanned i f ∈ evs) env (readBaseline w.baseline)
      (∀ j ∈ writers evs, j < i) := by
    cases p with
    | writing t d' =>
      cases d' with
      | none => exact hkeeps.elim
      | some d' =>
        obtain rfl : d = d' := hkeeps.symm
        exact htraced
    | returned d' =>
      cases d' with
      | none => exact hkeeps.elim
      | some d' =>
        obtain ⟨-, rfl⟩ := hkeeps
        exact htraced
    | started | scanned | reporting | connected | closing | counted | killed => exact hkeeps.elim
  obtain ⟨delta, -, hscan, hrecord, -⟩ := hemitted
  rw [hr] at hrecord
  exact ⟨env, delta, henv, buildRecord_toFields hrecord.symm, hscan.part⟩

/-- **Request ids are unique and stable.** In every sequential session whose state file can be
written, at every moment: the records that two runs have kept have different ids. And a run whose
record was not kept, when no later run has replaced the state file, and that read the whole of the
transcript as it is now, with an id at its last response: whenever the hook is run again, in
whatever environment, what it builds has the same id and the same counts; and it builds it, where
the application and the endpoint are those of the run before. -/
theorem identities {as : List Action} {w : World} {evs : List Event}
    (hseq : hook.Along Sequential {} as) (hin : hook.Along Intact {} as)
    (hfresh : FreshUuids as w.file) (hrun : hook.run {} as = some (w, evs)) :
    (∀ i j d d' r r', i ≠ j → Kept evs w i d → Kept evs w j d' → d.record = some r →
      d'.record = some r' → r.requestId ≠ r'.requestId) ∧
    ∀ i d k, w.runs[i]? = some (.returned (some d)) → (∀ j ∈ writers evs, j < i) →
      .scanned i w.file ∈ evs → (scanTranscript w.file .whole).lastMessageId = some k →
      ∀ env cfg degraded droppedBefore, ∃ d',
        hook.run w (again w env cfg degraded droppedBefore) =
          some (w.add (.closing d'), [.scanned w.runs.length w.file]) ∧
        (∀ r r', d.record = some r → d'.record = some r' →
          r.requestId = k ∧ r'.requestId = k ∧ r'.counts = r.counts) ∧
        ∀ env₀, (environments as)[i]? = some env₀ → env.appId = env₀.appId →
          env.endpoint = env₀.endpoint → d'.record.isSome = d.record.isSome := by
  obtain ⟨hco, -, hid⟩ := identified_run hseq hin hrun
  constructor
  · intro i j d d' r r' hne hi hj hr hr' heq
    obtain ⟨env, delta, henv, hfields, ls, hls, htotals, hlast⟩ := hid.kept_record hi hr
    obtain ⟨env', delta', henv', hfields', ms, hms, htotals', hlast'⟩ := hid.kept_record hj hr'
    have hmem := List.mem_of_getElem? henv
    have hmem' := List.mem_of_getElem? henv'
    have hrequest : (buildFields env delta d.scan).requestId =
        (buildFields env' delta' d'.scan).requestId := by
      rw [← hfields, ← hfields']
      exact heq
    have hcarries : ∀ {ls : List Line} {k : Text}, ls <+: w.file →
        (scanLines ls).lastMessageId = some k → CarriesId w.file k := by
      rintro ls k ⟨rest, hrest⟩ hk
      obtain ⟨l, hl, hr⟩ := carriesId_lastMessageId hk
      exact ⟨l, hrest ▸ List.mem_append_left _ hl, hr⟩
    cases hk : d.scan.lastMessageId with
    | some k =>
      rw [requestId_of_some hk] at hrequest
      rw [hk] at hlast
      cases hk' : d'.scan.lastMessageId with
      | some k' =>
        -- the same response is the last one of both, and so the totals are the same
        rw [requestId_of_some hk'] at hrequest
        rw [hk', ← hrequest] at hlast'
        refine hid.distinct i j d d' hi hj hne ?_
        rw [htotals, htotals']
        exact lastMessageId_totals hls hms hlast.symm hlast'.symm
      | none =>
        have hsuffix := requestId_of_none env' delta' hk'
        rw [← hrequest] at hsuffix
        exact hfresh.unseen env' hmem' k (hcarries hls hlast.symm) hsuffix
    | none =>
      have hsuffix := requestId_of_none env delta hk
      rw [hrequest] at hsuffix
      cases hk' : d'.scan.lastMessageId with
      | some k' =>
        rw [requestId_of_some hk'] at hsuffix
        rw [hk'] at hlast'
        exact hfresh.unseen env hmem k' (hcarries hms hlast'.symm) hsuffix
      | none =>
        have hsuffix' := requestId_of_none env' delta' hk'
        have hlength : (Text.of ":" ++ env.uuid).length = (Text.of ":" ++ env'.uuid).length := by
          rw [List.length_append, List.length_append, hfresh.length env hmem,
            hfresh.length env' hmem']
        have huuid : env.uuid = env'.uuid := List.append_cancel_left
          (List.IsSuffix.eq_of_length
            (List.suffix_of_suffix_length_le hsuffix hsuffix' hlength.le) hlength)
        have hlt : i < ((environments as).map Environment.uuid).length := by
          rw [List.length_map]
          exact (List.getElem?_eq_some_iff.1 henv).1
        refine hne ((List.getElem?_inj hlt hfresh.distinct).1 ?_)
        rw [List.getElem?_map, List.getElem?_map, henv, henv', Option.map_some, Option.map_some,
          huuid]
  · intro i d k hp hlate hscanned hk env cfg degraded droppedBefore
    obtain ⟨env₀, henv₀⟩ : ∃ env₀, (environments as)[i]? = some env₀ :=
      ⟨_, List.getElem?_eq_getElem (by
        rw [hid.length]
        exact (List.getElem?_eq_some_iff.1 hp).1)⟩
    obtain ⟨delta, hdelta, hscan, hrecord, hdue⟩ := hid.traced i _ env₀ hp henv₀
    have hwhole := hscan.whole w.file hscanned
    have hdue := hdue hlate
    rw [hwhole] at hrecord hdue
    obtain ⟨d', hagain, hrecord'⟩ := run_again hdelta hdue env cfg degraded droppedBefore
    refine ⟨d', hagain, fun r r' hr hr' => ?_, fun env₁ henv₁ happ hendpoint => ?_⟩
    · rw [hr] at hrecord
      rw [hr'] at hrecord'
      have hfields := buildRecord_toFields hrecord.symm
      have hfields' := buildRecord_toFields hrecord'.symm
      refine ⟨?_, ?_, ?_⟩
      · rw [hfields]
        exact requestId_of_some hk
      · rw [hfields']
        exact requestId_of_some hk
      · rw [hfields, hfields']
        rfl
    · obtain rfl := Option.some.inj (henv₀.symm.trans henv₁)
      rw [hrecord, hrecord']
      exact buildRecord_isSome hk happ hendpoint

/-- The environment of a run, with a value of `uuid4().hex` of one digit. -/
def repeatedUuid (digit : CodePoint) : Environment :=
  { plainEnvironment with uuid := List.replicate 32 digit }

/-- The first run fails to deliver, the second one reports the same response, and the third one
the next. -/
def threeRuns : List Action :=
  [.grow [responseLine "a" 3], .start (repeatedUuid 48), .scan 0 .whole, .readBaseline 0] ++
    emission 0 .raised ++
  [.start (repeatedUuid 49), .scan 1 .whole, .readBaseline 1] ++
    emission 1 .stored ++ [.write 1 [] [] true] ++
  [.grow [responseLine "b" 4], .start (repeatedUuid 50), .scan 2 .whole, .readBaseline 2] ++
    emission 2 .stored ++ [.write 2 [] [] true]

/-- No message id that is shorter than a value of `uuid4().hex` ends with one. -/
theorem freshUuids_of_short {as : List Action} {file : List Line}
    (hlength : ∀ env ∈ environments as, env.uuid.length = 32)
    (hdistinct : ((environments as).map Environment.uuid).Nodup)
    (hshort : ∀ k ∈ (scanLines file).seen, k.length ≤ 32) : FreshUuids as file := by
  refine ⟨hlength, hdistinct, fun env henv k hk hsuffix => ?_⟩
  have hseen := hshort k (((scanLines_gathers file).seen k).2 hk)
  have hle := hsuffix.length_le
  have hcolon : (Text.of ":").length = 1 := rfl
  rw [List.length_append, hlength env henv] at hle
  omega

theorem freshUuids_threeRuns :
    FreshUuids threeRuns [responseLine "a" 3, responseLine "b" 4] :=
  freshUuids_of_short (by decide +kernel) (by decide +kernel) (by decide +kernel)

/-- A run that fails to deliver. -/
def failedRun : List Action :=
  [.grow [responseLine "a" 3], .start (repeatedUuid 48), .scan 0 .whole, .readBaseline 0] ++
    emission 0 .raised

theorem freshUuids_failedRun : FreshUuids failedRun [responseLine "a" 3] :=
  freshUuids_of_short (by decide +kernel) (by decide +kernel) (by decide +kernel)

/-- The ids of the second and of the third run differ; and the record of a run that failed is built
again, in another environment. -/
theorem identities_threeRuns :
    (∃ w evs, hook.run {} threeRuns = some (w, evs) ∧
      ∃ d d', Kept evs w 1 d ∧ Kept evs w 2 d' ∧
        ∀ r r', d.record = some r → d'.record = some r' → r.requestId ≠ r'.requestId) ∧
    ∃ w evs d r d' r', hook.run {} failedRun = some (w, evs) ∧
      w.runs[0]? = some (.returned (some d)) ∧ d.record = some r ∧
      hook.run w (again w (repeatedUuid 49) oneByOne false none) =
        some (w.add (.closing d'), [.scanned 1 w.file]) ∧ d'.record = some r' ∧
      r.requestId = Text.of "a" ∧ r'.requestId = r.requestId ∧ r'.counts = r.counts := by
  constructor
  · have hunique := (@identities threeRuns _ _ (by decide +kernel) (by decide +kernel)
      freshUuids_threeRuns rfl).1
    exact ⟨_, _, rfl, _, _, ⟨_, rfl, by decide +kernel, rfl⟩, ⟨_, rfl, by decide +kernel, rfl⟩,
      fun r r' hr hr' => hunique 1 2 _ _ r r' (by decide) ⟨_, rfl, by decide +kernel, rfl⟩
        ⟨_, rfl, by decide +kernel, rfl⟩ hr hr'⟩
  · have hstable := (@identities failedRun _ _ (by decide +kernel) (by decide +kernel)
      freshUuids_failedRun rfl).2 0 _ (Text.of "a") rfl (by decide +kernel) List.mem_cons_self rfl
    obtain ⟨d', hagain, hsame, hbuilt⟩ := hstable (repeatedUuid 49) oneByOne false none
    obtain ⟨r', hr'⟩ := Option.isSome_iff_exists.1 ((hbuilt _ rfl rfl rfl).trans (by decide +kernel))
    obtain ⟨hid, hid', hcounts⟩ := hsame _ _ rfl hr'
    exact ⟨_, _, _, _, d', r', rfl, rfl, rfl, hagain, hr', hid, hid'.trans hid.symm, hcounts⟩

end Tokenweir.ClaudeCode
