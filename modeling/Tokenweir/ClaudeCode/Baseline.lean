import Mathlib.Tactic
import Tokenweir.ClaudeCode.Client

/-!
# The baseline and what was stored

The law of the state file: the baseline on disk is the sum of the counts of the records
whose runs went on to write it, each of them stored, and it never exceeds the transcript.
It holds of any number of runs, overlapping or killed, as long as each run emits against the
baseline that is still on disk (`Undisturbed`).

* `storedOf`, `writers`, `reported`, the history;
* `Undisturbed`, the condition on a step;
* `Run.Ok` and `Coherent`, the invariant; `Coherent.step` and `Coherent.run`.
-/

namespace Tokenweir.ClaudeCode

/-! ### The history -/

/-- The run of an event. -/
def Event.run : Event → ℕ
  | .scanned i _ => i
  | .stored i _ => i
  | .wrote i => i

def Event.storedPart : Event → List (ℕ × UsageRecord)
  | .stored i rs => rs.map (i, ·)
  | _ => []

def Event.writer : Event → Option ℕ
  | .wrote i => some i
  | _ => none

/-- The stored records, each with its run. -/
def storedOf (evs : List Event) : List (ℕ × UsageRecord) := evs.flatMap Event.storedPart

/-- The records a run has stored. -/
def storedBy (i : ℕ) (evs : List Event) : List UsageRecord :=
  ((storedOf evs).filter fun p => p.1 = i).map Prod.snd

/-- The runs that replaced the state file. -/
def writers (evs : List Event) : List ℕ := evs.filterMap Event.writer

/-- The sum of the counts. -/
def countsOf (ps : List (ℕ × UsageRecord)) : TokenTotals := (ps.map fun p => p.2.counts).sum

/-- The counts of the records whose runs wrote the baseline. -/
def reported (evs : List Event) : TokenTotals :=
  countsOf ((storedOf evs).filter fun p => p.1 ∈ writers evs)

@[simp] theorem storedOf_append (es fs : List Event) :
    storedOf (es ++ fs) = storedOf es ++ storedOf fs := List.flatMap_append

@[simp] theorem writers_append (es fs : List Event) :
    writers (es ++ fs) = writers es ++ writers fs := List.filterMap_append

@[simp] theorem storedBy_append (i : ℕ) (es fs : List Event) :
    storedBy i (es ++ fs) = storedBy i es ++ storedBy i fs := by
  simp [storedBy]

theorem countsOf_filter_le (q : ℕ × UsageRecord → Bool) (ps : List (ℕ × UsageRecord)) :
    countsOf (ps.filter q) ≤ countsOf ps := by
  induction ps with
  | nil => exact le_rfl
  | cons p ps ih =>
    have hcons : ∀ ps, countsOf (p :: ps) = p.2.counts + countsOf ps := fun ps => by
      simp [countsOf]
    by_cases hq : q p = true
    · rw [List.filter_cons_of_pos hq, hcons, hcons]
      exact add_le_add_right ih p.2.counts
    · rw [List.filter_cons_of_neg hq, hcons]
      exact ih.trans (le_add_of_nonneg_left zero_le)

/-- Every stored record is a run's. -/
theorem mem_storedOf {i : ℕ} {r : UsageRecord} {evs : List Event} :
    (i, r) ∈ storedOf evs ↔ r ∈ storedBy i evs := by
  simp [storedBy]

theorem run_of_mem_storedOf {p : ℕ × UsageRecord} {evs : List Event} (h : p ∈ storedOf evs) :
    ∃ e ∈ evs, e.run = p.1 := by
  obtain ⟨e, he, hp⟩ := List.mem_flatMap.1 h
  refine ⟨e, he, ?_⟩
  cases e with
  | stored i rs =>
    obtain ⟨r, -, rfl⟩ := List.mem_map.1 hp
    rfl
  | scanned | wrote => cases hp

/-- One more writer: its records are reported from then on. -/
theorem countsOf_filter_snoc (ps : List (ℕ × UsageRecord)) (ws : List ℕ) {i : ℕ} (hi : i ∉ ws) :
    countsOf (ps.filter fun p => p.1 ∈ ws ++ [i]) =
      countsOf (ps.filter fun p => p.1 ∈ ws) + countsOf (ps.filter fun p => p.1 = i) := by
  induction ps with
  | nil => rfl
  | cons p ps ih =>
    have hcons : ∀ ps, countsOf (p :: ps) = p.2.counts + countsOf ps := fun ps => by
      simp [countsOf]
    by_cases hp : p.1 = i
    · have hws : p.1 ∉ ws := hp ▸ hi
      rw [List.filter_cons_of_pos (by simp [hp]), List.filter_cons_of_neg (by simpa using hws),
        List.filter_cons_of_pos (by simp [hp]), hcons, hcons, ih]
      abel
    · by_cases hws : p.1 ∈ ws
      · rw [List.filter_cons_of_pos (by simp [hws]), List.filter_cons_of_pos (by simp [hws]),
          List.filter_cons_of_neg (by simpa using hp), hcons, hcons, ih]
        abel
      · rw [List.filter_cons_of_neg (by simp [hws, hp]), List.filter_cons_of_neg (by simpa using hws),
          List.filter_cons_of_neg (by simpa using hp), ih]

/-! ### The condition on a step -/

/-- A run between its emission and its write. -/
def Run.emitting : Run → Bool
  | .connected _ _ _ | .closing _ | .counted _ _ | .writing _ _ => true
  | _ => false

theorem live_of_emitting {p : Run} (h : p.emitting = true) : p.live = true := by
  cases p <;> first | rfl | cases h

/-- A run reads a baseline that its scan covers, unless its scan ended early; and it goes on to
emit only while the baseline it has read is still on disk and no other run is between its
emission and its write. -/
def Undisturbed (w : World) : Action → Prop
  | .readBaseline i =>
    ∀ env scan, w.runs[i]? = some (.scanned env scan) → scan.readable = true →
      readBaseline w.baseline ≤ scan.totals
  | .connect i _ _ _ =>
    ∀ env scan baseline delta, w.runs[i]? = some (.reporting env scan baseline delta) →
      readBaseline w.baseline = baseline ∧ ∀ p ∈ w.runs, p.emitting = false
  | _ => True

/-! ### The invariant -/

/-- The emission of a run against the baseline `B`: the scan is `B` and what is emitted. -/
def Due (file : List Line) (B : TokenTotals) (d : Delivery) : Prop :=
  d.scan.totals ≤ totals file ∧ ∀ r, d.record = some r → B + r.counts = d.scan.totals

/-- What holds at each place of a run that has stored `st`; `B` is the baseline on disk. -/
def Run.Ok (file : List Line) (B : TokenTotals) (st : List UsageRecord) (wrote : Prop) : Run → Prop
  | .started _ => st = [] ∧ ¬ wrote
  | .scanned _ scan => st = [] ∧ ¬ wrote ∧ scan.totals ≤ totals file
  | .reporting _ scan baseline delta =>
    st = [] ∧ ¬ wrote ∧ scan.totals ≤ totals file ∧ baseline + delta = scan.totals
  | .connected _ delta d =>
    ¬ wrote ∧ d.Sound st ∧ d.record = none ∧ d.scan.totals ≤ totals file ∧
      B + delta = d.scan.totals
  | .closing d => ¬ wrote ∧ d.Sound st ∧ Due file B d
  | .counted d delivered => ¬ wrote ∧ d.Sound st ∧ Due file B d ∧ delivered ≤ d.client.delivered
  | .writing t (some d) =>
    ¬ wrote ∧ d.Sound st ∧ Due file B d ∧ t = d.scan.totals ∧ 1 ≤ d.client.delivered ∧
      ∃ r, d.record = some r ∧ st = [r]
  | .writing _ none => False
  | .returned none => st = [] ∧ ¬ wrote
  | .returned (some d) => d.Sound st ∧ (wrote → 1 ≤ d.client.delivered)
  | .killed => st.length ≤ 1

/-- The scan a run still carries. -/
def Run.scan : Run → Option ScanResult
  | .scanned _ scan => some scan
  | .reporting _ scan _ _ => some scan
  | .connected _ _ d => some d.scan
  | .closing d => some d.scan
  | .counted d _ => some d.scan
  | .writing _ (some d) => some d.scan
  | _ => none

/-- What is known of a run that has read the whole file `f`; one that returned with nothing to
emit found it all in the baseline. -/
def Run.Seen (B : TokenTotals) (wrote : Prop) (f : List Line) (p : Run) : Prop :=
  (∀ env, p ≠ .started env) ∧
    (∀ scan, p.scan = some scan → scan.readable = true ∧ scan.totals = totals f) ∧
    (wrote ∨ p = .returned none → totals f ≤ B)

/-- A run that moves on, but not to return with nothing to emit. -/
theorem Run.Seen.moved {B : TokenTotals} {wrote : Prop} {f : List Line} {p p' : Run}
    (h : p.Seen B wrote f) (hst : ∀ env, p' ≠ .started env)
    (hscan : ∀ scan, p'.scan = some scan → p.scan = some scan) (hret : p' ≠ .returned none) :
    p'.Seen B wrote f :=
  ⟨hst, fun scan hs => h.2.1 scan (hscan scan hs),
    fun hw => h.2.2 (.inl (hw.resolve_right hret))⟩

/-- **The law of the state file.** -/
structure Coherent (evs : List Event) (w : World) : Prop where
  bound : ∀ e ∈ evs, e.run < w.runs.length
  ok : ∀ (i : ℕ) (p : Run), w.runs[i]? = some p →
    p.Ok w.file (readBaseline w.baseline) (storedBy i evs) (i ∈ writers evs)
  alone : ∀ (i j : ℕ) (p q : Run), w.runs[i]? = some p → w.runs[j]? = some q → p.emitting = true →
    q.emitting = true → i = j
  exact : readBaseline w.baseline = reported evs
  le : readBaseline w.baseline ≤ totals w.file
  seen : ∀ i f, .scanned i f ∈ evs → ∀ p : Run, w.runs[i]? = some p →
    p.Seen (readBaseline w.baseline) (i ∈ writers evs) f

theorem coherent_init : Coherent [] {} where
  bound e he := by cases he
  ok i p hp := by simp at hp
  alone i j p q hp := by simp at hp
  exact := rfl
  le := zero_le
  seen i f he := by cases he

/-- The events of one run are no other run's. -/
theorem storedBy_eq_nil {i : ℕ} {e : List Event} (h : ∀ x ∈ e, x.run ≠ i) : storedBy i e = [] := by
  rw [storedBy, List.map_eq_nil_iff, List.filter_eq_nil_iff]
  intro p hp
  obtain ⟨x, hx, hrun⟩ := run_of_mem_storedOf hp
  have := h x hx
  rw [hrun] at this
  simpa using this

/-- What is stored by a run that does not write is not reported. -/
theorem reported_append {evs e : List Event} (hw : writers e = [])
    (he : ∀ p ∈ storedOf e, p.1 ∉ writers evs) : reported (evs ++ e) = reported evs := by
  have hnone : (storedOf e).filter (fun p => p.1 ∈ writers evs) = [] := by
    rw [List.filter_eq_nil_iff]
    intro p hp
    simpa using he p hp
  simp only [reported, storedOf_append, writers_append, hw, List.append_nil, List.filter_append,
    hnone]

/-- One run moves, the state file and the transcript as they are. -/
theorem Coherent.update {evs e : List Event} {w : World} {i : ℕ} {p p' : Run}
    (h : Coherent evs w) (hp : w.runs[i]? = some p) (hrun : ∀ x ∈ e, x.run = i)
    (hw : writers e = [])
    (hok : p'.Ok w.file (readBaseline w.baseline) (storedBy i evs ++ storedBy i e)
      (i ∈ writers evs))
    (hemit : p'.emitting = true → p.emitting = true ∨ ∀ q ∈ w.runs, q.emitting = false)
    (hrep : storedBy i e = [] ∨ i ∉ writers evs)
    (hseen : ∀ f, .scanned i f ∈ evs ++ e →
      p'.Seen (readBaseline w.baseline) (i ∈ writers evs) f) :
    Coherent (evs ++ e) (w.set i p') := by
  have hlt : i < w.runs.length := (List.getElem?_eq_some_iff.1 hp).1
  have hself : (w.set i p').runs[i]? = some p' := by
    simp [World.set, List.getElem?_set_self hlt]
  have hother : ∀ j, j ≠ i → (w.set i p').runs[j]? = w.runs[j]? := fun j hj => by
    simp [World.set, List.getElem?_set_ne (Ne.symm hj)]
  have hnot : ∀ j, j ≠ i → storedBy j e = [] := fun j hj =>
    storedBy_eq_nil fun x hx hxj => hj ((hxj.symm.trans (hrun x hx)))
  have hreport : reported (evs ++ e) = reported evs := by
    refine reported_append hw fun q hq => ?_
    obtain ⟨x, hx, hxq⟩ := run_of_mem_storedOf hq
    have hqi : q.1 = i := hxq.symm.trans (hrun x hx)
    rcases hrep with hnil | hnw
    · have : q.2 ∈ storedBy i e := mem_storedOf.1 (hqi ▸ hq)
      rw [hnil] at this
      cases this
    · rwa [hqi]
  refine ⟨?_, ?_, ?_, ?_, h.le, ?_⟩
  · intro x hx
    rw [World.set, List.length_set]
    rcases List.mem_append.1 hx with hx | hx
    · exact h.bound x hx
    · rw [hrun x hx]
      exact hlt
  · intro j q hq
    rw [writers_append, hw, List.append_nil, storedBy_append]
    by_cases hj : j = i
    · subst hj
      obtain rfl := Option.some.inj (hself.symm.trans hq)
      exact hok
    · rw [hother j hj] at hq
      rw [hnot j hj, List.append_nil]
      exact h.ok j q hq
  · -- emitting runs
    have halone : ∀ j q, j ≠ i → w.runs[j]? = some q → q.emitting = true → p'.emitting = true →
        False := fun j q hj hq hqe hpe => by
      rcases hemit hpe with hpe | hnone
      · exact hj (h.alone j i q p hq hp hqe hpe)
      · rw [hnone q (List.mem_of_getElem? hq)] at hqe
        cases hqe
    intro j k q r hq hr hqe hre
    by_cases hj : j = i
    · subst hj
      obtain rfl := Option.some.inj (hself.symm.trans hq)
      by_contra hk
      rw [hother k (Ne.symm hk)] at hr
      exact halone k r (Ne.symm hk) hr hre hqe
    · rw [hother j hj] at hq
      by_cases hk : k = i
      · subst hk
        obtain rfl := Option.some.inj (hself.symm.trans hr)
        exact (halone j q hj hq hqe hre).elim
      · rw [hother k hk] at hr
        exact h.alone j k q r hq hr hqe hre
  · rw [hreport]
    exact h.exact
  · intro j f hf q hq
    rw [writers_append, hw, List.append_nil]
    by_cases hj : j = i
    · subst hj
      obtain rfl := Option.some.inj (hself.symm.trans hq)
      exact hseen f hf
    · rw [hother j hj] at hq
      rcases List.mem_append.1 hf with hf | hf
      · exact h.seen j f hf q hq
      · exact absurd (hrun _ hf) hj

/-! ### The steps -/

/-- A place of a list with one more entry. -/
theorem getElem?_snoc {α : Type} {xs : List α} {x y : α} {i : ℕ}
    (h : (xs ++ [x])[i]? = some y) : xs[i]? = some y ∨ i = xs.length ∧ y = x := by
  rw [List.getElem?_append] at h
  split_ifs at h with hlt
  · exact .inl h
  · right
    obtain ⟨hi, he⟩ := List.getElem?_eq_some_iff.1 h
    have hz : i - xs.length = 0 := by simpa using hi
    refine ⟨by omega, ?_⟩
    rw [← he]
    simp [hz]

/-- A run moves without an event. -/
theorem Coherent.silent {evs : List Event} {w : World} {i : ℕ} {p p' : Run} (h : Coherent evs w)
    (hp : w.runs[i]? = some p)
    (hok : p'.Ok w.file (readBaseline w.baseline) (storedBy i evs) (i ∈ writers evs))
    (hemit : p'.emitting = true → p.emitting = true ∨ ∀ q ∈ w.runs, q.emitting = false)
    (hseen : ∀ f, p.Seen (readBaseline w.baseline) (i ∈ writers evs) f →
      p'.Seen (readBaseline w.baseline) (i ∈ writers evs) f) :
    Coherent (evs ++ []) (w.set i p') :=
  h.update hp (fun x hx => by cases hx) rfl (by rwa [show storedBy i [] = [] from rfl, List.append_nil])
    hemit (.inl rfl) fun f hf => by
      rw [List.append_nil] at hf
      exact hseen f (h.seen i f hf p hp)

/-- A step of a client, with what it stored. -/
theorem Run.Ok.setDelivery {file : List Line} {B : TokenTotals} {st : List UsageRecord}
    {wrote : Prop} {p : Run} {d d' : Delivery} (h : p.Ok file B st wrote) (rs : List UsageRecord)
    (hd : p.delivery = some d) (hsound : d.Sound st → d'.Sound (st ++ rs))
    (hscan : d'.scan = d.scan) (hrec : d'.record = d.record)
    (hdel : d.client.delivered ≤ d'.client.delivered)
    (hspent : 1 ≤ d.client.delivered → d.Sound st → rs = []) :
    (p.setDelivery d').Ok file B (st ++ rs) wrote := by
  have hdue : Due file B d → Due file B d' := fun hdue => by
    unfold Due
    rw [hscan, hrec]
    exact hdue
  cases p with
  | started | scanned | reporting | killed => cases hd
  | connected env delta d₀ =>
    obtain rfl : d₀ = d := Option.some.inj hd
    obtain ⟨hw, hs, hnew, hle, hsum⟩ := h
    exact ⟨hw, hsound hs, hrec.trans hnew, hscan ▸ hle, hscan ▸ hsum⟩
  | closing d₀ =>
    obtain rfl : d₀ = d := Option.some.inj hd
    exact ⟨h.1, hsound h.2.1, hdue h.2.2⟩
  | counted d₀ k =>
    obtain rfl : d₀ = d := Option.some.inj hd
    exact ⟨h.1, hsound h.2.1, hdue h.2.2.1, h.2.2.2.trans hdel⟩
  | writing t d₀ =>
    obtain rfl : d₀ = some d := hd
    obtain ⟨hw, hs, hdu, ht, hpos, r, hr, hst⟩ := h
    obtain rfl := hspent hpos hs
    refine ⟨hw, hsound hs, hdue hdu, hscan ▸ ht, hpos.trans hdel, r, hrec.trans hr, ?_⟩
    rw [List.append_nil]
    exact hst
  | returned d₀ =>
    obtain rfl : d₀ = some d := hd
    exact ⟨hsound h.1, fun hw => (h.2 hw).trans hdel⟩

/-- A step of a client is seen of no run's scan. -/
theorem Run.Seen.setDelivery {B : TokenTotals} {wrote : Prop} {f : List Line} {p : Run}
    {d d' : Delivery} (h : p.Seen B wrote f) (hd : p.delivery = some d)
    (hscan : d'.scan = d.scan) : (p.setDelivery d').Seen B wrote f := by
  cases p with
  | started | scanned | reporting | killed => cases hd
  | connected | closing | counted =>
    obtain rfl := Option.some.inj hd
    refine h.moved (fun _ => by simp [Run.setDelivery]) (fun scan hs => ?_)
      (by simp [Run.setDelivery])
    rw [← hs]
    exact congrArg some hscan.symm
  | writing t d₀ =>
    obtain rfl : d₀ = some d := hd
    refine h.moved (fun _ => by simp [Run.setDelivery]) (fun scan hs => ?_)
      (by simp [Run.setDelivery])
    rw [← hs]
    exact congrArg some hscan.symm
  | returned d₀ =>
    exact h.moved (fun _ => by simp [Run.setDelivery]) (fun scan hs => (by cases hs))
      (by simp [Run.setDelivery])

theorem emitting_setDelivery {p : Run} {d d' : Delivery} (hd : p.delivery = some d) :
    (p.setDelivery d').emitting = p.emitting := by
  cases p <;> rfl

/-- A step of a client keeps the run's scan and its record, and forgets no delivery. -/
theorem Delivery.step_frame {d d' : Delivery} {a : Emitter.Action UsageRecord}
    (h : d.step a = some d') :
    d'.scan = d.scan ∧ d'.record = d.record ∧ d.client.delivered ≤ d'.client.delivered := by
  unfold Delivery.step at h
  split at h
  · cases h
  rename_i c es hc
  cases h
  exact ⟨rfl, rfl, delivered_le_step hc⟩

/-- So does the end of a sink call. -/
theorem Delivery.sinkReturns_frame {d d' : Delivery} {o : SinkOutcome} {rs : List UsageRecord}
    (h : d.sinkReturns o = some (d', rs)) :
    d'.scan = d.scan ∧ d'.record = d.record ∧ d.client.delivered ≤ d'.client.delivered := by
  unfold Delivery.sinkReturns at h
  split at h
  · obtain ⟨d₁, hd₁, he⟩ := Option.map_eq_some_iff.1 h
    obtain ⟨rfl, -⟩ := Prod.mk.inj he
    exact Delivery.step_frame hd₁
  · obtain ⟨d₁, hd₁, he⟩ := Option.map_eq_some_iff.1 h
    obtain ⟨rfl, -⟩ := Prod.mk.inj he
    exact Delivery.step_frame hd₁
  · obtain ⟨d₁, hd₁, he⟩ := Option.map_eq_some_iff.1 h
    obtain ⟨rfl, -⟩ := Prod.mk.inj he
    exact Delivery.step_frame hd₁
  · split_ifs at h
    obtain ⟨d₁, hd₁, he⟩ := Option.map_eq_some_iff.1 h
    obtain ⟨rfl, -⟩ := Prod.mk.inj he
    have hframe := Delivery.step_frame hd₁
    exact hframe
  · obtain ⟨d₁, hd₁, he⟩ := Option.map_eq_some_iff.1 h
    obtain ⟨rfl, -⟩ := Prod.mk.inj he
    exact Delivery.step_frame hd₁
  · cases h

/-- A run stores one record at most. -/
theorem Run.Ok.length_le {file : List Line} {B : TokenTotals} {st : List UsageRecord} {wrote : Prop}
    {p : Run} (h : p.Ok file B st wrote) : st.length ≤ 1 := by
  cases p with
  | started | scanned | reporting => simp [h.1]
  | connected env delta d => exact h.2.1.length_le
  | closing d => exact h.2.1.length_le
  | counted d k => exact h.2.1.length_le
  | writing t d =>
    cases d with
    | none => exact h.elim
    | some d => exact h.2.1.length_le
  | returned d =>
    cases d with
    | none => simp [h.1]
    | some d => exact h.1.length_le
  | killed => exact h

/-- The transcript grows. -/
theorem Run.Ok.grow {file ls : List Line} {B : TokenTotals} {st : List UsageRecord} {wrote : Prop}
    {p : Run} (h : p.Ok file B st wrote) : p.Ok (file ++ ls) B st wrote := by
  have hle := totals_append_le file ls
  have hdue : ∀ d, Due file B d → Due (file ++ ls) B d := fun d hd => ⟨hd.1.trans hle, hd.2⟩
  cases p with
  | started | killed => exact h
  | scanned env scan => exact ⟨h.1, h.2.1, h.2.2.trans hle⟩
  | reporting env scan b delta => exact ⟨h.1, h.2.1, h.2.2.1.trans hle, h.2.2.2⟩
  | connected env delta d => exact ⟨h.1, h.2.1, h.2.2.1, h.2.2.2.1.trans hle, h.2.2.2.2⟩
  | closing d => exact ⟨h.1, h.2.1, hdue d h.2.2⟩
  | counted d k => exact ⟨h.1, h.2.1, hdue d h.2.2.1, h.2.2.2⟩
  | writing t d =>
    cases d with
    | none => exact h
    | some d => exact ⟨h.1, h.2.1, hdue d h.2.2.1, h.2.2.2⟩
  | returned d => cases d <;> exact h

/-- What a run does after a read, when its scan covers what it read or ended early. -/
theorem afterRead_ok {file : List Line} {B : TokenTotals} {st : List UsageRecord} {wrote : Prop}
    {env : Environment} {scan : ScanResult} (h : (Run.scanned env scan).Ok file B st wrote)
    (hcov : scan.readable = true → B ≤ scan.totals) :
    (afterRead env scan B).Ok file B st wrote ∧ (afterRead env scan B).emitting = false ∧
      (∀ env', afterRead env scan B ≠ .started env') ∧
      (∀ s, (afterRead env scan B).scan = some s → s = scan) ∧
      (afterRead env scan B = .returned none → scan.readable = true → scan.totals ≤ B) := by
  obtain ⟨hst, hw, hle⟩ := h
  unfold afterRead turn
  cases hdelta : turnDelta scan.totals B with
  | none =>
    cases hr : scan.readable with
    | true => exact absurd (hcov hr) (turnDelta_eq_none.1 hdelta)
    | false =>
      exact ⟨⟨hst, hw⟩, rfl, fun _ => by simp, fun s hs => (by cases hs), fun _ hr => by cases hr⟩
  | some delta =>
    dsimp only
    by_cases hz : delta = 0
    · rw [if_pos hz]
      refine ⟨⟨hst, hw⟩, rfl, fun _ => by simp, fun s hs => (by cases hs), fun _ _ => ?_⟩
      have hsum := (turnDelta_eq_some hdelta).2
      rw [hz, add_zero] at hsum
      exact hsum.ge
    · rw [if_neg hz]
      exact ⟨⟨hst, hw, hle, (turnDelta_eq_some hdelta).2⟩, rfl, fun _ => by simp,
        fun s hs => (Option.some.inj hs).symm, fun he => by cases he⟩

/-- Outside an emission the baseline on disk does not matter. -/
theorem Run.Ok.rebase {file : List Line} {B B' : TokenTotals} {st : List UsageRecord}
    {wrote : Prop} {p : Run} (h : p.Ok file B st wrote) (hem : p.emitting = false) :
    p.Ok file B' st wrote := by
  cases p with
  | started | scanned | reporting | killed => exact h
  | connected | closing | counted | writing => cases hem
  | returned d => cases d <;> exact h

/-- A kept record's run replaces the state file. -/
theorem Coherent.wrote {evs : List Event} {w : World} {i : ℕ} {d : Delivery} {t : TokenTotals}
    (h : Coherent evs w) (hp : w.runs[i]? = some (.writing t (some d)))
    (transcriptPath updatedAt : Text) :
    Coherent (evs ++ [.wrote i])
      { w with
        baseline := some (payload transcriptPath updatedAt t)
        runs := w.runs.set i (.returned (some d)) } ∧ readBaseline w.baseline ≤ t := by
  obtain ⟨hw, hs, hdue, rfl, hpos, r, hr, hst⟩ := h.ok i _ hp
  have hlt : i < w.runs.length := (List.getElem?_eq_some_iff.1 hp).1
  have hsum : readBaseline w.baseline + r.counts = d.scan.totals := hdue.2 r hr
  have hle : readBaseline w.baseline ≤ d.scan.totals :=
    hsum ▸ le_add_of_nonneg_right zero_le
  have hself : (w.runs.set i (.returned (some d)))[i]? = some (.returned (some d)) :=
    List.getElem?_set_self hlt
  have hother : ∀ j, j ≠ i → (w.runs.set i (.returned (some d)))[j]? = w.runs[j]? := fun j hj =>
    List.getElem?_set_ne (Ne.symm hj)
  have hmem : ∀ j, j ≠ i → (j ∈ writers (evs ++ [.wrote i]) ↔ j ∈ writers evs) := fun j hj => by
    simp [writers, Event.writer, hj]
  have hby : ∀ j, storedBy j (evs ++ [.wrote i]) = storedBy j evs := fun j => by
    rw [storedBy_append]
    exact List.append_nil _
  refine ⟨⟨?_, ?_, ?_, ?_, ?_, ?_⟩, hle⟩
  · intro x hx
    rw [List.length_set]
    rcases List.mem_append.1 hx with hx | hx
    · exact h.bound x hx
    · obtain rfl := List.mem_singleton.1 hx
      exact hlt
  · intro j q hq
    rw [hby]
    by_cases hj : j = i
    · subst hj
      obtain rfl := Option.some.inj (hself.symm.trans hq)
      exact ⟨hs, fun _ => hpos⟩
    · rw [hother j hj] at hq
      rw [hmem j hj]
      refine (h.ok j q hq).rebase ?_
      by_contra hem
      exact hj (h.alone j i q _ hq hp (by simpa using hem) rfl)
  · intro j k q u hq hu hqe hue
    have hne : ∀ j (q : Run), (w.runs.set i (.returned (some d)))[j]? = some q →
        q.emitting = true → w.runs[j]? = some q := fun j q hq hqe => by
      by_cases hj : j = i
      · subst hj
        obtain rfl := Option.some.inj (hself.symm.trans hq)
        cases hqe
      · rwa [hother j hj] at hq
    exact h.alone j k q u (hne j q hq hqe) (hne k u hu hue) hqe hue
  · -- the run's record is reported from now on
    have hone : countsOf ((storedOf evs).filter fun p => p.1 = i) = r.counts := by
      have : ((storedOf evs).filter fun p => p.1 = i).map (fun p => p.2.counts) =
          (storedBy i evs).map (·.counts) := by
        simp [storedBy, Function.comp_def]
      rw [countsOf, this, hst]
      simp
    have hwr : writers (evs ++ [.wrote i]) = writers evs ++ [i] := by
      rw [writers_append]
      rfl
    have hso : storedOf (evs ++ [.wrote i]) = storedOf evs := by
      rw [storedOf_append]
      exact List.append_nil _
    show readBaseline (some (payload transcriptPath updatedAt d.scan.totals)) = _
    rw [readBaseline_payload, reported, hwr, hso, countsOf_filter_snoc _ _ hw, hone, ← hsum, h.exact,
      reported]
  · show readBaseline (some (payload transcriptPath updatedAt d.scan.totals)) ≤ _
    rw [readBaseline_payload]
    exact hdue.1
  · intro j f hf q hq
    show q.Seen (readBaseline (some (payload transcriptPath updatedAt d.scan.totals))) _ f
    rw [readBaseline_payload]
    replace hf : Event.scanned j f ∈ evs := by simpa using hf
    by_cases hj : j = i
    · subst hj
      obtain rfl := Option.some.inj (hself.symm.trans hq)
      have hseen := ((h.seen j f hf _ hp).2.1 d.scan rfl).2
      exact ⟨fun _ => by simp, fun s hs' => (by cases hs'), fun _ => hseen.ge⟩
    · rw [hother j hj] at hq
      rw [hmem j hj]
      obtain ⟨h₁, h₂, h₃⟩ := h.seen j f hf q hq
      exact ⟨h₁, h₂, fun hret => (h₃ hret).trans hle⟩

/-- **A move keeps the law.** -/
theorem Coherent.move {evs e : List Event} {w : World} {a : Action} {i : ℕ} {p p' : Run}
    (h : Coherent evs w) (hund : Undisturbed w a) (hp : w.runs[i]? = some p)
    (hmove : Move w i a p p' e) : Coherent (evs ++ e) (w.set i p') := by
  have hokp := h.ok i p hp
  cases hmove with
  | scan env r =>
    have hev : ∀ f, Event.scanned i f ∈ evs ++
        (if r = .whole then [Event.scanned i w.file] else []) → r = .whole ∧ f = w.file := by
      intro f hf
      rcases List.mem_append.1 hf with hf | hf
      · exact absurd rfl ((h.seen i f hf _ hp).1 env)
      · split_ifs at hf with hr
        · simp only [List.mem_singleton, Event.scanned.injEq, true_and] at hf
          exact ⟨hr, hf⟩
        · cases hf
    have hnil : storedBy i (if r = .whole then [Event.scanned i w.file] else []) = [] := by
      split_ifs <;> rfl
    refine h.update hp ?_ ?_ ?_ (fun he => by cases he) (.inl hnil) fun f hf => ?_
    · intro x hx
      split_ifs at hx
      · obtain rfl := List.mem_singleton.1 hx
        rfl
      · cases hx
    · split_ifs <;> rfl
    · rw [hnil, List.append_nil]
      exact ⟨hokp.1, hokp.2, scanTranscript_totals_le w.file r⟩
    · obtain ⟨rfl, rfl⟩ := hev f hf
      exact ⟨fun _ => by simp, fun s hs => (by obtain rfl := Option.some.inj hs; exact ⟨rfl, rfl⟩),
        fun hw => absurd (hw.resolve_right (by simp)) hokp.2⟩
  | readBaseline env scan =>
    obtain ⟨hok, hem, hns, hsc, hnone⟩ := afterRead_ok hokp (hund env scan hp)
    refine h.silent hp hok (fun he => by rw [hem] at he; cases he) fun f hf => ?_
    obtain ⟨hreadable, hall⟩ := hf.2.1 scan rfl
    refine ⟨hns, fun s hs => by rw [hsc s hs]; exact ⟨hreadable, hall⟩, fun hret => ?_⟩
    rcases hret with hw | hret
    · exact hf.2.2 (.inl hw)
    · exact hall ▸ hnone hret hreadable
  | connect env scan b delta cfg degraded droppedBefore =>
    obtain ⟨hst, hw, hle, hsum⟩ := hokp
    obtain ⟨rfl, halone⟩ := hund env scan b delta hp
    refine h.silent hp ?_ (fun _ => .inr halone) fun f hf => ?_
    · rw [hst]
      exact ⟨hw, Delivery.sound_init scan cfg degraded droppedBefore, rfl, hle, hsum⟩
    · exact hf.moved (fun _ => by simp) (fun s hs => hs) (by simp)
  | emit env delta d =>
    obtain ⟨hw, hs, hnew, hle, hsum⟩ := hokp
    have hst : storedBy i evs = [] := List.eq_nil_iff_forall_not_mem.2 fun x hx => by
      have := hs.stored x hx
      rw [hnew] at this
      cases this
    have hscan : (d.emit env delta).scan = d.scan := by
      unfold Delivery.emit
      split <;> rfl
    have hrec : ∀ r, (d.emit env delta).record = some r → r.counts = delta := fun r hr => by
      unfold Delivery.emit at hr
      split at hr
      · rw [hnew] at hr
        cases hr
      · rename_i r' hr'
        obtain rfl := Option.some.inj hr
        exact buildRecord_counts hr'
    refine h.silent hp ?_ (fun _ => .inl rfl) fun f hf => ?_
    · rw [hst] at hs ⊢
      refine ⟨hw, hs.emit hnew env delta, hscan ▸ hle, fun r hr => ?_⟩
      rw [hscan, hrec r hr]
      exact hsum
    · refine hf.moved (fun _ => by simp) (fun s hs' => ?_) (by simp)
      rw [← hs']
      exact congrArg some hscan.symm
  | client p d d' a hd ha hstep =>
    obtain ⟨hscan, hrec, hdel⟩ := Delivery.step_frame hstep
    have ha' : isWorker a = true ∨ isClose a = true := by
      unfold Run.allows at ha
      split at ha
      · exact (Bool.or_eq_true _ _ ▸ ha).symm
      · exact .inl ha
    have hok := hokp.setDelivery [] hd
      (fun hs => by rw [List.append_nil]; exact hs.step ha' hstep) hscan hrec hdel (fun _ _ => rfl)
    rw [List.append_nil] at hok
    exact h.silent hp hok (fun he => .inl (by rwa [emitting_setDelivery hd] at he))
      fun f hf => hf.setDelivery hd hscan
  | sinkReturns p d d' o rs hd hstep =>
    obtain ⟨hscan, hrec, hdel⟩ := Delivery.sinkReturns_frame hstep
    have hby : storedBy i [Event.stored i rs] = rs := by
      simp [storedBy, storedOf, Event.storedPart, List.filter_map, Function.comp_def]
    have hspent : 1 ≤ d.client.delivered → ∀ st, d.Sound st → rs = [] := fun hpos st hs => by
      rw [hs.spent hpos o] at hstep
      cases hstep
    have hok := hokp.setDelivery rs hd (fun hs => hs.sinkReturns hstep) hscan hrec hdel
      (fun hpos hs => hspent hpos _ hs)
    refine h.update hp ?_ rfl ?_ (fun he => .inl (by rwa [emitting_setDelivery hd] at he)) ?_
      fun f hf => ?_
    · intro x hx
      obtain rfl := List.mem_singleton.1 hx
      rfl
    · rw [hby]
      exact hok
    · rw [hby]
      by_cases hw : i ∈ writers evs
      · -- a run that wrote has delivered its record
        left
        cases p with
        | started | scanned | reporting | killed => cases hd
        | connected | closing | counted => exact absurd hw hokp.1
        | writing t d₀ =>
          obtain rfl : d₀ = some d := hd
          exact absurd hw hokp.1
        | returned d₀ =>
          obtain rfl : d₀ = some d := hd
          exact hspent (hokp.2 hw) _ hokp.1
      · exact .inr hw
    · refine (h.seen i f ?_ p hp).setDelivery hd hscan
      simpa using hf
  | readStats d hcl =>
    obtain ⟨hw, hs, hdue⟩ := hokp
    exact h.silent hp ⟨hw, hs, hdue, le_rfl⟩ (fun _ => .inl rfl) fun f hf =>
      hf.moved (fun _ => by simp) (fun s hs => hs) (by simp)
  | kept d k hk =>
    obtain ⟨hw, hs, hdue, hle⟩ := hokp
    obtain ⟨r, hr, hst, hpos⟩ := hs.stored_of_kept hle hk
    exact h.silent hp ⟨hw, hs, hdue, rfl, hpos, r, hr, hst⟩ (fun _ => .inl rfl) fun f hf =>
      hf.moved (fun _ => by simp) (fun s hs => hs) (by simp)
  | notKept d k hk =>
    obtain ⟨hw, hs, hdue, hle⟩ := hokp
    exact h.silent hp ⟨hs, fun hw' => absurd hw' hw⟩ (fun he => by cases he) fun f hf =>
      hf.moved (fun _ => by simp) (fun s hs => (by cases hs)) (by simp)
  | writeFails t d transcriptPath updatedAt =>
    cases d with
    | none => exact hokp.elim
    | some d =>
      obtain ⟨hw, hs, -⟩ := hokp
      exact h.silent hp ⟨hs, fun hw' => absurd hw' hw⟩ (fun he => by cases he) fun f hf =>
        hf.moved (fun _ => by simp) (fun s hs => (by cases hs)) (by simp)
  | kill p =>
    exact h.silent hp hokp.length_le (fun he => by cases he) fun f hf =>
      hf.moved (fun _ => by simp) (fun s hs => (by cases hs)) (by simp)

/-- A run that starts. -/
theorem Coherent.started {evs : List Event} {w : World} (h : Coherent evs w) (env : Environment) :
    Coherent evs { w with runs := w.runs ++ [.started env] } := by
  have hnew : ∀ (i : ℕ) (p : Run), (w.runs ++ [.started env])[i]? = some p →
      w.runs[i]? = some p ∨ i = w.runs.length ∧ p = .started env := fun _ _ => getElem?_snoc
  have hfresh : ∀ x ∈ evs, x.run ≠ w.runs.length := fun x hx => (h.bound x hx).ne
  have hnw : w.runs.length ∉ writers evs := fun hmem => by
    obtain ⟨x, hx, hxw⟩ := List.mem_filterMap.1 hmem
    cases x with
    | wrote j =>
      obtain rfl := Option.some.inj hxw
      exact hfresh _ hx rfl
    | scanned | stored => cases hxw
  refine ⟨fun x hx => ?_, fun i p hp => ?_, fun i j p q hp hq hpe hqe => ?_, h.exact, h.le,
    fun i f hf p hp => ?_⟩
  · rw [List.length_append]
    exact (h.bound x hx).trans_le (Nat.le_add_right _ _)
  · rcases hnew i p hp with hp | ⟨rfl, rfl⟩
    · exact h.ok i p hp
    · exact ⟨storedBy_eq_nil hfresh, hnw⟩
  · rcases hnew i p hp with hp | ⟨-, rfl⟩
    · rcases hnew j q hq with hq | ⟨-, rfl⟩
      · exact h.alone i j p q hp hq hpe hqe
      · cases hqe
    · cases hpe
  · rcases hnew i p hp with hp | ⟨rfl, -⟩
    · exact h.seen i f hf p hp
    · exact absurd rfl (hfresh _ hf)

/-- **The law is kept by every undisturbed step**, and the baseline does not decrease. -/
theorem Coherent.step {evs e : List Event} {w w' : World} {a : Action} (h : Coherent evs w)
    (hund : Undisturbed w a) (hstep : step w a = some (w', e)) :
    Coherent (evs ++ e) w' ∧ readBaseline w.baseline ≤ readBaseline w'.baseline := by
  cases step_cases hstep with
  | grow ls =>
    rw [List.append_nil]
    exact ⟨⟨h.bound, fun i p hp => (h.ok i p hp).grow, h.alone, h.exact,
      h.le.trans (totals_append_le w.file ls), h.seen⟩, le_rfl⟩
  | start env =>
    rw [List.append_nil]
    exact ⟨h.started env, le_rfl⟩
  | move i a p p' e hp hmove => exact ⟨h.move hund hp hmove, le_rfl⟩
  | wrote i t d transcriptPath updatedAt hp =>
    cases d with
    | none => exact (h.ok i _ hp).elim
    | some d =>
      obtain ⟨hco, hle⟩ := h.wrote hp transcriptPath updatedAt
      refine ⟨hco, ?_⟩
      show _ ≤ readBaseline (some (payload transcriptPath updatedAt t))
      rwa [readBaseline_payload]

/-- **The law holds along every undisturbed run**, and the baseline does not decrease. -/
theorem Coherent.run {evs e : List Event} {w w' : World} {as : List Action} (h : Coherent evs w)
    (hund : hook.Along Undisturbed w as) (hrun : hook.run w as = some (w', e)) :
    Coherent (evs ++ e) w' ∧ readBaseline w.baseline ≤ readBaseline w'.baseline :=
  Machine.run_induction_along
    (I := fun es t => Coherent es t ∧ readBaseline w.baseline ≤ readBaseline t.baseline)
    ⟨h, le_rfl⟩
    (fun _ _ _ _ _ hI hP hstep =>
      let hnext := hI.1.step hP hstep
      ⟨hnext.1, hI.2.trans hnext.2⟩)
    hund hrun

end Tokenweir.ClaudeCode
