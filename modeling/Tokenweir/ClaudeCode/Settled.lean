import Mathlib.Tactic
import Tokenweir.ClaudeCode.Baseline

/-!
# Runs that are not cut short

A run that is not killed, whose `close` does not time out and whose `write_baseline` does not
fail, has written what it stored when it returns. So what was stored is the baseline and the
record of the one run that is still emitting.

* `Prompt`, the condition on a step; `Settled`, what it preserves;
* `Settled.stored_le`, `Settled.stored_eq`.
-/

namespace Tokenweir.ClaudeCode

open Emitter (Worker State)

/-! ### The condition on a step -/

/-- No kill, no timed-out `close` and no failed `write_baseline`. -/
def Prompt (_ : World) : Action → Prop
  | .kill _ => False
  | .client _ a => a ≠ .joinTimedOut
  | .write _ _ _ ok => ok = true
  | _ => True

instance (w : World) : ∀ a, Decidable (Prompt w a)
  | .kill _ => .isFalse id
  | .client _ a => inferInstanceAs (Decidable (a ≠ .joinTimedOut))
  | .write _ _ _ ok => inferInstanceAs (Decidable (ok = true))
  | .grow _ | .start _ | .scan _ _ | .readBaseline _ | .connect _ _ _ _ | .emit _
  | .sinkReturns _ _ | .readStats _ | .decide _ => .isTrue trivial

/-- A run that is not cut short, which has stored `st`: its worker has finished when `close`
returns, and what it stored it goes on to write. -/
def Run.Settled (st : List UsageRecord) (wrote : Prop) : Run → Prop
  | .connected _ _ d | .closing d => d.Orderly
  | .counted d delivered => d.client.worker = .stopped ∧ delivered = d.client.delivered
  | .writing _ (some d) => d.client.worker = .stopped
  | .returned (some d) => d.client.worker = .stopped ∧ (st = [] ∨ wrote)
  | .killed => False
  | _ => True

/-- Every run so far is settled. -/
def Settled (evs : List Event) (w : World) : Prop :=
  ∀ (i : ℕ) (p : Run), w.runs[i]? = some p → p.Settled (storedBy i evs) (i ∈ writers evs)

/-- One run moves, with its events. -/
theorem Settled.update {evs e : List Event} {w : World} {i : ℕ} {p p' : Run} (h : Settled evs w)
    (hp : w.runs[i]? = some p) (hrun : ∀ x ∈ e, x.run = i)
    (hset : p'.Settled (storedBy i (evs ++ e)) (i ∈ writers (evs ++ e))) :
    Settled (evs ++ e) (w.set i p') := by
  intro j q hq
  by_cases hj : j = i
  · subst hj
    rw [World.set, List.getElem?_set_self (List.getElem?_eq_some_iff.1 hp).1] at hq
    obtain rfl := Option.some.inj hq
    exact hset
  · rw [World.set, List.getElem?_set_ne (Ne.symm hj)] at hq
    have hnone : storedBy j e = [] := storedBy_eq_nil fun x hx hxj => hj (hxj ▸ hrun x hx)
    have hwr : j ∉ writers e := fun hmem => by
      obtain ⟨x, hx, hxw⟩ := List.mem_filterMap.1 hmem
      cases x with
      | wrote k =>
        obtain rfl := Option.some.inj hxw
        exact hj (hrun _ hx)
      | scanned | stored => cases hxw
    rw [storedBy_append, hnone, List.append_nil, writers_append, List.mem_append,
      or_iff_left hwr]
    exact h j q hq

/-- A step of the client, of a run that is not cut short. -/
theorem Run.Settled.client {st : List UsageRecord} {wrote : Prop} {p : Run} {d d' : Delivery}
    {a : Emitter.Action UsageRecord} (h : p.Settled st wrote) (hd : p.delivery = some d)
    (ha : p.allows a = true) (hin : a ≠ .joinTimedOut) (hstep : d.step a = some d') :
    (p.setDelivery d').Settled st wrote := by
  -- past `close` the worker has finished, and takes no step
  have hdone : isWorker a = true → d.client.worker = .stopped → False := fun hw hs => by
    rw [step_stopped hw hs] at hstep
    cases hstep
  cases p with
  | started | scanned | reporting | killed => cases hd
  | connected env delta d₀ =>
    obtain rfl : d₀ = d := Option.some.inj hd
    exact Delivery.Orderly.step h (.inl ha) hin hstep
  | closing d₀ =>
    obtain rfl : d₀ = d := Option.some.inj hd
    have hor : isClose a = true ∨ isWorker a = true := by simpa [Run.allows] using ha
    exact Delivery.Orderly.step h hor.symm hin hstep
  | counted d₀ k =>
    obtain rfl : d₀ = d := Option.some.inj hd
    exact (hdone ha h.1).elim
  | writing t d₀ =>
    obtain rfl : d₀ = some d := hd
    exact (hdone ha h).elim
  | returned d₀ =>
    obtain rfl : d₀ = some d := hd
    exact (hdone ha h.1).elim

/-- The end of a sink call, of a run that is not cut short. -/
theorem Run.Settled.sinkReturns {st st' : List UsageRecord} {wrote wrote' : Prop} {p : Run}
    {d d' : Delivery} {o : SinkOutcome} {rs : List UsageRecord} (h : p.Settled st wrote)
    (hd : p.delivery = some d) (hstep : d.sinkReturns o = some (d', rs)) :
    (p.setDelivery d').Settled st' wrote' := by
  obtain ⟨hcl, hnot⟩ := ClaudeCode.sinkReturns_frame hstep
  have horderly : d.Orderly → d'.Orderly := fun ho =>
    ⟨hcl ▸ ho.inTime, fun hr => absurd (ho.joined (hcl ▸ hr)) hnot⟩
  cases p with
  | started | scanned | reporting | killed => cases hd
  | connected env delta d₀ =>
    obtain rfl : d₀ = d := Option.some.inj hd
    exact horderly h
  | closing d₀ =>
    obtain rfl : d₀ = d := Option.some.inj hd
    exact horderly h
  | counted d₀ k =>
    obtain rfl : d₀ = d := Option.some.inj hd
    exact absurd h.1 hnot
  | writing t d₀ =>
    obtain rfl : d₀ = some d := hd
    exact absurd h hnot
  | returned d₀ =>
    obtain rfl : d₀ = some d := hd
    exact absurd h.1 hnot

/-- The client of a run that emits is still open. -/
theorem Delivery.Orderly.emit {d : Delivery} (h : d.Orderly) (env : Environment)
    (delta : TokenTotals) : (d.emit env delta).Orderly := by
  have hframe : ∀ r, (Emitter.offer d.cfg d.client (.record r)).1.closer = d.client.closer ∧
      (Emitter.offer d.cfg d.client (.record r)).1.worker = d.client.worker := fun r => by
    unfold Emitter.offer
    dsimp only
    split_ifs <;> exact ⟨rfl, rfl⟩
  unfold Delivery.emit
  split
  · exact h
  · rename_i r hr
    obtain ⟨hcl, hw⟩ := hframe r
    refine ⟨?_, ?_⟩
    · show (Emitter.offer d.cfg d.client (.record r)).1.closer ≠ _ ∧ _
      rw [hcl]
      exact h.inTime
    · show (Emitter.offer d.cfg d.client (.record r)).1.closer = _ → _
      rw [hcl]
      exact fun hret => hw.trans (h.joined hret)

/-- **Prompt steps keep the runs settled.** -/
theorem Settled.step {evs e : List Event} {w w' : World} {a : Action} (h : Settled evs w)
    (hco : Coherent evs w) (hprompt : Prompt w a) (hstep : step w a = some (w', e)) :
    Settled (evs ++ e) w' := by
  cases step_cases hstep with
  | grow ls =>
    rw [List.append_nil]
    exact h
  | start env =>
    rw [List.append_nil]
    intro i p hp
    rcases getElem?_snoc hp with hp | ⟨-, rfl⟩
    · exact h i p hp
    · trivial
  | wrote i t d transcriptPath updatedAt hp =>
    have hset := h i _ hp
    refine h.update hp (fun x hx => by rw [List.mem_singleton.1 hx]; rfl) ?_
    cases d with
    | none => trivial
    | some d => exact ⟨hset, .inr (by simp [writers, Event.writer])⟩
  | move i a p p' e hp hmove =>
    have hset := h i p hp
    have hok := hco.ok i p hp
    cases hmove with
    | scan env r =>
      refine h.update hp (fun x hx => ?_) trivial
      split_ifs at hx
      · rw [List.mem_singleton.1 hx]
        rfl
      · cases hx
    | readBaseline env scan =>
      refine h.update hp (fun x hx => by cases hx) ?_
      unfold afterRead
      split <;> trivial
    | connect env scan b delta cfg degraded droppedBefore =>
      exact h.update hp (fun x hx => by cases hx) ⟨⟨by simp [State.init], by simp [State.init]⟩,
        fun hr => by simp [State.init] at hr⟩
    | emit env delta d =>
      exact h.update hp (fun x hx => by cases hx) (Delivery.Orderly.emit hset env delta)
    | client p d d' a hd ha hs =>
      refine h.update hp (fun x hx => by cases hx) ?_
      rw [List.append_nil]
      exact hset.client hd ha hprompt hs
    | sinkReturns p d d' o rs hd hs =>
      refine h.update hp (fun x hx => by rw [List.mem_singleton.1 hx]; rfl) ?_
      exact hset.sinkReturns hd hs
    | readStats d hcl =>
      refine h.update hp (fun x hx => by cases hx) ?_
      rcases hcl with hcl | hcl
      · exact ⟨hset.joined hcl, rfl⟩
      · exact absurd hcl hset.inTime.2
    | kept d k hk => exact h.update hp (fun x hx => by cases hx) hset.1
    | notKept d k hk =>
      refine h.update hp (fun x hx => by cases hx) ?_
      obtain ⟨hw, rfl⟩ := hset
      rw [List.append_nil]
      exact ⟨hw, .inl (hok.2.1.nothing_of_not_kept hw hk)⟩
    | writeFails t d transcriptPath updatedAt => cases hprompt
    | kill => exact hprompt.elim

/-- A record whose run has not written the baseline is that of a run that is still emitting. -/
theorem Settled.emitting {evs : List Event} {w : World} (h : Settled evs w) (hco : Coherent evs w)
    {i : ℕ} {r : UsageRecord} (hmem : (i, r) ∈ storedOf evs) (hw : i ∉ writers evs) :
    ∃ p, w.runs[i]? = some p ∧ p.emitting = true := by
  obtain ⟨x, hx, hrun⟩ := run_of_mem_storedOf hmem
  have hlt : i < w.runs.length := by
    have := hco.bound x hx
    rwa [hrun] at this
  obtain ⟨p, hp⟩ : ∃ p, w.runs[i]? = some p := ⟨_, List.getElem?_eq_getElem hlt⟩
  refine ⟨p, hp, ?_⟩
  have hok := hco.ok i p hp
  have hset := h i p hp
  have hne : storedBy i evs ≠ [] := List.ne_nil_of_mem (mem_storedOf.1 hmem)
  cases p with
  | started env => exact absurd hok.1 hne
  | scanned env scan => exact absurd hok.1 hne
  | reporting env scan b delta => exact absurd hok.1 hne
  | connected | closing | counted | writing => rfl
  | returned d =>
    cases d with
    | none => exact absurd hok.1 hne
    | some d => exact (hset.2.elim hne hw).elim
  | killed => exact hset.elim

/-- **Prompt runs stay settled.** -/
theorem Settled.run {evs e : List Event} {w w' : World} {as : List Action} (h : Settled evs w)
    (hco : Coherent evs w) (hund : hook.Along Undisturbed w as) (hprompt : hook.Along Prompt w as)
    (hrun : hook.run w as = some (w', e)) : Settled (evs ++ e) w' :=
  (Machine.run_induction_along (I := fun es t => Coherent es t ∧ Settled es t) ⟨hco, h⟩
    (fun _ _ _ _ _ hI hP hstep =>
      ⟨(hI.1.step hP.1 hstep).1, hI.2.step hI.1 hP.2 hstep⟩)
    (hund.and hprompt) hrun).2

theorem settled_init : Settled [] {} := fun i p hp => by simp at hp

/-! ### What was stored -/

/-- What was stored is the baseline and what its runs have not written yet. -/
theorem countsOf_storedOf (evs : List Event) :
    countsOf (storedOf evs) =
      reported evs + countsOf ((storedOf evs).filter fun p => p.1 ∉ writers evs) := by
  unfold reported
  induction storedOf evs with
  | nil => rfl
  | cons p ps ih =>
    have hcons : ∀ ps, countsOf (p :: ps) = p.2.counts + countsOf ps := fun ps => by
      simp [countsOf]
    by_cases hp : p.1 ∈ writers evs
    · rw [List.filter_cons_of_pos (by simpa using hp), List.filter_cons_of_neg (by simpa using hp),
        hcons, hcons, ih, add_assoc]
    · rw [List.filter_cons_of_neg (by simpa using hp), List.filter_cons_of_pos (by simpa using hp),
        hcons, hcons, ih]
      abel

/-- **With no run under way, what was stored is the baseline.** -/
theorem Settled.stored_eq {evs : List Event} {w : World} (h : Settled evs w) (hco : Coherent evs w)
    (hdone : ∀ p ∈ w.runs, p.live = false) :
    countsOf (storedOf evs) = readBaseline w.baseline := by
  have hnone : (storedOf evs).filter (fun p => p.1 ∉ writers evs) = [] := by
    rw [List.filter_eq_nil_iff]
    rintro ⟨i, r⟩ hmem
    by_contra hw
    obtain ⟨p, hp, hem⟩ := h.emitting hco hmem (by simpa using hw)
    have hlive := hdone p (List.mem_of_getElem? hp)
    rw [live_of_emitting hem] at hlive
    cases hlive
  rw [countsOf_storedOf, hnone, hco.exact]
  exact add_zero _

/-- **What was stored never exceeds the transcript.** -/
theorem Settled.stored_le {evs : List Event} {w : World} (h : Settled evs w)
    (hco : Coherent evs w) : countsOf (storedOf evs) ≤ totals w.file := by
  rw [countsOf_storedOf, ← hco.exact]
  by_cases hnone : (storedOf evs).filter (fun p => p.1 ∉ writers evs) = []
  · rw [hnone]
    exact (add_zero (readBaseline w.baseline)).trans_le hco.le
  · -- the record of the one run that is emitting
    obtain ⟨⟨i, r⟩, hmem⟩ := List.exists_mem_of_ne_nil _ hnone
    obtain ⟨hmem, hw⟩ := List.mem_filter.1 hmem
    have hw : i ∉ writers evs := by simpa using hw
    obtain ⟨p, hp, hem⟩ := h.emitting hco hmem hw
    have hfilter : (storedOf evs).filter (fun p => p.1 ∉ writers evs) =
        (storedOf evs).filter fun p => p.1 = i := by
      refine List.filter_congr fun q hq => ?_
      by_cases hqw : q.1 ∈ writers evs
      · have hne : q.1 ≠ i := fun he => hw (he ▸ hqw)
        simp [hqw, hne]
      · obtain ⟨p', hp', hem'⟩ := h.emitting hco (i := q.1) (r := q.2) hq hqw
        have he : q.1 = i := hco.alone q.1 i p' p hp' hp hem' hem
        simp [he, hw]
    have hcounts : countsOf ((storedOf evs).filter fun p => p.1 = i) =
        ((storedBy i evs).map (·.counts)).sum := by
      simp [countsOf, storedBy, Function.comp_def]
    have hok := hco.ok i p hp
    have hby : r ∈ storedBy i evs := mem_storedOf.1 hmem
    obtain ⟨x, hx⟩ := List.length_eq_one_iff.1
      (le_antisymm hok.length_le (List.length_pos_of_mem hby))
    rw [hx, List.mem_singleton] at hby
    subst hby
    rw [hfilter, hcounts, hx]
    have hdue : ∀ d : Delivery, d.Sound (storedBy i evs) → Due w.file (readBaseline w.baseline) d →
        readBaseline w.baseline + ([r].map (·.counts)).sum ≤ totals w.file := fun d hs hdue => by
      have hrec := hs.stored r (by rw [hx]; exact List.mem_cons_self)
      have hsum : ([r].map (·.counts)).sum = r.counts := by simp
      rw [hsum, hdue.2 r hrec]
      exact hdue.1
    cases p with
    | started | scanned | reporting | returned | killed => cases hem
    | connected env delta d =>
      obtain ⟨-, hs, hnew, -⟩ := hok
      have := hs.stored r (by rw [hx]; exact List.mem_cons_self)
      rw [hnew] at this
      cases this
    | closing d => exact hdue d hok.2.1 hok.2.2
    | counted d k => exact hdue d hok.2.1 hok.2.2.1
    | writing t d =>
      cases d with
      | none => exact hok.elim
      | some d => exact hdue d hok.2.1 hok.2.2.1

/-! ### One turn, run to its end -/

/-- An environment that names nothing but the application. -/
def plainEnvironment : Environment where
  appId := Text.of "app"
  endpoint := Text.of "messages"
  workload := none
  queue := none
  parentRequestId := none
  pricingMode := .apiMetered
  sessionId := none
  uuid := Text.of "0"
  normalizeTs ts := ts.getD (Text.of "0")

/-- A line of the transcript with `n` input tokens. -/
def usageLine (n : ℤ) : Line :=
  .entry (.obj [(Text.of "message", .obj [(Text.of "usage",
    .obj [(Text.of "input_tokens", .int n)])])])

/-- A client that delivers each record on its own. -/
def oneByOne : Emitter.Config := ⟨4, 1, 0, false, true, by decide, by decide, le_rfl⟩

/-- The emission of run `i`, from the choice of its sink to what it makes of the statistics. -/
def emission (i : ℕ) (o : SinkOutcome) : List Action :=
  [.connect i oneByOne false none, .emit i, .client i (.acquire 0 0), .client i .handOver,
    .sinkReturns i o, .client i .count, .client i .settle, .client i (.closeBegin false),
    .client i (.acquire 0 0), .client i .finish, .client i .closeSink,
    .client i (.sinkCloseReturns .returned), .client i .joined, .readStats i, .decide i]

end Tokenweir.ClaudeCode
