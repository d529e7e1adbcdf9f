import Tokenweir.Lib.Session

/-!
# Parties that keep a discipline

Parties whose programs make their statements only while they hold the lock, or that are alone, and
commit only what may be committed: then what their programs rely on holds at every moment of every
run.

* `Discipline`, `Discipline.protocol`, what one program has to follow, with the others as it may
  meet them;
* `Follows.of_data`, `Follows.closed`, what the others do to it;
* `Sound`, `Sound.progress`, `Sound.good`, `Sound.result`; `sound_step`, `sound_run`.
-/

namespace Tokenweir

variable {ι S : Type} {A : S → Type} {L D ε ρ C : Type}

/-- What the parties keep to: an invariant of the data, and, for a call, what relates the data to
those that it began with, what it can rely on at a statement, and what its result says. -/
structure Discipline (S L D ε ρ C : Type) where
  inv : D → Prop
  serial : Prop
  progress : C → D → D → Prop
  good : C → Local L D → S → Prop
  result : C → Except ε ρ → D → D → Prop

namespace Discipline

variable (K : Discipline S L D ε ρ C) (δ : Dialect S A L D)

/-- No other party changes the data. -/
def Exclusive (l : Local L D) : Prop := K.serial ∨ 0 < l.locks

/-- What the program of a call may ask. -/
def Allowed (c : C) (l : Local L D) : Request S → Prop
  | .statement s => K.Exclusive l ∧ K.good c l s ∧ ∀ a l', l.session.autocommit = true →
      l.perform δ l.data (.statement s) = some (a, l') → K.inv l'.data
  | .commit => l.session.Neutral ∨ (K.Exclusive l ∧ K.inv l.committed)
  | .unlock => l.session.Neutral
  | .lock | .rollback => True

/-- What a request comes to. -/
inductive Outcome (l : Local L D) (issued : D) : (q : Request S) → Except ε (Answer A q) →
    Local L D → Prop
  | performed {q : Request S} {a : Answer A q} {l' : Local L D} :
    l.perform δ issued q = some (a, l') → Outcome l issued q (.ok a) l'
  | failed {q : Request S} (e : ε) : Outcome l issued q (.error e) (l.fail δ issued q)
  | closed {q : Request S} (e : ε) : Outcome l issued q (.error e) l.close

/-- What the program of a call meets: without exclusion, the data may have changed before its
request is answered. -/
def protocol (c : C) : Protocol (Local L D) (Request S) (Answer A) ε where
  allowed l q := (K.Exclusive l → K.progress c l.base l.data) ∧
    (l.session.alive = true → K.Allowed δ c l q)
  next l q x l' := ∃ d issued, (K.Exclusive l → d = l.data) ∧ K.inv d ∧
    (q ≠ .lock → issued = d) ∧ Outcome δ { l with data := d } issued q x l'

/-- What holds after a call. -/
def Post (c : C) (l : Local L D) (r : Except ε ρ) : Prop :=
  l.session.Spent ∧ (K.Exclusive l → K.progress c l.base l.data ∧ K.result c r l.base l.data)

variable {K δ} {c : C} {l : Local L D} {p : Program (Request S) (Answer A) ε ρ}

/-- Without exclusion, a program does not rely on the data. -/
theorem Follows.of_data (h : p.Follows (K.protocol δ c) (K.Post c) l) (hnot : ¬ K.Exclusive l)
    (d : D) : p.Follows (K.protocol δ c) (K.Post c) { l with data := d } := by
  have hnot' : ¬ K.Exclusive { l with data := d } := hnot
  cases p with
  | done r => exact ⟨h.1, fun hex => absurd hex hnot'⟩
  | ask q next =>
    refine ⟨⟨fun hex => absurd hex hnot', fun halive => ?_⟩, fun x l' hl' => h.2 x l' ?_⟩
    · have hallowed := h.1.2 halive
      cases q with
      | statement s => exact absurd hallowed.1 hnot
      | commit => exact .inl (hallowed.resolve_right fun hex => hnot hex.1)
      | unlock => exact hallowed
      | lock => trivial
      | rollback => trivial
    · obtain ⟨d', issued, -, hinv, hissued, hout⟩ := hl'
      exact ⟨d', issued, fun hex => absurd hex hnot, hinv, hissued, hout⟩

/-- A program goes on, in vain, when its session is closed. -/
theorem Follows.closed (hinv : K.inv l.data) (h : p.Follows (K.protocol δ c) (K.Post c) l) :
    p.Follows (K.protocol δ c) (K.Post c) l.close := by
  have hexclusive : K.Exclusive l.close → K.Exclusive l := fun hex =>
    .inl (hex.resolve_right (Nat.lt_irrefl 0))
  cases p with
  | done r => exact ⟨Session.spent_of_none rfl, fun hex => h.2 (hexclusive hex)⟩
  | ask q next =>
    refine ⟨⟨fun hex => h.1.1 (hexclusive hex), fun halive => absurd halive Bool.false_ne_true⟩, ?_⟩
    rintro x l' ⟨d, issued, hd, -, -, hout⟩
    have hclosed : ∀ e, (next (.error e)).Follows (K.protocol δ c) (K.Post c)
        { l.close with data := d } := by
      intro e
      have hnow := h.2 (.error e) l.close
        ⟨l.data, l.data, fun _ => rfl, hinv, fun _ => rfl, .closed e⟩
      by_cases hex : K.Exclusive l.close
      · rw [hd hex]
        exact hnow
      · exact Follows.of_data hnow hex d
    cases hout with
    | performed hperform => exact absurd (Local.alive_of_perform hperform) Bool.false_ne_true
    | failed e =>
      rw [Local.fail_of_not_alive rfl rfl]
      exact hclosed e
    | closed e => exact hclosed e

/-- What an allowed request does when it succeeds. -/
theorem Allowed.perform {q : Request S} {issued : D} {a : Answer A q} {l' : Local L D}
    (hallowed : K.Allowed δ c l q) (hinv : K.inv l.data)
    (hinside : l.inside = true → K.Exclusive l) (hissued : q ≠ .lock → issued = l.data)
    (h : l.perform δ issued q = some (a, l')) :
    K.inv l'.data ∧ (l'.data = l.data ∨ K.Exclusive l) ∧
      (l'.inside = true → l'.session.alive = true ∧ K.Exclusive l') := by
  cases q with
  | statement s =>
    obtain ⟨hex, -, hauto⟩ := hallowed
    obtain rfl := hissued (by simp)
    refine ⟨?_, .inr hex, fun _ => ?_⟩
    · cases hmode : l.session.autocommit with
      | true => exact hauto a l' hmode h
      | false =>
        obtain ⟨-, -, settings, change, -, rfl⟩ := Local.perform_statement.1 h
        rw [hmode]
        exact hinv
    · obtain ⟨halive, -, settings, change, -, rfl⟩ := Local.perform_statement.1 h
      exact ⟨(Session.within_alive _ _).trans halive, hex⟩
  | lock =>
    have halive := Local.alive_of_perform h
    obtain ⟨-, rfl⟩ := Local.perform_lock.1 h
    exact ⟨hinv, .inl rfl, fun _ =>
      ⟨(Session.within_alive _ _).trans halive, .inr (Nat.succ_pos _)⟩⟩
  | unlock =>
    obtain ⟨-, rfl⟩ := Local.perform_unlock.1 h
    exact ⟨hinv, .inl rfl, fun hin => absurd hin Bool.false_ne_true⟩
  | commit =>
    obtain ⟨halive, rfl⟩ := Local.perform_commit.1 h
    have hin : l.inside = true → l.session.idle.alive = true ∧ K.Exclusive l := fun hin =>
      ⟨halive, hinside hin⟩
    rcases hallowed with hneutral | ⟨hex, hcommitted⟩
    · have hsame := Local.committed_of_neutral hneutral
      exact ⟨hsame ▸ hinv, .inl hsame, hin⟩
    · exact ⟨hcommitted, .inr hex, hin⟩
  | rollback =>
    obtain ⟨halive, rfl⟩ := Local.perform_rollback.1 h
    exact ⟨hinv, .inl rfl, fun hin => ⟨halive, hinside hin⟩⟩

/-- An allowed request that fails. -/
theorem Allowed.fail {q : Request S} (issued : D)
    (hallowed : l.session.alive = true → K.Allowed δ c l q)
    (hinside : l.inside = true → l.session.alive = true ∧ K.Exclusive l)
    (hin : (l.fail δ issued q).inside = true) :
    (l.fail δ issued q).session.alive = true ∧ K.Exclusive (l.fail δ issued q) := by
  have hexclusive : K.Exclusive l → K.Exclusive (l.fail δ issued q) := by
    unfold Exclusive
    rw [Local.fail_locks]
    exact id
  cases q with
  | statement s =>
    by_cases halive : l.session.alive = true
    · refine ⟨?_, hexclusive (hallowed halive).1⟩
      rw [Local.fail, if_pos halive]
      exact (Session.within_alive _ _).trans halive
    · rw [Local.fail, if_neg halive] at hin ⊢
      exact hinside hin
  | lock =>
    by_cases halive : l.session.alive = true
    · have hin' : l.inside = true := by
        rwa [Local.fail, if_pos halive] at hin
      refine ⟨?_, hexclusive (hinside hin').2⟩
      rw [Local.fail, if_pos halive]
      exact (Session.within_alive _ _).trans halive
    · rw [Local.fail, if_neg halive] at hin ⊢
      exact hinside hin
  | unlock =>
    by_cases halive : l.session.alive = true
    · rw [Local.fail, if_pos halive] at hin
      exact absurd hin Bool.false_ne_true
    · rw [Local.fail, if_neg halive] at hin ⊢
      exact hinside hin
  | commit => exact hinside hin
  | rollback => exact hinside hin

/-! ### Worlds -/

section World

variable [DecidableEq ι] {w w' : World ι S A L D ε ρ C} {i j : ι}
  {program : C → Session L D → Program (Request S) (Answer A) ε ρ} {a : Action ι ε C}

/-- The party holds the lock as often as it did, or no other one holds it. -/
def Grants (w : World ι S A L D ε ρ C) (i : ι) (n : ℕ) : Prop :=
  n = w.locks i ∨ ∀ j, j ≠ i → w.locks j = 0

theorem local_update_self (l : Local L D) (call : Option C)
    (p : Program (Request S) (Answer A) ε ρ) : (w.update i l call p).local_ i = l := by
  unfold World.local_ World.locks World.update
  rw [heldBy_relock_self]
  simp

theorem local_update_of_ne (l : Local L D) (call : Option C)
    (p : Program (Request S) (Answer A) ε ρ) (h : Grants w i l.locks) (hj : j ≠ i) :
    (w.update i l call p).local_ j = { w.local_ j with data := l.data } := by
  unfold World.local_ World.locks World.update
  rw [heldBy_relock_of_ne (h.imp_right fun hfree => hfree j hj) hj]
  simp [Function.update_of_ne hj]

/-- What holds at every moment of a run. -/
structure Sound (K : Discipline S L D ε ρ C) (δ : Dialect S A L D)
    (w : World ι S A L D ε ρ C) : Prop where
  inv : K.inv w.data
  follows : ∀ i c, (w.party i).call = some c →
    (w.party i).program.Follows (K.protocol δ c) (K.Post c) (w.local_ i)
  between : ∀ i, (w.party i).call = none →
    (∃ r, (w.party i).program = .done r) ∧ (w.party i).session.Spent
  inside : ∀ i, (w.party i).inside = true →
    (w.party i).session.alive = true ∧ K.Exclusive (w.local_ i)

/-- How far a call has come. -/
theorem Sound.progress (hw : Sound K δ w) {c : C} (hc : (w.party i).call = some c)
    (hex : K.Exclusive (w.local_ i)) : K.progress c (w.party i).base w.data := by
  have hfollows := hw.follows i c hc
  cases hp : (w.party i).program with
  | done r =>
    rw [hp] at hfollows
    exact (hfollows.2 hex).1
  | ask q next =>
    rw [hp] at hfollows
    exact hfollows.1.1 hex

/-- What a call can rely on before a statement. -/
theorem Sound.good (hw : Sound K δ w) {c : C} {s : S}
    {next : Except ε (A s) → Program (Request S) (Answer A) ε ρ}
    (hc : (w.party i).call = some c) (hp : (w.party i).program = .ask (.statement s) next)
    (halive : (w.party i).session.alive = true) :
    K.Exclusive (w.local_ i) ∧ K.good c (w.local_ i) s := by
  have hfollows := hw.follows i c hc
  rw [hp] at hfollows
  have hallowed := hfollows.1.2 halive
  exact ⟨hallowed.1, hallowed.2.1⟩

/-- What the result of a call says. -/
theorem Sound.result (hw : Sound K δ w) {c : C} {r : Except ε ρ} (hc : (w.party i).call = some c)
    (hp : (w.party i).program = .done r) (hex : K.Exclusive (w.local_ i)) :
    K.result c r (w.party i).base w.data := by
  have hfollows := hw.follows i c hc
  rw [hp] at hfollows
  exact (hfollows.2 hex).2

/-- Before any call. -/
theorem sound_initial {d : D} (hw : w.Initial d) (hinv : K.inv d) : Sound K δ w where
  inv := by
    rw [hw.data]
    exact hinv
  follows i c hc := by
    rw [hw.call i] at hc
    cases hc
  between i _ := ⟨hw.program i, hw.spent i⟩
  inside i hi := by
    rw [hw.inside i] at hi
    cases hi

/-- What a party may do to the others. -/
theorem Sound.update (hw : Sound K δ w) (hserial : K.serial → Subsingleton ι) {l : Local L D}
    {call : Option C} {p : Program (Request S) (Answer A) ε ρ} (hinv : K.inv l.data)
    (hgrants : Grants w i l.locks) (hdata : l.data = w.data ∨ K.Exclusive (w.local_ i))
    (hfollows : ∀ c, call = some c → p.Follows (K.protocol δ c) (K.Post c) l)
    (hbetween : call = none → (∃ r, p = .done r) ∧ l.session.Spent)
    (hinside : l.inside = true → l.session.alive = true ∧ K.Exclusive l) :
    Sound K δ (w.update i l call p) := by
  have hparty : ∀ j, j ≠ i → (w.update i l call p).party j = w.party j := fun j hj =>
    World.update_of_ne l call p hj
  have hself : (w.update i l call p).party i = ⟨l.session, call, p, none, l.base, l.inside⟩ :=
    World.update_self l call p
  -- the data of another party change only if it is excluded
  have hother : ∀ j, j ≠ i → l.data = w.data ∨ ¬ K.Exclusive (w.local_ j) := by
    intro j hj
    refine hdata.imp_right fun hi hex => ?_
    rcases hi with hi | hi
    · exact hj ((hserial hi).elim j i)
    · rcases hex with hex | hex
      · exact hj ((hserial hex).elim j i)
      · exact hj (eq_of_heldBy hex hi)
  refine ⟨hinv, fun j c hc => ?_, fun j hc => ?_, fun j hin => ?_⟩
  · by_cases hj : j = i
    · subst hj
      rw [hself] at hc ⊢
      rw [local_update_self]
      exact hfollows c hc
    · rw [hparty j hj] at hc ⊢
      rw [local_update_of_ne l call p hgrants hj]
      rcases hother j hj with heq | hnot
      · rw [heq]
        exact hw.follows j c hc
      · exact Follows.of_data (hw.follows j c hc) hnot _
  · by_cases hj : j = i
    · subst hj
      rw [hself] at hc ⊢
      exact hbetween hc
    · rw [hparty j hj] at hc ⊢
      exact hw.between j hc
  · by_cases hj : j = i
    · subst hj
      rw [hself] at hin ⊢
      rw [local_update_self]
      exact hinside hin
    · rw [hparty j hj] at hin ⊢
      rw [local_update_of_ne l call p hgrants hj]
      exact hw.inside j hin

/-- Where a party holds a lock, no other one does. -/
theorem grants_of_pos (h : 0 < w.locks i) (n : ℕ) : Grants w i n := by
  refine .inr fun j hj => Nat.eq_zero_of_not_pos fun hpos => hj (eq_of_heldBy hpos h)

theorem grants_of_issued {issued : D} (h : w.issued i (.lock : Request S) = some issued) (n : ℕ) :
    Grants w i n := by
  dsimp only [World.issued] at h
  split at h
  · rename_i hfree
    refine .inr fun j hj => ?_
    unfold World.locks
    cases hlock : w.lock with
    | none => rfl
    | some held =>
      obtain ⟨k, m⟩ := held
      rw [hlock] at hfree
      have hk : k = i := of_decide_eq_true hfree
      exact if_neg fun hkj => hj (hkj.symm.trans hk)
  · cases h

/-- A party that asks makes a call. -/
theorem Sound.exists_call (hw : Sound K δ w) {q : Request S}
    {next : Except ε (Answer A q) → Program (Request S) (Answer A) ε ρ}
    (hp : (w.party i).program = .ask q next) : ∃ c, (w.party i).call = some c := by
  cases hcall : (w.party i).call with
  | some c => exact ⟨c, rfl⟩
  | none =>
    obtain ⟨⟨r, hr⟩, -⟩ := hw.between i hcall
    rw [hp] at hr
    cases hr

/-- A request that succeeds. -/
theorem Sound.succeed (hw : Sound K δ w) (hserial : K.serial → Subsingleton ι) {q : Request S}
    {next : Except ε (Answer A q) → Program (Request S) (Answer A) ε ρ} {issued : D}
    {b : Answer A q} {l : Local L D} (hp : (w.party i).program = .ask q next)
    (hissued : w.issued i q = some issued)
    (hperform : (w.local_ i).perform δ issued q = some (b, l)) :
    Sound K δ (w.update i l (w.party i).call (next (.ok b))) := by
  obtain ⟨c, hc⟩ := hw.exists_call hp
  have hfollows := hw.follows i c hc
  rw [hp] at hfollows
  have halive := Local.alive_of_perform hperform
  have hallowed := hfollows.1.2 halive
  have hnow : q ≠ .lock → issued = w.data := by
    intro hq
    unfold World.issued at hissued
    split at hissued
    · exact absurd rfl hq
    · exact (Option.some.inj hissued).symm
  have hnext : (next (.ok b)).Follows (K.protocol δ c) (K.Post c) l :=
    hfollows.2 _ _ ⟨w.data, issued, fun _ => rfl, hw.inv, hnow, .performed hperform⟩
  obtain ⟨hinv, hdata, hinside⟩ := Allowed.perform hallowed hw.inv (fun hin => (hw.inside i hin).2)
    hnow hperform
  refine hw.update hserial hinv ?_ hdata ?_ (fun hnone => ?_) hinside
  · -- only the lock and its release change who holds it
    by_cases hlock : q = .lock
    · subst hlock
      exact grants_of_issued hissued _
    · by_cases hpos : 0 < w.locks i
      · exact grants_of_pos hpos _
      · refine .inl (Local.locks_eq_of_perform hperform hlock ?_)
        exact Nat.eq_zero_of_not_pos hpos
  · rintro c' hc'
    obtain rfl := Option.some.inj (hc.symm.trans hc')
    exact hnext
  · rw [hc] at hnone
    cases hnone

/-- A request that fails. -/
theorem Sound.fail (hw : Sound K δ w) (hserial : K.serial → Subsingleton ι) {q : Request S}
    {next : Except ε (Answer A q) → Program (Request S) (Answer A) ε ρ} (e : ε)
    (hp : (w.party i).program = .ask q next) :
    Sound K δ (w.update i ((w.local_ i).fail δ w.data q) (w.party i).call (next (.error e))) := by
  obtain ⟨c, hc⟩ := hw.exists_call hp
  have hfollows := hw.follows i c hc
  rw [hp] at hfollows
  have hdata := Local.fail_data (δ := δ) (l := w.local_ i) w.data q
  refine hw.update hserial (hdata ▸ hw.inv) (.inl (Local.fail_locks _ _)) (.inl hdata) ?_
    (fun hnone => ?_) (Allowed.fail w.data hfollows.1.2 (hw.inside i))
  · rintro c' hc'
    obtain rfl := Option.some.inj (hc.symm.trans hc')
    exact hfollows.2 _ _ ⟨w.data, w.data, fun _ => rfl, hw.inv, fun _ => rfl, .failed e⟩
  · rw [hc] at hnone
    cases hnone

/-- A session that is closed. -/
theorem Sound.close (hw : Sound K δ w) (hserial : K.serial → Subsingleton ι) :
    Sound K δ (w.update i (w.local_ i).close (w.party i).call (w.party i).program) := by
  refine hw.update hserial hw.inv ?_ (.inl rfl)
    (fun c hc => Follows.closed hw.inv (hw.follows i c hc))
    (fun hnone => ⟨(hw.between i hnone).1, Session.spent_of_none rfl⟩)
    fun hin => absurd hin Bool.false_ne_true
  by_cases hpos : 0 < w.locks i
  · exact grants_of_pos hpos _
  · exact .inl (Nat.eq_zero_of_not_pos hpos).symm

/-- A party that begins to wait. -/
theorem Sound.wait (hw : Sound K δ w) (d : D) : Sound K δ { w with
    party := Function.update w.party i { w.party i with waiting := some d } } := by
  have hparty : ∀ j, ∃ v, Function.update w.party i { w.party i with waiting := some d } j =
      { w.party j with waiting := v } := by
    intro j
    by_cases hj : j = i
    · subst hj
      exact ⟨some d, Function.update_self ..⟩
    · exact ⟨(w.party j).waiting, Function.update_of_ne hj ..⟩
  refine ⟨hw.inv, fun j c hc => ?_, fun j hc => ?_, fun j hin => ?_⟩
  all_goals obtain ⟨v, hv⟩ := hparty j
  · unfold World.local_
    dsimp only at hc ⊢
    rw [hv] at hc ⊢
    exact hw.follows j c hc
  · dsimp only at hc ⊢
    rw [hv] at hc ⊢
    exact hw.between j hc
  · unfold World.local_
    dsimp only at hin ⊢
    rw [hv] at hin ⊢
    exact hw.inside j hin

/-- **The step rule.** The discipline is kept by whatever happens, if every call begins so that it
keeps it. -/
theorem sound_step (hserial : K.serial → Subsingleton ι)
    (hcall : ∀ i c, a = .start i c → ∀ l : Local L D, l.session.Spent → K.inv l.data →
      l.base = l.data → (program c l.session).Follows (K.protocol δ c) (K.Post c) l)
    (hw : Sound K δ w) (h : w.step δ program a = some w') : Sound K δ w' := by
  -- a party between two calls
  have hpost : ∀ {i r c}, (w.party i).program = .done r → (w.party i).call = some c →
      K.Post c (w.local_ i) r := by
    intro i r c hp hc
    have hfollows := hw.follows i c hc
    rwa [hp] at hfollows
  have hspent : ∀ {i r}, (w.party i).program = .done r → (w.party i).session.Spent := by
    intro i r hp
    cases hc : (w.party i).call with
    | none => exact (hw.between i hc).2
    | some c => exact (hpost hp hc).1
  -- one whose session changes, but has no transaction that could go on
  have hbetween : ∀ {i r} {s : Session L D}, (w.party i).program = .done r → s.Spent →
      ((w.party i).inside = true → s.alive = true) →
      Sound K δ (w.update i { w.local_ i with session := s } (w.party i).call
        (w.party i).program) := by
    intro i r s hp hs halive
    refine hw.update hserial hw.inv (.inl rfl) (.inl rfl) (fun c hc => ?_) (fun _ => ?_)
      fun hin => ⟨halive hin, (hw.inside i hin).2⟩
    · rw [hp]
      exact ⟨hs, (hpost hp hc).2⟩
    · exact ⟨⟨r, hp⟩, hs⟩
  cases a with
  | start i c =>
    rw [World.step] at h
    split at h
    · rename_i r hp
      obtain rfl := Option.some.inj h
      refine hw.update hserial hw.inv (.inl rfl) (.inl rfl) ?_ (fun hnone => by cases hnone)
        fun hin => absurd hin Bool.false_ne_true
      rintro _ ⟨⟩
      exact hcall i c rfl { w.local_ i with base := w.data, inside := false } (hspent hp)
        hw.inv rfl
    · cases h
  | issue i =>
    rw [World.step] at h
    split at h
    · split at h
      · obtain rfl := Option.some.inj h
        exact hw.wait w.data
      · cases h
    · cases h
  | succeed i =>
    rw [World.step] at h
    split at h
    · cases h
    · rename_i q next hp
      split at h
      · cases h
      · rename_i issued hissued
        split at h
        · cases h
        · rename_i b l hperform
          obtain rfl := Option.some.inj h
          exact hw.succeed hserial hp hissued hperform
  | fail i e =>
    rw [World.step] at h
    split at h
    · cases h
    · rename_i q next hp
      obtain rfl := Option.some.inj h
      exact hw.fail hserial e hp
  | close i =>
    obtain rfl := Option.some.inj h
    exact hw.close hserial
  | reopen i autocommit repeatable =>
    rw [World.step] at h
    split at h
    · rename_i r hp
      split at h
      · cases h
      · obtain rfl := Option.some.inj h
        exact hbetween hp (Session.spent_of_none rfl) fun _ => rfl
    · cases h
  | rollback i =>
    rw [World.step] at h
    split at h
    · rename_i r hp
      obtain rfl := Option.some.inj h
      exact hbetween hp (Session.idle_spent _) fun hin => (hw.inside i hin).1
    · cases h

/-- **The run rule.** -/
theorem sound_run (hserial : K.serial → Subsingleton ι) {as : List (Action ι ε C)} {es : List Empty}
    (hcall : ∀ i c, .start i c ∈ as → ∀ l : Local L D, l.session.Spent → K.inv l.data →
      l.base = l.data → (program c l.session).Follows (K.protocol δ c) (K.Post c) l)
    (hw : Sound K δ w) (h : (World.machine δ program).run w as = some (w', es)) :
    Sound K δ w' := by
  refine Machine.run_induction (I := fun as' _ w' => as' ⊆ as → Sound K δ w') (fun _ => hw) ?_ h
    fun _ => id
  intro as' es' u a u' e hu hstep hsub
  have hmem : a ∈ as := hsub (List.mem_append_right _ (List.mem_singleton_self a))
  refine sound_step hserial (fun i c ha => hcall i c (ha ▸ hmem)) (hu ?_)
    (World.step_of_machine hstep)
  exact fun b hb => hsub (List.mem_append_left _ hb)

end World

end Discipline

end Tokenweir
