import Tokenweir.ClaudeCode.Transcript

/-!
# The responses of a transcript

What the scan of a transcript counts: the first line of each response, where a response is what
one message id names, and a line without an id is a response of its own.

* `IsFirst`, `responses`; `newResponses`, those that some further lines add;
* `response_eq_none`, the lines that are of none;
* `scanLines_gathers`, the scan is the sum over the responses;
* `Pads`, lines that do not count; `counts_each_response_once`.
-/

namespace Tokenweir.ClaudeCode

/-! ### Responses -/

/-- What a line with a usage is about. -/
structure Response where
  id : Option Text
  usage : Json

/-- The usage of a line, and the id of the message it is of. -/
def Line.response (l : Line) : Option Response :=
  l.usage.map fun u => ⟨text (u.2.1.get (Text.of "id")), u.2.2⟩

/-- A line is about a response if it is an object whose `message` is one whose `usage` is one. -/
theorem response_eq_some {l : Line} {r : Response} : l.response = some r ↔
    ∃ entry message usage, l = .entry entry ∧ entry.isMapping = true ∧
      entry.get (Text.of "message") = some message ∧ message.isMapping = true ∧
      message.get (Text.of "usage") = some usage ∧ usage.isMapping = true ∧
      r = ⟨text (message.get (Text.of "id")), usage⟩ := by
  unfold Line.response Line.usage
  constructor
  · intro h
    obtain ⟨⟨entry, message, usage⟩, hu, rfl⟩ := Option.map_eq_some_iff.1 h
    cases l with
    | blank | notJson => cases hu
    | entry value =>
      dsimp only at hu
      split_ifs at hu with hvalue
      cases hmessage : value.get (Text.of "message") with
      | none =>
        rw [hmessage] at hu
        cases hu
      | some m =>
        rw [hmessage] at hu
        dsimp only at hu
        split_ifs at hu with hm
        cases husage : m.get (Text.of "usage") with
        | none =>
          rw [husage] at hu
          cases hu
        | some v =>
          rw [husage] at hu
          dsimp only at hu
          split_ifs at hu with hv
          cases hu
          exact ⟨_, _, _, rfl, hvalue, hmessage, hm, husage, hv, rfl⟩
  · rintro ⟨entry, message, usage, rfl, hentry, hmessage, hm, husage, hu, rfl⟩
    simp only [hentry, hmessage, hm, husage, hu, if_true, Option.map_some]

/-- **The lines that are of no response**: those that are blank, not JSON, or not an object with a
`message` that is one with a `usage` that is one. -/
theorem response_eq_none {l : Line} : l.response = none ↔
    l = .blank ∨ l = .notJson ∨ ∃ entry, l = .entry entry ∧ (entry.isMapping = true →
      ∀ message ∈ entry.get (Text.of "message"), message.isMapping = true →
        ∀ usage ∈ message.get (Text.of "usage"), usage.isMapping = false) := by
  rw [Option.eq_none_iff_forall_ne_some]
  cases l with
  | blank => exact iff_of_true (fun r hr => by cases hr) (.inl rfl)
  | notJson => exact iff_of_true (fun r hr => by cases hr) (.inr (.inl rfl))
  | entry entry =>
    simp only [reduceCtorEq, false_or, Line.entry.injEq, exists_eq_left', ne_eq]
    constructor
    · intro h hentry message hmessage hm usage husage
      by_contra hu
      exact h _ (response_eq_some.2 ⟨entry, message, usage, rfl, hentry, hmessage, hm, husage,
        Bool.eq_true_of_not_eq_false hu, rfl⟩)
    · intro h r hr
      obtain ⟨_, message, usage, ⟨⟩, hentry, hmessage, hm, husage, hu, -⟩ := response_eq_some.1 hr
      rw [h hentry message hmessage hm usage husage] at hu
      cases hu

/-- The response that line `i` is about. -/
def responseAt (ls : List Line) (i : ℕ) : Option Response := ls[i]?.bind Line.response

/-- A message id that a line with a usage carries. -/
def CarriesId (ls : List Line) (k : Text) : Prop := ∃ l ∈ ls, ∃ r ∈ l.response, r.id = some k

/-- Line `i` carries a usage, and no id that an earlier such line carries. -/
def IsFirst (ls : List Line) (i : ℕ) : Prop :=
  ∃ r ∈ responseAt ls i, ∀ k ∈ r.id, ¬CarriesId (ls.take i) k

instance (ls : List Line) (k : Text) : Decidable (CarriesId ls k) :=
  inferInstanceAs (Decidable (∃ l ∈ ls, ∃ r ∈ l.response, r.id = some k))

instance (ls : List Line) (i : ℕ) : Decidable (IsFirst ls i) :=
  inferInstanceAs (Decidable (∃ r ∈ responseAt ls i, ∀ k ∈ r.id, ¬CarriesId (ls.take i) k))

/-- The responses of a transcript, each at its first line. -/
def responses (ls : List Line) : List Response :=
  ((List.range ls.length).filter fun i => IsFirst ls i).filterMap (responseAt ls)

/-- The responses that are new in the second part of a transcript. -/
def newResponses (ls ms : List Line) : List Response :=
  ((List.range' ls.length ms.length).filter fun i => IsFirst (ls ++ ms) i).filterMap
    (responseAt (ls ++ ms))

/-- The counts of some responses. -/
def tokens (rs : List Response) : TokenTotals := (rs.map fun r => fromMapping r.usage).sum

theorem responseAt_append_left {ls : List Line} (ms : List Line) {i : ℕ} (h : i < ls.length) :
    responseAt (ls ++ ms) i = responseAt ls i := by
  rw [responseAt, List.getElem?_append_left h]
  rfl

theorem responseAt_concat (ls : List Line) (l : Line) :
    responseAt (ls ++ [l]) ls.length = l.response := by
  rw [responseAt, List.getElem?_concat_length]
  rfl

theorem isFirst_append_left {ls : List Line} (ms : List Line) {i : ℕ} (h : i < ls.length) :
    IsFirst (ls ++ ms) i ↔ IsFirst ls i := by
  unfold IsFirst
  rw [responseAt_append_left ms h, List.take_append_of_le_length h.le]

theorem isFirst_concat (ls : List Line) (l : Line) :
    IsFirst (ls ++ [l]) ls.length ↔ ∃ r ∈ l.response, ∀ k ∈ r.id, ¬CarriesId ls k := by
  unfold IsFirst
  rw [responseAt_concat, List.take_left]

/-- The responses of the first part are those of the whole that begin there. -/
theorem responses_append (ls ms : List Line) :
    responses (ls ++ ms) = responses ls ++ newResponses ls ms := by
  have hindex : List.range (ls ++ ms).length =
      List.range ls.length ++ List.range' ls.length ms.length := by
    have hsplit := List.range'_append_1 (s := 0) (m := ls.length) (n := ms.length)
    rw [Nat.zero_add] at hsplit
    rw [List.length_append, List.range_eq_range', List.range_eq_range', hsplit]
  have hleft : ((List.range ls.length).filter fun i => IsFirst (ls ++ ms) i).filterMap
      (responseAt (ls ++ ms)) = responses ls := by
    have hfilter : ((List.range ls.length).filter fun i => IsFirst (ls ++ ms) i) =
        (List.range ls.length).filter fun i => IsFirst ls i :=
      List.filter_congr fun i hi => decide_eq_decide.2 (isFirst_append_left ms (List.mem_range.1 hi))
    rw [hfilter, responses]
    refine List.filterMap_congr fun i hi => responseAt_append_left ms ?_
    exact List.mem_range.1 (List.mem_of_mem_filter hi)
  rw [responses, hindex, List.filter_append, List.filterMap_append, hleft]
  rfl

/-- One more line is one more response, if it is a first one. -/
theorem responses_concat (ls : List Line) (l : Line) :
    responses (ls ++ [l]) = responses ls ++
      if ∃ r ∈ l.response, ∀ k ∈ r.id, ¬CarriesId ls k then l.response.toList else [] := by
  rw [responses_append, newResponses]
  refine congrArg (responses ls ++ ·) ?_
  show ([ls.length].filter _).filterMap _ = _
  by_cases h : IsFirst (ls ++ [l]) ls.length
  · rw [List.filter_cons_of_pos (by simpa using h), if_pos ((isFirst_concat ls l).1 h)]
    rw [List.filter_nil, List.filterMap_cons, responseAt_concat]
    cases l.response <;> rfl
  · rw [List.filter_cons_of_neg (by simpa using h), if_neg (mt (isFirst_concat ls l).2 h)]
    rfl

theorem carriesId_concat (ls : List Line) (l : Line) (k : Text) :
    CarriesId (ls ++ [l]) k ↔ CarriesId ls k ∨ ∃ r ∈ l.response, r.id = some k := by
  unfold CarriesId
  constructor
  · rintro ⟨l', hl', h⟩
    rcases List.mem_append.1 hl' with hl' | hl'
    · exact .inl ⟨l', hl', h⟩
    · obtain rfl := List.mem_singleton.1 hl'
      exact .inr h
  · rintro (⟨l', hl', h⟩ | h)
    · exact ⟨l', List.mem_append_left _ hl', h⟩
    · exact ⟨l, List.mem_append_right _ (List.mem_singleton_self l), h⟩

section Concat

variable {ls : List Line} {l : Line} {r : Response}

theorem responses_concat_none (h : l.response = none) : responses (ls ++ [l]) = responses ls := by
  rw [responses_concat, h, if_neg (by rintro ⟨r, ⟨⟩, -⟩), List.append_nil]

theorem responses_concat_again {k : Text} (hr : l.response = some r) (hk : r.id = some k)
    (h : CarriesId ls k) : responses (ls ++ [l]) = responses ls := by
  rw [responses_concat, if_neg, List.append_nil]
  rintro ⟨r', hr', hnew⟩
  rw [hr] at hr'
  obtain rfl := Option.some.inj hr'
  exact hnew k hk h

theorem responses_concat_new (hr : l.response = some r) (h : ∀ k ∈ r.id, ¬CarriesId ls k) :
    responses (ls ++ [l]) = responses ls ++ [r] := by
  rw [responses_concat, if_pos ⟨r, hr, h⟩, hr]
  rfl

theorem carriesId_concat_none (h : l.response = none) (k : Text) :
    CarriesId (ls ++ [l]) k ↔ CarriesId ls k := by
  rw [carriesId_concat, h]
  exact or_iff_left (by rintro ⟨r, ⟨⟩, -⟩)

theorem carriesId_concat_some (h : l.response = some r) (k : Text) :
    CarriesId (ls ++ [l]) k ↔ CarriesId ls k ∨ r.id = some k := by
  rw [carriesId_concat, h]
  refine or_congr_right ⟨?_, fun hk => ⟨r, rfl, hk⟩⟩
  rintro ⟨_, ⟨⟩, hk⟩
  exact hk

end Concat

theorem tokens_append (rs ss : List Response) : tokens (rs ++ ss) = tokens rs + tokens ss := by
  rw [tokens, List.map_append, List.sum_append]
  rfl

/-! ### The scan -/

/-- What a step of the loop does: a line without usage, or of a message that has been seen, is
skipped, and any other one is counted. -/
theorem scanLine_cases (s : Scan) (l : Line) :
    (l.response = none ∧ scanLine s l = s) ∨
      (∃ r k, l.response = some r ∧ r.id = some k ∧ k ∈ s.seen ∧ scanLine s l = s) ∨
      ∃ r entry message, l.response = some r ∧ (∀ k ∈ r.id, k ∉ s.seen) ∧
        scanLine s l = s.count entry message r.usage r.id := by
  unfold scanLine Line.response
  rcases l.usage with _ | ⟨entry, message, usage⟩
  · exact .inl ⟨rfl, rfl⟩
  · rcases hid : text (message.get (Text.of "id")) with _ | k
    · refine .inr (.inr ⟨⟨none, usage⟩, entry, message, ?_, ?_, ?_⟩)
      · simp [hid]
      · rintro _ ⟨⟩
      · simp [hid]
    · by_cases hseen : k ∈ s.seen
      · refine .inr (.inl ⟨⟨some k, usage⟩, k, ?_, rfl, hseen, ?_⟩)
        · simp [hid]
        · simp [hid, hseen]
      · refine .inr (.inr ⟨⟨some k, usage⟩, entry, message, ?_, ?_, ?_⟩)
        · simp [hid]
        · rintro _ ⟨⟩
          exact hseen
        · simp [hid, hseen]

/-- What the loop has gathered after some lines. -/
structure Scan.Gathers (s : Scan) (ls : List Line) : Prop where
  seen : ∀ k, k ∈ s.seen ↔ CarriesId ls k
  totals : s.totals = tokens (responses ls)
  counted : s.counted = (responses ls).length
  lastMessageId : s.lastMessageId = (responses ls).getLast?.bind Response.id

theorem Scan.Gathers.step {s : Scan} {ls : List Line} (h : s.Gathers ls) (l : Line) :
    (scanLine s l).Gathers (ls ++ [l]) := by
  rcases scanLine_cases s l with ⟨hnone, hs⟩ | ⟨r, k, hr, hk, hseen, hs⟩ |
    ⟨r, entry, message, hr, hnew, hs⟩
  · -- no usage
    rw [hs]
    refine ⟨fun k => ?_, ?_, ?_, ?_⟩
    · rw [h.seen, carriesId_concat_none hnone]
    · rw [responses_concat_none hnone, h.totals]
    · rw [responses_concat_none hnone, h.counted]
    · rw [responses_concat_none hnone, h.lastMessageId]
  · -- a line of a response that has been counted
    have hcarries := (h.seen k).1 hseen
    have hsame := responses_concat_again hr hk hcarries
    rw [hs]
    refine ⟨fun k' => ?_, ?_, ?_, ?_⟩
    · rw [h.seen, carriesId_concat_some hr]
      refine (or_iff_left_of_imp ?_).symm
      rw [hk]
      rintro ⟨⟩
      exact hcarries
    · rw [hsame, h.totals]
    · rw [hsame, h.counted]
    · rw [hsame, h.lastMessageId]
  · -- a new one
    have hmore := responses_concat_new hr fun k hk => mt (h.seen k).2 (hnew k hk)
    rw [hs]
    refine ⟨fun k => ?_, ?_, ?_, ?_⟩
    · rw [carriesId_concat_some hr, ← h.seen]
      show k ∈ r.id.toList ++ s.seen ↔ _
      rw [List.mem_append, Option.mem_toList, or_comm]
    · rw [hmore, tokens_append, ← h.totals]
      show s.totals + fromMapping r.usage = s.totals + ([fromMapping r.usage]).sum
      rw [List.sum_singleton]
    · rw [hmore, List.length_append, ← h.counted]
      rfl
    · rw [hmore, List.getLast?_concat]
      rfl

/-- **The loop** sums up the responses. -/
theorem scanLines_gathers (ls : List Line) : (scanLines ls).Gathers ls := by
  induction ls using List.reverseRecOn with
  | nil =>
    refine ⟨fun k => ?_, rfl, rfl, rfl⟩
    exact iff_of_false List.not_mem_nil fun ⟨_, hl, _⟩ => List.not_mem_nil hl
  | append_singleton ls l ih =>
    rw [scanLines, List.foldl_append]
    exact ih.step l

/-! ### What is counted -/

/-- Lines that do not count: without a usage, or of a message that an earlier line is of. -/
inductive Pads : List Line → List Line → Prop
  | refl (ls : List Line) : Pads ls ls
  | noise {ls pre post : List Line} {l : Line} : Pads ls (pre ++ post) → l.response = none →
      Pads ls (pre ++ l :: post)
  | again {ls pre post : List Line} {l : Line} {r : Response} {k : Text} : Pads ls (pre ++ post) →
      l.response = some r → r.id = some k → CarriesId pre k → Pads ls (pre ++ l :: post)

/-- A line that leaves the scan as it is can be left out. -/
theorem scanLines_skip {pre : List Line} {l : Line} (post : List Line)
    (h : scanLine (scanLines pre) l = scanLines pre) :
    scanLines (pre ++ l :: post) = scanLines (pre ++ post) := by
  simp only [scanLines, List.foldl_append, List.foldl_cons] at h ⊢
  rw [h]

theorem scanLine_noise (s : Scan) {l : Line} (h : l.response = none) : scanLine s l = s := by
  rcases scanLine_cases s l with ⟨-, hs⟩ | ⟨_, _, hr, -, -, hs⟩ | ⟨_, _, _, hr, -, -⟩
  · exact hs
  · exact hs
  · rw [h] at hr
    cases hr

theorem scanLine_again {s : Scan} {l : Line} {r : Response} {k : Text} (hr : l.response = some r)
    (hk : r.id = some k) (hseen : k ∈ s.seen) : scanLine s l = s := by
  rcases scanLine_cases s l with ⟨-, hs⟩ | ⟨_, _, -, -, -, hs⟩ | ⟨r', _, _, hr', hnew, -⟩
  · exact hs
  · exact hs
  · rw [hr] at hr'
    obtain rfl := Option.some.inj hr'
    exact absurd hseen (hnew k hk)

theorem scanLines_pads {ls ms : List Line} (h : Pads ls ms) : scanLines ms = scanLines ls := by
  induction h with
  | refl => rfl
  | noise _ hl ih => rw [scanLines_skip _ (scanLine_noise _ hl), ih]
  | again _ hr hk hcarries ih =>
    rw [scanLines_skip _ (scanLine_again hr hk (((scanLines_gathers _).seen _).2 hcarries)), ih]

/-- A count that is not zero is an integer or an integral float; whatever else stands there, a
negative number or a boolean say, counts as zero. -/
theorem coerceCount_eq_iff {v : Option Json} {n : ℕ} (hn : 0 < n) :
    coerceCount v = n ↔ v = some (.int n) ∨ v = some (.float (some n)) := by
  constructor
  · intro h
    unfold coerceCount at h
    split at h
    · rename_i m
      refine .inl (congrArg (fun m => some (Json.int m)) ?_)
      omega
    · rename_i x
      split at h
      · rename_i hx
        refine .inr (congrArg (fun x => some (Json.float (some x))) ?_)
        rw [← Rat.coe_int_num_of_den_eq_one hx.2]
        have hnum : x.num = n := by
          have hpos := Rat.num_nonneg.2 hx.1
          omega
        rw [hnum]
        rfl
      · omega
    · omega
  · rintro (rfl | rfl)
    · rfl
    · show (if (0 : ℚ) ≤ n ∧ (n : ℚ).den = 1 then (n : ℚ).num.toNat else 0) = n
      rw [if_pos ⟨Nat.cast_nonneg n, Rat.den_natCast n⟩, Rat.num_natCast, Int.toNat_natCast]

/-- **The scan of a transcript** counts each response once, whatever the noise; more lines add the
responses that are new in them. -/
theorem counts_each_response_once (ls : List Line) :
    (scanTranscript ls .whole).totals = tokens (responses ls) ∧
    (scanTranscript ls .whole).counted = (responses ls).length ∧
    (∀ l : Line, l.response = none ↔ l = .blank ∨ l = .notJson ∨ ∃ entry, l = .entry entry ∧
      (entry.isMapping = true → ∀ message ∈ entry.get (Text.of "message"), message.isMapping = true →
        ∀ usage ∈ message.get (Text.of "usage"), usage.isMapping = false)) ∧
    (∀ usage f n, 0 < n → (fromMapping usage f = n ↔ usage.get (Text.of f.name) = some (.int n) ∨
      usage.get (Text.of f.name) = some (.float (some n)))) ∧
    (∀ ms, Pads ls ms → scanTranscript ms .whole = scanTranscript ls .whole) ∧
    ∀ ms, covers (scanTranscript (ls ++ ms) .whole).totals (scanTranscript ls .whole).totals ∧
      (scanTranscript (ls ++ ms) .whole).totals - (scanTranscript ls .whole).totals =
        tokens (newResponses ls ms) := by
  have hgathers := scanLines_gathers ls
  refine ⟨hgathers.totals, hgathers.counted, fun _ => response_eq_none,
    fun usage f n hn => coerceCount_eq_iff hn, ?_, ?_⟩
  · intro ms h
    show (scanLines ms).result true = (scanLines ls).result true
    rw [scanLines_pads h]
  · intro ms
    refine ⟨covers_iff.2 (totals_append_le ls ms), ?_⟩
    show (scanLines (ls ++ ms)).totals - (scanLines ls).totals = _
    rw [(scanLines_gathers (ls ++ ms)).totals, hgathers.totals, responses_append, tokens_append]
    funext f
    exact Nat.add_sub_cancel_left _ _

/-- A line of a response with an id. -/
def responseLine (id : String) (n : ℤ) : Line :=
  .entry (.obj [(Text.of "message", .obj [(Text.of "id", .str (Text.of id)), (Text.of "usage",
    .obj [(Text.of "input_tokens", .int n)])])])

/-- A response in two lines, with noise around them, and another one. -/
theorem counts_each_response_once_twice :
    (scanTranscript [.blank, responseLine "a" 3, .notJson, responseLine "a" 3, responseLine "b" 4]
      .whole).counted = 2 := by
  have hagain : Pads [responseLine "a" 3, responseLine "b" 4]
      [responseLine "a" 3, responseLine "a" 3, responseLine "b" 4] :=
    @Pads.again _ [responseLine "a" 3] _ _ _ (Text.of "a") (.refl _) rfl rfl (by decide +kernel)
  have hnotJson := @Pads.noise _ [responseLine "a" 3]
    [responseLine "a" 3, responseLine "b" 4] .notJson hagain rfl
  have hpads : Pads [responseLine "a" 3, responseLine "b" 4]
      [.blank, responseLine "a" 3, .notJson, responseLine "a" 3, responseLine "b" 4] :=
    @Pads.noise _ [] _ .blank hnotJson rfl
  rw [(counts_each_response_once _).2.2.2.2.1 _ hpads, (counts_each_response_once _).2.1]
  decide +kernel

end Tokenweir.ClaudeCode
