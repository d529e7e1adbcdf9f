import Tokenweir.ClaudeCode.Responses

/-!
# The turns of a transcript

The model of `iter_turns` in `tokenweir.parity`, which gathers each response of a transcript with
its text, and its agreement with the scan of the hook.

* `blocks`, `Accumulator`, `gatherLine`, `iterTurns`;
* `Gathered`, what the loop has gathered, if no message id is like the keys it makes up;
* `agree_iff`, the exact condition under which the two readers agree.
-/

namespace Tokenweir.Parity

open ClaudeCode

/-! ### The content of a message -/

/-- The parts of `_blocks`, in the order of the content. -/
structure Blocks where
  textParts : List Text := []
  thinkingParts : List Text := []
  unaccounted : Bool := false

/-- The body of the loop of `_blocks`. -/
def Blocks.add (b : Blocks) (block : Json) : Blocks :=
  if !block.isMapping then { b with unaccounted := true }
  else
    match block.get (Text.of "type") with
    | some (.str kind) =>
      if kind = Text.of "text" then
        match block.get (Text.of "text") with
        | some (.str value) => { b with textParts := b.textParts ++ [value] }
        | _ => { b with unaccounted := true }
      else if kind = Text.of "thinking" then
        match block.get (Text.of "thinking") with
        | some (.str value) =>
          if value = [] then { b with unaccounted := true }
          else { b with thinkingParts := b.thinkingParts ++ [value] }
        | _ => { b with unaccounted := true }
      else { b with unaccounted := true }
    | _ => { b with unaccounted := true }

/-- `_blocks`: text, thinking, and whether there is something else. -/
def blocks (message : Json) : Text × Text × Bool :=
  match message.get (Text.of "content") with
  | some (.str content) => (content, [], false)
  | some (.arr content) =>
    let b : Blocks := content.foldl Blocks.add {}
    (b.textParts.flatten, b.thinkingParts.flatten, b.unaccounted)
  | _ => ([], [], false)

/-! ### The loop -/

/-- `_Accumulator`. -/
structure Accumulator where
  model : Option Text
  timestamp : Option Text
  usage : Json
  parts : List Text
  thinkingParts : List Text
  hasUnaccountedBlocks : Bool

/-- `Turn`. -/
structure Turn where
  messageId : Option Text
  model : Option Text
  timestamp : Option Text
  usage : Json
  outputText : Text
  thinkingText : Text
  hasUnaccountedBlocks : Bool

/-- The local variables of `iter_turns`. -/
structure Gathering where
  order : List Text := []
  responses : Text → Option Accumulator := fun _ => none
  anonymous : ℕ := 0

/-- The beginning of the keys that are made up: a null character, and a word. -/
def anonymousPrefix : Text := 0 :: Text.of "anonymous-"

/-- The key of an entry without an id. -/
def anonymousKey (n : ℕ) : Text := anonymousPrefix ++ Text.decimal n

/-- `[text] if text else []`. -/
def part (t : Text) : List Text := if t = [] then [] else [t]

/-- The accumulator of the first line of a key. -/
def Accumulator.start (entry message usage : Json) : Accumulator where
  model := text (message.get (Text.of "model"))
  timestamp := text (entry.get (Text.of "timestamp"))
  usage := usage
  parts := part (blocks message).1
  thinkingParts := part (blocks message).2.1
  hasUnaccountedBlocks := (blocks message).2.2

/-- What a later line of a key adds. -/
def Accumulator.extend (a : Accumulator) (message : Json) : Accumulator :=
  { a with
    parts := a.parts ++ part (blocks message).1
    thinkingParts := a.thinkingParts ++ part (blocks message).2.1
    hasUnaccountedBlocks := a.hasUnaccountedBlocks || (blocks message).2.2 }

/-- The end of the body of the loop, for a key. -/
def Gathering.put (g : Gathering) (key : Text) (entry message usage : Json) : Gathering :=
  match g.responses key with
  | none =>
    { g with
      order := g.order ++ [key]
      responses := Function.update g.responses key (some (.start entry message usage)) }
  | some existing =>
    { g with responses := Function.update g.responses key (some (existing.extend message)) }

/-- The body of the loop. -/
def gatherLine (g : Gathering) (l : Line) : Gathering :=
  match l.usage with
  | none => g
  | some (entry, message, usage) =>
    match text (message.get (Text.of "id")) with
    | none =>
      Gathering.put { g with anonymous := g.anonymous + 1 } (anonymousKey (g.anonymous + 1)) entry
        message usage
    | some identity => g.put identity entry message usage

/-- The loop. -/
def gatherLines (ls : List Line) : Gathering := ls.foldl gatherLine {}

/-- The id of the turn of a key. -/
def messageId (key : Text) : Option Text := if anonymousPrefix.isPrefixOf key then none else some key

/-- The turn of a key. -/
def turn (key : Text) (a : Accumulator) : Turn where
  messageId := messageId key
  model := a.model
  timestamp := a.timestamp
  usage := a.usage
  outputText := a.parts.flatten
  thinkingText := a.thinkingParts.flatten
  hasUnaccountedBlocks := a.hasUnaccountedBlocks

/-- The turns, in the order of their first lines. -/
def Gathering.turns (g : Gathering) : List Turn :=
  g.order.filterMap fun key => (g.responses key).map (turn key)

/-- The lines that a pass reads. -/
def linesRead (file : List Line) : Reading → List Line
  | .openFails => []
  | .stopsAfter n => file.take n
  | .whole => file

/-- `iter_turns`. -/
def iterTurns (file : List Line) (reading : Reading) : List Turn :=
  (gatherLines (linesRead file reading)).turns

/-! ### Agreement -/

/-- The two readers agree: on the number of the responses, on their counts, on their ids, and on
the last id. -/
structure Agree (file : List Line) (reading : Reading) : Prop where
  count : (iterTurns file reading).length = (scanTranscript file reading).counted
  totals : ((iterTurns file reading).map fun t => fromMapping t.usage).sum =
    (scanTranscript file reading).totals
  ids : (iterTurns file reading).map Turn.messageId =
    (responses (linesRead file reading)).map Response.id
  last : (iterTurns file reading).getLast?.bind Turn.messageId =
    (scanTranscript file reading).lastMessageId

/-- No message id is like a key that is made up. -/
def NoneMadeUp (ls : List Line) : Prop := ∀ k, CarriesId ls k → ¬anonymousPrefix <+: k

/-- The scan sums up the responses of the lines that it reads. -/
theorem scanTranscript_linesRead (file : List Line) (reading : Reading) :
    (scanTranscript file reading).totals = tokens (responses (linesRead file reading)) ∧
    (scanTranscript file reading).counted = (responses (linesRead file reading)).length ∧
    (scanTranscript file reading).lastMessageId =
      (responses (linesRead file reading)).getLast?.bind Response.id := by
  cases reading with
  | openFails => exact ⟨rfl, rfl, rfl⟩
  | stopsAfter n =>
    have h := scanLines_gathers (file.take n)
    exact ⟨h.totals, h.counted, h.lastMessageId⟩
  | whole =>
    have h := scanLines_gathers file
    exact ⟨h.totals, h.counted, h.lastMessageId⟩

/-- What the loop has gathered after some lines: the keys are the ids, and those made up so far,
and the turns are the responses. -/
structure Gathered (g : Gathering) (ls : List Line) : Prop where
  stored : ∀ key, (g.responses key).isSome ↔ key ∈ g.order
  keys : ∀ key, key ∈ g.order ↔
    CarriesId ls key ∨ ∃ n, 0 < n ∧ n ≤ g.anonymous ∧ key = anonymousKey n
  turns : g.turns.map (fun t => (t.messageId, t.usage)) =
    (responses ls).map fun r => (r.id, r.usage)

section Put

variable {g : Gathering} {key : Text}

theorem put_new (h : g.responses key = none) (entry message usage : Json) :
    g.put key entry message usage =
      { g with
        order := g.order ++ [key]
        responses := Function.update g.responses key (some (.start entry message usage)) } := by
  rw [Gathering.put, h]

theorem put_old {a : Accumulator} (h : g.responses key = some a) (entry message usage : Json) :
    g.put key entry message usage =
      { g with responses := Function.update g.responses key (some (a.extend message)) } := by
  rw [Gathering.put, h]

/-- The turn of a new key is the last one. -/
theorem turns_put_new (hstored : ∀ key, (g.responses key).isSome ↔ key ∈ g.order)
    (h : g.responses key = none) (entry message usage : Json) :
    (g.put key entry message usage).turns =
      g.turns ++ [turn key (.start entry message usage)] := by
  have hnotMem : key ∉ g.order := fun hmem => by
    rw [← hstored, h] at hmem
    cases hmem
  rw [put_new h, Gathering.turns, List.filterMap_append]
  refine congrArg₂ (· ++ ·) (List.filterMap_congr fun key' hkey' => ?_) ?_
  · dsimp only
    rw [Function.update_of_ne (by rintro rfl; exact hnotMem hkey')]
  · simp

/-- Another line of a key leaves the ids and the usages of the turns. -/
theorem turns_put_old {a : Accumulator} (h : g.responses key = some a)
    (entry message usage : Json) :
    (g.put key entry message usage).turns.map (fun t => (t.messageId, t.usage)) =
      g.turns.map fun t => (t.messageId, t.usage) := by
  rw [put_old h, Gathering.turns, Gathering.turns, List.map_filterMap, List.map_filterMap]
  refine List.filterMap_congr fun key' _ => ?_
  dsimp only
  by_cases hkey : key' = key
  · subst hkey
    rw [Function.update_self, h]
    rfl
  · rw [Function.update_of_ne hkey]

theorem stored_put (hstored : ∀ key, (g.responses key).isSome ↔ key ∈ g.order)
    (entry message usage : Json) (key' : Text) :
    ((g.put key entry message usage).responses key').isSome ↔
      key' ∈ (g.put key entry message usage).order := by
  have hsame : ∀ a : Accumulator, key' = key →
      (Function.update g.responses key (some a) key').isSome := by
    rintro a rfl
    rw [Function.update_self]
    rfl
  cases h : g.responses key with
  | none =>
    rw [put_new h]
    dsimp only
    rw [List.mem_append, List.mem_singleton]
    by_cases hkey : key' = key
    · exact iff_of_true (hsame _ hkey) (.inr hkey)
    · rw [Function.update_of_ne hkey, hstored, or_iff_left hkey]
  | some a =>
    rw [put_old h]
    dsimp only
    by_cases hkey : key' = key
    · refine iff_of_true (hsame _ hkey) ((hstored key').1 ?_)
      rw [hkey, h]
      rfl
    · rw [Function.update_of_ne hkey, hstored]

theorem mem_order_put (hstored : ∀ key, (g.responses key).isSome ↔ key ∈ g.order)
    (entry message usage : Json) (key' : Text) :
    key' ∈ (g.put key entry message usage).order ↔ key' ∈ g.order ∨ key' = key := by
  cases h : g.responses key with
  | none =>
    rw [put_new h, List.mem_append, List.mem_singleton]
  | some a =>
    have hmem := (hstored key).1 (by rw [h]; rfl)
    rw [put_old h]
    refine (or_iff_left_of_imp ?_).symm
    rintro rfl
    exact hmem

theorem put_anonymous (g : Gathering) (key : Text) (entry message usage : Json) :
    (g.put key entry message usage).anonymous = g.anonymous := by
  rw [Gathering.put]
  split <;> rfl

end Put

theorem gatherLine_cases (g : Gathering) (l : Line) :
    (l.response = none ∧ gatherLine g l = g) ∨
      (∃ r entry message, l.response = some r ∧ r.id = none ∧
        gatherLine g l = Gathering.put { g with anonymous := g.anonymous + 1 }
          (anonymousKey (g.anonymous + 1)) entry message r.usage) ∨
      ∃ r k entry message, l.response = some r ∧ r.id = some k ∧
        gatherLine g l = g.put k entry message r.usage := by
  unfold gatherLine Line.response
  rcases l.usage with _ | ⟨entry, message, usage⟩
  · exact .inl ⟨rfl, rfl⟩
  · rcases hid : text (message.get (Text.of "id")) with _ | k
    · refine .inr (.inl ⟨⟨none, usage⟩, entry, message, ?_, rfl, ?_⟩)
      · simp [hid]
      · simp [hid]
    · refine .inr (.inr ⟨⟨some k, usage⟩, k, entry, message, ?_, rfl, ?_⟩)
      · simp [hid]
      · simp [hid]

theorem anonymousKey_injective {m n : ℕ} (h : anonymousKey m = anonymousKey n) : m = n := by
  have hdecimal := congrArg Text.number (List.append_cancel_left h)
  rwa [Text.number_decimal, Text.number_decimal] at hdecimal

theorem messageId_anonymousKey (n : ℕ) : messageId (anonymousKey n) = none :=
  if_pos (List.isPrefixOf_iff_prefix.2 (List.prefix_append _ _))

theorem messageId_of_not {k : Text} (h : ¬anonymousPrefix <+: k) : messageId k = some k :=
  if_neg (mt List.isPrefixOf_iff_prefix.1 h)

theorem Gathered.step {g : Gathering} {ls : List Line} {l : Line} (h : Gathered g ls)
    (hids : NoneMadeUp (ls ++ [l])) : Gathered (gatherLine g l) (ls ++ [l]) := by
  rcases gatherLine_cases g l with ⟨hnone, hg⟩ | ⟨r, entry, message, hr, hid, hg⟩ |
    ⟨r, k, entry, message, hr, hid, hg⟩
  · -- no usage
    rw [hg]
    refine ⟨h.stored, fun key => ?_, ?_⟩
    · rw [h.keys, carriesId_concat_none hnone]
    · rw [h.turns, responses_concat_none hnone]
  · -- no id: the key that is made up is a new one
    set g' : Gathering := { g with anonymous := g.anonymous + 1 } with hg'
    have hstored : ∀ key, (g'.responses key).isSome ↔ key ∈ g'.order := h.stored
    have hnotMem : anonymousKey (g.anonymous + 1) ∉ g'.order := by
      intro hmem
      rcases (h.keys _).1 hmem with hcarries | ⟨n, -, hle, hn⟩
      · exact hids _ ((carriesId_concat ls l _).2 (.inl hcarries)) (List.prefix_append _ _)
      · have hn := anonymousKey_injective hn
        omega
    have hnone : g'.responses (anonymousKey (g.anonymous + 1)) = none := by
      rw [← Option.not_isSome_iff_eq_none, hstored]
      exact hnotMem
    rw [hg]
    refine ⟨stored_put hstored _ _ _, fun key => ?_, ?_⟩
    · have hid' : ¬none = some key := by rintro ⟨⟩
      rw [mem_order_put hstored, h.keys, carriesId_concat_some hr, hid, or_iff_left hid', or_assoc,
        put_anonymous]
      refine or_congr_right ⟨?_, ?_⟩
      · rintro (⟨n, hpos, hle, hn⟩ | hn)
        · exact ⟨n, hpos, Nat.le_succ_of_le hle, hn⟩
        · exact ⟨g.anonymous + 1, Nat.succ_pos _, le_rfl, hn⟩
      · rintro ⟨n, hpos, hle, hn⟩
        rcases Nat.le_succ_iff.1 (show n ≤ g.anonymous + 1 from hle) with hle | rfl
        · exact .inl ⟨n, hpos, hle, hn⟩
        · exact .inr hn
    · rw [turns_put_new hstored hnone, responses_concat_new hr (by rw [hid]; rintro _ ⟨⟩),
        List.map_append, List.map_append, ← h.turns, List.map_singleton, List.map_singleton, hid]
      show _ ++ [(messageId (anonymousKey (g.anonymous + 1)), r.usage)] = _
      rw [messageId_anonymousKey]
      rfl
  · have hmadeUp := hids k ((carriesId_concat_some hr k).2 (.inr hid))
    have hkeys : ∀ key, key ∈ (g.put k entry message r.usage).order ↔ CarriesId (ls ++ [l]) key ∨
        ∃ n, 0 < n ∧ n ≤ (g.put k entry message r.usage).anonymous ∧ key = anonymousKey n := by
      intro key
      rw [mem_order_put h.stored, h.keys, carriesId_concat_some hr, hid, or_right_comm,
        Option.some_inj, eq_comm (a := k), put_anonymous]
    rw [hg]
    cases hstate : g.responses k with
    | none =>
      have hfirst : ∀ k' ∈ r.id, ¬CarriesId ls k' := by
        rw [hid]
        rintro _ ⟨⟩ hcarries
        have hmem := (h.stored k).2 ((h.keys k).2 (.inl hcarries))
        rw [hstate] at hmem
        cases hmem
      refine ⟨stored_put h.stored _ _ _, hkeys, ?_⟩
      rw [turns_put_new h.stored hstate, responses_concat_new hr hfirst, List.map_append,
        List.map_append, ← h.turns, List.map_singleton, List.map_singleton, hid]
      show _ ++ [(messageId k, r.usage)] = _
      rw [messageId_of_not hmadeUp]
    | some a =>
      have hcarries : CarriesId ls k := by
        rcases (h.keys k).1 ((h.stored k).1 (by rw [hstate]; rfl)) with hcarries | ⟨n, -, -, rfl⟩
        · exact hcarries
        · exact absurd (List.prefix_append _ _) hmadeUp
      refine ⟨stored_put h.stored _ _ _, hkeys, ?_⟩
      rw [turns_put_old hstate, responses_concat_again hr hid hcarries, h.turns]

/-- **The loop** gathers the responses, if no message id is like a key that is made up. -/
theorem gathered_gatherLines {ls : List Line} (h : NoneMadeUp ls) : Gathered (gatherLines ls) ls := by
  induction ls using List.reverseRecOn with
  | nil =>
    refine ⟨fun key => ?_, fun key => ?_, rfl⟩
    · exact iff_of_false (by simp [gatherLines]) List.not_mem_nil
    · refine iff_of_false List.not_mem_nil ?_
      rintro (⟨_, hl, _⟩ | ⟨n, hpos, hle, _⟩)
      · exact List.not_mem_nil hl
      · exact absurd hle (not_le.2 hpos)
  | append_singleton ls l ih =>
    rw [gatherLines, List.foldl_append]
    exact (ih fun k hk => h k ((carriesId_concat ls l k).2 (.inl hk))).step h

/-- A turn has no id that is like a key that is made up. -/
theorem not_prefix_of_mem {file : List Line} {reading : Reading} {t : Turn}
    (ht : t ∈ iterTurns file reading) : ∀ k ∈ t.messageId, ¬anonymousPrefix <+: k := by
  obtain ⟨key, -, hkey⟩ := List.mem_filterMap.1 ht
  obtain ⟨a, -, rfl⟩ := Option.map_eq_some_iff.1 hkey
  intro k hk hprefix
  have hk : messageId key = some k := hk
  unfold messageId at hk
  split at hk
  · cases hk
  · rename_i hnot
    obtain rfl := Option.some.inj hk
    exact hnot (List.isPrefixOf_iff_prefix.2 hprefix)

/-- An id that is carried is that of a response. -/
theorem exists_response {ls : List Line} {k : Text} (h : CarriesId ls k) :
    ∃ r ∈ responses ls, r.id = some k := by
  induction ls using List.reverseRecOn with
  | nil =>
    obtain ⟨_, hl, _⟩ := h
    exact absurd hl List.not_mem_nil
  | append_singleton ls l ih =>
    rw [responses_append]
    by_cases hcarries : CarriesId ls k
    · obtain ⟨r, hr, hk⟩ := ih hcarries
      exact ⟨r, List.mem_append_left _ hr, hk⟩
    · obtain ⟨r, hr, hk⟩ := ((carriesId_concat ls l k).1 h).resolve_left hcarries
      have hnew := responses_concat_new hr (fun k' hk' => by
        rw [hk] at hk'
        obtain rfl := Option.some.inj hk'
        exact hcarries)
      rw [← responses_append, hnew]
      exact ⟨r, List.mem_append_right _ (List.mem_singleton_self r), hk⟩

/-- **The two readers agree** if and only if no message id is like a key that is made up for an
entry without one. -/
theorem agree_iff (file : List Line) (reading : Reading) :
    Agree file reading ↔ NoneMadeUp (linesRead file reading) := by
  obtain ⟨htotals, hcounted, hlast⟩ := scanTranscript_linesRead file reading
  constructor
  · intro h k hk hprefix
    obtain ⟨r, hr, hid⟩ := exists_response hk
    have hmem : some k ∈ (iterTurns file reading).map Turn.messageId := by
      rw [h.ids]
      exact List.mem_map.2 ⟨r, hr, hid⟩
    obtain ⟨t, ht, htk⟩ := List.mem_map.1 hmem
    exact not_prefix_of_mem ht k htk hprefix
  · intro h
    have hturns := (gathered_gatherLines h).turns
    have hids : (iterTurns file reading).map Turn.messageId =
        (responses (linesRead file reading)).map Response.id := by
      have hfst := congrArg (List.map Prod.fst) hturns
      rwa [List.map_map, List.map_map] at hfst
    have husages : (iterTurns file reading).map Turn.usage =
        (responses (linesRead file reading)).map Response.usage := by
      have hsnd := congrArg (List.map Prod.snd) hturns
      rwa [List.map_map, List.map_map] at hsnd
    refine ⟨?_, ?_, hids, ?_⟩
    · rw [hcounted, ← List.length_map Turn.messageId, hids, List.length_map]
    · have htokens := congrArg (fun usages => (usages.map fromMapping).sum) husages
      rw [List.map_map, List.map_map] at htokens
      rw [htotals]
      exact htokens
    · have hgetLast := congrArg List.getLast? hids
      rw [List.getLast?_map, List.getLast?_map] at hgetLast
      have hbind : ∀ {α : Type} (x : Option α) (f : α → Option Text), x.bind f = (x.map f).bind id := by
        intro α x f
        cases x <;> rfl
      rw [hlast, hbind, hgetLast, ← hbind]

/-- A line with an empty usage, and a message id or none. -/
def usageLine (id : Option Text) : Line :=
  .entry (.obj [(Text.of "message", .obj (id.toList.map (fun k => (Text.of "id", .str k)) ++
    [(Text.of "usage", .obj [])]))])

/-- An id that is a key that is made up: its line is taken for another one of the entry without
an id. -/
theorem not_agree_anonymous : ¬Agree [usageLine none, usageLine (some (anonymousKey 1))] .whole :=
  fun h => absurd h.count (by decide +kernel)

end Tokenweir.Parity
