import Tokenweir.Parity.Turns

/-!
# Responses that are split over lines

A response is written as one line or as many, each with a part of its content; the turns of a
transcript are those of its responses either way.

* `numeric`, `Turn.thinkingTokens`, `isHeadlineEligible`;
* `Blocks.append`, `contentBlocks_append`, blocks are gathered part by part;
* `Written`, `Carries`, `Writes`, transcripts that write some responses;
* `wholeTurn`, `gather_written`; `iterTurns_writes`.
-/

namespace Tokenweir.Parity

open ClaudeCode

/-! ### Eligible turns -/

/-- `_numeric`. -/
def numeric : Option Json → Option ℤ
  | some (.int n) => some n
  | some (.float (some x)) => if x.den = 1 then some x.num else none
  | _ => none

/-- `Turn.thinking_tokens`. -/
def Turn.thinkingTokens (t : Turn) : ℤ :=
  match t.usage.get (Text.of "output_tokens_details") with
  | some details =>
    if details.isMapping then (numeric (details.get (Text.of "thinking_tokens"))).getD 0 else 0
  | none => 0

/-- `is_headline_eligible`. -/
def isHeadlineEligible (t : Turn) : Bool :=
  t.outputText.strip ≠ [] && !t.hasUnaccountedBlocks && t.thinkingText = [] &&
    t.thinkingTokens = 0

/-! ### Blocks -/

/-- The blocks of a content that is a list. -/
def contentBlocks (content : List Json) : Blocks := content.foldl Blocks.add {}

/-- What two parts of a content come to. -/
def Blocks.append (b c : Blocks) : Blocks :=
  ⟨b.textParts ++ c.textParts, b.thinkingParts ++ c.thinkingParts, b.unaccounted || c.unaccounted⟩

theorem Blocks.append_add (b c : Blocks) (block : Json) :
    (b.append c).add block = b.append (c.add block) := by
  unfold Blocks.add Blocks.append
  split
  · simp
  · split
    · split_ifs
      · split <;> simp
      · split
        · split <;> simp
        · simp
      · simp
    · simp

theorem Blocks.append_foldl (b c : Blocks) (content : List Json) :
    content.foldl Blocks.add (b.append c) = b.append (content.foldl Blocks.add c) := by
  induction content generalizing c with
  | nil => rfl
  | cons block content ih => rw [List.foldl_cons, Blocks.append_add, ih, List.foldl_cons]

/-- The blocks of a content are those of its parts. -/
theorem contentBlocks_append (content content' : List Json) :
    contentBlocks (content ++ content') =
      (contentBlocks content).append (contentBlocks content') := by
  have hempty : ∀ b : Blocks, b.append {} = b := fun b => by
    cases b
    simp [Blocks.append]
  rw [contentBlocks, List.foldl_append, ← hempty (content.foldl Blocks.add {}),
    Blocks.append_foldl]
  rfl

/-! ### Transcripts that write responses -/

/-- A response. -/
structure Written where
  id : Text
  model : Option Text
  timestamp : Option Text
  usage : Json
  content : List Json

/-- A line that writes a part of the content of a response. -/
def Carries (r : Written) (part : List Json) (l : Line) : Prop :=
  ∃ entry message, l.usage = some (entry, message, r.usage) ∧
    text (message.get (Text.of "id")) = some r.id ∧
    text (message.get (Text.of "model")) = r.model ∧
    text (entry.get (Text.of "timestamp")) = r.timestamp ∧
    message.get (Text.of "content") = some (.arr part)

/-- The message id of a line with a usage. -/
def lineId (l : Line) : Option Text := l.response.bind Response.id

/-- A transcript that writes some responses: each of its lines has no usage or writes a part of a
response, and the parts of a response, of which there are any number but none, come to its
content in the order of its lines. -/
structure Writes (rs : List Written) (ls : List Line) : Prop where
  distinct : (rs.map Written.id).Nodup
  lines : ∀ l ∈ ls, l.usage = none ∨ ∃ r ∈ rs, ∃ content, Carries r content l
  parts : ∀ r ∈ rs, ∃ parts, parts ≠ [] ∧ parts.flatten = r.content ∧
    List.Forall₂ (Carries r) parts (ls.filter fun l => lineId l = some r.id)

/-- The turn of a response that is written as a single line. -/
def wholeTurn (r : Written) : Turn where
  messageId := messageId r.id
  model := r.model
  timestamp := r.timestamp
  usage := r.usage
  outputText := (contentBlocks r.content).textParts.flatten
  thinkingText := (contentBlocks r.content).thinkingParts.flatten
  hasUnaccountedBlocks := (contentBlocks r.content).unaccounted

variable {r : Written} {rs : List Written} {l : Line} {ls : List Line} {a : Accumulator}
  {content content' : List Json} {k : Text}

theorem Carries.lineId (h : Carries r content l) : lineId l = some r.id := by
  obtain ⟨entry, message, husage, hid, -⟩ := h
  rw [Parity.lineId, Line.response, husage]
  exact hid

/-! ### What is gathered of a response -/

/-- An accumulator that has gathered this much of the content of a response. -/
structure Accumulator.Holds (a : Accumulator) (r : Written) (content : List Json) : Prop where
  model : a.model = r.model
  timestamp : a.timestamp = r.timestamp
  usage : a.usage = r.usage
  text : a.parts.flatten = (contentBlocks content).textParts.flatten
  thinking : a.thinkingParts.flatten = (contentBlocks content).thinkingParts.flatten
  unaccounted : a.hasUnaccountedBlocks = (contentBlocks content).unaccounted

theorem flatten_part (t : Text) : (part t).flatten = t := by
  unfold Parity.part
  split
  · rename_i h
    rw [h]
    rfl
  · exact List.append_nil t

theorem blocks_of_content {message : Json}
    (h : message.get (Text.of "content") = some (.arr content)) :
    blocks message = ((contentBlocks content).textParts.flatten,
      (contentBlocks content).thinkingParts.flatten, (contentBlocks content).unaccounted) := by
  rw [blocks, h]
  rfl

/-- What one more line does to what was gathered of its response. -/
def gatherOne (a : Option Accumulator) (l : Line) : Option Accumulator :=
  match l.usage with
  | none => a
  | some (entry, message, usage) =>
    some (a.elim (.start entry message usage) fun existing => existing.extend message)

/-- The first line of a response. -/
theorem Carries.start (h : Carries r content l) : ∃ a, gatherOne none l = some a ∧
    a.Holds r content := by
  obtain ⟨entry, message, husage, hid, hmodel, htimestamp, hcontent⟩ := h
  have hblocks := blocks_of_content hcontent
  refine ⟨.start entry message r.usage, by rw [gatherOne, husage]; rfl, hmodel, htimestamp, rfl,
    ?_, ?_, ?_⟩
  · show (part (blocks message).1).flatten = _
    rw [flatten_part, hblocks]
  · show (part (blocks message).2.1).flatten = _
    rw [flatten_part, hblocks]
  · show (blocks message).2.2 = _
    rw [hblocks]

/-- Another line of it. -/
theorem Carries.extend (h : Carries r content' l) (ha : a.Holds r content) :
    ∃ a', gatherOne (some a) l = some a' ∧ a'.Holds r (content ++ content') := by
  obtain ⟨entry, message, husage, hid, hmodel, htimestamp, hcontent⟩ := h
  have hblocks := blocks_of_content hcontent
  have happend := contentBlocks_append content content'
  refine ⟨a.extend message, by rw [gatherOne, husage]; rfl, ha.model, ha.timestamp, ha.usage,
    ?_, ?_, ?_⟩
  · show (a.parts ++ part (blocks message).1).flatten = _
    rw [List.flatten_append, flatten_part, hblocks, ha.text, happend, Blocks.append,
      List.flatten_append]
  · show (a.thinkingParts ++ part (blocks message).2.1).flatten = _
    rw [List.flatten_append, flatten_part, hblocks, ha.thinking, happend, Blocks.append,
      List.flatten_append]
  · show (a.hasUnaccountedBlocks || (blocks message).2.2) = _
    rw [hblocks, ha.unaccounted, happend, Blocks.append]

/-- All its lines. -/
theorem gather_parts {parts : List (List Json)} {lines : List Line}
    (h : List.Forall₂ (Carries r) parts lines) (ha : a.Holds r content) :
    ∃ a', lines.foldl gatherOne (some a) = some a' ∧ a'.Holds r (content ++ parts.flatten) := by
  induction h generalizing a content with
  | nil => exact ⟨a, rfl, by rwa [List.flatten_nil, List.append_nil]⟩
  | @cons part l parts lines hl hlines ih =>
    obtain ⟨a', ha', hholds⟩ := hl.extend ha
    rw [List.foldl_cons, ha', List.flatten_cons, ← List.append_assoc]
    exact ih hholds

/-- **A response that is split** comes to the turn of its single line. -/
theorem gather_written {parts : List (List Json)} {lines : List Line} (hparts : parts ≠ [])
    (hcontent : parts.flatten = r.content) (h : List.Forall₂ (Carries r) parts lines) :
    (lines.foldl gatherOne none).map (turn r.id) = some (wholeTurn r) := by
  cases h with
  | nil => exact absurd rfl hparts
  | @cons part l parts lines hl hlines =>
    obtain ⟨a, ha, hholds⟩ := hl.start
    obtain ⟨a', ha', hholds'⟩ := gather_parts hlines hholds
    rw [List.foldl_cons, ha, ha', Option.map_some]
    rw [← List.flatten_cons, hcontent] at hholds'
    obtain ⟨hmodel, htimestamp, husage, htext, hthinking, hunaccounted⟩ := hholds'
    rw [turn, wholeTurn, hmodel, htimestamp, husage, htext, hthinking, hunaccounted]

/-! ### The whole transcript -/

/-- Every line with a usage has a message id. -/
def Named (ls : List Line) : Prop := ∀ l ∈ ls, l.usage = none ∨ lineId l ≠ none

/-- Ids, each at its first place. -/
def firsts (ids : List Text) : List Text :=
  ids.foldl (fun order k => if k ∈ order then order else order ++ [k]) []

theorem firsts_snoc (ids : List Text) (k : Text) :
    firsts (ids ++ [k]) = if k ∈ firsts ids then firsts ids else firsts ids ++ [k] := by
  rw [firsts, List.foldl_append]
  rfl

theorem mem_firsts {ids : List Text} : k ∈ firsts ids ↔ k ∈ ids := by
  induction ids using List.reverseRecOn with
  | nil => exact Iff.rfl
  | append_singleton ids j ih =>
    rw [firsts_snoc, List.mem_append, List.mem_singleton]
    by_cases hmem : j ∈ firsts ids
    · rw [if_pos hmem, ih, iff_self_or]
      rintro rfl
      exact ih.1 hmem
    · rw [if_neg hmem, List.mem_append, List.mem_singleton, ih]

theorem nodup_firsts (ids : List Text) : (firsts ids).Nodup := by
  induction ids using List.reverseRecOn with
  | nil => exact List.nodup_nil
  | append_singleton ids j ih =>
    rw [firsts_snoc]
    by_cases hmem : j ∈ firsts ids
    · rwa [if_pos hmem]
    · rw [if_neg hmem]
      rw [← List.concat_eq_append]
      exact ih.concat hmem

/-- The loop gathers the lines of each id, and keeps the ids in the order of their first lines. -/
structure Sorted (g : Gathering) (ls : List Line) : Prop where
  stored : ∀ key, (g.responses key).isSome ↔ key ∈ g.order
  order : g.order = firsts (ls.filterMap lineId)
  responses : ∀ k, g.responses k = (ls.filter fun l => lineId l = some k).foldl gatherOne none

theorem lineId_of_usage {entry message usage : Json} (h : l.usage = some (entry, message, usage)) :
    lineId l = text (message.get (Text.of "id")) := by
  rw [lineId, Line.response, h]
  rfl

theorem lineId_of_none (h : l.usage = none) : lineId l = none := by
  rw [lineId, Line.response, h]
  rfl

/-- A line is put to those of its id. -/
theorem put_responses {g : Gathering} {entry message usage : Json}
    (h : l.usage = some (entry, message, usage)) (k k' : Text) :
    (g.put k entry message usage).responses k' =
      if k' = k then gatherOne (g.responses k) l else g.responses k' := by
  cases hk : g.responses k with
  | none =>
    rw [put_new hk, gatherOne, h]
    exact Function.update_apply ..
  | some a =>
    rw [put_old hk, gatherOne, h]
    exact Function.update_apply ..

theorem put_order {g : Gathering} (hstored : ∀ key, (g.responses key).isSome ↔ key ∈ g.order)
    (k : Text) (entry message usage : Json) : (g.put k entry message usage).order =
      if k ∈ g.order then g.order else g.order ++ [k] := by
  cases hk : g.responses k with
  | none =>
    rw [put_new hk, if_neg]
    rw [← hstored, hk]
    exact Bool.false_ne_true
  | some a =>
    rw [put_old hk, if_pos]
    rw [← hstored, hk]
    rfl

theorem Sorted.step {g : Gathering} (h : Sorted g ls) (hl : l.usage = none ∨ lineId l ≠ none) :
    Sorted (gatherLine g l) (ls ++ [l]) := by
  cases husage : l.usage with
  | none =>
    have hid := lineId_of_none husage
    have hg : gatherLine g l = g := by rw [gatherLine, husage]
    rw [hg]
    refine ⟨h.stored, ?_, fun k => ?_⟩
    · rw [h.order, List.filterMap_append]
      simp [hid]
    · rw [h.responses, List.filter_append]
      simp [hid]
  | some u =>
    obtain ⟨entry, message, usage⟩ := u
    have hid := lineId_of_usage husage
    obtain ⟨k, hk⟩ := Option.ne_none_iff_exists'.1 (hl.resolve_left (by rw [husage]; simp))
    have hg : gatherLine g l = g.put k entry message usage := by
      rw [gatherLine, husage]
      dsimp only
      rw [← hid, hk]
    rw [hg]
    refine ⟨stored_put h.stored entry message usage, ?_, fun k' => ?_⟩
    · rw [put_order h.stored, h.order, List.filterMap_append]
      simp [hk, firsts_snoc]
    · rw [put_responses husage, List.filter_append, List.foldl_append, ← h.responses]
      by_cases hkey : k' = k
      · subst hkey
        simp [hk]
      · have hne : lineId l ≠ some k' := by
          rw [hk]
          exact fun heq => hkey (Option.some.inj heq).symm
        simp [hkey, hne]

theorem sorted_gatherLines (h : Named ls) : Sorted (gatherLines ls) ls := by
  induction ls using List.reverseRecOn with
  | nil => exact ⟨fun key => by simp [gatherLines], rfl, fun k => rfl⟩
  | append_singleton ls l ih =>
    rw [gatherLines, List.foldl_append]
    exact (ih fun m hm => h m (List.mem_append_left _ hm)).step
      (h l (List.mem_append_right _ (List.mem_singleton_self l)))

theorem Writes.named (h : Writes rs ls) : Named ls := by
  intro l hl
  rcases h.lines l hl with hnone | ⟨r, -, content, hcarries⟩
  · exact Or.inl hnone
  · exact Or.inr (by rw [hcarries.lineId]; simp)

/-- The ids of the lines are those of the responses. -/
theorem Writes.mem_ids (h : Writes rs ls) : k ∈ ls.filterMap lineId ↔ k ∈ rs.map Written.id := by
  rw [List.mem_filterMap, List.mem_map]
  constructor
  · rintro ⟨l, hl, hk⟩
    rcases h.lines l hl with hnone | ⟨r, hr, content, hcarries⟩
    · rw [lineId_of_none hnone] at hk
      cases hk
    · rw [hcarries.lineId] at hk
      exact ⟨r, hr, Option.some.inj hk⟩
  · rintro ⟨r, hr, rfl⟩
    obtain ⟨parts, hparts, -, hlines⟩ := h.parts r hr
    cases hlines' : ls.filter fun l => lineId l = some r.id with
    | nil =>
      rw [hlines'] at hlines
      exact absurd (List.forall₂_nil_right_iff.1 hlines) hparts
    | cons l lines =>
      have hmem : l ∈ ls.filter fun l => lineId l = some r.id := by
        rw [hlines']
        exact List.mem_cons_self
      obtain ⟨hl, hid⟩ := List.mem_filter.1 hmem
      exact ⟨l, hl, of_decide_eq_true hid⟩

/-- The responses in the order of their first lines. -/
theorem Writes.exists_order (h : Writes rs ls) : ∃ order : List Written, order.Perm rs ∧
    order.map Written.id = firsts (ls.filterMap lineId) := by
  have hperm : (firsts (ls.filterMap lineId)).Perm (rs.map Written.id) :=
    (List.perm_ext_iff_of_nodup (nodup_firsts _) h.distinct).2 fun k =>
      mem_firsts.trans h.mem_ids
  have hids : List.Forall₂ (fun k r => k = r.id) (rs.map Written.id) rs :=
    List.forall₂_map_left_iff.2 (List.forall₂_same.2 fun r _ => rfl)
  obtain ⟨order, horder, hrs⟩ := List.perm_comp_forall₂ hperm hids
  refine ⟨order, hrs, ?_⟩
  have heq := List.forall₂_map_right_iff.2 horder
  rw [List.forall₂_eq_eq_eq] at heq
  exact heq.symm

/-- What is gathered of each response. -/
theorem Writes.gathered (h : Writes rs ls) (hr : r ∈ rs) :
    ((gatherLines ls).responses r.id).map (turn r.id) = some (wholeTurn r) := by
  obtain ⟨parts, hparts, hcontent, hlines⟩ := h.parts r hr
  rw [(sorted_gatherLines h.named).responses]
  exact gather_written hparts hcontent hlines

/-- The turns of a transcript that writes some responses. -/
theorem Writes.iterTurns (h : Writes rs ls) {order : List Written} (hperm : order.Perm rs)
    (horder : order.map Written.id = firsts (ls.filterMap lineId)) :
    iterTurns ls .whole = order.map wholeTurn := by
  show (gatherLines ls).turns = _
  rw [Gathering.turns, (sorted_gatherLines h.named).order, ← horder, List.filterMap_map]
  rw [← List.filterMap_eq_map]
  exact List.filterMap_congr fun r hr => h.gathered (hperm.subset hr)

/-- A response that is written as a single line. -/
theorem Carries.writes (h : Carries r r.content l) : Writes [r] [l] where
  distinct := List.nodup_singleton _
  lines := fun m hm => by
    rw [List.mem_singleton.1 hm]
    exact Or.inr ⟨r, List.mem_singleton_self r, _, h⟩
  parts := fun s hs => by
    rw [List.mem_singleton.1 hs]
    refine ⟨[r.content], by simp, by simp, ?_⟩
    rw [List.filter_cons_of_pos (by simpa using h.lineId)]
    exact .cons h .nil

/-- The turn of a response that is written as a single line. -/
theorem Carries.iterTurns (h : Carries r r.content l) : iterTurns [l] .whole = [wholeTurn r] :=
  h.writes.iterTurns (List.Perm.refl _) (by
    rw [List.filterMap_cons_some h.lineId]
    rfl)

/-- **Turns do not depend on how responses were split**: there is one for each response, in the
order of the first lines, and it is that of the response written as a single line. -/
theorem iterTurns_writes (rs : List Written) (ls : List Line) (h : Writes rs ls) :
    ∃ order : List Written, order.Perm rs ∧
      order.map Written.id = firsts (ls.filterMap lineId) ∧
      iterTurns ls .whole = order.map wholeTurn ∧
      (iterTurns ls .whole).map isHeadlineEligible =
        order.map (fun r => isHeadlineEligible (wholeTurn r)) ∧
      ∀ r ∈ order, ∀ l, Carries r r.content l → iterTurns [l] .whole = [wholeTurn r] := by
  obtain ⟨order, hperm, horder⟩ := h.exists_order
  have hturns := h.iterTurns hperm horder
  refine ⟨order, hperm, horder, hturns, ?_, fun r _ l hl => hl.iterTurns⟩
  rw [hturns, List.map_map]
  rfl

/-- A line with a part of the content of a response. -/
def partLine (id : String) (part : List Json) : Line :=
  .entry (.obj [(Text.of "message", .obj [(Text.of "id", .str (Text.of id)),
    (Text.of "content", .arr part), (Text.of "usage", .obj [])])])

/-- A response of which only the id and the content matter. -/
def plainWritten (id : String) (content : List Json) : Written :=
  ⟨Text.of id, none, none, .obj [], content⟩

/-- A block of text. -/
def textBlock (value : String) : Json :=
  .obj [(Text.of "type", .str (Text.of "text")), (Text.of "text", .str (Text.of value))]

theorem carries_partLine {id : String} (content : List Json) (part : List Json)
    (hid : (Text.of id).strip = Text.of id) (hne : Text.of id ≠ []) :
    Carries (plainWritten id content) part (partLine id part) := by
  have htext : text (some (.str (Text.of id))) = some (Text.of id) := by
    rw [text, hid, if_neg hne]
  exact ⟨_, _, rfl, htext, rfl, rfl, rfl⟩

/-- Two responses, the first of which is split in three, one of them empty, around the second. -/
theorem iterTurns_writes_two :
    Writes [plainWritten "a" [textBlock "x", .null], plainWritten "b" [textBlock "y"]]
      [partLine "a" [textBlock "x"], partLine "a" [], partLine "b" [textBlock "y"],
        partLine "a" [.null]] ∧
    ∃ order : List Written,
      order.Perm [plainWritten "a" [textBlock "x", .null], plainWritten "b" [textBlock "y"]] ∧
      order.map Written.id = [Text.of "a", Text.of "b"] := by
  have ha : ∀ content part, Carries (plainWritten "a" content) part (partLine "a" part) :=
    fun content part => carries_partLine content part (by decide) (by decide)
  have hb : ∀ content part, Carries (plainWritten "b" content) part (partLine "b" part) :=
    fun content part => carries_partLine content part (by decide) (by decide)
  have hwrites : Writes [plainWritten "a" [textBlock "x", .null], plainWritten "b" [textBlock "y"]]
      [partLine "a" [textBlock "x"], partLine "a" [], partLine "b" [textBlock "y"],
        partLine "a" [.null]] := by
    refine ⟨by decide, ?_, ?_⟩
    · simp only [List.mem_cons, List.not_mem_nil, or_false, forall_eq_or_imp, forall_eq]
      exact ⟨.inr ⟨_, .inl rfl, _, ha _ _⟩, .inr ⟨_, .inl rfl, _, ha _ _⟩,
        .inr ⟨_, .inr rfl, _, hb _ _⟩, .inr ⟨_, .inl rfl, _, ha _ _⟩⟩
    · simp only [List.mem_cons, List.not_mem_nil, or_false, forall_eq_or_imp, forall_eq]
      refine ⟨⟨[[textBlock "x"], [], [.null]], by simp, rfl, ?_⟩,
        ⟨[[textBlock "y"]], by simp, rfl, ?_⟩⟩
      · exact .cons (ha _ _) (.cons (ha _ _) (.cons (ha _ _) .nil))
      · exact .cons (hb _ _) .nil
  obtain ⟨order, hperm, horder, -⟩ := iterTurns_writes _ _ hwrites
  exact ⟨hwrites, order, hperm, horder.trans (by decide +kernel)⟩

end Tokenweir.Parity
