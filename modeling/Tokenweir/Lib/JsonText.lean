import Tokenweir.Lib.JsonToken

/-!
# JSON texts

The texts that write a value, as a grammar, and `json.loads` of Python on a string: with `NaN` and
the infinities, without integers of more than 4300 digits, and nested as deep as one likes, where
Python has a recursion limit.

* `Member`, `Element`, `Writes`; `Document`;
* `scanOnce`, `loads`;
* `Writes.reads`, `loads_of_document`, the decoder reads what the grammar writes.
-/

namespace Tokenweir.JsonText

/-! ### Dicts -/

/-- `d[key] = value`. -/
def setItem (key : Text) (v : Json) : List (Text × Json) → List (Text × Json)
  | [] => [(key, v)]
  | kv :: kvs => if kv.1 = key then (key, v) :: kvs else kv :: setItem key v kvs

/-- The dict of some pairs: a later value of a key overwrites the earlier one, in its place. -/
def dictOf (pairs : List (Text × Json)) : List (Text × Json) :=
  pairs.foldl (fun d kv => setItem kv.1 kv.2 d) []

theorem setItem_of_notMem {key : Text} {v : Json} {d : List (Text × Json)}
    (h : key ∉ d.map Prod.fst) : setItem key v d = d ++ [(key, v)] := by
  induction d with
  | nil => rfl
  | cons kv d ih =>
    rw [List.map_cons, List.mem_cons, not_or] at h
    rw [setItem, if_neg (Ne.symm h.1), ih h.2, List.cons_append]

theorem foldl_setItem {pairs d : List (Text × Json)}
    (h : ((d ++ pairs).map Prod.fst).Nodup) :
    pairs.foldl (fun d kv => setItem kv.1 kv.2 d) d = d ++ pairs := by
  induction pairs generalizing d with
  | nil => simp
  | cons kv pairs ih =>
    have hnotMem : kv.1 ∉ d.map Prod.fst := by
      rw [List.map_append, List.nodup_append] at h
      intro hmem
      exact h.2.2 _ hmem _ (by simp) rfl
    rw [List.foldl_cons, setItem_of_notMem hnotMem, ih (by simpa using h), List.append_assoc,
      List.singleton_append]

/-- Pairs of different keys are a dict. -/
theorem dictOf_eq_self {pairs : List (Text × Json)} (h : (pairs.map Prod.fst).Nodup) :
    dictOf pairs = pairs :=
  foldl_setItem (d := []) h

/-! ### The grammar -/

/-- White space. -/
abbrev Gap := { t : Text // t.all isSpace = true }

/-- The literals, those of numbers that are not finite among them. -/
def literals : List (Text × Json) :=
  [(Text.of "null", .null), (Text.of "true", .bool true), (Text.of "false", .bool false),
    (Text.of "NaN", .float none), (Text.of "Infinity", .float none),
    (Text.of "-Infinity", .float none)]

/-- A member of an object, as it is written. -/
structure Member where
  before : Gap
  key : Text
  keyText : Text
  beforeColon : Gap
  afterColon : Gap
  value : Json
  valueText : Text
  after : Gap
  writesKey : WritesString key keyText

/-- An element of an array, as it is written. -/
structure Element where
  before : Gap
  value : Json
  valueText : Text
  after : Gap

def Member.text (m : Member) : Text :=
  m.before.1 ++ (m.keyText ++ (m.beforeColon.1 ++ CodePoint.of ':' ::
    (m.afterColon.1 ++ (m.valueText ++ m.after.1))))

def Member.pair (m : Member) : Text × Json := (m.key, m.value)

def Element.text (e : Element) : Text := e.before.1 ++ (e.valueText ++ e.after.1)

/-- Some texts with commas between them. -/
def commaSeparated : List Text → Text
  | [] => []
  | [t] => t
  | t :: u :: ts => t ++ CodePoint.of ',' :: commaSeparated (u :: ts)

/-- The texts that write a value. -/
inductive Writes : Text → Json → Prop
  | literal {t : Text} {v : Json} : (t, v) ∈ literals → Writes t v
  | number {n : Numeral} {v : Json} : n.value = some v → Writes n.text v
  | string {s t : Text} : WritesString s t → Writes t (.str s)
  | emptyObject (gap : Gap) : Writes (CodePoint.of '{' :: (gap.1 ++ [CodePoint.of '}'])) (.obj [])
  | object {ms : List Member} (hne : ms ≠ []) : (∀ m ∈ ms, Writes m.valueText m.value) →
      Writes (CodePoint.of '{' :: (commaSeparated (ms.map Member.text) ++ [CodePoint.of '}']))
        (.obj (dictOf (ms.map Member.pair)))
  | emptyArray (gap : Gap) : Writes (CodePoint.of '[' :: (gap.1 ++ [CodePoint.of ']'])) (.arr [])
  | array {es : List Element} (hne : es ≠ []) : (∀ e ∈ es, Writes e.valueText e.value) →
      Writes (CodePoint.of '[' :: (commaSeparated (es.map Element.text) ++ [CodePoint.of ']']))
        (.arr (es.map Element.value))

/-- A value with white space around it. -/
def Document (t : Text) (v : Json) : Prop :=
  ∃ (before : Gap) (core : Text) (after : Gap), Writes core v ∧ t = before.1 ++ (core ++ after.1)

/-! ### The decoder -/

/-- A literal at the front. -/
def scanLiteral (s : Text) : Option (Json × Text) :=
  (literals.find? fun l => l.1.isPrefixOf s).map fun l => (l.2, s.drop l.1.length)

mutual

/-- `scan_once`. -/
def scanOnce : ℕ → Text → Option (Json × Text)
  | 0, _ => none
  | _ + 1, [] => none
  | fuel + 1, c :: s =>
    if c = quote then (scanString s).map fun r => (.str r.1, r.2)
    else if c = CodePoint.of '{' then
      match Text.after '}' (skipSpace s) with
      | some s => some (.obj [], s)
      | none => (scanMembers fuel (skipSpace s)).map fun r => (.obj (dictOf r.1), r.2)
    else if c = CodePoint.of '[' then
      match Text.after ']' (skipSpace s) with
      | some s => some (.arr [], s)
      | none => (scanElements fuel (skipSpace s)).map fun r => (.arr r.1, r.2)
    else (scanLiteral (c :: s)).or (scanNumber (c :: s))

/-- The members of an object, from a key on. -/
def scanMembers : ℕ → Text → Option (List (Text × Json) × Text)
  | 0, _ => none
  | fuel + 1, s =>
    (Text.after '"' s).bind fun s =>
    (scanString s).bind fun key =>
    (Text.after ':' (skipSpace key.2)).bind fun s =>
    (scanOnce fuel (skipSpace s)).bind fun v =>
    match Text.after ',' (skipSpace v.2) with
    | some s => (scanMembers fuel (skipSpace s)).map fun r => ((key.1, v.1) :: r.1, r.2)
    | none => (Text.after '}' (skipSpace v.2)).map fun s => ([(key.1, v.1)], s)

/-- The elements of an array, from a value on. -/
def scanElements : ℕ → Text → Option (List Json × Text)
  | 0, _ => none
  | fuel + 1, s =>
    (scanOnce fuel s).bind fun v =>
    match Text.after ',' (skipSpace v.2) with
    | some s => (scanElements fuel (skipSpace s)).map fun r => (v.1 :: r.1, r.2)
    | none => (Text.after ']' (skipSpace v.2)).map fun s => ([v.1], s)

end

/-- `JSONDecoder.decode`. -/
def decode (s : Text) : Option Json :=
  (scanOnce (2 * (skipSpace s).length) (skipSpace s)).bind fun r =>
    if skipSpace r.2 = [] then some r.1 else none

/-- `json.loads` of a string, which does not begin with a byte order mark. -/
def loads (s : Text) : Option Json := if s.head? = some 0xfeff then none else decode s

/-! ### The decoder reads what is written -/

/-- What is no white space at the front. -/
def Solid (s : Text) : Prop := ∀ c ∈ s.head?, isSpace c = false

theorem skipSpace_append {gap : Text} {s : Text} (hgap : gap.all isSpace = true) (hs : Solid s) :
    skipSpace (gap ++ s) = s := by
  rw [List.all_eq_true] at hgap
  rw [skipSpace, List.dropWhile_append_of_pos hgap]
  cases s with
  | nil => rfl
  | cons c s => exact List.dropWhile_cons_of_neg (by simp [hs c rfl])

theorem skipSpace_gap (gap : Gap) {c : CodePoint} (s : Text) (hc : isSpace c = false) :
    skipSpace (gap.1 ++ c :: s) = c :: s := by
  apply skipSpace_append gap.2
  rintro _ ⟨⟩
  exact hc

/-- A value begins with a printable character, which is no bracket that closes. -/
structure Begins (c : CodePoint) : Prop where
  ascii : c.val < 128
  solid : isSpace c = false
  open_object : c ≠ CodePoint.of '}'
  open_array : c ≠ CodePoint.of ']'

theorem begins_quote : Begins quote := ⟨by decide, by decide, by decide, by decide⟩

/-- A number begins with a digit, or a minus and a digit. -/
theorem numeral_cons (n : Numeral) : ∃ d s, 48 ≤ d.val ∧ d.val ≤ 57 ∧
    (n.text = d :: s ∨ n.text = minus :: d :: s) := by
  obtain ⟨d, ds, hwhole, hd⟩ := exists_digit n.whole_ne n.whole_isDigit
  refine ⟨d, ds ++ (fractionText n.fraction ++ n.exponent.elim [] Exponent.text), hd.1, hd.2, ?_⟩
  rw [Numeral.text, hwhole]
  cases n.negative
  · exact .inl rfl
  · exact .inr rfl

theorem begins_digit {d : CodePoint} (hlow : 48 ≤ d.val) (hhigh : d.val ≤ 57) : Begins d := by
  refine ⟨by omega, ?_, ?_, ?_⟩
  · simp only [isSpace, Bool.or_eq_false_iff, beq_eq_false_iff_ne]
    omega
  · rintro rfl
    exact absurd hhigh (by decide)
  · rintro rfl
    exact absurd hhigh (by decide)

theorem writesString_cons {s t : Text} (h : WritesString s t) : ∃ u, t = quote :: u := by
  obtain ⟨_, body, _, _, rfl⟩ := h
  exact ⟨_, rfl⟩

theorem Writes.begins {t : Text} {v : Json} (h : Writes t v) : ∃ c s, t = c :: s ∧ Begins c := by
  cases h with
  | literal h =>
    simp only [literals, List.mem_cons, Prod.mk.injEq, List.not_mem_nil, or_false] at h
    rcases h with ⟨rfl, -⟩ | ⟨rfl, -⟩ | ⟨rfl, -⟩ | ⟨rfl, -⟩ | ⟨rfl, -⟩ | ⟨rfl, -⟩
    all_goals exact ⟨_, _, rfl, by decide, by decide, by decide, by decide⟩
  | number h =>
    rename_i n
    obtain ⟨d, s, hlow, hhigh, htext | htext⟩ := numeral_cons n
    · exact ⟨_, _, htext, begins_digit hlow hhigh⟩
    · exact ⟨_, _, htext, by decide, by decide, by decide, by decide⟩
  | string h =>
    obtain ⟨u, rfl⟩ := writesString_cons h
    exact ⟨_, _, rfl, begins_quote⟩
  | emptyObject | object | emptyArray | array =>
    exact ⟨_, _, rfl, by decide, by decide, by decide, by decide⟩

/-- A value is read, whatever follows it. -/
def Reads (t : Text) (v : Json) : Prop :=
  ∀ fuel rest, 2 * t.length ≤ fuel → Follows rest → scanOnce fuel (t ++ rest) = some (v, rest)

theorem Follows.gap {s : Text} (h : Follows s) (gap : Gap) : Follows (gap.1 ++ s) := by
  obtain ⟨gap, hgap⟩ := gap
  cases gap with
  | nil => exact h
  | cons c gap =>
    rintro _ ⟨⟩
    exact .inl (by simp at hgap; exact hgap.1)

theorem follows_cons {c : CodePoint} (s : Text)
    (h : c = CodePoint.of ',' ∨ c = CodePoint.of '}' ∨ c = CodePoint.of ']') : Follows (c :: s) := by
  rintro _ ⟨⟩
  exact .inr h

theorem after_of (c : Char) (s : Text) : Text.after c (CodePoint.of c :: s) = some s := if_pos rfl

theorem after_quote (s : Text) : Text.after '"' (quote :: s) = some s := by
  rw [Text.after, if_pos (by decide)]

theorem after_ne {c : Char} {d : CodePoint} {s : Text} (h : d ≠ CodePoint.of c) :
    Text.after c (d :: s) = none :=
  if_neg h

theorem literals_letter {l : Text × Json} (h : l ∈ literals) :
    ∃ c s, 57 < c.val ∧ (l.1 = c :: s ∨ l.1 = minus :: c :: s) := by
  simp only [literals, List.mem_cons, List.not_mem_nil, or_false] at h
  rcases h with rfl | rfl | rfl | rfl | rfl | rfl
  · exact ⟨CodePoint.of 'n', _, by decide, .inl rfl⟩
  · exact ⟨CodePoint.of 't', _, by decide, .inl rfl⟩
  · exact ⟨CodePoint.of 'f', _, by decide, .inl rfl⟩
  · exact ⟨CodePoint.of 'N', _, by decide, .inl rfl⟩
  · exact ⟨CodePoint.of 'I', _, by decide, .inl rfl⟩
  · exact ⟨CodePoint.of 'I', _, by decide, .inr rfl⟩

/-- A literal is no prefix of a number. -/
theorem scanLiteral_numeral (n : Numeral) (rest : Text) : scanLiteral (n.text ++ rest) = none := by
  rw [scanLiteral, Option.map_eq_none_iff, List.find?_eq_none]
  intro l hl hprefix
  obtain ⟨tail, htail⟩ := List.isPrefixOf_iff_prefix.1 hprefix
  obtain ⟨d, s, hlow, hhigh, htext⟩ := numeral_cons n
  obtain ⟨c, u, hc, hletter⟩ := literals_letter hl
  have hminus : minus.val = 45 := rfl
  rcases htext with htext | htext <;> rcases hletter with hletter | hletter <;>
    rw [htext, hletter] at htail <;> simp only [List.cons_append, List.cons.injEq] at htail
  · rw [htail.1] at hc
    omega
  · rw [← htail.1] at hlow
    omega
  · rw [htail.1] at hc
    omega
  · rw [htail.2.1] at hc
    omega

theorem scanLiteral_append {t : Text} {v : Json} (h : (t, v) ∈ literals) (rest : Text) :
    scanLiteral (t ++ rest) = some (v, rest) := by
  simp only [literals, List.mem_cons, Prod.mk.injEq, List.not_mem_nil, or_false] at h
  rcases h with ⟨rfl, rfl⟩ | ⟨rfl, rfl⟩ | ⟨rfl, rfl⟩ | ⟨rfl, rfl⟩ | ⟨rfl, rfl⟩ | ⟨rfl, rfl⟩
  all_goals rfl

/-- What begins neither a string nor an object nor an array. -/
def Plain (t : Text) : Prop :=
  ∃ c s, t = c :: s ∧ c ≠ quote ∧ c ≠ CodePoint.of '{' ∧ c ≠ CodePoint.of '['

theorem exists_fuel {fuel : ℕ} {t : Text} (hne : t ≠ []) (hfuel : 2 * t.length ≤ fuel) :
    ∃ k, fuel = k + 1 := by
  have hlength := List.length_pos_of_ne_nil hne
  exact ⟨fuel - 1, by omega⟩

theorem scanOnce_plain {fuel : ℕ} {t : Text} (h : Plain t) (rest : Text)
    (hfuel : 2 * t.length ≤ fuel) :
    scanOnce fuel (t ++ rest) = (scanLiteral (t ++ rest)).or (scanNumber (t ++ rest)) := by
  obtain ⟨c, s, rfl, hquote, hobject, harray⟩ := h
  obtain ⟨fuel, rfl⟩ := exists_fuel (List.cons_ne_nil c s) hfuel
  rw [List.cons_append, scanOnce, if_neg hquote, if_neg hobject, if_neg harray]

theorem plain_literal {t : Text} {v : Json} (h : (t, v) ∈ literals) : Plain t := by
  simp only [literals, List.mem_cons, Prod.mk.injEq, List.not_mem_nil, or_false] at h
  rcases h with ⟨rfl, -⟩ | ⟨rfl, -⟩ | ⟨rfl, -⟩ | ⟨rfl, -⟩ | ⟨rfl, -⟩ | ⟨rfl, -⟩
  all_goals exact ⟨_, _, rfl, by decide, by decide, by decide⟩

theorem plain_numeral (n : Numeral) : Plain n.text := by
  obtain ⟨d, s, hlow, hhigh, htext | htext⟩ := numeral_cons n
  · refine ⟨d, s, htext, ?_, ?_, ?_⟩ <;> rintro rfl
    · exact absurd hlow (by decide)
    · exact absurd hhigh (by decide)
    · exact absurd hhigh (by decide)
  · exact ⟨_, _, htext, by decide, by decide, by decide⟩

theorem reads_literal {t : Text} {v : Json} (h : (t, v) ∈ literals) : Reads t v := by
  intro fuel rest hfuel _
  rw [scanOnce_plain (plain_literal h) rest hfuel, scanLiteral_append h, Option.some_or]

theorem reads_number {n : Numeral} {v : Json} (h : n.value = some v) : Reads n.text v := by
  intro fuel rest hfuel hrest
  rw [scanOnce_plain (plain_numeral n) rest hfuel, scanLiteral_numeral, Option.none_or,
    scanNumber_append n hrest, h, Option.map_some]

theorem reads_string {s t : Text} (h : WritesString s t) : Reads t (.str s) := by
  intro fuel rest hfuel _
  obtain ⟨u, rfl⟩ := writesString_cons h
  obtain ⟨body, hbody, hscan⟩ := scanString_append h rest
  obtain ⟨fuel, rfl⟩ := exists_fuel (List.cons_ne_nil _ _) hfuel
  rw [hbody, scanOnce, if_pos rfl, hscan, Option.map_some]

/-- What is read of a member, up to its value. -/
theorem member_scan (m : Member) (h : Writes m.valueText m.value) (c : CodePoint) (s : Text) :
    ∃ body keyRest valueRest,
      skipSpace (m.text ++ c :: s) = quote :: body ∧ scanString body = some (m.key, keyRest) ∧
      Text.after ':' (skipSpace keyRest) = some valueRest ∧
      skipSpace valueRest = m.valueText ++ (m.after.1 ++ c :: s) := by
  obtain ⟨u, hu⟩ := writesString_cons m.writesKey
  obtain ⟨d, w, hvalue, hd⟩ := h.begins
  obtain ⟨body, hbody, hscan⟩ := scanString_append m.writesKey
    (m.beforeColon.1 ++ CodePoint.of ':' :: (m.afterColon.1 ++ (m.valueText ++ (m.after.1 ++ c :: s))))
  refine ⟨body, _, m.afterColon.1 ++ (m.valueText ++ (m.after.1 ++ c :: s)), ?_, hscan, ?_, ?_⟩
  · rw [← hbody, Member.text]
    simp only [List.append_assoc, List.cons_append]
    rw [hu, List.cons_append, skipSpace_gap _ _ begins_quote.solid]
  · rw [skipSpace_gap _ _ (by decide), after_of]
  · rw [hvalue, List.cons_append, skipSpace_gap _ _ hd.solid]

section Members

variable {fuel : ℕ} {m : Member}

/-- The last member of an object. -/
theorem scanMembers_last (h : Writes m.valueText m.value) (hreads : Reads m.valueText m.value)
    (hfuel : 2 * m.valueText.length ≤ fuel) (rest : Text) :
    scanMembers (fuel + 1) (skipSpace (m.text ++ CodePoint.of '}' :: rest)) =
      some ([m.pair], rest) := by
  obtain ⟨body, keyRest, valueRest, hbody, hkey, hcolon, hvalue⟩ :=
    member_scan m h (CodePoint.of '}') rest
  have hfollows := (follows_cons rest (.inr (.inl rfl))).gap m.after
  rw [hbody, scanMembers, after_quote, Option.bind_some, hkey, Option.bind_some]
  dsimp only
  rw [hcolon, Option.bind_some, hvalue, hreads _ _ hfuel hfollows, Option.bind_some]
  dsimp only
  rw [skipSpace_gap _ _ (by decide), after_ne (by decide), after_of]
  rfl

/-- A member of an object with others after it. -/
theorem scanMembers_cons (h : Writes m.valueText m.value) (hreads : Reads m.valueText m.value)
    (hfuel : 2 * m.valueText.length ≤ fuel) (s : Text) :
    scanMembers (fuel + 1) (skipSpace (m.text ++ CodePoint.of ',' :: s)) =
      (scanMembers fuel (skipSpace s)).map fun r => (m.pair :: r.1, r.2) := by
  obtain ⟨body, keyRest, valueRest, hbody, hkey, hcolon, hvalue⟩ :=
    member_scan m h (CodePoint.of ',') s
  have hfollows := (follows_cons s (.inl rfl)).gap m.after
  rw [hbody, scanMembers, after_quote, Option.bind_some, hkey, Option.bind_some]
  dsimp only
  rw [hcolon, Option.bind_some, hvalue, hreads _ _ hfuel hfollows, Option.bind_some]
  dsimp only
  rw [skipSpace_gap _ _ (by decide), after_of]
  rfl

end Members

/-- The members of an object are read, if their values are. -/
theorem scanMembers_append {ms : List Member} (hne : ms ≠ [])
    (h : ∀ m ∈ ms, Writes m.valueText m.value) (hreads : ∀ m ∈ ms, Reads m.valueText m.value)
    (fuel : ℕ) (rest : Text) (hfuel : 2 * (commaSeparated (ms.map Member.text)).length + 1 ≤ fuel) :
    scanMembers fuel (skipSpace (commaSeparated (ms.map Member.text) ++ CodePoint.of '}' :: rest)) =
      some (ms.map Member.pair, rest) := by
  have hvalue : ∀ m : Member, m.valueText.length ≤ m.text.length := by
    intro m
    simp only [Member.text, List.length_append, List.length_cons]
    omega
  induction ms generalizing fuel with
  | nil => exact absurd rfl hne
  | cons m ms ih =>
    obtain ⟨fuel, rfl⟩ : ∃ k, fuel = k + 1 := ⟨fuel - 1, by omega⟩
    have hm := h m List.mem_cons_self
    have hmreads := hreads m List.mem_cons_self
    have hlength := hvalue m
    cases ms with
    | nil =>
      simp only [List.map_cons, List.map_nil, commaSeparated] at hfuel ⊢
      exact scanMembers_last hm hmreads (by omega) rest
    | cons m' ms =>
      simp only [List.map_cons, commaSeparated, List.length_append, List.length_cons] at hfuel ih ⊢
      rw [List.append_assoc, List.cons_append, scanMembers_cons hm hmreads (by omega),
        ih (List.cons_ne_nil _ _) (fun n hn => h n (List.mem_cons_of_mem _ hn))
          (fun n hn => hreads n (List.mem_cons_of_mem _ hn)) fuel (by omega)]
      rfl

section Elements

variable {fuel : ℕ} {e : Element}

theorem element_scan (e : Element) (h : Writes e.valueText e.value) (s : Text) :
    skipSpace (e.text ++ s) = e.valueText ++ (e.after.1 ++ s) := by
  obtain ⟨d, w, hvalue, hd⟩ := h.begins
  rw [Element.text, List.append_assoc, List.append_assoc, hvalue, List.cons_append,
    skipSpace_gap _ _ hd.solid]

/-- The last element of an array. -/
theorem scanElements_last (h : Writes e.valueText e.value) (hreads : Reads e.valueText e.value)
    (hfuel : 2 * e.valueText.length ≤ fuel) (rest : Text) :
    scanElements (fuel + 1) (skipSpace (e.text ++ CodePoint.of ']' :: rest)) =
      some ([e.value], rest) := by
  have hfollows := (follows_cons rest (.inr (.inr rfl))).gap e.after
  rw [element_scan e h, scanElements, hreads _ _ hfuel hfollows, Option.bind_some]
  dsimp only
  rw [skipSpace_gap _ _ (by decide), after_ne (by decide), after_of]
  rfl

/-- An element of an array with others after it. -/
theorem scanElements_cons (h : Writes e.valueText e.value) (hreads : Reads e.valueText e.value)
    (hfuel : 2 * e.valueText.length ≤ fuel) (s : Text) :
    scanElements (fuel + 1) (skipSpace (e.text ++ CodePoint.of ',' :: s)) =
      (scanElements fuel (skipSpace s)).map fun r => (e.value :: r.1, r.2) := by
  have hfollows := (follows_cons s (.inl rfl)).gap e.after
  rw [element_scan e h, scanElements, hreads _ _ hfuel hfollows, Option.bind_some]
  dsimp only
  rw [skipSpace_gap _ _ (by decide), after_of]

end Elements

/-- The elements of an array are read, if they are. -/
theorem scanElements_append {es : List Element} (hne : es ≠ [])
    (h : ∀ e ∈ es, Writes e.valueText e.value) (hreads : ∀ e ∈ es, Reads e.valueText e.value)
    (fuel : ℕ) (rest : Text)
    (hfuel : 2 * (commaSeparated (es.map Element.text)).length + 1 ≤ fuel) :
    scanElements fuel
        (skipSpace (commaSeparated (es.map Element.text) ++ CodePoint.of ']' :: rest)) =
      some (es.map Element.value, rest) := by
  have hvalue : ∀ e : Element, e.valueText.length ≤ e.text.length := by
    intro e
    simp only [Element.text, List.length_append]
    omega
  induction es generalizing fuel with
  | nil => exact absurd rfl hne
  | cons e es ih =>
    obtain ⟨fuel, rfl⟩ : ∃ k, fuel = k + 1 := ⟨fuel - 1, by omega⟩
    have he := h e List.mem_cons_self
    have hereads := hreads e List.mem_cons_self
    have hlength := hvalue e
    cases es with
    | nil =>
      simp only [List.map_cons, List.map_nil, commaSeparated] at hfuel ⊢
      exact scanElements_last he hereads (by omega) rest
    | cons e' es =>
      simp only [List.map_cons, commaSeparated, List.length_append, List.length_cons] at hfuel ih ⊢
      rw [List.append_assoc, List.cons_append, scanElements_cons he hereads (by omega),
        ih (List.cons_ne_nil _ _) (fun n hn => h n (List.mem_cons_of_mem _ hn))
          (fun n hn => hreads n (List.mem_cons_of_mem _ hn)) fuel (by omega)]
      rfl

/-- The members of an object begin with a quote. -/
theorem skipSpace_members {ms : List Member} (hne : ms ≠ []) (s : Text) :
    ∃ u, skipSpace (commaSeparated (ms.map Member.text) ++ s) = quote :: u := by
  obtain ⟨m, ms, rfl⟩ := List.exists_cons_of_ne_nil hne
  obtain ⟨u, hu⟩ := writesString_cons m.writesKey
  obtain ⟨v, hv⟩ : ∃ v, commaSeparated ((m :: ms).map Member.text) = m.text ++ v := by
    cases ms with
    | nil => exact ⟨[], (List.append_nil _).symm⟩
    | cons m' ms => exact ⟨_, rfl⟩
  rw [hv, Member.text, hu]
  simp only [List.append_assoc, List.cons_append]
  exact ⟨_, skipSpace_gap _ _ begins_quote.solid⟩

/-- The elements of an array begin with the first one's value. -/
theorem skipSpace_elements {es : List Element} (hne : es ≠ [])
    (h : ∀ e ∈ es, Writes e.valueText e.value) (s : Text) :
    ∃ c u, skipSpace (commaSeparated (es.map Element.text) ++ s) = c :: u ∧ Begins c := by
  obtain ⟨e, es, rfl⟩ := List.exists_cons_of_ne_nil hne
  have he := h e List.mem_cons_self
  obtain ⟨c, u, hc, hbegins⟩ := he.begins
  obtain ⟨v, hv⟩ : ∃ v, commaSeparated ((e :: es).map Element.text) = e.text ++ v := by
    cases es with
    | nil => exact ⟨[], (List.append_nil _).symm⟩
    | cons e' es => exact ⟨_, rfl⟩
  rw [hv, List.append_assoc, element_scan e he, hc]
  exact ⟨c, _, rfl, hbegins⟩

/-- **What the grammar writes is read.** -/
theorem Writes.reads {t : Text} {v : Json} (h : Writes t v) : Reads t v := by
  induction h with
  | literal h => exact reads_literal h
  | number h => exact reads_number h
  | string h => exact reads_string h
  | emptyObject gap =>
    intro fuel rest hfuel _
    obtain ⟨fuel, rfl⟩ := exists_fuel (List.cons_ne_nil _ _) hfuel
    simp only [List.cons_append, List.append_assoc, List.nil_append]
    rw [scanOnce, if_neg (by decide), if_pos rfl, skipSpace_gap _ _ (by decide), after_of]
  | object hne h ih =>
    rename_i ms
    intro fuel rest hfuel _
    obtain ⟨fuel, rfl⟩ := exists_fuel (List.cons_ne_nil _ _) hfuel
    simp only [List.length_cons, List.length_append, List.length_nil] at hfuel
    have hmembers := scanMembers_append hne h ih fuel rest (by omega)
    obtain ⟨s, hs⟩ := skipSpace_members hne (CodePoint.of '}' :: rest)
    simp only [List.cons_append, List.append_assoc, List.nil_append]
    rw [scanOnce, if_neg (by decide), if_pos rfl, hmembers, hs, after_ne (by decide)]
    rfl
  | emptyArray gap =>
    intro fuel rest hfuel _
    obtain ⟨fuel, rfl⟩ := exists_fuel (List.cons_ne_nil _ _) hfuel
    simp only [List.cons_append, List.append_assoc, List.nil_append]
    rw [scanOnce, if_neg (by decide), if_neg (by decide), if_pos rfl,
      skipSpace_gap _ _ (by decide), after_of]
  | array hne h ih =>
    rename_i es
    intro fuel rest hfuel _
    obtain ⟨fuel, rfl⟩ := exists_fuel (List.cons_ne_nil _ _) hfuel
    simp only [List.length_cons, List.length_append, List.length_nil] at hfuel
    have helements := scanElements_append hne h ih fuel rest (by omega)
    obtain ⟨c, s, hs, hc⟩ := skipSpace_elements hne h (CodePoint.of ']' :: rest)
    simp only [List.cons_append, List.append_assoc, List.nil_append]
    rw [scanOnce, if_neg (by decide), if_neg (by decide), if_pos rfl, helements, hs,
      after_ne hc.open_array]
    rfl

theorem decode_of_document {t : Text} {v : Json} (h : Document t v) : decode t = some v := by
  obtain ⟨before, core, after, hcore, rfl⟩ := h
  obtain ⟨c, s, rfl, hc⟩ := hcore.begins
  have hafter : Follows after.1 := by
    have hnil := (show Follows [] from fun _ h => nomatch h).gap after
    rwa [List.append_nil] at hnil
  have hrest : skipSpace after.1 = [] := by
    have hnil := skipSpace_append after.2 (s := []) fun _ h => nomatch h
    rwa [List.append_nil] at hnil
  rw [decode, List.cons_append, skipSpace_gap _ _ hc.solid, ← List.cons_append,
    hcore.reads _ _ (by simp) hafter, Option.bind_some]
  exact if_pos hrest

/-- **`json.loads`** of a text that writes a value is the value. -/
theorem loads_of_document {t : Text} {v : Json} (h : Document t v) : loads t = some v := by
  rw [loads, if_neg, decode_of_document h]
  obtain ⟨⟨before, hbefore⟩, core, after, hcore, rfl⟩ := h
  obtain ⟨c, s, rfl, hc⟩ := hcore.begins
  intro hmark
  cases before with
  | nil =>
    obtain rfl := Option.some.inj hmark
    exact absurd hc.ascii (by decide)
  | cons d before =>
    obtain rfl := Option.some.inj hmark
    rw [List.all_cons, Bool.and_eq_true] at hbefore
    exact absurd hbefore.1 (by decide)

end Tokenweir.JsonText
