import Tokenweir.Lib.JsonDump

/-!
# Layouts of JSON texts

`json.dumps` of an object with its arguments `indent`, `separators` and `sort_keys`.

* `Layout`, `Layout.dump`; `Layout.Blank`, a layout of JSON white space;
* `document_dump`, a text with such a layout writes the object; `writes_float`, a number written
  with a fraction or an exponent.
-/

namespace Tokenweir.JsonText

/-- The arguments of `json.dumps` that a layout is made of. -/
structure Layout where
  indent : Option Text := none
  separators : Option (Text × Text) := none
  sortKeys : Bool := false

namespace Layout

variable (l : Layout)

/-- `item_separator`. -/
def itemSeparator : Text :=
  match l.separators, l.indent with
  | some s, _ => s.1
  | none, none => Text.of ", "
  | none, some _ => Text.of ","

/-- `key_separator`. -/
def keySeparator : Text :=
  match l.separators with
  | some s => s.2
  | none => Text.of ": "

/-- A line break and the indentation of a level. -/
def newline (level : ℕ) : Text :=
  match l.indent with
  | some i => 10 :: (List.replicate level i).flatten
  | none => []

/-- A member, with the text of its value. -/
def member (m : Text × Text) : Text := dumpString m.1 ++ l.keySeparator ++ m.2

/-- `_iterencode_dict`, of the texts of the values. -/
def dump (ms : List (Text × Text)) : Text :=
  if ms = [] then Text.of "\x7b\x7d"
  else CodePoint.of '{' :: (l.newline 1 ++
    Text.join (l.itemSeparator ++ l.newline 1) (ms.map l.member) ++ l.newline 0 ++
      [CodePoint.of '}'])

/-- `sorted(dct.items())`, or the items as they are. -/
def order {α : Type} (items : List (Text × α)) : List (Text × α) :=
  if l.sortKeys then items.mergeSort fun a b => Text.le a.1 b.1 else items

/-- A character with white space around it. -/
def Separates (c : Char) (s : Text) : Prop := ∃ b a : Gap, s = b.1 ++ CodePoint.of c :: a.1

/-- **A layout of white space**: the separators are the comma and the colon of JSON. -/
structure Blank : Prop where
  indent : ∀ i ∈ l.indent, i.all isSpace = true
  item : Separates ',' l.itemSeparator
  key : Separates ':' l.keySeparator

/-! ### What is written with a layout -/

variable {l}

/-- The items of some things are ordered as these are. -/
theorem exists_order {ι α : Type} (k : ι → Text) (v : ι → α) (xs : List ι) :
    ∃ ys : List ι, ys.Perm xs ∧
      l.order (xs.map fun x => (k x, v x)) = ys.map fun x => (k x, v x) := by
  unfold order
  split_ifs
  · refine ⟨xs.mergeSort fun x y => Text.le (k x) (k y), List.mergeSort_perm _ _, ?_⟩
    exact (List.map_mergeSort (f := fun x => (k x, v x)) fun _ _ _ _ => rfl).symm
  · exact ⟨xs, List.Perm.refl _, rfl⟩

theorem Blank.newline (h : l.Blank) (level : ℕ) : (l.newline level).all isSpace = true := by
  unfold Layout.newline
  split
  · rename_i i hi
    have hblank := h.indent i hi
    rw [List.all_cons, Bool.and_eq_true, List.all_eq_true]
    refine ⟨by decide, fun c hc => ?_⟩
    obtain ⟨t, ht, hc⟩ := List.mem_flatten.1 hc
    rw [List.eq_of_mem_replicate ht] at hc
    exact List.all_eq_true.1 hblank c hc
  · rfl

/-- White space and white space. -/
def gapAppend (g h : Gap) : Gap := ⟨g.1 ++ h.1, by rw [List.all_append, g.2, h.2]; rfl⟩

/-- The members of an object, with commas and white space between them. -/
theorem exists_laidOut (line : Gap) {itemSep keySep : Text} (hitem : Separates ',' itemSep)
    (hkey : Separates ':' keySep) (last : Gap) {ds : List Dumped} (hne : ds ≠ []) (first : Gap) :
    ∃ ms : List Member, ms ≠ [] ∧ (∀ m ∈ ms, Writes m.valueText m.value) ∧
      ms.map Member.pair = ds.map (fun d => (d.key, d.value)) ∧
      commaSeparated (ms.map Member.text) = first.1 ++ (Text.join (itemSep ++ line.1)
        (ds.map fun d => dumpString d.key ++ keySep ++ d.text) ++ last.1) := by
  obtain ⟨beforeColon, afterColon, rfl⟩ := hkey
  obtain ⟨beforeComma, afterComma, rfl⟩ := hitem
  let member (d : Dumped) (before after : Gap) : Member :=
    ⟨before, d.key, dumpString d.key, beforeColon, afterColon, d.value, d.text, after,
      writesString_dump d.key_pairFree⟩
  have htext : ∀ d before after, (member d before after).text = before.1 ++ (dumpString d.key ++
      (beforeColon.1 ++ CodePoint.of ':' :: afterColon.1) ++ d.text ++ after.1) := by
    intro d before after
    show before.1 ++ (dumpString d.key ++ (beforeColon.1 ++ CodePoint.of ':' ::
      (afterColon.1 ++ (d.text ++ after.1)))) = _
    simp
  induction ds generalizing first with
  | nil => exact absurd rfl hne
  | cons d ds ih =>
    cases ds with
    | nil =>
      refine ⟨[member d first last], List.cons_ne_nil _ _, fun m hm => ?_, rfl, ?_⟩
      · rw [List.mem_singleton.1 hm]
        exact d.writes
      · show (member d first last).text = _
        rw [htext]
        simp [Text.join]
    | cons e ds =>
      obtain ⟨ms, hms, hwrites, hpairs, hrest⟩ :=
        ih (List.cons_ne_nil _ _) (gapAppend afterComma line)
      obtain ⟨m, ms, rfl⟩ := List.exists_cons_of_ne_nil hms
      refine ⟨member d first beforeComma :: m :: ms, List.cons_ne_nil _ _, fun n hn => ?_, ?_, ?_⟩
      · rcases List.mem_cons.1 hn with rfl | hn
        · exact d.writes
        · exact hwrites n hn
      · rw [List.map_cons, hpairs]
        rfl
      · rw [List.map_cons] at hrest
        rw [List.map_cons, List.map_cons, commaSeparated, hrest, htext]
        simp [Text.join, gapAppend]

/-- **An object** is written with any layout of white space. -/
theorem document_dump (h : l.Blank) {ds : List Dumped} (hnodup : (ds.map Dumped.key).Nodup) :
    Document (l.dump (ds.map fun d => (d.key, d.text)))
      (.obj (ds.map fun d => (d.key, d.value))) := by
  refine ⟨⟨[], rfl⟩, _, ⟨[], rfl⟩, ?_, by rw [List.nil_append, List.append_nil]⟩
  cases ds with
  | nil => exact .emptyObject ⟨[], rfl⟩
  | cons d ds =>
    obtain ⟨ms, hms, hwrites, hpairs, htext⟩ := exists_laidOut ⟨_, h.newline 1⟩ h.item
      h.key ⟨_, h.newline 0⟩ (List.cons_ne_nil d ds) ⟨_, h.newline 1⟩
    have hobject := Writes.object hms hwrites
    rw [hpairs, dictOf_eq_self (by rwa [List.map_map]), htext] at hobject
    rw [dump, if_neg (by simp), List.map_map]
    rw [List.append_assoc, List.append_assoc]
    rw [List.append_assoc, List.append_assoc] at hobject
    exact hobject

end Layout

/-! ### Floats -/

namespace Numeral

/-- The number that is written. -/
def number (n : Numeral) : ℚ :=
  signed n.negative (Text.number (n.whole ++ n.fraction.getD [])) *
    10 ^ ((n.exponent.map Exponent.value).getD 0 - (n.fraction.getD []).length)

end Numeral

/-- **A number that a double represents** is read as it is, if it is written with a fraction or an
exponent. -/
theorem writes_float {n : Numeral} (hfloat : n.fraction ≠ none ∨ n.exponent ≠ none)
    (h : IsDouble n.number) : Writes n.text (.float (some n.number)) := by
  refine .number ?_
  have hround := roundDouble_eq h
  unfold Numeral.number at hround ⊢
  unfold Numeral.value numberValue
  split
  · rename_i hfraction hexponent
    rw [hfraction, Option.map_eq_none_iff.1 hexponent] at hfloat
    simp at hfloat
  · rw [hround]

end Tokenweir.JsonText
