import Tokenweir.Contract.Wire
import Tokenweir.Emitter.Model

/-!
# Guarded metering

The model of `build_record`, `emit_record` and `emit_usage` of `tokenweir.sink`, which a request
calls: whatever it is given, a record comes of it or nothing does.

* `Base`, `merged`, `keywords`; `buildRecordOf`, `emitRecord`, `emitUsage`;
* `Known`, `Uncoerced`; `buildRecordOf_eq_some`;
* `build_record_strict`, the guard against the decoder of the same mapping;
* `build_record_replaces`, a record that is stamped.
-/

namespace Tokenweir.Metering

open Emitter (Outcome)

/-! ### The guarded calls -/

/-- What is given as `fields`. -/
inductive Base
  | absent
  /-- A mapping; a key may be no string. -/
  | mapping (items : List (Option Text × Json))
  /-- No mapping. -/
  | other

/-- The items of a mapping whose keys are strings. -/
def named (kvs : List (Text × Json)) : List (Option Text × Json) :=
  kvs.map fun kv => (some kv.1, kv.2)

/-- `merged`, where the first item of a key counts; `none` where it raises. -/
def merged (fields : Base) (overrides : List (Text × Json)) : Option (List (Option Text × Json)) :=
  match fields with
  | .absent => some (named overrides)
  | .mapping items => some (named overrides ++ items)
  | .other => none

/-- `**merged`: the keys have to be strings. -/
def keywords (items : List (Option Text × Json)) : Option (List (Text × Json)) :=
  items.mapM fun kv => kv.1.map fun key => (key, kv.2)

/-- Every key is the name of a field. -/
def Known (kvs : List (Text × Json)) : Prop := ∀ kv ∈ kvs, kv.1 ∈ Field.all.map Field.key

instance (kvs : List (Text × Json)) : Decidable (Known kvs) :=
  inferInstanceAs (Decidable (∀ kv ∈ kvs, kv.1 ∈ Field.all.map Field.key))

/-- `UsageRecord(**kwargs)`. -/
def callConstructor (kwargs : List (Text × Json)) : Option UsageRecord :=
  if Known kwargs then (construct (kwargsOf (.obj kwargs))).toOption else none

/-- `build_record`: `none` where an exception is caught. -/
def buildRecordOf (fields : Base) (overrides : List (Text × Json)) : Option UsageRecord :=
  (merged fields overrides).bind fun items => (keywords items).bind callConstructor

/-- `emit_record`, of a record or `None`: whether it was emitted; `none` where a `BaseException`
gets out of the sink. -/
def emitRecord (sink : UsageRecord → Outcome) : Option UsageRecord → Option Bool
  | none => some false
  | some r =>
    match sink r with
    | .returned => some true
    | .raised => some false
    | .fatal => none

/-- `emit_usage`. -/
def emitUsage (sink : UsageRecord → Outcome) (fields : Base) (overrides : List (Text × Json)) :
    Option (Option UsageRecord) :=
  match buildRecordOf fields overrides with
  | none => some none
  | some r => (emitRecord sink (some r)).map fun emitted => if emitted then some r else none

/-! ### What comes of the fields -/

variable {fields : Base} {items : List (Option Text × Json)} {kvs overrides : List (Text × Json)}
  {r r' : UsageRecord}

theorem keywords_eq_some : keywords items = some kvs ↔ items = named kvs := by
  unfold keywords named
  induction items generalizing kvs with
  | nil => cases kvs <;> simp
  | cons kv items ih =>
    obtain ⟨key, v⟩ := kv
    rw [List.mapM_cons]
    cases key with
    | none =>
      refine iff_of_false (by rintro ⟨⟩) ?_
      cases kvs <;> simp
    | some key =>
      simp only [Option.map_some, Option.bind_eq_bind, Option.bind_some, Option.bind_eq_some_iff,
        ih, Option.pure_def, Option.some_inj]
      constructor
      · rintro ⟨rest, rfl, rfl⟩
        rfl
      · intro h
        cases kvs with
        | nil => cases h
        | cons kv kvs =>
          obtain ⟨hkv, rfl⟩ := List.cons.inj h
          obtain ⟨hkey, rfl⟩ := Prod.mk.inj hkv
          obtain rfl := Option.some.inj hkey
          exact ⟨kvs, rfl, rfl⟩

/-- The record that is built has the values it was given, and the defaults. -/
theorem callConstructor_eq_some : callConstructor kvs = some r ↔
    Known kvs ∧ ∀ f, ((Json.obj kvs).get f.key).getD f.default = (r.scalar f).toJson := by
  unfold callConstructor
  by_cases h : Known kvs
  · have hconstruct := @construct_eq_ok (kwargsOf (.obj kvs)) r
    unfold kwargsOf at hconstruct
    rw [if_pos h, and_iff_right h, ← hconstruct]
    show (construct fun f => (Json.obj kvs).get f.key).toOption = some r ↔ _
    rcases construct fun f => (Json.obj kvs).get f.key with e | r'
    · exact iff_of_false (by rintro ⟨⟩) (by rintro ⟨⟩)
    · rw [Except.toOption, Option.some_inj, Except.ok.injEq]
  · rw [if_neg h]
    exact iff_of_false (by rintro ⟨⟩) fun hr => h hr.1

theorem buildRecordOf_eq_some : buildRecordOf fields overrides = some r ↔
    ∃ kvs, merged fields overrides = some (named kvs) ∧ callConstructor kvs = some r := by
  unfold buildRecordOf
  rw [Option.bind_eq_some_iff]
  constructor
  · rintro ⟨items, hmerged, h⟩
    obtain ⟨kvs, hkvs, hr⟩ := Option.bind_eq_some_iff.1 h
    exact ⟨kvs, by rw [hmerged, keywords_eq_some.1 hkvs], hr⟩
  · rintro ⟨kvs, hmerged, hr⟩
    exact ⟨named kvs, hmerged, Option.bind_eq_some_iff.2 ⟨kvs, keywords_eq_some.2 rfl, hr⟩⟩

/-- What is given for the fields of integers is no float. -/
def Uncoerced (kvs : List (Text × Json)) : Prop :=
  ∀ f ∈ Field.wireInteger, ∀ x, (Json.obj kvs).get f.key ≠ some (.float x)

/-- The value of a field, if it needs no coercion. -/
theorem coerceInteger_eq_toJson {v : Json} {s : Scalar} :
    v = s.toJson ↔ coerceInteger v = s.toJson ∧ ∀ x, v ≠ .float x := by
  constructor
  · rintro rfl
    refine ⟨coerceInteger_toJson s, fun x => ?_⟩
    cases s <;> rintro ⟨⟩
  · rintro ⟨h, hfloat⟩
    rw [← h]
    cases v with
    | float x => exact absurd rfl (hfloat x)
    | _ => rfl

/-- A field, with coercion and without. -/
theorem getD_iff_coerced {given : Option Json} {f : Field} {s : Scalar} :
    given.getD f.default = s.toJson ↔
      (if f ∈ Field.wireInteger then given.map coerceInteger else given).getD f.default = s.toJson ∧
        (f ∈ Field.wireInteger → ∀ x, given ≠ some (.float x)) := by
  by_cases hf : f ∈ Field.wireInteger
  · rw [if_pos hf, forall_prop_of_true hf]
    cases given with
    | none => exact (and_iff_left (by rintro x ⟨⟩)).symm
    | some v =>
      rw [Option.map_some, Option.getD_some, Option.getD_some, coerceInteger_eq_toJson]
      exact and_congr_right fun _ => forall_congr' fun x => not_congr Option.some_inj.symm
  · rw [if_neg hf, and_iff_left fun h => absurd h hf]

/-- **The constructor and the decoder** make the same record of a mapping, but that the
constructor takes neither a key that is not known nor a float for an integer. -/
theorem callConstructor_iff_fromDict : callConstructor kvs = some r ↔
    fromDict (.obj kvs) = .ok r ∧ Known kvs ∧ Uncoerced kvs := by
  have hfields : (∀ f : Field, ((Json.obj kvs).get f.key).getD f.default = (r.scalar f).toJson) ↔
      (∀ f, (coerceWireIntegers (kwargsOf (.obj kvs)) f).getD f.default = (r.scalar f).toJson) ∧
        Uncoerced kvs := by
    rw [Uncoerced, ← forall_and]
    exact forall_congr' fun f => getD_iff_coerced
  rw [callConstructor_eq_some, fromDict_eq_ok, hfields]
  constructor
  · rintro ⟨hknown, hcoerced, huncoerced⟩
    exact ⟨⟨rfl, hcoerced⟩, hknown, huncoerced⟩
  · rintro ⟨⟨-, hcoerced⟩, hknown, huncoerced⟩
    exact ⟨hknown, hcoerced, huncoerced⟩

/-- What `emit_usage` returns of a record that is built. -/
theorem emitUsage_of_some {sink : UsageRecord → Outcome}
    (h : buildRecordOf fields overrides = some r) : emitUsage sink fields overrides =
      match sink r with
      | .returned => some (some r)
      | .raised => some none
      | .fatal => none := by
  rw [emitUsage, h]
  dsimp only [emitRecord]
  cases sink r <;> rfl

theorem emitUsage_of_none {sink : UsageRecord → Outcome}
    (h : buildRecordOf fields overrides = none) : emitUsage sink fields overrides = some none := by
  rw [emitUsage, h]

theorem emitUsage_eq_some {sink : UsageRecord → Outcome} :
    emitUsage sink fields overrides = some (some r) ↔
      buildRecordOf fields overrides = some r ∧ sink r = .returned := by
  rcases hbuild : buildRecordOf fields overrides with _ | r'
  · rw [emitUsage_of_none hbuild]
    exact iff_of_false (by rintro ⟨⟩) (by rintro ⟨⟨⟩, -⟩)
  · rw [emitUsage_of_some hbuild]
    constructor
    · intro h
      cases hsink : sink r' with
      | returned =>
        rw [hsink] at h
        cases h
        exact ⟨rfl, hsink⟩
      | raised => rw [hsink] at h; cases h
      | fatal => rw [hsink] at h; cases h
    · rintro ⟨⟨⟩, hsink⟩
      rw [hsink]

theorem emitUsage_eq_none {sink : UsageRecord → Outcome} :
    emitUsage sink fields overrides = none ↔
      ∃ r, buildRecordOf fields overrides = some r ∧ sink r = .fatal := by
  rcases hbuild : buildRecordOf fields overrides with _ | r'
  · rw [emitUsage_of_none hbuild]
    exact iff_of_false (by rintro ⟨⟩) (by rintro ⟨_, ⟨⟩, -⟩)
  · rw [emitUsage_of_some hbuild]
    constructor
    · intro h
      cases hsink : sink r' with
      | fatal => exact ⟨r', rfl, hsink⟩
      | returned => rw [hsink] at h; cases h
      | raised => rw [hsink] at h; cases h
    · rintro ⟨_, ⟨⟩, hsink⟩
      rw [hsink]

/-- **The guarded seam and the decoder** agree: whatever is given as `fields` and as overrides,
`build_record` makes a record exactly if `from_dict` makes it of the same values, and the keys are
names of fields, and no float stands for an integer. `emit_usage` returns it exactly if the sink
returned, and only a `BaseException` of the sink gets out. -/
theorem build_record_strict (sink : UsageRecord → Outcome) (fields : Base)
    (overrides : List (Text × Json)) (r : UsageRecord) :
    (buildRecordOf fields overrides = some r ↔ ∃ kvs, merged fields overrides = some (named kvs) ∧
      fromDict (.obj kvs) = .ok r ∧ Known kvs ∧ Uncoerced kvs) ∧
      (emitUsage sink fields overrides = some (some r) ↔
        buildRecordOf fields overrides = some r ∧ sink r = .returned) ∧
      (emitUsage sink fields overrides = none ↔
        ∃ r, buildRecordOf fields overrides = some r ∧ sink r = .fatal) := by
  refine ⟨?_, emitUsage_eq_some, emitUsage_eq_none⟩
  rw [buildRecordOf_eq_some]
  exact exists_congr fun kvs => and_congr_right fun _ => callConstructor_iff_fromDict

/-! ### A record that is stamped -/

/-- The dict of a record. -/
def dictOf (r : UsageRecord) : Base :=
  .mapping (named (r.toDict.map fun item => (item.1, item.2.toJson)))

/-- A key of the overrides, or of what they are laid over. -/
theorem get_append (kvs overrides : List (Text × Json)) (key : Text) :
    (Json.obj (overrides ++ kvs)).get key =
      ((Json.obj overrides).get key).or ((Json.obj kvs).get key) := by
  show ((overrides ++ kvs).find? fun kv => kv.1 == key).map Prod.snd = _
  rw [List.find?_append, Option.map_or]
  rfl

/-- The guard, of a mapping whose keys are strings. -/
theorem buildRecordOf_named (kvs overrides : List (Text × Json)) :
    buildRecordOf (.mapping (named kvs)) overrides = callConstructor (overrides ++ kvs) := by
  have hnamed : named overrides ++ named kvs = named (overrides ++ kvs) := List.map_append.symm
  rw [buildRecordOf, merged, Option.bind_some, hnamed, keywords_eq_some.2 rfl, Option.bind_some]

/-- **A record is stamped** by what it is given beside its dict: the values that are given replace
those of the record, and are checked as those of a new one; the others are kept. -/
theorem build_record_replaces (r r' : UsageRecord) (overrides : List (Text × Json)) :
    buildRecordOf (dictOf r) overrides = some r' ↔ Known overrides ∧
      ∀ f, ((Json.obj overrides).get f.key).getD (r.scalar f).toJson = (r'.scalar f).toJson := by
  have hknown : Known (r.toDict.map fun item => (item.1, item.2.toJson)) := by
    intro kv hkv
    obtain ⟨item, hitem, rfl⟩ := List.mem_map.1 hkv
    obtain ⟨f, hf, rfl⟩ := List.mem_map.1 hitem
    exact List.mem_map_of_mem hf
  have hget : ∀ f : Field, (Json.obj (r.toDict.map fun item => (item.1, item.2.toJson))).get f.key =
      some (r.scalar f).toJson := get_toPayload r
  rw [dictOf, buildRecordOf_named, callConstructor_eq_some]
  refine and_congr ?_ (forall_congr' fun f => ?_)
  · rw [Known, List.forall_mem_append]
    exact and_iff_left hknown
  · rw [get_append, hget]
    cases (Json.obj overrides).get f.key <;> rfl

end Tokenweir.Metering
