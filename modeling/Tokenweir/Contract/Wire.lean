import Tokenweir.Contract.Codec
import Tokenweir.Lib.JsonLayout
import Tokenweir.Lib.Utf8

/-!
# Records on the wire

`UsageRecord.to_json`, `UsageRecord.from_json` and `message_for`, and the payloads that a producer
may write for a record: with keys that the contract does not know, in any order, and with floats
for integers.

* `Scalar.dump`, `UsageRecord.toJson`, `messageFor`; `Wire`, `fromJson`;
* `Renders`, `Rewriting`; `Dumps`, `Portable`; `UsageRecord.readBack`;
* `fromDict_of_rewriting`; `fromJson_of_document`; `toJson_of_dumps`;
* `wire_roundTrip`.
-/

namespace Tokenweir

open JsonText Utf8

/-! ### Writing -/

/-- A value as `json.dumps` writes it; none for an integer of too many digits. -/
def Scalar.dump : Scalar → Option Text
  | .null => some (Text.of "null")
  | .int n => if (digitsText n.natAbs).length ≤ 4300 then some (dumpInt n) else none
  | .str s => some (dumpString s)

/-- An item of the dict, with the text of its value. -/
def dumpItem (item : Text × Scalar) : Option (Text × Text) :=
  item.2.dump.map fun t => (item.1, t)

/-- `to_json`; none where it raises. -/
def UsageRecord.toJson (r : UsageRecord) (l : Layout) : Option Text :=
  ((l.order r.toDict).mapM dumpItem).map l.dump

/-- The layout of a message. -/
def messageLayout : Layout := ⟨none, some (Text.of ",", Text.of ":"), true⟩

/-- `message_for`. -/
def messageFor (r : UsageRecord) : Option (List ℕ) := (r.toJson messageLayout).map encodeUtf8

/-! ### Reading -/

/-- The argument of `from_json`. -/
inductive Wire
  | text (t : Text)
  | bytes (bs : List ℕ)
  /-- A value of another type. -/
  | other

/-- The exceptions of `from_json`. -/
inductive WireError
  | type
  /-- `json.loads` raises. -/
  | decode
  | notObject (data : Json)
  | contract (e : ContractError)

/-- `json.loads`, after the check of the type. -/
def Wire.loads : Wire → Except WireError Json
  | .text t => (JsonText.loads t).elim (.error .decode) .ok
  | .bytes bs => (loadsBytes bs).elim (.error .decode) .ok
  | .other => .error .type

/-- `from_json`. -/
def fromJson (payload : Wire) : Except WireError UsageRecord := do
  let data ← payload.loads
  if !data.isMapping then .error (.notObject data)
  else (fromDict data).mapError .contract

/-! ### What a producer may write -/

/-- The value of a field: itself, or a float that is equal to an integer. -/
inductive Renders (f : Field) (s : Scalar) : Json → Prop
  | same : Renders f s s.toJson
  | float {n : ℤ} : f ∈ Field.wireInteger → s = .int n → IsDouble n → Renders f s (.float (some n))

/-- **A payload of a record**: the fields, each with its value or an equal float, and keys that
the contract does not know, in any order. -/
def Rewriting (r : UsageRecord) (p : Json) : Prop :=
  ∃ (v : Field → Json) (added kvs : List (Text × Json)),
    p = .obj kvs ∧ kvs.Perm (Field.all.map (fun f => (f.key, v f)) ++ added) ∧
      (∀ f, Renders f (r.scalar f) (v f)) ∧ ∀ kv ∈ added, ∀ f : Field, kv.1 ≠ f.key

/-- A value that `json.dumps` writes: an integer has at most 4300 digits. -/
def Scalar.Dumps : Scalar → Prop
  | .int n => (digitsText n.natAbs).length ≤ 4300
  | _ => True

/-- A value without a high surrogate before a low one. -/
def Scalar.PairFree : Scalar → Prop
  | .str s => JsonText.PairFree s
  | _ => True

instance : DecidablePred Scalar.Dumps
  | .null => inferInstanceAs (Decidable True)
  | .int n => inferInstanceAs (Decidable ((digitsText n.natAbs).length ≤ 4300))
  | .str _ => inferInstanceAs (Decidable True)

instance : DecidablePred Scalar.PairFree
  | .null => inferInstanceAs (Decidable True)
  | .int _ => inferInstanceAs (Decidable True)
  | .str s => inferInstanceAs (Decidable (JsonText.PairFree s))

/-- No integer of a record has more than 4300 digits. -/
def Dumps (r : UsageRecord) : Prop := ∀ f ∈ Field.all, (r.scalar f).Dumps

/-- And no string has a high surrogate before a low one. -/
def Portable (r : UsageRecord) : Prop := Dumps r ∧ ∀ f ∈ Field.all, (r.scalar f).PairFree

instance (r : UsageRecord) : Decidable (Dumps r) :=
  inferInstanceAs (Decidable (∀ f ∈ Field.all, (r.scalar f).Dumps))

instance (r : UsageRecord) : Decidable (Portable r) :=
  inferInstanceAs (Decidable (Dumps r ∧ ∀ f ∈ Field.all, (r.scalar f).PairFree))

theorem Field.key_nodup : (Field.all.map Field.key).Nodup := by decide

theorem Field.key_injective {f g : Field} (h : f.key = g.key) : f = g :=
  List.inj_on_of_nodup_map Field.key_nodup f.mem_all g.mem_all h

/-- A key with one value. -/
theorem get_of_mem {kvs : List (Text × Json)} {key : Text} {v : Json} (hmem : (key, v) ∈ kvs)
    (h : ∀ kv ∈ kvs, kv.1 = key → kv.2 = v) : (Json.obj kvs).get key = some v := by
  have hfound : (kvs.find? fun kv => kv.1 == key).isSome = true :=
    List.find?_isSome.2 ⟨_, hmem, beq_self_eq_true key⟩
  obtain ⟨kv, hkv⟩ := Option.isSome_iff_exists.1 hfound
  have hkey := List.find?_some hkv
  rw [Json.get, hkv, Option.map_some, h kv (List.mem_of_find?_eq_some hkv) (beq_iff_eq.1 hkey)]

section Rewritten

variable {r : UsageRecord} {p : Json} {f : Field} {s : Scalar} {v : Json}

/-- The value that is left of a field, once integral floats are integers. -/
theorem Renders.coerced (h : Renders f s v) :
    (if f ∈ Field.wireInteger then coerceInteger v else v) = s.toJson := by
  cases h with
  | same => rw [coerceInteger_toJson, ite_self]
  | @float n hf hs _ =>
    have hint : (n : ℚ).isInt = true := rfl
    rw [if_pos hf, hs, coerceInteger, if_pos hint, Rat.num_intCast]
    rfl

/-- **`from_dict`** reads a payload of a record back. -/
theorem fromDict_of_rewriting (h : Rewriting r p) : fromDict p = .ok r := by
  obtain ⟨v, added, kvs, rfl, hperm, hv, hadded⟩ := h
  refine fromDict_eq_ok.2 ⟨rfl, fun f => ?_⟩
  have hget : kwargsOf (.obj kvs) f = some (v f) := by
    refine get_of_mem (hperm.mem_iff.2 ?_) fun kv hkv hkey => ?_
    · exact List.mem_append_left _ (List.mem_map.2 ⟨f, f.mem_all, rfl⟩)
    · rcases List.mem_append.1 (hperm.mem_iff.1 hkv) with hkv | hkv
      · obtain ⟨g, -, rfl⟩ := List.mem_map.1 hkv
        rw [Field.key_injective hkey]
      · exact absurd hkey (hadded kv hkv f)
  have hcoerced : coerceWireIntegers (kwargsOf (.obj kvs)) f = some (r.scalar f).toJson := by
    rw [← (hv f).coerced, coerceWireIntegers, hget]
    split_ifs <;> rfl
  rw [hcoerced, Option.getD_some]

/-- The dict of a record, in any order. -/
theorem rewriting_of_perm {fs : List Field} (h : fs.Perm Field.all) :
    Rewriting r (.obj (fs.map fun f => (f.key, (r.scalar f).toJson))) := by
  refine ⟨fun f => (r.scalar f).toJson, [], _, rfl, ?_, fun f => .same, fun kv hkv => ?_⟩
  · rw [List.append_nil]
    exact h.map _
  · cases hkv

/-- **`from_json`** reads every text of a payload back, as a string or as bytes. -/
theorem fromJson_of_document {t : Text} (h : Rewriting r p) (ht : Document t p) :
    fromJson (.text t) = .ok r ∧ fromJson (.bytes (encodeUtf8 t)) = .ok r := by
  have hread : (if !p.isMapping then Except.error (WireError.notObject p)
      else (fromDict p).mapError .contract) = .ok r := by
    rw [fromDict_of_rewriting h]
    obtain ⟨_, _, _, rfl, -⟩ := h
    rfl
  constructor
  · rw [fromJson, Wire.loads, loads_of_document ht]
    exact hread
  · rw [fromJson, Wire.loads, loadsBytes_of_document ht]
    exact hread

end Rewritten

/-! ### What the library writes -/

/-- A value as it is read back. -/
def Scalar.readBack : Scalar → Scalar
  | .str s => .str (JsonText.readBack s)
  | s => s

theorem nonBlank_readBack {s : Text} (h : NonBlank s) : NonBlank (readBack s) := by
  refine any_readBack (fun c hc => ?_) h
  unfold isBlankChar Text.isSpace
  simp only [Bool.not_eq_true', Bool.or_eq_false_iff, Bool.and_eq_false_iff, beq_eq_false_iff_ne,
    decide_eq_false_iff_not]
  omega

/-- A record as it is read back. -/
def UsageRecord.readBack (r : UsageRecord) : UsageRecord where
  requestId := JsonText.readBack r.requestId
  appId := JsonText.readBack r.appId
  endpoint := JsonText.readBack r.endpoint
  model := JsonText.readBack r.model
  status := JsonText.readBack r.status
  workload := r.workload.map JsonText.readBack
  parentRequestId := r.parentRequestId.map JsonText.readBack
  queue := r.queue.map JsonText.readBack
  counts := r.counts
  latencyMs := r.latencyMs
  pricingMode := r.pricingMode
  ts := r.ts.map JsonText.readBack
  schemaVersion := r.schemaVersion
  requestId_nonBlank := nonBlank_readBack r.requestId_nonBlank
  appId_nonBlank := nonBlank_readBack r.appId_nonBlank
  endpoint_nonBlank := nonBlank_readBack r.endpoint_nonBlank
  model_nonBlank := nonBlank_readBack r.model_nonBlank
  status_nonBlank := nonBlank_readBack r.status_nonBlank
  schemaVersion_pos := r.schemaVersion_pos

theorem scalar_readBack (r : UsageRecord) (f : Field) :
    r.readBack.scalar f = (r.scalar f).readBack := by
  have htext : ∀ s : Option Text, Scalar.ofText (s.map JsonText.readBack) =
      (Scalar.ofText s).readBack := by
    rintro (_ | s) <;> rfl
  cases f with
  | workload | parentRequestId | queue | ts => exact htext _
  | latencyMs =>
    show Scalar.ofNat r.latencyMs = (Scalar.ofNat r.latencyMs).readBack
    cases r.latencyMs <;> rfl
  | pricingMode =>
    show Scalar.ofMode r.pricingMode = (Scalar.ofMode r.pricingMode).readBack
    rcases r.pricingMode with _ | _ | _
    · rfl
    · exact congrArg Scalar.str (readBack_eq_self (by decide)).symm
    · exact congrArg Scalar.str (readBack_eq_self (by decide)).symm
  | _ => rfl

theorem scalar_readBack_eq_self {s : Scalar} : s.readBack = s ↔ s.PairFree := by
  cases s with
  | null | int n => exact iff_of_true rfl trivial
  | str s =>
    show Scalar.str (JsonText.readBack s) = .str s ↔ _
    rw [Scalar.str.injEq]
    exact JsonText.readBack_eq_self_iff

/-- Records with the same dict are the same. -/
theorem eq_of_scalar_eq {r r' : UsageRecord} (h : ∀ f, r.scalar f = r'.scalar f) : r = r' := by
  have hr : fromDict r.toPayload = .ok r' :=
    fromDict_eq_ok.2 ⟨rfl, fun f => by rw [← h, (fromDict_eq_ok.1 (fromDict_toPayload r)).2 f]⟩
  rw [fromDict_toPayload] at hr
  exact Except.ok.inj hr

/-- **A record is read back as it is** exactly if no string has a pair of surrogates. -/
theorem UsageRecord.readBack_eq_self_iff {r : UsageRecord} :
    r.readBack = r ↔ ∀ f ∈ Field.all, (r.scalar f).PairFree := by
  constructor
  · intro h f _
    rw [← scalar_readBack_eq_self, ← scalar_readBack, h]
  · intro h
    refine eq_of_scalar_eq fun f => ?_
    rw [scalar_readBack, scalar_readBack_eq_self]
    exact h f f.mem_all

section Written

variable {r : UsageRecord} {l : Layout}

theorem Scalar.dump_of_dumps {s : Scalar} (h : s.Dumps) :
    s.dump = some (s.dump.getD []) ∧ Writes (s.dump.getD []) s.readBack.toJson := by
  cases s with
  | null => exact ⟨rfl, .literal List.mem_cons_self⟩
  | int n =>
    have hlength : (digitsText n.natAbs).length ≤ 4300 := h
    rw [Scalar.dump, if_pos hlength]
    exact ⟨rfl, writes_dumpInt hlength⟩
  | str s => exact ⟨rfl, .string (writesString_readBack s)⟩

theorem Field.key_pairFree (f : Field) : PairFree f.key := by
  have hall : ∀ f ∈ Field.all, PairFree f.key := by decide
  exact hall f f.mem_all

/-- A field of a record that is written. -/
def dumped (h : Dumps r) (f : Field) : Dumped where
  key := f.key
  value := (r.readBack.scalar f).toJson
  text := (r.scalar f).dump.getD []
  key_pairFree := f.key_pairFree
  writes := by
    rw [scalar_readBack]
    exact (Scalar.dump_of_dumps (h f f.mem_all)).2

theorem mapM_dump (h : Dumps r) (fs : List Field) :
    (fs.map fun f => (f.key, r.scalar f)).mapM dumpItem =
      some ((fs.map (dumped h)).map fun d => (d.key, d.text)) := by
  induction fs with
  | nil => rfl
  | cons f fs ih =>
    rw [List.map_cons, List.mapM_cons, ih, dumpItem, (Scalar.dump_of_dumps (h f f.mem_all)).1]
    rfl

/-- **`to_json`**, with any layout of white space, writes a payload of the record as it is read
back. -/
theorem toJson_of_dumps (h : Dumps r) (hl : l.Blank) :
    ∃ t p, r.toJson l = some t ∧ Document t p ∧ Rewriting r.readBack p := by
  obtain ⟨fs, hfs, horder⟩ := l.exists_order Field.key r.scalar Field.all
  have hnodup : ((fs.map (dumped h)).map Dumped.key).Nodup := by
    rw [List.map_map]
    exact (hfs.map Field.key).nodup_iff.2 Field.key_nodup
  refine ⟨_, _, ?_, Layout.document_dump hl hnodup, ?_⟩
  · show ((l.order (Field.all.map fun f => (f.key, r.scalar f))).mapM dumpItem).map l.dump = _
    rw [horder, mapM_dump h, Option.map_some]
  · rw [List.map_map]
    exact rewriting_of_perm hfs

/-- With no pair of surrogates, it is a payload of the record itself. -/
theorem toJson_of_portable (h : Portable r) (hl : l.Blank) :
    ∃ t p, r.toJson l = some t ∧ Document t p ∧ Rewriting r p := by
  have hwritten := toJson_of_dumps h.1 hl
  rwa [UsageRecord.readBack_eq_self_iff.2 h.2] at hwritten

theorem messageLayout_blank : messageLayout.Blank where
  indent := by rintro _ ⟨⟩
  item := ⟨⟨[], rfl⟩, ⟨[], rfl⟩, rfl⟩
  key := ⟨⟨[], rfl⟩, ⟨[], rfl⟩, rfl⟩

end Written

/-! ### The round trip -/

/-- **The wire round trip.** A payload of a record is read back as the record: as a dict, and as
any text that writes it, a string or bytes. What `to_json` writes with a layout of JSON white
space, in either order, and what `message_for` writes, are such texts, and an integer that a
double represents may be written with a fraction or an exponent. What is read once is read back
from its own dict. -/
theorem wire_roundTrip (r : UsageRecord) :
    (∀ p, Rewriting r p → fromDict p = .ok r) ∧
    (∀ p t, Rewriting r p → Document t p →
      fromJson (.text t) = .ok r ∧ fromJson (.bytes (encodeUtf8 t)) = .ok r) ∧
    (Portable r → ∀ l : Layout, l.Blank →
      ∃ t p, r.toJson l = some t ∧ Document t p ∧ Rewriting r p) ∧
    (Portable r → ∃ t p, messageFor r = some (encodeUtf8 t) ∧ Document t p ∧ Rewriting r p) ∧
    (∀ (n : Numeral) (k : ℤ), (n.fraction ≠ none ∨ n.exponent ≠ none) → n.number = k →
      IsDouble k → Writes n.text (.float (some k))) ∧
    ∀ p, fromDict p = .ok r → fromDict r.toPayload = .ok r := by
  refine ⟨fun p hp => fromDict_of_rewriting hp, fun p t hp ht => fromJson_of_document hp ht,
    fun h l hl => toJson_of_portable h hl, fun h => ?_, fun n k hfloat hk hdouble => ?_,
    fun _ _ => fromDict_toPayload r⟩
  · obtain ⟨t, p, ht, hdocument, hp⟩ := toJson_of_portable h messageLayout_blank
    exact ⟨t, p, by rw [messageFor, ht, Option.map_some], hdocument, hp⟩
  · rw [← hk] at hdouble ⊢
    exact writes_float hfloat hdouble

/-- A record of a later version. -/
def wireRecord : UsageRecord where
  requestId := Text.of "msg_1"
  appId := Text.of "billing"
  endpoint := Text.of "claude_code"
  model := Text.of "sonnet"
  status := Text.of "finished"
  latencyMs := some 100
  pricingMode := some .subscription
  schemaVersion := 2
  requestId_nonBlank := by decide
  appId_nonBlank := by decide
  endpoint_nonBlank := by decide
  model_nonBlank := by decide
  status_nonBlank := by decide
  schemaVersion_pos := by decide

/-- Its payload with a float for the latency and a key that is not known, from the last field to
the first one. -/
def wirePayload : Json :=
  .obj (((Text.of "cost_hint", .float none) :: Field.all.map fun f =>
    (f.key, if f = .latencyMs then .float (some 100) else (wireRecord.scalar f).toJson)).reverse)

theorem rewriting_wirePayload : Rewriting wireRecord wirePayload := by
  refine ⟨fun f => if f = .latencyMs then .float (some 100) else (wireRecord.scalar f).toJson,
    [(Text.of "cost_hint", .float none)], _, rfl,
    (List.reverse_perm _).trans (List.perm_append_singleton _ _).symm, fun f => ?_,
    fun kv hkv f => ?_⟩
  · dsimp only
    by_cases hf : f = .latencyMs
    · rw [if_pos hf, hf]
      exact .float (n := 100) (by decide) rfl ⟨100, 0, by decide, by decide, by decide, by norm_num⟩
    · rw [if_neg hf]
      exact .same
  · rw [List.mem_singleton.1 hkv]
    have hall : ∀ f ∈ Field.all, Text.of "cost_hint" ≠ f.key := by decide
    exact hall f f.mem_all

/-- A record of a later version, in another producer's words and in the library's own ones. -/
theorem wire_roundTrip_later :
    fromDict wirePayload = .ok wireRecord ∧
      (∃ t, wireRecord.toJson ⟨some (Text.of "  "), none, true⟩ = some t ∧
        fromJson (.text t) = .ok wireRecord) ∧
      ∃ bs, messageFor wireRecord = some bs ∧ fromJson (.bytes bs) = .ok wireRecord := by
  obtain ⟨hdict, hjson, hwrites, hmessage, -, -⟩ := wire_roundTrip wireRecord
  have hportable : Portable wireRecord := by decide +kernel
  have hblank : Layout.Blank ⟨some (Text.of "  "), none, true⟩ :=
    ⟨by rintro _ ⟨⟩; decide, ⟨⟨[], rfl⟩, ⟨[], rfl⟩, rfl⟩, ⟨⟨[], rfl⟩, ⟨Text.of " ", rfl⟩, rfl⟩⟩
  refine ⟨hdict _ rewriting_wirePayload, ?_, ?_⟩
  · obtain ⟨t, p, ht, hdocument, hp⟩ := hwrites hportable _ hblank
    exact ⟨t, ht, (hjson p t hp hdocument).1⟩
  · obtain ⟨t, p, ht, hdocument, hp⟩ := hmessage hportable
    exact ⟨_, ht, (hjson p t hp hdocument).2⟩

/-- With other separators, and with an added integer of 4301 digits, the text is not read. -/
theorem not_wire_roundTrip :
    Portable wireRecord ∧
      (∃ t, wireRecord.toJson ⟨none, some ([], []), false⟩ = some t ∧
        fromJson (.text t) = .error .decode) ∧
      ∃ ms, wireRecord.toDict.mapM dumpItem = some ms ∧
        fromJson (.text (Layout.dump {}
          (ms ++ [(Text.of "n", List.replicate 4301 (CodePoint.of '1'))]))) = .error .decode := by
  have hraises : ∀ {t : Text}, loads t = none → fromJson (.text t) = .error .decode := by
    intro t ht
    rw [fromJson, Wire.loads, ht]
    rfl
  refine ⟨by decide +kernel, ?_, ?_⟩
  · have hsome : (wireRecord.toJson ⟨none, some ([], []), false⟩).isSome = true := by
      decide +kernel
    obtain ⟨t, ht⟩ := Option.isSome_iff_exists.1 hsome
    have hnone : (wireRecord.toJson ⟨none, some ([], []), false⟩).bind loads = none := by
      decide +kernel
    rw [ht, Option.bind_some] at hnone
    exact ⟨t, ht, hraises hnone⟩
  · have hsome : (wireRecord.toDict.mapM dumpItem).isSome = true := by decide +kernel
    obtain ⟨ms, hms⟩ := Option.isSome_iff_exists.1 hsome
    have hnone : ((wireRecord.toDict.mapM dumpItem).bind fun ms => loads (Layout.dump {}
        (ms ++ [(Text.of "n", List.replicate 4301 (CodePoint.of '1'))]))) = none := by
      decide +kernel
    rw [hms, Option.bind_some] at hnone
    exact ⟨ms, hms, hraises hnone⟩

end Tokenweir
