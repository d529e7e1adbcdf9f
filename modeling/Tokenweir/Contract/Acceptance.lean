import Tokenweir.Contract.Schema
import Tokenweir.Contract.Wire
import Tokenweir.Lib.JsonSound

/-!
# What the wire accepts, and what it keeps

`from_json` on anything, and `from_json` of what `to_json` and `message_for` write for a record
with any strings.

* `Wire.textOf`; `loads_eq_ok`, `fromJson_eq_ok`;
* `from_json_accepts`, a payload is accepted exactly if `json.loads` reads it as what the schema
  describes;
* `toJson_isSome_iff`; `to_json_keeps`, a record comes back exactly if no string of it has a pair
  of surrogates.
-/

namespace Tokenweir

open JsonText Utf8

/-! ### Reading -/

/-- The text of a payload; none if it is neither a string nor bytes that decode. -/
def Wire.textOf : Wire → Option Text
  | .text t => some t
  | .bytes bs => decodeBytes bs
  | .other => none

/-- All exceptions of `from_json` but those of the constructor are a `ValueError`, and these are if
no argument is missing. -/
def WireError.IsValueError : WireError → Prop
  | .contract e => e.IsValueError
  | _ => True

theorem elim_eq_ok {o : Option Json} {v : Json} :
    (o.elim (.error .decode) .ok : Except WireError Json) = .ok v ↔ o = some v := by
  cases o with
  | none => exact iff_of_false (fun h => by cases h) fun h => by cases h
  | some w => exact ⟨fun h => congrArg some (Except.ok.inj h), fun h => by rw [h]; rfl⟩

theorem elim_eq_error {o : Option Json} {e : WireError}
    (h : (o.elim (.error .decode) .ok : Except WireError Json) = .error e) : e = .decode := by
  cases o with
  | none => exact (Except.error.inj h).symm
  | some w => cases h

/-- **`json.loads`** returns what the text of the payload writes. -/
theorem loads_eq_ok {payload : Wire} {v : Json} :
    payload.loads = .ok v ↔ ∃ t, payload.textOf = some t ∧ Document t v := by
  cases payload with
  | text t =>
    rw [Wire.loads, elim_eq_ok, loads_eq_some_iff]
    constructor
    · exact fun h => ⟨t, rfl, h⟩
    · rintro ⟨u, hu, h⟩
      rwa [Option.some.inj hu]
  | bytes bs =>
    rw [Wire.loads, elim_eq_ok, loadsBytes, Option.bind_eq_some_iff]
    simp only [decode_eq_some_iff]
    rfl
  | other =>
    refine iff_of_false (fun h => by cases h) ?_
    rintro ⟨t, ht, -⟩
    cases ht

theorem fromJson_eq_ok {payload : Wire} {r : UsageRecord} :
    fromJson payload = .ok r ↔
      ∃ t p, payload.textOf = some t ∧ Document t p ∧ fromDict p = .ok r := by
  have hdata : ∀ p : Json, (if !p.isMapping then Except.error (WireError.notObject p)
      else (fromDict p).mapError .contract) = .ok r ↔ fromDict p = .ok r := by
    intro p
    constructor
    · intro h
      split_ifs at h
      cases hp : fromDict p with
      | error e =>
        rw [hp] at h
        cases h
      | ok r' =>
        rw [hp] at h
        exact congrArg Except.ok (Except.ok.inj h)
    · intro h
      rw [(fromDict_eq_ok.1 h).1, h]
      rfl
  have hbind : fromJson payload = .ok r ↔ ∃ p, payload.loads = .ok p ∧ fromDict p = .ok r := by
    unfold fromJson
    simp only [bind_eq_ok, hdata]
  rw [hbind]
  simp only [loads_eq_ok]
  constructor
  · rintro ⟨p, ⟨t, ht, hp⟩, hr⟩
    exact ⟨t, p, ht, hp, hr⟩
  · rintro ⟨t, p, ht, hp, hr⟩
    exact ⟨p, ⟨t, ht, hp⟩, hr⟩

/-- What `json.loads` raises is a `ValueError`. -/
theorem valueError_of_loads {payload : Wire} {e : WireError} (h : payload.loads = .error e) :
    e.IsValueError := by
  cases payload with
  | text t =>
    rw [elim_eq_error h]
    trivial
  | bytes bs =>
    rw [elim_eq_error h]
    trivial
  | other =>
    obtain rfl := Except.error.inj h
    trivial

/-- A text writes one value. -/
theorem document_unique {t : Text} {p p' : Json} (h : Document t p) (h' : Document t p') :
    p = p' := by
  have hp := loads_of_document h
  rw [loads_of_document h'] at hp
  exact (Option.some.inj hp).symm

/-- **`from_json`** accepts a payload exactly if it is a string or bytes of a text that `json.loads`
reads, and the one value that the text writes is an object that meets the field rules of the schema,
with any version. It returns what `from_dict` makes of the object, and raises nothing but
`ValueError`s. -/
theorem from_json_accepts (payload : Wire) :
    ((∃ r, fromJson payload = .ok r) ↔
      ∃ t p, payload.textOf = some t ∧ Document t p ∧ relaxedSchema.validates p = true) ∧
    (∀ r t p, payload.textOf = some t → Document t p →
      (fromJson payload = .ok r ↔ fromDict p = .ok r)) ∧
    ∀ e, fromJson payload = .error e → e.IsValueError := by
  refine ⟨?_, fun r t p ht hp => ?_, fun e he => ?_⟩
  · simp only [fromJson_eq_ok, ← exists_fromDict_iff]
    constructor
    · rintro ⟨r, t, p, ht, hp, hr⟩
      exact ⟨t, p, ht, hp, r, hr⟩
    · rintro ⟨t, p, ht, hp, r, hr⟩
      exact ⟨r, t, p, ht, hp, hr⟩
  · rw [fromJson_eq_ok]
    constructor
    · rintro ⟨t', p', ht', hp', hr⟩
      rw [ht] at ht'
      obtain rfl := Option.some.inj ht'
      rwa [document_unique hp hp']
    · exact fun hr => ⟨t, p, ht, hp, hr⟩
  · cases hloads : payload.loads with
    | error e' =>
      rw [fromJson, hloads] at he
      obtain rfl := Except.error.inj he
      exact valueError_of_loads hloads
    | ok p =>
      rw [fromJson, hloads] at he
      dsimp only [bind, Except.bind] at he
      split_ifs at he
      · obtain rfl := Except.error.inj he
        trivial
      · cases hp : fromDict p with
        | error e' =>
          rw [hp] at he
          obtain rfl := Except.error.inj he
          exact onlyValueErrors_fromDict p e' hp
        | ok r =>
          rw [hp] at he
          cases he

/-! ### Keeping -/

/-- A list is mapped if each of its elements is. -/
theorem mapM_isSome_iff {α β : Type} {f : α → Option β} {as : List α} :
    (as.mapM f).isSome = true ↔ ∀ a ∈ as, (f a).isSome = true := by
  induction as with
  | nil => simp
  | cons a as ih =>
    rw [List.mapM_cons, List.forall_mem_cons, ← ih]
    cases f a with
    | none => simp
    | some b => cases as.mapM f <;> simp

theorem dump_isSome_iff {s : Scalar} : s.dump.isSome = true ↔ s.Dumps := by
  cases s with
  | null | str s => exact iff_of_true rfl trivial
  | int n =>
    show (if (digitsText n.natAbs).length ≤ 4300 then some (dumpInt n) else none).isSome = true ↔
      (digitsText n.natAbs).length ≤ 4300
    split_ifs with h
    · exact iff_of_true rfl h
    · exact iff_of_false (fun hsome => by cases hsome) h

/-- **`to_json`** raises exactly if an integer has more than 4300 digits, whatever the layout. -/
theorem toJson_isSome_iff {r : UsageRecord} {l : Layout} :
    (r.toJson l).isSome = true ↔ Dumps r := by
  obtain ⟨fs, hfs, horder⟩ := l.exists_order Field.key r.scalar Field.all
  have hitems : l.order r.toDict = fs.map fun f => (f.key, r.scalar f) := horder
  rw [UsageRecord.toJson, Option.isSome_map, mapM_isSome_iff, hitems, List.forall_mem_map]
  simp only [dumpItem, Option.isSome_map, dump_isSome_iff]
  exact ⟨fun h f hf => h f (hfs.mem_iff.2 hf), fun h f _ => h f f.mem_all⟩

/-- **What is kept.** `to_json`, with any layout of white space, raises exactly if an integer of the
record has more than 4300 digits. What it writes is read back, from the string and from its bytes,
as the record with its pairs of surrogates joined, and so as the record itself exactly if it has
none. -/
theorem to_json_keeps (r : UsageRecord) {l : Layout} (hl : l.Blank) :
    ((r.toJson l).isSome = true ↔ Dumps r) ∧
    ∀ t, r.toJson l = some t →
      fromJson (.text t) = .ok r.readBack ∧ fromJson (.bytes (encodeUtf8 t)) = .ok r.readBack ∧
        (fromJson (.text t) = .ok r ↔ ∀ f ∈ Field.all, (r.scalar f).PairFree) := by
  refine ⟨toJson_isSome_iff, fun t ht => ?_⟩
  have hdumps : Dumps r := toJson_isSome_iff.1 (Option.isSome_iff_exists.2 ⟨t, ht⟩)
  obtain ⟨t', p, ht', hdocument, hp⟩ := toJson_of_dumps hdumps hl
  obtain rfl : t = t' := Option.some.inj (ht.symm.trans ht')
  obtain ⟨htext, hbytes⟩ := fromJson_of_document hp hdocument
  refine ⟨htext, hbytes, ?_⟩
  rw [htext, ← UsageRecord.readBack_eq_self_iff, Except.ok.injEq]

/-- A record whose workload is an emoji in two surrogates. -/
def surrogateRecord : UsageRecord := { wireRecord with workload := some [0xd83d, 0xde00] }

/-- It comes back from its message with the emoji itself. -/
theorem to_json_keeps_emoji : ∃ t, surrogateRecord.toJson messageLayout = some t ∧
    fromJson (.bytes (encodeUtf8 t)) =
      .ok { wireRecord with workload := some [0x1f600] } ∧
    fromJson (.text t) ≠ .ok surrogateRecord := by
  obtain ⟨hsome, hkeeps⟩ := to_json_keeps surrogateRecord messageLayout_blank
  obtain ⟨t, ht⟩ := Option.isSome_iff_exists.1 (hsome.2 (by decide +kernel))
  obtain ⟨-, hbytes, hself⟩ := hkeeps t ht
  refine ⟨t, ht, ?_, fun h => absurd (hself.1 h) (by decide +kernel)⟩
  rw [hbytes]
  refine congrArg Except.ok (eq_of_scalar_eq fun f => ?_)
  have hall : ∀ f ∈ Field.all, surrogateRecord.readBack.scalar f =
      ({ wireRecord with workload := some [0x1f600] } : UsageRecord).scalar f := by decide +kernel
  exact hall f f.mem_all

end Tokenweir
