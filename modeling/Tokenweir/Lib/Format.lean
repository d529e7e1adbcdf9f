import Tokenweir.Lib.JsonDump

/-!
# Formatted strings

What can go wrong when a program prints a report: an integer of too many digits is not formatted,
and a string with a surrogate is not written to a stream.

* `Prints`, of integers; `Encodes`, of strings; `Json.ints`;
* `Piece`, a part of a formatted string, `strPiece`, `idPiece`;
* `Formats`, `Encodable`, of all the pieces.
-/

namespace Tokenweir

/-- The first number with more than 4300 digits. -/
def digitLimit : ℕ := 10 ^ 4300

/-- `int.__str__` and `int.__format__` take an integer of at most 4300 digits. -/
def Prints (n : ℤ) : Prop := n.natAbs < digitLimit

instance (n : ℤ) : Decidable (Prints n) := inferInstanceAs (Decidable (n.natAbs < digitLimit))

/-- A code point that UTF-8 does not encode. -/
def isSurrogate (c : CodePoint) : Bool := 0xd800 ≤ c.val && c.val ≤ 0xdfff

/-- `str.encode` in UTF-8, without an error handler. -/
def Encodes (t : Text) : Prop := t.all (fun c => !isSurrogate c) = true

instance (t : Text) : Decidable (Encodes t) := inferInstanceAs (Decidable (_ = true))

mutual

/-- The integers in a value. -/
def Json.ints : Json → List ℤ
  | .int n => [n]
  | .arr xs => Json.listInts xs
  | .obj kvs => Json.pairInts kvs
  | _ => []

/-- The integers in a list of values. -/
def Json.listInts : List Json → List ℤ
  | [] => []
  | x :: xs => x.ints ++ Json.listInts xs

/-- The integers in the values of a dictionary. -/
def Json.pairInts : List (Text × Json) → List ℤ
  | [] => []
  | (_, v) :: kvs => v.ints ++ Json.pairInts kvs

end

/-- A part of a formatted string. -/
inductive Piece
  /-- The words of the program. -/
  | words (s : String)
  /-- A string, as it is. -/
  | raw (t : Text)
  /-- The length of a list or a string. -/
  | size (n : ℕ)
  /-- An integer. -/
  | int (n : ℤ)
  /-- An integer with its sign, `+d`. -/
  | signed (n : ℤ)
  /-- A float with four digits after the point, `.4f`. -/
  | fixed (x : ℚ)
  /-- A float. -/
  | float (x : Option ℚ)
  /-- A list of strings; what is not printable is escaped. -/
  | keys (ks : List Text)
  /-- A list or a dictionary; what is not printable is escaped. -/
  | value (v : Json)

/-- The integers that are converted for a piece. -/
def Piece.ints : Piece → List ℤ
  | .int n => [n]
  | .signed n => [n]
  | .value v => v.ints
  | _ => []

/-- The strings that are copied for a piece. -/
def Piece.strings : Piece → List Text
  | .raw t => [t]
  | _ => []

namespace Piece

@[simp] theorem ints_words (s : String) : (Piece.words s).ints = [] := rfl
@[simp] theorem ints_raw (t : Text) : (Piece.raw t).ints = [] := rfl
@[simp] theorem ints_size (n : ℕ) : (Piece.size n).ints = [] := rfl
@[simp] theorem ints_int (n : ℤ) : (Piece.int n).ints = [n] := rfl
@[simp] theorem ints_signed (n : ℤ) : (Piece.signed n).ints = [n] := rfl
@[simp] theorem ints_fixed (x : ℚ) : (Piece.fixed x).ints = [] := rfl
@[simp] theorem ints_float (x : Option ℚ) : (Piece.float x).ints = [] := rfl
@[simp] theorem ints_keys (ks : List Text) : (Piece.keys ks).ints = [] := rfl
@[simp] theorem ints_value (v : Json) : (Piece.value v).ints = v.ints := rfl
@[simp] theorem strings_words (s : String) : (Piece.words s).strings = [] := rfl
@[simp] theorem strings_raw (t : Text) : (Piece.raw t).strings = [t] := rfl
@[simp] theorem strings_size (n : ℕ) : (Piece.size n).strings = [] := rfl
@[simp] theorem strings_int (n : ℤ) : (Piece.int n).strings = [] := rfl
@[simp] theorem strings_signed (n : ℤ) : (Piece.signed n).strings = [] := rfl
@[simp] theorem strings_fixed (x : ℚ) : (Piece.fixed x).strings = [] := rfl
@[simp] theorem strings_float (x : Option ℚ) : (Piece.float x).strings = [] := rfl
@[simp] theorem strings_keys (ks : List Text) : (Piece.keys ks).strings = [] := rfl
@[simp] theorem strings_value (v : Json) : (Piece.value v).strings = [] := rfl

end Piece

/-- `str` of an optional value. -/
def strPiece : Option Json → Piece
  | none => .words "None"
  | some .null => .words "None"
  | some (.bool b) => .words (if b then "True" else "False")
  | some (.int n) => .int n
  | some (.float x) => .float x
  | some (.str s) => .raw s
  | some v => .value v

/-- `str` of an optional string. -/
def idPiece : Option Text → Piece
  | none => .words "None"
  | some t => .raw t

@[simp] theorem ints_idPiece (id : Option Text) : (idPiece id).ints = [] := by
  cases id <;> rfl

@[simp] theorem strings_idPiece (id : Option Text) : (idPiece id).strings = id.toList := by
  cases id <;> rfl

/-- `repr` of a list of integers. -/
def listPieces (ns : List ℤ) : List Piece :=
  .words "[" :: (ns.map Piece.int).intersperse (.words ", ") ++ [.words "]"]

/-- The string can be formatted. -/
def Formats (ps : List Piece) : Prop := ∀ p ∈ ps, ∀ n ∈ p.ints, Prints n

/-- The string can be written. -/
def Encodable (ps : List Piece) : Prop := ∀ p ∈ ps, ∀ t ∈ p.strings, Encodes t

instance (ps : List Piece) : Decidable (Formats ps) :=
  inferInstanceAs (Decidable (∀ p ∈ ps, ∀ n ∈ p.ints, Prints n))

instance (ps : List Piece) : Decidable (Encodable ps) :=
  inferInstanceAs (Decidable (∀ p ∈ ps, ∀ t ∈ p.strings, Encodes t))

section Formats

variable {p : Piece} {ps qs : List Piece}

theorem formats_nil : Formats [] := fun _ hp => absurd hp List.not_mem_nil

theorem formats_cons : Formats (p :: ps) ↔ (∀ n ∈ p.ints, Prints n) ∧ Formats ps :=
  List.forall_mem_cons

theorem formats_append : Formats (ps ++ qs) ↔ Formats ps ∧ Formats qs :=
  List.forall_mem_append

theorem encodable_nil : Encodable [] := fun _ hp => absurd hp List.not_mem_nil

theorem encodable_cons : Encodable (p :: ps) ↔ (∀ t ∈ p.strings, Encodes t) ∧ Encodable ps :=
  List.forall_mem_cons

theorem encodable_append : Encodable (ps ++ qs) ↔ Encodable ps ∧ Encodable qs :=
  List.forall_mem_append

end Formats

/-- Words between the pieces do not matter. -/
theorem mem_intersperse {s : String} {p : Piece} {ps : List Piece}
    (h : p ∈ ps.intersperse (.words s)) : p = .words s ∨ p ∈ ps := by
  induction ps with
  | nil => exact .inr h
  | cons q ps ih =>
    cases ps with
    | nil => exact .inr h
    | cons q' ps =>
      rw [List.intersperse_cons_cons, List.mem_cons, List.mem_cons] at h
      rcases h with rfl | rfl | h
      · exact .inr List.mem_cons_self
      · exact .inl rfl
      · exact (ih h).imp_right (List.mem_cons_of_mem q)

/-- What is in a list of integers: words, and the integers. -/
theorem mem_listPieces {ns : List ℤ} {p : Piece} (h : p ∈ listPieces ns) :
    (∃ s, p = .words s) ∨ ∃ n ∈ ns, p = .int n := by
  rw [listPieces, List.cons_append, List.mem_cons, List.mem_append, List.mem_singleton] at h
  rcases h with rfl | h | rfl
  · exact .inl ⟨_, rfl⟩
  · rcases mem_intersperse h with rfl | h
    · exact .inl ⟨_, rfl⟩
    · obtain ⟨n, hn, rfl⟩ := List.mem_map.1 h
      exact .inr ⟨n, hn, rfl⟩
  · exact .inl ⟨_, rfl⟩

/-- A list of integers is formatted if each of them is. -/
theorem formats_listPieces {ns : List ℤ} (h : ∀ n ∈ ns, Prints n) : Formats (listPieces ns) := by
  intro p hp m hm
  rcases mem_listPieces hp with ⟨s, rfl⟩ | ⟨n, hn, rfl⟩
  · cases hm
  · rw [List.mem_singleton.1 hm]
    exact h n hn

theorem encodable_listPieces (ns : List ℤ) : Encodable (listPieces ns) := by
  intro p hp t ht
  rcases mem_listPieces hp with ⟨s, rfl⟩ | ⟨n, -, rfl⟩ <;> cases ht

end Tokenweir
