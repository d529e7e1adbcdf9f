import Tokenweir.Lib.JsonText

/-!
# Bytes of JSON texts

`bytes.decode` with the encodings that `json.loads` looks for, where a surrogate is a code point
as any other one (`errors="surrogatepass"`).

* `encodeUtf8`; `decodeUtf8`, `decodeUtf16`, `decodeUtf32`;
* `Encoding`, `detectEncoding`, `decodeBytes`; `loadsBytes`;
* `decodeUtf8_encodeUtf8`; `decodeBytes_encodeUtf8`, of a text that begins with ASCII;
* `loadsBytes_of_document`, the bytes of what the grammar writes are read.
-/

namespace Tokenweir.Utf8

/-! ### The encodings -/

/-- A code point in UTF-8. -/
def encodeChar (c : CodePoint) : List ℕ :=
  if c.val < 0x80 then [c.val]
  else if c.val < 0x800 then [0xc0 + c.val / 64, 0x80 + c.val % 64]
  else if c.val < 0x10000 then
    [0xe0 + c.val / 4096, 0x80 + c.val / 64 % 64, 0x80 + c.val % 64]
  else
    [0xf0 + c.val / 262144, 0x80 + c.val / 4096 % 64, 0x80 + c.val / 64 % 64, 0x80 + c.val % 64]

/-- `str.encode("utf-8", "surrogatepass")`. -/
def encodeUtf8 (t : Text) : List ℕ := t.flatMap encodeChar

/-- A byte that continues a sequence. -/
def isTail (b : ℕ) : Bool := 0x80 ≤ b && b ≤ 0xbf

/-- `bytes.decode("utf-8", "surrogatepass")`. -/
def decodeUtf8 : List ℕ → Option Text
  | [] => some []
  | a :: s =>
    if a < 0x80 then (decodeUtf8 s).map (Fin.ofNat 0x110000 a :: ·)
    else
      match s with
      | [] => none
      | b :: s =>
        if 0xc2 ≤ a ∧ a ≤ 0xdf ∧ isTail b = true then
          (decodeUtf8 s).map (Fin.ofNat 0x110000 ((a - 0xc0) * 64 + (b - 0x80)) :: ·)
        else
          match s with
          | [] => none
          | c :: s =>
            if 0xe0 ≤ a ∧ a ≤ 0xef ∧ (a = 0xe0 → 0xa0 ≤ b) ∧ isTail b = true ∧ isTail c = true then
              (decodeUtf8 s).map
                (Fin.ofNat 0x110000 (((a - 0xe0) * 64 + (b - 0x80)) * 64 + (c - 0x80)) :: ·)
            else
              match s with
              | [] => none
              | d :: s =>
                if 0xf0 ≤ a ∧ a ≤ 0xf4 ∧ (a = 0xf0 → 0x90 ≤ b) ∧ (a = 0xf4 → b ≤ 0x8f) ∧
                    isTail b = true ∧ isTail c = true ∧ isTail d = true then
                  (decodeUtf8 s).map (Fin.ofNat 0x110000
                    ((((a - 0xf0) * 64 + (b - 0x80)) * 64 + (c - 0x80)) * 64 + (d - 0x80)) :: ·)
                else none

/-- The code units of two bytes each. -/
def units (big : Bool) : List ℕ → Option (List ℕ)
  | [] => some []
  | [_] => none
  | a :: b :: s => (units big s).map ((if big then a * 256 + b else b * 256 + a) :: ·)

/-- `bytes.decode("utf-16-be", "surrogatepass")`, or `"utf-16-le"`. -/
def decodeUtf16 (big : Bool) (bs : List ℕ) : Option Text :=
  (units big bs).map fun us =>
    JsonText.joinSurrogates (us.map fun u => (Fin.ofNat 0x110000 u, true))

/-- `bytes.decode("utf-32-be", "surrogatepass")`, or `"utf-32-le"`. -/
def decodeUtf32 (big : Bool) : List ℕ → Option Text
  | [] => some []
  | a :: b :: c :: d :: s =>
    let u :=
      if big then ((a * 256 + b) * 256 + c) * 256 + d
      else ((d * 256 + c) * 256 + b) * 256 + a
    if u < 0x110000 then (decodeUtf32 big s).map (Fin.ofNat 0x110000 u :: ·) else none
  | _ => none

/-- The encodings, the ones with a byte order mark among them. -/
inductive Encoding
  | utf8
  | utf8Sig
  | utf16
  | utf16Of (big : Bool)
  | utf32
  | utf32Of (big : Bool)
  deriving DecidableEq

/-- `json.detect_encoding`. -/
def detectEncoding (bs : List ℕ) : Encoding :=
  if [0, 0, 0xfe, 0xff].isPrefixOf bs ∨ [0xff, 0xfe, 0, 0].isPrefixOf bs then .utf32
  else if [0xfe, 0xff].isPrefixOf bs ∨ [0xff, 0xfe].isPrefixOf bs then .utf16
  else if [0xef, 0xbb, 0xbf].isPrefixOf bs then .utf8Sig
  else
    match bs with
    | a :: b :: c :: d :: _ =>
      if a = 0 then if b = 0 then .utf32Of true else .utf16Of true
      else if b = 0 then if c = 0 ∧ d = 0 then .utf32Of false else .utf16Of false
      else .utf8
    | [a, b] => if a = 0 then .utf16Of true else if b = 0 then .utf16Of false else .utf8
    | _ => .utf8

/-- `bytes.decode(encoding, "surrogatepass")`, of bytes with this encoding. -/
def decodeAs (bs : List ℕ) : Encoding → Option Text
  | .utf8 => decodeUtf8 bs
  | .utf8Sig => decodeUtf8 (bs.drop 3)
  | .utf16 => decodeUtf16 ([0xfe, 0xff].isPrefixOf bs) (bs.drop 2)
  | .utf16Of big => decodeUtf16 big bs
  | .utf32 => decodeUtf32 ([0, 0, 0xfe, 0xff].isPrefixOf bs) (bs.drop 4)
  | .utf32Of big => decodeUtf32 big bs

/-- `s.decode(detect_encoding(s), "surrogatepass")`. -/
def decodeBytes (bs : List ℕ) : Option Text := decodeAs bs (detectEncoding bs)

example : (decodeBytes [0x31, 0, 0x3d, 0xd8, 0, 0xde]) = some [0x31, 0x1f600] := by decide

/-! ### What is encoded is decoded -/

theorem isTail_add {n : ℕ} (h : n < 64) : isTail (0x80 + n) = true := by
  simp only [isTail, Bool.and_eq_true, decide_eq_true_eq]
  omega

theorem ofNat_eq {c : CodePoint} {n : ℕ} (h : n = c.val) : Fin.ofNat 0x110000 n = c := by
  rw [h]
  exact Fin.ofNat_val_eq_self c

theorem decodeUtf8_append (c : CodePoint) (s : List ℕ) :
    decodeUtf8 (encodeChar c ++ s) = (decodeUtf8 s).map (c :: ·) := by
  have hlast : isTail (0x80 + c.val % 64) = true := isTail_add (Nat.mod_lt _ (by decide))
  have hmiddle : isTail (0x80 + c.val / 64 % 64) = true := isTail_add (Nat.mod_lt _ (by decide))
  have hfirst : isTail (0x80 + c.val / 4096 % 64) = true := isTail_add (Nat.mod_lt _ (by decide))
  have hc := c.isLt
  unfold encodeChar
  split_ifs with h₁ h₂ h₃
  · rw [List.singleton_append, decodeUtf8.eq_def]
    dsimp only
    rw [if_pos h₁, ofNat_eq rfl]
  · rw [List.cons_append, List.singleton_append, decodeUtf8.eq_def]
    dsimp only
    rw [if_neg (by omega), if_pos ⟨by omega, by omega, hlast⟩, ofNat_eq (c := c) (by omega)]
  · rw [List.cons_append, List.cons_append, List.singleton_append, decodeUtf8.eq_def]
    dsimp only
    rw [if_neg (by omega), if_neg (by omega),
      if_pos ⟨by omega, by omega, by omega, hmiddle, hlast⟩, ofNat_eq (c := c) (by omega)]
  · rw [List.cons_append, List.cons_append, List.cons_append, List.singleton_append,
      decodeUtf8.eq_def]
    dsimp only
    rw [if_neg (by omega), if_neg (by omega), if_neg (by omega),
      if_pos ⟨by omega, by omega, by omega, by omega, hfirst, hmiddle, hlast⟩,
      ofNat_eq (c := c) (by omega)]

/-- **Every text** is read back from its bytes. -/
theorem decodeUtf8_encodeUtf8 (t : Text) : decodeUtf8 (encodeUtf8 t) = some t := by
  induction t with
  | nil => rfl
  | cons c t ih =>
    show decodeUtf8 (encodeChar c ++ encodeUtf8 t) = _
    rw [decodeUtf8_append, ih, Option.map_some]

/-- Only `U+0000` has a byte of zero. -/
theorem pos_of_mem_encodeChar {c : CodePoint} (hc : c ≠ 0) {b : ℕ} (hb : b ∈ encodeChar c) :
    0 < b := by
  have hval : c.val ≠ 0 := fun h => hc (Fin.ext h)
  unfold encodeChar at hb
  split_ifs at hb <;> simp only [List.mem_cons, List.not_mem_nil, or_false] at hb <;> omega

theorem pos_of_mem_encodeUtf8 {t : Text} (ht : 0 ∉ t) {b : ℕ} (hb : b ∈ encodeUtf8 t) : 0 < b := by
  obtain ⟨c, hc, hb⟩ := List.mem_flatMap.1 hb
  refine pos_of_mem_encodeChar ?_ hb
  rintro rfl
  exact ht hc

/-- Bytes without a zero are UTF-8, if there is no byte order mark. -/
theorem detectEncoding_eq_utf8 {a : ℕ} {s : List ℕ} (ha : a < 0x80) (h : ∀ b ∈ a :: s, 0 < b) :
    detectEncoding (a :: s) = .utf8 := by
  have hpos : 0 < a := h a List.mem_cons_self
  have hmark : ∀ (m : ℕ) (ms : List ℕ), m = 0 ∨ 0x80 ≤ m →
      (m :: ms).isPrefixOf (a :: s) = false := by
    intro m ms hm
    rw [List.isPrefixOf, Bool.and_eq_false_iff, beq_eq_false_iff_ne]
    exact .inl (by omega)
  unfold detectEncoding
  rw [hmark 0 _ (.inl rfl), hmark 0xff _ (.inr (by decide)), hmark 0xfe _ (.inr (by decide)),
    hmark 0xff _ (.inr (by decide)), hmark 0xef _ (.inr (by decide))]
  simp only [Bool.false_eq_true, or_self, if_false]
  split
  · rename_i b c d s' heq
    obtain ⟨rfl, rfl⟩ := List.cons.inj heq
    rw [if_neg hpos.ne', if_neg (h b (by simp)).ne']
  · rename_i b heq
    obtain ⟨rfl, rfl⟩ := List.cons.inj heq
    rw [if_neg hpos.ne', if_neg (h b (by simp)).ne']
  · rfl

/-- **A text that begins with ASCII** and has no `U+0000` is read back from its bytes, whose
encoding is detected. -/
theorem decodeBytes_encodeUtf8 {c : CodePoint} {t : Text} (hc : c.val < 0x80) (h : 0 ∉ c :: t) :
    decodeBytes (encodeUtf8 (c :: t)) = some (c :: t) := by
  have hbytes : encodeUtf8 (c :: t) = c.val :: encodeUtf8 t := by
    show encodeChar c ++ encodeUtf8 t = _
    rw [encodeChar, if_pos hc, List.singleton_append]
  have hutf8 : detectEncoding (encodeUtf8 (c :: t)) = .utf8 := by
    rw [hbytes]
    refine detectEncoding_eq_utf8 hc fun b hb => ?_
    rw [← hbytes] at hb
    exact pos_of_mem_encodeUtf8 h hb
  rw [decodeBytes, hutf8]
  exact decodeUtf8_encodeUtf8 _

/-! ### JSON texts -/

section Documents

open JsonText

/-- `json.loads` of bytes. -/
def loadsBytes (bs : List ℕ) : Option Json := (decodeBytes bs).bind decode

/-- A text that is given. -/
theorem ne_zero_of_notMem {t : Text} (h : 0 ∉ t) : ∀ c ∈ t, c ≠ 0 :=
  fun _ hc => ne_of_mem_of_not_mem hc h

theorem ne_zero_of_hexDigit {c : CodePoint} {n : ℕ} (h : hexDigit c = some n) : c ≠ 0 := by
  rintro rfl
  have hzero : hexDigit 0 = none := rfl
  rw [hzero] at h
  cases h

theorem spells_ne_zero {items : List Item} {t : Text} (h : Spells items t) : ∀ c ∈ t, c ≠ 0 := by
  induction h with
  | nil => exact fun c hc => absurd hc List.not_mem_nil
  | plain hc _ _ _ ih =>
    refine List.forall_mem_cons.2 ⟨?_, ih⟩
    rintro rfl
    exact absurd hc (by decide)
  | short he _ ih =>
    refine List.forall_mem_cons.2 ⟨by decide, List.forall_mem_cons.2 ⟨?_, ih⟩⟩
    rintro rfl
    have hzero : shortEscape 0 = none := rfl
    rw [hzero] at he
    cases he
  | unit hu _ ih =>
    obtain ⟨_, ha, h⟩ := Option.bind_eq_some_iff.1 hu
    obtain ⟨_, hb, h⟩ := Option.bind_eq_some_iff.1 h
    obtain ⟨_, hc, h⟩ := Option.bind_eq_some_iff.1 h
    obtain ⟨_, hd, -⟩ := Option.bind_eq_some_iff.1 h
    simp only [List.forall_mem_cons]
    exact ⟨by decide, by decide, ne_zero_of_hexDigit ha, ne_zero_of_hexDigit hb,
      ne_zero_of_hexDigit hc, ne_zero_of_hexDigit hd, ih⟩

theorem writesString_ne_zero {s t : Text} (h : WritesString s t) : ∀ c ∈ t, c ≠ 0 := by
  obtain ⟨items, body, hspells, -, rfl⟩ := h
  refine List.forall_mem_cons.2 ⟨by decide, List.forall_mem_append.2 ⟨spells_ne_zero hspells, ?_⟩⟩
  exact List.forall_mem_singleton.2 (by decide)

theorem digits_ne_zero {t : Text} (h : t.all Text.isDigit = true) : ∀ c ∈ t, c ≠ 0 := by
  rintro _ hc rfl
  exact absurd (List.all_eq_true.1 h 0 hc) (by decide)

theorem gap_ne_zero (g : Gap) : ∀ c ∈ g.1, c ≠ 0 := by
  rintro _ hc rfl
  exact absurd (List.all_eq_true.1 g.2 0 hc) (by decide)

theorem numeral_ne_zero (n : Numeral) : ∀ c ∈ n.text, c ≠ 0 := by
  unfold Numeral.text
  simp only [List.forall_mem_append]
  refine ⟨?_, digits_ne_zero n.whole_isDigit, ?_, ?_⟩
  · cases n.negative <;> exact ne_zero_of_notMem (by decide)
  · cases hf : n.fraction with
    | none => exact fun c hc => absurd hc List.not_mem_nil
    | some f => exact List.forall_mem_cons.2 ⟨by decide, digits_ne_zero (n.fraction_isDigit f hf)⟩
  · cases n.exponent with
    | none => exact fun c hc => absurd hc List.not_mem_nil
    | some e =>
      refine List.forall_mem_cons.2 ⟨by cases e.capital <;> decide, ?_⟩
      refine List.forall_mem_append.2 ⟨?_, digits_ne_zero e.digits_isDigit⟩
      rcases e.sign with _ | _ | _ <;> exact ne_zero_of_notMem (by decide)

theorem commaSeparated_ne_zero {ts : List Text} (h : ∀ t ∈ ts, ∀ c ∈ t, c ≠ 0) :
    ∀ c ∈ commaSeparated ts, c ≠ 0 := by
  induction ts with
  | nil => exact fun c hc => absurd hc List.not_mem_nil
  | cons t ts ih =>
    obtain ⟨ht, hts⟩ := List.forall_mem_cons.1 h
    cases ts with
    | nil => exact ht
    | cons u us =>
      exact List.forall_mem_append.2 ⟨ht, List.forall_mem_cons.2 ⟨by decide, ih hts⟩⟩

/-- `c`, a text and `d`. -/
theorem enclosed_ne_zero {c d : CodePoint} (hc : c ≠ 0) (hd : d ≠ 0) {t : Text}
    (h : ∀ e ∈ t, e ≠ 0) : ∀ e ∈ c :: (t ++ [d]), e ≠ 0 :=
  List.forall_mem_cons.2 ⟨hc, List.forall_mem_append.2 ⟨h, List.forall_mem_singleton.2 hd⟩⟩

/-- No text of the grammar has a `U+0000`. -/
theorem writes_ne_zero {t : Text} {v : Json} (h : Writes t v) : ∀ c ∈ t, c ≠ 0 := by
  induction h with
  | literal h =>
    simp only [literals, List.mem_cons, Prod.mk.injEq, List.not_mem_nil, or_false] at h
    rcases h with ⟨rfl, -⟩ | ⟨rfl, -⟩ | ⟨rfl, -⟩ | ⟨rfl, -⟩ | ⟨rfl, -⟩ | ⟨rfl, -⟩
    all_goals exact ne_zero_of_notMem (by decide)
  | number _ => exact numeral_ne_zero _
  | string h => exact writesString_ne_zero h
  | emptyObject gap | emptyArray gap =>
    exact enclosed_ne_zero (by decide) (by decide) (gap_ne_zero gap)
  | object _ _ ih =>
    refine enclosed_ne_zero (by decide) (by decide) (commaSeparated_ne_zero ?_)
    refine List.forall_mem_map.2 fun m hm => ?_
    simp only [Member.text, List.forall_mem_append, List.forall_mem_cons]
    exact ⟨gap_ne_zero _, writesString_ne_zero m.writesKey, gap_ne_zero _, by decide,
      gap_ne_zero _, ih m hm, gap_ne_zero _⟩
  | array _ _ ih =>
    refine enclosed_ne_zero (by decide) (by decide) (commaSeparated_ne_zero ?_)
    refine List.forall_mem_map.2 fun e he => ?_
    simp only [Element.text, List.forall_mem_append]
    exact ⟨gap_ne_zero _, ih e he, gap_ne_zero _⟩

/-- **`json.loads`** of the bytes of a text that writes a value is the value. -/
theorem loadsBytes_of_document {t : Text} {v : Json} (h : Document t v) :
    loadsBytes (encodeUtf8 t) = some v := by
  have hdecode := decode_of_document h
  obtain ⟨before, core, after, hcore, rfl⟩ := h
  have hzero : 0 ∉ before.1 ++ (core ++ after.1) := by
    intro hmem
    simp only [List.mem_append] at hmem
    rcases hmem with hmem | hmem | hmem
    · exact gap_ne_zero before 0 hmem rfl
    · exact writes_ne_zero hcore 0 hmem rfl
    · exact gap_ne_zero after 0 hmem rfl
  obtain ⟨c, s, hcons, hc⟩ : ∃ c s, before.1 ++ (core ++ after.1) = c :: s ∧ c.val < 0x80 := by
    obtain ⟨c, s, rfl, hc⟩ := hcore.begins
    obtain ⟨_ | ⟨d, before⟩, hbefore⟩ := before
    · exact ⟨c, s ++ after.1, rfl, hc.ascii⟩
    · rw [List.all_cons, Bool.and_eq_true] at hbefore
      refine ⟨d, _, rfl, ?_⟩
      have hspace := hbefore.1
      simp only [isSpace, Bool.or_eq_true, beq_iff_eq] at hspace
      omega
  rw [hcons] at hzero hdecode ⊢
  rw [loadsBytes, decodeBytes_encodeUtf8 hc hzero, Option.bind_some, hdecode]

end Documents

end Tokenweir.Utf8
