import Tokenweir.Lib.JsonToken

/-!
# Pieces of URLs

What regular expressions and `urllib.parse` make of the text of a URL, valid or not.

* `isCaseLetter`, `matchesLetter`, the letters under `re.IGNORECASE`; `afterScheme`, what follows
  `[a-z+]+://`;
* `decodeUtf8`, with `errors="replace"`; `unquote`.
-/

namespace Tokenweir.Url

/-! ### Letters of either case -/

/-- `[a-z]` under `re.IGNORECASE`: four letters beyond ASCII are the other case of one. -/
def isCaseLetter (c : CodePoint) : Bool :=
  (65 ≤ c.val && c.val ≤ 90) || (97 ≤ c.val && c.val ≤ 122) || c.val == 0x130 || c.val == 0x131 ||
    c.val == 0x17f || c.val == 0x212a

/-- A small letter of ASCII, but `i` and `k`, under `re.IGNORECASE`. -/
def matchesLetter (p c : CodePoint) : Bool :=
  c == p || c.val + 32 == p.val || (p == CodePoint.of 's' && c.val == 0x17f)

/-- A word of such letters at the front, under `re.IGNORECASE`, and what follows it. -/
def matchWord : Text → Text → Option Text
  | [], s => some s
  | _ :: _, [] => none
  | p :: w, c :: s => if matchesLetter p c then matchWord w s else none

/-- What follows `[a-z+]+://`. -/
def afterScheme (s : Text) : Option Text :=
  let letter := fun c => isCaseLetter c || c == CodePoint.of '+'
  let rest := s.dropWhile letter
  if s.takeWhile letter ≠ [] ∧ (Text.of "://").isPrefixOf rest then some (rest.drop 3) else none

/-! ### Percent-encoding -/

/-- A sequence of bytes that is not over: how many are missing, what the next one may be, and the
bits so far. -/
structure Pending where
  missing : ℕ
  least : ℕ
  most : ℕ
  bits : ℕ

/-- The replacement character. -/
def replacement : CodePoint := 0xfffd

/-- A byte in front of which no sequence is open. -/
def leadByte (b : ℕ) : Text × Option Pending :=
  if b < 0x80 then ([Fin.ofNat 0x110000 b], none)
  else if 0xc2 ≤ b ∧ b ≤ 0xdf then ([], some ⟨1, 0x80, 0xbf, b - 0xc0⟩)
  else if b = 0xe0 then ([], some ⟨2, 0xa0, 0xbf, 0⟩)
  else if b = 0xed then ([], some ⟨2, 0x80, 0x9f, 0xd⟩)
  else if 0xe1 ≤ b ∧ b ≤ 0xef then ([], some ⟨2, 0x80, 0xbf, b - 0xe0⟩)
  else if b = 0xf0 then ([], some ⟨3, 0x90, 0xbf, 0⟩)
  else if b = 0xf4 then ([], some ⟨3, 0x80, 0x8f, 4⟩)
  else if 0xf1 ≤ b ∧ b ≤ 0xf3 then ([], some ⟨3, 0x80, 0xbf, b - 0xf0⟩)
  else ([replacement], none)

/-- A byte. One that does not continue a sequence ends it, and is read again. -/
def nextByte (p : Option Pending) (b : ℕ) : Text × Option Pending :=
  match p with
  | none => leadByte b
  | some p =>
    if p.least ≤ b ∧ b ≤ p.most then
      let bits := p.bits * 64 + (b - 0x80)
      if p.missing = 1 then ([Fin.ofNat 0x110000 bits], none)
      else ([], some ⟨p.missing - 1, 0x80, 0xbf, bits⟩)
    else (replacement :: (leadByte b).1, (leadByte b).2)

/-- `bytes.decode("utf-8", "replace")`. -/
def decodeUtf8 : Option Pending → List ℕ → Text
  | none, [] => []
  | some _, [] => [replacement]
  | p, b :: bs => (nextByte p b).1 ++ decodeUtf8 (nextByte p b).2 bs

/-- `unquote_to_bytes`, of ASCII. -/
def unquoteToBytes : Text → List ℕ
  | [] => []
  | [c] => [c.val]
  | [c, d] => [c.val, d.val]
  | c :: a :: b :: s =>
    match decide (c = CodePoint.of '%'), JsonText.hexDigit a, JsonText.hexDigit b with
    | true, some a, some b => (a * 16 + b) :: unquoteToBytes s
    | _, _, _ => c.val :: unquoteToBytes (a :: b :: s)

/-- `urllib.parse.unquote`: the runs of ASCII are decoded. -/
def unquote (s : Text) : Text :=
  if CodePoint.of '%' ∈ s then
    (s.splitBy fun c d => decide (c.val < 128) == decide (d.val < 128)).flatMap fun run =>
      if run.all fun c => c.val < 128 then decodeUtf8 none (unquoteToBytes run) else run
  else s

example : unquote (Text.of "p%40ss%zz%C3%A9%ff%") = Text.of "p@ss%zzé�%" := by decide +kernel

end Tokenweir.Url
