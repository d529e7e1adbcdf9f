import Mathlib.Data.List.Sort
import Tokenweir.Lib.Text

/-!
# The migrations that ship

The files of the directory `sql/`, read as migrations, and the scan for destructive statements.

* `Characters`, what the Unicode database says; `Error`, the refusals of the runner;
* `Migration`, `discover`, `discover_versions`;
* `stripComments`, `destructiveStatements`.
-/

namespace Tokenweir.Migrations

/-- What the Unicode database says of code points, and the digest of a text. -/
structure Characters where
  /-- The value of a decimal digit of any script. -/
  digit : CodePoint → Option ℕ
  /-- `\w`. -/
  isWord : CodePoint → Bool
  /-- SHA-256 of the UTF-8 encoding, in hexadecimal. -/
  sha256 : Text → Text

variable (u : Characters)

/-- The exceptions that the runner raises. -/
inductive Error
  /-- By the driver. -/
  | database
  | autocommit
  | filename (name : Text)
  | empty
  | duplicates (versions : List ℤ)
  | gap (versions : List ℤ)
  | unknownApplied (versions : List ℤ) (newest : ℤ)
  | checksum (filenames : List Text)
  | destructive (found : List (Text × List Text))
  deriving DecidableEq

/-! ### Migrations -/

/-- One numbered, forward-only migration. -/
structure Migration where
  version : ℤ
  name : Text
  sql : Text
  deriving DecidableEq

/-- `Migration.checksum`. -/
def Migration.checksum (m : Migration) : Text := u.sha256 m.sql

/-- `Migration.filename`, with the version in three digits at least. -/
def Migration.filename (m : Migration) : Text :=
  let digits := Text.decimal m.version.toNat
  List.replicate (3 - digits.length) (CodePoint.of '0') ++ digits ++ Text.of "_" ++ m.name ++
    Text.of ".sql"

/-- A character of the name of a migration. -/
def isNameCharacter (c : CodePoint) : Bool :=
  (97 ≤ c.val && c.val ≤ 122) || (48 ≤ c.val && c.val ≤ 57) || c.val == 95

/-- `_FILENAME_RE`, on a name that ends in `.sql`. -/
def matchFilename (name : Text) : Option (ℤ × Text) :=
  match name with
  | a :: b :: c :: underscore :: rest => do
    let a ← u.digit a
    let b ← u.digit b
    let c ← u.digit c
    let stem := rest.take (rest.length - 4)
    if underscore = CodePoint.of '_' ∧ stem ≠ [] ∧ stem.all isNameCharacter ∧
        rest.drop (rest.length - 4) = Text.of ".sql" then
      some (((a * 10 + b) * 10 + c : ℕ), stem)
    else none
  | _ => none

/-- A file of the directory, which has to be a migration. -/
def migrationOf (entry : Text × Text) : Except Error Migration :=
  match matchFilename u entry.1 with
  | none => .error (.filename entry.1)
  | some (version, name) => .ok ⟨version, name, entry.2⟩

/-- `discover`, of the files of `sql/` with their contents. -/
def discover (entries : List (Text × Text)) : Except Error (List Migration) := do
  let entries := (entries.insertionSort fun x y => Text.le x.1 y.1).filter fun entry =>
    (Text.of ".sql").isSuffixOf entry.1
  let migrations ← entries.mapM (migrationOf u)
  if migrations = [] then throw .empty
  let versions := migrations.map Migration.version
  let duplicates := (versions.filter fun v => 1 < versions.count v).dedup.insertionSort (· ≤ ·)
  if duplicates ≠ [] then throw (.duplicates duplicates)
  if versions ≠ (List.range versions.length).map fun n : ℕ => (n + 1 : ℤ) then throw (.gap versions)
  return migrations

/-- **The versions of the shipped migrations** are `1`, `2` and so on. -/
theorem discover_versions {entries : List (Text × Text)} {migrations : List Migration}
    (h : discover u entries = .ok migrations) : migrations ≠ [] ∧
      migrations.map Migration.version =
        (List.range migrations.length).map fun n : ℕ => (n + 1 : ℤ) := by
  unfold discover at h
  simp only [bind, Except.bind, pure, Except.pure] at h
  split at h
  · cases h
  rename_i found hfound
  split at h
  · cases h
  rename_i hempty
  split at h
  · cases h
  split at h
  · cases h
  rename_i hgap
  obtain rfl := Except.ok.inj h
  rw [List.length_map, not_not] at hgap
  exact ⟨hempty, hgap⟩

/-! ### Destructive statements -/

/-- Where the scan of a script is. -/
inductive Mode
  | code
  | line
  | block (depth : ℕ)
  | literal

/-- `_strip_comments`, from a place in the script on. -/
def scan : Mode → Text → Text
  | _, [] => []
  | .line, c :: s => if c = CodePoint.of '\n' then c :: scan .code s else scan .line s
  | .code, [c] => [c]
  | .code, c :: d :: s =>
    if c = CodePoint.of '-' ∧ d = CodePoint.of '-' then CodePoint.of ' ' :: scan .line s
    else if c = CodePoint.of '/' ∧ d = CodePoint.of '*' then CodePoint.of ' ' :: scan (.block 1) s
    else if c = CodePoint.of '\'' then c :: scan .literal (d :: s)
    else c :: scan .code (d :: s)
  | .block _, [_] => []
  | .block depth, c :: d :: s =>
    if c = CodePoint.of '/' ∧ d = CodePoint.of '*' then scan (.block (depth + 1)) s
    else if c = CodePoint.of '*' ∧ d = CodePoint.of '/' then
      if depth ≤ 1 then scan .code s else scan (.block (depth - 1)) s
    else scan (.block depth) (d :: s)
  | .literal, [c] => [c]
  | .literal, c :: d :: s =>
    if c = CodePoint.of '\'' then
      if d = CodePoint.of '\'' then c :: d :: scan .literal s else c :: scan .code (d :: s)
    else c :: scan .literal (d :: s)

/-- `_strip_comments`. -/
def stripComments (sql : Text) : Text := scan .code sql

/-- What follows a keyword at the front, in letters of either case. -/
def afterKeyword : List Char → Text → Option Text
  | [], s => some s
  | _ :: _, [] => none
  | k :: ks, c :: s =>
    if c = CodePoint.of k ∨ c = CodePoint.of k.toLower then afterKeyword ks s else none

/-- `\b` after a word. -/
def endsWord (s : Text) : Bool := s.head?.all fun c => !u.isWord c

/-- An alternative of `_DESTRUCTIVE_RE` at the front: what follows it. -/
def afterDestructive (s : Text) : Option Text :=
  let keyword (word : String) (s : Text) := (afterKeyword word.toList s).filter (endsWord u)
  keyword "DROP" s <|> keyword "TRUNCATE" s <|> do
    let rest ← afterKeyword "DELETE".toList s
    if (rest.head?.any Text.isSpace) then keyword "FROM" (rest.dropWhile Text.isSpace) else none

/-- `_DESTRUCTIVE_RE.finditer`, after `skip` code points that belong to a match. -/
def findDestructive : (skip : ℕ) → (previous : Option CodePoint) → Text → List Text
  | _, _, [] => []
  | skip + 1, _, c :: s => findDestructive skip (some c) s
  | 0, previous, c :: s =>
    match if previous.any u.isWord then none else afterDestructive u (c :: s) with
    | none => findDestructive 0 (some c) s
    | some rest =>
      let length := (c :: s).length - rest.length
      (c :: s).take length :: findDestructive (length - 1) (some c) s

/-- `destructive_statements`. -/
def destructiveStatements (sql : Text) : List Text := findDestructive u 0 none (stripComments sql)

end Tokenweir.Migrations
