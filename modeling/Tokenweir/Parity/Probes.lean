import Tokenweir.Lib.Masking
import Tokenweir.Parity.Checks

/-!
# Probes

The model of `ApiProbe` of `tokenweir.parity`, whose requests are answered by anything: the `n`-th
request of a run gets whatever the opener answers to it, an HTTP error, an exception, or a body
that may be no JSON.

* `credential`, `scrub`; `Request`, `Reply`, `ApiProbe`;
* `ApiProbe.post`, `ApiProbe.countTokens`, `ApiProbe.messages`, `ApiProbe.envelope`;
* `askTurn`, `askPrompt`, what a round of Probe A and of Probe A' asks.
-/

namespace Tokenweir.Parity

open JsonText

/-! ### The credential -/

/-- `credential`, of the environment variable, and of the content of the file if it is readable. -/
def credential (setting file : Option Text) : Option Text :=
  match setting with
  | some value =>
    if value.strip ≠ [] then some value.strip
    else file.bind fun raw => if raw.strip ≠ [] then some raw.strip else none
  | none => file.bind fun raw => if raw.strip ≠ [] then some raw.strip else none

/-- A credential is neither blank nor surrounded by blanks. -/
theorem credential_strip {setting file : Option Text} {key : Text}
    (h : credential setting file = some key) : key ≠ [] ∧ key.strip = key := by
  have hstrip : ∀ raw : Text, raw.strip ≠ [] → some raw.strip = some key →
      key ≠ [] ∧ key.strip = key := by
    rintro raw hne ⟨⟩
    exact ⟨hne, Text.strip_strip raw⟩
  have hfile : (file.bind fun raw => if raw.strip ≠ [] then some raw.strip else none) = some key →
      key ≠ [] ∧ key.strip = key := by
    intro hbind
    obtain ⟨raw, -, hraw⟩ := Option.bind_eq_some_iff.1 hbind
    by_cases hne : raw.strip ≠ []
    · rw [if_pos hne] at hraw
      exact hstrip raw hne hraw
    · rw [if_neg hne] at hraw
      cases hraw
  unfold credential at h
  cases setting with
  | none => exact hfile h
  | some value =>
    dsimp only at h
    by_cases hne : value.strip ≠ []
    · rw [if_pos hne] at h
      exact hstrip value hne h
    · rw [if_neg hne] at h
      exact hfile h

/-- `_scrub`. -/
def scrub (text secret : Text) : Text :=
  if secret = [] then text else Masking.mask Masking.anywhere secret (Text.of "***") text

/-! ### Requests -/

/-- The two endpoints. -/
inductive Endpoint
  | countTokens
  | messages
  deriving DecidableEq

/-- The path of an endpoint. -/
def Endpoint.path : Endpoint → Text
  | countTokens => Text.of "/v1/messages/count_tokens"
  | messages => Text.of "/v1/messages"

/-- A request: the endpoint, and what the payload says. -/
structure Request where
  endpoint : Endpoint
  model : Text
  maxTokens : Option ℕ
  text : Text

/-- What comes back of a request. -/
inductive Reply
  /-- `HTTPError`, with its code, and its text if that can be read. -/
  | httpError (code : Fin 1000) (detail : Option Text)
  /-- Any other exception, with the name of its type, and its text. -/
  | raised (typeName message : Text)
  /-- A body. -/
  | body (text : Text)

/-- `ApiProbe`. -/
structure ApiProbe where
  key : Text
  opener : ℕ → Request → Reply

/-- `type(value).__name__`. -/
def typeName : Json → String
  | .null => "NoneType"
  | .bool _ => "bool"
  | .int _ => "int"
  | .float _ => "float"
  | .str _ => "str"
  | .arr _ => "list"
  | .obj _ => "dict"

namespace ApiProbe

variable (p : ApiProbe) (model : Text)

/-- `_post`, of the `n`-th request: a mapping, or the text of the `ProbeError`. -/
def post (r : Request) (n : ℕ) : Except Text Json :=
  match p.opener n r with
  | .httpError code detail =>
    .error (scrub (Text.of "POST " ++ r.endpoint.path ++ Text.of " failed: HTTP " ++
      digitsText code.val ++ Text.of ". " ++ (detail.getD []).take 500).strip p.key)
  | .raised name message =>
    .error (scrub (Text.of "POST " ++ r.endpoint.path ++ Text.of " failed: " ++ name ++
      Text.of ": " ++ message) p.key)
  | .body text =>
    match loads text with
    | none =>
      .error (Text.of "POST " ++ r.endpoint.path ++ Text.of " returned a body that is not JSON")
    | some parsed =>
      if parsed.isMapping then .ok parsed
      else
        .error (Text.of "POST " ++ r.endpoint.path ++ Text.of " returned " ++
          Text.of (typeName parsed) ++ Text.of ", not an object")

/-- `count_tokens`. -/
def countTokens (text : Text) (n : ℕ) : Except Text Json :=
  p.post ⟨.countTokens, model, none, text⟩ n

/-- The text of a block, if it is a `text` block. -/
def blockText (block : Json) : Text :=
  match block.get (Text.of "type"), block.get (Text.of "text") with
  | some (.str kind), some (.str text) => if kind = Text.of "text" then text else []
  | _, _ => []

/-- The text that a response produced. -/
def producedText (parsed : Json) : Text :=
  match parsed.get (Text.of "content") with
  | some (.arr content) => content.flatMap blockText
  | _ => []

/-- `messages`: the usage, and the text. -/
def messages (text : Text) (maxTokens n : ℕ) : Except Text (Json × Text) :=
  match p.post ⟨.messages, model, some maxTokens, text⟩ n with
  | .error message => .error message
  | .ok parsed =>
    match parsed.get (Text.of "usage") with
    | some (.obj usage) => .ok (.obj usage, producedText parsed)
    | _ => .error (Text.of "POST /v1/messages returned no usage object")

/-- The `input_tokens` of a count. -/
def inputTokens (counted : Json) : Option ℤ := numeric (counted.get (Text.of "input_tokens"))

/-- `envelope`, with the number of the next request. -/
def envelope (text : Text) (n : ℕ) : Except Text ℤ × ℕ :=
  match p.countTokens model text n with
  | .error message => (.error message, n + 1)
  | .ok single =>
    match p.countTokens model (text ++ text) (n + 1) with
    | .error message => (.error message, n + 2)
    | .ok double =>
      match inputTokens single, inputTokens double with
      | some single, some double => (.ok (2 * single - double), n + 2)
      | _, _ => (.error (Text.of "count_tokens did not return an input_tokens count"), n + 2)

end ApiProbe

/-! ### Rounds -/

/-- The `output_tokens` of a usage. -/
def outputTokens (usage : Json) : Option ℤ := numeric (usage.get (Text.of "output_tokens"))

/-- What a round of Probe A comes to. -/
inductive TurnAnswer
  /-- A `ProbeError`. -/
  | failed (message : Text)
  /-- A count was absent. -/
  | incomparable
  /-- The count of the transcript, and that of the tokenizer. -/
  | measured (reported tokenizer : ℤ)
  deriving DecidableEq

/-- The loop of Probe A breaks. -/
def TurnAnswer.breaks : TurnAnswer → Bool
  | failed _ => true
  | _ => false

/-- The requests of the loop of Probe A, for a turn. -/
def askTurn (p : ApiProbe) (model : Text) (t : Turn) (n : ℕ) : TurnAnswer × ℕ :=
  match p.countTokens model t.outputText n with
  | .error message => (.failed message, n + 1)
  | .ok counted =>
    match outputTokens t.usage, ApiProbe.inputTokens counted with
    | some reported, some tokenizer => (.measured reported tokenizer, n + 1)
    | _, _ => (.incomparable, n + 1)

/-- What a round of Probe A' comes to. -/
inductive PromptAnswer
  /-- A `ProbeError`. -/
  | failed (message : Text)
  /-- No `output_tokens`, or no text produced. -/
  | unreported
  /-- No count returned. -/
  | uncounted
  /-- The count of the API, that of the tokenizer, and the thinking tokens. -/
  | measured (reported tokenizer thinking : ℤ)

/-- The loop of Probe A' breaks. -/
def PromptAnswer.breaks : PromptAnswer → Bool
  | failed _ => true
  | _ => false

/-- `_CONTROL_PROMPTS`, each with its `max_tokens`. -/
def controlPrompts : List (String × ℕ) :=
  [("Write exactly two sentences about tokenizers. No preamble.", 300),
    ("List five colours, one per line, nothing else.", 150),
    ("Name three prime numbers, comma separated.", 100),
    ("Say the word 'ok' and nothing else.", 20)]

/-- The thinking tokens of a usage, or 0. -/
def thinkingOf (usage : Json) : ℤ :=
  match usage.get (Text.of "output_tokens_details") with
  | some details =>
    if details.isMapping then (numeric (details.get (Text.of "thinking_tokens"))).getD 0 else 0
  | none => 0

/-- The requests of the loop of Probe A', for a prompt. -/
def askPrompt (p : ApiProbe) (model : Text) (prompt : String × ℕ) (n : ℕ) : PromptAnswer × ℕ :=
  match p.messages model (Text.of prompt.1) prompt.2 n with
  | .error message => (.failed message, n + 1)
  | .ok (usage, text) =>
    match outputTokens usage with
    | none => (.unreported, n + 1)
    | some reported =>
      if text.strip = [] then (.unreported, n + 1)
      else
        match p.countTokens model text (n + 1) with
        | .error message => (.failed message, n + 2)
        | .ok counted =>
          match ApiProbe.inputTokens counted with
          | none => (.uncounted, n + 2)
          | some tokenizer => (.measured reported tokenizer (thinkingOf usage), n + 2)

end Tokenweir.Parity
