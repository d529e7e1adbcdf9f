import Mathlib.Data.List.Dedup
import Mathlib.Data.List.Sort
import Tokenweir.Lib.Masking
import Tokenweir.Lib.Unicode
import Tokenweir.Lib.Url

/-!
# What the command line prints of a connection string

`_redact` of `tokenweir.migrations.__main__`: where the connection string could contain a secret,
its words are masked in the driver's message.

* `split`, `carriesAPassword`, `words`, `redact`;
* `Carries`, the forms in which `libpq` takes a secret, and `Secret`; `Hidden`;
* `Covered`, and `redact_hides_iff`;
* `Alone` and `covered_iff_of_alone`; `hidden_password_keyword`.
-/

namespace Tokenweir.Migrations

open Masking Url

/-! ### The connection string -/

/-- `_SAFE_DSN_WORDS`. -/
def safeDsnWords : List Text :=
  ["postgres", "postgresql", "host", "hostaddr", "port", "dbname", "user", "password", "passfile",
    "channel_binding", "connect_timeout", "client_encoding", "options", "application_name",
    "fallback_application_name", "keepalives", "keepalives_idle", "keepalives_interval",
    "keepalives_count", "tcp_user_timeout", "replication", "gssencmode", "sslmode",
    "sslcompression", "sslcert", "sslkey", "sslpassword", "sslrootcert", "sslcrl", "sslcrldir",
    "sslsni", "requirepeer", "ssl_min_protocol_version", "ssl_max_protocol_version",
    "krbsrvname", "gsslib", "service", "target_session_attrs", "load_balance_hosts",
    "require_auth"].map Text.of

/-- `[\s=:@/?&]`. -/
def isSeparator (c : CodePoint) : Bool := Text.isSpace c || (Text.of "=:@/?&").contains c

/-- The first piece and the others, in a run of separators or not. -/
def splitFrom : Bool → Text → Text × List Text
  | _, [] => ([], [])
  | run, c :: s =>
    if isSeparator c then
      let rest := splitFrom true s
      if run then rest else ([], rest.1 :: rest.2)
    else
      let rest := splitFrom false s
      (c :: rest.1, rest.2)

/-- `_DSN_SPLIT_RE.split`. -/
def split (s : Text) : List Text := (splitFrom false s).1 :: (splitFrom false s).2

/-- `password\s*=` at the front. -/
def passwordAt (s : Text) : Bool :=
  match matchWord (Text.of "password") s with
  | some rest => (rest.dropWhile Text.isSpace).head? == some (CodePoint.of '=')
  | none => false

/-- `(?<![a-z_])password\s*=` somewhere, after a letter. -/
def hasPasswordFrom : Option CodePoint → Text → Bool
  | _, [] => false
  | before, c :: s =>
    (before.all (fun b => !(isCaseLetter b || b == CodePoint.of '_')) && passwordAt (c :: s)) ||
      hasPasswordFrom (some c) s

/-- `[a-z+]+://([^/@?]*)@` at the front, with a colon in the group. -/
def hasPasswordUserinfo (dsn : Text) : Bool :=
  match afterScheme dsn with
  | some rest =>
    let inside := fun c => !(Text.of "/@?").contains c
    (rest.dropWhile inside).head? == some (CodePoint.of '@') &&
      (rest.takeWhile inside).contains (CodePoint.of ':')
  | none => false

/-- `_carries_a_password`. -/
def carriesAPassword (dsn : Text) : Bool := hasPasswordFrom none dsn || hasPasswordUserinfo dsn

/-- The words that are masked, each once. -/
def words (u : Unicode) (dsn : Text) : List Text :=
  ((split dsn).filter fun w => 3 ≤ w.length ∧ u.lower w ∉ safeDsnWords).dedup

/-- `"***"`. -/
def stars : Text := Text.of "***"

/-- `str.replace(word, "***")`. -/
def maskWord (message word : Text) : Text := mask anywhere word stars message

/-- `_redact`, with the set of words in the order in which it is iterated. -/
def redact (iterated : List Text) (message dsn : Text) : Text :=
  if carriesAPassword dsn then
    (iterated.insertionSort fun v w => w.length ≤ v.length).foldl maskWord message
  else message

/-! ### Secrets -/

/-- A backslash takes the character after it. -/
def unescape : Text → Text
  | [] => []
  | c :: s =>
    if c = CodePoint.of '\\' then
      match s with
      | [] => []
      | d :: s => d :: unescape s
    else c :: unescape s

/-- The keywords whose value is a secret. -/
def secretNames : List Text := [Text.of "password", Text.of "sslpassword"]

/-- Nothing, or something that ends in white space. -/
def EndsBlank (s : Text) : Prop := s.getLast?.all Text.isSpace = true
def BeginsBlank (s : Text) : Prop := s.head?.all Text.isSpace = true

/-- A connection string with a secret, as it is written or as `libpq` reads it. -/
inductive Carries : Text → Text → Prop
  | keyword {before name gap gap' value after secret : Text} (hbefore : EndsBlank before)
      (hname : name ∈ secretNames) (hgap : gap.all Text.isSpace = true)
      (hgap' : gap'.all Text.isSpace = true) (hafter : BeginsBlank after)
      (hsecret : secret = value ∨ secret = unescape value) :
      Carries (before ++ (name ++ (gap ++ (CodePoint.of '=' :: (gap' ++ (value ++ after)))))) secret
  | quoted {before name gap gap' value after secret : Text} (hbefore : EndsBlank before)
      (hname : name ∈ secretNames) (hgap : gap.all Text.isSpace = true)
      (hgap' : gap'.all Text.isSpace = true) (hsecret : secret = value ∨ secret = unescape value) :
      Carries (before ++ (name ++ (gap ++ (CodePoint.of '=' :: (gap' ++
        (CodePoint.of '\'' :: (value ++ (CodePoint.of '\'' :: after)))))))) secret
  | parameter {scheme before name value after secret : Text} {mark : CodePoint}
      (hscheme : scheme ∈ [Text.of "postgres://", Text.of "postgresql://"])
      (hmark : mark = CodePoint.of '?' ∨ mark = CodePoint.of '&' ∧ CodePoint.of '?' ∈ before)
      (hname : name ∈ secretNames) (hafter : after = [] ∨ after.head? = some (CodePoint.of '&'))
      (hsecret : secret = value ∨ secret = unquote value) :
      Carries (scheme ++ (before ++ (mark :: (name ++ (CodePoint.of '=' :: (value ++ after)))))) secret
  | userinfo {scheme user value after secret : Text}
      (hscheme : scheme ∈ [Text.of "postgres://", Text.of "postgresql://"])
      (huser : user.all (fun c => !(Text.of ":/?@").contains c) = true)
      (hsecret : secret = value ∨ secret = unquote value) :
      Carries (scheme ++ (user ++ (CodePoint.of ':' :: (value ++ (CodePoint.of '@' :: after))))) secret

/-- A connection string that carries a secret. -/
structure Secret where
  dsn : Text
  secret : Text
  carries : Carries dsn secret

/-- A fragment that must not be printed. -/
def Sensitive (u : Unicode) (f : Text) : Prop :=
  3 ≤ f.length ∧ u.lower f ∉ safeDsnWords ∧ CodePoint.of '*' ∉ f

/-- No such fragment of a secret is shown. -/
def Hidden (u : Unicode) (secret shown : Text) : Prop :=
  ∀ f ∈ split secret, Sensitive u f → ¬f <:+: shown

/-- The connection string is recognised, and every fragment of the secret holds a word that is
masked. -/
def Covered (u : Unicode) (s : Secret) : Prop :=
  ∀ f ∈ split s.secret, Sensitive u f → carriesAPassword s.dsn = true ∧ ∃ w ∈ words u s.dsn, w <:+: f

/-! ### Masking the words -/

theorem stars_eq : ∀ c ∈ stars, c = CodePoint.of '*' := by
  intro c hc
  exact List.eq_of_mem_replicate (n := 3) hc

theorem stars_ne_nil : stars ≠ [] := List.cons_ne_nil _ _

theorem apart_of_notMem {w A B : Text} (hne : w ≠ []) (hstar : CodePoint.of '*' ∉ w) :
    Apart (CodePoint.of '*') stars A w B :=
  .of_notMem stars_eq stars_ne_nil hne hstar

/-- A word without a mark is not shown once it is masked. -/
theorem not_infix_maskWord {w : Text} (hne : w ≠ []) (hstar : CodePoint.of '*' ∉ w)
    (message : Text) : ¬w <:+: maskWord message w := by
  rintro ⟨A, B, h⟩
  rw [List.append_assoc] at h
  exact mask_hides hne stars_eq stars_ne_nil (apart_of_notMem hne hstar) h.symm

/-- What is not shown is not shown when another word is masked. -/
theorem infix_of_infix_maskWord {f w message : Text} (hne : f ≠ []) (hstar : CodePoint.of '*' ∉ f)
    (hw : w ≠ []) (h : f <:+: maskWord message w) : f <:+: message := by
  obtain ⟨A, B, h⟩ := h
  rw [List.append_assoc] at h
  exact infix_of_mask hw stars_eq stars_ne_nil (apart_of_notMem hne hstar) h.symm

/-- No word of three letters is empty. -/
theorem ne_nil_of_mem_words {u : Unicode} {dsn w : Text} (h : w ∈ words u dsn) : w ≠ [] := by
  rintro rfl
  have hfilter := List.mem_filter.1 (List.mem_dedup.1 h)
  exact absurd (of_decide_eq_true hfilter.2).1 (by decide)

/-- A word that is masked is not shown at the end. -/
theorem not_infix_foldl {w : Text} (hne : w ≠ []) (hstar : CodePoint.of '*' ∉ w) {ws : List Text}
    (hws : ∀ v ∈ ws, v ≠ []) (hw : w ∈ ws) (message : Text) :
    ¬w <:+: ws.foldl maskWord message := by
  induction ws using List.reverseRecOn generalizing message with
  | nil => exact absurd hw List.not_mem_nil
  | append_singleton ws v ih =>
    rw [List.foldl_append, List.foldl_cons, List.foldl_nil]
    rcases List.mem_append.1 hw with hw | hw
    · intro hinfix
      refine ih (fun v hv => hws v (List.mem_append_left _ hv)) hw message ?_
      exact infix_of_infix_maskWord hne hstar (hws v (List.mem_append_right _ (.head _))) hinfix
    · rw [← List.mem_singleton.1 hw]
      exact not_infix_maskWord hne hstar _

/-- A text that holds none of the words is left as it is. -/
theorem foldl_maskWord_eq_self {ws : List Text} {message : Text} (h : ∀ w ∈ ws, ¬w <:+: message) :
    ws.foldl maskWord message = message := by
  induction ws with
  | nil => rfl
  | cons w ws ih =>
    have hmask : maskWord message w = message :=
      mask_eq_self fun hstands => h w (.head _) (stands_anywhere.1 hstands)
    rw [List.foldl_cons, hmask]
    exact ih fun v hv => h v (List.mem_cons_of_mem _ hv)

/-- The order in which the words are masked holds the same words. -/
theorem mem_sorted {u : Unicode} {dsn w : Text} {iterated : List Text}
    (h : iterated.Perm (words u dsn)) :
    w ∈ iterated.insertionSort (fun v w => w.length ≤ v.length) ↔ w ∈ words u dsn :=
  ((List.perm_insertionSort _ iterated).trans h).mem_iff

/-- A secret that is covered is hidden, in whatever order the words are iterated. -/
theorem hidden_of_covered {u : Unicode} {s : Secret} (h : Covered u s) {iterated : List Text}
    (hperm : iterated.Perm (words u s.dsn)) (message : Text) :
    Hidden u s.secret (redact iterated message s.dsn) := by
  intro f hf hsensitive hshown
  obtain ⟨hcarries, w, hw, hpart⟩ := h f hf hsensitive
  rw [redact, if_pos hcarries] at hshown
  have hstar : CodePoint.of '*' ∉ w := fun hmem => hsensitive.2.2 (hpart.subset hmem)
  have hne : ∀ v ∈ iterated.insertionSort (fun v w => w.length ≤ v.length), v ≠ [] :=
    fun v hv => ne_nil_of_mem_words ((mem_sorted hperm).1 hv)
  exact not_infix_foldl (ne_nil_of_mem_words hw) hstar hne ((mem_sorted hperm).2 hw) message
    (hpart.trans hshown)

/-- **When no message shows the secret.** The words may be iterated in any order. -/
theorem redact_hides_iff (u : Unicode) (s : Secret) :
    (∀ iterated : List Text, iterated.Perm (words u s.dsn) → ∀ message : Text,
      Hidden u s.secret (redact iterated message s.dsn)) ↔ Covered u s := by
  constructor
  · intro h f hf hsensitive
    have hshown := h (words u s.dsn) (List.Perm.refl _) f f hf hsensitive
    -- The driver says the fragment, and nothing else.
    by_contra hcovered
    refine hshown ?_
    unfold redact
    split_ifs with hcarries
    · rw [foldl_maskWord_eq_self]
      intro w hw hinfix
      exact hcovered ⟨hcarries, w, (mem_sorted (List.Perm.refl _)).1 hw, hinfix⟩
    · exact List.infix_rfl
  · exact fun h iterated hperm message => hidden_of_covered h hperm message

/-! ### Secrets that stand alone -/

/-- The end of the text, or a separator. -/
def besideSeparator : Guard CodePoint := fun o => o.all isSeparator

theorem splitFrom_false_fst (s : Text) :
    (splitFrom false s).1 = s.takeWhile fun c => !isSeparator c := by
  induction s with
  | nil => rfl
  | cons c s ih =>
    rw [splitFrom, List.takeWhile_cons]
    by_cases hc : isSeparator c = true
    · rw [if_pos hc, hc]
      rfl
    · rw [if_neg hc, Bool.not_eq_true _ |>.mp hc]
      exact congrArg (c :: ·) ih

/-- The piece at the front. -/
theorem front_iff {w s : Text} (hclean : ∀ c ∈ w, isSeparator c = false) :
    (∃ b, s = w ++ b ∧ besideSeparator (b.head?.or none) = true) ↔
      w = s.takeWhile fun c => !isSeparator c := by
  constructor
  · rintro ⟨b, rfl, hb⟩
    rw [List.takeWhile_append_of_pos fun c hc => by rw [hclean c hc]; rfl]
    rcases b with _ | ⟨d, b⟩
    · rw [List.takeWhile_nil, List.append_nil]
    · have hd : isSeparator d = true := hb
      rw [List.takeWhile_cons, hd]
      exact (List.append_nil w).symm
  · intro hw
    refine ⟨s.dropWhile fun c => !isSeparator c, ?_, ?_⟩
    · rw [hw, List.takeWhile_append_dropWhile]
    · have hdrop := List.head?_dropWhile_not (fun c => !isSeparator c) s
      cases hhead : (s.dropWhile fun c => !isSeparator c).head? with
      | none => rfl
      | some d =>
        rw [hhead] at hdrop
        exact (Bool.not_eq_false' _).mp hdrop

/-- No separator is in front of a piece. -/
theorem stands_cons_separator {w s : Text} (hw : w ≠ [])
    (hclean : ∀ c ∈ w, isSeparator c = false) {l : Option CodePoint} {c : CodePoint}
    (hc : isSeparator c = true) :
    Stands besideSeparator w l (c :: s) none ↔ Stands besideSeparator w (some c) s none := by
  rw [stands_cons, or_iff_right]
  rintro ⟨-, b, heq, -⟩
  obtain ⟨d, w, rfl⟩ := List.exists_cons_of_ne_nil hw
  obtain ⟨rfl, -⟩ := List.cons.inj heq
  rw [hclean c (.head _)] at hc
  cases hc

/-- The pieces after a letter: between separators, the piece at the front may go on before. -/
theorem mem_splitFrom {w : Text} (hw : w ≠ []) (hclean : ∀ c ∈ w, isSeparator c = false)
    (s : Text) (l : Option CodePoint) :
    (besideSeparator l = true → ∀ run, w ∈ (splitFrom run s).1 :: (splitFrom run s).2 ↔
      Stands besideSeparator w l s none) ∧
    (besideSeparator l = false →
      (w ∈ (splitFrom false s).2 ↔ Stands besideSeparator w l s none)) := by
  induction s generalizing l with
  | nil =>
    refine ⟨fun _ run => ?_, fun _ => ?_⟩
    · rw [splitFrom, List.mem_singleton, iff_false_right (not_stands_nil hw l none)]
      exact hw
    · rw [splitFrom, iff_false_right (not_stands_nil hw l none)]
      exact List.not_mem_nil
  | cons c s ih =>
    by_cases hc : isSeparator c = true
    · have hrest := (ih (some c)).1 hc true
      rw [stands_cons_separator hw hclean hc, ← hrest]
      refine ⟨fun _ run => ?_, fun _ => ?_⟩
      · cases run with
        | true => rw [splitFrom, if_pos hc]; rfl
        | false =>
          rw [splitFrom, if_pos hc]
          exact List.mem_cons.trans (or_iff_right hw)
      · rw [splitFrom, if_pos hc]
        rfl
    · have hrest := (ih (some c)).2 (Bool.not_eq_true _ |>.mp hc)
      have hfront := front_iff (s := c :: s) hclean
      rw [List.takeWhile_cons, Bool.not_eq_true _ |>.mp hc] at hfront
      rw [stands_cons, ← hrest]
      refine ⟨fun hl run => ?_, fun hl => ?_⟩
      · rw [splitFrom, if_neg hc, and_iff_right hl, hfront, ← splitFrom_false_fst]
        exact List.mem_cons
      · rw [splitFrom, if_neg hc, or_iff_right]
        rintro ⟨htrue, -⟩
        rw [hl] at htrue
        cases htrue

/-- **The pieces of a text** are what stands between separators. -/
theorem mem_split {w s : Text} (hw : w ≠ []) (hclean : ∀ c ∈ w, isSeparator c = false) :
    w ∈ split s ↔ Stands besideSeparator w none s none :=
  (mem_splitFrom hw hclean s none).1 rfl false

/-- No piece holds a separator. -/
theorem clean_of_mem_splitFrom {s : Text} (run : Bool) :
    ∀ w ∈ (splitFrom run s).1 :: (splitFrom run s).2, ∀ c ∈ w, isSeparator c = false := by
  induction s generalizing run with
  | nil =>
    intro w hw c hc
    obtain rfl := List.mem_singleton.1 hw
    exact absurd hc List.not_mem_nil
  | cons d s ih =>
    rw [splitFrom]
    by_cases hd : isSeparator d = true
    · rw [if_pos hd]
      cases run with
      | true => exact ih true
      | false =>
        intro w hw
        rcases List.mem_cons.1 hw with rfl | hw
        · exact fun c hc => absurd hc List.not_mem_nil
        · exact ih true w hw
    · rw [if_neg hd]
      intro w hw c hc
      rcases List.mem_cons.1 hw with rfl | hw
      · rcases List.mem_cons.1 hc with rfl | hc
        · exact Bool.not_eq_true _ |>.mp hd
        · exact ih false _ (.head _) c hc
      · exact ih false w (List.mem_cons_of_mem _ hw) c hc

/-- A secret between separators, or at an end. -/
def Alone (dsn secret : Text) : Prop :=
  ∃ A B, dsn = A ++ (secret ++ B) ∧ besideSeparator A.getLast? = true ∧
    besideSeparator B.head? = true

/-- The pieces of a secret that stands alone are words of the connection string. -/
theorem Alone.mem_words {u : Unicode} {dsn secret f : Text} (h : Alone dsn secret)
    (hf : f ∈ split secret) (hsensitive : Sensitive u f) : f ∈ words u dsn := by
  have hne : f ≠ [] := by
    rintro rfl
    exact absurd hsensitive.1 (by decide)
  have hclean := clean_of_mem_splitFrom (s := secret) false f hf
  obtain ⟨A, B, rfl, hA, hB⟩ := h
  refine List.mem_dedup.2 (List.mem_filter.2 ⟨(mem_split hne hclean).2 ?_,
    decide_eq_true ⟨hsensitive.1, hsensitive.2.1⟩⟩)
  refine Stands.context (((mem_split hne hclean).1 hf).beside ?_ ?_)
  · rwa [Option.or_none]
  · rwa [Option.or_none]

/-- **A secret that stands alone** is covered when the connection string is recognised, and else
only if it has no fragment that must not be printed. -/
theorem covered_iff_of_alone {u : Unicode} {s : Secret} (h : Alone s.dsn s.secret) :
    Covered u s ↔
      carriesAPassword s.dsn = true ∨ ∀ f ∈ split s.secret, ¬Sensitive u f := by
  constructor
  · intro hcovered
    by_cases hsome : ∃ f ∈ split s.secret, Sensitive u f
    · obtain ⟨f, hf, hsensitive⟩ := hsome
      exact .inl (hcovered f hf hsensitive).1
    · exact .inr fun f hf hsensitive => hsome ⟨f, hf, hsensitive⟩
  · rintro (hcarries | hnone) f hf hsensitive
    · exact ⟨hcarries, f, h.mem_words hf hsensitive, List.infix_rfl⟩
    · exact absurd hsensitive (hnone f hf)

/-! ### The keyword -/

theorem matchWord_append {w : Text} (h : ∀ p ∈ w, matchesLetter p p = true) (s : Text) :
    matchWord w (w ++ s) = some s := by
  induction w with
  | nil => rfl
  | cons p w ih =>
    rw [List.cons_append, matchWord, if_pos (h p (.head _))]
    exact ih fun q hq => h q (List.mem_cons_of_mem _ hq)

/-- `password`, blanks and an equals sign. -/
theorem passwordAt_keyword {gap : Text} (hgap : gap.all Text.isSpace = true) (rest : Text) :
    passwordAt (Text.of "password" ++ (gap ++ CodePoint.of '=' :: rest)) = true := by
  have hself : ∀ p ∈ Text.of "password", matchesLetter p p = true := fun p _ => by
    rw [matchesLetter, BEq.rfl]
    rfl
  rw [passwordAt, matchWord_append hself]
  dsimp only
  rw [List.dropWhile_append_of_pos fun c hc => List.all_eq_true.1 hgap c hc]
  rfl

/-- The keyword is found behind anything but a letter or an underscore. -/
theorem hasPasswordFrom_append {l : Option CodePoint} {A s : Text} (hs : passwordAt s = true)
    (hA : (A.getLast?.or l).all (fun b => !(isCaseLetter b || b == CodePoint.of '_')) = true) :
    hasPasswordFrom l (A ++ s) = true := by
  induction A generalizing l with
  | nil =>
    rcases s with _ | ⟨c, s⟩
    · cases hs
    · rw [List.getLast?_nil, Option.none_or] at hA
      rw [List.nil_append, hasPasswordFrom, hA, hs]
      rfl
  | cons c A ih =>
    have hlast := getLast?_append_or [c] A l
    rw [List.singleton_append] at hlast
    rw [hlast] at hA
    have hafter : hasPasswordFrom (some c) (A ++ s) = true := ih hA
    rw [List.cons_append, hasPasswordFrom, hafter, Bool.or_true]

/-- White space is no letter. -/
theorem not_letter_of_isSpace {c : CodePoint} (h : Text.isSpace c = true) :
    (!(isCaseLetter c || c == CodePoint.of '_')) = true := by
  have hunderscore : c ≠ CodePoint.of '_' := by
    rintro rfl
    exact absurd h (by decide)
  unfold Text.isSpace at h
  unfold isCaseLetter
  simp only [Bool.or_eq_true, Bool.and_eq_true, decide_eq_true_eq, beq_iff_eq] at h
  simp only [Bool.not_eq_true', Bool.or_eq_false_iff, Bool.and_eq_false_iff,
    decide_eq_false_iff_not, beq_eq_false_iff_ne]
  refine ⟨?_, hunderscore⟩
  omega

/-- A `password` keyword is recognised, whatever its value. -/
theorem carriesAPassword_keyword {before gap : Text} (hbefore : EndsBlank before)
    (hgap : gap.all Text.isSpace = true) (rest : Text) :
    carriesAPassword (before ++ (Text.of "password" ++ (gap ++ CodePoint.of '=' :: rest))) =
      true := by
  rw [carriesAPassword, hasPasswordFrom_append (passwordAt_keyword hgap rest) ?_]
  · rfl
  · unfold EndsBlank at hbefore
    rw [Option.or_none]
    cases hlast : before.getLast? with
    | none => rfl
    | some c =>
      rw [hlast] at hbefore
      exact not_letter_of_isSpace hbefore

/-- A value that is not quoted is between separators. -/
theorem alone_keyword {before name gap gap' value after : Text}
    (hgap' : gap'.all Text.isSpace = true) (hafter : BeginsBlank after) :
    Alone (before ++ (name ++ (gap ++ (CodePoint.of '=' :: (gap' ++ (value ++ after)))))) value := by
  refine ⟨before ++ (name ++ (gap ++ (CodePoint.of '=' :: gap'))), after, ?_, ?_, ?_⟩
  · simp only [List.append_assoc, List.cons_append]
  · rw [← List.append_assoc, ← List.append_assoc,
      getLast?_append_of_ne (List.cons_ne_nil (CodePoint.of '=') gap')]
    rcases List.eq_nil_or_concat' gap' with rfl | ⟨gap', c, rfl⟩
    · decide
    · rw [← List.cons_append, List.getLast?_append]
      have hc := List.all_eq_true.1 hgap' c (List.mem_append_right _ (.head _))
      exact Bool.or_eq_true _ _ |>.mpr (.inl hc)
  · unfold BeginsBlank at hafter
    unfold besideSeparator
    cases hhead : after.head? with
    | none => rfl
    | some c =>
      rw [hhead] at hafter
      exact Bool.or_eq_true _ _ |>.mpr (.inl hafter)

/-- **The value of a `password` keyword** that is not quoted is never shown, however malformed the
connection string is. -/
theorem hidden_password_keyword (u : Unicode) {before gap gap' value after : Text}
    (hbefore : EndsBlank before) (hgap : gap.all Text.isSpace = true)
    (hgap' : gap'.all Text.isSpace = true) (hafter : BeginsBlank after) {iterated : List Text}
    {dsn : Text} (hdsn : dsn = before ++ (Text.of "password" ++ (gap ++
      (CodePoint.of '=' :: (gap' ++ (value ++ after)))))) (hperm : iterated.Perm (words u dsn))
    (message : Text) : Hidden u value (redact iterated message dsn) := by
  subst hdsn
  let s : Secret := ⟨_, value, @Carries.keyword before (Text.of "password") gap gap' value after value
    hbefore (.head _) hgap hgap' hafter (.inl rfl)⟩
  have halone : Alone s.dsn s.secret := alone_keyword hgap' hafter
  exact hidden_of_covered ((covered_iff_of_alone halone).2
    (.inl (carriesAPassword_keyword hbefore hgap _))) hperm message

/-- A password with a blank that is not quoted, and the driver's complaint about its second half. -/
theorem hidden_password_keyword_blank :
    Hidden Unicode.ascii (Text.of "p4ss w0rd")
      (redact (words Unicode.ascii (Text.of "host=h password=p4ss w0rd dbname=d"))
        (Text.of "missing \"=\" after \"w0rd\"") (Text.of "host=h password=p4ss w0rd dbname=d")) :=
  @hidden_password_keyword Unicode.ascii (Text.of "host=h ") [] [] (Text.of "p4ss w0rd")
    (Text.of " dbname=d") rfl rfl rfl rfl _ _ (by decide +kernel)
    (List.Perm.refl _) _

/-! ### Where the code meets it, and where it does not -/

theorem carries_slash :
    Carries (Text.of "postgresql://app:hunter2/x@db/metering") (Text.of "hunter2/x") := by
  have hdsn : Text.of "postgresql://app:hunter2/x@db/metering" = Text.of "postgresql://" ++
      (Text.of "app" ++ (CodePoint.of ':' :: (Text.of "hunter2/x" ++
        (CodePoint.of '@' :: Text.of "db/metering")))) := by
    decide +kernel
  rw [hdsn]
  exact .userinfo (List.mem_cons_of_mem _ (.head _)) (by decide +kernel) (.inl rfl)

/-- A password with a slash: the driver takes what is in front of it for the port. -/
def slashSecret : Secret :=
  ⟨Text.of "postgresql://app:hunter2/x@db/metering", Text.of "hunter2/x", carries_slash⟩

/-- The claim that no message shows a secret fails: the password is in the driver's message. -/
theorem not_redact_hides :
    ¬Hidden Unicode.ascii slashSecret.secret (redact (words Unicode.ascii slashSecret.dsn)
      (Text.of "invalid integer value \"hunter2\" for connection option \"port\"")
      slashSecret.dsn) := by
  have hnot : carriesAPassword slashSecret.dsn = false := by decide +kernel
  intro hhidden
  refine hhidden (Text.of "hunter2") (by decide +kernel) ?_ ?_
  · refine ⟨by decide, ?_, by decide +kernel⟩
    decide +kernel
  · rw [redact, hnot]
    exact ⟨Text.of "invalid integer value \"", Text.of "\" for connection option \"port\"", by decide +kernel⟩

end Tokenweir.Migrations
