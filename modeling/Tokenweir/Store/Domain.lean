import Tokenweir.Store.Row

/-!
# What the columns can hold

The domains of the columns that the migrations 001 and 002 declare, and the records whose rows
lie in them.

* `fitsInteger`, `fitsBigint`, `Encodable`, `fitsTimestamptz`; `InDomain`;
* `instant_fits`, a time that can be read always fits;
* `InRange`; `rows_inDomain`.
-/

namespace Tokenweir.Store

/-! ### Domains -/

/-- `INTEGER`. -/
def fitsInteger (n : ℤ) : Prop := -2 ^ 31 ≤ n ∧ n < 2 ^ 31

/-- `BIGINT`. -/
def fitsBigint (n : ℤ) : Prop := -2 ^ 63 ≤ n ∧ n < 2 ^ 63

/-- What UTF-8 can encode, but for `U+0000`. -/
def isEncodable (c : CodePoint) : Bool := c.val != 0 && !(0xd800 ≤ c.val && c.val ≤ 0xdfff)

/-- `TEXT`. -/
def Encodable (s : Text) : Prop := s.all isEncodable = true

/-- `TIMESTAMPTZ`: from 4713 BC to 294276 AD. -/
def fitsTimestamptz (instant : ℤ) : Prop :=
  -148731206400000000 ≤ instant ∧ instant < 9286453612800000000

instance (n : ℤ) : Decidable (fitsInteger n) := inferInstanceAs (Decidable (_ ∧ _))

instance (n : ℤ) : Decidable (fitsBigint n) := inferInstanceAs (Decidable (_ ∧ _))

instance (s : Text) : Decidable (Encodable s) := inferInstanceAs (Decidable (_ = true))

instance (n : ℤ) : Decidable (fitsTimestamptz n) := inferInstanceAs (Decidable (_ ∧ _))

/-- The columns that are `NOT NULL`. The parameter of `ts` may be null, as the statement puts the
server's clock in its place. -/
def Column.required : Column → Bool
  | .workload | .queue | .parentRequestId | .latencyMs | .pricingMode | .ts => false
  | _ => true

/-- A value that the column can hold. -/
def InDomain (c : Column) : SqlValue → Prop
  | .null => c.required = false
  | .int n =>
    match c with
    | .schemaVersion => fitsInteger n
    | .inputTokens | .outputTokens | .cacheCreationInputTokens | .cacheReadInputTokens
    | .latencyMs => fitsBigint n
    | _ => False
  | .text s =>
    match c with
    | .requestId | .appId | .endpoint | .model | .status | .workload | .queue
    | .parentRequestId | .pricingMode => Encodable s
    | _ => False
  | .timestamptz instant => c = .ts ∧ fitsTimestamptz instant

/-! ### Times -/

theorem daysInMonth_le (year month : ℕ) : daysInMonth year month ≤ 31 := by
  unfold daysInMonth
  split
  · split <;> omega
  all_goals omega

theorem daysBeforeMonth_le {year month : ℕ} (h : month ≤ 12) : daysBeforeMonth year month ≤ 341 := by
  have hsum := List.sum_le_card_nsmul ((List.range (month - 1)).map fun m =>
    daysInMonth year (m + 1)) 31 (by simp [daysInMonth_le])
  rw [List.length_map, List.length_range, smul_eq_mul] at hsum
  unfold daysBeforeMonth
  omega

/-- The last day is far from the end of the server's calendar. -/
theorem ordinal_le (d : Date) : d.ordinal ≤ 3652500 := by
  obtain ⟨-, hyear⟩ := d.year_range
  have hmonth := @daysBeforeMonth_le d.year d.month d.month_range.2
  have hday := d.day_range.2.trans (daysInMonth_le d.year d.month)
  unfold Date.ordinal daysBeforeYear
  omega

/-- Every time that can be read fits. -/
theorem instant_fits (t : DateTime) : fitsTimestamptz t.instant := by
  have hordinal := ordinal_le t.date
  have htime := t.time_lt
  have hoffset : -(dayLength : ℤ) < t.offset.getD 0 ∧ t.offset.getD 0 < dayLength := by
    cases ho : t.offset with
    | none => constructor <;> norm_num [dayLength]
    | some o => exact t.offset_range o ho
  unfold fitsTimestamptz DateTime.instant
  simp only [dayLength] at htime hoffset ⊢
  omega

/-! ### Rows -/

/-- A record whose values the columns can hold. -/
structure InRange (r : UsageRecord) : Prop where
  schemaVersion : r.schemaVersion < 2 ^ 31
  counts : ∀ f, r.counts f < 2 ^ 63
  latencyMs : ∀ n ∈ r.latencyMs, n < 2 ^ 63
  required : Encodable r.requestId ∧ Encodable r.appId ∧ Encodable r.endpoint ∧
    Encodable r.model ∧ Encodable r.status
  attribution : ∀ s ∈ r.workload.toList ++ r.queue.toList ++ r.parentRequestId.toList, Encodable s

theorem encodable_value (m : PricingMode) : Encodable (Text.of m.value) := by
  cases m <;> decide

theorem inDomain_ofText {c : Column} (hc : c.required = false) {s : Option Text}
    (h : ∀ s, InDomain c (.text s) ↔ Encodable s) :
    InDomain c (.ofText s) ↔ ∀ t ∈ s, Encodable t := by
  cases s with
  | none => simpa [SqlValue.ofText, InDomain] using hc
  | some t => simp [SqlValue.ofText, h]

/-- A row whose values lie in their columns. -/
def RowInDomain (row : List SqlValue) : Prop := ∀ p ∈ columns.zip row, InDomain p.1 p.2

theorem inDomain_ofTime (ts : Option DateTime) : InDomain .ts (.ofTime ts) := by
  cases ts with
  | none => rfl
  | some t => exact ⟨rfl, instant_fits t⟩

theorem fitsBigint_natCast (n : ℕ) : fitsBigint n ↔ n < 2 ^ 63 := by
  unfold fitsBigint
  omega

theorem fitsInteger_natCast (n : ℕ) : fitsInteger n ↔ n < 2 ^ 31 := by
  unfold fitsInteger
  omega

theorem inDomain_latencyMs (n : Option ℕ) :
    InDomain .latencyMs (.ofNat n) ↔ ∀ m ∈ n, m < 2 ^ 63 := by
  cases n with
  | none => simp [SqlValue.ofNat, InDomain, Column.required]
  | some m => simpa [SqlValue.ofNat, InDomain] using fitsBigint_natCast m

theorem inDomain_pricingMode (m : Option PricingMode) :
    InDomain .pricingMode (.ofText (m.map fun m => Text.of m.value)) := by
  cases m with
  | none => rfl
  | some m => exact encodable_value m

/-- The row of a record lies in the columns exactly if the record is in range. -/
theorem rowInDomain_iff {r : UsageRecord} {row : List SqlValue} (h : rowFor r = some row) :
    RowInDomain row ↔ InRange r := by
  obtain ⟨ts, hts, rfl⟩ := Option.map_eq_some_iff.1 h
  have hworkload : InDomain .workload (.ofText r.workload) ↔ ∀ t ∈ r.workload, Encodable t :=
    inDomain_ofText rfl fun _ => Iff.rfl
  have hqueue : InDomain .queue (.ofText r.queue) ↔ ∀ t ∈ r.queue, Encodable t :=
    inDomain_ofText rfl fun _ => Iff.rfl
  have hparent : InDomain .parentRequestId (.ofText r.parentRequestId) ↔
      ∀ t ∈ r.parentRequestId, Encodable t := inDomain_ofText rfl fun _ => Iff.rfl
  simp only [RowInDomain, columns, parameters, List.zip_cons_cons, List.zip_nil_left,
    List.forall_mem_cons, inDomain_ofTime, inDomain_latencyMs, inDomain_pricingMode, hworkload,
    hqueue, hparent]
  simp only [InDomain, fitsInteger_natCast, fitsBigint_natCast]
  constructor
  · rintro ⟨hversion, hrequest, happ, hendpoint, hmodel, hstatus, hworkload, hqueue, hparent,
      hinput, houtput, hcreation, hread, hlatency, -⟩
    refine ⟨hversion, fun f => ?_, hlatency, ⟨hrequest, happ, hendpoint, hmodel, hstatus⟩, ?_⟩
    · cases f with
      | inputTokens => exact hinput
      | outputTokens => exact houtput
      | cacheCreationInputTokens => exact hcreation
      | cacheReadInputTokens => exact hread
    · intro s hs
      simp only [List.mem_append, Option.mem_toList] at hs
      rcases hs with (hs | hs) | hs
      · exact hworkload s hs
      · exact hqueue s hs
      · exact hparent s hs
  · rintro ⟨hversion, hcounts, hlatency, ⟨hrequest, happ, hendpoint, hmodel, hstatus⟩, hattribution⟩
    have hoptional : ∀ t, t ∈ r.workload ∨ t ∈ r.queue ∨ t ∈ r.parentRequestId → Encodable t := by
      intro t ht
      refine hattribution t ?_
      simpa [List.mem_append, Option.mem_toList, or_assoc] using ht
    exact ⟨hversion, hrequest, happ, hendpoint, hmodel, hstatus,
      fun t ht => hoptional t (.inl ht), fun t ht => hoptional t (.inr (.inl ht)),
      fun t ht => hoptional t (.inr (.inr ht)), hcounts _, hcounts _, hcounts _, hcounts _,
      hlatency, trivial, trivial, by simp⟩

/-- **What the mapper lets through, the columns can hold, exactly if the records are in range**:
a version below `2 ^ 31`, counts and a latency below `2 ^ 63`, and texts without `U+0000` and
without surrogates. -/
theorem rows_inDomain (rs : List UsageRecord) (rows : List (List SqlValue))
    (h : rowsFor rs = some rows) :
    (∀ row ∈ rows, row.length = columns.length ∧ RowInDomain row) ↔ ∀ r ∈ rs, InRange r := by
  unfold rowsFor at h
  induction rs generalizing rows with
  | nil =>
    cases h
    simp
  | cons r rs ih =>
    rw [List.mapM_cons] at h
    obtain ⟨row, hr, h⟩ := Option.bind_eq_some_iff.1 h
    obtain ⟨rest, hrest, h⟩ := Option.bind_eq_some_iff.1 h
    obtain rfl := Option.some.inj h
    have hlength : row.length = columns.length := by
      obtain ⟨ts, -, rfl⟩ := Option.map_eq_some_iff.1 hr
      rfl
    rw [List.forall_mem_cons, List.forall_mem_cons, ih rest hrest, rowInDomain_iff hr]
    exact and_congr_left fun _ => and_iff_right hlength

/-- A record with this many input tokens. -/
def countedRecord (inputTokens : ℕ) : UsageRecord where
  requestId := Text.of "r"
  appId := Text.of "app"
  endpoint := Text.of "messages"
  model := Text.of "m"
  status := Text.of "ok"
  counts := fun f => if f = .inputTokens then inputTokens else 0
  ts := some (Text.of "2026-01-01T00:00:00+00:00")
  requestId_nonBlank := by decide
  appId_nonBlank := by decide
  endpoint_nonBlank := by decide
  model_nonBlank := by decide
  status_nonBlank := by decide
  schemaVersion_pos := le_rfl

/-- The largest count that fits, among the counts of a record that fits. -/
theorem rows_inDomain_largest : ∃ rows, rowsFor [countedRecord (2 ^ 63 - 1)] = some rows ∧
    ∀ row ∈ rows, row.length = columns.length ∧ RowInDomain row := by
  obtain ⟨rows, hrows⟩ := Option.isSome_iff_exists.1
    (show (rowsFor [countedRecord (2 ^ 63 - 1)]).isSome = true by decide +kernel)
  refine ⟨rows, hrows, (rows_inDomain _ rows hrows).2 fun r hr => ?_⟩
  obtain rfl := List.mem_singleton.1 hr
  refine ⟨by decide, fun f => ?_, by simp [countedRecord], by decide, by simp [countedRecord]⟩
  cases f <;> decide

/-- A batch with one more token is mapped too, to a row that no `BIGINT` holds. -/
theorem not_inDomain_tooMany : ∃ rows, rowsFor [countedRecord (2 ^ 63)] = some rows ∧
    ∃ row ∈ rows, (Column.inputTokens, SqlValue.int (2 ^ 63)) ∈ columns.zip row ∧
      ¬ InDomain .inputTokens (.int (2 ^ 63)) := by
  have hrow : (rowsFor [countedRecord (2 ^ 63)]).map (fun rows => rows.map fun row =>
      decide ((Column.inputTokens, SqlValue.int (2 ^ 63)) ∈ columns.zip row)) = some [true] := by
    decide +kernel
  obtain ⟨rows, hrows, hmem⟩ := Option.map_eq_some_iff.1 hrow
  obtain ⟨row, rest, rfl, hin, -⟩ := List.map_eq_cons_iff.1 hmem
  exact ⟨_, hrows, row, List.mem_cons_self, of_decide_eq_true hin,
    fun h => absurd h.2 (lt_irrefl _)⟩

end Tokenweir.Store
