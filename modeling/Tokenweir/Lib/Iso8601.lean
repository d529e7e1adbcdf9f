import Tokenweir.Lib.DateTime

/-!
# Writing dates and times

The instants of the calendar as dates with a time in UTC, and the strings that Python writes them
as, which are read back.

* `Text.pad`, `digits_pad`;
* `monthDay_spec`, `ordinal_ofOrdinal`; `DateTime.ofInstant`;
* `clockText`, `DateTime.isoFormat`; `fromIsoFormat_isoFormat`.
-/

namespace Tokenweir

/-! ### Padded numbers -/

namespace Text

/-- A number with zeros in front, `k` digits or more. -/
def pad (k n : ℕ) : Text :=
  List.replicate (k - (decimal n).length) (CodePoint.of '0') ++ decimal n

variable {k n : ℕ}

theorem length_pad (h : n < 10 ^ k) : (pad k n).length = k := by
  rw [pad, List.length_append, List.length_replicate, Nat.sub_add_cancel (length_decimal_le h)]

theorem pad_isDigit (k n : ℕ) : (pad k n).all isDigit = true := by
  rw [pad, List.all_append, decimal_isDigit, Bool.and_true, List.all_replicate]
  split <;> rfl

theorem number_pad (k n : ℕ) : number (pad k n) = n := by
  rw [pad, number_replicate_append, number_decimal]

/-- A padded number is read back. -/
theorem digits_pad (h : n < 10 ^ k) (s : Text) : digits k (pad k n ++ s) = some (n, s) := by
  have hdigits := digits_append (t := s) (pad_isDigit k n)
  rwa [length_pad h, number_pad] at hdigits

end Text

/-! ### Days -/

namespace Date

/-- Only the length of February depends on the year. -/
theorem daysInMonth_congr {year year' : ℕ} (h : isLeap year = isLeap year') :
    daysInMonth year = daysInMonth year' := by
  funext month
  unfold daysInMonth
  rw [h]

/-- The month and the day of each of the first 365 days of a year. -/
theorem monthDay_spec (year : ℕ) {n : ℕ} (h : n < 365) :
    (1 ≤ (monthDay year n).1 ∧ (monthDay year n).1 ≤ 12) ∧
      (1 ≤ (monthDay year n).2 ∧ (monthDay year n).2 ≤ daysInMonth year (monthDay year n).1) ∧
      daysBeforeMonth year (monthDay year n).1 + (monthDay year n).2 = n + 1 := by
  have hleap : ∀ n < 365, (1 ≤ (monthDay 4 n).1 ∧ (monthDay 4 n).1 ≤ 12) ∧
      (1 ≤ (monthDay 4 n).2 ∧ (monthDay 4 n).2 ≤ daysInMonth 4 (monthDay 4 n).1) ∧
      daysBeforeMonth 4 (monthDay 4 n).1 + (monthDay 4 n).2 = n + 1 := by
    decide +kernel
  have hcommon : ∀ n < 365, (1 ≤ (monthDay 1 n).1 ∧ (monthDay 1 n).1 ≤ 12) ∧
      (1 ≤ (monthDay 1 n).2 ∧ (monthDay 1 n).2 ≤ daysInMonth 1 (monthDay 1 n).1) ∧
      daysBeforeMonth 1 (monthDay 1 n).1 + (monthDay 1 n).2 = n + 1 := by
    decide +kernel
  have hsame : ∀ year', isLeap year = isLeap year' →
      daysInMonth year = daysInMonth year' ∧ daysBeforeMonth year = daysBeforeMonth year' ∧
        monthDay year n = monthDay year' n := by
    intro year' hyear
    have hmonth := daysInMonth_congr hyear
    have hbefore : daysBeforeMonth year = daysBeforeMonth year' := by
      funext month
      rw [daysBeforeMonth, daysBeforeMonth, hmonth]
    refine ⟨hmonth, hbefore, ?_⟩
    rw [monthDay, monthDay, hbefore]
  cases hyear : isLeap year with
  | true =>
    obtain ⟨hmonth, hbefore, hday⟩ := hsame 4 (hyear.trans (by decide))
    rw [hmonth, hbefore, hday]
    exact hleap n h
  | false =>
    obtain ⟨hmonth, hbefore, hday⟩ := hsame 1 (hyear.trans (by decide))
    rw [hmonth, hbefore, hday]
    exact hcommon n h

theorem ordinal_make {year month day : ℕ} (hyear : 1 ≤ year ∧ year ≤ 9999)
    (hmonth : 1 ≤ month ∧ month ≤ 12) (hday : 1 ≤ day ∧ day ≤ daysInMonth year month) :
    (make year month day).map ordinal =
      some (daysBeforeYear year + daysBeforeMonth year month + day) := by
  rw [make, dif_pos ⟨hyear, hmonth, hday⟩]
  rfl

/-- The days before a year, by its place in the cycles of 400, 100 and 4 years. -/
theorem daysBeforeYear_cycles {a b c d : ℕ} (hb : b ≤ 3) (hc : c ≤ 24) (hd : d ≤ 3) :
    daysBeforeYear (a * 400 + b * 100 + c * 4 + d + 1) =
      a * 146097 + b * 36524 + c * 1461 + d * 365 := by
  unfold daysBeforeYear
  omega

/-- The number of days of the calendar. -/
def lastOrdinal : ℕ := 3652059

/-- **The date of an ordinal** has that ordinal. -/
theorem ordinal_ofOrdinal {n : ℕ} (h : 1 ≤ n) (hlast : n ≤ lastOrdinal) :
    (ofOrdinal n).map ordinal = some n := by
  unfold lastOrdinal at hlast
  unfold ofOrdinal
  dsimp only
  set a := (n - 1) / 146097 with ha
  set b := (n - 1) % 146097 / 36524 with hb
  set c := (n - 1) % 146097 % 36524 / 1461 with hc
  set d := (n - 1) % 146097 % 36524 % 1461 / 365 with hd
  set r := (n - 1) % 146097 % 36524 % 1461 % 365 with hr
  have hsplit : n = a * 146097 + b * 36524 + c * 1461 + d * 365 + r + 1 := by omega
  have hb4 : b ≤ 4 := by omega
  have hc24 : c ≤ 24 := by omega
  have hd4 : d ≤ 4 := by omega
  split_ifs with hend
  · -- the last day of a cycle, and of a leap year
    have hlastDay : ∃ b' c', b' ≤ 3 ∧ c' ≤ 24 ∧ (c' = 24 → b' = 3) ∧
        a * 400 + b * 100 + c * 4 + d + 1 - 1 = a * 400 + b' * 100 + c' * 4 + 3 + 1 ∧
        n = a * 146097 + b' * 36524 + c' * 1461 + 3 * 365 + 366 := by
      rcases hend with hend | hend
      · exact ⟨b, c, by omega⟩
      · exact ⟨3, 24, by omega⟩
    obtain ⟨b', c', hb', hc', hcentury, hyear, hn⟩ := hlastDay
    rw [hyear]
    have hleap : isLeap (a * 400 + b' * 100 + c' * 4 + 3 + 1) = true := by
      unfold isLeap
      rw [decide_eq_true_eq]
      omega
    have hday : daysInMonth (a * 400 + b' * 100 + c' * 4 + 3 + 1) 12 = 31 := rfl
    have hbefore : daysBeforeMonth (a * 400 + b' * 100 + c' * 4 + 3 + 1) 12 = 335 := by
      have hsame : daysInMonth (a * 400 + b' * 100 + c' * 4 + 3 + 1) = daysInMonth 4 :=
        daysInMonth_congr (hleap.trans (by decide))
      rw [daysBeforeMonth, hsame]
      decide
    rw [ordinal_make (by omega) (by decide) (by rw [hday]; decide), hbefore,
      daysBeforeYear_cycles hb' hc' (by decide), hn]
  · have hlt : r < 365 := Nat.mod_lt _ (by decide)
    obtain ⟨hmonth, hday, hsum⟩ := monthDay_spec (a * 400 + b * 100 + c * 4 + d + 1) hlt
    rw [ordinal_make (by omega) hmonth hday, add_assoc, hsum,
      daysBeforeYear_cycles (by omega) hc24 (by omega), hsplit, add_assoc _ r 1]

/-- After the last day there is no date. -/
theorem ofOrdinal_eq_none {n : ℕ} (h : lastOrdinal < n) : ofOrdinal n = none := by
  unfold lastOrdinal at h
  have hmake : ∀ year month day, 9999 < year → make year month day = none := by
    intro year month day hyear
    rw [make, dif_neg]
    omega
  have hcycle : 24 ≤ (n - 1) / 146097 := by omega
  unfold ofOrdinal
  dsimp only
  split_ifs with hend
  · exact hmake _ _ _ (by omega)
  · rcases hcycle.lt_or_eq with hlater | hcycle
    · exact hmake _ _ _ (by omega)
    · -- the cycle in which the calendar ends, at its last year
      have hcentury : 3 ≤ (n - 1) % 146097 / 36524 := by omega
      have hfour : 24 ≤ (n - 1) % 146097 % 36524 / 1461 := by omega
      have hyear : 3 ≤ (n - 1) % 146097 % 36524 % 1461 / 365 := by omega
      exact hmake _ _ _ (by omega)

end Date

namespace DateTime

/-! ### Instants -/

/-- An instant of the calendar. -/
def InCalendar (instant : ℤ) : Prop := 0 ≤ instant ∧ instant < (Date.lastOrdinal * dayLength : ℕ)

instance (instant : ℤ) : Decidable (InCalendar instant) := inferInstanceAs (Decidable (_ ∧ _))

/-- The time in UTC of an instant. -/
def ofInstant (instant : ℤ) : Option DateTime :=
  if 0 ≤ instant then
    (Date.ofOrdinal (instant.toNat / dayLength + 1)).bind fun date =>
      make date (instant.toNat % dayLength) (some 0)
  else none

/-- `astimezone(timezone.utc)`; `none` where it raises. -/
def toUtc (t : DateTime) : Option DateTime := ofInstant t.instant

/-- **An instant of the calendar** has a time in UTC. -/
theorem ofInstant_eq_some {x : ℤ} (h : InCalendar x) : (ofInstant x).map instant = some x := by
  obtain ⟨hpos, hlt⟩ := h
  lift x to ℕ using hpos
  rw [Nat.cast_lt] at hlt
  have hday : x / dayLength + 1 ≤ Date.lastOrdinal := by
    rw [Nat.succ_le_iff, Nat.div_lt_iff_lt_mul (by decide)]
    exact hlt
  have hordinal := Date.ordinal_ofOrdinal (Nat.le_add_left 1 _) hday
  obtain ⟨date, hdate, hn⟩ := Option.map_eq_some_iff.1 hordinal
  have htime : x % dayLength < dayLength := Nat.mod_lt _ (by decide)
  rw [ofInstant, if_pos (Int.natCast_nonneg x), Int.toNat_natCast, hdate, Option.bind_some, make,
    dif_pos ⟨htime, by rintro _ ⟨⟩; decide⟩, Option.map_some, instant, hn]
  refine congrArg some ?_
  have hsplit := Nat.div_add_mod x dayLength
  rw [Nat.add_sub_cancel, Option.getD_some, sub_zero, ← Nat.cast_mul, ← Nat.cast_add, mul_comm, hsplit]

/-- Any other one has none. -/
theorem ofInstant_eq_none {x : ℤ} (h : ¬InCalendar x) : ofInstant x = none := by
  unfold ofInstant
  split_ifs with hpos
  · lift x to ℕ using hpos
    have hlt : ¬x < Date.lastOrdinal * dayLength := fun hlt =>
      h ⟨Int.natCast_nonneg x, Nat.cast_lt.2 hlt⟩
    have hday : Date.lastOrdinal < x / dayLength + 1 := by
      rw [Nat.lt_succ_iff, Nat.le_div_iff_mul_le (by decide)]
      exact not_lt.1 hlt
    rw [Int.toNat_natCast, Date.ofOrdinal_eq_none hday]
    rfl
  · rfl

/-! ### The string of a time -/

/-- The hours, minutes, seconds and microseconds of a number of microseconds. -/
def clockOf (us : ℕ) : ℕ × ℕ × ℕ × ℕ :=
  (us / 3600000000, us / 60000000 % 60, us / 1000000 % 60, us % 1000000)

theorem micros_clockOf (us : ℕ) : micros (clockOf us) = us := by
  show ((us / 3600000000 * 60 + us / 60000000 % 60) * 60 + us / 1000000 % 60) * 1000000 +
    us % 1000000 = us
  omega

/-- The fraction of a second. -/
def fractionText (us : ℕ) : Text := if us = 0 then [] else CodePoint.of '.' :: Text.pad 6 us

/-- `HH:MM:SS[.ffffff]`; the seconds are left out where there are none, unless they are asked
for. -/
def clockText (us : ℕ) (seconds : Bool) : Text :=
  Text.pad 2 (clockOf us).1 ++ CodePoint.of ':' :: (Text.pad 2 (clockOf us).2.1 ++
    if seconds || us % 60000000 != 0 then
      CodePoint.of ':' :: (Text.pad 2 (clockOf us).2.2.1 ++ fractionText (clockOf us).2.2.2)
    else [])

/-- `±HH:MM[:SS[.ffffff]]`. -/
def offsetText : Option ℤ → Text
  | none => []
  | some o => CodePoint.of (if o < 0 then '-' else '+') :: clockText o.natAbs false

/-- `YYYY-MM-DD`. -/
def dateText (d : Date) : Text :=
  Text.pad 4 d.year ++ CodePoint.of '-' :: (Text.pad 2 d.month ++ CodePoint.of '-' ::
    Text.pad 2 d.day)

/-- `datetime.isoformat`. -/
def isoFormat (t : DateTime) : Text :=
  dateText t.date ++ CodePoint.of 'T' :: (clockText t.time true ++ offsetText t.offset)

/-! ### Reading it back -/

theorem isoFraction_fractionText {us : ℕ} (h : us < 1000000) (hne : us ≠ 0) :
    isoFraction (fractionText us) = some us := by
  have hlength : (Text.pad 6 us).length = 6 := Text.length_pad h
  have hne' : Text.pad 6 us ≠ [] := by
    intro hnil
    rw [hnil] at hlength
    cases hlength
  have htake : (Text.pad 6 us).take 6 = Text.pad 6 us := List.take_of_length_le hlength.le
  have hafter : (Text.after '.' (CodePoint.of '.' :: Text.pad 6 us) <|>
      Text.after ',' (CodePoint.of '.' :: Text.pad 6 us)) = some (Text.pad 6 us) := rfl
  rw [fractionText, if_neg hne, isoFraction, hafter, Option.bind_eq_bind, Option.bind_some,
    if_pos ⟨hne', Text.pad_isDigit 6 us⟩, htake, hlength, Text.number_pad]
  simp

theorem isoClock_clockText {us : ℕ} (h : us < dayLength) (seconds : Bool) :
    isoClock (clockText us seconds) = some (clockOf us) := by
  unfold dayLength at h
  have hh : (clockOf us).1 < 10 ^ 2 := by
    show us / 3600000000 < 100
    omega
  have hm : (clockOf us).2.1 < 10 ^ 2 := by
    show us / 60000000 % 60 < 100
    omega
  have hs : (clockOf us).2.2.1 < 10 ^ 2 := by
    show us / 1000000 % 60 < 100
    omega
  have hf : (clockOf us).2.2.2 < 1000000 := Nat.mod_lt _ (by decide)
  have hafter : ∀ s : Text, Text.after ':' (CodePoint.of ':' :: s) = some s := fun _ => rfl
  rw [isoClock, clockText, Text.digits_pad hh]
  dsimp only [Option.bind_eq_bind, Option.bind_some]
  rw [if_neg (List.cons_ne_nil _ _), hafter, Option.getD_some, Option.isSome_some,
    Text.digits_pad hm]
  dsimp only [Option.bind_some]
  cases hlong : seconds || us % 60000000 != 0 with
  | true =>
    rw [if_pos rfl, if_neg (List.cons_ne_nil _ _), if_pos rfl, hafter]
    dsimp only [Option.bind_some]
    rw [Text.digits_pad hs]
    dsimp only [Option.bind_some]
    by_cases hzero : (clockOf us).2.2.2 = 0
    · rw [fractionText, if_pos hzero, if_pos rfl, ← hzero]
    · have hne : fractionText (clockOf us).2.2.2 ≠ [] := by
        rw [fractionText, if_neg hzero]
        exact List.cons_ne_nil _ _
      rw [if_neg hne, isoFraction_fractionText hf hzero]
      rfl
  | false =>
    have hzero : us % 60000000 = 0 := by simpa using (Bool.or_eq_false_iff.1 hlong).2
    have hseconds : (clockOf us).2.2 = (0, 0) := by
      show (us / 1000000 % 60, us % 1000000) = (0, 0)
      rw [Prod.mk.injEq]
      omega
    rw [if_neg Bool.false_ne_true, if_pos rfl]
    rw [← Prod.mk.eta (p := clockOf us), ← Prod.mk.eta (p := (clockOf us).2), hseconds]

/-- No character of a clock is the sign of an offset. -/
theorem clockText_noSign (us : ℕ) (seconds : Bool) :
    ∀ c ∈ clockText us seconds, isSign c = false := by
  have hdigit : ∀ c : CodePoint, Text.isDigit c = true → isSign c = false := by
    intro c hc
    simp only [Text.isDigit, Bool.and_eq_true, decide_eq_true_eq] at hc
    have hplus : c ≠ CodePoint.of '+' := by
      rintro rfl
      exact absurd hc.1 (by decide)
    have hminus : c ≠ CodePoint.of '-' := by
      rintro rfl
      exact absurd hc.1 (by decide)
    have hzulu : c ≠ CodePoint.of 'Z' := by
      rintro rfl
      exact absurd hc.2 (by decide)
    simp [isSign, hplus, hminus, hzulu]
  have hpad : ∀ k n, ∀ c ∈ Text.pad k n, isSign c = false := fun k n c hc =>
    hdigit c (List.all_eq_true.1 (Text.pad_isDigit k n) c hc)
  intro c hc
  unfold clockText at hc
  rcases List.mem_append.1 hc with hc | hc
  · exact hpad _ _ c hc
  rcases List.mem_cons.1 hc with rfl | hc
  · decide
  rcases List.mem_append.1 hc with hc | hc
  · exact hpad _ _ c hc
  split_ifs at hc
  · rcases List.mem_cons.1 hc with rfl | hc
    · decide
    rcases List.mem_append.1 hc with hc | hc
    · exact hpad _ _ c hc
    · unfold fractionText at hc
      split_ifs at hc
      · cases hc
      · rcases List.mem_cons.1 hc with rfl | hc
        · decide
        · exact hpad _ _ c hc
  · cases hc

theorem isoOffset_offsetText {offset : Option ℤ}
    (h : ∀ o ∈ offset, -(dayLength : ℤ) < o ∧ o < dayLength) :
    isoOffset (offsetText offset) = some offset := by
  cases offset with
  | none => rfl
  | some o =>
    have hrange := h o rfl
    have hclock := @isoClock_clockText o.natAbs (by omega) false
    by_cases hneg : o < 0
    · rw [offsetText, if_pos hneg, isoOffset, if_neg (by decide), hclock]
      show some (some (if CodePoint.of '-' = CodePoint.of '-' then
        -(micros (clockOf o.natAbs) : ℤ) else micros (clockOf o.natAbs))) = _
      rw [if_pos rfl, micros_clockOf]
      refine congrArg (fun o => some (some o)) ?_
      omega
    · rw [offsetText, if_neg hneg, isoOffset, if_neg (by decide), hclock]
      show some (some (if CodePoint.of '+' = CodePoint.of '-' then
        -(micros (clockOf o.natAbs) : ℤ) else micros (clockOf o.natAbs))) = _
      rw [if_neg (by decide), micros_clockOf]
      refine congrArg (fun o => some (some o)) ?_
      omega

theorem isoTime_clockText {us : ℕ} (h : us < dayLength) {offset : Option ℤ}
    (hoffset : ∀ o ∈ offset, -(dayLength : ℤ) < o ∧ o < dayLength) :
    isoTime (clockText us true ++ offsetText offset) = some (us, offset) := by
  have hsign : ∀ c ∈ clockText us true, (!isSign c) = true := fun c hc => by
    rw [clockText_noSign us true c hc]
    rfl
  have hhead : (offsetText offset).takeWhile (fun c => !isSign c) = [] ∧
      (offsetText offset).dropWhile (fun c => !isSign c) = offsetText offset := by
    cases offset with
    | none => exact ⟨rfl, rfl⟩
    | some o =>
      have hfirst : isSign (CodePoint.of (if o < 0 then '-' else '+')) = true := by
        split_ifs <;> decide
      rw [offsetText]
      exact ⟨List.takeWhile_cons_of_neg (by simp [hfirst]),
        List.dropWhile_cons_of_neg (by simp [hfirst])⟩
  have htime : (clockOf us).1 < 24 ∧ (clockOf us).2.1 < 60 ∧ (clockOf us).2.2.1 < 60 := by
    unfold dayLength at h
    refine ⟨?_, Nat.mod_lt _ (by decide), Nat.mod_lt _ (by decide)⟩
    show us / 3600000000 < 24
    omega
  rw [isoTime, List.takeWhile_append_of_pos hsign, List.dropWhile_append_of_pos hsign, hhead.1,
    hhead.2, List.append_nil, isoClock_clockText h, isoOffset_offsetText hoffset]
  dsimp only [Option.bind_eq_bind, Option.bind_some]
  rw [if_pos htime]
  show some (micros (clockOf us), offset) = _
  rw [micros_clockOf]

/-- The digits of a date suffice. -/
theorem date_lt (d : Date) : d.year < 10 ^ 4 ∧ d.month < 10 ^ 2 ∧ d.day < 10 ^ 2 := by
  have hyear := d.year_range
  have hmonth := d.month_range
  have hday := d.day_range
  have hlength : daysInMonth d.year d.month ≤ 31 := by
    unfold daysInMonth
    split
    · split <;> omega
    all_goals omega
  omega

/-- A padded number begins with a digit. -/
theorem pad_cons {k n : ℕ} (hk : 0 < k) (h : n < 10 ^ k) :
    ∃ c s, Text.pad k n = c :: s ∧ Text.isDigit c = true := by
  have hlength := Text.length_pad h
  have hdigit := Text.pad_isDigit k n
  cases hpad : Text.pad k n with
  | nil =>
    rw [hpad] at hlength
    exact absurd hlength hk.ne
  | cons c s =>
    rw [hpad, List.all_cons, Bool.and_eq_true] at hdigit
    exact ⟨c, s, rfl, hdigit.1⟩

theorem ne_of_isDigit {c : CodePoint} (h : Text.isDigit c = true) : c ≠ CodePoint.of 'W' := by
  rintro rfl
  exact absurd h (by decide)

theorem isoDate_dateText (d : Date) : isoDate (dateText d) = some d := by
  obtain ⟨hyear, hmonth, hday⟩ := date_lt d
  have hdash : ∀ s : Text, Text.after '-' (CodePoint.of '-' :: s) = some s := fun _ => rfl
  have hweek : Text.after 'W' (Text.pad 2 d.month ++ CodePoint.of '-' :: Text.pad 2 d.day) =
      none := by
    obtain ⟨c, s, hpad, hdigit⟩ := pad_cons (by decide) hmonth
    rw [hpad]
    exact if_neg (ne_of_isDigit hdigit)
  rw [isoDate, dateText, Text.digits_pad hyear]
  dsimp only [Option.bind_eq_bind, Option.bind_some]
  rw [hdash, Option.getD_some, hweek]
  dsimp only
  rw [Text.digits_pad hmonth]
  dsimp only [Option.bind_some]
  rw [Option.isSome_some, if_pos rfl, hdash]
  dsimp only [Option.bind_some]
  have hlast := Text.digits_pad hday []
  rw [List.append_nil] at hlast
  rw [hlast]
  dsimp only [Option.bind_some]
  rw [if_pos rfl, Date.make, dif_pos ⟨d.year_range, d.month_range, d.day_range⟩]

theorem length_dateText (d : Date) : (dateText d).length = 10 := by
  obtain ⟨hyear, hmonth, hday⟩ := date_lt d
  simp [dateText, Text.length_pad hyear, Text.length_pad hmonth, Text.length_pad hday]

/-- **What is written is read back.** -/
theorem fromIsoFormat_isoFormat (t : DateTime) : fromIsoFormat t.isoFormat = some t := by
  have hlength := length_dateText t.date
  have htotal : 10 < t.isoFormat.length := by
    rw [isoFormat, List.length_append, hlength, List.length_cons]
    omega
  -- the year, a dash, and a digit, which is no `W`
  obtain ⟨hyear, hmonth, -⟩ := date_lt t.date
  have hfour : (Text.pad 4 t.date.year).length = 4 := Text.length_pad hyear
  have hdash : t.isoFormat[4]? = some (CodePoint.of '-') := by
    rw [isoFormat, dateText, List.append_assoc, List.getElem?_append_right (by omega), hfour]
    rfl
  have hdigit : t.isoFormat[5]? ≠ some (CodePoint.of 'W') := by
    obtain ⟨c, s, hpad, hdigit⟩ := pad_cons (by decide) hmonth
    rw [isoFormat, dateText, List.append_assoc, List.getElem?_append_right (by omega), hfour, hpad]
    exact fun h => ne_of_isDigit hdigit (Option.some.inj h)
  have hdate : isoDateLength t.isoFormat = 10 := by
    unfold isoDateLength
    dsimp only
    rw [if_neg (by omega), if_pos hdash, if_neg hdigit]
  have htake : t.isoFormat.take 10 = dateText t.date := List.take_left' hlength
  have hdrop : t.isoFormat.drop 11 = clockText t.time true ++ offsetText t.offset := by
    rw [isoFormat, ← List.drop_drop (i := 1) (j := 10), List.drop_left' hlength]
    rfl
  rw [fromIsoFormat, if_neg (by omega), hdate]
  dsimp only
  rw [htake, isoDate_dateText]
  dsimp only [Option.bind_eq_bind, Option.bind_some]
  rw [if_neg (by omega), hdrop, isoTime_clockText t.time_lt t.offset_range]
  dsimp only [Option.bind_some]
  rw [make, dif_pos ⟨t.time_lt, t.offset_range⟩]

/-! ### The last character -/

/-- The last character is a digit. -/
def EndsInDigit (s : Text) : Prop := ∃ c, s.getLast? = some c ∧ Text.isDigit c = true

section Last

variable {s t : Text}

theorem EndsInDigit.of_suffix (h : EndsInDigit t) (hsuffix : t <:+ s) : EndsInDigit s := by
  obtain ⟨c, hlast, hdigit⟩ := h
  obtain ⟨front, rfl⟩ := hsuffix
  refine ⟨c, ?_, hdigit⟩
  rw [List.getLast?_append, hlast]
  rfl

theorem suffix_of_digits {n v : ℕ} (h : Text.digits n s = some (v, t)) : t <:+ s := by
  unfold Text.digits at h
  split_ifs at h
  cases h
  exact List.drop_suffix n s

theorem suffix_of_after {c : Char} (h : Text.after c s = some t) : t <:+ s := by
  cases s with
  | nil => cases h
  | cons d s =>
    rw [Text.after] at h
    split_ifs at h
    cases h
    exact List.suffix_cons _ _

theorem suffix_getD_after (c : Char) (s : Text) : (s.after c).getD s <:+ s := by
  cases h : s.after c with
  | none => exact List.suffix_refl s
  | some t => exact suffix_of_after h

theorem endsInDigit_of_all (hne : s ≠ []) (h : s.all Text.isDigit = true) : EndsInDigit s :=
  ⟨s.getLast hne, List.getLast?_eq_some_getLast hne,
    List.all_eq_true.1 h _ (List.getLast_mem hne)⟩

/-- A string that is read as digits to its end. -/
theorem endsInDigit_of_digits {n v : ℕ} (hn : 0 < n) (h : Text.digits n s = some (v, [])) :
    EndsInDigit s := by
  unfold Text.digits at h
  split_ifs at h with hdigits
  obtain ⟨hlength, hall⟩ := hdigits
  have hdrop : s.drop n = [] := (Prod.mk.inj (Option.some.inj h)).2
  have htake : s.take n = s := by
    conv_rhs => rw [← List.take_append_drop n s, hdrop, List.append_nil]
  rw [htake] at hall hlength
  refine endsInDigit_of_all ?_ hall
  rintro rfl
  exact hn.ne hlength

theorem endsInDigit_of_isoFraction {us : ℕ} (h : isoFraction s = some us) : EndsInDigit s := by
  unfold isoFraction at h
  obtain ⟨t, ht, h⟩ := Option.bind_eq_some_iff.1 h
  split_ifs at h with hdigits
  have hsuffix : t <:+ s := by
    rcases (Option.orElse_eq_some _ _ _).1 ht with ht | ⟨-, ht⟩
    · exact suffix_of_after ht
    · exact suffix_of_after ht
  exact (endsInDigit_of_all hdigits.1 hdigits.2).of_suffix hsuffix

theorem endsInDigit_of_isoClock {clock : ℕ × ℕ × ℕ × ℕ} (h : isoClock s = some clock) :
    EndsInDigit s := by
  unfold isoClock at h
  obtain ⟨⟨hours, s₁⟩, h₁, h⟩ := Option.bind_eq_some_iff.1 h
  dsimp only at h
  by_cases hnil₁ : s₁ = []
  · rw [hnil₁] at h₁
    exact endsInDigit_of_digits (by decide) h₁
  rw [if_neg hnil₁] at h
  obtain ⟨⟨minutes, s₂⟩, h₂, h⟩ := Option.bind_eq_some_iff.1 h
  have hmore : (s₁.after ':').getD s₁ <:+ s := (suffix_getD_after ':' s₁).trans (suffix_of_digits h₁)
  dsimp only at h
  by_cases hnil₂ : s₂ = []
  · rw [hnil₂] at h₂
    exact (endsInDigit_of_digits (by decide) h₂).of_suffix hmore
  rw [if_neg hnil₂] at h
  -- the seconds, with a colon before them or without
  have hseconds : ∃ s₃, s₃ <:+ s₂ ∧ ((Text.digits 2 s₃).bind fun x =>
      if x.2 = [] then some (hours, minutes, x.1, 0)
      else (isoFraction x.2).bind fun micros => some (hours, minutes, x.1, micros)) =
        some clock := by
    split_ifs at h
    · obtain ⟨s₃, h₃, h⟩ := Option.bind_eq_some_iff.1 h
      exact ⟨s₃, suffix_of_after h₃, h⟩
    · exact ⟨s₂, List.suffix_refl s₂, h⟩
  obtain ⟨s₃, hs₃, h⟩ := hseconds
  obtain ⟨⟨seconds, s₄⟩, h₄, h⟩ := Option.bind_eq_some_iff.1 h
  have hlast : s₃ <:+ s := hs₃.trans ((suffix_of_digits h₂).trans hmore)
  dsimp only at h
  by_cases hnil₄ : s₄ = []
  · rw [hnil₄] at h₄
    exact (endsInDigit_of_digits (by decide) h₄).of_suffix hlast
  rw [if_neg hnil₄] at h
  obtain ⟨us, hus, -⟩ := Option.bind_eq_some_iff.1 h
  exact (endsInDigit_of_isoFraction hus).of_suffix ((suffix_of_digits h₄).trans hlast)

theorem endsInDigit_of_isoDate {d : Date} (h : isoDate s = some d) : EndsInDigit s := by
  unfold isoDate at h
  obtain ⟨⟨year, s₁⟩, h₁, h⟩ := Option.bind_eq_some_iff.1 h
  have hyear : (s₁.after '-').getD s₁ <:+ s := (suffix_getD_after '-' s₁).trans (suffix_of_digits h₁)
  dsimp only at h
  cases hweek : ((s₁.after '-').getD s₁).after 'W' with
  | some s₂ =>
    rw [hweek] at h
    have hs₂ : s₂ <:+ s := (suffix_of_after hweek).trans hyear
    obtain ⟨⟨week, s₃⟩, h₃, h⟩ := Option.bind_eq_some_iff.1 h
    dsimp only at h
    by_cases hnil₃ : s₃ = []
    · rw [hnil₃] at h₃
      exact (endsInDigit_of_digits (by decide) h₃).of_suffix hs₂
    rw [if_neg hnil₃] at h
    have hday : ∃ s₄, s₄ <:+ s₃ ∧ ((Text.digits 1 s₄).bind fun x =>
        if x.2 = [] then Date.ofWeek year week x.1 else none) = some d := by
      split_ifs at h
      · obtain ⟨s₄, h₄, h⟩ := Option.bind_eq_some_iff.1 h
        exact ⟨s₄, suffix_of_after h₄, h⟩
      · exact ⟨s₃, List.suffix_refl s₃, h⟩
    obtain ⟨s₄, hs₄, h⟩ := hday
    obtain ⟨⟨day, s₅⟩, h₅, h⟩ := Option.bind_eq_some_iff.1 h
    dsimp only at h
    split_ifs at h with hnil₅
    rw [hnil₅] at h₅
    exact (endsInDigit_of_digits (by decide) h₅).of_suffix
      (hs₄.trans ((suffix_of_digits h₃).trans hs₂))
  | none =>
    rw [hweek] at h
    obtain ⟨⟨month, s₃⟩, h₃, h⟩ := Option.bind_eq_some_iff.1 h
    dsimp only at h
    have hday : ∃ s₄, s₄ <:+ s₃ ∧ ((Text.digits 2 s₄).bind fun x =>
        if x.2 = [] then Date.make year month x.1 else none) = some d := by
      split_ifs at h
      · obtain ⟨s₄, h₄, h⟩ := Option.bind_eq_some_iff.1 h
        exact ⟨s₄, suffix_of_after h₄, h⟩
      · exact ⟨s₃, List.suffix_refl s₃, h⟩
    obtain ⟨s₄, hs₄, h⟩ := hday
    obtain ⟨⟨day, s₅⟩, h₅, h⟩ := Option.bind_eq_some_iff.1 h
    dsimp only at h
    split_ifs at h with hnil₅
    rw [hnil₅] at h₅
    exact (endsInDigit_of_digits (by decide) h₅).of_suffix
      (hs₄.trans ((suffix_of_digits h₃).trans hyear))

/-- The last character is a digit or a `Z`. -/
def EndsInZone (s : Text) : Prop :=
  ∃ c, s.getLast? = some c ∧ (Text.isDigit c = true ∨ c = CodePoint.of 'Z')

theorem EndsInZone.of_suffix (h : EndsInZone t) (hsuffix : t <:+ s) : EndsInZone s := by
  obtain ⟨c, hlast, hc⟩ := h
  obtain ⟨front, rfl⟩ := hsuffix
  refine ⟨c, ?_, hc⟩
  rw [List.getLast?_append, hlast]
  rfl

theorem EndsInDigit.zone (h : EndsInDigit s) : EndsInZone s := by
  obtain ⟨c, hlast, hdigit⟩ := h
  exact ⟨c, hlast, .inl hdigit⟩

theorem endsInZone_of_isoTime {time : ℕ × Option ℤ} (h : isoTime s = some time) :
    EndsInZone s := by
  unfold isoTime at h
  obtain ⟨clock, hclock, h⟩ := Option.bind_eq_some_iff.1 h
  obtain ⟨offset, hoffset, -⟩ := Option.bind_eq_some_iff.1 h
  have hsplit := List.takeWhile_append_dropWhile (p := fun c => !isSign c) (l := s)
  cases hzone : s.dropWhile fun c => !isSign c with
  | nil =>
    rw [hzone, List.append_nil] at hsplit
    rw [hsplit] at hclock
    exact (endsInDigit_of_isoClock hclock).zone
  | cons c rest =>
    have hsuffix : c :: rest <:+ s := ⟨_, hzone ▸ hsplit⟩
    rw [hzone, isoOffset] at hoffset
    by_cases hzulu : c = CodePoint.of 'Z'
    · rw [if_pos hzulu] at hoffset
      split_ifs at hoffset with hnil
      rw [hnil, hzulu] at hsuffix
      exact EndsInZone.of_suffix ⟨CodePoint.of 'Z', rfl, .inr rfl⟩ hsuffix
    · rw [if_neg hzulu] at hoffset
      obtain ⟨clock', hclock', -⟩ := Option.bind_eq_some_iff.1 hoffset
      exact ((endsInDigit_of_isoClock hclock').of_suffix
        ((List.suffix_cons c rest).trans hsuffix)).zone

/-- **What is read as a time** ends in a digit or a `Z`. -/
theorem endsInZone_of_fromIsoFormat {d : DateTime} (h : fromIsoFormat s = some d) :
    EndsInZone s := by
  unfold fromIsoFormat at h
  split_ifs at h
  obtain ⟨date, hdate, h⟩ := Option.bind_eq_some_iff.1 h
  split_ifs at h with hlength
  · rw [List.take_of_length_le hlength] at hdate
    exact (endsInDigit_of_isoDate hdate).zone
  · obtain ⟨time, htime, -⟩ := Option.bind_eq_some_iff.1 h
    exact (endsInZone_of_isoTime htime).of_suffix (List.drop_suffix _ s)

end Last

/-! ### `Z` -/

section Zulu

variable {s u v : Text}

/-- `+00:00`. -/
def utcOffset : Text := Text.of "+00:00"

theorem takeWhile_digits_append {c : CodePoint} (hc : Text.isDigit c = false) (s rest : Text) :
    (s ++ c :: rest).takeWhile Text.isDigit = s.takeWhile Text.isDigit := by
  rw [List.takeWhile_append, List.takeWhile_cons_of_neg (by simp [hc]), List.append_nil]
  split_ifs with hall
  · exact ((List.takeWhile_prefix _).eq_of_length hall).symm
  · rfl

/-- What follows a date and a clock does not change the length of the date. -/
theorem isoDateLength_append {c d : CodePoint} (hs : 10 ≤ s.length) (hc : Text.isDigit c = false)
    (hd : Text.isDigit d = false) :
    isoDateLength (s ++ c :: u) = isoDateLength (s ++ d :: v) := by
  have hget : ∀ {e : CodePoint} {w : Text}, ∀ i < 10, (s ++ e :: w)[i]? = s[i]? := fun i hi =>
    List.getElem?_append_left (by omega)
  have hten : ∀ {e : CodePoint} {w : Text}, Text.isDigit e = false →
      ((s ++ e :: w)[10]?.map Text.isDigit).getD false = (s[10]?.map Text.isDigit).getD false := by
    intro e w he
    rcases hs.lt_or_eq with hlt | heq
    · rw [List.getElem?_append_left hlt]
    · rw [List.getElem?_append_right heq.symm.le, List.getElem?_eq_none heq.symm.le, ← heq]
      exact he
  have hdigits : ∀ {e : CodePoint} {w : Text}, Text.isDigit e = false →
      ((s ++ e :: w).drop 7).takeWhile Text.isDigit = (s.drop 7).takeWhile Text.isDigit := by
    intro e w he
    rw [List.drop_append_of_le_length (by omega), takeWhile_digits_append he]
  have hlength : ∀ {e : CodePoint} {w : Text}, (s ++ e :: w).length ≠ 7 := fun {e w} => by
    rw [List.length_append, List.length_cons]
    omega
  unfold isoDateLength
  simp only [hget 4 (by decide), hget 5 (by decide), hget 8 (by decide), hten hc, hten hd,
    hdigits hc, hdigits hd, if_neg hlength]

theorem seven_le_isoDateLength (s : Text) : 7 ≤ isoDateLength s := by
  unfold isoDateLength
  dsimp only
  split_ifs <;> omega

theorem isoOffset_zulu_rest {c : CodePoint} {rest : Text} :
    isoOffset (c :: (rest ++ [CodePoint.of 'Z'])) = none := by
  rw [isoOffset]
  by_cases hzulu : c = CodePoint.of 'Z'
  · rw [if_pos hzulu, if_neg (List.append_ne_nil_of_right_ne_nil _ (List.cons_ne_nil _ _))]
  · rw [if_neg hzulu]
    cases hclock : isoClock (rest ++ [CodePoint.of 'Z']) with
    | none => rfl
    | some clock =>
      obtain ⟨d, hlast, hdigit⟩ := endsInDigit_of_isoClock hclock
      rw [List.getLast?_concat] at hlast
      rw [← Option.some.inj hlast] at hdigit
      exact absurd hdigit (by decide)

theorem two_le_length_of_isoClock {clock : ℕ × ℕ × ℕ × ℕ} (h : isoClock s = some clock) :
    2 ≤ s.length := by
  unfold isoClock at h
  obtain ⟨_, hdigits, -⟩ := Option.bind_eq_some_iff.1 h
  unfold Text.digits at hdigits
  split_ifs at hdigits with htwo
  have htake := htwo.1
  rw [List.length_take] at htake
  omega

/-- A time of day with a `Z` has the offset of UTC, however it is written. -/
theorem isoTime_zulu {time : ℕ × Option ℤ} (h : isoTime (s ++ [CodePoint.of 'Z']) = some time) :
    2 ≤ s.length ∧ isoTime (s ++ utcOffset) = some time := by
  have hsplit := List.takeWhile_append_dropWhile (p := fun c => !isSign c) (l := s)
  cases hzone : s.dropWhile fun c => !isSign c with
  | nil =>
    -- the `Z` is the whole of the zone
    rw [hzone, List.append_nil] at hsplit
    have hall : ∀ c ∈ s, (!isSign c) = true := fun c hc => by
      rw [← hsplit] at hc
      exact List.mem_takeWhile_imp (p := fun c => !isSign c) hc
    have hfirst : ∀ rest : Text, ∀ c, isSign c = true →
        (s ++ c :: rest).takeWhile (fun c => !isSign c) = s ∧
          (s ++ c :: rest).dropWhile (fun c => !isSign c) = c :: rest := by
      intro rest c hc
      rw [List.takeWhile_append_of_pos hall, List.dropWhile_append_of_pos hall,
        List.takeWhile_cons_of_neg (by simp [hc]), List.dropWhile_cons_of_neg (by simp [hc]),
        List.append_nil]
      exact ⟨rfl, rfl⟩
    obtain ⟨htake, hdrop⟩ := hfirst [] (CodePoint.of 'Z') (by decide)
    obtain ⟨htake', hdrop'⟩ := hfirst (Text.of "00:00") (CodePoint.of '+') (by decide)
    have hoffset : isoOffset [CodePoint.of 'Z'] = some (some 0) := rfl
    have hoffset' : isoOffset (CodePoint.of '+' :: Text.of "00:00") = some (some 0) := by
      decide +kernel
    have hutc : utcOffset = CodePoint.of '+' :: Text.of "00:00" := rfl
    rw [isoTime, htake, hdrop, hoffset] at h
    rw [hutc, isoTime, htake', hdrop', hoffset']
    obtain ⟨clock, hclock, -⟩ := Option.bind_eq_some_iff.1 h
    exact ⟨two_le_length_of_isoClock hclock, h⟩
  | cons c rest =>
    -- there is a sign before it
    rw [isoTime, List.dropWhile_append, hzone, List.isEmpty_cons, if_neg Bool.false_ne_true,
      List.cons_append, isoOffset_zulu_rest] at h
    obtain ⟨clock, -, h⟩ := Option.bind_eq_some_iff.1 h
    cases h

/-- **A `Z` at the end** is the offset of UTC. -/
theorem fromIsoFormat_zulu {d : DateTime}
    (h : fromIsoFormat (s ++ [CodePoint.of 'Z']) = some d) :
    fromIsoFormat (s ++ utcOffset) = some d := by
  unfold fromIsoFormat at h
  split_ifs at h with hseven
  obtain ⟨date, hdate, h⟩ := Option.bind_eq_some_iff.1 h
  have hlong := seven_le_isoDateLength (s ++ [CodePoint.of 'Z'])
  split_ifs at h with hlength
  · -- a date does not end in a `Z`
    rw [List.take_of_length_le hlength] at hdate
    obtain ⟨c, hlast, hdigit⟩ := endsInDigit_of_isoDate hdate
    rw [List.getLast?_concat] at hlast
    rw [← Option.some.inj hlast] at hdigit
    exact absurd hdigit (by decide)
  · obtain ⟨time, htime, hmake⟩ := Option.bind_eq_some_iff.1 h
    set n := isoDateLength (s ++ [CodePoint.of 'Z']) with hn
    rw [List.length_append, List.length_singleton, not_le, Nat.lt_succ_iff] at hlength
    rcases hlength.lt_or_eq with hlt | heq
    · rw [List.drop_append_of_le_length (Nat.succ_le_of_lt hlt)] at htime
      obtain ⟨htwo, htime⟩ := isoTime_zulu htime
      rw [List.length_drop] at htwo
      have hten : 10 ≤ s.length := by omega
      have hsame : isoDateLength (s ++ utcOffset) = n :=
        isoDateLength_append hten (by decide) (by decide)
      rw [List.take_append_of_le_length hlength] at hdate
      have hlonger : s.length < (s ++ utcOffset).length := by
        rw [List.length_append]
        exact Nat.lt_add_of_pos_right (by decide)
      rw [fromIsoFormat, if_neg (by omega), hsame]
      dsimp only
      rw [List.take_append_of_le_length hlength, hdate, Option.bind_eq_bind, Option.bind_some,
        if_neg (by omega), List.drop_append_of_le_length (Nat.succ_le_of_lt hlt), htime]
      exact hmake
    · -- there is no time
      rw [List.drop_of_length_le (by
        rw [List.length_append, List.length_singleton]
        omega)] at htime
      cases htime

end Zulu

end DateTime

end Tokenweir
