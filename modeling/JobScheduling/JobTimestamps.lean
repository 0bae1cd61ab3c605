import JobScheduling.JobCalendar
import JobScheduling.JobRepository
import Mathlib.Data.Nat.Log

/-! # Stored timestamps

    SQLite compares the stored strings byte by byte.  Among years of one width
    every field of a timestamp has a fixed width, so this is the order of the
    whole seconds (`collate_lt_iff`); from year 1000 on all years have four
    digits (`collate_strftime_lt_iff`).  `decodeTimestamp` reads a stored
    string back, for any year, and gives the whole second that was stored
    (`decodeTimestamp_strftime`). -/

namespace JobTimestamps

open JobConstants JobClock JobCalendar JobRepository FixedWidth

/-! ## Order of the stored strings -/

/-- The bytes of one character. -/
def charBytes (c : Char) : List Nat :=
  (String.utf8EncodeChar c).map UInt8.toNat

/-- SQLite compares texts by their bytes. -/
theorem collate_ofList (cs : List Char) :
    collate (String.ofList cs) = cs.flatMap charBytes := by
  rw [collate, String.toList_ofList]
  rfl

/-- The byte of a decimal digit. -/
def digitByte (n : Nat) : Nat := 48 + n

theorem digitByte_lt (i j : Nat) (h : i < j) (_ : j < 10) :
    digitByte i < digitByte j := by
  rw [digitByte, digitByte]
  omega

theorem charBytes_digitChar : ∀ n < 10,
    charBytes (Nat.digitChar n) = [digitByte n] := by decide

/-- A field of two digits has the bytes of its digits. -/
theorem bytes_pad2 {n : Nat} (h : n < 100) :
    (pad2 n).flatMap charBytes = digits 10 digitByte 2 n := by
  have hdiv : n / 10 < 10 := by omega
  have hmod : n % 10 < 10 := by omega
  rw [pad2, List.flatMap_cons, List.flatMap_singleton,
    charBytes_digitChar _ hdiv, charBytes_digitChar _ hmod]
  simp only [digits, Nat.mod_eq_of_lt hdiv, List.nil_append]

/-- The year is written with `w + 1` digits. -/
def YearWidth (d : Datetime) (w : Nat) : Prop :=
  10 ^ w ≤ d.year ∧ d.year < 10 ^ (w + 1)

/-- From year 1000 on, a year has four digits. -/
theorem yearWidth_of_le {d : Datetime} (hy : 1000 ≤ d.year) : YearWidth d 3 :=
  ⟨hy, Nat.lt_succ_of_le d.year_range.2⟩

/-- `%Y` writes a number with its own digits only. -/
theorem bytes_year {w n : Nat} (h : 10 ^ w ≤ n) (h' : n < 10 ^ (w + 1)) :
    (Nat.toDigits 10 n).flatMap charBytes = digits 10 digitByte (w + 1) n := by
  have hten : 1 < 10 := by decide
  induction w generalizing n with
  | zero =>
      have hn : n < 10 := h'
      rw [Nat.toDigits_of_lt_base hn, List.flatMap_singleton,
        charBytes_digitChar _ hn, digits, digits, Nat.mod_eq_of_lt hn,
        List.nil_append]
  | succ w ih =>
      have hpow : 1 ≤ 10 ^ w := Nat.one_le_pow w 10 (by decide)
      rw [Nat.pow_succ] at h h'
      have hdiv : 10 ^ w ≤ n / 10 := by omega
      have hdiv' : n / 10 < 10 ^ (w + 1) := by omega
      rw [Nat.toDigits_of_base_le hten (by omega), List.flatMap_append,
        ih hdiv hdiv', List.flatMap_singleton,
        charBytes_digitChar _ (Nat.mod_lt n (by decide))]
      rfl

/-- Every field but the year has two digits. -/
theorem field_ranges (d : Datetime) : d.month < 100 ∧ d.day < 100
    ∧ d.hour < 100 ∧ d.minute < 100 ∧ d.second < 100 := by
  have hmonth := d.month_range.2
  have hday := d.day_range.2
  have hlen := daysInMonth_le d.year d.month
  obtain ⟨hh, hmi, hs, -⟩ := d.time_range
  refine ⟨?_, ?_, ?_, ?_, ?_⟩ <;> omega

/-- The bytes of a stored timestamp, field by field. -/
theorem collate_strftime {d : Datetime} {w : Nat} (hy : YearWidth d w) :
    collate d.strftime
      = digits 10 digitByte (w + 1) d.year ++ 45 :: (digits 10 digitByte 2 d.month
        ++ 45 :: (digits 10 digitByte 2 d.day
        ++ 84 :: (digits 10 digitByte 2 d.hour
        ++ 58 :: (digits 10 digitByte 2 d.minute
        ++ 58 :: (digits 10 digitByte 2 d.second
        ++ [46, 48, 48, 48, 90]))))) := by
  obtain ⟨hmonth, hday, hhour, hminute, hsecond⟩ := field_ranges d
  rw [Datetime.strftime, collate_ofList, Datetime.wholeSeconds]
  simp only [List.flatMap_append, List.flatMap_cons,
    bytes_year hy.1 hy.2,
    bytes_pad2 hmonth, bytes_pad2 hday, bytes_pad2 hhour,
    bytes_pad2 hminute, bytes_pad2 hsecond, List.append_assoc]
  rfl

/-- Stored timestamps whose years have one width order as whole seconds do. -/
theorem collate_lt_iff {a b : Datetime} {w : Nat} (ha : YearWidth a w)
    (hb : YearWidth b w) :
    collate a.strftime < collate b.strftime ↔ a.seconds < b.seconds := by
  obtain ⟨hmonth, hday, hhour, hminute, hsecond⟩ := field_ranges a
  obtain ⟨hmonth', hday', hhour', hminute', hsecond'⟩ := field_ranges b
  rw [collate_strftime ha, collate_strftime hb, seconds_lt_iff,
    wholeFields_lt_iff,
    digits_append_lt_iff digitByte_lt ha.2 hb.2,
    List.cons_lt_cons_iff,
    digits_append_lt_iff digitByte_lt hmonth hmonth',
    List.cons_lt_cons_iff,
    digits_append_lt_iff digitByte_lt hday hday',
    List.cons_lt_cons_iff,
    digits_append_lt_iff digitByte_lt hhour hhour',
    List.cons_lt_cons_iff,
    digits_append_lt_iff digitByte_lt hminute hminute',
    List.cons_lt_cons_iff,
    digits_append_lt_iff digitByte_lt hsecond hsecond']
  -- the separators and the constant end are equal
  simp only [lt_irrefl, false_or, true_and, and_false, or_false]

/-- **Stored timestamps order as whole seconds do.** -/
theorem collate_strftime_lt_iff {a b : Datetime} (ha : 1000 ≤ a.year)
    (hb : 1000 ≤ b.year) :
    collate a.strftime < collate b.strftime ↔ a.seconds < b.seconds :=
  collate_lt_iff (yearWidth_of_le ha) (yearWidth_of_le hb)

/-! ## Years of different widths

    A window may start in a year of one width and end in the next year of the
    next width.  Its two texts then compare the wrong way around, and their
    first bytes are the digits 9 and 1. -/

/-- The first digit of the year. -/
def leadingDigit (d : Datetime) : Nat := d.year / 10 ^ Nat.log 10 d.year

/-- The width of a year is that of its decimal digits. -/
theorem yearWidth_log (d : Datetime) : YearWidth d (Nat.log 10 d.year) := by
  have hpos := d.year_range.1
  exact ⟨Nat.pow_log_le_self 10 (by omega),
    Nat.lt_pow_succ_log_self (by decide) d.year⟩

/-- A stored text starts with the leading digit of its year. -/
theorem collate_head (d : Datetime) :
    ∃ rest, collate d.strftime = digitByte (leadingDigit d) :: rest := by
  obtain ⟨rest, hrest⟩ : ∃ rest,
      digits 10 digitByte (Nat.log 10 d.year + 1) d.year
        = digitByte (leadingDigit d) :: rest :=
    digits_succ_eq_cons (yearWidth_log d).2
  rw [collate_strftime (yearWidth_log d), hrest, List.cons_append]
  exact ⟨_, rfl⟩

/-- A smaller text starts with a digit that is not larger. -/
theorem leadingDigit_le {a b : Datetime}
    (h : collate a.strftime < collate b.strftime) :
    leadingDigit a ≤ leadingDigit b := by
  obtain ⟨x, hx⟩ := collate_head a
  obtain ⟨y, hy⟩ := collate_head b
  rw [hx, hy, List.cons_lt_cons_iff, digitByte, digitByte] at h
  omega

/-- From one year to the next, the first digit grows by one at most, or falls
    from 9 to 1 with one more digit. -/
theorem leadingDigit_next {a b : Datetime} (hle : a.year ≤ b.year)
    (hnext : b.year ≤ a.year + 1) :
    (Nat.log 10 a.year = Nat.log 10 b.year
        ∧ leadingDigit b ≤ leadingDigit a + 1)
      ∨ leadingDigit a = 9 ∧ leadingDigit b = 1 := by
  obtain ⟨ha, ha'⟩ := yearWidth_log a
  obtain ⟨hb, hb'⟩ := yearWidth_log b
  rw [leadingDigit, leadingDigit]
  rcases Nat.eq_or_lt_of_le (Nat.log_mono_right (b := 10) hle) with heq | hlt
  · left
    rw [← heq]
    refine ⟨rfl, ?_⟩
    calc b.year / 10 ^ Nat.log 10 a.year
        ≤ (a.year + 10 ^ Nat.log 10 a.year) / 10 ^ Nat.log 10 a.year := by
          refine Nat.div_le_div_right ?_
          have hpow : 1 ≤ 10 ^ Nat.log 10 a.year := Nat.one_le_pow _ _ (by decide)
          omega
      _ = a.year / 10 ^ Nat.log 10 a.year + 1 :=
          Nat.add_div_right _ (Nat.pow_pos (by decide))
  · right
    -- the later year is the power of ten between the two
    have hpow : 10 ^ (Nat.log 10 a.year + 1) ≤ 10 ^ Nat.log 10 b.year :=
      Nat.pow_le_pow_right (by decide) hlt
    have hyear : b.year = 10 ^ Nat.log 10 b.year := by omega
    have hyear' : a.year + 1 = 10 ^ Nat.log 10 a.year * 10 := by
      rw [← Nat.pow_succ]
      omega
    refine ⟨?_, ?_⟩
    · refine Nat.div_eq_of_lt_le ?_ ?_
      · omega
      · omega
    · exact Nat.div_eq_of_lt_le (by omega) (by omega)

/-- When the texts of two windows of at most a day overlap, neither window
    wraps around. -/
theorem lt_of_overlap {s e s' e' : Datetime} (h : s.seconds < e.seconds)
    (hday : e.seconds ≤ s.seconds + 24 * 3600) (h' : s'.seconds < e'.seconds)
    (hday' : e'.seconds ≤ s'.seconds + 24 * 3600)
    (hover : collate s.strftime < collate e'.strftime)
    (hover' : collate s'.strftime < collate e.strftime) :
    collate s.strftime < collate e.strftime := by
  rcases leadingDigit_next (year_le_of_seconds (Nat.le_of_lt h))
      (year_le_succ hday) with
    ⟨hwidth, -⟩ | ⟨hnine, hone⟩
  · have hs := yearWidth_log s
    rw [hwidth] at hs
    exact (collate_lt_iff hs (yearWidth_log e)).mpr h
  · -- the other window would have to go from a digit 1 to a digit 9
    have hlow := leadingDigit_le hover'
    have hhigh := leadingDigit_le hover
    rcases leadingDigit_next (year_le_of_seconds (Nat.le_of_lt h'))
        (year_le_succ hday') with
      ⟨-, hstep⟩ | ⟨hnine', -⟩
    · omega
    · omega

/-! ## Reading a stored string back -/

/-- The whole second a stored timestamp denotes: the numbers between its
    separators are the fields of the date and the time. -/
def decodeTimestamp (s : String) : Option Nat :=
  match (s.toList.splitOnP (fun c => !c.isDigit)).map
      (fun field => Nat.ofDigitChars 10 field 0) with
  | [year, month, day, hour, minute, second, _, _] =>
      some ((((daysBeforeYear year + daysBeforeMonth year month + day) * 24
        + hour) * 60 + minute) * 60 + second)
  | _ => none

/-- Two digits are read back. -/
theorem ofDigitChars_pad2 {n : Nat} (h : n < 100) :
    Nat.ofDigitChars 10 (pad2 n) 0 = n := by
  have hdiv : n / 10 < 10 := by omega
  have hmod : n % 10 < 10 := by omega
  rw [pad2, Nat.ofDigitChars_cons_digitChar_of_lt_ten hdiv,
    Nat.ofDigitChars_cons_digitChar_of_lt_ten hmod, Nat.ofDigitChars_nil]
  omega

theorem isDigit_digitChar : ∀ n < 10, (Nat.digitChar n).isDigit = true := by
  decide

theorem isDigit_pad2 {n : Nat} (h : n < 100) :
    ∀ c ∈ pad2 n, c.isDigit = true := by
  intro c hc
  rw [pad2, List.mem_cons, List.mem_singleton] at hc
  rcases hc with rfl | rfl
  · exact isDigit_digitChar _ (by omega)
  · exact isDigit_digitChar _ (by omega)

/-- A field is split off at its separator. -/
theorem split_field {field : List Char} (h : ∀ c ∈ field, c.isDigit = true)
    {sep : Char} (hsep : sep.isDigit = false) (rest : List Char) :
    (field ++ sep :: rest).splitOnP (fun c => !c.isDigit)
      = field :: rest.splitOnP (fun c => !c.isDigit) := by
  refine List.splitOnP_append_cons_of_forall_mem ?_ sep ?_ rest
  · intro c hc
    rw [h c hc]
    rfl
  · rw [hsep]
    rfl

/-- The fields down to the whole second are split off one by one. -/
theorem split_wholeSeconds (d : Datetime) (rest : List Char) :
    (d.wholeSeconds ++ rest).splitOnP (fun c => !c.isDigit)
      = Nat.toDigits 10 d.year :: pad2 d.month :: pad2 d.day :: pad2 d.hour
        :: pad2 d.minute :: pad2 d.second
        :: rest.splitOnP (fun c => !c.isDigit) := by
  have hyear : ∀ c ∈ Nat.toDigits 10 d.year, c.isDigit = true := fun c hc =>
    Nat.isDigit_of_mem_toDigits (by decide) (by decide) hc
  obtain ⟨hmonth, hday, hhour, hminute, hsecond⟩ := field_ranges d
  rw [Datetime.wholeSeconds]
  simp only [List.append_assoc, List.cons_append, List.nil_append]
  rw [split_field hyear rfl, split_field (isDigit_pad2 hmonth) rfl,
    split_field (isDigit_pad2 hday) rfl, split_field (isDigit_pad2 hhour) rfl,
    split_field (isDigit_pad2 hminute) rfl,
    split_field (isDigit_pad2 hsecond) rfl]

/-- **Reading back what was stored** gives the whole second. -/
theorem decodeTimestamp_strftime (d : Datetime) :
    decodeTimestamp d.strftime = some d.seconds := by
  obtain ⟨hmonth, hday, hhour, hminute, hsecond⟩ := field_ranges d
  have hend : "000Z".toList.splitOnP (fun c => !c.isDigit)
      = [['0', '0', '0'], []] := by decide
  rw [decodeTimestamp, Datetime.strftime, String.toList_ofList,
    split_wholeSeconds, hend]
  simp only [List.map_cons, List.map_nil, Nat.ofDigitChars_ten_toDigits,
    ofDigitChars_pad2 hmonth, ofDigitChars_pad2 hday,
    ofDigitChars_pad2 hhour, ofDigitChars_pad2 hminute,
    ofDigitChars_pad2 hsecond]
  rfl

end JobTimestamps
