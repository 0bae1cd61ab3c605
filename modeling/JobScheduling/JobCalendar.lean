import JobScheduling.JobClock
import JobScheduling.FixedWidth

/-! # Calendar order and time order

    `datetime` compares field tuples and subtracts instants; the service uses
    both.  They agree: the field tuple orders as the instant does
    (`before_iff`), and the tuple without the microseconds as the whole second
    does (`seconds_lt_iff`).  The whole second of an instant is its quotient
    (`instant_eq`), so cutting to seconds is monotone. -/

namespace JobCalendar

open JobConstants JobClock FixedWidth

/-! ## Days -/

theorem daysInMonth_le (year month : Nat) : daysInMonth year month ≤ 31 := by
  unfold daysInMonth
  split
  · split <;> omega
  all_goals omega

/-- A month starts when the one before it is over. -/
theorem daysBeforeMonth_succ (year : Nat) {m : Nat} (hm : 1 ≤ m) :
    daysBeforeMonth year (m + 1) = daysBeforeMonth year m + daysInMonth year m := by
  cases m with
  | zero => omega
  | succ m => rfl

/-- A month ends before any later one starts. -/
theorem daysBeforeMonth_lt (year : Nat) {m m' : Nat} (hm : 1 ≤ m)
    (h : m < m') :
    daysBeforeMonth year m + daysInMonth year m ≤ daysBeforeMonth year m' := by
  induction m' with
  | zero => omega
  | succ n ih =>
      rw [daysBeforeMonth_succ year (by omega)]
      rcases Nat.lt_or_ge m n with hlt | hge
      · have hrest := ih hlt
        omega
      · have heq : m = n := by omega
        rw [heq]

/-- A year has 365 days, a leap year one more. -/
theorem daysInYear (year : Nat) :
    daysBeforeMonth year 13 = if isLeap year then 366 else 365 := by
  cases h : isLeap year with
  | true => simp [daysBeforeMonth, daysInMonth, h]
  | false => simp [daysBeforeMonth, daysInMonth, h]

/-- A quotient grows by one at each multiple of the divisor. -/
theorem succ_div_eq (n k : Nat) :
    (n + 1) / k = n / k + if (n + 1) % k = 0 then 1 else 0 := by
  rw [Nat.succ_div]
  simp only [Nat.dvd_iff_mod_eq_zero]

/-- A year starts when the one before it is over. -/
theorem daysBeforeYear_succ {year : Nat} (hy : 1 ≤ year) :
    daysBeforeYear (year + 1) = daysBeforeYear year + daysBeforeMonth year 13 := by
  obtain ⟨n, rfl⟩ : ∃ n, year = n + 1 := ⟨year - 1, by omega⟩
  have hle : n / 100 ≤ n / 4 := by omega
  have h100 : (n + 1) % 100 = 0 → (n + 1) % 4 = 0 := by omega
  have h400 : (n + 1) % 400 = 0 → (n + 1) % 100 = 0 := by omega
  rw [daysInYear, daysBeforeYear, daysBeforeYear, Nat.add_sub_cancel,
    Nat.add_sub_cancel, succ_div_eq n 4, succ_div_eq n 100, succ_div_eq n 400]
  -- the three leap rules
  simp only [isLeap, Bool.and_eq_true, Bool.or_eq_true, beq_iff_eq, bne_iff_ne]
  generalize n / 4 = x at hle ⊢
  generalize n / 100 = y at hle ⊢
  generalize n / 400 = z
  by_cases c4 : (n + 1) % 4 = 0
  · by_cases c100 : (n + 1) % 100 = 0
    · by_cases c400 : (n + 1) % 400 = 0
      · rw [if_pos c4, if_pos c100, if_pos c400, if_pos ⟨c4, Or.inr c400⟩]
        omega
      · rw [if_pos c4, if_pos c100, if_neg c400,
          if_neg (fun h => h.2.elim (fun h' => h' c100) c400)]
        omega
    · have c400 : ¬ (n + 1) % 400 = 0 := fun h => c100 (h400 h)
      rw [if_pos c4, if_neg c100, if_neg c400, if_pos ⟨c4, Or.inl c100⟩]
      omega
  · have c100 : ¬ (n + 1) % 100 = 0 := fun h => c4 (h100 h)
    have c400 : ¬ (n + 1) % 400 = 0 := fun h => c100 (h400 h)
    rw [if_neg c4, if_neg c100, if_neg c400, if_neg (fun h => c4 h.1)]
    omega

/-- A year ends before any later one starts. -/
theorem daysBeforeYear_lt {y y' : Nat} (hy : 1 ≤ y) (h : y < y') :
    daysBeforeYear y + daysBeforeMonth y 13 ≤ daysBeforeYear y' := by
  induction y' with
  | zero => omega
  | succ n ih =>
      rw [daysBeforeYear_succ (by omega)]
      rcases Nat.lt_or_ge y n with hlt | hge
      · have hrest := ih hlt
        omega
      · have heq : y = n := by omega
        rw [heq]

/-- A date lies in its month, and in its year. -/
theorem day_le_month (d : Datetime) :
    daysBeforeMonth d.year d.month + d.day
      ≤ daysBeforeMonth d.year (d.month + 1) := by
  rw [daysBeforeMonth_succ d.year d.month_range.1]
  have hday := d.day_range.2
  omega

/-- A date is in its year. -/
theorem day_le_year (d : Datetime) :
    daysBeforeMonth d.year d.month + d.day ≤ daysBeforeMonth d.year 13 := by
  refine Nat.le_trans (day_le_month d) ?_
  rcases Nat.lt_or_ge (d.month + 1) 13 with hlt | hge
  · have hnext := daysBeforeMonth_lt d.year (m := d.month + 1) (by omega) hlt
    omega
  · have hrange := d.month_range.2
    have heq : d.month + 1 = 13 := by omega
    rw [heq]

/-! ## Seconds and instants -/

/-- The fields down to the whole second. -/
def wholeFields (d : Datetime) : List Nat :=
  [d.year, d.month, d.day, d.hour, d.minute, d.second]

/-- The fields are compared from the year down to the second. -/
theorem wholeFields_lt_iff {a b : Datetime} :
    wholeFields a < wholeFields b ↔
      a.year < b.year ∨ a.year = b.year ∧ (a.month < b.month
        ∨ a.month = b.month ∧ (a.day < b.day
        ∨ a.day = b.day ∧ (a.hour < b.hour
        ∨ a.hour = b.hour ∧ (a.minute < b.minute
        ∨ a.minute = b.minute ∧ a.second < b.second)))) := by
  simp only [wholeFields, List.cons_lt_cons_iff, List.not_lt_nil, and_false,
    or_false]

/-- A later day has a larger ordinal. -/
theorem toordinal_lt {a b : Datetime}
    (h : a.year < b.year ∨ a.year = b.year ∧ (a.month < b.month
      ∨ a.month = b.month ∧ a.day < b.day)) : a.toordinal < b.toordinal := by
  rw [Datetime.toordinal, Datetime.toordinal]
  have hday := b.day_range.1
  rcases h with hy | ⟨hy, hm | ⟨hm, hd⟩⟩
  · have hyear := daysBeforeYear_lt a.year_range.1 hy
    have hin := day_le_year a
    omega
  · have hmonth := daysBeforeMonth_lt a.year a.month_range.1 hm
    have hin := a.day_range.2
    rw [hy] at hmonth hin ⊢
    omega
  · rw [hy, hm]
    omega

/-- The whole second follows the fields down to it. -/
theorem seconds_lt_of_fields {a b : Datetime}
    (h : wholeFields a < wholeFields b) : a.seconds < b.seconds := by
  rw [Datetime.seconds, Datetime.seconds]
  obtain ⟨hh, hmi, hs, -⟩ := a.time_range
  rw [wholeFields_lt_iff] at h
  rcases h with hy | ⟨hy, hm | ⟨hm, hd | ⟨hd, htime⟩⟩⟩
  · have hday := toordinal_lt (Or.inl hy)
    omega
  · have hday := toordinal_lt (Or.inr ⟨hy, Or.inl hm⟩)
    omega
  · have hday := toordinal_lt (Or.inr ⟨hy, Or.inr ⟨hm, hd⟩⟩)
    omega
  · have hday : a.toordinal = b.toordinal := by
      rw [Datetime.toordinal, Datetime.toordinal, hy, hm, hd]
    omega

/-- The fields determine the second. -/
theorem seconds_eq_of_fields {a b : Datetime}
    (h : wholeFields a = wholeFields b) : a.seconds = b.seconds := by
  simp only [wholeFields, List.cons.injEq, and_true] at h
  obtain ⟨hy, hm, hd, hh, hmi, hs⟩ := h
  rw [Datetime.seconds, Datetime.seconds, Datetime.toordinal,
    Datetime.toordinal, hy, hm, hd, hh, hmi, hs]

/-- Whole seconds compare as the fields down to them. -/
theorem seconds_lt_iff (a b : Datetime) :
    a.seconds < b.seconds ↔ wholeFields a < wholeFields b :=
  lt_iff_of_mono (f := wholeFields) (g := Datetime.seconds)
    (fun _ _ => seconds_lt_of_fields) (fun _ _ => seconds_eq_of_fields) a b

/-- Time order carries the years with it. -/
theorem year_le_of_seconds {a b : Datetime} (h : a.seconds ≤ b.seconds) :
    a.year ≤ b.year := by
  by_contra hlt
  have hfields : wholeFields b < wholeFields a :=
    wholeFields_lt_iff.mpr (Or.inl (Nat.lt_of_not_le hlt))
  have hseconds := seconds_lt_of_fields hfields
  omega

/-- A second time within a day of the first is at most one year on. -/
theorem year_le_succ {a b : Datetime} (h : b.seconds ≤ a.seconds + 24 * 3600) :
    b.year ≤ a.year + 1 := by
  by_contra hlt
  have hyear : daysBeforeYear a.year + daysBeforeMonth a.year 13
      ≤ daysBeforeYear (a.year + 1) :=
    daysBeforeYear_lt a.year_range.1 (Nat.lt_succ_self a.year)
  have hnext : daysBeforeYear (a.year + 1) + daysBeforeMonth (a.year + 1) 13
      ≤ daysBeforeYear b.year := daysBeforeYear_lt (by omega) (by omega)
  have hin := day_le_year a
  have hday := b.day_range.1
  have hlen : 365 ≤ daysBeforeMonth (a.year + 1) 13 := by
    rw [daysInYear]
    split <;> omega
  obtain ⟨hh, hmi, hs, -⟩ := a.time_range
  rw [Datetime.seconds, Datetime.seconds, Datetime.toordinal,
    Datetime.toordinal] at h
  omega

theorem microsecond_lt (d : Datetime) : d.microsecond < 1000000 := by
  have hmicro := d.time_range.2.2.2
  rw [microsecondsPerSecond] at hmicro
  exact hmicro

theorem instant_eq (d : Datetime) :
    d.instant = d.seconds * 1000000 + d.microsecond := by
  rw [Datetime.instant, microsecondsPerSecond]

/-- Cutting to whole seconds keeps the order. -/
theorem seconds_le_of_instant {a b : Datetime} (h : a.instant ≤ b.instant) :
    a.seconds ≤ b.seconds := by
  have ha := instant_eq a
  have hb := instant_eq b
  have hmicro := microsecond_lt b
  omega

/-- All seven fields: the whole ones first, then the microsecond. -/
theorem fields_lt_iff (a b : Datetime) :
    a.fields < b.fields ↔ wholeFields a < wholeFields b
      ∨ wholeFields a = wholeFields b ∧ a.microsecond < b.microsecond := by
  have hsplit : ∀ d : Datetime, d.fields = wholeFields d ++ [d.microsecond] :=
    fun d => rfl
  have hlen : (wholeFields a).length = (wholeFields b).length := rfl
  rw [hsplit, hsplit, append_lt_append_iff hlen, List.cons_lt_cons_iff]
  simp only [List.not_lt_nil, and_false, or_false]

/-- **Comparing two datetimes compares their instants.** -/
theorem before_iff (a b : Datetime) :
    a.before b = true ↔ a.instant < b.instant := by
  rw [Datetime.before, decide_eq_true_eq]
  refine (lt_iff_of_mono (f := Datetime.fields) (g := Datetime.instant)
    ?_ ?_ a b).symm
  · intro a b h
    have ha := instant_eq a
    have hb := instant_eq b
    have hmicro := microsecond_lt a
    rcases (fields_lt_iff a b).mp h with hlt | ⟨heq, hlt⟩
    · have hsec := seconds_lt_of_fields hlt
      omega
    · have hsec := seconds_eq_of_fields heq
      omega
  · intro a b h
    have hsplit : wholeFields a = wholeFields b
        ∧ a.microsecond = b.microsecond := by
      simp only [Datetime.fields, List.cons.injEq, and_true] at h
      simp only [wholeFields, List.cons.injEq, and_true]
      obtain ⟨hy, hm, hd, hh, hmi, hs, hmu⟩ := h
      exact ⟨⟨hy, hm, hd, hh, hmi, hs⟩, hmu⟩
    rw [Datetime.instant, Datetime.instant, seconds_eq_of_fields hsplit.1,
      hsplit.2]

theorem notAfter_false_iff (a b : Datetime) :
    a.notAfter b = false ↔ b.instant < a.instant := by
  rw [Datetime.notAfter, Bool.not_eq_false', before_iff]

end JobCalendar
