import MemoFlowApi.Leads.Score

/-!
# Due Dates

Adding months leads to the date of the later month that is not past its last day.  The bands of the
due-date rules meet without overlapping.
-/

namespace MemoFlowApi.Leads

open Calendar

/-- The date some months later, at most the last one of its month. -/
def following (d : UtcDate) (months : ℕ) : UtcDate where
  year := d.year + (d.month + months) / 12
  month := (d.month + months) % 12
  date := min d.date (daysInMonth (d.year + (d.month + months) / 12) ((d.month + months) % 12))
  year_le := d.year_le.trans (Nat.le_add_right _ _)
  month_lt := Nat.mod_lt _ (by decide)
  date_pos := le_min d.date_pos
    ((by decide : 1 ≤ 28).trans (daysInMonth_bounds _ (Nat.mod_lt _ (by decide))).1)
  date_le := min_le_right _ _

/-! ## Reading a date -/

section Reading

theorem decimal_twoDigits {n : ℕ} (h : n < 100) : decimal (twoDigits n) = some n := by
  have hall : ∀ n < 100, decimal (twoDigits n) = some n := by decide +kernel
  exact hall n h

theorem digits_of_decimal {digits : List Char} {n : ℕ} (h : decimal digits = some n) :
    digits ≠ [] ∧ digits.all Char.isDigit ∧ digits.foldl (fun n c ↦ 10 * n + (c.toNat - 48)) 0 = n := by
  unfold decimal at h
  split_ifs at h with hdigits
  exact ⟨hdigits.1, hdigits.2, Option.some.inj h⟩

theorem foldl_twoDigits {n : ℕ} (h : n < 100) (m : ℕ) :
    (twoDigits n).foldl (fun n c ↦ 10 * n + (c.toNat - 48)) m = 100 * m + n := by
  have hvalue := (digits_of_decimal (decimal_twoDigits h)).2.2
  unfold twoDigits at hvalue ⊢
  simp only [List.foldl_cons, List.foldl_nil] at hvalue ⊢
  omega

theorem decimal_fourDigits {n : ℕ} (h : n < 10000) : decimal (fourDigits n) = some n := by
  have hhigh := digits_of_decimal (decimal_twoDigits (by omega : n / 100 < 100))
  have hlow := digits_of_decimal (decimal_twoDigits (by omega : n % 100 < 100))
  unfold decimal fourDigits
  rw [if_pos ⟨by simp [twoDigits], by simp [hhigh.2.1, hlow.2.1]⟩, List.foldl_append,
    foldl_twoDigits (by omega), foldl_twoDigits (by omega)]
  congr 1
  omega

/-- Digits contain no dash. -/
theorem isDash_of_decimal {digits : List Char} {n : ℕ} (h : decimal digits = some n) :
    ∀ c ∈ digits, (c == '-') = false := by
  intro c hc
  have hdigit := List.all_eq_true.mp (digits_of_decimal h).2.1 c hc
  refine beq_eq_false_iff_ne.mpr fun hdash ↦ ?_
  subst hdash
  exact absurd hdigit (by decide)

theorem dateParts_text {d : UtcDate} (h : d.year < 10000) :
    dateParts d.text = some (d.year, d.month + 1, d.date) := by
  have hmonth := d.month_lt
  have hdate := (daysInMonth_bounds d.year hmonth).2
  have hle := d.date_le
  have hy := decimal_fourDigits h
  have hm := decimal_twoDigits (by omega : d.month + 1 < 100)
  have hd := decimal_twoDigits (by omega : d.date < 100)
  have hsplit : d.text.splitOn '-' = [fourDigits d.year, twoDigits (d.month + 1), twoDigits d.date] := by
    unfold UtcDate.text List.splitOn
    rw [List.append_assoc, List.cons_append,
      List.splitOnP_append_cons_of_forall_mem (isDash_of_decimal hy) '-' (by decide),
      List.splitOnP_append_cons_of_forall_mem (isDash_of_decimal hm) '-' (by decide),
      List.splitOnP_eq_singleton (isDash_of_decimal hd)]
  unfold dateParts
  rw [hsplit]
  simp [hy, hm, hd]

end Reading

/-! ## Adding months -/

section Months

variable {d e : UtcDate} {n m : ℕ}

/-- The first date of a month. -/
def firstOf (year month : ℕ) (hyear : 1970 ≤ year) (hmonth : month < 12) : UtcDate :=
  ⟨year, month, 1, hyear, hmonth, le_rfl, (by decide : 1 ≤ 28).trans (daysInMonth_bounds year hmonth).1⟩

/-- The last date of a month. -/
def lastOf (year month : ℕ) (hyear : 1970 ≤ year) (hmonth : month < 12) : UtcDate :=
  ⟨year, month, daysInMonth year month, hyear, hmonth,
    (by decide : 1 ≤ 28).trans (daysInMonth_bounds year hmonth).1, le_rfl⟩

/-- Days before the year 10000 are days that a `Date` can hold. -/
theorem day_le_maxDay (h : d.year < 10000) : d.day ≤ maxDay := by
  have hlt := d.day_lt
  have hyear : dayFromYear (d.year + 1) ≤ 366 * (d.year + 1 - 1970) := by
    unfold dayFromYear
    omega
  unfold maxDay
  omega

theorem utc_date (h : d.year < 10000) : utc d.year d.month d.date = some d.day := by
  unfold utc
  rw [UtcDate.makeDay_eq, if_pos (day_le_maxDay h)]

/-- Months beyond the twelfth are those of later years. -/
theorem makeDay_carry (year month date : ℕ) :
    makeDay year month date = makeDay (year + month / 12) (month % 12) date := by
  unfold makeDay
  rw [Nat.div_eq_of_lt (Nat.mod_lt month (by decide)), Nat.mod_mod, Nat.add_zero]

/-- The day before the first day of the next month is the last day of a month. -/
theorem makeDay_succ_zero {year month : ℕ} (hyear : 1970 ≤ year) (hmonth : month < 12) :
    makeDay year (month + 1) 0 = (lastOf year month hyear hmonth).day := by
  have hadd := daysBeforeMonth_add (isLeapYear year) hmonth
  by_cases hdecember : month = 11
  · subst hdecember
    have hadd : daysBeforeMonth (isLeapYear year) 11 + 28 ≤ daysBeforeMonth (isLeapYear year) 12 := hadd
    have htwelve := daysBeforeMonth_twelve year
    have hzero : daysBeforeMonth (isLeapYear (year + 1)) 0 = 0 := by
      cases isLeapYear (year + 1) <;> rfl
    change dayFromYear (year + 1) + daysBeforeMonth (isLeapYear (year + 1)) 0 + 0 - 1 =
      dayFromYear year + daysBeforeMonth (isLeapYear year) 11 +
        (daysBeforeMonth (isLeapYear year) 12 - daysBeforeMonth (isLeapYear year) 11 - 1)
    rw [dayFromYear_succ hyear, hzero, htwelve]
    rw [htwelve] at hadd
    omega
  · unfold makeDay
    rw [Nat.div_eq_of_lt (by omega : month + 1 < 12), Nat.mod_eq_of_lt (by omega : month + 1 < 12),
      Nat.add_zero, Nat.add_zero]
    change _ = dayFromYear year + daysBeforeMonth (isLeapYear year) month +
      (daysBeforeMonth (isLeapYear year) (month + 1) - daysBeforeMonth (isLeapYear year) month - 1)
    omega

theorem toUtcDate_day (h : d.year < 10000) (hnow : day m = d.day) : toUtcDate m = d.text := by
  have hyear : yearFromDay (day m) < 10000 := by rwa [hnow, UtcDate.yearFromDay_day]
  unfold toUtcDate isoString
  rw [if_pos hyear, take_toISOString, hnow, UtcDate.isoDate_day]

/-- Adding months gives the date that many months later. -/
theorem addCalendarMonths_text (h : (following d n).year < 10000) :
    addCalendarMonths d.text n = some (following d n).text := by
  have hd : d.year < 10000 := (Nat.le_add_right _ _).trans_lt h
  have hyear : 1970 ≤ d.year + (d.month + n) / 12 := d.year_le.trans (Nat.le_add_right _ _)
  have hmonth : (d.month + n) % 12 < 12 := Nat.mod_lt _ (by decide)
  let first := firstOf (d.year + (d.month + n) / 12) ((d.month + n) % 12) hyear hmonth
  let last := lastOf (d.year + (d.month + n) / 12) ((d.month + n) % 12) hyear hmonth
  have hfirst : utc d.year (d.month + n) 1 = some first.day := by
    rw [← utc_date (d := first) h]
    unfold utc
    rw [makeDay_carry]
    rfl
  have hlast : utc (yearFromDay first.day) (monthFromDay first.day + 1) 0 = some last.day := by
    rw [UtcDate.yearFromDay_day, UtcDate.monthFromDay_day]
    have hnext : makeDay first.year (first.month + 1) 0 = last.day := makeDay_succ_zero hyear hmonth
    unfold utc
    rw [hnext, if_pos (day_le_maxDay (d := last) h)]
  have htarget : utc (yearFromDay first.day) (monthFromDay first.day) (min d.date (dateFromDay last.day)) =
      some (following d n).day := by
    rw [UtcDate.yearFromDay_day, UtcDate.monthFromDay_day, UtcDate.dateFromDay_day]
    exact utc_date (d := following d n) h
  have hmidnight : day ((following d n).day * msPerDay) = (following d n).day :=
    Nat.mul_div_cancel _ (by decide)
  unfold addCalendarMonths
  simp only [dateParts_text hd, Option.bind_eq_bind, Option.bind_some, Nat.add_sub_cancel, hfirst, hlast,
    htarget, toUtcDate_day h hmidnight, Option.pure_def]

theorem year_le_of_day_le (h : d.day ≤ e.day) : d.year ≤ e.year := by
  by_contra hlt
  have := UtcDate.day_lt_of_before (.inl (not_le.mp hlt) : e.Before d)
  omega

/-- Later dates and more months lead to later dates. -/
theorem following_mono (hday : d.day ≤ e.day) (hmonths : n ≤ m) :
    (following d n).day ≤ (following e m).day := by
  have hfields : d.Before e ∨ d.year = e.year ∧ d.month = e.month ∧ d.date ≤ e.date := by
    rcases d.before_or_eq_or_before e with hbefore | ⟨hyear, hmonth, hdate⟩ | hafter
    · exact .inl hbefore
    · exact .inr ⟨hyear, hmonth, hdate.le⟩
    · exact absurd (UtcDate.day_lt_of_before hafter) (by omega)
  have hd := d.month_lt
  have he := e.month_lt
  by_cases hsame : d.year = e.year ∧ d.month = e.month ∧ d.date ≤ e.date ∧ n = m
  · obtain ⟨hyear, hmonth, hdate, rfl⟩ := hsame
    rcases (following d n).before_or_eq_or_before (following e n) with hbefore | heq | hafter
    · exact (UtcDate.day_lt_of_before hbefore).le
    · rw [UtcDate.eq_of_fields heq]
    · unfold UtcDate.Before following at hafter
      dsimp only at hafter
      rw [hyear, hmonth] at hafter
      omega
  · have hindex : 12 * d.year + d.month + n < 12 * e.year + e.month + m := by
      unfold UtcDate.Before at hfields
      omega
    refine (UtcDate.day_lt_of_before ?_).le
    unfold UtcDate.Before following
    dsimp only
    omega

end Months

/-! ## Bands -/

section Bands

variable {d e today due : UtcDate}

theorem not_text_lt_iff (hd : d.year < 10000) (he : e.year < 10000) :
    ¬e.text < d.text ↔ d.day ≤ e.day := by
  rw [UtcDate.text_lt_iff he hd, Nat.not_lt]

def isDueRule : ScoreRule → Bool
  | .dueWithin3Months => true
  | .dueWithin3To6Months => true
  | _ => false

/-- The entries about the due date. -/
def dueRules (breakdown : List ScoreBreakdownEntry) : List ScoreBreakdownEntry :=
  breakdown.filter (isDueRule ·.rule)

theorem dueRules_otherEntries (facts : LeadScoreFacts) : dueRules (otherEntries facts) = [] := by
  unfold dueRules otherEntries
  simp only [List.filter_append]
  split_ifs <;> rfl

/-- The points of a due date. -/
def bandPoints (today due : UtcDate) : ℕ :=
  if due.day < today.day then 0
  else if due.day < (following today 3).day then 3
  else if due.day ≤ (following today 6).day then 2
  else 0

theorem following_year_lt {months : ℕ} (h : today.year ≤ 9000) (hmonths : months ≤ 6) :
    (following today months).year < 10000 := by
  have := today.month_lt
  unfold following
  dsimp only
  omega

/-- The rules of a due date are those of its band. -/
theorem dueEntries_text (htoday : today.year ≤ 9000) (hdue : due.year ≤ 9000) :
    ∃ entries, dueEntries (some due.text) today.text = some entries ∧ dueRules entries = entries ∧
      entries.length ≤ 1 ∧ totalPoints entries = bandPoints today due := by
  have hthree := following_year_lt htoday (by decide : 3 ≤ 6)
  have hsix := following_year_lt htoday (le_refl 6)
  have hpresent : due.text ≠ [] := by
    unfold UtcDate.text
    simp
  unfold dueEntries bandPoints
  simp only [addCalendarMonths_text hthree, addCalendarMonths_text hsix, Option.bind_eq_bind,
    Option.bind_some, Option.pure_def,
    not_text_lt_iff (by omega : today.year < 10000) (by omega : due.year < 10000),
    UtcDate.text_lt_iff (by omega : due.year < 10000) hthree,
    not_text_lt_iff (by omega : due.year < 10000) hsix, ne_eq, hpresent, not_false_eq_true, true_and]
  by_cases hpast : due.day < today.day
  · rw [if_neg (Nat.not_le.mpr hpast), if_pos hpast]
    exact ⟨[], rfl, rfl, Nat.zero_le 1, rfl⟩
  rw [if_pos (Nat.not_lt.mp hpast), if_neg hpast]
  by_cases hsoon : due.day < (following today 3).day
  · rw [if_pos hsoon, if_pos hsoon]
    exact ⟨[⟨.dueWithin3Months, 3⟩], rfl, rfl, le_rfl, rfl⟩
  rw [if_neg hsoon, if_neg hsoon]
  by_cases hlater : due.day ≤ (following today 6).day
  · rw [if_pos hlater, if_pos hlater]
    exact ⟨[⟨.dueWithin3To6Months, 2⟩], rfl, rfl, le_rfl, rfl⟩
  · rw [if_neg hlater, if_neg hlater]
    exact ⟨[], rfl, rfl, Nat.zero_le 1, rfl⟩

end Bands

/-- Adding months leads to the clamped date of the later month, in order; texts compare as dates; and a
due date gets the points of its band, with one rule at most, in a score that is its breakdown's sum. -/
theorem dueDates {today due : UtcDate} (htoday : today.year ≤ 9000) (hdue : due.year ≤ 9000) :
    (∀ months, (following today months).year < 10000 →
      addCalendarMonths today.text months = some (following today months).text) ∧
      (∀ later : UtcDate, ∀ months months', today.day ≤ later.day → months ≤ months' →
        (following later months').year < 10000 →
          ∃ a b, addCalendarMonths today.text months = some a ∧
            addCalendarMonths later.text months' = some b ∧ ¬b < a) ∧
      (today.text < due.text ↔ today.Before due) ∧
      ∀ facts now, facts.dueDate = some due.text → day now = today.day →
        ∃ result, computeLeadScore facts now = some result ∧
          totalPoints (dueRules result.breakdown) = bandPoints today due ∧
          (dueRules result.breakdown).length ≤ 1 ∧ result.score = totalPoints result.breakdown := by
  refine ⟨fun months h ↦ addCalendarMonths_text h, fun later months months' hday hmonths h ↦ ?_, ?_,
    fun facts now hfact hnow ↦ ?_⟩
  · have hle := following_mono hday hmonths
    have hyear := (year_le_of_day_le hle).trans_lt h
    refine ⟨_, _, addCalendarMonths_text hyear, addCalendarMonths_text h, ?_⟩
    exact (not_text_lt_iff hyear h).mpr hle
  · rw [UtcDate.text_lt_iff (by omega) (by omega), UtcDate.day_lt_iff]
  · obtain ⟨entries, hentries, hrules, hlength, hpoints⟩ := dueEntries_text htoday hdue
    have hdueRules : dueRules (entries ++ otherEntries facts) = entries := by
      have happend : dueRules (entries ++ otherEntries facts) =
          dueRules entries ++ dueRules (otherEntries facts) := List.filter_append ..
      rw [happend, hrules, dueRules_otherEntries, List.append_nil]
    have htext : toUtcDate now = today.text := toUtcDate_day (by omega) hnow
    let score := totalPoints (entries ++ otherEntries facts)
    refine ⟨⟨score, tierForScore score, entries ++ otherEntries facts⟩, ?_, ?_, ?_, rfl⟩
    · unfold computeLeadScore
      rw [hfact, htext, hentries]
      rfl
    · rw [hdueRules, hpoints]
    · rw [hdueRules]
      exact hlength

/-- The first day of the year 9000. -/
def lastMillennium : UtcDate := ⟨9000, 0, 1, by decide, by decide, by decide, by decide⟩

/-- A date in the year 10000 is no text of a date, and sorts before the date it follows. -/
theorem addCalendarMonths_tenThousand : ∃ a b, addCalendarMonths lastMillennium.text 0 = some a ∧
    addCalendarMonths lastMillennium.text 12000 = some b ∧ b < a ∧ b = "+010000-01".toList :=
  ⟨"9000-01-01".toList, "+010000-01".toList, by decide +kernel, by decide +kernel, by decide, rfl⟩

theorem dueDates_sameDay : ∃ result,
    computeLeadScore ⟨none, some lastMillennium.text, none, false, false⟩
      (lastMillennium.day * msPerDay) = some result ∧ result.score = totalPoints result.breakdown := by
  have hyear : lastMillennium.year ≤ 9000 := by decide
  have h := (dueDates hyear hyear).2.2.2
  obtain ⟨result, hresult, -, -, hscore⟩ := h ⟨none, some lastMillennium.text, none, false, false⟩
    (lastMillennium.day * msPerDay) rfl (Nat.mul_div_cancel _ (by decide))
  exact ⟨result, hresult, hscore⟩

end MemoFlowApi.Leads
