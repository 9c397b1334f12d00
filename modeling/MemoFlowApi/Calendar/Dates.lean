import Mathlib.Data.List.Lex
import Mathlib.Order.Lex
import MemoFlowApi.Calendar.Utc

/-!
# Dates

A date is a year, a month and a day of that month.  Dates and days determine each other, and texts of
dates compare as the dates do.
-/

namespace MemoFlowApi.Calendar

/-! ## Days of a month -/

def daysInMonth (year month : ℕ) : ℕ :=
  daysBeforeMonth (isLeapYear year) (month + 1) - daysBeforeMonth (isLeapYear year) month

theorem daysBeforeMonth_add (leap : Bool) {month : ℕ} (h : month < 12) :
    daysBeforeMonth leap month + 28 ≤ daysBeforeMonth leap (month + 1) := by
  have hall : ∀ leap, ∀ month < 12,
      daysBeforeMonth leap month + 28 ≤ daysBeforeMonth leap (month + 1) := by decide
  exact hall leap month h

theorem daysBeforeMonth_mono (leap : Bool) {month month' : ℕ} (h : month ≤ month') (h' : month' ≤ 12) :
    daysBeforeMonth leap month ≤ daysBeforeMonth leap month' := by
  induction month', h using Nat.le_induction with
  | base => exact le_rfl
  | succ month' hle ih =>
    have := daysBeforeMonth_add leap (by omega : month' < 12)
    have := ih (by omega)
    omega

theorem daysBeforeMonth_twelve (year : ℕ) : daysBeforeMonth (isLeapYear year) 12 = daysInYear year := by
  unfold daysInYear
  cases isLeapYear year <;> rfl

theorem daysInMonth_bounds (year : ℕ) {month : ℕ} (h : month < 12) :
    28 ≤ daysInMonth year month ∧ daysInMonth year month ≤ 31 := by
  have hall : ∀ leap, ∀ month < 12,
      28 ≤ daysBeforeMonth leap (month + 1) - daysBeforeMonth leap month ∧
        daysBeforeMonth leap (month + 1) - daysBeforeMonth leap month ≤ 31 := by decide
  exact hall _ month h

/-! ## Dates and days -/

/-- A date from 1970 on; January is month zero. -/
structure UtcDate where
  year : ℕ
  month : ℕ
  date : ℕ
  year_le : 1970 ≤ year
  month_lt : month < 12
  date_pos : 1 ≤ date
  date_le : date ≤ daysInMonth year month

namespace UtcDate

/-- The number of the day. -/
def day (d : UtcDate) : ℕ := dayFromYear d.year + daysBeforeMonth (isLeapYear d.year) d.month + (d.date - 1)

theorem makeDay_eq (d : UtcDate) : makeDay d.year d.month d.date = d.day := by
  have := d.date_pos
  unfold makeDay day
  rw [Nat.div_eq_of_lt d.month_lt, Nat.mod_eq_of_lt d.month_lt, Nat.add_zero]
  omega

/-- The days of a date's year before it. -/
theorem within_lt (d : UtcDate) :
    daysBeforeMonth (isLeapYear d.year) d.month + (d.date - 1) <
      daysBeforeMonth (isLeapYear d.year) (d.month + 1) := by
  have hbefore := daysBeforeMonth_add (isLeapYear d.year) d.month_lt
  have hpos := d.date_pos
  have hle := d.date_le
  unfold daysInMonth at hle
  omega

theorem day_lt (d : UtcDate) : d.day < dayFromYear (d.year + 1) := by
  have hwithin := d.within_lt
  have hmono := daysBeforeMonth_mono (isLeapYear d.year) (by have := d.month_lt; omega : d.month + 1 ≤ 12)
    le_rfl
  rw [daysBeforeMonth_twelve] at hmono
  rw [dayFromYear_succ d.year_le]
  unfold day
  omega

theorem dayFromYear_mono {year year' : ℕ} (h : 1970 ≤ year) (h' : year ≤ year') :
    dayFromYear year ≤ dayFromYear year' := by
  obtain ⟨years, rfl⟩ := Nat.exists_eq_add_of_le h'
  have := dayFromYear_add_le year years h
  omega

theorem yearFromDay_day (d : UtcDate) : yearFromDay d.day = d.year := by
  obtain ⟨hfirst, hnext⟩ := yearFromDay_spec d.day
  have hlt := d.day_lt
  have hyear : 1970 ≤ yearFromDay d.day := Nat.le_add_right _ _
  have hle : dayFromYear d.year ≤ d.day := by
    unfold day
    omega
  refine Nat.le_antisymm (not_lt.mp fun hbefore ↦ ?_) (not_lt.mp fun hafter ↦ ?_)
  · have := dayFromYear_mono (by have := d.year_le; omega : 1970 ≤ d.year + 1) (Nat.succ_le_of_lt hbefore)
    omega
  · have := dayFromYear_mono (by omega : 1970 ≤ yearFromDay d.day + 1) (Nat.succ_le_of_lt hafter)
    omega

theorem dayWithinYear_day (d : UtcDate) :
    dayWithinYear d.day = daysBeforeMonth (isLeapYear d.year) d.month + (d.date - 1) := by
  unfold dayWithinYear
  rw [yearFromDay_day]
  unfold day
  omega

theorem monthFromDay_day (d : UtcDate) : monthFromDay d.day = d.month := by
  have hmonth := d.month_lt
  unfold monthFromDay monthFromDayWithinYear
  rw [yearFromDay_day, dayWithinYear_day, Nat.findGreatest_eq_iff]
  refine ⟨by omega, fun _ ↦ by omega, fun month hlater hle ↦ ?_⟩
  have hwithin := d.within_lt
  have hmono := daysBeforeMonth_mono (isLeapYear d.year) (by omega : d.month + 1 ≤ month) (by omega)
  omega

theorem dateFromDay_day (d : UtcDate) : dateFromDay d.day = d.date := by
  have hpos := d.date_pos
  unfold dateFromDay
  rw [dayWithinYear_day, yearFromDay_day, monthFromDay_day]
  omega

/-- The text of a date before the year 10000. -/
def text (d : UtcDate) : List Char :=
  fourDigits d.year ++ '-' :: twoDigits (d.month + 1) ++ '-' :: twoDigits d.date

theorem isoDate_day (d : UtcDate) : isoDate d.day = d.text := by
  unfold isoDate text
  rw [yearFromDay_day, monthFromDay_day, dateFromDay_day]

/-! ## Order -/

/-- Earlier by year, then by month, then by day of the month. -/
def Before (d e : UtcDate) : Prop :=
  d.year < e.year ∨ d.year = e.year ∧ (d.month < e.month ∨ d.month = e.month ∧ d.date < e.date)

theorem day_lt_of_before {d e : UtcDate} (h : d.Before e) : d.day < e.day := by
  have hpos := d.date_pos
  rcases h with hyear | ⟨hyear, hmonth | ⟨hmonth, hdate⟩⟩
  · have hlt := d.day_lt
    have := dayFromYear_mono (by have := d.year_le; omega : 1970 ≤ d.year + 1) (Nat.succ_le_of_lt hyear)
    unfold day at hlt ⊢
    omega
  · have hwithin := d.within_lt
    have hmono := daysBeforeMonth_mono (isLeapYear d.year) (by omega : d.month + 1 ≤ e.month) (by
      have := e.month_lt
      omega)
    unfold day
    rw [← hyear]
    omega
  · unfold day
    rw [← hyear, ← hmonth]
    omega

theorem before_or_eq_or_before (d e : UtcDate) :
    d.Before e ∨ (d.year = e.year ∧ d.month = e.month ∧ d.date = e.date) ∨ e.Before d := by
  unfold Before
  omega

theorem eq_of_fields {d e : UtcDate} (h : d.year = e.year ∧ d.month = e.month ∧ d.date = e.date) :
    d = e := by
  cases d
  cases e
  simpa using h

theorem day_lt_iff {d e : UtcDate} : d.day < e.day ↔ d.Before e := by
  refine ⟨fun h ↦ ?_, day_lt_of_before⟩
  rcases before_or_eq_or_before d e with hbefore | hsame | hafter
  · exact hbefore
  · rw [eq_of_fields hsame] at h
    exact absurd h (lt_irrefl _)
  · exact absurd (day_lt_of_before hafter) (by omega)

end UtcDate

/-! ## Order of texts -/

theorem append_lt_append_iff {a a' b b' : List Char} (h : a.length = a'.length) :
    a ++ b < a' ++ b' ↔ a < a' ∨ a = a' ∧ b < b' := by
  induction a generalizing a' with
  | nil =>
    obtain rfl := List.length_eq_zero_iff.mp h.symm
    simp
  | cons c a ih =>
    cases a' with
    | nil => cases h
    | cons c' a' =>
      rw [List.cons_append, List.cons_append, List.cons_lt_cons_iff, List.cons_lt_cons_iff,
        ih (Nat.succ.inj h), List.cons.injEq]
      tauto

theorem digitChar_lt_iff {m n : ℕ} (hm : m < 10) (hn : n < 10) : m.digitChar < n.digitChar ↔ m < n := by
  have hdigits : ∀ m < 10, ∀ n < 10, (m.digitChar < n.digitChar ↔ m < n) := by decide
  exact hdigits m hm n hn

theorem twoDigits_lt_iff {m n : ℕ} (hm : m < 100) (hn : n < 100) : twoDigits m < twoDigits n ↔ m < n := by
  unfold twoDigits
  rw [List.cons_lt_cons_iff, List.cons_lt_cons_iff, digitChar_lt_iff (by omega) (by omega),
    digitChar_lt_iff (by omega) (by omega)]
  have hinj : (m / 10).digitChar = (n / 10).digitChar ↔ m / 10 = n / 10 :=
    ⟨digitChar_inj (by omega) (by omega), congrArg _⟩
  rw [hinj]
  simp
  omega

theorem fourDigits_lt_iff {m n : ℕ} (hm : m < 10000) (hn : n < 10000) :
    fourDigits m < fourDigits n ↔ m < n := by
  unfold fourDigits
  rw [append_lt_append_iff (by simp), twoDigits_lt_iff (by omega) (by omega),
    twoDigits_lt_iff (by omega) (by omega)]
  have hinj : twoDigits (m / 100) = twoDigits (n / 100) ↔ m / 100 = n / 100 :=
    ⟨twoDigits_inj (by omega) (by omega), congrArg _⟩
  rw [hinj]
  omega

/-- Texts of dates compare as the dates. -/
theorem UtcDate.text_lt_iff {d e : UtcDate} (hd : d.year < 10000) (he : e.year < 10000) :
    d.text < e.text ↔ d.day < e.day := by
  have hm := d.month_lt
  have hm' := e.month_lt
  have hdate := (daysInMonth_bounds d.year hm).2
  have hdate' := (daysInMonth_bounds e.year hm').2
  have := d.date_le
  have := e.date_le
  have hyear : fourDigits d.year = fourDigits e.year ↔ d.year = e.year :=
    ⟨fourDigits_inj hd he, congrArg _⟩
  have hmonth : twoDigits (d.month + 1) = twoDigits (e.month + 1) ↔ d.month = e.month :=
    ⟨fun h ↦ Nat.succ.inj (twoDigits_inj (by omega) (by omega) h), fun h ↦ by rw [h]⟩
  unfold UtcDate.text
  rw [List.append_assoc, List.append_assoc, append_lt_append_iff (by simp), fourDigits_lt_iff hd he, hyear,
    List.cons_append, List.cons_append, List.cons_lt_cons_iff, append_lt_append_iff (by simp),
    twoDigits_lt_iff (by omega) (by omega), hmonth, List.cons_lt_cons_iff,
    twoDigits_lt_iff (by omega) (by omega), day_lt_iff]
  unfold Before
  simp

end MemoFlowApi.Calendar
