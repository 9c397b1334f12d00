import Mathlib.Data.Nat.Find
import Mathlib.Order.Monotone.Basic

/-!
# The UTC Calendar

The date of a time, as the language's `Date` computes it: a year is found by the number of its first
day, and a month by the number of the days before it.  The date of a day determines the day.  Times
are milliseconds since 1970.
-/

namespace MemoFlowApi.Calendar

def msPerDay : ℕ := 86400000

/-- The number of the day of a time. -/
def day (time : ℕ) : ℕ := time / msPerDay

/-! ## Years -/

/-- The number of the first day of a year. -/
def dayFromYear (year : ℕ) : ℕ :=
  365 * (year - 1970) + (year - 1969) / 4 - (year - 1901) / 100 + (year - 1601) / 400

def isLeapYear (year : ℕ) : Bool :=
  year % 4 = 0 && (year % 100 ≠ 0 || year % 400 = 0)

def daysInYear (year : ℕ) : ℕ := if isLeapYear year then 366 else 365

/-- The last year that has begun on a day. -/
def yearFromDay (day : ℕ) : ℕ :=
  1970 + Nat.findGreatest (fun years ↦ dayFromYear (1970 + years) ≤ day) (day / 365)

/-- Going to the next year, a count of periods grows in the years that end one. -/
theorem sub_div_succ {year : ℕ} (first period : ℕ) (positive : 0 < first) (h : first ≤ year)
    (aligned : period ∣ first - 1) :
    (year + 1 - first) / period = (year - first) / period + if period ∣ year then 1 else 0 := by
  obtain ⟨years, rfl⟩ := Nat.exists_eq_add_of_le h
  have hyears : first + years - first = years := by omega
  have hnext : first + years + 1 - first = years + 1 := by omega
  have hsplit : first + years = first - 1 + (years + 1) := by omega
  rw [hyears, hnext, Nat.succ_div]
  congr 2
  rw [hsplit, Nat.dvd_add_right aligned]

/-- A year adds its own length to the days before it. -/
theorem add_daysInYear {days olympiads centuries cycles : ℕ} (year : ℕ) (h : centuries ≤ days) :
    days + 365 + (olympiads + if 4 ∣ year then 1 else 0) -
        (centuries + if 100 ∣ year then 1 else 0) + (cycles + if 400 ∣ year then 1 else 0) =
      days + olympiads - centuries + cycles + daysInYear year := by
  have hcentury : year % 100 = 0 → year % 4 = 0 := by omega
  have hcycle : year % 400 = 0 → year % 100 = 0 := by omega
  unfold daysInYear isLeapYear
  simp only [Nat.dvd_iff_mod_eq_zero]
  by_cases hfour : year % 4 = 0
  · by_cases hhundred : year % 100 = 0
    · by_cases hfourhundred : year % 400 = 0
      · simp [hfour, hhundred, hfourhundred]
        omega
      · simp [hfour, hhundred, hfourhundred]
        omega
    · simp [hfour, hhundred, mt hcycle hhundred]
      omega
  · simp [hfour, mt hcentury hfour, mt (hcentury ∘ hcycle) hfour]
    omega

theorem dayFromYear_succ {year : ℕ} (h : 1970 ≤ year) :
    dayFromYear (year + 1) = dayFromYear year + daysInYear year := by
  have hle : (year - 1901) / 100 ≤ 365 * (year - 1970) := by omega
  have hfirst : 365 * (year + 1 - 1970) = 365 * (year - 1970) + 365 := by omega
  unfold dayFromYear
  rw [hfirst, sub_div_succ 1969 4 (by decide) (by omega) (by decide),
    sub_div_succ 1901 100 (by decide) (by omega) (by decide),
    sub_div_succ 1601 400 (by decide) (by omega) (by decide)]
  exact add_daysInYear year hle

theorem dayFromYear_add_le (year years : ℕ) (h : 1970 ≤ year) :
    dayFromYear year + 365 * years ≤ dayFromYear (year + years) := by
  induction years with
  | zero => rw [Nat.mul_zero, Nat.add_zero, Nat.add_zero]
  | succ years ih =>
    have hlength : 365 ≤ daysInYear (year + years) := by
      unfold daysInYear
      split <;> omega
    calc
      _ = dayFromYear year + 365 * years + 365 := by rw [Nat.mul_succ, Nat.add_assoc]
      _ ≤ dayFromYear (year + years) + daysInYear (year + years) := Nat.add_le_add ih hlength
      _ = _ := (dayFromYear_succ (h.trans (Nat.le_add_right year years))).symm

theorem yearFromDay_spec (day : ℕ) :
    dayFromYear (yearFromDay day) ≤ day ∧ day < dayFromYear (yearFromDay day + 1) := by
  have hzero : dayFromYear (1970 + 0) ≤ day := Nat.zero_le day
  unfold yearFromDay
  constructor
  · exact Nat.findGreatest_spec (P := fun years ↦ dayFromYear (1970 + years) ≤ day)
      (Nat.zero_le _) hzero
  · by_contra hle
    rw [not_lt, Nat.add_assoc] at hle
    have hyears := dayFromYear_add_le 1970
      (Nat.findGreatest (fun years ↦ dayFromYear (1970 + years) ≤ day) (day / 365) + 1) le_rfl
    have hgreatest := Nat.le_findGreatest
      (P := fun years ↦ dayFromYear (1970 + years) ≤ day) (by omega : _ ≤ day / 365) hle
    omega

/-- The days before a day within its year. -/
def dayWithinYear (day : ℕ) : ℕ := day - dayFromYear (yearFromDay day)

theorem dayWithinYear_lt (day : ℕ) : dayWithinYear day < daysInYear (yearFromDay day) := by
  obtain ⟨hfirst, hnext⟩ := yearFromDay_spec day
  have hyear : 1970 ≤ yearFromDay day := Nat.le_add_right _ _
  rw [dayFromYear_succ hyear] at hnext
  unfold dayWithinYear
  omega

/-! ## Months -/

/-- The days of a year before a month; January is month zero. -/
def daysBeforeMonth (leap : Bool) (month : ℕ) : ℕ :=
  [0, 31, 59, 90, 120, 151, 181, 212, 243, 273, 304, 334].getD month 365 +
    if leap && 2 ≤ month then 1 else 0

/-- The last month that has begun on a day of a year. -/
def monthFromDayWithinYear (leap : Bool) (dayWithinYear : ℕ) : ℕ :=
  Nat.findGreatest (fun month ↦ daysBeforeMonth leap month ≤ dayWithinYear) 11

def monthFromDay (day : ℕ) : ℕ :=
  monthFromDayWithinYear (isLeapYear (yearFromDay day)) (dayWithinYear day)

/-- The day of the month, counted from one. -/
def dateFromDay (day : ℕ) : ℕ :=
  dayWithinYear day - daysBeforeMonth (isLeapYear (yearFromDay day)) (monthFromDay day) + 1

theorem monthFromDay_lt (day : ℕ) : monthFromDay day < 12 := by
  unfold monthFromDay monthFromDayWithinYear
  exact Nat.lt_succ_of_le (Nat.findGreatest_le 11)

theorem daysBeforeMonth_le (day : ℕ) :
    daysBeforeMonth (isLeapYear (yearFromDay day)) (monthFromDay day) ≤ dayWithinYear day := by
  have hzero : daysBeforeMonth (isLeapYear (yearFromDay day)) 0 ≤ dayWithinYear day := by
    cases isLeapYear (yearFromDay day) <;> exact Nat.zero_le _
  exact Nat.findGreatest_spec
    (P := fun month ↦ daysBeforeMonth (isLeapYear (yearFromDay day)) month ≤ dayWithinYear day)
    (Nat.zero_le 11) hzero

/-- `Date.UTC` of a year, a month and a day of the month, as a number of days. -/
def makeDay (year month date : ℕ) : ℕ :=
  dayFromYear (year + month / 12) +
    daysBeforeMonth (isLeapYear (year + month / 12)) (month % 12) + date - 1

/-- The date of a day is the day's own, and the following dates are those of the following days. -/
theorem makeDay_dateFromDay (day days : ℕ) :
    makeDay (yearFromDay day) (monthFromDay day) (dateFromDay day + days) = day + days := by
  have hmonth := monthFromDay_lt day
  have hfirst := (yearFromDay_spec day).1
  have hbefore := daysBeforeMonth_le day
  unfold makeDay dateFromDay
  rw [Nat.div_eq_of_lt hmonth, Nat.mod_eq_of_lt hmonth, Nat.add_zero]
  unfold dayWithinYear at hbefore ⊢
  omega

/-- No month has more than one hundred days. -/
theorem dateFromDay_lt (day : ℕ) : dateFromDay day < 100 := by
  have hlength : ∀ leap, ∀ month < 11,
      daysBeforeMonth leap (month + 1) ≤ daysBeforeMonth leap month + 31 := by decide
  have hlast : ∀ leap, 334 ≤ daysBeforeMonth leap 11 := by decide
  have hyear : dayWithinYear day < 366 + 1 := by
    have hlt := dayWithinYear_lt day
    unfold daysInYear at hlt
    split at hlt <;> omega
  have hgreatest : monthFromDay day < 11 → dayWithinYear day <
      daysBeforeMonth (isLeapYear (yearFromDay day)) (monthFromDay day + 1) := by
    intro hmonth
    exact not_le.mp (Nat.findGreatest_is_greatest
      (P := fun month ↦ daysBeforeMonth (isLeapYear (yearFromDay day)) month ≤ dayWithinYear day)
      (Nat.lt_succ_self _) hmonth)
  have hmonth := monthFromDay_lt day
  unfold dateFromDay
  generalize isLeapYear (yearFromDay day) = leap at hgreatest ⊢
  generalize monthFromDay day = month at hgreatest hmonth ⊢
  by_cases heleven : month = 11
  · subst heleven
    have := hlast leap
    omega
  · have hlt : month < 11 := by omega
    have := hgreatest hlt
    have := hlength leap month hlt
    omega

/-! ## Text -/

def twoDigits (n : ℕ) : List Char := [Nat.digitChar (n / 10), Nat.digitChar (n % 10)]

def threeDigits (n : ℕ) : List Char := Nat.digitChar (n / 100) :: twoDigits (n % 100)

def fourDigits (n : ℕ) : List Char := twoDigits (n / 100) ++ twoDigits (n % 100)

def isoDate (day : ℕ) : List Char :=
  fourDigits (yearFromDay day) ++ '-' :: twoDigits (monthFromDay day + 1) ++
    '-' :: twoDigits (dateFromDay day)

/-- `toISOString` of a time before the year 10000. -/
def toISOString (time : ℕ) : List Char :=
  isoDate (day time) ++ 'T' :: twoDigits (time / 3600000 % 24) ++
    ':' :: twoDigits (time / 60000 % 60) ++ ':' :: twoDigits (time / 1000 % 60) ++
    '.' :: threeDigits (time % 1000) ++ ['Z']

@[simp]
theorem length_twoDigits (n : ℕ) : (twoDigits n).length = 2 := rfl

@[simp]
theorem length_fourDigits (n : ℕ) : (fourDigits n).length = 4 := rfl

@[simp]
theorem length_isoDate (day : ℕ) : (isoDate day).length = 10 := by
  unfold isoDate
  simp

theorem digitChar_inj {m n : ℕ} (hm : m < 10) (hn : n < 10) (h : m.digitChar = n.digitChar) :
    m = n := by
  have hdigits : ∀ m < 10, ∀ n < 10, m.digitChar = n.digitChar → m = n := by decide
  exact hdigits m hm n hn h

theorem twoDigits_inj {m n : ℕ} (hm : m < 100) (hn : n < 100) (h : twoDigits m = twoDigits n) :
    m = n := by
  obtain ⟨htens, hunits⟩ := List.cons.inj h
  have htens := digitChar_inj (by omega) (by omega) htens
  have hunits := digitChar_inj (by omega) (by omega) (List.cons.inj hunits).1
  omega

theorem fourDigits_inj {m n : ℕ} (hm : m < 10000) (hn : n < 10000)
    (h : fourDigits m = fourDigits n) : m = n := by
  obtain ⟨hhigh, hlow⟩ := List.append_inj h rfl
  have hhigh := twoDigits_inj (by omega) (by omega) hhigh
  have hlow := twoDigits_inj (by omega) (by omega) hlow
  omega

/-- The date of a day determines the day. -/
theorem isoDate_inj {d e : ℕ} (hd : yearFromDay d < 10000) (he : yearFromDay e < 10000)
    (h : isoDate d = isoDate e) : d = e := by
  unfold isoDate at h
  obtain ⟨hrest, hdate⟩ := List.append_inj h (by simp)
  obtain ⟨hyear, hmonth⟩ := List.append_inj hrest (by simp)
  have hyear := fourDigits_inj hd he hyear
  have hmonths := monthFromDay_lt d
  have hmonths' := monthFromDay_lt e
  have hmonth := twoDigits_inj (by omega) (by omega) (List.cons.inj hmonth).2
  have hdate := twoDigits_inj (dateFromDay_lt d) (dateFromDay_lt e) (List.cons.inj hdate).2
  calc
    d = makeDay (yearFromDay d) (monthFromDay d) (dateFromDay d) := (makeDay_dateFromDay d 0).symm
    _ = makeDay (yearFromDay e) (monthFromDay e) (dateFromDay e) := by
      rw [hyear, hdate, Nat.succ.inj hmonth]
    _ = e := makeDay_dateFromDay e 0

theorem take_toISOString (time : ℕ) : (toISOString time).take 10 = isoDate (day time) := by
  unfold toISOString
  simp only [List.append_assoc]
  exact List.take_left' (length_isoDate _)

/-! ## Clock readings -/

/-- A reading of the clock before the year 10000, whose date has four digits for its year. -/
structure Timestamp where
  ms : ℕ
  year_lt : yearFromDay (day ms) < 10000

end MemoFlowApi.Calendar
