import Staging.Calendar

/-!
Days and their numbers.

A number of days is split as the calendar splits it: into eras of 400 years, centuries, spans of four years, years and
days (`Position`), where only the last century of an era and the last year of a span have a day more. The year starts
in March here, so that the day added in a leap year is its last one. What `ofNumber` computes are the parts of the split
(`Position.yearOfEra`, `Position.dayOfYear`), and `toNumber` puts them together again.

Main statements: `toNumber_ofNumber` and `proper_ofNumber`.
-/

namespace Staging.Day

/-- Where in an era a day is: its century, span of four years and year, and the days of the year before it. -/
structure Position where
  century : Int
  span : Int
  year : Int
  day : Int

/-- An era has such a position. -/
structure Position.Proper (p : Position) : Prop where
  century : 0 ≤ p.century ∧ p.century ≤ 3
  span : 0 ≤ p.span ∧ p.span ≤ 24
  year : 0 ≤ p.year ∧ p.year ≤ 3
  day : 0 ≤ p.day ∧ p.day ≤ 365
  /-- The last year of a span is a leap year, but not that of the last span of a century, the fourth one apart. -/
  leap : p.day = 365 → p.year = 3 ∧ (p.span = 24 → p.century = 3)

namespace Position

/-- The years of the era before this one. -/
def years (p : Position) : Int := 100 * p.century + 4 * p.span + p.year

/-- The days of the span, and of the century, before this one. -/
def ofSpan (p : Position) : Int := 365 * p.year + p.day
def ofCentury (p : Position) : Int := 1461 * p.span + p.ofSpan

/-- The days of the era before this one. -/
def days (p : Position) : Int := 36524 * p.century + p.ofCentury

/-- Every day of an era has a position. -/
theorem exists_of_days {n : Int} (low : 0 ≤ n) (high : n < 146097) : ∃ p : Position, p.Proper ∧ p.days = n := by
  obtain ⟨c, m, rfl, hc, hm, long⟩ :
      ∃ c m, n = 36524 * c + m ∧ (0 ≤ c ∧ c ≤ 3) ∧ (0 ≤ m ∧ m ≤ 36524) ∧ (m = 36524 → c = 3) := by
    by_cases last : n = 146096
    · exact ⟨3, 36524, by omega⟩
    · exact ⟨n / 36524, n % 36524, by omega⟩
  obtain ⟨s, k, rfl, hs, hk⟩ : ∃ s k, m = 1461 * s + k ∧ (0 ≤ s ∧ s ≤ 24) ∧ (0 ≤ k ∧ k ≤ 1460) :=
    ⟨m / 1461, m % 1461, by omega⟩
  obtain ⟨y, d, rfl, hy, hd, leap⟩ :
      ∃ y d, k = 365 * y + d ∧ (0 ≤ y ∧ y ≤ 3) ∧ (0 ≤ d ∧ d ≤ 365) ∧ (d = 365 → y = 3) := by
    by_cases last : k = 1460
    · exact ⟨3, 365, by omega⟩
    · exact ⟨k / 365, k % 365, by omega⟩
  refine ⟨⟨c, s, y, d⟩, ⟨hc, hs, hy, hd, ?_⟩, rfl⟩
  show d = 365 → y = 3 ∧ (s = 24 → c = 3)
  omega

theorem yearOfEra {p : Position} (proper : p.Proper) :
    (p.days - p.days / 1460 + p.days / 36524 - p.days / 146096) / 365 = p.years := by
  obtain ⟨hc, hs, hy, hd, leap⟩ := proper
  -- The last day of an era would be the first one of a fifth century; the last quotient takes it away.
  have centuries : p.days / 36524 - p.days / 146096 = p.century := by
    have short : 0 ≤ p.ofCentury ∧ p.ofCentury ≤ 36524 := by
      unfold ofCentury ofSpan
      omega
    have long : p.ofCentury = 36524 → p.century = 3 := by
      unfold ofCentury ofSpan
      omega
    unfold days
    omega
  -- The second quotient may count the span a year too early, but only within the last year of one.
  obtain ⟨carry, spans, bound, first, last⟩ : ∃ carry, p.days / 1460 = 25 * p.century + p.span + carry
      ∧ (0 ≤ carry ∧ carry ≤ 1) ∧ (p.day = 0 → carry = 0) ∧ (p.day = 365 → carry = 1) := by
    refine ⟨(24 * p.century + p.span + 365 * p.year + p.day) / 1460, ?_⟩
    unfold days ofCentury ofSpan
    omega
  have total : p.days = 365 * p.years + 24 * p.century + p.span + p.day := by
    unfold days ofCentury ofSpan years
    omega
  omega

theorem dayOfYear {p : Position} (proper : p.Proper) :
    p.days - (365 * p.years + p.years / 4 - p.years / 100) = p.day := by
  obtain ⟨hc, hs, hy, hd, leap⟩ := proper
  unfold days ofCentury ofSpan years
  omega

end Position

open Position

/-! ### The day of a year -/

/-- The day so many days after the start of March of a year. -/
def ofYear (year day : Int) : Day :=
  let month := (5 * day + 2) / 153
  let calendarMonth := if month < 10 then month + 3 else month - 9
  ⟨year + (if calendarMonth ≤ 2 then 1 else 0), calendarMonth.toNat, (day - (153 * month + 2) / 5 + 1).toNat⟩

theorem ofNumber_eq {p : Position} (proper : p.Proper) (era : Int) :
    ofNumber (era * 146097 + p.days - 719468) = ofYear (p.years + era * 400) p.day := by
  have bounds : 0 ≤ p.days ∧ p.days < 146097 := by
    obtain ⟨hc, hs, hy, hd, leap⟩ := proper
    unfold days ofCentury ofSpan
    omega
  have shifted : era * 146097 + p.days - 719468 + 719468 = era * 146097 + p.days := by omega
  have found : (era * 146097 + p.days).fdiv 146097 = era := by
    rw [Int.fdiv_eq_ediv_of_nonneg _ (by decide)]
    omega
  have rest : era * 146097 + p.days - era * 146097 = p.days := by omega
  unfold ofNumber ofYear
  simp only [shifted, found, rest, yearOfEra proper, dayOfYear proper]

/-- A day of the year is a day of a month, counted from March on. -/
theorem exists_month {day : Int} (bounds : 0 ≤ day ∧ day ≤ 365) : ∃ month k : Nat,
    (5 * day + 2) / 153 = month ∧ day = (153 * month + 2) / 5 + k ∧ month ≤ 11 ∧ k ≤ 30 :=
  ⟨((5 * day + 2) / 153).toNat, (day - (153 * ((5 * day + 2) / 153) + 2) / 5).toNat, by omega⟩

theorem ofYear_eq {day : Int} {month k : Nat} (found : (5 * day + 2) / 153 = month)
    (split : day = (153 * month + 2) / 5 + k) (within : month ≤ 11) (year : Int) :
    ofYear year day = if month < 10 then ⟨year, month + 3, k + 1⟩ else ⟨year + 1, month - 9, k + 1⟩ := by
  have ofMonth : day - (153 * (month : Int) + 2) / 5 + 1 = (k + 1 : Nat) := by omega
  simp only [ofYear, found, ofMonth, Int.toNat_natCast]
  by_cases early : month < 10
  · have calendar : (month : Int) < 10 := by omega
    have late : ¬ (month : Int) + 3 ≤ 2 := by omega
    simp only [if_pos early, if_pos calendar, if_neg late, Int.add_zero]
    rfl
  · have calendar : ¬ (month : Int) < 10 := by omega
    have late : (month : Int) - 9 ≤ 2 := by omega
    have same : ((month : Int) - 9).toNat = month - 9 := by omega
    simp only [if_neg early, if_neg calendar, if_pos late, same]

theorem toNumber_ofYear {p : Position} (proper : p.Proper) (era : Int) :
    (ofYear (p.years + era * 400) p.day).toNumber = era * 146097 + p.days - 719468 := by
  obtain ⟨month, k, found, split, within, short⟩ := exists_month proper.day
  have years : 0 ≤ p.years ∧ p.years ≤ 399 := by
    obtain ⟨hc, hs, hy, hd, leap⟩ := proper
    unfold Position.years
    omega
  have start : p.days = 365 * p.years + p.years / 4 - p.years / 100 + p.day := by
    have := dayOfYear proper
    omega
  have founds : (p.years + era * 400).fdiv 400 = era := by
    rw [Int.fdiv_eq_ediv_of_nonneg _ (by decide)]
    omega
  have rest : p.years + era * 400 - era * 400 = p.years := by omega
  rw [ofYear_eq found split within]
  by_cases early : month < 10
  · have late : ¬ month + 3 ≤ 2 := by omega
    have counted : (month + 3 + 9) % 12 = month := by omega
    simp only [if_pos early, toNumber, if_neg late, founds, counted, rest]
    push_cast
    omega
  · have late : month - 9 ≤ 2 := by omega
    have counted : (month - 9 + 9) % 12 = month := by omega
    have before : p.years + era * 400 + 1 - 1 = p.years + era * 400 := by omega
    simp only [if_neg early, toNumber, if_pos late, before, founds, counted, rest]
    push_cast
    omega

/-- A year with 366 days, counted from March on, ends with the February of a leap year. -/
theorem isLeap_of_day {p : Position} (proper : p.Proper) (last : p.day = 365) (era : Int) :
    isLeap (p.years + era * 400 + 1) = true := by
  obtain ⟨hc, hs, hy, hd, leap⟩ := proper
  have fourth : (p.years + era * 400 + 1) % 4 = 0 := by
    unfold Position.years
    omega
  have century : ¬ (p.years + era * 400 + 1) % 100 = 0 ∨ (p.years + era * 400 + 1) % 400 = 0 := by
    unfold Position.years
    omega
  simp only [isLeap, Bool.and_eq_true, Bool.or_eq_true, beq_iff_eq, bne_iff_ne]
  exact ⟨fourth, century⟩

/-! ### Days of the calendar -/

/-- The calendar has such a day. -/
structure Proper (d : Day) : Prop where
  month : 1 ≤ d.month ∧ d.month ≤ 12
  day : 1 ≤ d.day ∧ d.day ≤ monthLength d.year d.month

theorem proper_ofYear {p : Position} (proper : p.Proper) (era : Int) :
    (ofYear (p.years + era * 400) p.day).Proper := by
  obtain ⟨month, k, found, split, within, short⟩ := exists_month proper.day
  have bound := proper.day
  rw [ofYear_eq found split within]
  by_cases early : month < 10
  · rw [if_pos early]
    refine ⟨by simp only; omega, by simp only; omega, ?_⟩
    have no : month + 3 ≠ 2 := by omega
    simp only [monthLength, if_neg no]
    split <;> omega
  · rw [if_neg early]
    refine ⟨by simp only; omega, by simp only; omega, ?_⟩
    obtain rfl | rfl : month = 10 ∨ month = 11 := by omega
    · show k + 1 ≤ 31
      omega
    · by_cases last : p.day = 365
      · simp only [monthLength, isLeap_of_day proper last, if_true]
        omega
      · simp only [monthLength, if_true]
        split <;> omega

theorem exists_position (n : Int) :
    ∃ (p : Position) (era : Int), p.Proper ∧ n = era * 146097 + p.days - 719468 := by
  obtain ⟨p, proper, days⟩ := exists_of_days (n := (n + 719468) % 146097) (by omega) (by omega)
  exact ⟨p, (n + 719468) / 146097, proper, by omega⟩

/-- **Every number is that of the day it denotes.** -/
theorem toNumber_ofNumber (n : Int) : (ofNumber n).toNumber = n := by
  obtain ⟨p, era, proper, rfl⟩ := exists_position n
  rw [ofNumber_eq proper, toNumber_ofYear proper]

/-- **Every number denotes a day that the calendar has.** -/
theorem proper_ofNumber (n : Int) : (ofNumber n).Proper := by
  obtain ⟨p, era, proper, rfl⟩ := exists_position n
  rw [ofNumber_eq proper]
  exact proper_ofYear proper era

theorem monthLength_le (year : Int) (month : Nat) : monthLength year month ≤ 31 := by
  unfold monthLength
  repeat' split
  all_goals decide

theorem Proper.lt {d : Day} (proper : d.Proper) : d.month < 100 ∧ d.day < 100 := by
  have month := proper.month
  have day := proper.day
  have length := monthLength_le d.year d.month
  omega

/-- The days of the years with up to four digits have a date. -/
theorem Proper.isValid {d : Day} (proper : d.Proper) (bounds : 0 ≤ d.year ∧ d.year ≤ 9999) :
    d.isValid = true := by
  have early : minYear ≤ d.year := by
    unfold minYear
    omega
  have late : d.year ≤ maxYear := by
    unfold maxYear
    omega
  simp only [Day.isValid, Bool.and_eq_true, decide_eq_true_eq]
  exact ⟨⟨⟨⟨⟨early, late⟩, proper.month.1⟩, proper.month.2⟩, proper.day.1⟩, proper.day.2⟩

end Staging.Day
