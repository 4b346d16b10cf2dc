import Mathlib.Order.Monotone.Basic

namespace VMForge.Calendar

-- The proleptic Gregorian calendar, from the year 0 on.
def isLeap (year : Nat) : Bool := year % 4 = 0 ∧ (year % 100 ≠ 0 ∨ year % 400 = 0)

def daysInMonth (leap : Bool) : Nat → Nat
  | 2 => if leap then 29 else 28
  | 4 | 6 | 9 | 11 => 30
  | _ => 31

def yearLength (year : Nat) : Nat := if isLeap year then 366 else 365

-- The days of a year before a month begins, and those before a year.
def daysBeforeMonth (leap : Bool) : Nat → Nat
  | 0 | 1 => 0
  | month + 2 => daysBeforeMonth leap (month + 1) + daysInMonth leap (month + 1)

def daysBeforeYear : Nat → Nat
  | 0 => 0
  | year + 1 => daysBeforeYear year + yearLength year

structure Date where
  year : Nat
  month : Nat
  day : Nat
  month_pos : 1 ≤ month
  month_le : month ≤ 12
  day_pos : 1 ≤ day
  day_le : day ≤ daysInMonth (isLeap year) month

-- The days between 0000-01-01 and a date.
def ordinal (year month day : Nat) : Nat :=
  daysBeforeYear year + daysBeforeMonth (isLeap year) month + (day - 1)

-- The day number since 1970-01-01.
def dayNumber (year month day : Nat) : Int := ordinal year month day - ordinal 1970 1 1

def Date.ordinal (date : Date) : Nat := Calendar.ordinal date.year date.month date.day

def Date.Before (a b : Date) : Prop :=
  a.year < b.year ∨ a.year = b.year ∧ (a.month < b.month ∨ a.month = b.month ∧ a.day < b.day)

section Years

theorem isLeap_iff {year : Nat} :
    isLeap year = true ↔ year % 4 = 0 ∧ (year % 100 ≠ 0 ∨ year % 400 = 0) := by
  unfold isLeap
  exact decide_eq_true_iff

theorem daysBeforeYear_eq (year : Nat) :
    daysBeforeYear year = 365 * year + (year + 3) / 4 - (year + 99) / 100 + (year + 399) / 400 := by
  induction year with
  | zero => rfl
  | succ year ih =>
      have hstep : daysBeforeYear (year + 1) = daysBeforeYear year + yearLength year := rfl
      have hfour : (year + 1 + 3) / 4 = (year + 3) / 4 + if year % 4 = 0 then 1 else 0 := by
        split <;> omega
      have hcentury : (year + 1 + 99) / 100 = (year + 99) / 100 + if year % 100 = 0 then 1 else 0 := by
        split <;> omega
      have hera : (year + 1 + 399) / 400 = (year + 399) / 400 + if year % 400 = 0 then 1 else 0 := by
        split <;> omega
      have hless : (year + 99) / 100 ≤ 365 * year + (year + 3) / 4 := by omega
      have hlength : yearLength year + (if year % 100 = 0 then 1 else 0) =
          365 + (if year % 4 = 0 then 1 else 0) + if year % 400 = 0 then 1 else 0 := by
        unfold yearLength
        simp only [isLeap_iff]
        split_ifs <;> omega
      rw [hstep, ih, hfour, hcentury, hera]
      omega

theorem daysBeforeYear_mono : Monotone daysBeforeYear :=
  monotone_nat_of_le_succ fun _ => Nat.le_add_right ..

end Years

section Months

theorem daysBeforeMonth_mono (leap : Bool) : Monotone (daysBeforeMonth leap) := by
  refine monotone_nat_of_le_succ fun month => ?_
  cases month with
  | zero => exact Nat.le_refl 0
  | succ month => exact Nat.le_add_right ..

-- A date lies before the first day of the next month.
theorem Date.lt_next_month (date : Date) : daysBeforeMonth (isLeap date.year) date.month + (date.day - 1) <
    daysBeforeMonth (isLeap date.year) (date.month + 1) := by
  obtain ⟨month, hmonth⟩ := Nat.exists_eq_add_of_le' date.month_pos
  have hday := date.day_le
  have hpos := date.day_pos
  rw [hmonth] at hday ⊢
  have hnext : daysBeforeMonth (isLeap date.year) (month + 1 + 1) =
      daysBeforeMonth (isLeap date.year) (month + 1) + daysInMonth (isLeap date.year) (month + 1) := rfl
  omega

theorem daysBeforeMonth_year (year : Nat) : daysBeforeMonth (isLeap year) 13 = yearLength year := by
  unfold yearLength
  cases isLeap year with
  | true => rfl
  | false => rfl

theorem Date.lt_next_year (date : Date) :
    daysBeforeMonth (isLeap date.year) date.month + (date.day - 1) < yearLength date.year := by
  have hle := date.month_le
  have hmono := daysBeforeMonth_mono (isLeap date.year) (show date.month + 1 ≤ 13 by omega)
  have hlt := date.lt_next_month
  have hyear := daysBeforeMonth_year date.year
  omega

end Months

section Order

variable {a b : Date}

-- An earlier date has a smaller number.
theorem Date.Before.ordinal_lt (h : a.Before b) : a.ordinal < b.ordinal := by
  unfold Date.ordinal Calendar.ordinal
  obtain hyear | ⟨hyear, hmonth | ⟨hmonth, hday⟩⟩ := h
  · have hlt := a.lt_next_year
    have hmono := daysBeforeYear_mono (show a.year + 1 ≤ b.year from hyear)
    have hstep : daysBeforeYear (a.year + 1) = daysBeforeYear a.year + yearLength a.year := rfl
    omega
  · have hlt := a.lt_next_month
    have hmono := daysBeforeMonth_mono (isLeap a.year) (show a.month + 1 ≤ b.month from hmonth)
    rw [← hyear]
    omega
  · have hpos := a.day_pos
    rw [← hyear, ← hmonth]
    omega

theorem Date.before_trichotomy (a b : Date) : a.Before b ∨ a = b ∨ b.Before a := by
  obtain hyear | hyear | hyear := Nat.lt_trichotomy a.year b.year
  · exact Or.inl (Or.inl hyear)
  · obtain hmonth | hmonth | hmonth := Nat.lt_trichotomy a.month b.month
    · exact Or.inl (Or.inr ⟨hyear, Or.inl hmonth⟩)
    · obtain hday | hday | hday := Nat.lt_trichotomy a.day b.day
      · exact Or.inl (Or.inr ⟨hyear, Or.inr ⟨hmonth, hday⟩⟩)
      · refine Or.inr (Or.inl ?_)
        cases a
        cases b
        subst hyear hmonth hday
        rfl
      · exact Or.inr (Or.inr (Or.inr ⟨hyear.symm, Or.inr ⟨hmonth.symm, hday⟩⟩))
    · exact Or.inr (Or.inr (Or.inr ⟨hyear.symm, Or.inl hmonth⟩))
  · exact Or.inr (Or.inr (Or.inl hyear))

-- The numbers of the days are in the order of their dates.
theorem Date.ordinal_lt_iff : a.ordinal < b.ordinal ↔ a.Before b := by
  refine ⟨fun h => ?_, Date.Before.ordinal_lt⟩
  obtain hbefore | rfl | hafter := Date.before_trichotomy a b
  · exact hbefore
  · exact absurd h (Nat.lt_irrefl _)
  · exact absurd hafter.ordinal_lt (Nat.not_lt.mpr (Nat.le_of_lt h))

end Order

end VMForge.Calendar
