import VMForge.Base.Calendar
import VMForge.Base.Padded
import Mathlib.Algebra.Ring.Int.Defs

namespace VMForge.Cli

section Code

-- A sum, difference or product of `i64`. Here and below none is an overflow.
def checked (n : Int) : Option Int := if -2 ^ 63 ≤ n ∧ n < 2 ^ 63 then some n else none

-- `as i64` of a `u64`, and `as u32` of an `i64`.
def asI64 (n : Nat) : Int := Int.bmod n (2 ^ 64)

def asU32 (n : Int) : Nat := (n % 2 ^ 32).toNat

-- Days since 1970-01-01 to year, month and day. `div_euclid` and `rem_euclid` are the division of
-- `Int`, `/` is `tdiv`.
def civilFromDays (z : Int) : Option (Int × Nat × Nat) := do
  let z ← checked (z + 719_468)
  let era := z / 146_097
  let doe := z % 146_097
  let yoe ← checked (doe - doe.tdiv 1460)
  let yoe ← checked (yoe + doe.tdiv 36524)
  let yoe ← checked (yoe - doe.tdiv 146_096)
  let yoe := yoe.tdiv 365
  let y ← checked (era * 400)
  let y ← checked (yoe + y)
  let before ← checked (365 * yoe)
  let before ← checked (before + yoe.tdiv 4)
  let before ← checked (before - yoe.tdiv 100)
  let doy ← checked (doe - before)
  let mp ← checked (5 * doy)
  let mp ← checked (mp + 2)
  let mp := mp.tdiv 153
  let first ← checked (153 * mp)
  let first ← checked (first + 2)
  let d ← checked (doy - first.tdiv 5)
  let d ← checked (d + 1)
  let d := asU32 d
  let m ← (if mp < 10 then checked (mp + 3) else checked (mp - 9))
  let m := asU32 m
  let y ← (if m ≤ 2 then checked (y + 1) else some y)
  return (y, m, d)

-- `{year:04}`: a sign takes one place of the width.
def yearText (year : Int) : List Char :=
  if 0 ≤ year then padded 10 4 year.toNat else '-' :: padded 10 3 year.natAbs

-- The text for a count of seconds since the epoch.
def utcTimestamp (secs : Nat) : Option (List Char) := do
  let days := secs / 86_400
  let (year, month, day) ← civilFromDays (asI64 days)
  let rem := secs % 86_400
  return yearText year ++ '-' :: padded 10 2 month ++ '-' :: padded 10 2 day ++
    'T' :: padded 10 2 (rem / 3600) ++ ':' :: padded 10 2 (rem % 3600 / 60) ++
    ':' :: padded 10 2 (rem % 60) ++ ['Z']

end Code

section Years

-- The days of an era before a year of it, years being taken to begin in March.
def yearStart (yoe : Nat) : Nat := 365 * yoe + yoe / 4 - yoe / 100

-- The days of an era with the leap days taken out.
def leapless (doe : Nat) : Nat := doe - doe / 1460 + doe / 36524 - doe / 146_096

theorem leapless_mono {a b : Nat} (hab : a ≤ b) (hb : b < 146_097) : leapless a ≤ leapless b := by
  induction b, hab using Nat.le_induction with
  | base => exact Nat.le_refl _
  | succ b hab ih =>
      have hstep : leapless b ≤ leapless (b + 1) := by
        unfold leapless
        omega
      exact Nat.le_trans (ih (by omega)) hstep

-- A year of an era as centuries, cycles of four years and years.
theorem yearStart_parts {yoe : Nat} (hyoe : yoe < 400) : ∃ c q r, yoe = 100 * c + 4 * q + r ∧ r < 4 ∧
    q < 25 ∧ yearStart yoe = 36524 * c + 1461 * q + 365 * r := by
  refine ⟨yoe / 100, yoe % 100 / 4, yoe % 4, by omega, by omega, by omega, ?_⟩
  unfold yearStart
  omega

theorem leapless_yearStart {yoe : Nat} (hyoe : yoe < 400) : leapless (yearStart yoe) = 365 * yoe := by
  obtain ⟨c, q, r, hparts, hr, hq, hstart⟩ := yearStart_parts hyoe
  have hcycles : (36524 * c + 1461 * q + 365 * r) / 1460 = 25 * c + q := by omega
  have hcenturies : (36524 * c + 1461 * q + 365 * r) / 36524 = c := by omega
  have hera : (36524 * c + 1461 * q + 365 * r) / 146_096 = 0 := by omega
  unfold leapless
  rw [hstart, hcycles, hcenturies, hera]
  omega

-- The day before a year begins belongs to the year before.
theorem leapless_pred {yoe : Nat} (hyoe : yoe < 400) (hpos : 0 < yoe) :
    leapless (yearStart yoe - 1) < 365 * yoe := by
  obtain ⟨c, q, r, hparts, hr, hq, hstart⟩ := yearStart_parts hyoe
  have hcycles : (36524 * c + 1461 * q + 365 * r - 1) / 1460 = 25 * c + q := by omega
  have hcenturies : (36524 * c + 1461 * q + 365 * r - 1) / 36524 ≤ c := by omega
  unfold leapless
  rw [hstart, hcycles]
  omega

theorem yearStart_le {doe : Nat} (hdoe : doe < 146_097) :
    leapless doe / 365 < 400 ∧ yearStart (leapless doe / 365) ≤ doe := by
  have hlt : leapless doe / 365 < 400 := by
    have hmono := leapless_mono (show doe ≤ 146_096 by omega) (by decide)
    have htop : leapless 146_096 = 145_999 := by decide
    omega
  refine ⟨hlt, ?_⟩
  by_contra hless
  have hpos : 0 < leapless doe / 365 := by
    by_contra hzero
    have h0 : leapless doe / 365 = 0 := by omega
    rw [h0] at hless
    exact hless (Nat.zero_le _)
  have hle : yearStart (leapless doe / 365) ≤ 146_097 := by
    unfold yearStart
    omega
  have hmono := leapless_mono (show doe ≤ yearStart (leapless doe / 365) - 1 by omega) (by omega)
  have hpred := leapless_pred hlt hpos
  omega

theorem lt_yearStart {doe : Nat} (hdoe : doe < 146_097) (hlast : leapless doe / 365 < 399) :
    doe < yearStart (leapless doe / 365 + 1) := by
  by_contra hge
  have hmono := leapless_mono (show yearStart (leapless doe / 365 + 1) ≤ doe by omega) hdoe
  have hstart := @leapless_yearStart (leapless doe / 365 + 1) (by omega)
  omega

end Years

section Civil

-- The month that a month counted from March is, and the date of a day of a year that begins in March.
def monthOf (mp : Nat) : Nat := if mp < 10 then mp + 3 else mp - 9

def dateOf (y doy : Nat) : Nat × Nat × Nat :=
  let mp := (5 * doy + 2) / 153
  (if monthOf mp ≤ 2 then y + 1 else y, monthOf mp, doy - (153 * mp + 2) / 5 + 1)

-- What the code comes to for the days after the epoch.
def civil (n : Nat) : Nat × Nat × Nat :=
  let doe := (n + 719_468) % 146_097
  let yoe := leapless doe / 365
  dateOf (yoe + (n + 719_468) / 146_097 * 400) (doe - yearStart yoe)

theorem checked_nat {n : Int} {k : Nat} (hn : n = k) (hk : k < 2 ^ 63) : checked n = some (k : Int) := by
  unfold checked
  rw [if_pos (by omega), hn]

theorem some_bind {α β : Type} (a : α) (f : α → Option β) : (some a >>= f) = f a := rfl

theorem tdiv_nat (a : Nat) (b : Int) : (a : Int).tdiv b = (a : Int) / b :=
  Int.tdiv_eq_ediv_of_nonneg (Int.natCast_nonneg a)

theorem asU32_nat {n : Nat} (hn : n < 2 ^ 32) : asU32 n = n := by
  unfold asU32
  omega

variable {α : Type} {doe yoe doy mp : Nat}

theorem yearOfEra_checked (hdoe : doe < 146_097) (rest : Int → Option α) : (do
    let yoe ← checked ((doe : Int) - (doe : Int).tdiv 1460)
    let yoe ← checked (yoe + (doe : Int).tdiv 36524)
    let yoe ← checked (yoe - (doe : Int).tdiv 146_096)
    rest yoe) = rest (leapless doe : Int) := by
  have hcycles : checked ((doe : Int) - (doe : Int).tdiv 1460) = some ((doe - doe / 1460 : Nat) : Int) :=
    checked_nat (by rw [tdiv_nat]; omega) (by omega)
  have hcenturies : checked (((doe - doe / 1460 : Nat) : Int) + (doe : Int).tdiv 36524) =
      some ((doe - doe / 1460 + doe / 36524 : Nat) : Int) :=
    checked_nat (by rw [tdiv_nat]; omega) (by omega)
  have hera : checked (((doe - doe / 1460 + doe / 36524 : Nat) : Int) - (doe : Int).tdiv 146_096) =
      some (leapless doe : Int) :=
    checked_nat (by rw [tdiv_nat]; unfold leapless; omega) (by unfold leapless; omega)
  rw [hcycles, Option.bind_eq_bind, Option.bind_some, hcenturies, Option.bind_some, hera,
    Option.bind_some]

theorem dayOfYear_checked (hyoe : yoe < 400) (hstart : yearStart yoe ≤ doe) (hdoe : doe < 146_097)
    (rest : Int → Option α) : (do
    let before ← checked (365 * (yoe : Int))
    let before ← checked (before + (yoe : Int).tdiv 4)
    let before ← checked (before - (yoe : Int).tdiv 100)
    let doy ← checked ((doe : Int) - before)
    rest doy) = rest ((doe - yearStart yoe : Nat) : Int) := by
  have hwhole : checked (365 * (yoe : Int)) = some ((365 * yoe : Nat) : Int) :=
    checked_nat (by omega) (by omega)
  have hleap : checked (((365 * yoe : Nat) : Int) + (yoe : Int).tdiv 4) =
      some ((365 * yoe + yoe / 4 : Nat) : Int) := checked_nat (by rw [tdiv_nat]; omega) (by omega)
  have hcentury : checked (((365 * yoe + yoe / 4 : Nat) : Int) - (yoe : Int).tdiv 100) =
      some (yearStart yoe : Int) :=
    checked_nat (by rw [tdiv_nat]; unfold yearStart; omega) (by unfold yearStart; omega)
  have hdoy : checked ((doe : Int) - (yearStart yoe : Int)) = some ((doe - yearStart yoe : Nat) : Int) :=
    checked_nat (by omega) (by omega)
  rw [hwhole, Option.bind_eq_bind, Option.bind_some, hleap, Option.bind_some, hcentury,
    Option.bind_some, hdoy, Option.bind_some]

theorem fifths_checked (hdoy : doy ≤ 365) (rest : Int → Option α) : (do
    let mp ← checked (5 * (doy : Int))
    let mp ← checked (mp + 2)
    rest mp) = rest ((5 * doy + 2 : Nat) : Int) := by
  have hfive : checked (5 * (doy : Int)) = some ((5 * doy : Nat) : Int) :=
    checked_nat (by omega) (by omega)
  have htwo : checked (((5 * doy : Nat) : Int) + 2) = some ((5 * doy + 2 : Nat) : Int) :=
    checked_nat (by omega) (by omega)
  rw [hfive, Option.bind_eq_bind, Option.bind_some, htwo, Option.bind_some]

theorem day_checked (hdoy : doy ≤ 365) (hmp : mp = (5 * doy + 2) / 153) (rest : Int → Option α) : (do
    let first ← checked (153 * (mp : Int))
    let first ← checked (first + 2)
    let d ← checked ((doy : Int) - first.tdiv 5)
    let d ← checked (d + 1)
    rest d) = rest ((doy - (153 * mp + 2) / 5 + 1 : Nat) : Int) := by
  have hwhole : checked (153 * (mp : Int)) = some ((153 * mp : Nat) : Int) :=
    checked_nat (by omega) (by omega)
  have htwo : checked (((153 * mp : Nat) : Int) + 2) = some ((153 * mp + 2 : Nat) : Int) :=
    checked_nat (by omega) (by omega)
  have hless : checked ((doy : Int) - ((153 * mp + 2 : Nat) : Int).tdiv 5) =
      some ((doy - (153 * mp + 2) / 5 : Nat) : Int) :=
    checked_nat (by rw [tdiv_nat]; omega) (by omega)
  have hone : checked (((doy - (153 * mp + 2) / 5 : Nat) : Int) + 1) =
      some ((doy - (153 * mp + 2) / 5 + 1 : Nat) : Int) := checked_nat (by omega) (by omega)
  rw [hwhole, Option.bind_eq_bind, Option.bind_some, htwo, Option.bind_some, hless,
    Option.bind_some, hone, Option.bind_some]

theorem dayOfYear_le (hdoe : doe < 146_097) : doe - yearStart (leapless doe / 365) ≤ 365 := by
  obtain ⟨hyoe, hstart⟩ := yearStart_le hdoe
  by_cases hlast : leapless doe / 365 < 399
  · have hlt := lt_yearStart hdoe hlast
    have hlength : yearStart (leapless doe / 365 + 1) ≤ yearStart (leapless doe / 365) + 366 := by
      unfold yearStart
      omega
    omega
  · have hyear : leapless doe / 365 = 399 := by omega
    have hfirst : yearStart 399 = 145_731 := by decide
    rw [hyear, hfirst]
    omega

theorem month_checked (hmp : mp ≤ 11) :
    (if (mp : Int) < 10 then checked ((mp : Int) + 3) else checked ((mp : Int) - 9)) =
      some (monthOf mp : Int) := by
  unfold monthOf
  by_cases hlt : mp < 10
  · rw [if_pos (by omega), if_pos hlt]
    exact checked_nat (by omega) (by omega)
  · rw [if_neg (by omega), if_neg hlt]
    exact checked_nat (by omega) (by omega)

theorem date_checked {y : Nat} (hy : y < 2 ^ 62) (hdoy : doy ≤ 365) : (do
    let mp ← checked (5 * (doy : Int))
    let mp ← checked (mp + 2)
    let mp := mp.tdiv 153
    let first ← checked (153 * mp)
    let first ← checked (first + 2)
    let d ← checked ((doy : Int) - first.tdiv 5)
    let d ← checked (d + 1)
    let d := asU32 d
    let m ← (if mp < 10 then checked (mp + 3) else checked (mp - 9))
    let m := asU32 m
    let y ← (if m ≤ 2 then checked ((y : Int) + 1) else some (y : Int))
    return (y, m, d)) = some (((dateOf y doy).1 : Int), (dateOf y doy).2.1, (dateOf y doy).2.2) := by
  have hmp : ((5 * doy + 2 : Nat) : Int).tdiv 153 = (((5 * doy + 2) / 153 : Nat) : Int) := by
    rw [tdiv_nat]
    omega
  have hle : (5 * doy + 2) / 153 ≤ 11 := by omega
  have hmonth : monthOf ((5 * doy + 2) / 153) < 2 ^ 32 := by
    unfold monthOf
    split <;> omega
  have hday : doy - (153 * ((5 * doy + 2) / 153) + 2) / 5 + 1 < 2 ^ 32 := by omega
  rw [fifths_checked hdoy]
  simp only [hmp]
  rw [day_checked hdoy rfl, month_checked hle, some_bind]
  simp only [asU32_nat hmonth, asU32_nat hday]
  have hyear : (if monthOf ((5 * doy + 2) / 153) ≤ 2 then checked ((y : Int) + 1) else some (y : Int)) =
      some ((if monthOf ((5 * doy + 2) / 153) ≤ 2 then y + 1 else y : Nat) : Int) := by
    split
    · exact checked_nat (by omega) (by omega)
    · rfl
  rw [hyear, some_bind]
  rfl

-- Nothing overflows.
theorem civilFromDays_eq {n : Nat} (hn : n < 2 ^ 62) :
    civilFromDays n = some (((civil n).1 : Int), (civil n).2.1, (civil n).2.2) := by
  have hdoe : (n + 719_468) % 146_097 < 146_097 := Nat.mod_lt _ (by decide)
  obtain ⟨hyoe, hstart⟩ := yearStart_le hdoe
  have hdoy := dayOfYear_le hdoe
  have hz : checked ((n : Int) + 719_468) = some ((n + 719_468 : Nat) : Int) :=
    checked_nat (by omega) (by omega)
  have hrem : ((n + 719_468 : Nat) : Int) % 146_097 = ((n + 719_468) % 146_097 : Nat) := by omega
  have hera : ((n + 719_468 : Nat) : Int) / 146_097 = ((n + 719_468) / 146_097 : Nat) := by omega
  unfold civilFromDays
  have hyear : ((leapless ((n + 719_468) % 146_097) : Nat) : Int).tdiv 365 =
      ((leapless ((n + 719_468) % 146_097) / 365 : Nat) : Int) := by
    rw [tdiv_nat]
    omega
  have heras : checked (((n + 719_468) / 146_097 : Nat) * 400 : Int) =
      some (((n + 719_468) / 146_097 * 400 : Nat) : Int) := checked_nat (by omega) (by omega)
  have hy : checked (((leapless ((n + 719_468) % 146_097) / 365 : Nat) : Int) +
      ((n + 719_468) / 146_097 * 400 : Nat)) = some ((leapless ((n + 719_468) % 146_097) / 365 +
        (n + 719_468) / 146_097 * 400 : Nat) : Int) := checked_nat (by omega) (by omega)
  rw [hz, some_bind, hrem, hera, yearOfEra_checked hdoe, hyear, heras, some_bind, hy, some_bind,
    dayOfYear_checked hyoe hstart hdoe]
  exact date_checked (by omega) hdoy

end Civil

section Dates

open Calendar

-- The days before March of a year.
def daysBeforeMarch (y : Nat) : Nat := 365 * y + y / 4 - y / 100 + y / 400

theorem daysBeforeMarch_year (y : Nat) :
    daysBeforeYear y + (if isLeap y = true then 1 else 0) = daysBeforeMarch y + 1 := by
  have hfour : (y + 3) / 4 + (if y % 4 = 0 then 1 else 0) = y / 4 + 1 := by
    split <;> omega
  have hcentury : (y + 99) / 100 + (if y % 100 = 0 then 1 else 0) = y / 100 + 1 := by
    split <;> omega
  have hera : (y + 399) / 400 + (if y % 400 = 0 then 1 else 0) = y / 400 + 1 := by
    split <;> omega
  have hless : (y + 99) / 100 ≤ 365 * y + (y + 3) / 4 := by omega
  have hless' : y / 100 ≤ 365 * y + y / 4 := by omega
  have hleap : (if isLeap y = true then 1 else 0) + (if y % 100 = 0 then 1 else 0) =
      (if y % 4 = 0 then 1 else 0) + if y % 400 = 0 then 1 else 0 := by
    simp only [isLeap_iff]
    split_ifs <;> omega
  rw [daysBeforeYear_eq]
  unfold daysBeforeMarch
  omega

theorem daysBeforeMarch_next (y : Nat) : daysBeforeMarch (y + 1) =
    daysBeforeMarch y + 365 + if isLeap (y + 1) = true then 1 else 0 := by
  have hthis := daysBeforeMarch_year y
  have hnext := daysBeforeMarch_year (y + 1)
  have hyear : daysBeforeYear (y + 1) = daysBeforeYear y + yearLength y := rfl
  unfold yearLength at hyear
  split at hyear <;> split_ifs at hthis <;> omega

-- The months from March on begin every 153 days in five months.
theorem months_from_march : ∀ leap, ∀ mp < 10,
    daysBeforeMonth leap (mp + 3) = 59 + (if leap = true then 1 else 0) + (153 * mp + 2) / 5 ∧
      daysInMonth leap (mp + 3) + (153 * mp + 2) / 5 = (153 * (mp + 1) + 2) / 5 := by decide

-- January and February are counted to the year before.
theorem months_to_march : ∀ leap, ∀ mp < 12, 10 ≤ mp →
    daysBeforeMonth leap (mp - 9) + 306 = (153 * mp + 2) / 5 ∧ (mp = 10 → daysInMonth leap (mp - 9) = 31) ∧
      (mp = 11 → daysInMonth leap (mp - 9) = 28 + if leap = true then 1 else 0) := by decide

theorem dateOf_spec {y doy : Nat} (hdoy : daysBeforeMarch y + doy < daysBeforeMarch (y + 1)) :
    ∃ date : Date, dateOf y doy = (date.year, date.month, date.day) ∧
      date.ordinal = daysBeforeMarch y + doy + 60 := by
  have hnext := daysBeforeMarch_next y
  have hbefore := daysBeforeMarch_year y
  have hlen : doy < 365 + if isLeap (y + 1) = true then 1 else 0 := by omega
  have hle : doy ≤ 365 := by
    split at hlen <;> omega
  obtain ⟨mp, hmp⟩ : ∃ mp, mp = (5 * doy + 2) / 153 := ⟨_, rfl⟩
  have hfirst : (153 * mp + 2) / 5 ≤ doy := by omega
  have hlast : doy < (153 * (mp + 1) + 2) / 5 := by omega
  unfold dateOf
  simp only [← hmp]
  by_cases hlt : mp < 10
  · obtain ⟨hmonth, hdays⟩ := months_from_march (isLeap y) mp hlt
    have hof : monthOf mp = mp + 3 := if_pos hlt
    refine ⟨⟨y, mp + 3, doy - (153 * mp + 2) / 5 + 1, by omega, by omega, by omega, by omega⟩, ?_, ?_⟩
    · rw [hof, if_neg (by omega)]
    · show daysBeforeYear y + daysBeforeMonth (isLeap y) (mp + 3) +
        (doy - (153 * mp + 2) / 5 + 1 - 1) = _
      omega
  · obtain ⟨hmonth, hjanuary, hfebruary⟩ :=
      months_to_march (isLeap (y + 1)) mp (by omega) (by omega)
    have hof : monthOf mp = mp - 9 := if_neg hlt
    have hday : doy - (153 * mp + 2) / 5 + 1 ≤ daysInMonth (isLeap (y + 1)) (mp - 9) := by
      obtain htwo | htwo : mp = 10 ∨ mp = 11 := by omega
      · rw [hjanuary htwo]
        omega
      · rw [hfebruary htwo]
        omega
    have hafter := daysBeforeMarch_year (y + 1)
    refine ⟨⟨y + 1, mp - 9, doy - (153 * mp + 2) / 5 + 1, by omega, by omega, by omega, hday⟩, ?_, ?_⟩
    · rw [hof, if_pos (by omega)]
    · show daysBeforeYear (y + 1) + daysBeforeMonth (isLeap (y + 1)) (mp - 9) +
        (doy - (153 * mp + 2) / 5 + 1 - 1) = _
      omega

-- The date is the one whose number the days are.
theorem civil_date (n : Nat) : ∃ date : Date, civil n = (date.year, date.month, date.day) ∧
    date.ordinal = n + 719_528 := by
  have hdoe : (n + 719_468) % 146_097 < 146_097 := Nat.mod_lt _ (by decide)
  obtain ⟨hyoe, hstart⟩ := yearStart_le hdoe
  obtain ⟨y, hy⟩ : ∃ y, y = leapless ((n + 719_468) % 146_097) / 365 + (n + 719_468) / 146_097 * 400 :=
    ⟨_, rfl⟩
  have hmarch : daysBeforeMarch y = (n + 719_468) / 146_097 * 146_097 +
      yearStart (leapless ((n + 719_468) % 146_097) / 365) := by
    unfold daysBeforeMarch yearStart
    omega
  have hlast : daysBeforeMarch y + ((n + 719_468) % 146_097 -
      yearStart (leapless ((n + 719_468) % 146_097) / 365)) < daysBeforeMarch (y + 1) := by
    by_cases hsome : leapless ((n + 719_468) % 146_097) / 365 < 399
    · have hlt := lt_yearStart hdoe hsome
      have hnext : daysBeforeMarch (y + 1) = (n + 719_468) / 146_097 * 146_097 +
          yearStart (leapless ((n + 719_468) % 146_097) / 365 + 1) := by
        unfold daysBeforeMarch yearStart
        omega
      omega
    · have hnext : daysBeforeMarch (y + 1) = (n + 719_468) / 146_097 * 146_097 + 146_097 := by
        unfold daysBeforeMarch
        omega
      omega
  obtain ⟨date, hdate, hordinal⟩ := dateOf_spec hlast
  refine ⟨date, ?_, by omega⟩
  rw [hy] at hdate
  exact hdate

end Dates

section Reading

open Calendar

-- The digits up to a separator, and what follows it.
def readUpTo (sep : Char) (text : List Char) : Option (Nat × List Char) :=
  let digits := text.takeWhile (isDigitOf 10)
  match text.dropWhile (isDigitOf 10) with
  | [] => none
  | c :: rest => if c = sep ∧ digits ≠ [] then some (Nat.ofDigitChars 10 digits 0, rest) else none

-- The seconds since the epoch that a timestamp stands for.
def readTimestamp (text : List Char) : Option Int := do
  let (year, text) ← readUpTo '-' text
  let (month, text) ← readUpTo '-' text
  let (day, text) ← readUpTo 'T' text
  let (hour, text) ← readUpTo ':' text
  let (minute, text) ← readUpTo ':' text
  let (second, text) ← readUpTo 'Z' text
  if text = [] then
    some (dayNumber year month day * 86_400 + (hour * 3600 + minute * 60 + second : Nat))
  else none

theorem readUpTo_padded {sep : Char} (hsep : isDigitOf 10 sep = false) (width value : Nat)
    (rest : List Char) : readUpTo sep (padded 10 width value ++ sep :: rest) = some (value, rest) := by
  have hdigits : ∀ c ∈ padded 10 width value, isDigitOf 10 c = true := fun c hc =>
    isDigitOf_of_mem_padded (by decide) (by decide) hc
  have hstop : ¬isDigitOf 10 sep = true := by
    rw [hsep]
    decide
  unfold readUpTo
  rw [List.takeWhile_append_of_pos hdigits, List.dropWhile_append_of_pos hdigits,
    List.takeWhile_cons_of_neg hstop, List.dropWhile_cons_of_neg hstop, List.append_nil]
  show (if sep = sep ∧ padded 10 width value ≠ [] then
    some (Nat.ofDigitChars 10 (padded 10 width value) 0, rest) else none) = some (value, rest)
  rw [if_pos ⟨rfl, padded_ne_nil width value⟩, ofDigitChars_padded (by decide) (by decide)]

theorem asI64_nat {n : Nat} (hn : n < 2 ^ 63) : asI64 n = n := by
  unfold asI64
  rw [Int.bmod_eq_of_le (by omega) (by omega)]

theorem civilFromDays_date {n : Nat} (hn : n < 2 ^ 62) : ∃ date : Date,
    civilFromDays (asI64 n) = some ((date.year : Int), date.month, date.day) ∧
      date.ordinal = n + 719_528 := by
  obtain ⟨date, hdate, hordinal⟩ := civil_date n
  refine ⟨date, ?_, hordinal⟩
  rw [asI64_nat (by omega), civilFromDays_eq hn, hdate]

theorem dayNumber_eq {date : Date} {n : Nat} (h : date.ordinal = n + 719_528) :
    dayNumber date.year date.month date.day = n := by
  have hepoch : ordinal 1970 1 1 = 719_528 := by
    unfold ordinal
    rw [daysBeforeYear_eq]
    rfl
  have hdate : ordinal date.year date.month date.day = n + 719_528 := h
  unfold dayNumber
  rw [hepoch, hdate]
  omega

theorem utcTimestamp_read {secs : Nat} {date : Date}
    (hdate : civilFromDays (asI64 (secs / 86_400)) = some ((date.year : Int), date.month, date.day))
    (hordinal : date.ordinal = secs / 86_400 + 719_528) :
    ∃ text, utcTimestamp secs = some text ∧ readTimestamp text = some (secs : Int) := by
  have hyear : yearText (date.year : Int) = padded 10 4 date.year := if_pos (Int.natCast_nonneg _)
  have htime : secs % 86_400 / 3600 * 3600 + secs % 86_400 % 3600 / 60 * 60 + secs % 86_400 % 60 =
      secs % 86_400 := by omega
  unfold utcTimestamp
  simp only [hdate, some_bind]
  refine ⟨_, rfl, ?_⟩
  unfold readTimestamp
  simp only [hyear, List.append_assoc, List.cons_append]
  simp (disch := decide) only [readUpTo_padded, some_bind]
  rw [if_pos trivial, dayNumber_eq hordinal, htime]
  have hsum : ((secs / 86_400 : Nat) : Int) * 86_400 + (secs % 86_400 : Nat) = (secs : Int) := by omega
  rw [hsum]

-- Every count of seconds has its date and its text, and later days have later dates.
theorem timestamp_denotes (secs : UInt64) : ∃ date : Date,
    civilFromDays (asI64 (secs.toNat / 86_400)) = some ((date.year : Int), date.month, date.day) ∧
      dayNumber date.year date.month date.day = (secs.toNat / 86_400 : Nat) ∧
      (∀ later : UInt64, secs.toNat / 86_400 < later.toNat / 86_400 → ∃ date' : Date,
        civilFromDays (asI64 (later.toNat / 86_400)) =
          some ((date'.year : Int), date'.month, date'.day) ∧ date.Before date') ∧
      ∃ text, utcTimestamp secs.toNat = some text ∧ readTimestamp text = some (secs.toNat : Int) := by
  have hdays : ∀ n : UInt64, n.toNat / 86_400 < 2 ^ 62 := by
    intro n
    have hlt := n.toNat_lt
    omega
  obtain ⟨date, hdate, hordinal⟩ := civilFromDays_date (hdays secs)
  refine ⟨date, hdate, dayNumber_eq hordinal, ?_, utcTimestamp_read hdate hordinal⟩
  intro later hlater
  obtain ⟨date', hdate', hordinal'⟩ := civilFromDays_date (hdays later)
  exact ⟨date', hdate', Date.ordinal_lt_iff.mp (by omega)⟩

example : civilFromDays 19_782 = some (2024, 2, 29) := by decide

example : utcTimestamp 951_868_799 = some "2000-02-29T23:59:59Z".toList := by decide

end Reading

end VMForge.Cli
