import JelloVM.Library.Calendar

namespace JelloVM

open Calendar

/-- `struct tm`: the year is counted from 1900. The month and its day are not looked at. -/
structure Tm where
  tmSec : ℤ
  tmMin : ℤ
  tmHour : ℤ
  tmYday : ℤ
  tmYear : ℤ
  deriving DecidableEq

def tmOf (c : Moment) : Tm where
  tmSec := c.sec
  tmMin := c.min
  tmHour := c.hour
  tmYday := c.yday
  tmYear := c.year - 1900

/-- The difference in minutes that `jdll_std_date_get_tz` returns. -/
def tzDiff (loc gmt : Tm) : ℤ :=
  let diff := (loc.tmHour - gmt.tmHour) * 60 + (loc.tmMin - gmt.tmMin)
  if gmt.tmYear > loc.tmYear ∨ gmt.tmYday > loc.tmYday then diff - 24 * 60
  else if gmt.tmYear < loc.tmYear ∨ gmt.tmYday < loc.tmYday then diff + 24 * 60
  else diff

/-- The times of the platform are parameters; they give nothing for a time they cannot show. -/
def jdllStdDateGetTz (localtime gmtime : ℤ → Option Tm) (secs : Int32) : Except String Int32 :=
  let raw := secs.toInt
  match localtime raw, gmtime raw with
  | some loc, some gmt => .ok (Int32.ofInt (tzDiff loc gmt))
  | _, _ => .error "date_get_tz: invalid time"

section TwoTimes

variable {c d : Moment} {t offset : ℤ}

theorem offset_eq (hc : c.At (t + 60 * offset)) (hd : d.At t) :
    offset = 1440 * (yearStart c.year + c.yday - (yearStart d.year + d.yday)) +
      (c.hour - d.hour) * 60 + (c.min - d.min) := by
  have hsec := hc.sec
  have hsec' := hd.sec
  have hci := hc.instant
  have hdi := hd.instant
  omega

theorem day_adjacent (hlow : -1440 < offset) (hhigh : offset < 1440)
    (hc : c.At (t + 60 * offset)) (hd : d.At t) :
    -1 ≤ yearStart c.year + c.yday - (yearStart d.year + d.yday) ∧
      yearStart c.year + c.yday - (yearStart d.year + d.yday) ≤ 1 := by
  have hoff := offset_eq hc hd
  have hch := hc.hour
  have hdh := hd.hour
  have hcm := hc.min
  have hdm := hd.min
  omega

/-- When the year changes in between, the two days are the last and the first of their years. -/
theorem yday_of_year_lt (hc : 0 ≤ c.yday) (hd : d.yday < yearDays d.year)
    (hyear : d.year < c.year)
    (hadj : yearStart c.year + c.yday - (yearStart d.year + d.yday) ≤ 1) :
    c.yday = 0 ∧ d.yday + 1 = yearDays d.year ∧ yearStart c.year = yearStart (d.year + 1) := by
  have hmono := yearStart_mono (show d.year + 1 ≤ c.year by omega)
  have hsucc := yearStart_succ d.year
  omega

theorem tzDiff_same_year (hlow : -1440 < offset) (hhigh : offset < 1440)
    (hc : c.At (t + 60 * offset)) (hd : d.At t) (hyear : c.year = d.year) :
    tzDiff (tmOf c) (tmOf d) = offset := by
  have hoff := offset_eq hc hd
  have hadj := day_adjacent hlow hhigh hc hd
  rw [hyear] at hoff hadj
  simp only [tzDiff, tmOf, hyear, gt_iff_lt, lt_irrefl, false_or]
  split_ifs with h₁ h₂ <;> omega

/-- West of UTC the earlier year is the local one, and the first comparison says so. -/
theorem tzDiff_west (hlow : -1440 < offset) (hhigh : offset < 1440)
    (hc : c.At (t + 60 * offset)) (hd : d.At t) (hyear : c.year < d.year) :
    tzDiff (tmOf c) (tmOf d) = offset := by
  have hoff := offset_eq hc hd
  have hadj := day_adjacent hlow hhigh hc hd
  obtain ⟨hd0, hc0, hstart⟩ := yday_of_year_lt hd.yday.1 hc.yday.2 hyear (by omega)
  have hsucc := yearStart_succ c.year
  have hcond : d.year - 1900 > c.year - 1900 ∨ d.yday > c.yday := .inl (by omega)
  simp only [tzDiff, tmOf]
  omega

theorem tzDiff_east (hlow : -1440 < offset) (hhigh : offset < 1440)
    (hc : c.At (t + 60 * offset)) (hd : d.At t) (hyear : d.year < c.year) :
    0 < offset ∧ tzDiff (tmOf c) (tmOf d) = offset - 2880 := by
  have hoff := offset_eq hc hd
  have hadj := day_adjacent hlow hhigh hc hd
  obtain ⟨hc0, hd0, hstart⟩ := yday_of_year_lt hc.yday.1 hd.yday.2 hyear hadj.2
  have hsucc := yearStart_succ d.year
  have hdays := yearDays_cases d.year
  have hch := hc.hour
  have hdh := hd.hour
  have hcm := hc.min
  have hdm := hd.min
  have hci := hc.instant
  have hdi := hd.instant
  have hcond : d.year - 1900 > c.year - 1900 ∨ d.yday > c.yday := .inr (by omega)
  simp only [tzDiff, tmOf]
  constructor <;> omega

theorem tzDiff_iff (hlow : -1440 < offset) (hhigh : offset < 1440)
    (hc : c.At (t + 60 * offset)) (hd : d.At t) :
    tzDiff (tmOf c) (tmOf d) = offset ↔ offset ≤ 0 ∨ c.year = d.year := by
  rcases lt_trichotomy c.year d.year with hlt | heq | hgt
  · have hwest := tzDiff_west hlow hhigh hc hd hlt
    have hle : offset ≤ 0 := by
      have hci := hc.day
      have hdi := hd.day
      have hadj := day_adjacent hlow hhigh hc hd
      have hyday := yday_of_year_lt hd.yday.1 hc.yday.2 hlt (by omega)
      have hsucc := yearStart_succ c.year
      omega
    exact iff_of_true hwest (.inl hle)
  · exact iff_of_true (tzDiff_same_year hlow hhigh hc hd heq) (.inr heq)
  · obtain ⟨hpos, heast⟩ := tzDiff_east hlow hhigh hc hd hgt
    constructor
    · intro h
      omega
    · rintro (h | h) <;> omega

theorem tzDiff_bound (hlow : -1440 < offset) (hhigh : offset < 1440)
    (hc : c.At (t + 60 * offset)) (hd : d.At t) :
    -2880 ≤ tzDiff (tmOf c) (tmOf d) ∧ tzDiff (tmOf c) (tmOf d) ≤ 1440 := by
  rcases lt_trichotomy c.year d.year with hlt | heq | hgt
  · have := tzDiff_west hlow hhigh hc hd hlt
    omega
  · have := tzDiff_same_year hlow hhigh hc hd heq
    omega
  · have := tzDiff_east hlow hhigh hc hd hgt
    omega

end TwoTimes

theorem int32_ofInt_inj {x y : ℤ} (hx : -2880 ≤ x ∧ x ≤ 1440) (hy : -2880 ≤ y ∧ y ≤ 1440)
    (h : Int32.ofInt x = Int32.ofInt y) : x = y := by
  have hint := congrArg Int32.toInt h
  rwa [Int32.toInt_ofInt_of_le (by omega) (by omega),
    Int32.toInt_ofInt_of_le (by omega) (by omega)] at hint

/-- The offset is found but in the hours around New Year in which the year has changed on a
clock ahead of UTC and not yet in UTC. -/
theorem getTz_iff {localtime gmtime : ℤ → Option Tm} {secs : Int32} {offset : ℤ}
    (hlow : -1440 < offset) (hhigh : offset < 1440)
    (hlocal : localtime secs.toInt = some (tmOf (momentOf (secs.toInt + 60 * offset))))
    (hgmt : gmtime secs.toInt = some (tmOf (momentOf secs.toInt))) :
    jdllStdDateGetTz localtime gmtime secs = .ok (Int32.ofInt offset) ↔
      offset ≤ 0 ∨
        yearOf ((secs.toInt + 60 * offset) / 86400) = yearOf (secs.toInt / 86400) := by
  have hc := momentOf_at (secs.toInt + 60 * offset)
  have hd := momentOf_at secs.toInt
  have hiff := tzDiff_iff hlow hhigh hc hd
  have hbound := tzDiff_bound hlow hhigh hc hd
  rw [hc.year_eq, hd.year_eq, ← hiff]
  simp only [jdllStdDateGetTz, hlocal, hgmt, Except.ok.injEq]
  constructor
  · exact int32_ofInt_inj hbound (by omega)
  · intro h
    rw [h]

/-- The clocks of a zone -/
def zoneTime (offset t : ℤ) : Option Tm := some (tmOf (momentOf (t + 60 * offset)))

/-- 31 December 2023, 10:00 UTC, two hours ahead of it -/
theorem getTz_midday :
    jdllStdDateGetTz (zoneTime 120) (zoneTime 0) 1704016800 = .ok (Int32.ofInt 120) :=
  (@getTz_iff (zoneTime 120) (zoneTime 0) 1704016800 120 (by decide) (by decide) (by decide)
    (by decide)).mpr (.inr (by decide))

/-- Thirteen hours later the local year is 2024 and that of UTC still 2023. -/
theorem getTz_newYear :
    zoneTime 120 1704063600 = some ⟨0, 0, 1, 0, 124⟩ ∧
      zoneTime 0 1704063600 = some ⟨0, 0, 23, 364, 123⟩ ∧
      jdllStdDateGetTz (zoneTime 120) (zoneTime 0) 1704063600 = .ok (-2760) ∧
      jdllStdDateGetTz (zoneTime 120) (zoneTime 0) 1704063600 ≠ .ok (Int32.ofInt 120) := by
  decide

end JelloVM
