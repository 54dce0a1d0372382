import Mathlib

namespace Calendar

/-- The proleptic Gregorian calendar: the days are counted from 1 January 1970, and years and
days before it are negative. -/
def Leap (y : ℤ) : Prop := y % 4 = 0 ∧ (y % 100 ≠ 0 ∨ y % 400 = 0)

instance (y : ℤ) : Decidable (Leap y) := by
  unfold Leap
  infer_instance

def yearDays (y : ℤ) : ℤ := if Leap y then 366 else 365

/-- The number of 1 January of the year -/
def yearStart (y : ℤ) : ℤ :=
  365 * (y - 1970) + ((y - 1) / 4 - 492) - ((y - 1) / 100 - 19) + ((y - 1) / 400 - 4)

example : yearStart 1970 = 0 := by decide

theorem yearDays_cases (y : ℤ) : yearDays y = 365 ∨ yearDays y = 366 := by
  unfold yearDays
  split_ifs
  · exact .inr rfl
  · exact .inl rfl

theorem yearStart_succ (y : ℤ) : yearStart (y + 1) = yearStart y + yearDays y := by
  unfold yearStart yearDays Leap
  split_ifs with h <;> omega

theorem yearStart_mono {y z : ℤ} (h : y ≤ z) : yearStart y ≤ yearStart z := by
  induction z, h using Int.leInduction with
  | base => exact le_refl _
  | succ z hz ih =>
    have hsucc := yearStart_succ z
    have hdays := yearDays_cases z
    omega

/-- A guess from the mean length of a year is at most one year off. -/
def yearOf (d : ℤ) : ℤ :=
  let y := 1970 + 400 * d / 146097
  if d < yearStart y then y - 1 else if yearStart (y + 1) ≤ d then y + 1 else y

theorem yearStart_yearOf (d : ℤ) : yearStart (yearOf d) ≤ d ∧ d < yearStart (yearOf d + 1) := by
  unfold yearOf
  have hlow : yearStart (1970 + 400 * d / 146097 - 1) ≤ d := by
    unfold yearStart
    omega
  have hhigh : d < yearStart (1970 + 400 * d / 146097 + 2) := by
    unfold yearStart
    omega
  dsimp only
  generalize 1970 + 400 * d / 146097 = y at hlow hhigh ⊢
  split_ifs with h₁ h₂
  · rw [sub_add_cancel]
    exact ⟨hlow, h₁⟩
  · rw [show y + 1 + 1 = y + 2 by ring]
    exact ⟨h₂, hhigh⟩
  · exact ⟨not_lt.mp h₁, not_le.mp h₂⟩

theorem yearOf_unique {d y : ℤ} (h : yearStart y ≤ d) (h' : d < yearStart (y + 1)) :
    yearOf d = y := by
  have hof := yearStart_yearOf d
  rcases lt_trichotomy (yearOf d) y with hlt | heq | hgt
  · have := yearStart_mono (show yearOf d + 1 ≤ y by omega)
    omega
  · exact heq
  · have := yearStart_mono (show y + 1 ≤ yearOf d by omega)
    omega

/-- A point in time by its year, the day in the year, and the time of day. -/
structure Moment where
  year : ℤ
  yday : ℤ
  hour : ℤ
  min : ℤ
  sec : ℤ
  deriving DecidableEq

/-- The fields are in their ranges, and the moment is `t` seconds after the epoch. -/
structure Moment.At (c : Moment) (t : ℤ) : Prop where
  yday : 0 ≤ c.yday ∧ c.yday < yearDays c.year
  hour : 0 ≤ c.hour ∧ c.hour < 24
  min : 0 ≤ c.min ∧ c.min < 60
  sec : 0 ≤ c.sec ∧ c.sec < 60
  instant : t = 86400 * (yearStart c.year + c.yday) + 3600 * c.hour + 60 * c.min + c.sec

def momentOf (t : ℤ) : Moment where
  year := yearOf (t / 86400)
  yday := t / 86400 - yearStart (yearOf (t / 86400))
  hour := t % 86400 / 3600
  min := t % 3600 / 60
  sec := t % 60

theorem momentOf_at (t : ℤ) : (momentOf t).At t := by
  have hof := yearStart_yearOf (t / 86400)
  have hsucc := yearStart_succ (yearOf (t / 86400))
  unfold momentOf
  generalize yearOf (t / 86400) = y at hof hsucc
  constructor <;> dsimp only <;> omega

theorem Moment.At.day {c : Moment} {t : ℤ} (h : c.At t) :
    t / 86400 = yearStart c.year + c.yday := by
  obtain ⟨-, hh, hm, hs, ht⟩ := h
  omega

theorem Moment.At.year_eq {c : Moment} {t : ℤ} (h : c.At t) : yearOf (t / 86400) = c.year := by
  have hday := h.day
  have hyday := h.yday
  have hsucc := yearStart_succ c.year
  exact yearOf_unique (by omega) (by omega)

end Calendar
