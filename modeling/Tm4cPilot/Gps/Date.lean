import Mathlib.Tactic

/-!
# Dates

`make_gps_time` finds the GPS week and the time in it, and `time_epoch_convert` the time since the
Unix epoch.
-/

namespace Tm4cPilot.Gps

def gpsLeapsecondsMillis : ℤ := 18000
def secPerWeek : ℤ := 7 * 86400
def msecPerWeek : ℤ := secPerWeek * 1000
def unixOffsetMsec : ℤ := 17000 * 86400 + 52 * 10 * msecPerWeek - gpsLeapsecondsMillis

/-- The computation of `ret` in 32 bits. -/
def gpsSeconds (days year hour min sec : ℤ) : ℤ :=
  let ret := days % 2 ^ 32
  let ret := (ret + year * 365 + 10501) % 2 ^ 32
  let ret := (ret * 24 + hour) % 2 ^ 32
  let ret := (ret * 60 + min) % 2 ^ 32
  let ret := (ret * 60 + sec) % 2 ^ 32
  (ret - 272764785) % 2 ^ 32

/-- `make_gps_time`: `time_week` and `time_week_ms`. -/
def makeGpsTime (bcdDate bcdMilliseconds : ℤ) : ℤ × ℤ :=
  let year := bcdDate % 100
  let mon := bcdDate / 100 % 100
  let day := bcdDate / 10000 % 256
  let msec := bcdMilliseconds % 1000
  let sec := bcdMilliseconds / 1000 % 100
  let min := bcdMilliseconds / 100000 % 100
  let hour := bcdMilliseconds / 10000000 % 100
  let year' := if 0 ≥ mon - 2 then (year - 1) % 256 else year
  let rmon := if 0 ≥ mon - 2 then mon - 2 + 12 else mon - 2
  let ret := gpsSeconds (year' / 4 - gpsLeapsecondsMillis / 1000 + 367 * rmon / 12 + day) year' hour
    min sec
  (ret / secPerWeek % 2 ^ 16, (ret % secPerWeek * 1000 % 2 ^ 32 + msec) % 2 ^ 32)

def timeEpochConvert (gpsWeek gpsMs : ℤ) : ℤ :=
  (unixOffsetMsec + gpsWeek * msecPerWeek + gpsMs) % 2 ^ 64

/-! ## The calendar -/

/-- The Gregorian leap years. -/
def isLeap (year : ℕ) : Bool := year % 4 = 0 && (year % 100 ≠ 0 || year % 400 = 0)

def daysInMonth (year month : ℕ) : ℕ :=
  if month = 2 then if isLeap year then 29 else 28
  else if month = 4 ∨ month = 6 ∨ month = 9 ∨ month = 11 then 30 else 31

/-- The days from 1970-01-01 to the first of a month. -/
def daysBefore (year month : ℕ) : ℕ :=
  ((List.range (year - 1970)).map fun i => if isLeap (1970 + i) then 366 else 365).sum +
    ((List.range (month - 1)).map fun i => daysInMonth year (i + 1)).sum

/-- A time from 2000-03-01 to the end of 2099. -/
structure DateTime where
  year : ℕ
  month : ℕ
  day : ℕ
  hour : ℕ
  minute : ℕ
  second : ℕ
  millis : ℕ
  year_mem : 2000 ≤ year ∧ year ≤ 2099
  month_mem : 1 ≤ month ∧ month ≤ 12
  day_mem : 1 ≤ day ∧ day ≤ daysInMonth year month
  time_lt : hour < 24 ∧ minute < 60 ∧ second < 60 ∧ millis < 1000
  march : year = 2000 → 3 ≤ month

namespace DateTime

variable (t : DateTime)

/-- The true time since the Unix epoch. -/
def unixMillis : ℤ :=
  ((((daysBefore t.year t.month + t.day - 1) * 24 + t.hour) * 60 + t.minute) * 60 + t.second) *
    1000 + t.millis

/-- `ddmmyy`. -/
def bcdDate : ℤ := t.day * 10000 + t.month * 100 + (t.year - 2000)

/-- `hhmmss * 1000 + ms`. -/
def bcdMilliseconds : ℤ := (t.hour * 10000 + t.minute * 100 + t.second) * 1000 + t.millis

/-- What the GPS code makes of the date. -/
def converted : ℤ :=
  timeEpochConvert (makeGpsTime t.bcdDate t.bcdMilliseconds).1
    (makeGpsTime t.bcdDate t.bcdMilliseconds).2

end DateTime

/-- The days up to a month of this century, with a year that begins in March. -/
theorem daysBefore_eq : ∀ y < 100, ∀ m < 13, 1 ≤ m → (y = 0 → 3 ≤ m) →
    daysBefore (2000 + y) m = 10987 +
      if m ≤ 2 then (y - 1) / 4 + 367 * (m + 10) / 12 + (y - 1) * 365
      else y / 4 + 367 * (m - 2) / 12 + y * 365 := by
  decide +kernel

theorem daysInMonth_le (year month : ℕ) : daysInMonth year month ≤ 31 := by
  unfold daysInMonth
  split_ifs <;> omega

theorem gpsSeconds_eq {days year hour min sec : ℤ} (hdays : 0 ≤ days ∧ days ≤ 500)
    (hyear : 0 ≤ year ∧ year ≤ 99) (hhour : 0 ≤ hour ∧ hour < 24) (hmin : 0 ≤ min ∧ min < 60)
    (hsec : 0 ≤ sec ∧ sec < 60) :
    gpsSeconds days year hour min sec =
      (((days + year * 365 + 10501) * 24 + hour) * 60 + min) * 60 + sec - 272764785 := by
  simp only [gpsSeconds]
  omega

theorem timeEpochConvert_eq {ret msec : ℤ} (hret : 0 ≤ ret ∧ ret < 2 ^ 32)
    (hmsec : 0 ≤ msec ∧ msec < 1000) :
    timeEpochConvert (ret / secPerWeek % 2 ^ 16)
        ((ret % secPerWeek * 1000 % 2 ^ 32 + msec) % 2 ^ 32) =
      (ret + 315964782) * 1000 + msec := by
  simp only [timeEpochConvert, unixOffsetMsec, msecPerWeek, secPerWeek, gpsLeapsecondsMillis]
  have hweek : ret / (7 * 86400) % 2 ^ 16 = ret / (7 * 86400) := by omega
  omega

/-- The time is three days and three seconds early: leap seconds are subtracted in place of days. -/
theorem DateTime.converted_add (t : DateTime) : t.converted + 259203000 = t.unixMillis := by
  obtain ⟨year, month, day, hour, minute, second, millis, ⟨hlow, hhigh⟩, ⟨hmonth, hmonth'⟩,
    ⟨hday, hday'⟩, ⟨hhour, hminute, hsecond, hmillis⟩, hmarch⟩ := t
  obtain ⟨y, rfl⟩ := Nat.exists_eq_add_of_le hlow
  have hdays := daysBefore_eq y (by omega) month (by omega) hmonth (by omega)
  have hmost := daysInMonth_le (2000 + y) month
  obtain ⟨date, hdate⟩ : ∃ date : ℤ, date = day * 10000 + month * 100 + ((2000 + y : ℕ) - 2000) :=
    ⟨_, rfl⟩
  obtain ⟨time, htime⟩ : ∃ time : ℤ,
      time = (hour * 10000 + minute * 100 + second) * 1000 + millis := ⟨_, rfl⟩
  have hyear : date % 100 = y := by omega
  have hmon : date / 100 % 100 = month := by omega
  have hdayOf : date / 10000 % 256 = day := by omega
  have hmsec : time % 1000 = millis := by omega
  have hsec : time / 1000 % 100 = second := by omega
  have hmin : time / 100000 % 100 = minute := by omega
  have hhourOf : time / 10000000 % 100 = hour := by omega
  simp only [DateTime.converted, DateTime.unixMillis, DateTime.bcdDate, DateTime.bcdMilliseconds,
    ← hdate, ← htime, makeGpsTime, hyear, hmon, hdayOf, hmsec, hsec, hmin, hhourOf, gpsLeapsecondsMillis]
  by_cases hjanuary : month ≤ 2
  · rw [if_pos hjanuary] at hdays
    rw [if_pos (by omega), if_pos (by omega), gpsSeconds_eq (by omega) (by omega) (by omega)
      (by omega) (by omega), timeEpochConvert_eq (by omega) (by omega)]
    omega
  · rw [if_neg hjanuary] at hdays
    rw [if_neg (by omega), if_neg (by omega), gpsSeconds_eq (by omega) (by omega) (by omega)
      (by omega) (by omega), timeEpochConvert_eq (by omega) (by omega)]
    omega

/-- The conversion is right for no time of the century. -/
theorem converted_eq_iff (t : DateTime) : t.converted = t.unixMillis ↔ False := by
  have hearly := t.converted_add
  exact ⟨fun hright => by omega, False.elim⟩

theorem converted_new_year :
    let t : DateTime :=
      ⟨2018, 1, 1, 0, 0, 0, 0, by decide, by decide, by decide, by decide, by decide⟩
    t.converted = 1514505597000 ∧ t.unixMillis = 1514764800000 := by
  decide +kernel

end Tm4cPilot.Gps
