import Mathlib.Algebra.Order.Ring.Int
import Mathlib.Tactic.Common
import Mathlib.Tactic.IntervalCases

/-! # Calendar time

Broken-down local time as C counts it, and what `localtime` and `mktime` promise of it
in a zone without daylight saving: between time stamps and valid fields they are inverse
to each other and keep the order. The Gregorian calendar at a fixed offset from UTC is
such a zone.
-/

namespace LibDvm.Calendar

/-- `struct tm`, without the days counted from the week and from the year and without
the daylight saving flag. Years count from 1900, months from 0, days from 1. -/
@[ext] structure Tm where
  tmSec : Int
  tmMin : Int
  tmHour : Int
  tmMday : Int
  tmMon : Int
  tmYear : Int
deriving DecidableEq

def isLeap (year : Int) : Bool :=
  let y := year + 1900
  y % 4 == 0 && (y % 100 != 0 || y % 400 == 0)

def daysInMonth (year mon : Int) : Int :=
  if mon = 1 then (if isLeap year then 29 else 28)
  else if mon = 3 ∨ mon = 5 ∨ mon = 8 ∨ mon = 10 then 30 else 31

structure Tm.Valid (tm : Tm) : Prop where
  sec : 0 ≤ tm.tmSec ∧ tm.tmSec < 60
  min : 0 ≤ tm.tmMin ∧ tm.tmMin < 60
  hour : 0 ≤ tm.tmHour ∧ tm.tmHour < 24
  mon : 0 ≤ tm.tmMon ∧ tm.tmMon < 12
  mday : 1 ≤ tm.tmMday ∧ tm.tmMday ≤ daysInMonth tm.tmYear tm.tmMon

/-- `a` is no later than `b`, both of them valid. -/
def Tm.NoLater (a b : Tm) : Prop :=
  a.tmYear < b.tmYear ∨ a.tmYear = b.tmYear ∧
    (a.tmMon < b.tmMon ∨ a.tmMon = b.tmMon ∧
      (a.tmMday < b.tmMday ∨ a.tmMday = b.tmMday ∧
        (a.tmHour < b.tmHour ∨ a.tmHour = b.tmHour ∧
          (a.tmMin < b.tmMin ∨ a.tmMin = b.tmMin ∧ a.tmSec ≤ b.tmSec))))

/-- A zone without daylight saving: local time never goes back. -/
structure Zone (localtime : Int → Tm) (mktime : Tm → Int) : Prop where
  valid : ∀ t, (localtime t).Valid
  mktime_localtime : ∀ t, mktime (localtime t) = t
  localtime_mktime : ∀ tm : Tm, tm.Valid → localtime (mktime tm) = tm
  ordered : ∀ t t', t ≤ t' → (localtime t).NoLater (localtime t')

theorem daysInMonth_le (year mon : Int) : daysInMonth year mon ≤ 31 := by
  unfold daysInMonth
  split_ifs <;> omega

theorem Tm.NoLater.antisymm {a b : Tm} (hab : a.NoLater b) (hba : b.NoLater a) : a = b := by
  unfold Tm.NoLater at hab hba
  ext <;> omega

theorem Zone.mktime_even {localtime : Int → Tm} {mktime : Tm → Int} (z : Zone localtime mktime)
    (t : Int) :
    mktime { localtime t with tmSec := (localtime t).tmSec / 2 * 2 } =
      t - (localtime t).tmSec % 2 := by
  generalize htm : localtime t = tm
  have hvalid : tm.Valid := htm ▸ z.valid t
  have hsec := hvalid.sec
  rcases Int.emod_two_eq_zero_or_one tm.tmSec with heven | hodd
  · have hsame : { tm with tmSec := tm.tmSec / 2 * 2 } = tm := by
      ext <;> dsimp only
      omega
    rw [hsame, ← htm, z.mktime_localtime, htm, heven, Int.sub_zero]
  · -- nothing lies between these fields and those of `t`
    generalize hprev : { tm with tmSec := tm.tmSec / 2 * 2 } = prev
    have hprevValid : prev.Valid := by
      rw [← hprev]
      exact ⟨by dsimp only; omega, hvalid.min, hvalid.hour, hvalid.mon, hvalid.mday⟩
    have hlocal := z.localtime_mktime prev hprevValid
    have hlt : mktime prev < t := by
      by_contra hge
      have hle := z.ordered t (mktime prev) (by omega)
      rw [hlocal, htm, ← hprev] at hle
      unfold Tm.NoLater at hle
      dsimp only at hle
      omega
    have hlow := z.ordered (mktime prev) (t - 1) (by omega)
    have hhigh := z.ordered (t - 1) t (by omega)
    rw [hlocal] at hlow
    rw [htm] at hhigh
    have hcases : localtime (t - 1) = prev ∨ localtime (t - 1) = tm := by
      rw [← hprev] at hlow ⊢
      unfold Tm.NoLater at hlow hhigh
      dsimp only at hlow
      by_cases hsame : (localtime (t - 1)).tmSec = tm.tmSec
      · right
        ext <;> omega
      · left
        ext <;> dsimp only <;> omega
    rcases hcases with heq | heq
    · rw [← heq, z.mktime_localtime, hodd]
    · have hback := congrArg mktime (heq.trans htm.symm)
      rw [z.mktime_localtime, z.mktime_localtime] at hback
      omega

/-! ## Counting days -/

def daysBeforeYear (year : Int) : Int :=
  365 * year + (year + 1899) / 4 - (year + 1899) / 100 + (year + 1899) / 400

def leapDay (year : Int) : Int := if isLeap year then 1 else 0

def daysBeforeMonth (year mon : Int) : Int :=
  (367 * mon + 5) / 12 - if mon ≤ 1 then 0 else 2 - leapDay year

theorem leapDay_bounds (year : Int) : 0 ≤ leapDay year ∧ leapDay year ≤ 1 := by
  unfold leapDay
  split <;> omega

theorem daysBeforeYear_succ (year : Int) :
    daysBeforeYear (year + 1) = daysBeforeYear year + 365 + leapDay year := by
  have hleap : isLeap year = true ↔
      (year + 1900) % 4 = 0 ∧ ((year + 1900) % 100 ≠ 0 ∨ (year + 1900) % 400 = 0) := by
    simp [isLeap]
  unfold daysBeforeYear leapDay
  split
  · next h =>
      have := hleap.mp h
      omega
  · next h =>
      have := mt hleap.mpr h
      omega

theorem daysBeforeYear_mono {year year' : Int} (h : year ≤ year') :
    daysBeforeYear year ≤ daysBeforeYear year' := by
  unfold daysBeforeYear
  omega

theorem daysBeforeMonth_succ {year mon : Int} (h : 0 ≤ mon ∧ mon < 12) :
    daysBeforeMonth year (mon + 1) = daysBeforeMonth year mon + daysInMonth year mon := by
  obtain ⟨h0, h12⟩ := h
  unfold daysBeforeMonth daysInMonth leapDay
  interval_cases mon <;> cases isLeap year <;> decide

theorem daysBeforeMonth_mono (year : Int) {mon mon' : Int} (h0 : 0 ≤ mon) (h : mon ≤ mon') :
    daysBeforeMonth year mon ≤ daysBeforeMonth year mon' := by
  have hleap := leapDay_bounds year
  unfold daysBeforeMonth
  split_ifs <;> omega

def dayNumber (tm : Tm) : Int :=
  daysBeforeYear tm.tmYear + daysBeforeMonth tm.tmYear tm.tmMon + (tm.tmMday - 1)

def secondNumber (tm : Tm) : Int :=
  dayNumber tm * 86400 + tm.tmHour * 3600 + tm.tmMin * 60 + tm.tmSec

theorem Tm.Valid.dayNumber_month {tm : Tm} (h : tm.Valid) :
    daysBeforeYear tm.tmYear + daysBeforeMonth tm.tmYear tm.tmMon ≤ dayNumber tm ∧
      dayNumber tm <
        daysBeforeYear tm.tmYear + daysBeforeMonth tm.tmYear (tm.tmMon + 1) := by
  have hmday := h.mday
  rw [daysBeforeMonth_succ h.mon]
  unfold dayNumber
  omega

theorem Tm.Valid.dayNumber_year {tm : Tm} (h : tm.Valid) :
    daysBeforeYear tm.tmYear ≤ dayNumber tm ∧
      dayNumber tm < daysBeforeYear (tm.tmYear + 1) := by
  obtain ⟨hlow, hhigh⟩ := h.dayNumber_month
  have hmon := h.mon
  have hfirst : daysBeforeMonth tm.tmYear 0 = 0 := by simp [daysBeforeMonth]
  have hlast : daysBeforeMonth tm.tmYear 12 = 365 + leapDay tm.tmYear := by
    unfold daysBeforeMonth
    omega
  have h0 := daysBeforeMonth_mono tm.tmYear (Int.le_refl 0) hmon.1
  have h12 : daysBeforeMonth tm.tmYear (tm.tmMon + 1) ≤ daysBeforeMonth tm.tmYear 12 :=
    daysBeforeMonth_mono tm.tmYear (by omega) (by omega)
  rw [daysBeforeYear_succ]
  omega

theorem dayNumber_lt {a b : Tm} (ha : a.Valid) (hb : b.Valid)
    (h : a.tmYear < b.tmYear ∨ a.tmYear = b.tmYear ∧
      (a.tmMon < b.tmMon ∨ a.tmMon = b.tmMon ∧ a.tmMday < b.tmMday)) :
    dayNumber a < dayNumber b := by
  rcases h with hyear | ⟨hyear, hmon | ⟨hmon, hmday⟩⟩
  · calc dayNumber a < daysBeforeYear (a.tmYear + 1) := ha.dayNumber_year.2
      _ ≤ daysBeforeYear b.tmYear := daysBeforeYear_mono hyear
      _ ≤ dayNumber b := hb.dayNumber_year.1
  · have hmon0 := ha.mon
    have hmono : daysBeforeMonth b.tmYear (a.tmMon + 1) ≤ daysBeforeMonth b.tmYear b.tmMon :=
      daysBeforeMonth_mono b.tmYear (by omega) hmon
    have hlow := hb.dayNumber_month.1
    have hhigh := ha.dayNumber_month.2
    rw [hyear] at hhigh
    omega
  · unfold dayNumber
    rw [hyear, hmon]
    omega

theorem secondNumber_lt {a b : Tm} (ha : a.Valid) (hb : b.Valid) (h : ¬ b.NoLater a) :
    secondNumber a < secondNumber b := by
  unfold Tm.NoLater at h
  have hday : dayNumber a < dayNumber b ∨ dayNumber a = dayNumber b ∧
      (a.tmHour < b.tmHour ∨ a.tmHour = b.tmHour ∧
        (a.tmMin < b.tmMin ∨ a.tmMin = b.tmMin ∧ a.tmSec < b.tmSec)) := by
    by_cases hdate : a.tmYear < b.tmYear ∨ a.tmYear = b.tmYear ∧
        (a.tmMon < b.tmMon ∨ a.tmMon = b.tmMon ∧ a.tmMday < b.tmMday)
    · exact .inl (dayNumber_lt ha hb hdate)
    · obtain ⟨hyear, hmon, hmday⟩ :
          a.tmYear = b.tmYear ∧ a.tmMon = b.tmMon ∧ a.tmMday = b.tmMday := by omega
      exact .inr ⟨by rw [dayNumber, dayNumber, hyear, hmon, hmday], by omega⟩
  have hhour := ha.hour
  have hmin := ha.min
  have hsec := ha.sec
  have hhour' := hb.hour
  have hmin' := hb.min
  have hsec' := hb.sec
  unfold secondNumber
  omega

theorem secondNumber_inj {a b : Tm} (ha : a.Valid) (hb : b.Valid)
    (h : secondNumber a = secondNumber b) : a = b := by
  have hab : a.NoLater b := by
    by_contra hlate
    exact Int.ne_of_gt (secondNumber_lt hb ha hlate) h
  have hba : b.NoLater a := by
    by_contra hlate
    exact Int.ne_of_lt (secondNumber_lt ha hb hlate) h
  exact hab.antisymm hba

/-! ## The Gregorian calendar at a fixed offset -/

/-- The year a day falls in: an estimate that is at most one year early. -/
def yearOf (day : Int) : Int :=
  let year := 400 * (day + 693135) / 146097 - 1899
  if daysBeforeYear (year + 1) ≤ day then year + 1 else year

theorem yearOf_spec (day : Int) :
    daysBeforeYear (yearOf day) ≤ day ∧ day < daysBeforeYear (yearOf day + 1) := by
  unfold yearOf
  dsimp only
  generalize hyear : 400 * (day + 693135) / 146097 - 1899 = year
  split
  · next hlate =>
      refine ⟨hlate, ?_⟩
      unfold daysBeforeYear
      omega
  · next hearly =>
      refine ⟨?_, by omega⟩
      unfold daysBeforeYear
      omega

def monthOf (year day : Int) : Int :=
  (12 * (day + if day < 59 + leapDay year then 0 else 2 - leapDay year) + 6) / 367

theorem monthOf_spec (year : Int) {day : Int} (h0 : 0 ≤ day) (h : day < 365 + leapDay year) :
    (0 ≤ monthOf year day ∧ monthOf year day < 12) ∧
      daysBeforeMonth year (monthOf year day) ≤ day ∧
      day < daysBeforeMonth year (monthOf year day + 1) := by
  have hleap := leapDay_bounds year
  unfold daysBeforeMonth monthOf
  generalize leapDay year = leap at *
  split_ifs <;> omega

/-- `mktime` of valid fields. -/
def mktimeAt (offset : Int) (tm : Tm) : Int := secondNumber tm - daysBeforeYear 70 * 86400 - offset

/-- `localtime`. -/
def localtimeAt (offset t : Int) : Tm :=
  let second := t + daysBeforeYear 70 * 86400 + offset
  let day := second / 86400
  let year := yearOf day
  let mon := monthOf year (day - daysBeforeYear year)
  { tmSec := second % 60
    tmMin := second / 60 % 60
    tmHour := second / 3600 % 24
    tmMday := day - daysBeforeYear year - daysBeforeMonth year mon + 1
    tmMon := mon
    tmYear := year }

example : localtimeAt 3600 951782400 = ⟨0, 0, 1, 29, 1, 100⟩ := by decide

theorem localtimeAt_spec (offset t : Int) :
    (localtimeAt offset t).Valid ∧ mktimeAt offset (localtimeAt offset t) = t := by
  unfold mktimeAt secondNumber dayNumber localtimeAt
  dsimp only
  generalize hsecond : t + daysBeforeYear 70 * 86400 + offset = second
  obtain ⟨hyear, hnext⟩ := yearOf_spec (second / 86400)
  rw [daysBeforeYear_succ] at hnext
  generalize yearOf (second / 86400) = year at *
  have hday : 0 ≤ second / 86400 - daysBeforeYear year := by omega
  obtain ⟨hmon, hfirst, hlast⟩ := monthOf_spec year hday (by omega)
  rw [daysBeforeMonth_succ hmon] at hlast
  generalize monthOf year (second / 86400 - daysBeforeYear year) = mon at *
  refine ⟨⟨?_, ?_, ?_, hmon, ?_⟩, by omega⟩ <;> dsimp only <;> omega

theorem gregorianZone (offset : Int) : Zone (localtimeAt offset) (mktimeAt offset) where
  valid := fun t => (localtimeAt_spec offset t).1
  mktime_localtime := fun t => (localtimeAt_spec offset t).2
  localtime_mktime := by
    intro tm hvalid
    obtain ⟨hvalid', heq⟩ := localtimeAt_spec offset (mktimeAt offset tm)
    apply secondNumber_inj hvalid' hvalid
    unfold mktimeAt at heq ⊢
    omega
  ordered := by
    intro t t' hle
    obtain ⟨hvalid, heq⟩ := localtimeAt_spec offset t
    obtain ⟨hvalid', heq'⟩ := localtimeAt_spec offset t'
    by_contra hlate
    have hlt := secondNumber_lt hvalid' hvalid hlate
    unfold mktimeAt at heq heq'
    omega

end LibDvm.Calendar
