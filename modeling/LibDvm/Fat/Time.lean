import LibDvm.Fat.Model
import LibDvm.Lib.Calendar
import LibDvm.Lib.Words

/-! # Time stamps on FAT volumes

The packing of a time stamp into a date word and a time word, and back. What the C
library computes, `localtime_r` and `mktime`, is a parameter.
-/

namespace LibDvm.Fat

open Calendar Words

/-! ## Packing and unpacking -/

/-- Conversion to `DWORD`. -/
def dword (n : Int) : Nat := (n % 2 ^ 32).toNat

/-- `<<` on `DWORD`s. -/
def dwordShl (n k : Nat) : Nat := (n <<< k) % 2 ^ 32

/-- Conversion to `WORD`. -/
def word (n : Nat) : Nat := n % 2 ^ 16

/-- `_FAT_make_fattime`. -/
def makeFattime (localtime : Int → Tm) (time : Int) : Nat :=
  let stm := localtime time
  dwordShl (dword (stm.tmYear - 80)) 25 ||| dwordShl (dword (stm.tmMon + 1)) 21 |||
    dwordShl (dword stm.tmMday) 16 ||| dwordShl (dword stm.tmHour) 11 |||
    dwordShl (dword stm.tmMin) 5 ||| dword stm.tmSec >>> 1

/-- The fields `_FAT_make_time` fills in. -/
def timeFields (fdate ftime : Nat) : Tm where
  tmSec := ((ftime &&& 0x1f) <<< 1 : Nat)
  tmMin := ((ftime >>> 5) &&& 0x3f : Nat)
  tmHour := (ftime >>> 11 : Nat)
  tmMday := (fdate &&& 0x1f : Nat)
  tmMon := ((fdate >>> 5) &&& 0xf : Nat) - 1
  tmYear := (fdate >>> 9 : Nat) + 80

/-- `_FAT_make_time`. -/
def makeTime (mktime : Tm → Int) (fdate ftime : Nat) : Int := mktime (timeFields fdate ftime)

/-! ## Setting the times of a file -/

/-- The times in a `FILINFO`. -/
structure FilInfo where
  acdate : Nat
  actime : Nat
  fdate : Nat
  ftime : Nat
  crdate : Nat
  crtime : Nat
deriving DecidableEq

def dateWord (tm : Nat) : Nat := word (tm >>> 16)

def timeWord (tm : Nat) : Nat := word tm

/-- `f_utime` on a volume. -/
structure UtimeCalls (ν : Type) where
  fUtime : ν → (path : Name) → FilInfo → ν × FResult

/-- The `FILINFO` of `_FAT_utimes_r`, `getFattime` being what `get_fattime` answers. -/
def utimesInfo (localtime : Int → Tm) (getFattime : Nat) (times : Option (Int × Int)) : FilInfo :=
  let tm := match times with
    | some (access, modification) =>
        (makeFattime localtime access, makeFattime localtime modification)
    | none => (getFattime, getFattime)
  { acdate := dateWord tm.1
    actime := timeWord tm.1
    fdate := dateWord tm.2
    ftime := timeWord tm.2
    crdate := 0
    crtime := 0 }

/-- `_FAT_utimes_r`. -/
def utimes {ν : Type} (fatfs : UtimeCalls ν) (localtime : Int → Tm) (getFattime : Nat) (vol : ν)
    (path : Name) (times : Option (Int × Int)) : ν × Except Errno Unit :=
  let r := fatfs.fUtime vol (stripDevice path) (utimesInfo localtime getFattime times)
  (r.1, setErrno r.2 ())

/-! ## The fields of a packed time -/

structure Packable (tm : Tm) : Prop where
  valid : tm.Valid
  since : 80 ≤ tm.tmYear
  until_ : tm.tmYear ≤ 207

theorem dword_of_bounds {n : Int} (h0 : 0 ≤ n) (h : n < 2 ^ 32) : (dword n : Int) = n := by
  unfold dword
  omega

theorem dwordShl_of_lt {n k : Nat} (h : n * 2 ^ k < 2 ^ 32) : dwordShl n k = n <<< k := by
  rw [dwordShl, Nat.shiftLeft_eq, Nat.mod_eq_of_lt h]

theorem pack_eq_sum {year mon mday hour min sec : Nat} (hyear : year < 128) (hmon : mon < 16)
    (hmday : mday < 32) (hhour : hour < 32) (hmin : min < 64) (hsec : sec < 32) :
    dwordShl year 25 ||| dwordShl mon 21 ||| dwordShl mday 16 ||| dwordShl hour 11 |||
        dwordShl min 5 ||| sec =
      year * 2 ^ 25 + (mon * 2 ^ 21 + (mday * 2 ^ 16 + (hour * 2 ^ 11 + (min * 2 ^ 5 + sec)))) := by
  rw [dwordShl_of_lt (by omega), dwordShl_of_lt (by omega), dwordShl_of_lt (by omega),
    dwordShl_of_lt (by omega), dwordShl_of_lt (by omega)]
  rw [Nat.or_assoc, Nat.or_assoc, Nat.or_assoc, Nat.or_assoc, shiftLeft_or min (by omega),
    shiftLeft_or hour (by omega), shiftLeft_or mday (by omega), shiftLeft_or mon (by omega),
    shiftLeft_or year (by omega)]

variable {localtime : Int → Tm} {mktime : Tm → Int}

theorem makeFattime_eq {t : Int} (h : Packable (localtime t)) :
    (makeFattime localtime t : Int) =
      ((localtime t).tmYear - 80) * 2 ^ 25 + (((localtime t).tmMon + 1) * 2 ^ 21 +
        ((localtime t).tmMday * 2 ^ 16 + ((localtime t).tmHour * 2 ^ 11 +
          ((localtime t).tmMin * 2 ^ 5 + (localtime t).tmSec / 2)))) := by
  obtain ⟨⟨hsec, hmin, hhour, hmon, hmday⟩, hsince, huntil⟩ := h
  have hlast := daysInMonth_le (localtime t).tmYear (localtime t).tmMon
  unfold makeFattime
  dsimp only
  generalize localtime t = tm at *
  have hyear : (dword (tm.tmYear - 80) : Int) = tm.tmYear - 80 :=
    dword_of_bounds (by omega) (by omega)
  have hmonth : (dword (tm.tmMon + 1) : Int) = tm.tmMon + 1 :=
    dword_of_bounds (by omega) (by omega)
  have hday : (dword tm.tmMday : Int) = tm.tmMday := dword_of_bounds (by omega) (by omega)
  have hhour' : (dword tm.tmHour : Int) = tm.tmHour := dword_of_bounds (by omega) (by omega)
  have hmin' : (dword tm.tmMin : Int) = tm.tmMin := dword_of_bounds (by omega) (by omega)
  have hsec' : (dword tm.tmSec : Int) = tm.tmSec := dword_of_bounds (by omega) (by omega)
  rw [Nat.shiftRight_eq_div_pow, pack_eq_sum (by omega) (by omega) (by omega) (by omega)
    (by omega) (by omega)]
  omega

theorem timeFields_eq (fdate ftime : Nat) :
    timeFields fdate ftime =
      { tmSec := (ftime % 2 ^ 5 * 2 : Nat)
        tmMin := (ftime / 2 ^ 5 % 2 ^ 6 : Nat)
        tmHour := (ftime / 2 ^ 11 : Nat)
        tmMday := (fdate % 2 ^ 5 : Nat)
        tmMon := (fdate / 2 ^ 5 % 2 ^ 4 : Nat) - 1
        tmYear := (fdate / 2 ^ 9 : Nat) + 80 } := by
  have hsec : ftime &&& 0x1f = ftime % 2 ^ 5 := Nat.and_two_pow_sub_one_eq_mod ftime 5
  have hmin : (ftime >>> 5) &&& 0x3f = ftime / 2 ^ 5 % 2 ^ 6 := field_eq ftime 5 6
  have hmday : fdate &&& 0x1f = fdate % 2 ^ 5 := Nat.and_two_pow_sub_one_eq_mod fdate 5
  have hmon : (fdate >>> 5) &&& 0xf = fdate / 2 ^ 5 % 2 ^ 4 := field_eq fdate 5 4
  rw [timeFields, hsec, hmin, hmday, hmon, Nat.shiftLeft_eq, Nat.shiftRight_eq_div_pow,
    Nat.shiftRight_eq_div_pow]

theorem timeFields_makeFattime {t : Int} (h : Packable (localtime t)) :
    timeFields (dateWord (makeFattime localtime t)) (timeWord (makeFattime localtime t)) =
      { localtime t with tmSec := (localtime t).tmSec / 2 * 2 } := by
  have hsum := makeFattime_eq h
  obtain ⟨⟨hsec, hmin, hhour, hmon, hmday⟩, hsince, huntil⟩ := h
  have hlast := daysInMonth_le (localtime t).tmYear (localtime t).tmMon
  rw [timeFields_eq, dateWord, timeWord, word, word, Nat.shiftRight_eq_div_pow]
  generalize makeFattime localtime t = packed at *
  ext <;> dsimp only <;> omega

theorem makeFattime_timeFields {fdate ftime : Nat} (hdate : fdate < 2 ^ 16)
    (htime : ftime < 2 ^ 16) {t : Int} (hvalid : (timeFields fdate ftime).Valid)
    (hlocal : localtime t = timeFields fdate ftime) :
    dateWord (makeFattime localtime t) = fdate ∧ timeWord (makeFattime localtime t) = ftime := by
  have hfields := timeFields_eq fdate ftime
  have hpackable : Packable (localtime t) := by
    rw [hlocal]
    refine ⟨hvalid, ?_, ?_⟩ <;> rw [hfields] <;> dsimp only <;> omega
  have hsum := makeFattime_eq hpackable
  rw [hlocal, hfields] at hsum
  rw [hfields] at hvalid
  obtain ⟨hsec, hmin, hhour, hmon, hmday⟩ := hvalid
  dsimp only at hsum hsec hmin hhour hmon hmday
  rw [dateWord, timeWord, word, word, Nat.shiftRight_eq_div_pow]
  omega

theorem makeFattime_mono {t t' : Int} (h : Packable (localtime t)) (h' : Packable (localtime t'))
    (hle : (localtime t).NoLater (localtime t')) :
    makeFattime localtime t ≤ makeFattime localtime t' := by
  have hsum := makeFattime_eq h
  have hsum' := makeFattime_eq h'
  obtain ⟨⟨hsec, hmin, hhour, hmon, hmday⟩, -, -⟩ := h
  obtain ⟨⟨hsec', hmin', hhour', hmon', hmday'⟩, -, -⟩ := h'
  have hlast := daysInMonth_le (localtime t).tmYear (localtime t).tmMon
  unfold Tm.NoLater at hle
  omega

/-! ## Round trips -/

/-- 1980-01-01 00:00:00. -/
def firstTime : Tm := ⟨0, 0, 0, 1, 0, 80⟩

/-- 2107-12-31 23:59:59. -/
def lastTime : Tm := ⟨59, 59, 23, 31, 11, 207⟩

theorem firstTime_valid : firstTime.Valid := by constructor <;> decide

theorem lastTime_valid : lastTime.Valid := by constructor <;> decide

theorem packable_of_range (z : Zone localtime mktime) {t : Int} (hsince : mktime firstTime ≤ t)
    (huntil : t ≤ mktime lastTime) : Packable (localtime t) := by
  have hlow := z.ordered _ _ hsince
  have hhigh := z.ordered _ _ huntil
  rw [z.localtime_mktime firstTime firstTime_valid] at hlow
  rw [z.localtime_mktime lastTime lastTime_valid] at hhigh
  unfold Tm.NoLater firstTime at hlow
  unfold Tm.NoLater lastTime at hhigh
  dsimp only at hlow hhigh
  exact ⟨z.valid t, by omega, by omega⟩

/-- In a zone without daylight saving, for the times that fit: the words that
`_FAT_utimes_r` stores unpack to the time rounded down to an even second, words of a valid
date and time are packed to themselves, and packing keeps the order. -/
theorem fat_time_round_trip (z : Zone localtime mktime) (getFattime : Nat) :
    (∀ access modification : Int,
      let info := utimesInfo localtime getFattime (some (access, modification))
      (mktime firstTime ≤ access → access ≤ mktime lastTime →
        makeTime mktime info.acdate info.actime = access - (localtime access).tmSec % 2) ∧
      (mktime firstTime ≤ modification → modification ≤ mktime lastTime →
        makeTime mktime info.fdate info.ftime =
          modification - (localtime modification).tmSec % 2)) ∧
    (∀ fdate ftime : Nat, fdate < 2 ^ 16 → ftime < 2 ^ 16 → (timeFields fdate ftime).Valid →
      dateWord (makeFattime localtime (makeTime mktime fdate ftime)) = fdate ∧
        timeWord (makeFattime localtime (makeTime mktime fdate ftime)) = ftime) ∧
    ∀ t t' : Int, mktime firstTime ≤ t → t ≤ t' → t' ≤ mktime lastTime →
      makeFattime localtime t ≤ makeFattime localtime t' := by
  have hback {t : Int} (hsince : mktime firstTime ≤ t) (huntil : t ≤ mktime lastTime) :
      makeTime mktime (dateWord (makeFattime localtime t)) (timeWord (makeFattime localtime t)) =
        t - (localtime t).tmSec % 2 := by
    rw [makeTime, timeFields_makeFattime (packable_of_range z hsince huntil), z.mktime_even]
  refine ⟨fun access modification => ⟨hback, hback⟩, ?_, ?_⟩
  · intro fdate ftime hdate htime hvalid
    exact makeFattime_timeFields hdate htime hvalid (z.localtime_mktime _ hvalid)
  · intro t t' hsince hle huntil
    exact makeFattime_mono (packable_of_range z hsince (by omega))
      (packable_of_range z (by omega) huntil) (z.ordered t t' hle)

/-- 2000-02-29 01:00:01 one hour east of Greenwich. -/
theorem fat_time_round_trip_sample :
    makeTime (mktimeAt 3600)
        (utimesInfo (localtimeAt 3600) 0 (some (951782401, 951782401))).fdate
        (utimesInfo (localtimeAt 3600) 0 (some (951782401, 951782401))).ftime =
      951782401 - (localtimeAt 3600 951782401).tmSec % 2 :=
  ((fat_time_round_trip (gregorianZone 3600) 0).1 951782401 951782401).2 (by decide) (by decide)

example : utimesInfo (localtimeAt 3600) 0 (some (951782401, 951782401)) =
    ⟨10333, 2048, 10333, 2048, 0, 0⟩ := by decide +kernel

end LibDvm.Fat
