import QuantumKernel.Lib.Itoa
import QuantumKernel.Syscall.Structures

/-! # The clock

The kernel reads the time of day from the registers of the RTC.  The zone comes from two places: the
file `tz.txt`, whose offset is what `SYS_TIMEZONE` reports, and a rule by date, whose offset is what
`SYS_RTC_TIME` adds to the hour.  `instant` is the time on a calendar, in seconds.
-/

namespace QuantumKernel.Rtc

open ByteStore Syscall

/-- The registers of the RTC, and `timezone_offset`. -/
structure Clock where
  readReg : UInt8 → UInt8
  timezoneOffset : Int32

/-- `SYS_RTC_TIME`: what is stored at `out`. -/
def sysRtcTime (clock : Clock) (out : UInt32) : Option RtcTime :=
  if out ≠ 0 then some (rtcGetLocalTime clock.readReg) else none

/-- `SYS_TIMEZONE`: what is stored at `out`. -/
def sysTimezone (clock : Clock) (out : UInt32) : Option Int32 :=
  if out ≠ 0 then some clock.timezoneOffset else none

/-! ## The file of the zone -/

/-- `while (*str == ' ' || *str == '\t') str++;` -/
def skipBlanks (str : Bytes) : (fuel p : Nat) → Option Nat
  | 0, _ => none
  | fuel + 1, p => if str p = 0x20 ∨ str p = 9 then skipBlanks str fuel (p + 1) else some p

/-- `katoi`, for the string at `p`.  The loop over the digits is the one of `atoi`. -/
def katoi (fuel : Nat) (str : Bytes) (p : Nat) : Option Int32 := do
  let p ← skipBlanks str fuel p
  let (sign, p) : Int32 × Nat :=
    if str p = 0x2D then (-1, p + 1) else if str p = 0x2B then (1, p + 1) else (1, p)
  let result ← Lib.atoiLoop str fuel p 0
  return result * sign

/-- `load_timezone`, with the content of `tz.txt`, or `none` where it cannot be opened, and what is in
`buf` before the call: the offset after the call. -/
def loadTimezone (fuel : Nat) (file : Option (List UInt8)) (buf : Bytes) (timezoneOffset : Int32) : Option Int32 :=
  match file with
  | none => some timezoneOffset
  | some content =>
    -- `fat32_read` delivers at most `sizeof(buf)-1` bytes
    let readBytes := content.take 15
    let buf := Function.update (copy buf 0 (fun k => readBytes.getD k 0) readBytes.length) readBytes.length 0
    if buf 0 = 0x55 ∧ buf 1 = 0x54 ∧ buf 2 = 0x43 then katoi fuel buf 3 else some timezoneOffset

/-! ## The calendar -/

def IsLeapYear (year : Nat) : Prop := year % 4 = 0 ∧ (year % 100 ≠ 0 ∨ year % 400 = 0)

instance (year : Nat) : Decidable (IsLeapYear year) := inferInstanceAs (Decidable (_ ∧ _))

def yearLength (year : Nat) : Nat := if IsLeapYear year then 366 else 365

def monthLength (year month : Nat) : Nat :=
  if month = 2 then if IsLeapYear year then 29 else 28
  else if month = 4 ∨ month = 6 ∨ month = 9 ∨ month = 11 then 30 else 31

/-- The number of days before a date. -/
def daysBefore (year month day : Nat) : Nat :=
  ((List.range year).map yearLength).sum + ((List.range' 1 (month - 1)).map (monthLength year)).sum + (day - 1)

/-- The seconds from the first instant of the year 0. -/
def instant (t : RtcTime) : Int :=
  ((daysBefore t.year.toNat t.month.toNat t.day.toNat * 24 + t.hour.toNat) * 60 + t.min.toNat) * 60 + t.sec.toNat

/-- The last second of a leap day, and the midnight after it. -/
example : instant ⟨0, 0, 0, 1, 3, 4⟩ = instant ⟨59, 59, 23, 29, 2, 4⟩ + 1 := by decide

/-- A date of the calendar and a time of its day. -/
structure Valid (t : RtcTime) : Prop where
  sec : t.sec.toNat < 60
  min : t.min.toNat < 60
  hour : t.hour.toNat < 24
  month : 1 ≤ t.month.toNat ∧ t.month.toNat ≤ 12
  day : 1 ≤ t.day.toNat ∧ t.day.toNat ≤ monthLength t.year.toNat t.month.toNat

/-- The two digits of a number. -/
def bcd (n : Nat) : UInt8 := UInt8.ofNat (n / 10 * 16 + n % 10)

/-- The registers show a time of this century. -/
structure Shows (reg : UInt8 → UInt8) (t : RtcTime) : Prop where
  century : 2000 ≤ t.year.toNat ∧ t.year.toNat < 2100
  sec : reg 0x00 = bcd t.sec.toNat
  min : reg 0x02 = bcd t.min.toNat
  hour : reg 0x04 = bcd t.hour.toNat
  day : reg 0x07 = bcd t.day.toNat
  month : reg 0x08 = bcd t.month.toNat
  year : reg 0x09 = bcd (t.year.toNat - 2000)

/-- The time reported is on the calendar, as far from `t` as the reported offset says. -/
def ReportsShifted (clock : Clock) (t : RtcTime) : Prop :=
  ∀ out ≠ 0, ∃ shifted offset, sysRtcTime clock out = some shifted ∧ sysTimezone clock out = some offset ∧
    Valid shifted ∧ instant shifted = instant t + 3600 * offset.toInt

/-- The offset by date. -/
def seasonal (t : RtcTime) : Nat := getTimezoneOffset t.month.toNat t.day.toNat

variable {reg : UInt8 → UInt8} {clock : Clock} {t : RtcTime} {n p fuel : Nat} {str : Bytes} {result : Int32}

/-! ## Reading the clock -/

theorem bcdToDec_bcd (small : n < 100) : bcdToDec (bcd n) = UInt8.ofNat n := by
  revert n
  decide

theorem monthLength_le (year month : Nat) : monthLength year month ≤ 31 := by
  rw [monthLength]
  split
  · split
    · decide
    · decide
  · split
    · decide
    · decide

theorem rtcRead_eq (valid : Valid t) (shows : Shows reg t) : rtcRead reg = t := by
  have field {x : UInt8} (small : x.toNat < 100) : bcdToDec (bcd x.toNat) = x := by
    rw [bcdToDec_bcd small, UInt8.ofNat_toNat]
  have days := monthLength_le t.year.toNat t.month.toNat
  have year : (bcdToDec (bcd (t.year.toNat - 2000))).toUInt16 + 2000 = t.year := by
    obtain ⟨low, high⟩ := shows.century
    have base : (2000 : UInt16).toNat = 2000 := rfl
    rw [bcdToDec_bcd (by omega), ← UInt16.toNat_inj, UInt16.toNat_add, UInt8.toNat_toUInt16, UInt8.toNat_ofNat', base]
    omega
  rw [rtcRead, shows.sec, shows.min, shows.hour, shows.day, shows.month, shows.year, year,
    field (by have := valid.sec; omega), field (by have := valid.min; omega), field (by have := valid.hour; omega),
    field (by have := valid.day; omega), field (by have := valid.month; omega)]

theorem seasonal_range (t : RtcTime) : seasonal t = 2 ∨ seasonal t = 3 := by
  rw [seasonal, getTimezoneOffset]
  split
  · exact Or.inr rfl
  · split
    · exact Or.inr rfl
    · split
      · exact Or.inr rfl
      · exact Or.inl rfl

/-- The date stays, and the hour is the shifted one. -/
theorem rtcGetLocalTime_eq (valid : Valid t) (shows : Shows reg t) :
    rtcGetLocalTime reg = { t with hour := UInt8.ofNat ((t.hour.toNat + seasonal t) % 24) } := by
  rw [rtcGetLocalTime, rtcRead_eq valid shows]
  rfl

theorem toNat_hour (h : Nat) : (UInt8.ofNat (h % 24)).toNat = h % 24 := by
  rw [UInt8.toNat_ofNat', Nat.mod_eq_of_lt (by omega)]

theorem rtcGetLocalTime_valid (valid : Valid t) (shows : Shows reg t) : Valid (rtcGetLocalTime reg) := by
  rw [rtcGetLocalTime_eq valid shows]
  refine ⟨valid.sec, valid.min, ?_, valid.month, valid.day⟩
  rw [toNat_hour]
  exact Nat.mod_lt _ (by decide)

/-- The instants differ by the hours. -/
theorem instant_local (valid : Valid t) (shows : Shows reg t) : instant (rtcGetLocalTime reg) =
    instant t + 3600 * (((t.hour.toNat + seasonal t) % 24 : Nat) - (t.hour.toNat : Int)) := by
  rw [rtcGetLocalTime_eq valid shows, instant, instant, toNat_hour]
  ring

/-- The reports agree exactly when the offsets agree and the hour does not wrap around. -/
theorem reportsShifted_iff (valid : Valid t) (shows : Shows clock.readReg t)
    (range : -12 ≤ clock.timezoneOffset.toInt ∧ clock.timezoneOffset.toInt ≤ 14) :
    ReportsShifted clock t ↔ clock.timezoneOffset.toInt = seasonal t ∧ t.hour.toNat + clock.timezoneOffset.toInt < 24 := by
  have hour := valid.hour
  have seasons := seasonal_range t
  have apart := instant_local valid shows
  constructor
  · intro reports
    obtain ⟨shifted, offset, stored, zone, -, same⟩ := reports 1 (by decide)
    cases stored
    cases zone
    omega
  · rintro ⟨agrees, today⟩ out notNull
    refine ⟨rtcGetLocalTime clock.readReg, clock.timezoneOffset, if_pos notNull, if_pos notNull,
      rtcGetLocalTime_valid valid shows, ?_⟩
    omega

/-! ## Loading the zone -/

theorem skipBlanks_returns {nul : Nat} (stop : str nul = 0) (low : p ≤ nul) (enough : nul - p < fuel) :
    ∃ q, skipBlanks str fuel p = some q ∧ p ≤ q ∧ q ≤ nul := by
  induction fuel generalizing p with
  | zero => cases enough
  | succ fuel ih =>
    rw [skipBlanks]
    by_cases blank : str p = 0x20 ∨ str p = 9
    · have before : p ≠ nul := by
        rintro rfl
        rw [stop] at blank
        revert blank
        decide
      obtain ⟨q, skipped, low', high⟩ := ih (p := p + 1) (by omega) (by omega)
      exact ⟨q, by rw [if_pos blank, skipped], by omega, high⟩
    · exact ⟨p, if_neg blank, le_refl p, low⟩

theorem atoiLoop_returns {nul : Nat} (stop : str nul = 0) (low : p ≤ nul) (enough : nul - p < fuel) (result : Int32) :
    ∃ value, Lib.atoiLoop str fuel p result = some value := by
  induction fuel generalizing p result with
  | zero => cases enough
  | succ fuel ih =>
    rw [Lib.atoiLoop]
    by_cases digit : 0x30 ≤ str p ∧ str p ≤ 0x39
    · have before : p ≠ nul := by
        rintro rfl
        rw [stop] at digit
        revert digit
        decide
      rw [if_pos digit]
      exact ih (by omega) (by omega) _
    · exact ⟨result, if_neg digit⟩

/-- Every string is read up to its NUL at most. -/
theorem katoi_returns {nul : Nat} (stop : str nul = 0) (low : p ≤ nul) (enough : nul - p < fuel) :
    ∃ value, katoi fuel str p = some value := by
  obtain ⟨q, skipped, low', high⟩ := skipBlanks_returns stop low enough
  have signed : str q = 0x2D ∨ str q = 0x2B → q + 1 ≤ nul := fun sign => by
    rcases Nat.eq_or_lt_of_le high with rfl | before
    · rw [stop] at sign
      exact absurd sign (by decide)
    · exact before
  have read (sign : Int32) (p' : Nat) (inside : p' ≤ nul) (behind : q ≤ p') :
      ∃ value, ((Lib.atoiLoop str fuel p' 0).bind fun result => some (result * sign)) = some value := by
    have room : nul - p' < fuel := by omega
    obtain ⟨result, ran⟩ := atoiLoop_returns stop inside room 0
    exact ⟨result * sign, by rw [ran, Option.bind_some]⟩
  rw [katoi, skipped]
  by_cases minus : str q = 0x2D
  · simpa [minus] using read (-1) (q + 1) (signed (Or.inl minus)) (Nat.le_succ q)
  · by_cases plus : str q = 0x2B
    · simpa [plus] using read 1 (q + 1) (signed (Or.inr plus)) (Nat.le_succ q)
    · simpa [minus, plus] using read 1 q high (le_refl q)

theorem loadTimezone_returns (file : Option (List UInt8)) (buf : Bytes) (timezoneOffset : Int32) (enough : 16 ≤ fuel) :
    ∃ offset, loadTimezone fuel file buf timezoneOffset = some offset := by
  cases file with
  | none => exact ⟨timezoneOffset, rfl⟩
  | some content =>
    have size : (content.take 15).length ≤ 15 := List.length_take_le 15 content
    rw [loadTimezone]
    generalize (content.take 15).length = n at size ⊢
    generalize content.take 15 = readBytes
    split
    · rename_i utc
      -- the three letters are not NUL, so the NUL is behind them
      have behind : 3 ≤ n := by
        by_contra early
        obtain rfl | rfl | rfl : n = 0 ∨ n = 1 ∨ n = 2 := by omega
        · exact absurd utc.1 (by rw [Function.update_self]; decide)
        · exact absurd utc.2.1 (by rw [Function.update_self]; decide)
        · exact absurd utc.2.2 (by rw [Function.update_self]; decide)
      exact katoi_returns (Function.update_self n 0 _) behind (by omega)
    · exact ⟨timezoneOffset, rfl⟩

/-- **When local time is the clock shifted by the zone.**  The file must agree with the rule by date,
and the shifted hour must be on the same day. -/
theorem local_time_iff (file : Option (List UInt8)) (buf : Bytes) (enough : 16 ≤ fuel) :
    ∃ offset, loadTimezone fuel file buf 0 = some offset ∧
      (-12 ≤ offset.toInt ∧ offset.toInt ≤ 14 → ∀ reg t, Valid t → Shows reg t →
        (ReportsShifted ⟨reg, offset⟩ t ↔ offset.toInt = seasonal t ∧ t.hour.toNat + offset.toInt < 24)) := by
  obtain ⟨offset, loaded⟩ := loadTimezone_returns file buf 0 enough
  exact ⟨offset, loaded, fun range reg t valid shows => reportsShifted_iff valid shows range⟩

/-- The registers on 30 June 2024. -/
def june30 (hour : UInt8) : UInt8 → UInt8 := fun i =>
  if i = 0x04 then hour else if i = 0x07 then 0x30 else if i = 0x08 then 0x06 else if i = 0x09 then 0x24 else 0

/-- With the file `UTC+3` the report is right at noon. -/
theorem local_time_iff_noon : ReportsShifted ⟨june30 0x12, 3⟩ ⟨0, 0, 12, 30, 6, 2024⟩ := by
  obtain ⟨offset, loaded, same⟩ :=
    local_time_iff (some [0x55, 0x54, 0x43, 0x2B, 0x33]) (fun _ => 0) (le_refl 16)
  have three : loadTimezone 16 (some [0x55, 0x54, 0x43, 0x2B, 0x33]) (fun _ => 0) 0 = some 3 := by decide
  cases three.symm.trans loaded
  refine (same (by decide) _ _ ⟨?_, ?_, ?_, ?_, ?_⟩ ⟨?_, ?_, ?_, ?_, ?_, ?_, ?_⟩).mpr ?_ <;> decide

/-- At 23:00 it is 02:00 on the same day. -/
theorem midnight_not_carried :
    loadTimezone 16 (some [0x55, 0x54, 0x43, 0x2B, 0x33]) (fun _ => 0) 0 = some 3 ∧
      Valid ⟨0, 0, 23, 30, 6, 2024⟩ ∧ Shows (june30 0x23) ⟨0, 0, 23, 30, 6, 2024⟩ ∧
      ¬ ReportsShifted ⟨june30 0x23, 3⟩ ⟨0, 0, 23, 30, 6, 2024⟩ := by
  have valid : Valid ⟨0, 0, 23, 30, 6, 2024⟩ := ⟨by decide, by decide, by decide, by decide, by decide⟩
  have shows : Shows (june30 0x23) ⟨0, 0, 23, 30, 6, 2024⟩ :=
    ⟨by decide, by decide, by decide, by decide, by decide, by decide, by decide⟩
  refine ⟨by decide, valid, shows, ?_⟩
  rw [reportsShifted_iff valid shows (by decide)]
  decide

end QuantumKernel.Rtc
