import WardenSdk.Lib.Word

/-!
# The time in the registers of the clock

How `rtc-rockchip.c` spells a time in the registers of the RTC: two decimal digits in a
byte, below the key that a write has to carry.  `linux/bcd.h` is not part of the
repository; it is a parameter with what the header says.

Only the byte below the key comes back from the device, so `getDate_congr` says that the
bytes of the words decide what is read.
-/

namespace WardenSdk
namespace Rtc

open Lib

/-- `struct rtc_time`, as far as the driver uses it. -/
structure RtcTime where
  tmSec : ℤ
  tmMin : ℤ
  tmHour : ℤ
  tmMday : ℤ
  tmMon : ℤ
  tmYear : ℤ
  tmWday : ℤ
  deriving DecidableEq

/-- `struct rtc_wkalrm`. -/
structure RtcWkalrm where
  enabled : Bool
  time : RtcTime
  deriving DecidableEq

/-- `linux/bcd.h`: the tens are in the upper half of the byte. -/
structure Bcd where
  bcd2bin : UInt8 → ℕ
  bin2bcd : UInt32 → UInt8
  bcd2bin_digits : ∀ t < 10, ∀ u < 10, bcd2bin (UInt8.ofNat (16 * t + u)) = 10 * t + u
  bin2bcd_digits : ∀ t < 10, ∀ u < 10,
    bin2bcd (UInt32.ofNat (10 * t + u)) = UInt8.ofNat (16 * t + u)

def rtcWriteMask : UInt32 := 0xc4522900

def secondsRegMsk : UInt32 := 0x7F
def minutesRegMak : UInt32 := 0x7F
def hoursRegMsk : UInt32 := 0x3F
def daysRegMsk : UInt32 := 0x3F
def monthsRegMsk : UInt32 := 0x1F
def yearsRegMsk : UInt32 := 0xFF
def weeksRegMsk : UInt32 := 0x7

variable (bcd : Bcd)

/-- `bin2bcd(i) | RTC_WRITE_MASK`. -/
def bcdWord (i : ℤ) : UInt32 := (bcd.bin2bcd (cWord i)).toUInt32 ||| rtcWriteMask

/-- `bcd2bin(w & mask)`. -/
def bcdField (mask w : UInt32) : ℤ := bcd.bcd2bin (w &&& mask).toUInt8

/-- The year of `tm` in two parts, `yearh` and `yearl`. -/
def yearh (tmYear : ℤ) : ℤ := if tmYear > 199 then (tmYear - 100).tdiv 100 else 0

def yearl (tmYear : ℤ) : ℤ := tmYear - 100 - yearh tmYear * 100

/-- `alrm_data` of `rockchip_rtc_setalarm`, which is the first part of `rtc_data`. -/
def alrmData (tm : RtcTime) : List UInt32 :=
  [bcdWord bcd tm.tmSec, bcdWord bcd tm.tmMin, bcdWord bcd tm.tmHour, bcdWord bcd tm.tmMday,
    bcdWord bcd (tm.tmMon + 1), bcdWord bcd (yearl tm.tmYear), bcdWord bcd (yearh tm.tmYear)]

/-- `rtc_data` of `rockchip_rtc_set_time`. -/
def rtcData (tm : RtcTime) : List UInt32 := alrmData bcd tm ++ [bcdWord bcd tm.tmWday]

/-- What `rockchip_rtc_readalarm` makes of `alrm_data`, and `rockchip_rtc_read_time` of the
first seven of `rtc_data`; both have arrays of the right length. -/
def getDate (tm : RtcTime) : List UInt32 → RtcTime
  | sec :: min :: hour :: mday :: mon :: yearl :: yearh :: _ =>
    { tm with
      tmSec := bcdField bcd secondsRegMsk sec
      tmMin := bcdField bcd minutesRegMak min
      tmHour := bcdField bcd hoursRegMsk hour
      tmMday := bcdField bcd daysRegMsk mday
      tmMon := bcdField bcd monthsRegMsk mon - 1
      tmYear := bcdField bcd yearsRegMsk yearh * 100 + bcdField bcd yearsRegMsk yearl + 100 }
  | _ => tm

/-- What `rockchip_rtc_read_time` makes of `rtc_data`. -/
def getTime (tm : RtcTime) : List UInt32 → RtcTime
  | sec :: min :: hour :: mday :: mon :: yearl :: yearh :: wday :: _ =>
    { getDate bcd tm [sec, min, hour, mday, mon, yearl, yearh] with
      tmWday := bcdField bcd weeksRegMsk wday }
  | _ => tm

/-- The dates that the registers have room for, from the year 2000 on. -/
structure RtcTime.Fits (tm : RtcTime) : Prop where
  sec : 0 ≤ tm.tmSec ∧ tm.tmSec < 80
  min : 0 ≤ tm.tmMin ∧ tm.tmMin < 80
  hour : 0 ≤ tm.tmHour ∧ tm.tmHour < 40
  mday : 0 ≤ tm.tmMday ∧ tm.tmMday < 40
  mon : 0 ≤ tm.tmMon + 1 ∧ tm.tmMon + 1 < 20
  year : 100 ≤ tm.tmYear ∧ tm.tmYear < 10100

variable {bcd}

@[simp] theorem bcdField_byte (mask w : UInt32) :
    bcdField bcd mask w.toUInt8.toUInt32 = bcdField bcd mask w := by
  unfold bcdField
  rw [UInt32.toUInt8_and, UInt32.toUInt8_and, UInt8.toUInt8_toUInt32]

theorem toUInt8_bcdWord {n : ℕ} (h : n < 100) :
    (bcdWord bcd n).toUInt8 = UInt8.ofNat (16 * (n / 10) + n % 10) := by
  have hword : cWord n = UInt32.ofNat (10 * (n / 10) + n % 10) := by
    apply UInt32.toNat_inj.mp
    rw [Nat.div_add_mod, toNat_cWord (by omega), UInt32.toNat_ofNat_of_lt' (h.trans (by decide))]
  have hkey : rtcWriteMask.toUInt8 = 0 := rfl
  unfold bcdWord
  rw [UInt32.toUInt8_or, UInt8.toUInt8_toUInt32, hkey, UInt8.or_zero, hword,
    bcd.bin2bcd_digits _ (by omega) _ (by omega)]

/-- A number whose digits fit below the mask comes back. -/
theorem bcdField_bcdWord {k : ℕ} {mask : UInt32} (hmask : mask.toUInt8 = UInt8.ofNat (2 ^ k - 1))
    (hk : k ≤ 8) {i : ℤ} (hi : 0 ≤ i ∧ i < 100)
    (hbits : 16 * (i.toNat / 10) + i.toNat % 10 < 2 ^ k) :
    bcdField bcd mask (bcdWord bcd i) = i := by
  obtain ⟨n, rfl⟩ := Int.eq_ofNat_of_zero_le hi.1
  rw [Int.toNat_natCast] at hbits
  unfold bcdField
  rw [UInt32.toUInt8_and, hmask, toUInt8_bcdWord (by omega), ofNat_and_two_pow_sub_one hbits hk,
    bcd.bcd2bin_digits _ (by omega) _ (by omega)]
  exact congrArg Nat.cast (Nat.div_add_mod n 10)

theorem yearh_of_fits {y : ℤ} (h : 100 ≤ y ∧ y < 10100) :
    (0 ≤ yearh y ∧ yearh y < 100) ∧ 0 ≤ yearl y ∧ yearl y < 100 := by
  unfold yearl yearh
  split_ifs with hlate
  · rw [Int.tdiv_eq_ediv_of_nonneg (by omega)]
    omega
  · omega

/-- **The date comes back from its words.** -/
theorem getDate_alrmData {tm : RtcTime} (h : tm.Fits) (old : RtcTime) :
    getDate bcd old (alrmData bcd tm) = { tm with tmWday := old.tmWday } := by
  obtain ⟨hsec, hmin, hhour, hmday, hmon, hyear⟩ := h
  obtain ⟨hyearh, hyearl⟩ := yearh_of_fits hyear
  have hy : yearh tm.tmYear * 100 + yearl tm.tmYear + 100 = tm.tmYear := by
    unfold yearl
    omega
  simp only [getDate, alrmData]
  rw [bcdField_bcdWord (k := 7) rfl (by omega) (by omega) (by omega),
    bcdField_bcdWord (k := 7) rfl (by omega) (by omega) (by omega),
    bcdField_bcdWord (k := 6) rfl (by omega) (by omega) (by omega),
    bcdField_bcdWord (k := 6) rfl (by omega) (by omega) (by omega),
    bcdField_bcdWord (k := 5) rfl (by omega) (by omega) (by omega),
    bcdField_bcdWord (k := 8) rfl (by omega) hyearh (by omega),
    bcdField_bcdWord (k := 8) rfl (by omega) hyearl (by omega), hy, Int.add_sub_cancel]

/-- The bytes below the key decide the date. -/
theorem getDate_bytes (tm : RtcTime) : ∀ ws : List UInt32,
    getDate bcd tm ((ws.map UInt32.toUInt8).map UInt8.toUInt32) = getDate bcd tm ws
  | _ :: _ :: _ :: _ :: _ :: _ :: _ :: _ => by simp only [getDate, List.map_cons, bcdField_byte]
  | [] | [_] | [_, _] | [_, _, _] | [_, _, _, _] | [_, _, _, _, _] | [_, _, _, _, _, _] => rfl

/-- What is read from registers that hold the bytes of a date. -/
theorem getDate_of_bytes {tm : RtcTime} (h : tm.Fits) (old : RtcTime) {ws : List UInt32}
    (hws : ws.map UInt32.toUInt8 = (alrmData bcd tm).map UInt32.toUInt8) :
    getDate bcd old ws = { tm with tmWday := old.tmWday } := by
  rw [← getDate_bytes, hws, getDate_bytes, getDate_alrmData h]

/-- The bytes below the key decide the time. -/
theorem getTime_bytes (tm : RtcTime) : ∀ ws : List UInt32,
    getTime bcd tm ((ws.map UInt32.toUInt8).map UInt8.toUInt32) = getTime bcd tm ws
  | _ :: _ :: _ :: _ :: _ :: _ :: _ :: _ :: _ => by
    simp only [getTime, getDate, List.map_cons, bcdField_byte]
  | [] | [_] | [_, _] | [_, _, _] | [_, _, _, _] | [_, _, _, _, _] | [_, _, _, _, _, _]
  | [_, _, _, _, _, _, _] => rfl

/-- **The time comes back from its words**, with a day of the week below eight. -/
theorem getTime_rtcData {tm : RtcTime} (h : tm.Fits) (hwday : 0 ≤ tm.tmWday ∧ tm.tmWday < 8)
    (old : RtcTime) : getTime bcd old (rtcData bcd tm) = tm := by
  have hdate : getTime bcd old (rtcData bcd tm) =
      { getDate bcd old (alrmData bcd tm) with
        tmWday := bcdField bcd weeksRegMsk (bcdWord bcd tm.tmWday) } := rfl
  rw [hdate, getDate_alrmData h, bcdField_bcdWord (k := 3) rfl (by omega) (by omega) (by omega)]

theorem getTime_of_bytes {tm : RtcTime} (h : tm.Fits) (hwday : 0 ≤ tm.tmWday ∧ tm.tmWday < 8)
    (old : RtcTime) {ws : List UInt32}
    (hws : ws.map UInt32.toUInt8 = (rtcData bcd tm).map UInt32.toUInt8) :
    getTime bcd old ws = tm := by
  rw [← getTime_bytes, hws, getTime_bytes, getTime_rtcData h hwday]

/-- `bcd2bin` and `bin2bcd` as the kernel has them. -/
def linuxBcd : Bcd where
  bcd2bin x := (x &&& 0x0f).toNat + (x >>> 4).toNat * 10
  bin2bcd x := (((x / 10) <<< 4) + x % 10).toUInt8
  bcd2bin_digits := by decide
  bin2bcd_digits := by decide

end Rtc
end WardenSdk
