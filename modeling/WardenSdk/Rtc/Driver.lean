import Mathlib.Logic.Function.Basic
import WardenSdk.Lib.Prog
import WardenSdk.Rtc.Time

/-!
# The driver of the clock

`rtc-rockchip.c` as programs that ask the bus for one word at a time.  The RTC core lets
one of the five operations of `rockchip_rtc_ops` in at a time; the alarm interrupt and the
compensation work run beside them and take no lock.

`regmap` is the kernel's.  A bulk access goes word by word and stops at the first that
fails.  An access that fails may have reached the device all the same, and what it has put
into the variable of a read is not said.  A register keeps the byte below the write key;
what the clock itself changes gives any byte.
-/

namespace WardenSdk
namespace Rtc

open Lib

def rtcSetSeconds : ℕ := 0x0
def rtcAlarmSeconds : ℕ := 0x20
def rtcCtrl : ℕ := 0x3C
def rtcStatus0 : ℕ := 0x40
def rtcStatus1 : ℕ := 0x44
def rtcInt0En : ℕ := 0x48
def rtcCompH : ℕ := 0x58
def rtcCompD : ℕ := 0x5c
def rtcCompM : ℕ := 0x60
def rtcLdoCtrl : ℕ := 0x6c
def rtcVptatTrim : ℕ := 0x78
def rtcAnalogEn : ℕ := 0x7c
def rtcClk32kTest : ℕ := 0x80
def rtcTestSt : ℕ := 0x84
def rtcTestLen : ℕ := 0x88
def rtcCnt0 : ℕ := 0x8c

def rtcCtrlRegStartRtc : UInt32 := 0x1
def rtcCtrlRegRtcReadselM : UInt32 := 0x80
def rtcIntRegAlarmEn : UInt32 := 0x80
def rtcD2aXoEn : UInt32 := 0x1
def rtcD2aClkOutEn : UInt32 := 0x20
def rtcStatusMask : UInt32 := 0xFF
def clk32kEnable : UInt32 := 0x20
def d2aPorRegSel1 : UInt32 := 0x10
def d2aPorRegSel0 : UInt32 := 0x2
def enableAlarmInt : UInt32 := 0xFF
def alarmIntStatus : UInt32 := 0x10
def clk32kTestEn : UInt32 := 0x1
def clk32kTestStart : UInt32 := 0x1
def clk32kTestDone : UInt32 := 0x4
def clk32kTestLen : UInt32 := 1
def clk32kCompDirAdd : UInt32 := 0x80
def clk32kCompEn : UInt32 := 0x4
def clk32kNoComp : UInt32 := 0x1
def clk32kTestRefClk : UInt32 := 24000000

def numTimeRegs : ℕ := 8
def numAlarmRegs : ℕ := 7

def etimedout : ℤ := 110

/-- What the RTC core asks of the driver, with what it passes. -/
inductive Call where
  | readTime (tm : RtcTime)
  | setTime (tm : RtcTime)
  | readalarm (alrm : RtcWkalrm)
  | setalarm (alrm : RtcWkalrm)
  | alarmIrqEnable (enabled : UInt32)

/-- A call that has come back. -/
inductive Event where
  | readTime (ret : ℤ) (tm : RtcTime)
  | setTime (tm : RtcTime) (ret : ℤ)
  | readalarm (ret : ℤ) (alrm : RtcWkalrm)
  | setalarm (alrm : RtcWkalrm) (ret : ℤ)
  | alarmIrqEnable (enabled : UInt32) (ret : ℤ)
  deriving DecidableEq

inductive Request where
  | read (offset : ℕ)
  | write (offset : ℕ) (val : UInt32)
  /-- A word that comes from neither the driver nor the bus. -/
  | unknown
  /-- A call has come back. -/
  | note (event : Event)

/-- What the bus returns, and the word that it has left in the variable. -/
structure Answer where
  ret : ℤ
  val : UInt32

/-- A part of the driver. -/
abbrev Io (α : Type) : Type := Prog Request Answer α

/-! ## The bus -/

def regmapRead (offset : ℕ) : Io Answer := Prog.ask (.read offset)

def regmapWrite (offset : ℕ) (val : UInt32) : Io ℤ := do
  let answer ← Prog.ask (.write offset val)
  return answer.ret

/-- The words from `offset` on, as many as could be read. -/
def regmapBulkRead (offset : ℕ) : ℕ → Io (ℤ × List UInt32)
  | 0 => return (0, [])
  | count + 1 => do
    let answer ← regmapRead offset
    if answer.ret ≠ 0 then return (answer.ret, [])
    let (ret, rest) ← regmapBulkRead (offset + 4) count
    return (ret, answer.val :: rest)

def regmapBulkWrite (offset : ℕ) : List UInt32 → Io ℤ
  | [] => return 0
  | val :: vals => do
    let ret ← regmapWrite offset val
    if ret ≠ 0 then return ret
    regmapBulkWrite (offset + 4) vals

/-- The end of `regmap_read_poll_timeout`. -/
def pollVerdict (cond : UInt32 → Bool) (answer : Answer) : ℤ :=
  if answer.ret ≠ 0 then answer.ret else if cond answer.val then 0 else -etimedout

/-- `regmap_read_poll_timeout`, where at most `count` reads come before the deadline. -/
def regmapReadPollTimeout (offset : ℕ) (cond : UInt32 → Bool) : ℕ → Io ℤ
  | 0 => do
    let answer ← regmapRead offset
    return pollVerdict cond answer
  | count + 1 => do
    let answer ← regmapRead offset
    if answer.ret ≠ 0 ∨ cond answer.val = true then return pollVerdict cond answer
    let late ← Prog.ask .unknown
    if late.val ≠ 0 then
      let answer ← regmapRead offset
      return pollVerdict cond answer
    regmapReadPollTimeout offset cond count

/-! ## The driver -/

def rockchipRtcWrite (offset : ℕ) (val : UInt32) : Io ℤ :=
  regmapWrite offset (val ||| rtcWriteMask)

/-- The result of the read is not looked at. -/
def rockchipRtcUpdateBits (offset : ℕ) (mask set : UInt32) : Io ℤ := do
  let answer ← regmapRead offset
  regmapWrite offset ((answer.val &&& ~~~mask) ||| set ||| rtcWriteMask)

variable (bcd : Bcd) (polls : ℕ)

def rockchipRtcReadTime (tm : RtcTime) : Io (ℤ × RtcTime) := do
  let (ret, _) ← regmapBulkRead rtcSetSeconds numTimeRegs
  if ret ≠ 0 then return (ret, tm)
  let (ret, _) ← regmapBulkRead rtcSetSeconds numTimeRegs
  if ret ≠ 0 then return (ret, tm)
  let (ret, data) ← regmapBulkRead rtcSetSeconds numTimeRegs
  if ret ≠ 0 then return (ret, tm)
  return (ret, getTime bcd tm data)

def rockchipRtcSetTime (tm : RtcTime) : Io ℤ := do
  -- the clock is stopped while its registers are written
  let ret ← rockchipRtcUpdateBits rtcCtrl rtcCtrlRegStartRtc 0
  if ret ≠ 0 then return ret
  let _ ← regmapReadPollTimeout rtcStatus1 (fun status => status &&& rtcCtrlRegStartRtc == 0) polls
  let ret ← regmapBulkWrite rtcSetSeconds (rtcData bcd tm)
  if ret ≠ 0 then return ret
  let ret ← rockchipRtcUpdateBits rtcCtrl (rtcCtrlRegRtcReadselM ||| rtcCtrlRegStartRtc)
    (rtcCtrlRegRtcReadselM ||| rtcCtrlRegStartRtc)
  if ret ≠ 0 then return ret
  let _ ← regmapReadPollTimeout rtcStatus1 (fun status => status &&& rtcCtrlRegStartRtc != 0) polls
  return 0

def rockchipRtcReadalarm (alrm : RtcWkalrm) : Io (ℤ × RtcWkalrm) := do
  let (ret, data) ← regmapBulkRead rtcAlarmSeconds numAlarmRegs
  if ret ≠ 0 then return (ret, alrm)
  let alrm := { alrm with time := getDate bcd alrm.time data }
  let intReg ← regmapRead rtcInt0En
  if intReg.ret ≠ 0 then return (intReg.ret, alrm)
  return (0, { alrm with enabled := intReg.val &&& rtcIntRegAlarmEn != 0 })

def rockchipRtcStopAlarm : Io ℤ := rockchipRtcWrite rtcInt0En 0

/-- The last write decides the result. -/
def rockchipRtcStartAlarm : Io ℤ := do
  let _ ← rockchipRtcWrite rtcStatus0 rtcStatusMask
  let _ ← rockchipRtcWrite rtcStatus0 0
  rockchipRtcWrite rtcInt0En enableAlarmInt

def rockchipRtcSetalarm (alrm : RtcWkalrm) : Io ℤ := do
  let ret ← rockchipRtcStopAlarm
  if ret ≠ 0 then return ret
  let ret ← regmapBulkWrite rtcAlarmSeconds (alrmData bcd alrm.time)
  if ret ≠ 0 then return ret
  if alrm.enabled then rockchipRtcStartAlarm else return 0

def rockchipRtcAlarmIrqEnable (enabled : UInt32) : Io ℤ :=
  if enabled ≠ 0 then rockchipRtcStartAlarm else rockchipRtcStopAlarm

/-- Whether `rtc_update_irq` is called. -/
def rockchipRtcAlarmIrq : Io Bool := do
  let status ← regmapRead rtcStatus0
  if status.ret ≠ 0 then return false
  let ret ← rockchipRtcWrite rtcStatus0 status.val
  if ret ≠ 0 then return false
  return status.val &&& alarmIntStatus != 0

def divRoundClosest (x d : UInt32) : UInt32 := (x + d / 2) / d

/-- `bin2bcd((det - 1)) | dir`. -/
def compWord (det : ℤ) (dir : UInt32) : UInt32 := (bcd.bin2bcd (cWord (det - 1))).toUInt32 ||| dir

/-- What is written into `RTC_COMP_H`, `RTC_COMP_D` and `RTC_COMP_M` when the test has
counted `counts` periods of the reference clock. -/
def compWords (counts : UInt32) : UInt32 × UInt32 × UInt32 :=
  let gRef := clk32kTestRefClk * (clk32kTestLen + 1)
  let (trimDir, camp) :=
    if counts > gRef then
      ((0 : UInt32), 36 * (32768 * (counts - gRef)).toUInt64 / (gRef / 100).toUInt64)
    else (clk32kCompDirAdd, 36 * (32768 * (gRef - counts)).toUInt64 / (gRef / 100).toUInt64)
  let tcamp := camp.toUInt32
  let cHour := cInt (divRoundClosest tcamp 32768)
  let cDay := cInt (divRoundClosest (24 * tcamp) 32768)
  let cMon := cInt (divRoundClosest (30 * 24 * tcamp) 32768)
  let compH := if cHour > 1 then compWord bcd cHour trimDir else clk32kNoComp
  let (cDetDay, trimDir) :=
    if cDay > cHour * 23 then (cDay - cHour * 23, clk32kCompDirAdd) else (cHour * 24 - cDay, 0)
  let compD := if cDetDay > 1 then compWord bcd cDetDay trimDir else clk32kNoComp
  let (cDetMon, trimDir) :=
    if cMon > 29 * cDay + 23 * cHour then (cMon - 29 * cDay - 23 * cHour, clk32kCompDirAdd)
    else (29 * cDay + 23 * cHour - cMon, 0)
  let compM := if cDetMon ≠ 0 then compWord bcd cDetMon trimDir else clk32kNoComp
  (compH, compD, compM)

def rockchipRtcCompensationDelayWork : Io Unit := do
  let ret ← rockchipRtcUpdateBits rtcClk32kTest clk32kTestEn clk32kTestEn
  if ret ≠ 0 then return
  let ret ← rockchipRtcWrite rtcTestLen clk32kTestLen
  if ret ≠ 0 then return
  let ret ← rockchipRtcUpdateBits rtcTestSt clk32kTestStart clk32kTestStart
  if ret ≠ 0 then return
  let _ ← regmapReadPollTimeout rtcTestSt (fun done => done &&& clk32kTestDone != 0) polls
  let (ret, count) ← regmapBulkRead rtcCnt0 4
  if ret ≠ 0 then return
  let byte (k : ℕ) : UInt32 := count.getD k 0
  let comp := compWords bcd (byte 0 ||| (byte 1 <<< 8) ||| (byte 2 <<< 16) ||| (byte 3 <<< 24))
  let _ ← rockchipRtcWrite rtcCompH comp.1
  let _ ← rockchipRtcWrite rtcCompD comp.2.1
  let _ ← rockchipRtcWrite rtcCompM comp.2.2
  let done ← regmapRead rtcCtrl
  if done.ret ≠ 0 then return
  let _ ← rockchipRtcUpdateBits rtcCtrl clk32kCompEn clk32kCompEn

/-- The time that `rockchip_rtc_probe` sets where it has read none that is valid. -/
def defaultTime : RtcTime where
  tmSec := 0
  tmMin := 0
  tmHour := 12
  tmMday := 1
  tmMon := 0
  tmYear := 121
  tmWday := 0

/-- `rockchip_rtc_probe` from its first register on; `tmRead` is what has been in the
variable before, and `rtcValidTm` is the kernel's. -/
def rockchipRtcProbe (rtcValidTm : RtcTime → Bool) (tmRead : RtcTime) : Io ℤ := do
  let ret ← rockchipRtcUpdateBits rtcVptatTrim (d2aPorRegSel1 ||| clk32kEnable)
    (d2aPorRegSel1 ||| clk32kEnable)
  if ret ≠ 0 then return ret
  let ret ← rockchipRtcUpdateBits rtcAnalogEn d2aPorRegSel0 0
  if ret ≠ 0 then return ret
  let ret ← rockchipRtcUpdateBits rtcLdoCtrl rtcD2aXoEn rtcD2aXoEn
  if ret ≠ 0 then return ret
  let ret ← rockchipRtcUpdateBits rtcAnalogEn rtcD2aClkOutEn rtcD2aClkOutEn
  if ret ≠ 0 then return ret
  let ret ← rockchipRtcUpdateBits rtcCtrl (rtcCtrlRegStartRtc ||| rtcCtrlRegRtcReadselM)
    (rtcCtrlRegRtcReadselM ||| rtcCtrlRegStartRtc)
  if ret ≠ 0 then return ret
  let ret ← rockchipRtcWrite rtcStatus0 rtcStatusMask
  if ret ≠ 0 then return ret
  let ret ← rockchipRtcWrite rtcStatus0 0
  if ret ≠ 0 then return ret
  let (_, tmRead) ← rockchipRtcReadTime bcd tmRead
  if rtcValidTm tmRead then return 0
  let _ ← rockchipRtcSetTime bcd polls defaultTime
  return 0

/-- One call of the RTC core. -/
def Call.serve : Call → Io Event
  | .readTime tm => do
    let (ret, tm) ← rockchipRtcReadTime bcd tm
    return .readTime ret tm
  | .setTime tm => do
    let ret ← rockchipRtcSetTime bcd polls tm
    return .setTime tm ret
  | .readalarm alrm => do
    let (ret, alrm) ← rockchipRtcReadalarm bcd alrm
    return .readalarm ret alrm
  | .setalarm alrm => do
    let ret ← rockchipRtcSetalarm bcd alrm
    return .setalarm alrm ret
  | .alarmIrqEnable enabled => do
    let ret ← rockchipRtcAlarmIrqEnable enabled
    return .alarmIrqEnable enabled ret

/-- A call comes back. -/
def Call.run (call : Call) : Io Unit := do
  let event ← call.serve bcd polls
  let _ ← Prog.ask (.note event)

/-- The probe of the driver, and the calls of the RTC core after it. -/
def ops (rtcValidTm : RtcTime → Bool) (tmRead : RtcTime) (calls : List Call) : Io Unit := do
  let ret ← rockchipRtcProbe bcd polls rtcValidTm tmRead
  if ret ≠ 0 then return
  Prog.each (fun call => call.run bcd polls) calls

end Rtc
end WardenSdk
