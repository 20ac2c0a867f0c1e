import WardenSdk.Rtc.Driver

/-!
# The registers behind the driver

What the bus answers to the parts of the driver, and the rules for its accesses.  An
outcome is given for each request: what is returned, the word that a read leaves behind
where the register does not say it, and whether a write that fails has reached the device.

`restarted` is set when the compensation work sets the start bit of a clock that is
stopped.
-/

namespace WardenSdk
namespace Rtc

open Lib

/-- Who runs a part of the driver. -/
inductive Who where
  | ops
  | irq
  | trim
  deriving DecidableEq

structure Chip where
  regs : ℕ → UInt8
  /-- The calls that have come back. -/
  log : List Event
  restarted : Bool

structure Outcome where
  ret : ℤ
  val : UInt32
  landed : Bool

/-- The registers that the clock itself changes. -/
def isVolatile (offset : ℕ) : Bool :=
  offset ≤ 0x1c || [0x40, 0x44, 0x54, 0x84, 0x8c, 0x90, 0x94, 0x98].contains offset

/-- The start bit, as it was written last. -/
def Chip.started (s : Chip) : Bool := s.regs rtcCtrl &&& rtcCtrlRegStartRtc.toUInt8 != 0

def Chip.write (s : Chip) (who : Who) (offset : ℕ) (val : UInt32) : Chip :=
  { s with
    regs := Function.update s.regs offset val.toUInt8
    restarted := s.restarted || (who == .trim && offset == rtcCtrl && !s.started &&
      val.toUInt8 &&& rtcCtrlRegStartRtc.toUInt8 != 0) }

def Chip.note (s : Chip) (event : Event) : Chip := { s with log := s.log ++ [event] }

/-- What the bus does with a request. -/
def answer (who : Who) (s : Chip) (q : Request) (o : Outcome) : Chip × Answer :=
  match q with
  | .read offset =>
    (s, ⟨o.ret, if o.ret = 0 ∧ isVolatile offset = false then withByte o.val (s.regs offset)
      else o.val⟩)
  | .write offset val =>
    (if o.ret = 0 ∨ o.landed = true then s.write who offset val else s, ⟨o.ret, o.val⟩)
  | .unknown => (s, ⟨0, o.val⟩)
  | .note event => (s.note event, ⟨0, o.val⟩)

/-- The `count` registers from `offset` on. -/
def Chip.block (s : Chip) (offset : ℕ) : ℕ → List UInt8
  | 0 => []
  | count + 1 => s.regs offset :: s.block (offset + 4) count

@[simp] theorem Chip.regs_write_self (s : Chip) (who : Who) (offset : ℕ) (val : UInt32) :
    (s.write who offset val).regs offset = val.toUInt8 := Function.update_self ..

/-- A write leaves the other registers alone. -/
theorem Chip.regs_write_of_ne (s : Chip) (who : Who) {offset other : ℕ} (val : UInt32)
    (h : other ≠ offset) : (s.write who offset val).regs other = s.regs other :=
  Function.update_of_ne h ..

@[simp] theorem Chip.log_write (s : Chip) (who : Who) (offset : ℕ) (val : UInt32) :
    (s.write who offset val).log = s.log := rfl

/-- A block is what its registers hold. -/
theorem Chip.block_congr {s t : Chip} {offset count : ℕ}
    (h : ∀ k < count, s.regs (offset + 4 * k) = t.regs (offset + 4 * k)) :
    s.block offset count = t.block offset count := by
  induction count generalizing offset with
  | zero => rfl
  | succ count ih =>
    unfold Chip.block
    refine congrArg₂ _ (h 0 (Nat.succ_pos count)) (ih fun k hk => ?_)
    have hk' := h (k + 1) (Nat.succ_lt_succ hk)
    rwa [Nat.mul_succ, Nat.add_comm (4 * k) 4, ← Nat.add_assoc] at hk'

/-- A write outside of the registers leaves them alone. -/
theorem Chip.block_write {s : Chip} {offset count : ℕ} (who : Who) {other : ℕ} (val : UInt32)
    (h : ∀ k < count, other ≠ offset + 4 * k) :
    (s.write who other val).block offset count = s.block offset count :=
  Chip.block_congr fun k hk => s.regs_write_of_ne who val (h k hk).symm

/-! ## What is written where -/

/-- The request writes to one of these registers, if it writes, and is not the end of a
call. -/
def Request.within (W : List ℕ) : Request → Prop
  | .write offset _ => offset ∈ W
  | .note _ => False
  | .read _ | .unknown => True

/-- The registers that hold the time. -/
def timeRegs : List ℕ := [0x0, 0x4, 0x8, 0xc, 0x10, 0x14, 0x18, 0x1c]

/-- The registers that hold the time of the alarm. -/
def alarmRegs : List ℕ := [0x20, 0x24, 0x28, 0x2c, 0x30, 0x34, 0x38]

section

variable {W : List ℕ}

/-- More registers may be written. -/
theorem within_mono {α : Type} {p : Io α} {W' : List ℕ} (h : p.Asks (Request.within W))
    (hW : W ⊆ W') : p.Asks (Request.within W') := by
  refine h.mono fun q hq => ?_
  cases q with
  | write offset val => exact hW hq
  | note event => exact hq
  | read offset => trivial
  | unknown => trivial

theorem within_regmapRead (offset : ℕ) : (regmapRead offset).Asks (Request.within W) :=
  Prog.asks_ask trivial

/-- A write is where it says. -/
theorem within_regmapWrite {offset : ℕ} (h : offset ∈ W) (val : UInt32) :
    (regmapWrite offset val).Asks (Request.within W) :=
  (Prog.asks_ask (q := Request.write offset val) h).bind fun _ =>
    Prog.asks_pure _

theorem within_regmapBulkRead (offset : ℕ) :
    ∀ count, (regmapBulkRead offset count).Asks (Request.within W)
  | 0 => Prog.asks_pure _
  | count + 1 => (within_regmapRead offset).bind fun _ => .ite (Prog.asks_pure _) <|
      (within_regmapBulkRead (offset + 4) count).bind fun _ => Prog.asks_pure _

/-- A bulk write covers as many registers as there are values. -/
theorem within_regmapBulkWrite {offset n : ℕ} {vals : List UInt32}
    (hn : vals.length = n) (h : ∀ k < n, offset + 4 * k ∈ W) :
    (regmapBulkWrite offset vals).Asks (Request.within W) := by
  subst hn
  induction vals generalizing offset with
  | nil => exact Prog.asks_pure _
  | cons val vals ih =>
    refine (within_regmapWrite (h 0 (Nat.succ_pos vals.length)) val).bind fun _ =>
      .ite (Prog.asks_pure _) (ih fun k hk => ?_)
    have hk' := h (k + 1) (Nat.succ_lt_succ hk)
    rwa [Nat.mul_succ, Nat.add_comm (4 * k) 4, ← Nat.add_assoc] at hk'

/-- Polling only reads, however long it takes. -/
theorem within_regmapReadPollTimeout (offset : ℕ) (cond : UInt32 → Bool) :
    ∀ count, (regmapReadPollTimeout offset cond count).Asks (Request.within W)
  | 0 => (within_regmapRead offset).bind fun _ => Prog.asks_pure _
  | count + 1 => (within_regmapRead offset).bind fun _ => .ite (Prog.asks_pure _) <|
      (Prog.asks_ask trivial).bind fun _ =>
        .ite ((within_regmapRead offset).bind fun _ => Prog.asks_pure _)
          (within_regmapReadPollTimeout offset cond count)

/-- A read-modify-write writes the register that it has read. -/
theorem within_rockchipRtcUpdateBits {offset : ℕ} (h : offset ∈ W) (mask set : UInt32) :
    (rockchipRtcUpdateBits offset mask set).Asks (Request.within W) :=
  (within_regmapRead offset).bind fun _ => within_regmapWrite h _

variable (bcd : Bcd) (polls : ℕ)

/-- `rockchip_rtc_read_time` writes nothing. -/
theorem within_rockchipRtcReadTime (tm : RtcTime) :
    (rockchipRtcReadTime bcd tm).Asks (Request.within W) :=
  (within_regmapBulkRead _ _).bind fun _ => .ite (Prog.asks_pure _) <|
    (within_regmapBulkRead _ _).bind fun _ => .ite (Prog.asks_pure _) <|
      (within_regmapBulkRead _ _).bind fun _ => .ite (Prog.asks_pure _) (Prog.asks_pure _)

/-- `rockchip_rtc_set_time` writes the time and the control register. -/
theorem within_rockchipRtcSetTime (tm : RtcTime) :
    (rockchipRtcSetTime bcd polls tm).Asks (Request.within (rtcCtrl :: timeRegs)) :=
  (within_rockchipRtcUpdateBits List.mem_cons_self _ _).bind fun _ => .ite (Prog.asks_pure _) <|
    (within_regmapReadPollTimeout _ _ _).bind fun _ =>
      (within_regmapBulkWrite (n := numTimeRegs) rfl (by decide)).bind fun _ =>
        .ite (Prog.asks_pure _) <|
          (within_rockchipRtcUpdateBits List.mem_cons_self _ _).bind fun _ =>
            .ite (Prog.asks_pure _) <|
              (within_regmapReadPollTimeout _ _ _).bind fun _ => Prog.asks_pure _

theorem within_rockchipRtcReadalarm (alrm : RtcWkalrm) :
    (rockchipRtcReadalarm bcd alrm).Asks (Request.within W) :=
  (within_regmapBulkRead _ _).bind fun _ => .ite (Prog.asks_pure _) <|
    (within_regmapRead _).bind fun _ => .ite (Prog.asks_pure _) (Prog.asks_pure _)

/-- The alarm is turned on with its status cleared before. -/
theorem within_rockchipRtcStartAlarm :
    rockchipRtcStartAlarm.Asks (Request.within [rtcStatus0, rtcInt0En]) :=
  (within_regmapWrite (by decide) _).bind fun _ => (within_regmapWrite (by decide) _).bind fun _ =>
    within_regmapWrite (by decide) _

theorem within_rockchipRtcStopAlarm :
    rockchipRtcStopAlarm.Asks (Request.within [rtcStatus0, rtcInt0En]) :=
  within_regmapWrite (by decide) _

theorem within_rockchipRtcAlarmIrqEnable (enabled : UInt32) :
    (rockchipRtcAlarmIrqEnable enabled).Asks (Request.within [rtcStatus0, rtcInt0En]) :=
  .ite within_rockchipRtcStartAlarm within_rockchipRtcStopAlarm

/-- `rockchip_rtc_setalarm` writes the date of the alarm and what turns it on and off. -/
theorem within_rockchipRtcSetalarm (alrm : RtcWkalrm) : (rockchipRtcSetalarm bcd alrm).Asks
    (Request.within ([rtcStatus0, rtcInt0En] ++ alarmRegs)) :=
  (within_mono within_rockchipRtcStopAlarm (List.subset_append_left _ _)).bind fun _ =>
    .ite (Prog.asks_pure _) <|
      (within_regmapBulkWrite (n := numAlarmRegs) rfl (by decide)).bind fun _ =>
        .ite (Prog.asks_pure _) <|
          .ite (within_mono within_rockchipRtcStartAlarm (List.subset_append_left _ _))
            (Prog.asks_pure _)

/-- The interrupt acknowledges itself and touches nothing else. -/
theorem within_rockchipRtcAlarmIrq : rockchipRtcAlarmIrq.Asks (Request.within [rtcStatus0]) :=
  (within_regmapRead _).bind fun _ => .ite (Prog.asks_pure _) <|
    (within_regmapWrite (by decide) _).bind fun _ => .ite (Prog.asks_pure _) (Prog.asks_pure _)

/-- The registers that the compensation work writes. -/
def trimRegs : List ℕ :=
  [rtcCtrl, rtcCompH, rtcCompD, rtcCompM, rtcClk32kTest, rtcTestSt, rtcTestLen]

/-- The work writes the control register, but no register of the time or the alarm. -/
theorem within_rockchipRtcCompensationDelayWork :
    (rockchipRtcCompensationDelayWork bcd polls).Asks (Request.within trimRegs) :=
  (within_rockchipRtcUpdateBits (by decide) _ _).bind fun _ => .ite (Prog.asks_pure _) <|
    (within_regmapWrite (by decide) _).bind fun _ => .ite (Prog.asks_pure _) <|
    (within_rockchipRtcUpdateBits (by decide) _ _).bind fun _ => .ite (Prog.asks_pure _) <|
    (within_regmapReadPollTimeout _ _ _).bind fun _ =>
    (within_regmapBulkRead _ _).bind fun _ => .ite (Prog.asks_pure _) <|
    (within_regmapWrite (by decide) _).bind fun _ =>
    (within_regmapWrite (by decide) _).bind fun _ =>
    (within_regmapWrite (by decide) _).bind fun _ =>
    (within_regmapRead _).bind fun _ => .ite (Prog.asks_pure _) <|
    (within_rockchipRtcUpdateBits (by decide) _ _).bind fun _ => Prog.asks_pure _

/-- The registers that the probe writes. -/
def probeRegs : List ℕ := [rtcVptatTrim, rtcAnalogEn, rtcLdoCtrl, rtcStatus0] ++ rtcCtrl :: timeRegs

/-- The probe may set the time to its default. -/
theorem within_rockchipRtcProbe (rtcValidTm : RtcTime → Bool) (tmRead : RtcTime) :
    (rockchipRtcProbe bcd polls rtcValidTm tmRead).Asks (Request.within probeRegs) :=
  (within_rockchipRtcUpdateBits (by decide) _ _).bind fun _ => .ite (Prog.asks_pure _) <|
    (within_rockchipRtcUpdateBits (by decide) _ _).bind fun _ => .ite (Prog.asks_pure _) <|
    (within_rockchipRtcUpdateBits (by decide) _ _).bind fun _ => .ite (Prog.asks_pure _) <|
    (within_rockchipRtcUpdateBits (by decide) _ _).bind fun _ => .ite (Prog.asks_pure _) <|
    (within_rockchipRtcUpdateBits (by decide) _ _).bind fun _ => .ite (Prog.asks_pure _) <|
    (within_regmapWrite (by decide) _).bind fun _ => .ite (Prog.asks_pure _) <|
    (within_regmapWrite (by decide) _).bind fun _ => .ite (Prog.asks_pure _) <|
    (within_rockchipRtcReadTime bcd tmRead).bind fun _ => .ite (Prog.asks_pure _) <|
    (within_mono (within_rockchipRtcSetTime bcd polls defaultTime)
      (List.subset_append_right _ _)).bind fun _ => Prog.asks_pure _

end

/-! ## The accesses -/

section

variable {who : Who} {party : Party Chip} (still : ∀ s, party.guarantee s s) {P : Chip → Prop}
  (stable : party.Stable P)

include still stable

/-- A read that succeeds returns what a register holds, unless the clock changes that. -/
theorem meets_regmapRead {offset : ℕ} {R : Answer → Chip → Prop}
    (stable' : ∀ a, party.Stable (R a))
    (h : ∀ s a, P s → (a.ret = 0 → isVolatile offset = false → a.val.toUInt8 = s.regs offset) →
      R a s) :
    (regmapRead offset).Meets (answer who) party P R := by
  refine Prog.meets_ask stable stable' fun s o hs => ⟨still s, h s _ hs fun hret hvol => ?_⟩
  have hval : (answer who s (.read offset) o).2.val = withByte o.val (s.regs offset) :=
    if_pos ⟨hret, hvol⟩
  rw [hval, toUInt8_withByte]

/-- A write that fails may have reached the device or not. -/
theorem meets_regmapWrite {offset : ℕ} {val : UInt32} {R : ℤ → Chip → Prop}
    (stable' : ∀ ret, party.Stable (R ret))
    (landed : ∀ s ret, P s →
      party.guarantee s (s.write who offset val) ∧ R ret (s.write who offset val))
    (lost : ∀ s ret, ret ≠ 0 → P s → R ret s) :
    (regmapWrite offset val).Meets (answer who) party P R := by
  refine (Prog.meets_ask (R := fun a => R a.ret) stable (fun a => stable' a.ret)
    fun s o hs => ?_).bind fun a => Prog.meets_pure (stable' a.ret)
  simp only [answer]
  split_ifs with hdone
  · exact landed s o.ret hs
  · exact ⟨still s, lost s o.ret (fun h => hdone (.inl h)) hs⟩

/-- A bulk read of registers that nobody changes returns what they hold. -/
theorem meets_regmapBulkRead {offset count : ℕ}
    (plain : ∀ k < count, isVolatile (offset + 4 * k) = false)
    (rely : ∀ s t, party.rely s t →
      ∀ k < count, t.regs (offset + 4 * k) = s.regs (offset + 4 * k)) :
    (regmapBulkRead offset count).Meets (answer who) party P fun r s =>
      P s ∧ (r.1 = 0 → r.2.map UInt32.toUInt8 = s.block offset count) := by
  induction count generalizing offset P with
  | zero => exact fun s hs t ht => ⟨stable ht hs, fun _ => rfl⟩
  | succ count ih =>
    have hone : ∀ s t, party.rely s t → t.regs offset = s.regs offset :=
      fun s t hst => rely s t hst 0 (Nat.succ_pos count)
    -- what has been read so far stays in the register
    have hread : ∀ a : Answer, party.Stable fun s =>
        P s ∧ (a.ret = 0 → a.val.toUInt8 = s.regs offset) :=
      fun a _ _ hst hs => ⟨stable hst hs.1, fun hret => (hs.2 hret).trans (hone _ _ hst).symm⟩
    refine (meets_regmapRead still stable hread fun s a hs ha => ?_).bind fun a => ?_
    · exact ⟨hs, fun hret => ha hret (plain 0 (Nat.succ_pos count))⟩
    split_ifs with hret
    · exact fun s hs t ht => ⟨stable ht hs.1, fun h => (hret h).elim⟩
    have hstep : ∀ k, offset + 4 + 4 * k = offset + 4 * (k + 1) := fun k => by omega
    refine (ih (hread a) (fun k hk => ?_) fun s t hst k hk => ?_).bind fun r => ?_
    · rw [hstep]
      exact plain (k + 1) (Nat.succ_lt_succ hk)
    · rw [hstep]
      exact rely s t hst (k + 1) (Nat.succ_lt_succ hk)
    refine fun s hs t ht => ⟨stable ht hs.1.1, fun h => ?_⟩
    have hblock : t.block offset (count + 1) = s.block offset (count + 1) :=
      Chip.block_congr (rely s t ht)
    rw [hblock]
    exact congrArg₂ _ (hs.1.2 (not_not.mp hret)) (hs.2 h)

/-- A bulk write that succeeds has put the values into the registers, if nobody else writes them. -/
theorem meets_regmapBulkWrite {offset : ℕ} {vals : List UInt32}
    (write : ∀ s k val, k < vals.length → P s →
      party.guarantee s (s.write who (offset + 4 * k) val) ∧ P (s.write who (offset + 4 * k) val))
    (rely : ∀ s t, party.rely s t →
      ∀ k < vals.length, t.regs (offset + 4 * k) = s.regs (offset + 4 * k)) :
    (regmapBulkWrite offset vals).Meets (answer who) party P fun ret s =>
      P s ∧ (ret = 0 → s.block offset vals.length = vals.map UInt32.toUInt8) := by
  induction vals generalizing offset P with
  | nil => exact fun s hs t ht => ⟨stable ht hs, fun _ => rfl⟩
  | cons val vals ih =>
    have hone : ∀ s t, party.rely s t → t.regs offset = s.regs offset :=
      fun s t hst => rely s t hst 0 (Nat.succ_pos vals.length)
    have hwritten : ∀ ret : ℤ, party.Stable fun s =>
        P s ∧ (ret = 0 → s.regs offset = val.toUInt8) :=
      fun ret _ _ hst hs => ⟨stable hst hs.1, fun hret => (hone _ _ hst).trans (hs.2 hret)⟩
    refine (meets_regmapWrite still stable hwritten (fun s ret hs => ?_)
      fun s ret hret hs => ⟨hs, fun h => (hret h).elim⟩).bind fun ret => ?_
    · obtain ⟨hg, hpre⟩ := write s 0 val (Nat.succ_pos vals.length) hs
      exact ⟨hg, hpre, fun _ => s.regs_write_self who offset val⟩
    split_ifs with hret
    · exact fun s hs t ht => ⟨stable ht hs.1, fun h => (hret h).elim⟩
    have hstep : ∀ k, offset + 4 + 4 * k = offset + 4 * (k + 1) := fun k => by omega
    have hrest : ∀ k, k < vals.length → k + 1 < (val :: vals).length :=
      fun k hk => Nat.succ_lt_succ hk
    refine (ih (hwritten ret) (fun s k w hk hs => ?_) fun s t hst k hk => ?_).mono (fun _ h => h)
      fun r s hs => ⟨hs.1.1, fun h => congrArg₂ _ (hs.1.2 (not_not.mp hret)) (hs.2 h)⟩
    · rw [hstep]
      obtain ⟨hg, hpre⟩ := write s (k + 1) w (hrest k hk) hs.1
      refine ⟨hg, hpre, fun h => ?_⟩
      rw [s.regs_write_of_ne who w (by omega)]
      exact hs.2 h
    · rw [hstep]
      exact rely s t hst (k + 1) (hrest k hk)

/-- A part of the driver keeps what its writes keep. -/
theorem meets_of_within {W : List ℕ} {α : Type} {p : Io α} (h : p.Asks (Request.within W))
    (write : ∀ s offset val, offset ∈ W → P s →
      party.guarantee s (s.write who offset val) ∧ P (s.write who offset val)) :
    p.Meets (answer who) party P fun _ => P := by
  refine h.meets stable fun q hq s o hs => ?_
  cases q with
  | read offset => exact ⟨still s, hs⟩
  | unknown => exact ⟨still s, hs⟩
  | note event => exact hq.elim
  | write offset val =>
    simp only [answer]
    split_ifs
    · exact write s offset val hq hs
    · exact ⟨still s, hs⟩

end

/-! ## Everything side by side -/

/-- What is decided when the driver comes up: what the repository does not say, what the
registers hold, the calls of the RTC core, and how often the interrupt and the work run. -/
structure Boot where
  bcd : Bcd
  /-- The most reads that a poll takes. -/
  polls : ℕ
  rtcValidTm : RtcTime → Bool
  tmRead : RtcTime
  regs : ℕ → UInt8
  calls : List Call
  irqs : ℕ
  trims : ℕ

def Boot.ops (b : Boot) : Io Unit := Rtc.ops b.bcd b.polls b.rtcValidTm b.tmRead b.calls

def Boot.irq (b : Boot) : Io Unit :=
  Prog.each (fun _ => do let _ ← rockchipRtcAlarmIrq; return) (List.range b.irqs)

def Boot.trim (b : Boot) : Io Unit :=
  Prog.each (fun _ => rockchipRtcCompensationDelayWork b.bcd b.polls) (List.range b.trims)

def Boot.start (b : Boot) : Pool Chip (Task Who Request Answer) where
  shared := ⟨b.regs, [], false⟩
  threads := [⟨.ops, b.ops⟩, ⟨.irq, b.irq⟩, ⟨.trim, b.trim⟩]

/-- Where an interleaving leads, with an outcome for every request. -/
def Boot.run (b : Boot) (schedule : List (ℕ × Outcome)) : Pool Chip (Task Who Request Answer) :=
  Lib.run (fun p e => p.run (Task.step answer) e.1 e.2) b.start schedule

theorem Boot.within_irq (b : Boot) : b.irq.Asks (Request.within [rtcStatus0]) :=
  Prog.asks_each (fun _ => within_rockchipRtcAlarmIrq.bind fun _ => Prog.asks_pure _) _

theorem Boot.within_trim (b : Boot) : b.trim.Asks (Request.within trimRegs) :=
  Prog.asks_each (fun _ => within_rockchipRtcCompensationDelayWork _ _) _

/-- Three parties that agree with one another keep what each of their steps keeps, and stay
safe. -/
theorem Boot.sound (b : Boot) (party : Who → Party Chip) (post : Who → Chip → Prop)
    (D : Chip → Prop) (keep : ∀ k s t, D s → (party k).guarantee s t → D t)
    (agree : (party .ops).Agree (party .irq) ∧ (party .ops).Agree (party .trim) ∧
      (party .irq).Agree (party .trim))
    (init : D b.start.shared)
    (ops : b.ops.Safe (answer .ops) (party .ops) (fun _ => post .ops) b.start.shared)
    (irq : b.irq.Safe (answer .irq) (party .irq) (fun _ => post .irq) b.start.shared)
    (trim : b.trim.Safe (answer .trim) (party .trim) (fun _ => post .trim) b.start.shared)
    (schedule : List (ℕ × Outcome)) :
    (b.run schedule).Sound D (Task.Safe answer party post) (Task.Agree party) := by
  refine run_sound keep ⟨init, ?_, ?_⟩ schedule
  · simp only [Boot.start, List.forall_mem_cons, List.not_mem_nil, false_implies, implies_true,
      and_true]
    exact ⟨ops, irq, trim⟩
  · simp only [Boot.start, List.pairwise_cons, List.forall_mem_cons, List.not_mem_nil,
      false_implies, implies_true, and_true, List.Pairwise.nil]
    exact ⟨⟨agree.1, agree.2.1⟩, agree.2.2⟩

end Rtc
end WardenSdk
