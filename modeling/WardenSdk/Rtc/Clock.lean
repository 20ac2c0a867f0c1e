import WardenSdk.Rtc.Bus

/-!
# A clock that runs

`rockchip_rtc_set_time` stops the clock, writes its eight registers one by one and starts
it again; every access may fail, and a call that fails half-way leaves the registers with a
part of the new time.  `started_clock_whole` says that the start bit is never set over such
a time: what the driver has written last is all of one time.

The compensation work reads the control register and writes it back without a lock.  When
it has read the start bit before `rockchip_rtc_set_time` cleared it, it starts the clock
again in the middle of the write, and that is the only way: without the work the start
bit can be trusted.
-/

namespace WardenSdk
namespace Rtc

open Lib

def Chip.timeBytes (s : Chip) : List UInt8 := s.block rtcSetSeconds numTimeRegs

/-- What the others may do: they leave the time alone, and start a clock that is stopped only
by the write-back of the compensation work. -/
structure Apart (s t : Chip) : Prop where
  regs : ∀ offset ∈ timeRegs, t.regs offset = s.regs offset
  restarted : s.restarted = true → t.restarted = true
  started : t.started = true → s.started = true ∨ t.restarted = true

theorem Apart.refl (s : Chip) : Apart s s := ⟨fun _ _ => rfl, id, .inl⟩

/-- What the others do step by step is of the same kind. -/
theorem Apart.trans {s t u : Chip} (h : Apart s t) (h' : Apart t u) : Apart s u where
  regs offset ho := (h'.regs offset ho).trans (h.regs offset ho)
  restarted hs := h'.restarted (h.restarted hs)
  started hu := (h'.started hu).elim (fun ht => (h.started ht).imp_right h'.restarted) .inr

theorem mem_timeRegs : ∀ k < numTimeRegs, rtcSetSeconds + 4 * k ∈ timeRegs := by decide

/-- The others leave the time alone. -/
theorem Apart.bytes {s t : Chip} (h : Apart s t) : t.timeBytes = s.timeBytes :=
  Chip.block_congr fun k hk => h.regs _ (mem_timeRegs k hk)

/-- The start bit is in the control register, and nowhere else. -/
theorem Chip.started_write_of_ne (s : Chip) (who : Who) {offset : ℕ} (val : UInt32)
    (h : offset ≠ rtcCtrl) : (s.write who offset val).started = s.started := by
  unfold Chip.started
  rw [s.regs_write_of_ne who val h.symm]

/-- The start bit is the one that was written last. -/
theorem Chip.started_write_ctrl (s : Chip) (who : Who) (val : UInt32) :
    (s.write who rtcCtrl val).started = (val.toUInt8 &&& rtcCtrlRegStartRtc.toUInt8 != 0) := by
  unfold Chip.started
  rw [Chip.regs_write_self]

/-- A write elsewhere leaves the time alone. -/
theorem Chip.timeBytes_write (s : Chip) (who : Who) {offset : ℕ} (val : UInt32)
    (h : offset ∉ timeRegs) : (s.write who offset val).timeBytes = s.timeBytes :=
  Chip.block_write who val fun k hk heq => h (heq ▸ mem_timeRegs k hk)

/-- A write of the work that sets the start bit of a stopped clock is seen in `restarted`. -/
theorem Apart.write_trim (s : Chip) {offset : ℕ} (val : UInt32) (h : offset ∉ timeRegs) :
    Apart s (s.write .trim offset val) where
  regs _ hother := s.regs_write_of_ne .trim val fun heq => h (heq ▸ hother)
  restarted hs := Bool.or_eq_true_iff.mpr (.inl hs)
  started ht := by
    by_cases hctrl : offset = rtcCtrl
    · subst hctrl
      rw [Chip.started_write_ctrl] at ht
      cases hs : s.started with
      | true => exact .inl rfl
      | false =>
        right
        simp only [Chip.write, hs, ht, beq_self_eq_true, Bool.not_false, Bool.and_self,
          Bool.or_true]
    · rw [s.started_write_of_ne .trim val hctrl] at ht
      exact .inl ht

theorem Apart.write {s : Chip} (who : Who) {offset : ℕ} (val : UInt32)
    (h : offset ∉ rtcCtrl :: timeRegs) : Apart s (s.write who offset val) where
  regs _ hother :=
    s.regs_write_of_ne who val fun heq => h (heq ▸ List.mem_cons_of_mem rtcCtrl hother)
  restarted hs := Bool.or_eq_true_iff.mpr (.inl hs)
  started ht := .inl ((s.started_write_of_ne who val (List.ne_of_not_mem_cons h)).symm.trans ht)

/-! ## The parties -/

section

variable (whole : List UInt8 → Prop)

/-- The start bit is set over a whole time only. -/
def Trusted (s : Chip) : Prop :=
  s.restarted = true ∨ s.started = false ∨ whole s.timeBytes

def Stopped (s : Chip) : Prop := s.restarted = true ∨ s.started = false

/-- The calls keep the start bit to be trusted; the others leave the time alone. -/
def clockParty : Who → Party Chip
  | .ops =>
    { rely := Apart
      guarantee := fun s t => Trusted whole s → Trusted whole t
      refl := Apart.refl
      trans := Apart.trans }
  | _ =>
    { rely := fun _ _ => True
      guarantee := Apart
      refl := fun _ => trivial
      trans := fun _ _ => trivial }

variable {whole}

/-- A stopped clock may hold anything. -/
theorem Stopped.trusted {s : Chip} (h : Stopped s) : Trusted whole s := h.imp_right .inl

variable (whole) in
/-- Nobody else starts the clock, unless it is seen. -/
theorem stable_stopped : (clockParty whole .ops).Stable Stopped := by
  intro s t (hst : Apart s t) hs
  rcases hs with hs | hs
  · exact .inl (hst.restarted hs)
  · cases ht : t.started with
    | false => exact .inr ht
    | true => exact .inl ((hst.started ht).resolve_left (by simp [hs]))

/-- The others keep the start bit to be trusted. -/
theorem Trusted.apart {s t : Chip} (h : Trusted whole s) (hst : Apart s t) : Trusted whole t := by
  rcases h with h | h | h
  · exact .inl (hst.restarted h)
  · exact (stable_stopped whole hst (.inr h)).trusted
  · exact .inr (.inr (hst.bytes.symm ▸ h))

/-- What leaves the time alone keeps the guarantee. -/
theorem guarantee_of_apart {s t : Chip} (h : Apart s t) : (clockParty whole .ops).guarantee s t :=
  fun hs => hs.apart h

theorem still_clock (s : Chip) : (clockParty whole .ops).guarantee s s := id

/-- A call that writes neither the time nor the control register. -/
theorem meets_elsewhere {α : Type} {p : Io α} {W : List ℕ} (h : p.Asks (Request.within W))
    (hW : ∀ offset ∈ W, offset ∉ rtcCtrl :: timeRegs) :
    p.Meets (answer .ops) (clockParty whole .ops) (fun _ => True) fun _ _ => True :=
  meets_of_within still_clock (fun _ _ => trivial) h fun _ offset val ho _ =>
    ⟨guarantee_of_apart (Apart.write .ops val (hW offset ho)), trivial⟩

/-! ## Setting the time -/

/-- Whatever the read has left, the first write of `rockchip_rtc_set_time` stops the clock. -/
theorem meets_stop : (rockchipRtcUpdateBits rtcCtrl rtcCtrlRegStartRtc 0).Meets (answer .ops)
    (clockParty whole .ops) (fun _ => True) fun ret s => ret = 0 → Stopped s := by
  refine (meets_elsewhere (within_regmapRead (W := []) rtcCtrl) nofun).bind fun a => ?_
  refine meets_regmapWrite still_clock (fun _ _ => trivial)
    (fun ret s t hst hs hret => stable_stopped whole hst (hs hret)) (fun s ret _ => ?_)
    fun s ret hret _ h => (hret h).elim
  have hstopped : Stopped (s.write .ops rtcCtrl
      ((a.val &&& ~~~rtcCtrlRegStartRtc) ||| 0 ||| rtcWriteMask)) := by
    right
    have hbit : rtcCtrlRegStartRtc.toUInt8 = 1 := rfl
    have hkey : rtcWriteMask.toUInt8 = 0 := rfl
    have hclear : (~~~rtcCtrlRegStartRtc).toUInt8 &&& 1 = 0 := rfl
    rw [Chip.started_write_ctrl, bne_eq_false_iff_eq, UInt32.or_zero, UInt32.toUInt8_or,
      UInt32.toUInt8_and, hkey, UInt8.or_zero, hbit, UInt8.and_assoc, hclear, UInt8.and_zero]
  exact ⟨fun _ => hstopped.trusted, fun _ => hstopped⟩

/-- A whole time stays whole. -/
theorem stable_whole : (clockParty whole .ops).Stable fun s => whole s.timeBytes := by
  intro s t (hst : Apart s t) hs
  rwa [hst.bytes]

variable (whole) in
/-- Over a whole time the control register may be written at will. -/
theorem meets_over_whole {α : Type} {p : Io α} {W : List ℕ} (h : p.Asks (Request.within W))
    (hW : ∀ offset ∈ W, offset ∉ timeRegs) :
    p.Meets (answer .ops) (clockParty whole .ops) (fun s => whole s.timeBytes)
      fun _ s => whole s.timeBytes := by
  refine meets_of_within still_clock stable_whole h fun s offset val ho hs => ?_
  have hbytes : whole (s.write .ops offset val).timeBytes := by
    rwa [s.timeBytes_write .ops val (hW offset ho)]
  exact ⟨fun _ => .inr (.inr hbytes), hbytes⟩

/-- **`rockchip_rtc_set_time`** starts the clock again only when all of the time is written. -/
theorem meets_rockchipRtcSetTime {bcd : Bcd} {polls : ℕ} {tm : RtcTime}
    (htm : whole ((rtcData bcd tm).map UInt32.toUInt8)) :
    (rockchipRtcSetTime bcd polls tm).Meets (answer .ops) (clockParty whole .ops) (fun _ => True)
      fun _ _ => True := by
  have hend {ret : ℤ} {P : Chip → Prop} : (pure ret : Io ℤ).Meets (answer .ops)
      (clockParty whole .ops) P fun _ _ => True := fun _ _ _ _ => trivial
  refine meets_stop.bind fun ret => .ite (fun _ => hend) fun hret => ?_
  have hpoll : (regmapReadPollTimeout rtcStatus1 (fun status => status &&& rtcCtrlRegStartRtc == 0)
      polls).Meets (answer .ops) (clockParty whole .ops) Stopped fun _ => Stopped :=
    meets_of_within (W := []) still_clock (stable_stopped whole) (within_regmapReadPollTimeout _ _ _) nofun
  refine (hpoll.mono (fun s hs => hs (not_not.mp hret)) fun _ _ => id).bind fun _ => ?_
  -- while the clock is stopped its registers may be anything
  have hwrite : (regmapBulkWrite rtcSetSeconds (rtcData bcd tm)).Meets (answer .ops)
      (clockParty whole .ops) Stopped fun ret s =>
        Stopped s ∧ (ret = 0 → s.timeBytes = (rtcData bcd tm).map UInt32.toUInt8) := by
    refine meets_regmapBulkWrite still_clock (stable_stopped whole) (fun s k val hk hs => ?_)
      fun s t hst k hk => Apart.regs hst _ (mem_timeRegs k hk)
    have hctrl : rtcSetSeconds + 4 * k ≠ rtcCtrl := by
      have hlt : k < 8 := hk
      unfold rtcSetSeconds rtcCtrl
      omega
    have hstopped : Stopped (s.write .ops (rtcSetSeconds + 4 * k) val) :=
      hs.imp (fun h => Bool.or_eq_true_iff.mpr (.inl h))
        (s.started_write_of_ne .ops val hctrl).trans
    exact ⟨fun _ => hstopped.trusted, hstopped⟩
  refine hwrite.bind fun ret' => .ite (fun _ => hend) fun hret' => ?_
  have hstart := meets_over_whole whole
    (within_rockchipRtcUpdateBits (W := [rtcCtrl]) (List.mem_singleton_self rtcCtrl)
      (rtcCtrlRegRtcReadselM ||| rtcCtrlRegStartRtc) (rtcCtrlRegRtcReadselM ||| rtcCtrlRegStartRtc))
    (by decide)
  refine (hstart.mono (fun s hs => ?_) fun _ _ _ => trivial).bind fun ret'' =>
    .ite (fun _ => hend) fun _ =>
      (meets_elsewhere (within_regmapReadPollTimeout (W := []) _ _ _) nofun).bind fun _ => hend
  rw [hs.2 (not_not.mp hret')]
  exact htm

/-- **The probe** sets the start bit over what the registers hold, and the default time where
they hold none. -/
theorem meets_rockchipRtcProbe {bcd : Bcd} {polls : ℕ} {rtcValidTm : RtcTime → Bool}
    {tmRead : RtcTime} (htm : whole ((rtcData bcd defaultTime).map UInt32.toUInt8)) :
    (rockchipRtcProbe bcd polls rtcValidTm tmRead).Meets (answer .ops) (clockParty whole .ops)
      (fun s => whole s.timeBytes) fun _ _ => True := by
  have hend {ret : ℤ} : (pure ret : Io ℤ).Meets (answer .ops) (clockParty whole .ops)
      (fun s => whole s.timeBytes) fun _ _ => True := fun _ _ _ _ => trivial
  -- the start bit is set over what the registers hold
  have hplain {α : Type} {p : Io α}
      (h : p.Asks (Request.within [rtcVptatTrim, rtcAnalogEn, rtcLdoCtrl, rtcCtrl, rtcStatus0])) :
      p.Meets (answer .ops) (clockParty whole .ops) (fun s => whole s.timeBytes)
        fun _ s => whole s.timeBytes := meets_over_whole whole h (by decide)
  refine (hplain (within_rockchipRtcUpdateBits (by decide) _ _)).bind fun _ =>
    .ite (fun _ => hend) fun _ => ?_
  refine (hplain (within_rockchipRtcUpdateBits (by decide) _ _)).bind fun _ =>
    .ite (fun _ => hend) fun _ => ?_
  refine (hplain (within_rockchipRtcUpdateBits (by decide) _ _)).bind fun _ =>
    .ite (fun _ => hend) fun _ => ?_
  refine (hplain (within_rockchipRtcUpdateBits (by decide) _ _)).bind fun _ =>
    .ite (fun _ => hend) fun _ => ?_
  refine (hplain (within_rockchipRtcUpdateBits (by decide) _ _)).bind fun _ =>
    .ite (fun _ => hend) fun _ => ?_
  refine (hplain (within_regmapWrite (by decide) _)).bind fun _ =>
    .ite (fun _ => hend) fun _ => ?_
  refine (hplain (within_regmapWrite (by decide) _)).bind fun _ =>
    .ite (fun _ => hend) fun _ => ?_
  refine (hplain (within_rockchipRtcReadTime bcd tmRead)).bind fun _ =>
    .ite (fun _ => hend) fun _ => ?_
  exact ((meets_rockchipRtcSetTime htm).mono (fun _ _ => trivial) fun _ _ => id).bind
    fun _ _ _ _ _ => trivial

/-- Setting the time is the only call that writes the time or the control register. -/
theorem meets_call {bcd : Bcd} {polls : ℕ} : ∀ call : Call,
    (∀ tm, call = .setTime tm → whole ((rtcData bcd tm).map UInt32.toUInt8)) →
      (call.serve bcd polls).Meets (answer .ops) (clockParty whole .ops) (fun _ => True)
        fun _ _ => True
  | .readTime tm, _ => (meets_elsewhere (within_rockchipRtcReadTime (W := []) bcd tm) nofun).bind
      fun _ _ _ _ _ => trivial
  | .setTime tm, h => (meets_rockchipRtcSetTime (h tm rfl)).bind fun _ _ _ _ _ => trivial
  | .readalarm alrm, _ =>
    (meets_elsewhere (within_rockchipRtcReadalarm (W := []) bcd alrm) nofun).bind
      fun _ _ _ _ _ => trivial
  | .setalarm alrm, _ =>
    (meets_elsewhere (within_rockchipRtcSetalarm bcd alrm) (by decide)).bind
      fun _ _ _ _ _ => trivial
  | .alarmIrqEnable enabled, _ =>
    (meets_elsewhere (within_rockchipRtcAlarmIrqEnable enabled) (by decide)).bind
      fun _ _ _ _ _ => trivial

/-- The calls of the RTC core, one after the other. -/
theorem meets_calls {bcd : Bcd} {polls : ℕ} {calls : List Call}
    (h : ∀ tm, .setTime tm ∈ calls → whole ((rtcData bcd tm).map UInt32.toUInt8)) :
    (Prog.each (fun call => call.run bcd polls) calls).Meets (answer .ops) (clockParty whole .ops)
      (fun _ => True) fun _ _ => True := by
  refine Prog.meets_each (fun _ _ => trivial) fun call hcall => ?_
  refine (meets_call call fun tm htm => h tm (htm ▸ hcall)).bind fun e => ?_
  refine (Prog.meets_ask (R := fun _ _ => True) (fun _ _ => trivial) (fun _ _ _ _ _ => trivial)
    fun s o _ => ⟨?_, trivial⟩).bind fun _ _ _ _ _ => trivial
  exact guarantee_of_apart ⟨fun _ _ => rfl, id, .inl⟩

end

/-! ## The clock of a driver -/

/-- The bytes of one time: those that were there before the driver, or those of a time that
it was told to set. -/
def Boot.Whole (b : Boot) (bytes : List UInt8) : Prop :=
  bytes = b.start.shared.timeBytes ∨
    ∃ tm, (tm = defaultTime ∨ .setTime tm ∈ b.calls) ∧
      bytes = (rtcData b.bcd tm).map UInt32.toUInt8

/-- The driver from its probe on. -/
theorem meets_boot (b : Boot) : b.ops.Meets (answer .ops) (clockParty b.Whole .ops)
    (fun s => b.Whole s.timeBytes) fun _ _ => True :=
  (meets_rockchipRtcProbe (.inr ⟨defaultTime, .inl rfl, rfl⟩)).bind fun _ =>
    .ite (fun _ _ _ _ _ => trivial) fun _ => meets_calls fun tm htm => .inr ⟨tm, .inr htm, rfl⟩

/-- The start bit can be trusted in every interleaving. -/
theorem clock_sound (b : Boot) (schedule : List (ℕ × Outcome)) :
    (b.run schedule).Sound (Trusted b.Whole)
      (Task.Safe answer (clockParty b.Whole) fun _ _ => True) (Task.Agree (clockParty b.Whole)) := by
  have hirq : ∀ offset ∈ [rtcStatus0], offset ∉ rtcCtrl :: timeRegs := by decide
  have htrim : ∀ offset ∈ trimRegs, offset ∉ timeRegs := by decide
  refine b.sound _ _ _ ?_ ⟨⟨fun _ _ _ => trivial, fun _ _ => id⟩, ⟨fun _ _ _ => trivial, fun _ _ => id⟩,
    fun _ _ _ => trivial, fun _ _ _ => trivial⟩ (.inr (.inr (.inl rfl))) ?_ ?_ ?_ schedule
  · intro who s t hs hg
    cases who with
    | ops => exact hg hs
    | irq => exact hs.apart hg
    | trim => exact hs.apart hg
  · exact meets_boot b _ (.inl rfl)
  · exact meets_of_within (P := fun _ => True) Apart.refl (fun _ _ => trivial) b.within_irq
      (fun s offset val ho _ => ⟨Apart.write .irq val (hirq offset ho), trivial⟩) _ trivial
  · exact meets_of_within (P := fun _ => True) Apart.refl (fun _ _ => trivial) b.within_trim
      (fun s offset val ho _ => ⟨Apart.write_trim s val (htrim offset ho), trivial⟩) _ trivial

/-! ## Without the compensation work -/

/-- A party that does not rely on anything and does not start a stopped clock unseen. -/
def quietParty : Party Chip where
  rely _ _ := True
  guarantee s t := t.restarted = s.restarted
  refl _ := trivial
  trans _ _ := trivial

theorem Chip.restarted_write (s : Chip) {who : Who} (hwho : who ≠ .trim) (offset : ℕ)
    (val : UInt32) : (s.write who offset val).restarted = s.restarted := by
  cases who with
  | trim => exact (hwho rfl).elim
  | ops => exact Bool.or_false s.restarted
  | irq => exact Bool.or_false s.restarted

theorem safe_quiet {who : Who} (hwho : who ≠ .trim) (p : Io Unit) (s : Chip) :
    p.Safe (answer who) quietParty (fun _ _ => True) s := by
  have hasks : p.Asks fun _ => True := Prog.asks_of_forall (fun _ => trivial) p
  refine hasks.meets (P := fun _ => True) (fun _ _ => trivial) (fun q _ s o _ => ⟨?_, trivial⟩) s
    trivial
  cases q with
  | read offset => rfl
  | unknown => rfl
  | note event => rfl
  | write offset val =>
    simp only [answer]
    split_ifs
    · exact s.restarted_write hwho offset val
    · rfl

theorem restarted_of_trims_eq_zero (b : Boot) (schedule : List (ℕ × Outcome)) (h : b.trims = 0) :
    (b.run schedule).shared.restarted = false := by
  have hagree : quietParty.Agree quietParty := ⟨fun _ _ _ => trivial, fun _ _ _ => trivial⟩
  have htrim : b.trim.Safe (answer .trim) quietParty (fun _ _ => True) b.start.shared := by
    unfold Boot.trim
    rw [h]
    exact fun _ _ => trivial
  exact (b.sound (fun _ => quietParty) (fun _ _ => True) (fun s => s.restarted = false)
    (fun _ s t hs hg => hg.trans hs) ⟨hagree, hagree, hagree⟩ rfl (safe_quiet (by decide) _ _)
    (safe_quiet (by decide) _ _) htrim schedule).shared

/-- **The start bit is set over a whole time only**, without the compensation work, and with
it as long as it has not started a stopped clock.  A time for which there is room is read
back from the registers. -/
theorem started_clock_whole (b : Boot) (schedule : List (ℕ × Outcome))
    (hwork : b.trims = 0 ∨ (b.run schedule).shared.restarted = false)
    (hstarted : (b.run schedule).shared.started = true) :
    (b.run schedule).shared.timeBytes = b.start.shared.timeBytes ∨
      ∃ tm, (tm = defaultTime ∨ .setTime tm ∈ b.calls) ∧
        (b.run schedule).shared.timeBytes = (rtcData b.bcd tm).map UInt32.toUInt8 ∧
        (tm.Fits → 0 ≤ tm.tmWday ∧ tm.tmWday < 8 → ∀ old ws,
          ws.map UInt32.toUInt8 = (b.run schedule).shared.timeBytes →
            getTime b.bcd old ws = tm) := by
  have hquiet : (b.run schedule).shared.restarted = false :=
    hwork.elim (restarted_of_trims_eq_zero b schedule) id
  rcases (clock_sound b schedule).shared with h | h | h | ⟨tm, htm, hbytes⟩
  · exact absurd (h.symm.trans hquiet) nofun
  · exact absurd (h.symm.trans hstarted) nofun
  · exact .inl h
  · exact .inr ⟨tm, htm, hbytes, fun hfits hwday old ws hws =>
      getTime_of_bytes hfits hwday old (hws.trans hbytes)⟩

/-- A driver that is told to set the clock to the last second of a year. -/
def clockBoot (trims : ℕ) : Boot where
  bcd := linuxBcd
  polls := 0
  rtcValidTm _ := true
  tmRead := defaultTime
  regs _ := 0
  calls := [.setTime ⟨59, 59, 23, 31, 11, 122, 6⟩]
  irqs := 0
  trims := trims

def good : Outcome := ⟨0, 0, true⟩

theorem started_clock_whole_set :
    let s := ((clockBoot 0).run (List.replicate 60 (0, good))).shared
    s.timeBytes = (clockBoot 0).start.shared.timeBytes ∨
      ∃ tm, (tm = defaultTime ∨ .setTime tm ∈ (clockBoot 0).calls) ∧
        s.timeBytes = (rtcData linuxBcd tm).map UInt32.toUInt8 ∧
        (tm.Fits → 0 ≤ tm.tmWday ∧ tm.tmWday < 8 → ∀ old ws,
          ws.map UInt32.toUInt8 = s.timeBytes → getTime linuxBcd old ws = tm) :=
  started_clock_whole (clockBoot 0) (List.replicate 60 (0, good)) (.inl rfl) (by decide +kernel)

/-- The work has read the start bit before the clock is stopped, and writes it back when
three of the registers are written. -/
example :
    let s := ((clockBoot 1).run (List.replicate 36 (0, good) ++ List.replicate 15 (2, good) ++
      List.replicate 6 (0, good) ++ [(2, good)])).shared
    s.restarted = true ∧ s.started = true ∧
      s.timeBytes = [0x59, 0x59, 0x23, 0, 0, 0, 0, 0] := by
  decide +kernel

end Rtc
end WardenSdk
