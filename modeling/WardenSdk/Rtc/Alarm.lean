import WardenSdk.Rtc.Bus

/-!
# The alarm of the clock

An alarm has a date and is on or off.  `Alarm.Step` says what a call that has come back
means for it: a call that reports success has done what it says, and one that reports a
failure has left the alarm as it was, or off, or as it was to be.

The driver keeps the alarm in eight registers and writes them one by one, and every access
may fail.  `alarm_log_trace` says that the calls of every interleaving with the interrupt
and the compensation work are steps of an alarm, and that the registers hold it when the
driver rests.
-/

namespace WardenSdk
namespace Rtc

open Lib

/-- The alarm, with its date when that is known. -/
structure Alarm where
  time : Option RtcTime
  enabled : Bool

inductive Alarm.Step : Alarm → Event → Alarm → Prop
  | readTime (a : Alarm) (ret : ℤ) (tm : RtcTime) : Step a (.readTime ret tm) a
  | setTime (a : Alarm) (tm : RtcTime) (ret : ℤ) : Step a (.setTime tm ret) a
  | readalarm {a : Alarm} {alrm : RtcWkalrm} (enabled : alrm.enabled = a.enabled)
      (time : ∀ tm, a.time = some tm → tm.Fits → alrm.time = { tm with tmWday := alrm.time.tmWday }) :
      Step a (.readalarm 0 alrm) a
  | readalarmFailed {a : Alarm} {ret : ℤ} {alrm : RtcWkalrm} (failed : ret ≠ 0) :
      Step a (.readalarm ret alrm) a
  | setalarm (a : Alarm) (alrm : RtcWkalrm) :
      Step a (.setalarm alrm 0) ⟨some alrm.time, alrm.enabled⟩
  | setalarmFailed {a a' : Alarm} {alrm : RtcWkalrm} {ret : ℤ} (failed : ret ≠ 0)
      (on : a'.enabled = true → a' = a ∨ (alrm.enabled = true ∧ a' = ⟨some alrm.time, true⟩)) :
      Step a (.setalarm alrm ret) a'
  | alarmIrqEnable (a : Alarm) (enabled : UInt32) :
      Step a (.alarmIrqEnable enabled 0) { a with enabled := enabled != 0 }
  | alarmIrqEnableFailed {a a' : Alarm} {enabled : UInt32} {ret : ℤ} (failed : ret ≠ 0)
      (same : a' = a ∨ a' = { a with enabled := enabled != 0 }) :
      Step a (.alarmIrqEnable enabled ret) a'

/-- The calls that have come back are steps of an alarm. -/
inductive Alarm.Trace (init : Alarm) : List Event → Alarm → Prop
  | nil : Trace init [] init
  | concat {l : List Event} {a a' : Alarm} {e : Event} (before : Trace init l a)
      (step : Alarm.Step a e a') : Trace init (l ++ [e]) a'

/-! ## The registers of the alarm -/

def Chip.alarmEnabled (s : Chip) : Bool := s.regs rtcInt0En &&& rtcIntRegAlarmEn.toUInt8 != 0

def Chip.alarmDate (s : Chip) : List UInt8 := s.block rtcAlarmSeconds numAlarmRegs

variable (bcd : Bcd)

/-- The registers hold the alarm. -/
structure Alarm.Of (a : Alarm) (s : Chip) : Prop where
  enabled : s.alarmEnabled = a.enabled
  time : ∀ tm, a.time = some tm → s.alarmDate = (alrmData bcd tm).map UInt32.toUInt8

/-- Nothing has happened to the alarm. -/
structure SameAlarm (s t : Chip) : Prop where
  regs : ∀ offset ∈ rtcInt0En :: alarmRegs, t.regs offset = s.regs offset
  log : t.log = s.log

theorem SameAlarm.refl (s : Chip) : SameAlarm s s := ⟨fun _ _ => rfl, rfl⟩

theorem SameAlarm.trans {s t u : Chip} (h : SameAlarm s t) (h' : SameAlarm t u) : SameAlarm s u :=
  ⟨fun offset ho => (h'.regs offset ho).trans (h.regs offset ho), h'.log.trans h.log⟩

/-- A write elsewhere leaves the alarm alone. -/
theorem SameAlarm.write (s : Chip) (who : Who) {offset : ℕ} (val : UInt32)
    (h : offset ∉ rtcInt0En :: alarmRegs) : SameAlarm s (s.write who offset val) :=
  ⟨fun _ hother => s.regs_write_of_ne who val fun heq => h (heq ▸ hother), rfl⟩

theorem mem_alarmRegs : ∀ k < numAlarmRegs, rtcAlarmSeconds + 4 * k ∈ rtcInt0En :: alarmRegs := by
  decide

/-- The date is in the seven registers from the seconds on. -/
theorem SameAlarm.date {s t : Chip} (h : SameAlarm s t) : t.alarmDate = s.alarmDate :=
  Chip.block_congr fun k hk => h.regs _ (mem_alarmRegs k hk)

theorem SameAlarm.alarmEnabled {s t : Chip} (h : SameAlarm s t) : t.alarmEnabled = s.alarmEnabled := by
  unfold Chip.alarmEnabled
  rw [h.regs rtcInt0En List.mem_cons_self]

variable {bcd}

/-- The registers still hold the alarm. -/
theorem Alarm.Of.same {a : Alarm} {s t : Chip} (h : a.Of bcd s) (hst : SameAlarm s t) : a.Of bcd t :=
  ⟨hst.alarmEnabled.trans h.enabled, fun tm htm => hst.date.trans (h.time tm htm)⟩

/-! ## The parties -/

variable (bcd) (init : Alarm)

/-- The calls rely on the others not to touch the alarm; what they do to the log is a step
of an alarm. -/
def alarmParty : Who → Party Chip
  | .ops =>
    { rely := SameAlarm
      guarantee := fun s t => t.log = s.log ∨ ∃ a, Alarm.Trace init t.log a
      refl := SameAlarm.refl
      trans := SameAlarm.trans }
  | _ =>
    { rely := fun _ _ => True
      guarantee := SameAlarm
      refl := fun _ => trivial
      trans := fun _ _ => trivial }

/-- The driver is inside a call that has not come back. -/
def At (l : List Event) (a : Alarm) (s : Chip) : Prop := s.log = l ∧ a.Of bcd s

/-- ... and the alarm is one of these. -/
def AtSome (l : List Event) (C : Alarm → Prop) (s : Chip) : Prop := ∃ a, C a ∧ At bcd l a s

variable {bcd init} {l : List Event} {a : Alarm}

/-- The others leave a call where it is. -/
theorem stable_at : (alarmParty init .ops).Stable (At bcd l a) :=
  fun hst hs => ⟨hst.log.trans hs.1, hs.2.same hst⟩

theorem stable_atSome {C : Alarm → Prop} : (alarmParty init .ops).Stable (AtSome bcd l C) :=
  fun hst ⟨a, ha, hs⟩ => ⟨a, ha, stable_at hst hs⟩

theorem still_ops (s : Chip) : (alarmParty init .ops).guarantee s s := .inl rfl

/-- A part of the driver that writes elsewhere. -/
theorem meets_at_of_within {α : Type} {p : Io α} {W : List ℕ} (h : p.Asks (Request.within W))
    (hW : ∀ offset ∈ W, offset ∉ rtcInt0En :: alarmRegs) :
    p.Meets (answer .ops) (alarmParty init .ops) (At bcd l a) fun _ => At bcd l a :=
  meets_of_within still_ops stable_at h fun s offset val ho hs =>
    ⟨.inl rfl, hs.1, hs.2.same (SameAlarm.write s .ops val (hW offset ho))⟩

/-! ## The operations -/

/-- A write to the interrupt enable register decides whether the alarm is on, unless it
fails before it has reached the register. -/
theorem meets_int0En {val : UInt32} {on : Bool}
    (hon : ((val ||| rtcWriteMask).toUInt8 &&& rtcIntRegAlarmEn.toUInt8 != 0) = on) :
    (rockchipRtcWrite rtcInt0En val).Meets (answer .ops) (alarmParty init .ops) (At bcd l a)
      fun ret => AtSome bcd l fun a' => a' = { a with enabled := on } ∨ ret ≠ 0 ∧ a' = a := by
  refine meets_regmapWrite still_ops stable_at (fun _ => stable_atSome) (fun s ret hs => ?_)
    fun s ret hret hs => ⟨a, .inr ⟨hret, rfl⟩, hs⟩
  have henabled : (s.write .ops rtcInt0En (val ||| rtcWriteMask)).alarmEnabled = on := by
    unfold Chip.alarmEnabled
    rw [Chip.regs_write_self, hon]
  have hdate : (s.write .ops rtcInt0En (val ||| rtcWriteMask)).alarmDate = s.alarmDate :=
    Chip.block_write .ops _ (by decide)
  exact ⟨.inl rfl, _, .inl rfl, hs.1, henabled, fun tm htm => hdate.trans (hs.2.time tm htm)⟩

/-- `rockchip_rtc_stop_alarm` turns the alarm off, or fails and may have turned it off. -/
theorem meets_rockchipRtcStopAlarm :
    rockchipRtcStopAlarm.Meets (answer .ops) (alarmParty init .ops) (At bcd l a)
      fun ret => AtSome bcd l fun a' => a' = { a with enabled := false } ∨ ret ≠ 0 ∧ a' = a :=
  meets_int0En rfl

/-- `rockchip_rtc_start_alarm` writes the status twice before it turns the alarm on. -/
theorem meets_rockchipRtcStartAlarm :
    rockchipRtcStartAlarm.Meets (answer .ops) (alarmParty init .ops) (At bcd l a)
      fun ret => AtSome bcd l fun a' => a' = { a with enabled := true } ∨ ret ≠ 0 ∧ a' = a := by
  have hstatus (val : UInt32) : (rockchipRtcWrite rtcStatus0 val).Meets (answer .ops)
      (alarmParty init .ops) (At bcd l a) fun _ => At bcd l a :=
    meets_at_of_within (within_regmapWrite (List.mem_singleton_self rtcStatus0) _) (by decide)
  exact (hstatus _).bind fun _ => (hstatus _).bind fun _ => meets_int0En rfl

/-- `rockchip_rtc_alarm_irq_enable` is a step of the alarm. -/
theorem meets_rockchipRtcAlarmIrqEnable (enabled : UInt32) :
    (rockchipRtcAlarmIrqEnable enabled).Meets (answer .ops) (alarmParty init .ops) (At bcd l a)
      fun ret => AtSome bcd l (Alarm.Step a (.alarmIrqEnable enabled ret)) := by
  have hstep {on : Bool} (hon : (enabled != 0) = on) (ret : ℤ) (s : Chip)
      (h : AtSome bcd l (fun a' => a' = { a with enabled := on } ∨ ret ≠ 0 ∧ a' = a) s) :
      AtSome bcd l (Alarm.Step a (.alarmIrqEnable enabled ret)) s := by
    obtain ⟨a', ha', hs⟩ := h
    refine ⟨a', ?_, hs⟩
    subst hon
    by_cases hret : ret = 0
    · obtain rfl : a' = _ := ha'.resolve_right fun h => h.1 hret
      exact hret ▸ .alarmIrqEnable a enabled
    · exact .alarmIrqEnableFailed hret (ha'.symm.imp_left And.right)
  refine .ite (fun h => ?_) fun h => ?_
  · exact meets_rockchipRtcStartAlarm.mono (fun _ => id) (hstep (bne_iff_ne.mpr h))
  · exact meets_rockchipRtcStopAlarm.mono (fun _ => id) (hstep (by simpa using h))

/-- `rockchip_rtc_readalarm` reports the alarm that the registers hold. -/
theorem meets_rockchipRtcReadalarm (alrm : RtcWkalrm) :
    (rockchipRtcReadalarm bcd alrm).Meets (answer .ops) (alarmParty init .ops) (At bcd l a)
      fun r => AtSome bcd l (Alarm.Step a (.readalarm r.1 r.2)) := by
  have hfailed {ret : ℤ} (hret : ret ≠ 0) (alrm' : RtcWkalrm) {P : Chip → Prop} :
      (pure (ret, alrm') : Io (ℤ × RtcWkalrm)).Meets (answer .ops) (alarmParty init .ops)
        (fun s => At bcd l a s ∧ P s) fun r => AtSome bcd l (Alarm.Step a (.readalarm r.1 r.2)) :=
    fun s hs t ht => ⟨a, .readalarmFailed hret, stable_at ht hs.1⟩
  refine (meets_regmapBulkRead still_ops stable_at (by decide) fun s t hst k hk =>
    hst.regs _ (mem_alarmRegs k hk)).bind fun ⟨ret, data⟩ =>
      .ite (fun hret => hfailed hret alrm) fun hret => ?_
  have hdate : (alarmParty init .ops).Stable fun s =>
      At bcd l a s ∧ (ret = 0 → data.map UInt32.toUInt8 = s.alarmDate) :=
    fun hst hs => ⟨stable_at hst hs.1, fun h => (hs.2 h).trans hst.date.symm⟩
  have hint (w : Answer) : (alarmParty init .ops).Stable fun s =>
      At bcd l a s ∧ (data.map UInt32.toUInt8 = s.alarmDate ∧
        (w.ret = 0 → w.val.toUInt8 = s.regs rtcInt0En)) :=
    fun hst hs => ⟨stable_at hst hs.1, hs.2.1.trans hst.date.symm,
      fun h => (hs.2.2 h).trans (hst.regs rtcInt0En List.mem_cons_self).symm⟩
  refine (meets_regmapRead still_ops hdate hint fun s w hs hw =>
    ⟨hs.1, hs.2 (not_not.mp hret), fun h => hw h rfl⟩).bind fun w =>
      .ite (fun hw => hfailed hw _) fun hw => ?_
  refine fun s hs t ht => ⟨a, .readalarm ?_ fun tm htm hfits => ?_, stable_at ht hs.1⟩
  · rw [← hs.1.2.enabled]
    unfold Chip.alarmEnabled
    rw [← hs.2.2 (not_not.mp hw), Bool.eq_iff_iff, bne_iff_ne, bne_iff_ne]
    exact not_congr (and_eq_zero_iff_toUInt8 (by decide))
  · have hget := getDate_of_bytes hfits alrm.time (hs.2.1.trans (hs.1.2.time tm htm))
    change getDate bcd alrm.time data = { tm with tmWday := (getDate bcd alrm.time data).tmWday }
    rw [hget]

/-- **`rockchip_rtc_setalarm`** is a step of the alarm, wherever it fails: while the date is
half-written the alarm is off. -/
theorem meets_rockchipRtcSetalarm (alrm : RtcWkalrm) :
    (rockchipRtcSetalarm bcd alrm).Meets (answer .ops) (alarmParty init .ops) (At bcd l a)
      fun ret => AtSome bcd l (Alarm.Step a (.setalarm alrm ret)) := by
  refine meets_rockchipRtcStopAlarm.bind fun ret => .ite (fun hret => ?_) fun hret => ?_
  · rintro s ⟨a', ha', hs⟩ t ht
    refine ⟨a', .setalarmFailed hret fun hon => .inl ?_, stable_at ht hs⟩
    rcases ha' with rfl | ⟨-, rfl⟩
    · cases hon
    · rfl
  -- the registers of the date are written while the alarm is off
  have hoff : (alarmParty init .ops).Stable fun s => s.log = l ∧ s.alarmEnabled = false :=
    fun hst hs => ⟨hst.log.trans hs.1, hst.alarmEnabled.trans hs.2⟩
  have hwrite : (regmapBulkWrite rtcAlarmSeconds (alrmData bcd alrm.time)).Meets (answer .ops)
      (alarmParty init .ops) (fun s => s.log = l ∧ s.alarmEnabled = false) fun ret s =>
        (s.log = l ∧ s.alarmEnabled = false) ∧
          (ret = 0 → s.alarmDate = (alrmData bcd alrm.time).map UInt32.toUInt8) := by
    refine meets_regmapBulkWrite still_ops hoff (fun s k val hk hs => ⟨.inl rfl, hs.1, ?_⟩)
      fun s t hst k hk => hst.regs _ (mem_alarmRegs k hk)
    unfold Chip.alarmEnabled
    rw [s.regs_write_of_ne .ops val (show rtcInt0En ≠ rtcAlarmSeconds + 4 * k by
      have hlt : k < 7 := hk
      unfold rtcInt0En rtcAlarmSeconds
      omega)]
    exact hs.2
  refine (hwrite.mono ?_ fun _ _ => id).bind fun ret' => .ite (fun hret' => ?_) fun hret' => ?_
  · rintro s ⟨a', ha', hs⟩
    obtain rfl : a' = _ := ha'.resolve_right fun h => hret h.1
    exact ⟨hs.1, hs.2.enabled⟩
  · exact fun s hs t ht => ⟨⟨none, false⟩, .setalarmFailed hret' nofun, (hoff ht hs.1).1,
      (hoff ht hs.1).2, nofun⟩
  have hnew : ∀ s, ((s.log = l ∧ s.alarmEnabled = false) ∧
      (ret' = 0 → s.alarmDate = (alrmData bcd alrm.time).map UInt32.toUInt8)) →
      At bcd l ⟨some alrm.time, false⟩ s :=
    fun s hs => ⟨hs.1.1, hs.1.2, fun tm htm => Option.some.inj htm ▸ hs.2 (not_not.mp hret')⟩
  refine .ite (fun hen => ?_) fun hen => ?_
  · refine meets_rockchipRtcStartAlarm.mono hnew fun ret'' s ⟨a', ha', hs⟩ => ⟨a', ?_, hs⟩
    by_cases hret'' : ret'' = 0
    · obtain rfl : a' = _ := ha'.resolve_right fun h => h.1 hret''
      have hstep := Alarm.Step.setalarm a alrm
      rw [hen] at hstep
      exact hret'' ▸ hstep
    · refine .setalarmFailed hret'' fun hon => .inr ⟨hen, ?_⟩
      rcases ha' with rfl | ⟨-, rfl⟩
      · rfl
      · cases hon
  · intro s hs t ht
    have hstep := Alarm.Step.setalarm a alrm
    rw [Bool.eq_false_of_not_eq_true hen] at hstep
    exact ⟨_, hstep, stable_at ht (hnew s hs)⟩

/-! ## The calls -/

variable {polls : ℕ}

/-- Every call is a step of the alarm. -/
theorem meets_serve : ∀ call : Call, (call.serve bcd polls).Meets (answer .ops)
    (alarmParty init .ops) (At bcd l a) fun e => AtSome bcd l (Alarm.Step a e)
  | .readTime tm =>
    (meets_at_of_within (within_rockchipRtcReadTime (W := []) bcd tm) nofun).bind
      fun r s hs t ht => ⟨a, .readTime a r.1 r.2, stable_at ht hs⟩
  | .setTime tm =>
    (meets_at_of_within (within_rockchipRtcSetTime bcd polls tm) (by decide)).bind
      fun ret s hs t ht => ⟨a, .setTime a tm ret, stable_at ht hs⟩
  | .readalarm alrm =>
    (meets_rockchipRtcReadalarm alrm).bind fun _ _ hs _ ht => stable_atSome ht hs
  | .setalarm alrm => (meets_rockchipRtcSetalarm alrm).bind fun _ _ hs _ ht => stable_atSome ht hs
  | .alarmIrqEnable enabled =>
    (meets_rockchipRtcAlarmIrqEnable enabled).bind fun _ _ hs _ ht => stable_atSome ht hs

variable (bcd init) in
/-- No call is under way: the registers hold the alarm that the log leads to. -/
def Rests (s : Chip) : Prop := ∃ a, Alarm.Trace init s.log a ∧ a.Of bcd s

theorem stable_rests : (alarmParty init .ops).Stable (Rests bcd init) :=
  fun hst ⟨a, ha, hs⟩ => ⟨a, hst.log ▸ ha, hs.same hst⟩

/-- A call that has come back is noted, and the alarm has taken its step. -/
theorem meets_run (call : Call) : (call.run bcd polls).Meets (answer .ops) (alarmParty init .ops)
    (Rests bcd init) fun _ => Rests bcd init := by
  rintro s ⟨a, ha, hs⟩
  refine ((meets_serve call).bind fun e => ?_) s ⟨rfl, hs⟩
  refine (Prog.meets_ask (R := fun _ => Rests bcd init) stable_atSome (fun _ => stable_rests)
    fun t o ⟨a', hstep, hlog, hof⟩ => ?_).bind fun _ _ hs _ ht => stable_rests ht hs
  have htrace : Alarm.Trace init (t.log ++ [e]) a' := hlog ▸ ha.concat hstep
  exact ⟨.inr ⟨a', htrace⟩, a', htrace, hof.enabled, hof.time⟩

/-- The probe leaves the alarm alone, and the calls take one step each. -/
theorem meets_ops (rtcValidTm : RtcTime → Bool) (tmRead : RtcTime) (calls : List Call) :
    (ops bcd polls rtcValidTm tmRead calls).Meets (answer .ops) (alarmParty init .ops)
      (Rests bcd init) fun _ => Rests bcd init := by
  have hprobe : ∀ offset ∈ probeRegs, offset ∉ rtcInt0En :: alarmRegs := by decide
  refine (meets_of_within still_ops stable_rests
    (within_rockchipRtcProbe bcd polls rtcValidTm tmRead)
    fun s offset val ho ⟨a, ha, hs⟩ => ⟨.inl rfl, a, ha, ?_⟩).bind fun ret =>
      .ite (fun _ _ hs _ ht => stable_rests ht hs) fun _ =>
        Prog.meets_each stable_rests fun call _ => meets_run call
  exact hs.same (SameAlarm.write s .ops val (hprobe offset ho))

/-- The alarm before the first call: its date is not known. -/
def Boot.alarm (b : Boot) : Alarm := ⟨none, b.start.shared.alarmEnabled⟩

/-- The interrupt and the compensation work leave the alarm alone. -/
theorem safe_of_within {who : Who} {party : Party Chip}
    (hg : ∀ s t, SameAlarm s t → party.guarantee s t) {p : Io Unit} {W : List ℕ}
    (h : p.Asks (Request.within W)) (hW : ∀ offset ∈ W, offset ∉ rtcInt0En :: alarmRegs)
    (s : Chip) : p.Safe (answer who) party (fun _ _ => True) s :=
  meets_of_within (P := fun _ => True) (fun s => hg s s (.refl s)) (fun _ _ => trivial) h
    (fun s offset val ho _ => ⟨hg _ _ (SameAlarm.write s who val (hW offset ho)), trivial⟩) s trivial

/-- The log leads to an alarm in every interleaving. -/
theorem alarm_sound (b : Boot) (schedule : List (ℕ × Outcome)) :
    (b.run schedule).Sound (fun s => ∃ a, Alarm.Trace b.alarm s.log a)
      (Task.Safe answer (alarmParty b.alarm)
        fun who s => who = .ops → Rests b.bcd b.alarm s) (Task.Agree (alarmParty b.alarm)) := by
  refine b.sound _ _ _ ?_ ⟨⟨fun _ _ _ => trivial, fun _ _ => id⟩, ⟨fun _ _ _ => trivial, fun _ _ => id⟩,
    fun _ _ _ => trivial, fun _ _ _ => trivial⟩ ⟨b.alarm, .nil⟩ ?_ ?_ ?_ schedule
  · intro who s t ⟨a, ha⟩ hg
    cases who with
    | ops => exact hg.elim (fun hlog => ⟨a, hlog ▸ ha⟩) id
    | irq => exact ⟨a, hg.log ▸ ha⟩
    | trim => exact ⟨a, hg.log ▸ ha⟩
  · exact (meets_ops b.rtcValidTm b.tmRead b.calls _ ⟨b.alarm, .nil, rfl, nofun⟩).mono
      fun _ _ hs _ => hs
  · exact (safe_of_within (fun _ _ => id) b.within_irq (by decide) _).mono
      fun _ _ _ => nofun
  · exact (safe_of_within (fun _ _ => id) b.within_trim (by decide) _).mono
      fun _ _ _ => nofun

/-- **The log of the calls is a trace of an alarm**, and the registers hold it once the
calls are through. -/
theorem alarm_log_trace (b : Boot) (schedule : List (ℕ × Outcome)) :
    (∃ a, Alarm.Trace b.alarm (b.run schedule).shared.log a) ∧
      (⟨.ops, .done ()⟩ ∈ (b.run schedule).threads →
        ∃ a, Alarm.Trace b.alarm (b.run schedule).shared.log a ∧
          a.Of b.bcd (b.run schedule).shared) :=
  have hsound := alarm_sound b schedule
  ⟨hsound.shared, fun h => (hsound.each _ h).of_done rfl rfl⟩

/-! ## Reading the alarm back -/

/-- A call that neither sets the alarm nor turns it on or off. -/
def Event.leavesAlarm : Event → Bool
  | .setalarm _ _ | .alarmIrqEnable _ _ => false
  | .readTime _ _ | .setTime _ _ | .readalarm _ _ => true

/-- Such a call does not change the alarm. -/
theorem Alarm.Step.leaves {a a' : Alarm} {e : Event} (h : Alarm.Step a e a')
    (he : e.leavesAlarm = true) : a' = a := by
  cases h with
  | readTime | setTime | readalarm | readalarmFailed => rfl
  | setalarm | setalarmFailed | alarmIrqEnable | alarmIrqEnableFailed => cases he

/-- The last call is a step. -/
theorem Alarm.Trace.last {l : List Event} {e : Event} {a : Alarm}
    (h : Alarm.Trace init (l ++ [e]) a) : ∃ a', Alarm.Trace init l a' ∧ Alarm.Step a' e a := by
  generalize hl : l ++ [e] = l' at h
  cases h with
  | nil => cases l <;> cases hl
  | concat before step =>
    obtain ⟨rfl, he⟩ := List.append_inj' hl rfl
    exact ⟨_, before, List.singleton_inj.mp he ▸ step⟩

/-- A trace passes through an alarm at every place of its log. -/
theorem Alarm.Trace.split {l m : List Event} {a : Alarm} (h : Alarm.Trace init (l ++ m) a) :
    ∃ a', Alarm.Trace init l a' ∧ Alarm.Trace a' m a := by
  induction m using List.reverseRecOn generalizing a with
  | nil => exact ⟨a, List.append_nil l ▸ h, .nil⟩
  | append_singleton m e ih =>
    rw [← List.append_assoc] at h
    obtain ⟨a₁, hm, hstep⟩ := h.last
    obtain ⟨a', hl, hm'⟩ := ih hm
    exact ⟨a', hl, hm'.concat hstep⟩

/-- An alarm that nobody sets stays as it is. -/
theorem Alarm.Trace.leaves {m : List Event} {a : Alarm} (h : Alarm.Trace init m a)
    (hm : ∀ e ∈ m, e.leavesAlarm = true) : a = init := by
  induction h with
  | nil => rfl
  | concat before step ih =>
    rw [step.leaves (hm _ (List.mem_append_right _ List.mem_cons_self))]
    exact ih fun e he => hm e (List.mem_append_left _ he)

/-- **The alarm that was set is read back**: when a call has set it, and no call has set it or
turned it on or off since, a call that reads it returns its date and whether it is on. -/
theorem alarm_read_back (b : Boot) (schedule : List (ℕ × Outcome)) {l m r : List Event}
    {alrm alrm' : RtcWkalrm} (hlog : (b.run schedule).shared.log =
      l ++ [.setalarm alrm 0] ++ m ++ [.readalarm 0 alrm'] ++ r)
    (hm : ∀ e ∈ m, e.leavesAlarm = true) (hfits : alrm.time.Fits) :
    alrm'.enabled = alrm.enabled ∧
      alrm'.time = { alrm.time with tmWday := alrm'.time.tmWday } := by
  obtain ⟨a, ha⟩ := (alarm_sound b schedule).shared
  rw [hlog] at ha
  obtain ⟨a₃, h₃, -⟩ := ha.split
  obtain ⟨a₂, h₂, hread⟩ := h₃.last
  obtain ⟨a₁, h₁, hbetween⟩ := h₂.split
  obtain ⟨a₀, -, hset⟩ := h₁.last
  obtain rfl : a₂ = a₁ := hbetween.leaves hm
  obtain rfl : a₂ = ⟨some alrm.time, alrm.enabled⟩ := by
    cases hset with
    | setalarm => rfl
    | setalarmFailed failed => exact (failed rfl).elim
  cases hread with
  | readalarm enabled time => exact ⟨enabled, time _ rfl hfits⟩
  | readalarmFailed failed => exact (failed rfl).elim

/-- A driver that is asked to set an alarm, and to read it while an interrupt comes in. -/
def alarmBoot : Boot where
  bcd := linuxBcd
  polls := 0
  rtcValidTm _ := true
  tmRead := defaultTime
  regs _ := 0
  calls := [.setalarm ⟨true, defaultTime⟩, .readalarm ⟨false, { defaultTime with tmYear := 99 }⟩]
  irqs := 1
  trims := 0

def alarmSchedule : List (ℕ × Outcome) :=
  List.replicate 50 (0, ⟨0, 0, true⟩) ++ [(1, ⟨0, 16, true⟩), (1, ⟨0, 0, true⟩)] ++
    List.replicate 8 (0, ⟨0, 0, true⟩)

theorem log_alarmBoot : (alarmBoot.run alarmSchedule).shared.log =
    [.setalarm ⟨true, defaultTime⟩ 0, .readalarm 0 ⟨true, defaultTime⟩] := by
  decide +kernel

theorem alarm_read_back_default :
    (⟨true, defaultTime⟩ : RtcWkalrm).enabled = (⟨true, defaultTime⟩ : RtcWkalrm).enabled ∧
      defaultTime = { defaultTime with tmWday := defaultTime.tmWday } :=
  @alarm_read_back alarmBoot alarmSchedule [] [] [] ⟨true, defaultTime⟩ ⟨true, defaultTime⟩
    log_alarmBoot (List.forall_mem_nil _) (by constructor <;> decide)

end Rtc
end WardenSdk
