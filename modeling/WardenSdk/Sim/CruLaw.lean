import WardenSdk.Sim.Cru

/-!
# The laws of the reset ladder

What the ladder does, said over the log of a run and not over the fields of the
core.

* `wdtTimer` is the watchdog's timer as a function of the log: when it was armed
  and for how long.  `DeadlineTracks` ties the core's deadline to it, an event
  keeps it, and the watchdog rung is then decided by the log.
* `cruWord`, `bootWord`, `bootModeOf` and `resets` read the last written request,
  the preserved boot word, the mode of the most recent reset and the resets
  themselves off the log.
* `Recorded.view` is all the ladder's results depend on: five registers and its
  own fields.  A poke anywhere else is a hidden event of the unwinding rule.
* `CruSim.Settled` is a core that never resets again by itself.  It asks for the
  watchdog's enable bit to be clear and for no CRU request to be pending, and no
  rung of the ladder brings both about: a warm reset keeps the enable bit, and a
  power-on reset keeps it and a pending request too.
-/

namespace WardenSdk
namespace Sim

open Lib

variable {B : Type} [MemBus B]

/-! ## The watchdog's timer -/

/-- A running timer: when it was armed, and its window. -/
structure WdtTimer where
  armedAt : ℕ
  window : ℕ
  deriving DecidableEq

/-- The time a timer runs out. -/
def WdtTimer.due (t : WdtTimer) : ℕ := t.armedAt + t.window

/-- The timer a log leaves running, if any. -/
def wdtTimer : List CruEntry → Option WdtTimer
  | [] => none
  | .poke _ _ :: past => wdtTimer past
  | .powerOnReset :: _ => none
  | .poll s result :: past =>
    if ¬ s.WdtPoll then wdtTimer past
    else if ¬ s.Enabled then none
    else if s.crr = dwWdtPet ∨ wdtTimer past = none then some ⟨s.now.toNat, s.window⟩
    else if result = some .watchdog then none
    else wdtTimer past

/-- **The watchdog law**: when a poll that sees `s` is a watchdog reset. -/
def WdtExpires (timer : Option WdtTimer) (s : CruSample) : Prop :=
  s.WdtPoll ∧ s.Enabled ∧ s.crr ≠ dwWdtPet ∧ ∃ t, timer = some t ∧ t.armedAt + t.window ≤ s.now.toNat

/-- The core's deadline is the time the log's timer runs out. -/
def DeadlineTracks (deadline : Option UInt64) (timer : Option WdtTimer) : Prop :=
  deadline.map UInt64.toNat = timer.map WdtTimer.due

/-- The time leaves room for the longest window. -/
def TimeFits (now : UInt64) : Prop := now.toNat + 2 ^ 15 < 2 ^ 64

instance (now : UInt64) : Decidable (TimeFits now) := inferInstanceAs (Decidable (_ < _))

/-- Every poll of the run happens at a time that fits. -/
def TimesFit (es : List CruEvent) : Prop := ∀ now, CruEvent.poll now ∈ es → TimeFits now

theorem CruSample.window_pos (s : CruSample) : 0 < s.window := Nat.two_pow_pos _

theorem toNat_torr_le (torr : UInt32) : (torr &&& 0xf).toNat ≤ 15 := by
  rw [UInt32.toNat_and]
  exact Nat.and_le_right

/-- A fresh deadline does not wrap. -/
theorem toNat_fresh_deadline (now : UInt64) (torr : UInt32) (h : TimeFits now) :
    (now + 1 <<< (torr &&& 0xf).toUInt64).toNat = now.toNat + 2 ^ (torr &&& 0xf).toNat := by
  have hk := toNat_torr_le torr
  have hle : 2 ^ (torr &&& 0xf).toNat ≤ 2 ^ 15 := Nat.pow_le_pow_right (by decide) hk
  have hmod : (torr &&& 0xf).toUInt64.toNat % 64 = (torr &&& 0xf).toNat := by
    rw [UInt32.toNat_toUInt64]
    exact Nat.mod_eq_of_lt (by omega)
  have hshift : ((1 : UInt64) <<< (torr &&& 0xf).toUInt64).toNat = 2 ^ (torr &&& 0xf).toNat := by
    rw [UInt64.toNat_shiftLeft, hmod, UInt64.toNat_one, Nat.one_shiftLeft]
    exact Nat.mod_eq_of_lt (by omega)
  unfold TimeFits at h
  rw [UInt64.toNat_add, hshift]
  exact Nat.mod_eq_of_lt (by omega)

/-- A timer armed by the poll itself runs out one window later. -/
theorem CruSample.toNat_deadline_of_arm (s : CruSample) (running : Option UInt64)
    (harm : s.crr = dwWdtPet ∨ running = none) (hfit : TimeFits s.now) :
    (s.deadline running).toNat = s.now.toNat + s.window := by
  have hfresh := toNat_fresh_deadline s.now s.torr hfit
  rcases harm with h | h
  · simpa [deadline, window, h] using hfresh
  · simpa [deadline, window, h] using hfresh

theorem CruSample.deadline_of_running (s : CruSample) {d : UInt64} (h : s.crr ≠ dwWdtPet) :
    s.deadline (some d) = d := by
  simp [deadline, h]

namespace CruSim

variable (c : CruSim B) (now : UInt64) (log : List CruEntry)

/-- The poll is a watchdog reset exactly when the law says so, and its log entry
leaves the timer its deadline tracks. -/
def KeepsTime : Prop :=
  ((c.poll now).2 = some .watchdog ↔ WdtExpires (wdtTimer log) (c.sees now)) ∧
    DeadlineTracks (c.poll now).1.wdtDeadline
      (wdtTimer (.poll (c.sees now) (c.poll now).2 :: log))

variable {c now log} (hw : (c.sees now).WdtPoll) (hen : (c.sees now).Enabled)
  (htrack : DeadlineTracks c.wdtDeadline (wdtTimer log))

include hw hen htrack

/-- A poll that arms the timer: a window is at least one tick, so it is no reset. -/
theorem keepsTime_of_arm (hfit : TimeFits now)
    (harm : (c.sees now).crr = dwWdtPet ∨ c.wdtDeadline = none) : c.KeepsTime now log := by
  have hres := c.poll_result now
  have hdead := c.wdtDeadline_poll now
  simp only [hw, hen, not_true_eq_false, true_and, if_false] at hres hdead
  have hto := (c.sees now).toNat_deadline_of_arm c.wdtDeadline harm hfit
  have hlate : ¬ (c.sees now).deadline c.wdtDeadline ≤ now := by
    rw [UInt64.le_iff_toNat_le, hto]
    exact Nat.not_le.2 (Nat.lt_add_of_pos_right (c.sees now).window_pos)
  have harm' : (c.sees now).crr = dwWdtPet ∨ wdtTimer log = none := by
    refine harm.imp_right fun h => ?_
    rw [DeadlineTracks, h] at htrack
    exact Option.map_eq_none_iff.1 htrack.symm
  rw [if_neg hlate] at hres
  rw [if_pos hlate] at hdead
  constructor
  · rw [hres]
    refine iff_of_false (by decide) ?_
    rintro ⟨-, -, hpet, t, ht, -⟩
    rcases harm' with h | h
    · exact hpet h
    · rw [h] at ht
      exact nomatch ht
  · simp only [DeadlineTracks, hdead, wdtTimer, hw, hen, harm', not_true_eq_false, if_true,
      if_false, Option.map_some, hto]
    rfl

/-- A poll that finds the timer running leaves it alone until it is due. -/
theorem keepsTime_of_running {d : UInt64} (hpet : (c.sees now).crr ≠ dwWdtPet)
    (hd : c.wdtDeadline = some d) : c.KeepsTime now log := by
  have hres := c.poll_result now
  have hdead := c.wdtDeadline_poll now
  simp only [hw, hen, not_true_eq_false, true_and, if_false, hd,
    CruSample.deadline_of_running _ hpet] at hres hdead
  rw [DeadlineTracks, hd, Option.map_some] at htrack
  obtain ⟨t, ht, hdue⟩ := Option.map_eq_some_iff.1 htrack.symm
  have hle : d ≤ now ↔ t.armedAt + t.window ≤ now.toNat := by
    rw [UInt64.le_iff_toNat_le, ← hdue]
    rfl
  have hkeep : wdtTimer (.poll (c.sees now) (c.poll now).2 :: log) =
      if (c.poll now).2 = some .watchdog then none else some t := by
    simp [wdtTimer, hw, hen, hpet, ht]
  by_cases hlate : d ≤ now
  · rw [if_pos hlate] at hres
    rw [if_neg (not_not.2 hlate)] at hdead
    refine ⟨iff_of_true hres ⟨hw, hen, hpet, t, ht, hle.1 hlate⟩, ?_⟩
    rw [hkeep, hdead, if_pos hres]
    rfl
  · rw [if_neg hlate] at hres
    rw [if_pos hlate] at hdead
    have hnot : (c.poll now).2 ≠ some .watchdog := by
      rw [hres]
      decide
    refine ⟨iff_of_false hnot ?_, ?_⟩
    · rintro ⟨-, -, -, t', ht', hle'⟩
      rw [ht] at ht'
      rw [← Option.some_inj.1 ht'] at hle'
      exact hlate (hle.2 hle')
    · rw [hkeep, hdead, if_neg hnot, DeadlineTracks, Option.map_some, Option.map_some, hdue]

omit hw hen

theorem keepsTime (hfit : TimeFits now) : c.KeepsTime now log := by
  have hres := c.poll_result now
  have hdead := c.wdtDeadline_poll now
  by_cases hw : (c.sees now).WdtPoll
  · by_cases hen : (c.sees now).Enabled
    · by_cases harm : (c.sees now).crr = dwWdtPet ∨ c.wdtDeadline = none
      · exact keepsTime_of_arm hw hen htrack hfit harm
      · obtain ⟨hpet, hrun⟩ := not_or.1 harm
        obtain ⟨d, hd⟩ := Option.ne_none_iff_exists'.1 hrun
        exact keepsTime_of_running hw hen htrack hpet hd
    · simp only [hw, hen, not_true_eq_false, false_and, if_false] at hres hdead
      simp [KeepsTime, hres, hdead, hw, hen, WdtExpires, wdtTimer, DeadlineTracks]
  · simp only [hw, not_false_eq_true, if_true] at hres hdead
    simp [KeepsTime, hres, hdead, hw, WdtExpires, wdtTimer, htrack]

end CruSim

/-- **The deadline of every run tracks the timer of its log.** -/
theorem recorded_tracks (bus : B) (es : List CruEvent) (hfit : TimesFit es) :
    DeadlineTracks (recorded bus es).sim.wdtDeadline (wdtTimer (recorded bus es).log) := by
  induction es using List.reverseRecOn with
  | nil => rfl
  | append_singleton es e ih =>
    have hpast := ih fun now h => hfit now (List.mem_append_left _ h)
    rw [recorded_concat]
    cases e with
    | poke a v => exact hpast
    | poll now =>
      have hnow : TimeFits now := hfit now (List.mem_append_right _ (List.mem_singleton_self _))
      exact (CruSim.keepsTime hpast hnow).2
    | powerOnReset => rfl

/-- The poll at `now` after the events is one that looks at an enabled watchdog. -/
def ServesWdt (bus : B) (es : List CruEvent) (now : UInt64) : Prop :=
  ((recorded bus es).sim.sees now).WdtPoll ∧ ((recorded bus es).sim.sees now).Enabled

/-- A pet stays pending while nobody overwrites it and no poll serves the watchdog. -/
theorem pet_pending (bus : B) (es : List CruEvent)
    (hpet : (recorded bus es).sim.peek dwWdtCrr = dwWdtPet) (es' : List CruEvent)
    (hpoke : ∀ v, CruEvent.poke dwWdtCrr v ∉ es')
    (hserve : ∀ past now rest, es' = past ++ .poll now :: rest → ¬ ServesWdt bus (es ++ past) now) :
    (recorded bus (es ++ es')).sim.peek dwWdtCrr = dwWdtPet := by
  induction es' using List.reverseRecOn with
  | nil => rwa [List.append_nil]
  | append_singleton es' e ih =>
    have hpast := ih (fun v h => hpoke v (List.mem_append_left _ h)) fun past now rest h =>
      hserve past now (rest ++ [e]) (by rw [h, List.append_assoc]; rfl)
    rw [← List.append_assoc, recorded_concat]
    cases e with
    | poke a v =>
      have hne : dwWdtCrr ≠ a := by
        rintro rfl
        exact hpoke v (List.mem_append_right _ (List.mem_singleton_self _))
      exact (CruSim.peek_poke_of_ne _ v hne).trans hpast
    | poll now =>
      have hnot := hserve es' now [] rfl
      show ((recorded bus (es ++ es')).sim.poll now).1.peek dwWdtCrr = dwWdtPet
      rw [CruSim.peek_poll, if_neg, hpast]
      rintro (⟨h, -⟩ | ⟨-, hw, hen, -⟩)
      · exact absurd h (by decide)
      · exact hnot ⟨hw, hen⟩
    | powerOnReset =>
      have hne : dwWdtCrr ≠ bootModeReg := by decide
      exact (CruSim.peek_poke_of_ne _ bootNormal hne).trans hpast

/-- The first poll that serves the watchdog consumes a pending pet and rearms. -/
theorem pet_served (bus : B) (es : List CruEvent) (now : UInt64)
    (hpet : (recorded bus es).sim.peek dwWdtCrr = dwWdtPet) (hserve : ServesWdt bus es now) :
    (recorded bus (es ++ [.poll now])).sim.peek dwWdtCrr = 0 ∧
      wdtTimer (recorded bus (es ++ [.poll now])).log =
        some ⟨now.toNat, ((recorded bus es).sim.sees now).window⟩ := by
  have hcrr : ((recorded bus es).sim.sees now).crr = dwWdtPet := hpet
  rw [recorded_concat]
  constructor
  · show ((recorded bus es).sim.poll now).1.peek dwWdtCrr = 0
    rw [CruSim.peek_poll, if_pos (Or.inr ⟨rfl, hserve.1, hserve.2, hcrr⟩)]
  · show wdtTimer (.poll ((recorded bus es).sim.sees now) _ :: (recorded bus es).log) = _
    simp only [wdtTimer, hserve.1, hserve.2, hcrr, not_true_eq_false, if_false, true_or, if_true]
    rfl

/-- A new timeout selection does not move a running deadline. -/
theorem torr_poke_idle (bus : B) (es : List CruEvent) (hfit : TimesFit es) (v : UInt32)
    (now : UInt64) (hrun : wdtTimer (recorded bus es).log ≠ none)
    (hpet : (recorded bus es).sim.peek dwWdtCrr ≠ dwWdtPet) :
    ((recorded bus (es ++ [.poke dwWdtTorr v])).sim.poll now).2 =
        ((recorded bus es).sim.poll now).2 ∧
      wdtTimer (recorded bus (es ++ [.poke dwWdtTorr v] ++ [.poll now])).log =
        wdtTimer (recorded bus (es ++ [.poll now])).log := by
  have htrack := recorded_tracks bus es hfit
  simp only [recorded_concat]
  generalize recorded bus es = r at htrack hrun hpet ⊢
  obtain ⟨c, log⟩ := r
  set c' := c.poke dwWdtTorr v
  have hcru : c'.peek cruGlbSrstFst = c.peek cruGlbSrstFst := c.peek_poke_of_ne v (by decide)
  have hcr : c'.peek dwWdtCr = c.peek dwWdtCr := c.peek_poke_of_ne v (by decide)
  have hcrr : c'.peek dwWdtCrr = c.peek dwWdtCrr := c.peek_poke_of_ne v (by decide)
  obtain ⟨d, hd⟩ : ∃ d, c.wdtDeadline = some d := by
    rw [← Option.ne_none_iff_exists']
    intro h
    rw [DeadlineTracks, h] at htrack
    exact hrun (Option.map_eq_none_iff.1 htrack.symm)
  have hsees : (c'.sees now).crr ≠ dwWdtPet := fun h => hpet (hcrr.symm.trans h)
  have hdead : (c'.sees now).deadline c'.wdtDeadline = (c.sees now).deadline c.wdtDeadline := by
    have hd' : c'.wdtDeadline = some d := hd
    rw [hd', hd, CruSample.deadline_of_running _ hsees, CruSample.deadline_of_running _ hpet]
  have hw : (c'.sees now).WdtPoll ↔ (c.sees now).WdtPoll := by
    simp only [CruSample.WdtPoll, CruSim.sees, hcru]
  have hen : (c'.sees now).Enabled ↔ (c.sees now).Enabled := by
    simp only [CruSample.Enabled, CruSim.sees, hcr]
  have hres : (c'.poll now).2 = (c.poll now).2 := by
    rw [CruSim.poll_result, CruSim.poll_result]
    simp only [hw, hen, hdead]
  refine ⟨hres, ?_⟩
  have hsees' : (c.sees now).crr ≠ dwWdtPet := hpet
  show wdtTimer (.poll (c'.sees now) (c'.poll now).2 :: .poke dwWdtTorr v :: log) =
    wdtTimer (.poll (c.sees now) (c.poll now).2 :: log)
  simp only [wdtTimer, hw, hen, hsees, hsees', hrun, hres, or_self, if_false]

/-- **The timing law of the watchdog rung**, for every run of pokes, polls and
power-on resets: a poll is a watchdog reset exactly when the log's timer has run
out; a later timeout selection does not move a running deadline; a pending pet
stays until the first poll that serves the watchdog, which consumes it and arms
the timer. -/
theorem watchdog_timing_law (bus : B) (es : List CruEvent) (hfit : TimesFit es) :
    (∀ now, TimeFits now →
      (((recorded bus es).sim.poll now).2 = some .watchdog ↔
        WdtExpires (wdtTimer (recorded bus es).log) ((recorded bus es).sim.sees now))) ∧
    (∀ v now, wdtTimer (recorded bus es).log ≠ none →
      (recorded bus es).sim.peek dwWdtCrr ≠ dwWdtPet →
      ((recorded bus (es ++ [.poke dwWdtTorr v])).sim.poll now).2 =
          ((recorded bus es).sim.poll now).2 ∧
        wdtTimer (recorded bus (es ++ [.poke dwWdtTorr v] ++ [.poll now])).log =
          wdtTimer (recorded bus (es ++ [.poll now])).log) ∧
    ((recorded bus es).sim.peek dwWdtCrr = dwWdtPet →
      (∀ es', (∀ v, CruEvent.poke dwWdtCrr v ∉ es') →
        (∀ past now rest, es' = past ++ .poll now :: rest → ¬ ServesWdt bus (es ++ past) now) →
        (recorded bus (es ++ es')).sim.peek dwWdtCrr = dwWdtPet) ∧
      ∀ now, ServesWdt bus es now →
        (recorded bus (es ++ [.poll now])).sim.peek dwWdtCrr = 0 ∧
          wdtTimer (recorded bus (es ++ [.poll now])).log =
            some ⟨now.toNat, ((recorded bus es).sim.sees now).window⟩) := by
  refine ⟨fun now hnow => ?_, fun v now => torr_poke_idle bus es hfit v now, fun hpet => ?_⟩
  · exact (CruSim.keepsTime (recorded_tracks bus es hfit) hnow).1
  · exact ⟨pet_pending bus es hpet, fun now => pet_served bus es now hpet⟩

/-- A watchdog enabled with a window of eight ticks and polled at 0 resets at 8. -/
theorem watchdog_timing_law_of_eight_ticks :
    TimesFit [.poke dwWdtTorr 3, .poke dwWdtCr 1, .poll 0] ∧
      ((recorded SimBus.new [.poke dwWdtTorr 3, .poke dwWdtCr 1, .poll 0]).sim.poll 8).2 =
        some .watchdog := by
  have hfit : TimesFit [.poke dwWdtTorr 3, .poke dwWdtCr 1, .poll 0] := by
    intro now h
    have hzero : now = 0 := by simpa using h
    rw [hzero]
    decide
  refine ⟨hfit, ((watchdog_timing_law SimBus.new _ hfit).1 8 (by decide)).2 ?_⟩
  exact ⟨by decide, by decide, by decide, ⟨0, 8⟩, by decide, by decide⟩

/-! ## Attribution and the boot mode -/

/-- The last value written to the global-reset register: by software, or the 0 a
CRU reset leaves; `init` if there is none. -/
def cruWord (init : UInt32) : List CruEntry → UInt32
  | [] => init
  | .poke a v :: past => if a = cruGlbSrstFst then v else cruWord init past
  | .poll _ (some .cru) :: _ => 0
  | .poll _ (some .watchdog) :: past => cruWord init past
  | .poll _ none :: past => cruWord init past
  | .powerOnReset :: past => cruWord init past

/-- The word the boot-mode register holds: poked by software, cleared by a
power-on reset, kept by everything else. -/
def bootWord (init : UInt32) : List CruEntry → UInt32
  | [] => init
  | .poke a v :: past => if a = bootModeReg then v else bootWord init past
  | .poll _ _ :: past => bootWord init past
  | .powerOnReset :: _ => bootNormal

/-- The decoding of the word the boot-mode register held at the most recent reset. -/
def bootModeOf (init : UInt32) : List CruEntry → BootMode
  | [] => .normal
  | .poke _ _ :: past => bootModeOf init past
  | .poll _ (some _) :: past => BootMode.fromReg (bootWord init past)
  | .poll _ none :: past => bootModeOf init past
  | .powerOnReset :: _ => .normal

/-- The results of the polls of a log, newest first. -/
def results : List CruEntry → List (Option ResetCause)
  | [] => []
  | .poll _ result :: past => result :: results past
  | .poke _ _ :: past => results past
  | .powerOnReset :: past => results past

/-- The resets among them. -/
def resets (log : List CruEntry) : List ResetCause := (results log).reduceOption

/-- What the log says about the core: the two words the ladder and software
share, and the three fields `CruSim` reports. -/
structure LogTracks (bus : B) (r : Recorded B) : Prop where
  cru : r.sim.peek cruGlbSrstFst = cruWord (MemBus.peek32 bus cruGlbSrstFst) r.log
  boot : r.sim.peek bootModeReg = bootWord (MemBus.peek32 bus bootModeReg) r.log
  mode : r.sim.bootMode = bootModeOf (MemBus.peek32 bus bootModeReg) r.log
  cause : r.sim.lastCause = (resets r.log).head?
  count : r.sim.resetCount = (resets r.log).length

theorem logTracks_start (bus : B) : LogTracks bus (Recorded.start bus) :=
  ⟨rfl, rfl, rfl, rfl, rfl⟩

theorem LogTracks.poke {bus : B} {r : Recorded B} (h : LogTracks bus r) (a : UInt64)
    (v : UInt32) : LogTracks bus (r.step (.poke a v)) where
  cru := by
    show (r.sim.poke a v).peek cruGlbSrstFst = _
    rw [CruSim.peek_poke, h.cru]
    simp only [Recorded.step, CruSim.entry, cruWord, eq_comm]
  boot := by
    show (r.sim.poke a v).peek bootModeReg = _
    rw [CruSim.peek_poke, h.boot]
    simp only [Recorded.step, CruSim.entry, bootWord, eq_comm]
  mode := h.mode
  cause := h.cause
  count := h.count

theorem LogTracks.poll {bus : B} {r : Recorded B} (h : LogTracks bus r) (now : UInt64) :
    LogTracks bus (r.step (.poll now)) := by
  obtain ⟨hcount, hcause, hmode⟩ := r.sim.poll_counters now
  have hboot : (r.sim.poll now).1.peek bootModeReg = r.sim.peek bootModeReg :=
    r.sim.peek_poll_of_ne now (by decide) (by decide)
  have hcru : (r.sim.poll now).1.peek cruGlbSrstFst =
      if (r.sim.poll now).2 = some .cru then 0 else r.sim.peek cruGlbSrstFst := by
    have hne : cruGlbSrstFst ≠ dwWdtCrr := by decide
    have hw : ¬ (r.sim.sees now).WdtPoll ↔ (r.sim.poll now).2 = some .cru :=
      not_not.trans (r.sim.poll_eq_cru_iff now).symm
    rw [CruSim.peek_poll]
    simp only [hne, hw, true_and, false_and, or_false]
  have hlog : (r.step (.poll now)).log =
      .poll (r.sim.sees now) (r.sim.poll now).2 :: r.log := rfl
  have hsim : (r.step (.poll now)).sim = (r.sim.poll now).1 := rfl
  refine ⟨?_, ?_, ?_, ?_, ?_⟩
  all_goals rw [hsim, hlog]
  · rw [hcru, h.cru]
    rcases (r.sim.poll now).2 with _ | _ | _
    · rfl
    · rfl
    · rfl
  · rw [hboot, h.boot]
    rfl
  · rw [hmode, h.boot, h.mode]
    rcases (r.sim.poll now).2 with _ | cause
    · rfl
    · rfl
  · rw [hcause, h.cause]
    rcases (r.sim.poll now).2 with _ | cause
    · rfl
    · rfl
  · rw [hcount, h.count]
    rcases (r.sim.poll now).2 with _ | cause
    · rfl
    · rfl

theorem LogTracks.powerOnReset {bus : B} {r : Recorded B} (h : LogTracks bus r) :
    LogTracks bus (r.step .powerOnReset) where
  cru := (r.sim.peek_poke_of_ne bootNormal (by decide)).trans h.cru
  boot := r.sim.peek_poke_self bootModeReg bootNormal
  mode := rfl
  cause := h.cause
  count := h.count

/-- The log of every run tells the words and the fields of its core. -/
theorem recorded_logTracks (bus : B) (es : List CruEvent) : LogTracks bus (recorded bus es) := by
  refine run_invariant (I := LogTracks bus) (fun r e h => ?_) (logTracks_start bus) es
  cases e with
  | poke a v => exact h.poke a v
  | poll now => exact h.poll now
  | powerOnReset => exact h.powerOnReset

/-! ### What the results depend on -/

/-- The registers the ladder reads. -/
def ladderRegs : List UInt64 := [cruGlbSrstFst, bootModeReg, dwWdtCr, dwWdtTorr, dwWdtCrr]

/-- Every event but a poke at an address the ladder does not read. -/
def CruEvent.relevant : CruEvent → Bool
  | .poke a _ => decide (a ∈ ladderRegs)
  | .poll _ => true
  | .powerOnReset => true

/-- All that the results of the ladder depend on, and the results. -/
structure LadderView where
  resetCount : ℕ
  lastCause : Option ResetCause
  bootMode : BootMode
  wdtDeadline : Option UInt64
  cru : UInt32
  boot : UInt32
  cr : UInt32
  torr : UInt32
  crr : UInt32
  results : List (Option ResetCause)

def Recorded.view (r : Recorded B) : LadderView where
  resetCount := r.sim.resetCount
  lastCause := r.sim.lastCause
  bootMode := r.sim.bootMode
  wdtDeadline := r.sim.wdtDeadline
  cru := r.sim.peek cruGlbSrstFst
  boot := r.sim.peek bootModeReg
  cr := r.sim.peek dwWdtCr
  torr := r.sim.peek dwWdtTorr
  crr := r.sim.peek dwWdtCrr
  results := Sim.results r.log

/-- What a poll sees is part of the view. -/
theorem sees_of_view {r r' : Recorded B} (h : r.view = r'.view) (now : UInt64) :
    r.sim.sees now = r'.sim.sees now := by
  simp only [Recorded.view, LadderView.mk.injEq] at h
  obtain ⟨-, -, -, -, hcru, -, hcr, htorr, hcrr, -⟩ := h
  simp only [CruSim.sees, hcru, hcr, htorr, hcrr]

/-- The view after an event is decided by the view before it. -/
theorem view_step_of_view (r r' : Recorded B) (e : CruEvent) (h : r.view = r'.view) :
    (r.step e).view = (r'.step e).view := by
  have hsees := sees_of_view h
  simp only [Recorded.view, LadderView.mk.injEq] at h
  obtain ⟨hcount, hcause, hmode, hdead, hcru, hboot, hcr, htorr, hcrr, hres⟩ := h
  cases e with
  | poke a v =>
    simp only [Recorded.view, Recorded.step, CruSim.step, CruSim.peek_poke, hcru, hboot, hcr,
      htorr, hcrr]
    simp only [CruSim.poke, CruSim.entry, results, hcount, hcause, hmode, hdead, hres]
  | poll now =>
    have hpoll : (r.sim.poll now).2 = (r'.sim.poll now).2 := by
      rw [CruSim.poll_result, CruSim.poll_result, hsees, hdead]
    have hc := r.sim.poll_counters now
    have hc' := r'.sim.poll_counters now
    simp only [Recorded.view, Recorded.step, CruSim.step, CruSim.peek_poll, CruSim.entry, results,
      CruSim.wdtDeadline_poll, hc.1, hc'.1, hc.2.1, hc'.2.1, hc.2.2, hc'.2.2, hpoll, hsees, hcount,
      hcause, hmode, hdead, hcru, hboot, hcr, htorr, hcrr, hres]
  | powerOnReset =>
    simp only [Recorded.view, Recorded.step, CruSim.step, CruSim.peek_powerOnReset, hcru, hboot,
      hcr, htorr, hcrr]
    simp only [CruSim.powerOnReset, CruSim.poke, CruSim.entry, results, hcount, hcause, hres]

/-- A poke at an address the ladder does not read changes nothing in the view. -/
theorem view_step_of_irrelevant (r : Recorded B) (e : CruEvent) (h : e.relevant = false) :
    (r.step e).view = r.view := by
  cases e with
  | poke a v =>
    have hmem : a ∉ ladderRegs := of_decide_eq_false h
    have hne : ∀ b ∈ ladderRegs, (r.sim.poke a v).peek b = r.sim.peek b := fun b hb =>
      r.sim.peek_poke_of_ne v fun he => hmem (he ▸ hb)
    simp only [Recorded.view, Recorded.step, CruSim.step, hne cruGlbSrstFst (by decide),
      hne bootModeReg (by decide), hne dwWdtCr (by decide), hne dwWdtTorr (by decide),
      hne dwWdtCrr (by decide)]
    rfl
  | poll now => exact nomatch h
  | powerOnReset => exact nomatch h

/-- **Attribution, boot mode and noninterference**, for every run of pokes, polls
and power-on resets: a poll is a CRU reset exactly when the last word written to
the global-reset register is the magic; the reported boot mode, cause and count
are those of the log; and pokes at addresses the ladder does not read change no
result. -/
theorem reset_attribution (bus : B) (es : List CruEvent) :
    (∀ now, ((recorded bus es).sim.poll now).2 = some .cru ↔
      cruWord (MemBus.peek32 bus cruGlbSrstFst) (recorded bus es).log = cruGlbSrstMagic) ∧
    (recorded bus es).sim.bootMode =
      bootModeOf (MemBus.peek32 bus bootModeReg) (recorded bus es).log ∧
    (recorded bus es).sim.lastCause = (resets (recorded bus es).log).head? ∧
    (recorded bus es).sim.resetCount = (resets (recorded bus es).log).length ∧
    ∀ es', es.filter CruEvent.relevant = es'.filter CruEvent.relevant →
      results (recorded bus es).log = results (recorded bus es').log ∧
      (recorded bus es).sim.resetCount = (recorded bus es').sim.resetCount ∧
      (recorded bus es).sim.lastCause = (recorded bus es').sim.lastCause ∧
      (recorded bus es).sim.bootMode = (recorded bus es').sim.bootMode := by
  have h := recorded_logTracks bus es
  refine ⟨fun now => ?_, h.mode, h.cause, h.count, fun es' hes => ?_⟩
  · rw [CruSim.poll_eq_cru_iff, h.cru]
  · have hview : (recorded bus es).view = (recorded bus es').view :=
      view_run_of_filter_eq view_step_of_view view_step_of_irrelevant (Recorded.start bus) hes
    simp only [Recorded.view, LadderView.mk.injEq] at hview
    exact ⟨hview.2.2.2.2.2.2.2.2.2, hview.1, hview.2.1, hview.2.2.1⟩

/-- The magic at the wrong offset changes no result of a run that resets once. -/
theorem reset_attribution_of_wrong_offset :
    results (recorded SimBus.new [.poke cruWrongOffset cruGlbSrstMagic, .poll 0,
        .poke cruGlbSrstFst cruGlbSrstMagic, .poll 1]).log =
      results (recorded SimBus.new [.poll 0, .poke cruGlbSrstFst cruGlbSrstMagic, .poll 1]).log ∧
    results (recorded SimBus.new
        [.poll 0, .poke cruGlbSrstFst cruGlbSrstMagic, .poll 1]).log = [some .cru, none] := by
  refine ⟨?_, by decide⟩
  exact ((reset_attribution SimBus.new _).2.2.2.2 _ (by decide)).1

/-! ## A core that stays up -/

/-- Software pokes nothing. -/
def PokeFree (es : List CruEvent) : Prop := ∀ a v, CruEvent.poke a v ∉ es

namespace CruSim

/-- The event is a reset: a poll that returns a cause, or a power-on reset. -/
def Resets (c : CruSim B) : CruEvent → Prop
  | .poke _ _ => False
  | .poll now => (c.poll now).2 ≠ none
  | .powerOnReset => True

/-- With no further poke, no poll at any time is a reset and none is counted. -/
def Settled (c : CruSim B) : Prop :=
  ∀ es, PokeFree es → (run step c es).resetCount = c.resetCount ∧
    ∀ now, ((run step c es).poll now).2 = none

/-- Nothing on the bus asks for a reset. -/
def Quiet (c : CruSim B) : Prop :=
  c.peek cruGlbSrstFst ≠ cruGlbSrstMagic ∧ c.peek dwWdtCr &&& dwWdtEn = 0

theorem Quiet.poll {c : CruSim B} (h : c.Quiet) (now : UInt64) :
    c.poll now = ({ c with wdtDeadline := none }, none) :=
  c.poll_of_disabled now h.1 (not_not.2 h.2)

theorem Quiet.step {c : CruSim B} (h : c.Quiet) {e : CruEvent}
    (he : ∀ a v, e ≠ .poke a v) :
    (c.step e).Quiet ∧ (c.step e).resetCount = c.resetCount := by
  cases e with
  | poke a v => exact absurd rfl (he a v)
  | poll now =>
    show (c.poll now).1.Quiet ∧ (c.poll now).1.resetCount = c.resetCount
    rw [h.poll now]
    exact ⟨h, rfl⟩
  | powerOnReset =>
    have hcru : c.powerOnReset.peek cruGlbSrstFst = c.peek cruGlbSrstFst :=
      c.peek_poke_of_ne bootNormal (by decide)
    have hcr : c.powerOnReset.peek dwWdtCr = c.peek dwWdtCr :=
      c.peek_poke_of_ne bootNormal (by decide)
    refine ⟨?_, rfl⟩
    show c.powerOnReset.peek cruGlbSrstFst ≠ _ ∧ c.powerOnReset.peek dwWdtCr &&& dwWdtEn = 0
    rw [hcru, hcr]
    exact h

theorem Quiet.settled {c : CruSim B} (h : c.Quiet) : c.Settled := by
  intro es hes
  suffices hrun : (run CruSim.step c es).Quiet ∧
      (run CruSim.step c es).resetCount = c.resetCount from
    ⟨hrun.2, fun now => by rw [hrun.1.poll now]⟩
  induction es using List.reverseRecOn with
  | nil => exact ⟨h, rfl⟩
  | append_singleton es e ih =>
    obtain ⟨hquiet, hcount⟩ := ih fun a v hm => hes a v (List.mem_append_left _ hm)
    have he : ∀ a v, e ≠ .poke a v := fun a v heq =>
      hes a v (List.mem_append_right _ (by rw [heq]; exact List.mem_singleton_self _))
    rw [run_concat]
    exact ⟨(hquiet.step he).1, (hquiet.step he).2.trans hcount⟩

/-- An enabled watchdog that nobody touches resets the core: the first poll
starts its timer, or finds it running, and no deadline is later than the end of
time. -/
theorem not_settled_of_enabled {c : CruSim B} (hcru : c.peek cruGlbSrstFst ≠ cruGlbSrstMagic)
    (hen : c.peek dwWdtCr &&& dwWdtEn ≠ 0) : ¬ c.Settled := by
  intro h
  have hfirst : (c.poll 0).2 = none := (h [] (fun _ _ hm => nomatch hm)).2 0
  have hlast : ((c.poll 0).1.poll 0xffffffffffffffff).2 = none :=
    (h [.poll 0] (by simp [PokeFree])).2 _
  have hw : (c.sees 0).WdtPoll := hcru
  rcases c.poll_cases 0 with ⟨h', -⟩ | ⟨-, h', -⟩ | ⟨-, -, -, hp⟩ | ⟨-, -, -, hp⟩
  · exact h' hw
  · exact h' hen
  · rw [hp] at hfirst
    exact nomatch hfirst
  · -- the served pet, if there was one, is consumed
    rw [hp] at hlast
    set c' := c.serveWdt 0
    have hcru' : c'.peek cruGlbSrstFst = c.peek cruGlbSrstFst :=
      c.peek_serveWdt_of_ne 0 (by decide)
    have hcr' : c'.peek dwWdtCr = c.peek dwWdtCr := c.peek_serveWdt_of_ne 0 (by decide)
    have hcrr' : c'.peek dwWdtCrr ≠ dwWdtPet := by
      rw [peek_serveWdt]
      by_cases hpet : c.peek dwWdtCrr = dwWdtPet
      · rw [if_pos ⟨rfl, hpet⟩]
        decide
      · rw [if_neg (fun he => hpet he.2)]
        exact hpet
    have hdead := c.wdtDeadline_serveWdt 0
    have hle : (c'.sees 0xffffffffffffffff).deadline c'.wdtDeadline ≤ 0xffffffffffffffff := by
      rw [hdead, CruSample.deadline_of_running _ hcrr']
      exact UInt64.le_iff_toNat_le.2 (Nat.le_of_lt_succ (UInt64.toNat_lt _))
    have hw' : (c'.sees 0xffffffffffffffff).WdtPoll := fun he => hcru (hcru'.symm.trans he)
    have hen' : (c'.sees 0xffffffffffffffff).Enabled := by
      show c'.peek dwWdtCr &&& dwWdtEn ≠ 0
      rwa [hcr']
    have hfires : (c'.poll 0xffffffffffffffff).2 = some .watchdog := by
      rw [poll_result, if_neg (not_not.2 hw'), if_pos ⟨hen', hle⟩]
    exact nomatch hfires.symm.trans hlast

theorem settled_iff_quiet (c : CruSim B) : c.Settled ↔ c.Quiet := by
  refine ⟨fun h => ?_, Quiet.settled⟩
  have hcru : c.peek cruGlbSrstFst ≠ cruGlbSrstMagic := by
    intro hm
    have hnone := (h [] (fun _ _ hm => nomatch hm)).2 0
    rw [run_nil, c.poll_of_cru 0 hm] at hnone
    exact nomatch hnone
  exact ⟨hcru, not_not.1 fun hen => not_settled_of_enabled hcru hen h⟩

end CruSim

/-- **When a reset is the last one**, for every run and every reset in it: the
watchdog's enable bit has to be clear at the reset and, if it is a power-on
reset, no CRU request may be pending. -/
theorem settled_after_reset_iff (bus : B) (es : List CruEvent) (e : CruEvent)
    (h : (run CruSim.step (CruSim.new bus) es).Resets e) :
    ((run CruSim.step (CruSim.new bus) es).step e).Settled ↔
      (run CruSim.step (CruSim.new bus) es).peek dwWdtCr &&& dwWdtEn = 0 ∧
        (e = .powerOnReset →
          (run CruSim.step (CruSim.new bus) es).peek cruGlbSrstFst ≠ cruGlbSrstMagic) := by
  generalize run CruSim.step (CruSim.new bus) es = c at h ⊢
  rw [CruSim.settled_iff_quiet]
  cases e with
  | poke a v => exact h.elim
  | poll now =>
    have hcr : (c.poll now).1.peek dwWdtCr = c.peek dwWdtCr :=
      c.peek_poll_of_ne now (by decide) (by decide)
    -- a taken request is consumed, and the watchdog rung is not reached with one
    have hcru : (c.poll now).1.peek cruGlbSrstFst ≠ cruGlbSrstMagic := by
      rw [CruSim.peek_poll]
      by_cases hw : (c.sees now).WdtPoll
      · have hne : cruGlbSrstFst ≠ dwWdtCrr := by decide
        simp only [hw, hne, not_true_eq_false, and_false, false_and, or_self, if_false]
        exact hw
      · rw [if_pos (Or.inl ⟨rfl, hw⟩)]
        decide
    show (c.poll now).1.peek cruGlbSrstFst ≠ cruGlbSrstMagic ∧
      (c.poll now).1.peek dwWdtCr &&& dwWdtEn = 0 ↔ _
    rw [hcr]
    exact ⟨fun hq => ⟨hq.2, fun he => nomatch he⟩, fun hq => ⟨hcru, hq.1⟩⟩
  | powerOnReset =>
    have hcru : c.powerOnReset.peek cruGlbSrstFst = c.peek cruGlbSrstFst :=
      c.peek_poke_of_ne bootNormal (by decide)
    have hcr : c.powerOnReset.peek dwWdtCr = c.peek dwWdtCr :=
      c.peek_poke_of_ne bootNormal (by decide)
    show c.powerOnReset.peek cruGlbSrstFst ≠ cruGlbSrstMagic ∧
      c.powerOnReset.peek dwWdtCr &&& dwWdtEn = 0 ↔ _
    rw [hcru, hcr]
    exact ⟨fun hq => ⟨hq.2, fun _ => hq.1⟩, fun hq => ⟨hq.2 rfl, hq.1⟩⟩

/-- A CRU request with the watchdog off is taken once, and the core stays up. -/
theorem settled_after_cru_request :
    (run CruSim.step (CruSim.new SimBus.new) [.poke cruGlbSrstFst cruGlbSrstMagic]).Resets
        (.poll 0) ∧
      ((run CruSim.step (CruSim.new SimBus.new)
        [.poke cruGlbSrstFst cruGlbSrstMagic]).step (.poll 0)).Settled := by
  have hreset : (run CruSim.step (CruSim.new SimBus.new)
      [.poke cruGlbSrstFst cruGlbSrstMagic]).Resets (.poll 0) := by
    show (CruSim.poll _ 0).2 ≠ none
    decide
  exact ⟨hreset, (settled_after_reset_iff _ _ _ hreset).2 ⟨by decide, fun he => nomatch he⟩⟩

/-- One trip down the ladder, both rungs poked, is two resets: the CRU reset
leaves the watchdog enabled, and it runs out with no further poke. -/
theorem ladder_trip_resets_twice :
    (run CruSim.step (CruSim.new SimBus.new)
        [.poke cruGlbSrstFst cruGlbSrstMagic, .poke dwWdtCr dwWdtEn]).Resets (.poll 0) ∧
      ¬ ((run CruSim.step (CruSim.new SimBus.new)
        [.poke cruGlbSrstFst cruGlbSrstMagic, .poke dwWdtCr dwWdtEn]).step (.poll 0)).Settled ∧
      (run CruSim.step (CruSim.new SimBus.new)
        [.poke cruGlbSrstFst cruGlbSrstMagic, .poke dwWdtCr dwWdtEn, .poll 0, .poll 1,
          .poll 2]).resetCount = 2 := by
  refine ⟨?_, fun h => ?_, by decide⟩
  · show (CruSim.poll _ 0).2 ≠ none
    decide
  · have hnone := (h [.poll 1] (by simp [PokeFree])).2 2
    revert hnone
    decide

end Sim
end WardenSdk
