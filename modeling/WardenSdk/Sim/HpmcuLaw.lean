import WardenSdk.Sim.HpmcuTick

/-!
# When the HPMCU watchdog fires

The core keeps five fields that different branches of `tick` update.  This file
says what they are in terms of the run: everything the watchdog knows is a
function of what its ticks saw, and that function is written down here without
reference to the code.

* `prevCounter`, `lastBeat` and `lastStandDown` read a history of ticks, newest
  first, and `MustFire` is the firing law over them.
* `Watch.Tracks` is the invariant that ties the fields to the history; a step
  keeps it (`Watch.tracks_step`) and so every run does (`Watch.tracks_run`).
* The law itself is then an equivalence over every run of pokes and ticks: a
  tick fires exactly when no earlier one did and `MustFire` asks for it.

Two consequences are drawn.  A healthy boot stays quiet *unless* the counter is
still zero when Linux arms it: the core's last-seen counter starts at 0, so an
arming tick that sees 0 is no heartbeat and the clock of the boot keeps running.
And a re-created core gets its boot grace only when the magic word its
predecessor left behind is not `MAGIC_ARMED`: `new` resets the words the MCU
owns and leaves the two Linux owns.
-/

namespace WardenSdk
namespace Sim

open Lib

variable {B : Type} [MemBus B]

/-! ## The run of the core is the run of its watch -/

namespace HpmcuSim

theorem read_new (bus : B) (base : UInt64) (start : ℕ) {off : UInt64} (hstate : off ≠ offState)
    (hseen : off ≠ offSeen) : (new bus base start).read off = MemBus.peek32 bus (base + off) := by
  have h₁ : base + off ≠ base + offState := fun e => hstate (add_left_cancel e)
  have h₂ : base + off ≠ base + offSeen := fun e => hseen (add_left_cancel e)
  show MemBus.peek32 (MemBus.poke32 (MemBus.poke32 bus _ _) _ _) (base + off) = _
  rw [MemBus.peek32_poke32_of_ne _ _ h₂, MemBus.peek32_poke32_of_ne _ _ h₁]

/-- **The watch of a run is the run of the watch** over what the ticks see. -/
theorem watch_run (m : HpmcuSim B) (es : List Event) :
    (run step m es).watch =
      run Watch.step m.watch (observe (m.read offMagic) (m.read offCounter) es) := by
  induction es generalizing m with
  | nil => rfl
  | cons e es ih =>
    rw [run_cons, ih]
    cases e with
    | pokeMagic v =>
      have hc : (m.write offMagic v).read offCounter = m.read offCounter :=
        read_write_of_ne m v (by decide)
      simp [step, observe, hc]
    | pokeCounter v =>
      have hm : (m.write offCounter v).read offMagic = m.read offMagic :=
        read_write_of_ne m v (by decide)
      simp [step, observe, hm]
    | tick now =>
      have hm : (m.tick now).read offMagic = m.read offMagic :=
        m.read_tick now (by decide) (by decide) (by decide)
      have hc : (m.tick now).read offCounter = m.read offCounter :=
        m.read_tick now (by decide) (by decide) (by decide)
      simp only [step, observe, run_cons, hm, hc, watch_tick]
      rfl

end HpmcuSim

/-! ## The history of a run -/

/-- The counter of the latest tick that saw `MAGIC_ARMED`, or 0. -/
def prevCounter : List Seen → UInt32
  | [] => 0
  | s :: past => if s.magic = magicArmed then s.counter else prevCounter past

/-- The time of the latest tick that stood the watchdog down or saw a heartbeat,
or the start. -/
def lastBeat (start : ℕ) : List Seen → ℕ
  | [] => start
  | s :: past =>
      if s.magic = magicDisarm ∨ (s.magic = magicArmed ∧ s.counter ≠ prevCounter past) then s.now
      else lastBeat start past

/-- The time of the latest tick that stood the watchdog down, or the start. -/
def lastStandDown (start : ℕ) : List Seen → ℕ
  | [] => start
  | s :: past => if s.magic = magicDisarm then s.now else lastStandDown start past

/-- **The firing law**, for the newest tick of a history. -/
def MustFire (start : ℕ) : List Seen → Prop
  | [] => False
  | s :: past =>
      (s.magic = magicArmed ∧ s.now - lastBeat start (s :: past) > heartbeatTimeoutS) ∨
      (s.magic ≠ magicArmed ∧ s.magic ≠ magicDisarm ∧
        (∀ r ∈ s :: past, r.magic ≠ magicArmed) ∧
        s.now - lastStandDown start (s :: past) > bootGraceS) ∨
      (s.magic ≠ magicArmed ∧ s.magic ≠ magicDisarm ∧ (∃ r ∈ past, r.magic = magicArmed) ∧
        s.now - lastBeat start (s :: past) > heartbeatTimeoutS)

theorem lastBeat_cons_of_boot (start : ℕ) {s : Seen} (past : List Seen)
    (ha : s.magic ≠ magicArmed) (hd : s.magic ≠ magicDisarm) :
    lastBeat start (s :: past) = lastBeat start past := by
  rw [lastBeat, if_neg]
  rintro (h | h)
  · exact hd h
  · exact ha h.1

namespace Watch

/-- The fields of a watch that has not fired, read off the history of its ticks. -/
structure Tracks (start : ℕ) (past : List Seen) (w : Watch) : Prop where
  t0 : w.t0 = lastStandDown start past
  lastChange : w.lastChange = lastBeat start past
  lastSeen : w.lastSeen = prevCounter past
  armedEver : w.armedEver = true ↔ ∃ r ∈ past, r.magic = magicArmed

theorem tracks_start (start : ℕ) : Tracks start [] (Watch.start start) :=
  ⟨rfl, rfl, rfl, by simp [Watch.start]⟩

/-- **One step keeps the fields equal to the history.** -/
theorem tracks_step {start : ℕ} {past : List Seen} {w : Watch} (hf : w.fired = false)
    (h : Tracks start past w) (s : Seen) : Tracks start (s :: past) (w.step s) := by
  by_cases hd : s.magic = magicDisarm
  · have ha : s.magic ≠ magicArmed := fun e => magicArmed_ne_magicDisarm (e.symm.trans hd)
    rw [step_disarm hf hd]
    refine ⟨by simp [lastStandDown, hd], by simp [lastBeat, hd], ?_, ?_⟩
    · simpa [prevCounter, ha] using h.lastSeen
    · simpa [ha] using h.armedEver
  · by_cases ha : s.magic = magicArmed
    · rw [step_armed hf ha]
      refine ⟨?_, ?_, by simp [armed, prevCounter, ha], by simp [armed, ha]⟩
      · simpa [armed, lastStandDown, hd] using h.t0
      · by_cases hc : s.counter = prevCounter past
        · simpa [armed, lastBeat, ha, hc, h.lastSeen] using h.lastChange
        · simp [armed, lastBeat, ha, hc, h.lastSeen]
    · rw [step_boot hf hd ha]
      refine ⟨?_, ?_, ?_, ?_⟩
      · simpa [lastStandDown, hd] using h.t0
      · rw [lastBeat_cons_of_boot start past ha hd]
        exact h.lastChange
      · simpa [prevCounter, ha] using h.lastSeen
      · simpa [ha] using h.armedEver

/-- **Every run keeps it**, for as long as the watch has not fired. -/
theorem tracks_run (start : ℕ) (past : List Seen)
    (hf : (run step (Watch.start start) past).fired = false) :
    Tracks start past.reverse (run step (Watch.start start) past) := by
  refine run_history (I := fun past w => w.fired = false → Tracks start past.reverse w)
    (fun _ => tracks_start start) ?_ past hf
  intro past w s ih hstep
  rw [List.reverse_append]
  cases hw : w.fired with
  | true => rw [step_of_fired s hw, hw] at hstep; exact absurd hstep (by decide)
  | false => exact tracks_step hw (ih hw) s

/-- While the magic word says nothing, the clock that runs is the one of the law:
the heartbeat clock once the watch was armed, and the boot clock before. -/
theorem overdue_iff {start : ℕ} {past : List Seen} {w : Watch} (h : Tracks start past w) {s : Seen}
    (hd : s.magic ≠ magicDisarm) (ha : s.magic ≠ magicArmed) :
    w.overdue s = true ↔ MustFire start (s :: past) := by
  have hl := lastBeat_cons_of_boot start past ha hd
  have ht : lastStandDown start (s :: past) = lastStandDown start past := by
    rw [lastStandDown, if_neg hd]
  simp only [MustFire, hl, ht, ha, hd, ne_eq, not_false_eq_true, true_and, false_and, false_or]
  rw [← h.t0, ← h.lastChange]
  cases he : w.armedEver with
  | true =>
    have hex : ∃ r ∈ past, r.magic = magicArmed := h.armedEver.mp he
    simp only [overdue, he, if_true, decide_eq_true_eq]
    constructor
    · intro hlt
      exact Or.inr ⟨hex, hlt⟩
    · rintro (⟨hnone, -⟩ | ⟨-, hlt⟩)
      · obtain ⟨r, hr, hra⟩ := hex
        exact absurd hra (hnone r (List.mem_cons_of_mem _ hr))
      · exact hlt
  | false =>
    have hnone : ¬ ∃ r ∈ past, r.magic = magicArmed := by
      rw [← h.armedEver, he]
      decide
    simp only [overdue, he, Bool.false_eq_true, if_false, decide_eq_true_eq]
    constructor
    · intro hlt
      refine Or.inl ⟨fun r hr hra => ?_, hlt⟩
      rcases List.mem_cons.mp hr with rfl | hr
      · exact ha hra
      · exact hnone ⟨r, hr, hra⟩
    · rintro (⟨-, hlt⟩ | ⟨hex, -⟩)
      · exact hlt
      · exact absurd hex hnone

/-- A watch that tracks its history fires exactly by the law. -/
theorem fired_step_iff {start : ℕ} {past : List Seen} {w : Watch} (hf : w.fired = false)
    (h : Tracks start past w) (s : Seen) :
    (w.step s).fired = true ↔ MustFire start (s :: past) := by
  have hnext := tracks_step hf h s
  by_cases hd : s.magic = magicDisarm
  · have ha : s.magic ≠ magicArmed := fun e => magicArmed_ne_magicDisarm (e.symm.trans hd)
    rw [step_disarm hf hd]
    simp [hf, MustFire, hd]
  by_cases ha : s.magic = magicArmed
  · rw [step_armed hf ha] at hnext ⊢
    have hfired : (w.armed s).fired = decide (s.now - (w.armed s).lastChange > heartbeatTimeoutS) :=
      rfl
    rw [hfired, hnext.lastChange]
    simp [MustFire, ha]
  · rw [step_boot hf hd ha]
    exact overdue_iff h hd ha

theorem run_of_fired {w : Watch} (h : w.fired = true) (ss : List Seen) : run step w ss = w := by
  induction ss with
  | nil => rfl
  | cons s ss ih => rw [run_cons, step_of_fired s h, ih]

end Watch

/-! ## The firing law -/

/-- The core that was brought up on `bus` at `start`, after some events. -/
def coreAfter (bus : B) (base : UInt64) (start : ℕ) (es : List Event) : HpmcuSim B :=
  run HpmcuSim.step (HpmcuSim.new bus base start) es

/-- What the ticks of a run see, from the words `bus` holds at the start. -/
def ticksOf (bus : B) (base : UInt64) (es : List Event) : List Seen :=
  observe (MemBus.peek32 bus (base + offMagic)) (MemBus.peek32 bus (base + offCounter)) es

/-- The tick at `now` that follows `es` is the one at which the core fires. -/
def FiresAt (bus : B) (base : UInt64) (start : ℕ) (es : List Event) (now : ℕ) : Prop :=
  (coreAfter bus base start es).fired = false ∧
    ((coreAfter bus base start es).tick now).fired = true

/-- No tick of the run fires. -/
def NeverFires (bus : B) (base : UInt64) (start : ℕ) (es : List Event) : Prop :=
  ∀ es₁ now es₂, es = es₁ ++ .tick now :: es₂ → ¬ FiresAt bus base start es₁ now

theorem coreAfter_tick (bus : B) (base : UInt64) (start : ℕ) (es : List Event) (now : ℕ) :
    coreAfter bus base start (es ++ [.tick now]) = (coreAfter bus base start es).tick now :=
  run_concat _ _ _ _

theorem watch_coreAfter (bus : B) (base : UInt64) (start : ℕ) (es : List Event) :
    (coreAfter bus base start es).watch =
      run Watch.step (Watch.start start) (ticksOf bus base es) := by
  rw [coreAfter, HpmcuSim.watch_run, HpmcuSim.read_new _ _ _ (by decide) (by decide),
    HpmcuSim.read_new _ _ _ (by decide) (by decide)]
  rfl

theorem fired_coreAfter (bus : B) (base : UInt64) (start : ℕ) (es : List Event) :
    (coreAfter bus base start es).fired =
      (run Watch.step (Watch.start start) (ticksOf bus base es)).fired := by
  rw [← watch_coreAfter]
  rfl

theorem observe_append (magic counter : UInt32) (es es' : List Event) :
    ∃ m c, observe magic counter (es ++ es') = observe magic counter es ++ observe m c es' := by
  induction es generalizing magic counter with
  | nil => exact ⟨magic, counter, rfl⟩
  | cons e es ih =>
    cases e with
    | pokeMagic v => exact ih v counter
    | pokeCounter v => exact ih magic v
    | tick now =>
      obtain ⟨m, c, h⟩ := ih magic counter
      exact ⟨m, c, congrArg (_ :: ·) h⟩

/-- A core has fired exactly when one of its ticks did. -/
theorem neverFires_iff (bus : B) (base : UInt64) (start : ℕ) (es : List Event) :
    NeverFires bus base start es ↔ (coreAfter bus base start es).fired = false := by
  induction es using List.reverseRecOn with
  | nil =>
    constructor
    · intro _
      rfl
    · intro _ es₁ now es₂ h
      exact absurd h (by simp)
  | append_singleton es e ih =>
    have hstep : coreAfter bus base start (es ++ [e]) = (coreAfter bus base start es).step e :=
      run_concat _ _ _ _
    constructor
    · intro h
      have hes : (coreAfter bus base start es).fired = false := by
        refine ih.mp fun es₁ now es₂ he => h es₁ now (es₂ ++ [e]) ?_
        rw [he, List.append_assoc, List.cons_append]
      rw [hstep]
      cases e with
      | pokeMagic v => exact hes
      | pokeCounter v => exact hes
      | tick now =>
        have hn := h es now [] rfl
        exact Bool.eq_false_of_not_eq_true fun hf => hn ⟨hes, hf⟩
    · intro h es₁ now es₂ he hfires
      -- firing is final, so a tick that fired inside `es` would still show at the end
      have hfire : (coreAfter bus base start (es₁ ++ [.tick now])).fired = true := by
        rw [coreAfter_tick]
        exact hfires.2
      have hsplit : es ++ [e] = (es₁ ++ [.tick now]) ++ es₂ := by
        rw [he, List.append_assoc]
        rfl
      rw [hsplit, fired_coreAfter, ticksOf] at h
      obtain ⟨m, c, hobs⟩ := observe_append (MemBus.peek32 bus (base + offMagic))
        (MemBus.peek32 bus (base + offCounter)) (es₁ ++ [.tick now]) es₂
      rw [fired_coreAfter, ticksOf] at hfire
      rw [hobs, run_append, Watch.run_of_fired hfire, hfire] at h
      exact absurd h (by decide)

/-- **The exact firing law.**  A tick fires if and only if no earlier tick did
and the law asks for it, whatever Linux poked and whenever the ticks came. -/
theorem firesAt_iff (bus : B) (base : UInt64) (start : ℕ) (es : List Event) (now : ℕ) :
    FiresAt bus base start es now ↔
      NeverFires bus base start es ∧
        MustFire start (ticksOf bus base (es ++ [.tick now])).reverse := by
  obtain ⟨m, c, hobs⟩ := observe_append (MemBus.peek32 bus (base + offMagic))
    (MemBus.peek32 bus (base + offCounter)) es [.tick now]
  have hticks : ticksOf bus base (es ++ [.tick now]) = ticksOf bus base es ++ [⟨now, m, c⟩] := hobs
  have hfired : ((coreAfter bus base start es).tick now).fired =
      ((run Watch.step (Watch.start start) (ticksOf bus base es)).step ⟨now, m, c⟩).fired := by
    rw [← coreAfter_tick, fired_coreAfter, hticks, run_concat]
  rw [neverFires_iff, FiresAt, hfired, hticks, List.reverse_append]
  constructor
  · rintro ⟨hf, hs⟩
    have hw := hf
    rw [fired_coreAfter] at hw
    exact ⟨hf, (Watch.fired_step_iff hw (Watch.tracks_run start _ hw) _).mp hs⟩
  · rintro ⟨hf, hs⟩
    have hw := hf
    rw [fired_coreAfter] at hw
    exact ⟨hf, (Watch.fired_step_iff hw (Watch.tracks_run start _ hw) _).mpr hs⟩

/-! ## A healthy boot -/

/-- Every tick of the list comes at most `limit` after the latest heartbeat
before it, when the last heartbeat so far came at `beat` and the last counter
seen was `c`.  A tick with a new counter is a heartbeat. -/
def BeatsWithin (limit : ℕ) : ℕ → UInt32 → List Seen → Prop
  | _, _, [] => True
  | beat, c, s :: rest =>
      s.now ≤ beat + limit ∧
        BeatsWithin limit (if s.counter ≠ c then s.now else beat) s.counter rest

/-- The ticks of a healthy boot: Linux comes up within the boot grace, arms the
watchdog with the tick `arm`, never disarms it, and keeps beating. -/
structure HealthyBoot (start : ℕ) (boot : List Seen) (arm : Seen) (live : List Seen) : Prop where
  mono : (boot ++ arm :: live).Pairwise fun s s' => s.now ≤ s'.now
  boot_magic : ∀ s ∈ boot, s.magic ≠ magicArmed ∧ s.magic ≠ magicDisarm
  arm_magic : arm.magic = magicArmed
  arm_in_grace : arm.now ≤ start + bootGraceS
  live_magic : ∀ s ∈ live, s.magic = magicArmed
  beats : BeatsWithin heartbeatTimeoutS arm.now arm.counter live

namespace Watch

/-- Polling in the boot grace changes nothing. -/
theorem run_boot (start : ℕ) (boot : List Seen)
    (hmagic : ∀ s ∈ boot, s.magic ≠ magicArmed ∧ s.magic ≠ magicDisarm)
    (hnow : ∀ s ∈ boot, s.now ≤ start + bootGraceS) :
    run step (Watch.start start) boot = Watch.start start := by
  induction boot with
  | nil => rfl
  | cons s boot ih =>
    obtain ⟨ha, hd⟩ := hmagic s List.mem_cons_self
    have hs := hnow s List.mem_cons_self
    have hstep : (Watch.start start).step s = Watch.start start := by
      rw [step_boot rfl hd ha]
      have hgrace : ¬ s.now - start > bootGraceS := by omega
      simp [Watch.start, overdue, hgrace]
    rw [run_cons, hstep]
    exact ih (fun r hr => hmagic r (List.mem_cons_of_mem _ hr))
      fun r hr => hnow r (List.mem_cons_of_mem _ hr)

/-- A watch whose clock stands at the latest heartbeat never fires while the
beats keep coming. -/
theorem run_live {w : Watch} {live : List Seen} (hf : w.fired = false)
    (hmagic : ∀ s ∈ live, s.magic = magicArmed)
    (hbeats : BeatsWithin heartbeatTimeoutS w.lastChange w.lastSeen live) :
    (run step w live).fired = false := by
  induction live generalizing w with
  | nil => exact hf
  | cons s live ih =>
    obtain ⟨hnow, hrest⟩ := hbeats
    rw [run_cons, step_armed hf (hmagic s List.mem_cons_self)]
    refine ih ?_ (fun r hr => hmagic r (List.mem_cons_of_mem _ hr)) hrest
    simp only [armed, decide_eq_false_iff_not]
    split <;> omega

/-- A watch that was armed with the counter it started from keeps the start as
its clock until the counter first changes. -/
theorem run_live_of_zero {start t0 beat : ℕ} {live : List Seen}
    (hmagic : ∀ s ∈ live, s.magic = magicArmed)
    (hbeats : BeatsWithin heartbeatTimeoutS beat 0 live) :
    (run step ⟨t0, start, 0, true, false⟩ live).fired = false ↔
      ∀ s ∈ live.takeWhile (fun s => s.counter == 0), s.now ≤ start + heartbeatTimeoutS := by
  induction live generalizing beat with
  | nil => simp
  | cons s live ih =>
    obtain ⟨-, hrest⟩ := hbeats
    have hrest_magic : ∀ r ∈ live, r.magic = magicArmed :=
      fun r hr => hmagic r (List.mem_cons_of_mem _ hr)
    rw [run_cons, step_armed rfl (hmagic s List.mem_cons_self)]
    by_cases hc : s.counter = 0
    · rw [hc] at hrest
      by_cases ht : s.now - start > heartbeatTimeoutS
      · have hfired : ((⟨t0, start, 0, true, false⟩ : Watch).armed s).fired = true := by
          simp [armed, hc, ht]
        rw [run_of_fired hfired, hfired]
        simp only [hc, List.takeWhile_cons, beq_self_eq_true, if_true, List.mem_cons,
          forall_eq_or_imp, Bool.true_eq_false, false_iff, not_and]
        intro hle
        omega
      · have hnext : (⟨t0, start, 0, true, false⟩ : Watch).armed s = ⟨t0, start, 0, true, false⟩ := by
          simp [armed, hc, ht]
        rw [hnext, ih hrest_magic hrest]
        simp only [hc, List.takeWhile_cons, beq_self_eq_true, if_true, List.mem_cons,
          forall_eq_or_imp, iff_and_self]
        intro _
        omega
    · have hnext : (⟨t0, start, 0, true, false⟩ : Watch).armed s =
          ⟨t0, s.now, s.counter, true, false⟩ := by
        simp [armed, hc]
      rw [if_pos hc] at hrest
      rw [hnext]
      have hlive := run_live (w := ⟨t0, s.now, s.counter, true, false⟩) rfl hrest_magic hrest
      simp [hlive, hc]

end Watch

/-- **A healthy boot, exactly.**  The watchdog stays quiet on a healthy boot if
and only if no tick after the first 90 seconds still sees the counter at the
value 0 it was armed with. -/
theorem healthyBoot_neverFires_iff (bus : B) (base : UInt64) (start : ℕ) (es : List Event)
    {boot : List Seen} {arm : Seen} {live : List Seen}
    (hticks : ticksOf bus base es = boot ++ arm :: live)
    (h : HealthyBoot start boot arm live) :
    NeverFires bus base start es ↔
      ∀ s ∈ (arm :: live).takeWhile (fun s => s.counter == 0),
        s.now ≤ start + heartbeatTimeoutS := by
  have hboot : ∀ s ∈ boot, s.now ≤ start + bootGraceS := fun s hs =>
    le_trans ((List.pairwise_append.mp h.mono).2.2 s hs arm List.mem_cons_self) h.arm_in_grace
  rw [neverFires_iff, fired_coreAfter, hticks, run_append,
    Watch.run_boot start boot h.boot_magic hboot]
  by_cases hc : arm.counter = 0
  · have hbeats : BeatsWithin heartbeatTimeoutS arm.now 0 (arm :: live) := by
      refine ⟨Nat.le_add_right _ _, ?_⟩
      simpa [hc] using h.beats
    have hlive : ∀ s ∈ arm :: live, s.magic = magicArmed := by
      intro s hs
      rcases List.mem_cons.mp hs with rfl | hs
      · exact h.arm_magic
      · exact h.live_magic s hs
    -- the flag `armedEver` is the only difference to the watch the lemma speaks of
    have hflag : (Watch.start start).step arm =
        (⟨start, start, 0, true, false⟩ : Watch).step arm := by
      rw [Watch.step_armed rfl h.arm_magic, Watch.step_armed rfl h.arm_magic]
      rfl
    rw [run_cons, hflag, ← run_cons, Watch.run_live_of_zero hlive hbeats]
  · have harm : (Watch.start start).step arm = ⟨start, arm.now, arm.counter, true, false⟩ := by
      rw [Watch.step_armed rfl h.arm_magic]
      simp [Watch.armed, Watch.start, hc]
    have hlive := Watch.run_live (w := ⟨start, arm.now, arm.counter, true, false⟩) rfl
      h.live_magic h.beats
    rw [run_cons, harm]
    simp [hlive, hc]

/-- A boot at 0 whose watchdog is armed 100 s later with the counter at 7. -/
theorem healthyBoot_of_seven :
    HealthyBoot 0 [⟨0, 0, 0⟩] ⟨100, magicArmed, 7⟩ [⟨180, magicArmed, 8⟩] ∧
      NeverFires SimBus.new mbBase 0
        [.tick 0, .pokeCounter 7, .pokeMagic magicArmed, .tick 100, .pokeCounter 8, .tick 180] := by
  have h : HealthyBoot 0 [⟨0, 0, 0⟩] ⟨100, magicArmed, 7⟩ [⟨180, magicArmed, 8⟩] := by
    refine ⟨by decide, by decide, rfl, by decide, by decide, ?_⟩
    exact ⟨by decide, trivial⟩
  exact ⟨h, (healthyBoot_neverFires_iff SimBus.new mbBase 0 _ rfl h).mpr (by decide)⟩

/-- A healthy boot that fires: Linux arms the watchdog 100 s after the start,
well within the boot grace, with the counter still 0. -/
theorem healthyBoot_fires_of_zero :
    ∃ (es : List Event) (boot : List Seen) (arm : Seen) (live : List Seen),
      ticksOf SimBus.new mbBase es = boot ++ arm :: live ∧ HealthyBoot 0 boot arm live ∧
        MemBus.peek32 SimBus.new (mbBase + offMagic) ≠ magicArmed ∧
        ¬ NeverFires SimBus.new mbBase 0 es := by
  refine ⟨[.tick 0, .pokeMagic magicArmed, .tick 100], [⟨0, 0, 0⟩], ⟨100, magicArmed, 0⟩, [],
    rfl, ⟨by decide, by decide, rfl, by decide, by decide, trivial⟩, by decide, ?_⟩
  rw [neverFires_iff, fired_coreAfter]
  decide

/-! ## A re-created core -/

/-- The run of a core on which Linux writes nothing more. -/
def ticksAt (times : List ℕ) : List Event := times.map Event.tick

theorem ticksOf_ticksAt (bus : B) (base : UInt64) (times : List ℕ) :
    ticksOf bus base (ticksAt times) = times.map fun now =>
      ⟨now, MemBus.peek32 bus (base + offMagic), MemBus.peek32 bus (base + offCounter)⟩ := by
  induction times with
  | nil => rfl
  | cons now times ih => exact congrArg (_ :: ·) ih

/-- No sequence of ticks within the boot grace of a core brought up at `t` on
`bus` fires. -/
def FreshGrace (bus : B) (base : UInt64) (t : ℕ) : Prop :=
  ∀ times : List ℕ, times.Pairwise (· ≤ ·) → (∀ now ∈ times, t ≤ now ∧ now ≤ t + bootGraceS) →
    NeverFires bus base t (ticksAt times)

namespace Watch

theorem run_disarmed {w : Watch} (hf : w.fired = false) {ss : List Seen}
    (hmagic : ∀ s ∈ ss, s.magic = magicDisarm) : (run step w ss).fired = false := by
  induction ss generalizing w with
  | nil => exact hf
  | cons s ss ih =>
    rw [run_cons, step_disarm hf (hmagic s List.mem_cons_self)]
    exact ih hf fun r hr => hmagic r (List.mem_cons_of_mem _ hr)

end Watch

/-- **A re-created core gets a fresh boot grace exactly when the magic word left
on the bus is not `MAGIC_ARMED`.**  With `MAGIC_ARMED` left behind the heartbeat
clock runs from the first tick on, and two ticks 91 s apart fire. -/
theorem fresh_grace_iff (bus : B) (base : UInt64) (t : ℕ) :
    FreshGrace bus base t ↔ MemBus.peek32 bus (base + offMagic) ≠ magicArmed := by
  constructor
  · intro h ha
    generalize hcounter : MemBus.peek32 bus (base + offCounter) = c
    have hfirst : (Watch.start t).step ⟨t, magicArmed, c⟩ = ⟨t, t, c, true, false⟩ := by
      rw [Watch.step_armed rfl rfl]
      by_cases hc : c = 0
      · simp [Watch.armed, Watch.start, hc]
      · simp [Watch.armed, Watch.start, hc]
    have hsecond : ((⟨t, t, c, true, false⟩ : Watch).step ⟨t + 91, magicArmed, c⟩).fired = true := by
      rw [Watch.step_armed rfl rfl]
      simp [Watch.armed, heartbeatTimeoutS]
    have hnever := h [t, t + 91] (by simp) (by simp [bootGraceS])
    rw [neverFires_iff, fired_coreAfter, ticksOf_ticksAt, List.map_cons, List.map_cons,
      List.map_nil, run_cons, run_cons, run_nil, ha, hcounter, hfirst, hsecond] at hnever
    exact absurd hnever (by decide)
  · intro ha times _ hrange
    rw [neverFires_iff, fired_coreAfter, ticksOf_ticksAt]
    by_cases hd : MemBus.peek32 bus (base + offMagic) = magicDisarm
    · refine Watch.run_disarmed rfl fun s hs => ?_
      obtain ⟨now, -, rfl⟩ := List.mem_map.mp hs
      exact hd
    · rw [Watch.run_boot t]
      · rfl
      · intro s hs
        obtain ⟨now, -, rfl⟩ := List.mem_map.mp hs
        exact ⟨ha, hd⟩
      · intro s hs
        obtain ⟨now, hnow, rfl⟩ := List.mem_map.mp hs
        exact (hrange now hnow).2

/-- The first core is armed and fires; the core re-created on the bus it leaves
behind does not get its boot grace. -/
theorem recreated_core_fires :
    ∃ (es : List Event) (t : ℕ), (coreAfter SimBus.new mbBase 0 es).fired = true ∧
      ¬ FreshGrace (coreAfter SimBus.new mbBase 0 es).bus mbBase t := by
  refine ⟨[.pokeCounter 1, .pokeMagic magicArmed, .tick 0, .tick 91], 100, ?_, ?_⟩
  · rw [fired_coreAfter]
    decide
  · intro h
    have hnever := h [100, 191] (by decide) (by decide)
    rw [neverFires_iff, fired_coreAfter] at hnever
    revert hnever
    decide

end Sim
end WardenSdk
