import Mathlib.Algebra.Group.Nat.Defs
import WardenSdk.Lib.Run
import WardenSdk.Sim.MemBus

/-!
# The CRU reset ladder

`sim/src/cru.rs`: the board has no working `reboot`, so software resets it by
poking registers and a model of the clock-and-reset unit is polled to see which
rung fired.  Rung 1 is a magic word at the global-reset register, rung 2 the
DesignWare watchdog; the boot-mode register says where the reset lands.

`CruSim` is the source's struct field by field, `CruSim.poll` its method branch
by branch.  `CruEvent` is what can happen to the shared bus: a poke at any
address by software, a poll, a power-on reset.  `Recorded` is a core together
with the log of its run, newest entry first, in which a poll is entered with the
registers it saw and the result it returned; nothing in it feeds back into the
core.

The time of a poll and the deadline are `u64`, and `now + (1 << torr)` is the
wrapping addition of `UInt64` (a debug build stops at an overflow instead).  The
reset counter is a natural number.
-/

namespace WardenSdk
namespace Sim

/-! ## Registers -/

/-- The global-first software reset register. -/
def cruGlbSrstFst : UInt64 := 0xff3b0c08
def cruGlbSrstMagic : UInt32 := 0xfdb9
/-- The offset other SoCs of the family use; here a word like any other. -/
def cruWrongOffset : UInt64 := 0xff3a0614

def dwWdtBase : UInt64 := 0xff5a0000
def dwWdtCr : UInt64 := dwWdtBase
def dwWdtTorr : UInt64 := dwWdtBase + 0x4
def dwWdtCrr : UInt64 := dwWdtBase + 0xc
def dwWdtPet : UInt32 := 0x76
def dwWdtEn : UInt32 := 0x1

def bootModeReg : UInt64 := 0xff020200
def bootNormal : UInt32 := 0x5242c300
def bootLoader : UInt32 := 0x5242c301
def bootMaskrom : UInt32 := 0xef08a53c

inductive ResetCause where
  | cru
  | watchdog
  deriving DecidableEq

inductive BootMode where
  | normal
  | loader
  | maskrom
  deriving DecidableEq

/-- Unknown and empty words boot normally. -/
def BootMode.fromReg (v : UInt32) : BootMode :=
  if v = bootLoader then .loader
  else if v = bootMaskrom then .maskrom
  else .normal

/-- The reset ladder and the boot mode over a bus. -/
structure CruSim (B : Type) where
  bus : B
  resetCount : ℕ
  lastCause : Option ResetCause
  bootMode : BootMode
  wdtDeadline : Option UInt64

/-- What can happen to the bus the ladder sits on. -/
inductive CruEvent where
  | poke (a : UInt64) (v : UInt32)
  | poll (now : UInt64)
  | powerOnReset
  deriving DecidableEq

/-- The registers a poll sees, and when. -/
structure CruSample where
  now : UInt64
  cru : UInt32
  cr : UInt32
  torr : UInt32
  crr : UInt32
  deriving DecidableEq

/-- The poll does not take the CRU rung. -/
def CruSample.WdtPoll (s : CruSample) : Prop := s.cru ≠ cruGlbSrstMagic

/-- The watchdog is enabled: CR bit 0. -/
def CruSample.Enabled (s : CruSample) : Prop := s.cr &&& dwWdtEn ≠ 0

instance (s : CruSample) : Decidable s.WdtPoll := inferInstanceAs (Decidable (_ ≠ _))

instance (s : CruSample) : Decidable s.Enabled := inferInstanceAs (Decidable (_ ≠ _))

/-- The window the timeout register selects. -/
def CruSample.window (s : CruSample) : ℕ := 2 ^ (s.torr &&& 0xf).toNat

/-- The deadline an enabled watchdog holds the time against: its own, unless it
has none or a pet asks for a new one. -/
def CruSample.deadline (s : CruSample) (running : Option UInt64) : UInt64 :=
  let fresh := s.now + 1 <<< (s.torr &&& 0xf).toUInt64
  if s.crr = dwWdtPet then fresh else running.getD fresh

/-- An entry of the log of a run. -/
inductive CruEntry where
  | poke (a : UInt64) (v : UInt32)
  | poll (s : CruSample) (result : Option ResetCause)
  | powerOnReset
  deriving DecidableEq

variable {B : Type} [MemBus B]

namespace CruSim

def peek (c : CruSim B) (a : UInt64) : UInt32 := MemBus.peek32 c.bus a

def poke (c : CruSim B) (a : UInt64) (v : UInt32) : CruSim B :=
  { c with bus := MemBus.poke32 c.bus a v }

def new (bus : B) : CruSim B :=
  { bus, resetCount := 0, lastCause := none, bootMode := .normal, wdtDeadline := none }

/-- A power-on reset clears the boot-mode register. -/
def powerOnReset (c : CruSim B) : CruSim B :=
  { c.poke bootModeReg bootNormal with bootMode := .normal, wdtDeadline := none }

/-- Start the watchdog: the timeout register selects the number of ticks. -/
def armWdt (c : CruSim B) (now : UInt64) : CruSim B :=
  let torr := c.peek dwWdtTorr &&& 0xf
  { c with wdtDeadline := some (now + 1 <<< torr.toUInt64) }

/-- A warm reset reads the preserved boot-mode register. -/
def fire (c : CruSim B) (cause : ResetCause) : CruSim B :=
  { c with
    resetCount := c.resetCount + 1
    lastCause := some cause
    bootMode := BootMode.fromReg (c.peek bootModeReg) }

/-- The timer of an enabled watchdog: a pet is consumed and rearms it, and a
stopped one is started. -/
def serveWdt (c : CruSim B) (now : UInt64) : CruSim B :=
  if c.peek dwWdtCrr = dwWdtPet then (c.poke dwWdtCrr 0).armWdt now
  else if c.wdtDeadline.isNone then c.armWdt now
  else c

/-- Advance to time `now` and apply any pending reset. -/
def poll (c : CruSim B) (now : UInt64) : CruSim B × Option ResetCause :=
  -- rung 1: only the correct register fires, and the reset consumes the request
  if c.peek cruGlbSrstFst = cruGlbSrstMagic then
    ((c.poke cruGlbSrstFst 0).fire .cru, some .cru)
  else
    -- rung 2: enabled, and the deadline passed with no pet in between
    let cr := c.peek dwWdtCr
    if cr &&& dwWdtEn ≠ 0 then
      let c := c.serveWdt now
      match c.wdtDeadline with
      | some deadline =>
        if now ≥ deadline then
          (({ c with wdtDeadline := none } : CruSim B).fire .watchdog, some .watchdog)
        else (c, none)
      | none => (c, none)
    else ({ c with wdtDeadline := none }, none)

/-- The effect of one event. -/
def step (c : CruSim B) : CruEvent → CruSim B
  | .poke a v => c.poke a v
  | .poll now => (c.poll now).1
  | .powerOnReset => c.powerOnReset

/-- The registers a poll at `now` would see. -/
def sees (c : CruSim B) (now : UInt64) : CruSample :=
  ⟨now, c.peek cruGlbSrstFst, c.peek dwWdtCr, c.peek dwWdtTorr, c.peek dwWdtCrr⟩

/-- The log entry of an event that happens now. -/
def entry (c : CruSim B) : CruEvent → CruEntry
  | .poke a v => .poke a v
  | .poll now => .poll (c.sees now) (c.poll now).2
  | .powerOnReset => .powerOnReset

end CruSim

/-- A core and the log of its run, newest entry first. -/
structure Recorded (B : Type) where
  sim : CruSim B
  log : List CruEntry

namespace Recorded

def start (bus : B) : Recorded B := ⟨CruSim.new bus, []⟩

def step (r : Recorded B) (e : CruEvent) : Recorded B :=
  ⟨r.sim.step e, r.sim.entry e :: r.log⟩

end Recorded

/-- A core on `bus` after the events, with their log. -/
def recorded (bus : B) (es : List CruEvent) : Recorded B :=
  Lib.run Recorded.step (Recorded.start bus) es

@[simp] theorem recorded_concat (bus : B) (es : List CruEvent) (e : CruEvent) :
    recorded bus (es ++ [e]) = (recorded bus es).step e :=
  Lib.run_concat _ _ es e

/-- Recording a run does not change it. -/
theorem Recorded.sim_run (r : Recorded B) (es : List CruEvent) :
    (Lib.run Recorded.step r es).sim = Lib.run CruSim.step r.sim es := by
  induction es generalizing r with
  | nil => rfl
  | cons e es ih => exact ih (r.step e)

namespace CruSim

/-! ## Words -/

@[simp] theorem peek_poke_self (c : CruSim B) (a : UInt64) (v : UInt32) :
    (c.poke a v).peek a = v :=
  MemBus.peek32_poke32_self c.bus a v

theorem peek_poke (c : CruSim B) (a b : UInt64) (v : UInt32) :
    (c.poke a v).peek b = if b = a then v else c.peek b :=
  MemBus.peek32_poke32 c.bus a v b

theorem peek_poke_of_ne (c : CruSim B) {a b : UInt64} (v : UInt32) (h : b ≠ a) :
    (c.poke a v).peek b = c.peek b :=
  MemBus.peek32_poke32_of_ne c.bus v h

theorem peek_powerOnReset (c : CruSim B) (a : UInt64) :
    c.powerOnReset.peek a = if a = bootModeReg then bootNormal else c.peek a :=
  c.peek_poke bootModeReg a bootNormal

@[simp] theorem peek_fire (c : CruSim B) (cause : ResetCause) (a : UInt64) :
    (c.fire cause).peek a = c.peek a := rfl

@[simp] theorem peek_armWdt (c : CruSim B) (now : UInt64) (a : UInt64) :
    (c.armWdt now).peek a = c.peek a := rfl

/-- Serving the watchdog consumes a pending pet and writes nothing else. -/
theorem peek_serveWdt (c : CruSim B) (now : UInt64) (a : UInt64) :
    (c.serveWdt now).peek a =
      if a = dwWdtCrr ∧ c.peek dwWdtCrr = dwWdtPet then 0 else c.peek a := by
  unfold serveWdt
  by_cases hp : c.peek dwWdtCrr = dwWdtPet
  · simp only [hp, and_true, if_true, peek_armWdt]
    exact c.peek_poke dwWdtCrr a 0
  · have hr : ¬ (a = dwWdtCrr ∧ c.peek dwWdtCrr = dwWdtPet) := fun h => hp h.2
    rw [if_neg hp, if_neg hr]
    split
    · rfl
    · rfl

theorem peek_serveWdt_of_ne (c : CruSim B) (now : UInt64) {a : UInt64} (h : a ≠ dwWdtCrr) :
    (c.serveWdt now).peek a = c.peek a := by
  rw [peek_serveWdt, if_neg (fun he => h he.1)]

/-- Serving the watchdog moves only the deadline and the bus. -/
theorem serveWdt_counters (c : CruSim B) (now : UInt64) :
    (c.serveWdt now).resetCount = c.resetCount ∧ (c.serveWdt now).lastCause = c.lastCause ∧
      (c.serveWdt now).bootMode = c.bootMode := by
  unfold serveWdt
  split
  · exact ⟨rfl, rfl, rfl⟩
  · split
    · exact ⟨rfl, rfl, rfl⟩
    · exact ⟨rfl, rfl, rfl⟩

theorem wdtDeadline_serveWdt (c : CruSim B) (now : UInt64) :
    (c.serveWdt now).wdtDeadline = some ((c.sees now).deadline c.wdtDeadline) := by
  unfold serveWdt
  by_cases hp : c.peek dwWdtCrr = dwWdtPet
  · have ht : (c.poke dwWdtCrr 0).peek dwWdtTorr = c.peek dwWdtTorr :=
      c.peek_poke_of_ne 0 (by decide)
    simp [hp, armWdt, ht, CruSample.deadline, sees]
  · cases hd : c.wdtDeadline with
    | none => simp [hp, armWdt, CruSample.deadline, sees]
    | some d => simp [hp, hd, CruSample.deadline, sees]

/-! ## What a poll does -/

theorem poll_of_cru (c : CruSim B) (now : UInt64) (h : c.peek cruGlbSrstFst = cruGlbSrstMagic) :
    c.poll now = ((c.poke cruGlbSrstFst 0).fire .cru, some .cru) := by
  rw [poll, if_pos h]

theorem poll_of_disabled (c : CruSim B) (now : UInt64) (h : (c.sees now).WdtPoll)
    (hen : ¬ (c.sees now).Enabled) : c.poll now = ({ c with wdtDeadline := none }, none) := by
  have hcru : c.peek cruGlbSrstFst ≠ cruGlbSrstMagic := h
  rw [poll, if_neg hcru]
  exact if_neg hen

/-- An enabled watchdog is served and then has a deadline to be held against. -/
theorem poll_of_enabled (c : CruSim B) (now : UInt64) (h : (c.sees now).WdtPoll)
    (hen : (c.sees now).Enabled) :
    c.poll now =
      if now ≥ (c.sees now).deadline c.wdtDeadline then
        (({ c.serveWdt now with wdtDeadline := none } : CruSim B).fire .watchdog, some .watchdog)
      else (c.serveWdt now, none) := by
  have hcru : c.peek cruGlbSrstFst ≠ cruGlbSrstMagic := h
  have hcr : c.peek dwWdtCr &&& dwWdtEn ≠ 0 := hen
  simp only [poll, if_neg hcru, if_pos hcr, wdtDeadline_serveWdt]

/-- **What a poll can do.**  It takes the CRU rung; or it finds the watchdog
disabled and stops the timer; or it serves the watchdog, and the served deadline
has passed or has not. -/
theorem poll_cases (c : CruSim B) (now : UInt64) :
    (¬ (c.sees now).WdtPoll ∧ c.poll now = ((c.poke cruGlbSrstFst 0).fire .cru, some .cru)) ∨
    ((c.sees now).WdtPoll ∧ ¬ (c.sees now).Enabled ∧
      c.poll now = ({ c with wdtDeadline := none }, none)) ∨
    ((c.sees now).WdtPoll ∧ (c.sees now).Enabled ∧
      (c.sees now).deadline c.wdtDeadline ≤ now ∧ c.poll now =
        (({ c.serveWdt now with wdtDeadline := none } : CruSim B).fire .watchdog,
          some .watchdog)) ∨
    ((c.sees now).WdtPoll ∧ (c.sees now).Enabled ∧
      ¬ (c.sees now).deadline c.wdtDeadline ≤ now ∧ c.poll now = (c.serveWdt now, none)) := by
  by_cases h : (c.sees now).WdtPoll
  · by_cases hen : (c.sees now).Enabled
    · have hp := c.poll_of_enabled now h hen
      by_cases hle : (c.sees now).deadline c.wdtDeadline ≤ now
      · exact Or.inr (Or.inr (Or.inl ⟨h, hen, hle, hp.trans (if_pos hle)⟩))
      · exact Or.inr (Or.inr (Or.inr ⟨h, hen, hle, hp.trans (if_neg hle)⟩))
    · exact Or.inr (Or.inl ⟨h, hen, c.poll_of_disabled now h hen⟩)
  · exact Or.inl ⟨h, c.poll_of_cru now (not_not.1 h)⟩

/-- The result of a poll, from what it sees and the running deadline. -/
theorem poll_result (c : CruSim B) (now : UInt64) :
    (c.poll now).2 =
      if ¬ (c.sees now).WdtPoll then some .cru
      else if (c.sees now).Enabled ∧ (c.sees now).deadline c.wdtDeadline ≤ now then some .watchdog
      else none := by
  rcases c.poll_cases now with ⟨h, hp⟩ | ⟨h, hen, hp⟩ | ⟨h, hen, hle, hp⟩ | ⟨h, hen, hle, hp⟩
  · simp [hp, h]
  · simp [hp, h, hen]
  · simp [hp, h, hen, hle]
  · simp [hp, h, hle]

/-- The deadline a poll leaves running, from what it sees and the one before. -/
theorem wdtDeadline_poll (c : CruSim B) (now : UInt64) :
    (c.poll now).1.wdtDeadline =
      if ¬ (c.sees now).WdtPoll then c.wdtDeadline
      else if (c.sees now).Enabled ∧ ¬ (c.sees now).deadline c.wdtDeadline ≤ now then
        some ((c.sees now).deadline c.wdtDeadline)
      else none := by
  rcases c.poll_cases now with ⟨h, hp⟩ | ⟨h, hen, hp⟩ | ⟨h, hen, hle, hp⟩ | ⟨h, hen, hle, hp⟩
  · simp [hp, h, fire, poke]
  · simp [hp, h, hen]
  · simp [hp, h, hle, fire]
  · simp only [hp, h, hen, hle, not_true_eq_false, not_false_eq_true, and_self, if_true, if_false]
    exact c.wdtDeadline_serveWdt now

/-- The two words a poll writes: a taken CRU request and a served pet read 0. -/
theorem peek_poll (c : CruSim B) (now : UInt64) (a : UInt64) :
    (c.poll now).1.peek a =
      if (a = cruGlbSrstFst ∧ ¬ (c.sees now).WdtPoll) ∨
          (a = dwWdtCrr ∧ (c.sees now).WdtPoll ∧ (c.sees now).Enabled ∧
            (c.sees now).crr = dwWdtPet) then 0
      else c.peek a := by
  have hserve : ∀ r, (c.sees now).WdtPoll → (c.sees now).Enabled →
      r = (c.serveWdt now).peek a → r =
        if (a = cruGlbSrstFst ∧ ¬ (c.sees now).WdtPoll) ∨
            (a = dwWdtCrr ∧ (c.sees now).WdtPoll ∧ (c.sees now).Enabled ∧
              (c.sees now).crr = dwWdtPet) then 0
        else c.peek a := by
    rintro r h hen rfl
    rw [peek_serveWdt]
    simp only [h, hen, not_true_eq_false, and_false, false_or, true_and]
    rfl
  rcases c.poll_cases now with ⟨h, hp⟩ | ⟨h, hen, hp⟩ | ⟨h, hen, -, hp⟩ | ⟨h, hen, -, hp⟩
  · rw [hp, peek_fire, peek_poke]
    simp only [h, not_false_eq_true, and_true, false_and, and_false, or_false]
  · rw [hp]
    simp only [h, hen, not_true_eq_false, and_false, false_and, or_false, if_false]
    rfl
  · exact hserve _ h hen (by rw [hp]; rfl)
  · exact hserve _ h hen (by rw [hp])

theorem peek_poll_of_ne (c : CruSim B) (now : UInt64) {a : UInt64} (hcru : a ≠ cruGlbSrstFst)
    (hcrr : a ≠ dwWdtCrr) : (c.poll now).1.peek a = c.peek a := by
  rw [peek_poll, if_neg]
  rintro (⟨h, -⟩ | ⟨h, -⟩)
  · exact hcru h
  · exact hcrr h

theorem poll_eq_cru_iff (c : CruSim B) (now : UInt64) :
    (c.poll now).2 = some .cru ↔ c.peek cruGlbSrstFst = cruGlbSrstMagic := by
  rw [poll_result]
  by_cases h : c.peek cruGlbSrstFst = cruGlbSrstMagic
  · have hw : ¬ (c.sees now).WdtPoll := not_not.2 h
    simp [h, hw]
  · have hw : (c.sees now).WdtPoll := h
    simp only [h, hw, not_true_eq_false, if_false, iff_false]
    split
    · decide
    · decide

/-- A poll counts exactly the reset it returns, and reads the boot mode then. -/
theorem poll_counters (c : CruSim B) (now : UInt64) :
    (c.poll now).1.resetCount = c.resetCount + (c.poll now).2.toList.length ∧
      (c.poll now).1.lastCause = (c.poll now).2.orElse (fun _ => c.lastCause) ∧
      (c.poll now).1.bootMode =
        if (c.poll now).2.isSome then BootMode.fromReg (c.peek bootModeReg) else c.bootMode := by
  have hserve := c.serveWdt_counters now
  have hboot : (c.serveWdt now).peek bootModeReg = c.peek bootModeReg :=
    c.peek_serveWdt_of_ne now (by decide)
  have hcru : (c.poke cruGlbSrstFst 0).peek bootModeReg = c.peek bootModeReg :=
    c.peek_poke_of_ne 0 (by decide)
  rcases c.poll_cases now with ⟨-, hp⟩ | ⟨-, -, hp⟩ | ⟨-, -, -, hp⟩ | ⟨-, -, -, hp⟩
  · rw [hp]
    exact ⟨rfl, rfl, congrArg BootMode.fromReg hcru⟩
  · rw [hp]
    exact ⟨rfl, rfl, rfl⟩
  · rw [hp]
    exact ⟨congrArg (· + 1) hserve.1, rfl, congrArg BootMode.fromReg hboot⟩
  · rw [hp]
    exact hserve

end CruSim
end Sim
end WardenSdk
