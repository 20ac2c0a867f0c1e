import WardenSdk.Lib.Run
import WardenSdk.Sim.MemBus

/-!
# The HPMCU watchdog

`sim/src/hpmcu.rs`: the coprocessor that resets the board when Linux stops
beating.  Linux owns two mailbox words, a magic and a heartbeat counter; the
firmware polls them, keeps its own three words, and fires on two deadlines.

`HpmcuSim` is the source's struct field by field and `HpmcuSim.tick` its poll
loop statement by statement.  Two things are added for the proofs.

* `Event` is what can happen to the shared mailbox: a poke of one of the two
  words Linux owns, or a tick of the core.  `observe` lists what the ticks of a
  run see, from the pokes alone.
* `Watch` is the part of the core that decides: the four clock fields and the
  fired flag, without the bus.  `HpmcuSim.watch_tick` says that a tick of the
  core is a step of the watch on what the tick saw, so the deadlines can be
  studied with no bus in sight.

Seconds are natural numbers: the source's `u64` times are compared only after a
saturating subtraction, which is the subtraction of `ℕ`.
-/

namespace WardenSdk
namespace Sim

/-! ## The mailbox -/

def mbBase : UInt64 := 0xff6fff00
def offMagic : UInt64 := 0x00
def offCounter : UInt64 := 0x04
def offState : UInt64 := 0x08
def offSeen : UInt64 := 0x0c
def offCyc : UInt64 := 0x10

/-- "WARD": Linux has armed the watchdog. -/
def magicArmed : UInt32 := 0x57415244
/-- "DISA": Linux asks the watchdog to stand down. -/
def magicDisarm : UInt32 := 0x44495341

def stateBoot : UInt32 := 0xB0070000
def stateArmed : UInt32 := 0xA07D0000
def stateDisarmed : UInt32 := 0xD15A0000
def stateFired : UInt32 := 0xF17E0000

def heartbeatTimeoutS : ℕ := 90
def bootGraceS : ℕ := 300

@[simp] theorem magicArmed_ne_magicDisarm : magicArmed ≠ magicDisarm := by decide

@[simp] theorem magicDisarm_ne_magicArmed : magicDisarm ≠ magicArmed := by decide

/-- The simulated MCU core running the watchdog firmware against `bus`. -/
structure HpmcuSim (B : Type) where
  bus : B
  base : UInt64
  t0 : ℕ
  lastChange : ℕ
  lastSeen : UInt32
  polls : UInt32
  armedEver : Bool
  fired : Bool
  fireCount : ℕ

/-- What one tick saw of the mailbox, and when. -/
structure Seen where
  now : ℕ
  magic : UInt32
  counter : UInt32
  deriving DecidableEq

/-- What can happen to the mailbox: Linux pokes one of its two words, or the
core runs one iteration of its loop. -/
inductive Event where
  | pokeMagic (v : UInt32)
  | pokeCounter (v : UInt32)
  | tick (now : ℕ)
  deriving DecidableEq

variable {B : Type} [MemBus B]

namespace HpmcuSim

/-- The mailbox word at an offset. -/
def read (m : HpmcuSim B) (off : UInt64) : UInt32 := MemBus.peek32 m.bus (m.base + off)

/-- Poke the mailbox word at an offset. -/
def write (m : HpmcuSim B) (off : UInt64) (v : UInt32) : HpmcuSim B :=
  { m with bus := MemBus.poke32 m.bus (m.base + off) v }

/-- Bring the MCU up: state BOOT, nothing seen, the boot-grace clock starts. -/
def new (bus : B) (base : UInt64) (startNow : ℕ) : HpmcuSim B :=
  let bus := MemBus.poke32 bus (base + offState) stateBoot
  let bus := MemBus.poke32 bus (base + offSeen) 0
  { bus, base, t0 := startNow, lastChange := startNow, lastSeen := 0, polls := 0,
    armedEver := false, fired := false, fireCount := 0 }

/-- The sentinel half of the MCU state word. -/
def state (m : HpmcuSim B) : UInt32 := m.read offState &&& 0xffff0000

def fire (m : HpmcuSim B) : HpmcuSim B :=
  { m.write offState stateFired with fired := true, fireCount := m.fireCount + 1 }

/-- The prologue of an iteration: count the poll and publish the coarse runtime. -/
def poll (m : HpmcuSim B) (now : ℕ) : HpmcuSim B :=
  ({ m with polls := m.polls + 1 } : HpmcuSim B).write offCyc (UInt32.ofNat now)

/-- The low half of the state word: the poll count. -/
def pollLo (m : HpmcuSim B) : UInt32 := m.polls &&& 0xffff

/-- The `MAGIC_DISARM` branch, a deliberate stand-down: both clocks restart. -/
def tickDisarm (m : HpmcuSim B) (now : ℕ) : HpmcuSim B :=
  { m.write offState (stateDisarmed ||| m.pollLo) with t0 := now, lastChange := now }

/-- The `MAGIC_ARMED` branch: a changed counter is a heartbeat. -/
def tickArmed (m : HpmcuSim B) (now : ℕ) (counter : UInt32) : HpmcuSim B :=
  let m := { m with armedEver := true }
  let m :=
    if counter ≠ m.lastSeen then
      { ({ m with lastSeen := counter } : HpmcuSim B).write offSeen counter with lastChange := now }
    else m
  let m := m.write offState (stateArmed ||| m.pollLo)
  if now - m.lastChange > heartbeatTimeoutS then m.fire else m

/-- The remaining branch, not (yet) armed: boot grace before the first arming,
heartbeat timeout after it. -/
def tickBoot (m : HpmcuSim B) (now : ℕ) : HpmcuSim B :=
  let m := m.write offState (stateBoot ||| m.pollLo)
  let m := if !m.armedEver && now - m.t0 > bootGraceS then m.fire else m
  if m.armedEver && now - m.lastChange > heartbeatTimeoutS then m.fire else m

/-- One iteration of the firmware poll loop.  Once fired, the real core spins,
so further ticks change nothing. -/
def tick (m : HpmcuSim B) (now : ℕ) : HpmcuSim B :=
  if m.fired then m
  else
    let m := m.poll now
    let magic := m.read offMagic
    let counter := m.read offCounter
    if magic = magicDisarm then m.tickDisarm now
    else if magic = magicArmed then m.tickArmed now counter
    else m.tickBoot now

/-- The effect of one event on the core and the store it shares with Linux. -/
def step (m : HpmcuSim B) : Event → HpmcuSim B
  | .pokeMagic v => m.write offMagic v
  | .pokeCounter v => m.write offCounter v
  | .tick now => m.tick now

/-! ### Reading over writing -/

@[simp] theorem read_write_self (m : HpmcuSim B) (off : UInt64) (v : UInt32) :
    (m.write off v).read off = v := by
  simp [read, write]

theorem read_write_of_ne (m : HpmcuSim B) {off off' : UInt64} (v : UInt32) (h : off ≠ off') :
    (m.write off' v).read off = m.read off := by
  have hne : m.base + off ≠ m.base + off' := fun e => h (add_left_cancel e)
  exact MemBus.peek32_poke32_of_ne m.bus v hne

end HpmcuSim

/-! ## What the ticks of a run see -/

/-- The ticks of a run, oldest first, with what each of them sees when the two
words Linux owns start as `magic` and `counter`. -/
def observe : UInt32 → UInt32 → List Event → List Seen
  | _, _, [] => []
  | _, counter, .pokeMagic v :: es => observe v counter es
  | magic, _, .pokeCounter v :: es => observe magic v es
  | magic, counter, .tick now :: es => ⟨now, magic, counter⟩ :: observe magic counter es

/-! ## The watch -/

/-- The deciding part of the core: two clocks, the last counter, and two flags. -/
structure Watch where
  t0 : ℕ
  lastChange : ℕ
  lastSeen : UInt32
  armedEver : Bool
  fired : Bool
  deriving DecidableEq

namespace Watch

/-- The watch of a core that has just been brought up. -/
def start (startNow : ℕ) : Watch := ⟨startNow, startNow, 0, false, false⟩

/-- The watch after a tick that saw `MAGIC_ARMED`. -/
def armed (w : Watch) (s : Seen) : Watch :=
  let lastChange := if s.counter ≠ w.lastSeen then s.now else w.lastChange
  ⟨w.t0, lastChange, s.counter, true, decide (s.now - lastChange > heartbeatTimeoutS)⟩

/-- Whether a tick that saw neither magic fires. -/
def overdue (w : Watch) (s : Seen) : Bool :=
  if w.armedEver then decide (s.now - w.lastChange > heartbeatTimeoutS)
  else decide (s.now - w.t0 > bootGraceS)

/-- What a tick that saw `s` does to the watch. -/
def step (w : Watch) (s : Seen) : Watch :=
  if w.fired then w
  else if s.magic = magicDisarm then { w with t0 := s.now, lastChange := s.now }
  else if s.magic = magicArmed then w.armed s
  else { w with fired := w.overdue s }

theorem step_of_fired {w : Watch} (s : Seen) (h : w.fired = true) : w.step s = w := by
  rw [step, if_pos h]

theorem step_disarm {w : Watch} {s : Seen} (hf : w.fired = false)
    (hd : s.magic = magicDisarm) : w.step s = { w with t0 := s.now, lastChange := s.now } := by
  rw [step, if_neg (by simp [hf]), if_pos hd]

theorem step_armed {w : Watch} {s : Seen} (hf : w.fired = false)
    (ha : s.magic = magicArmed) : w.step s = w.armed s := by
  have hd : s.magic ≠ magicDisarm := fun h => magicArmed_ne_magicDisarm (ha.symm.trans h)
  rw [step, if_neg (by simp [hf]), if_neg hd, if_pos ha]

theorem step_boot {w : Watch} {s : Seen} (hf : w.fired = false)
    (hd : s.magic ≠ magicDisarm) (ha : s.magic ≠ magicArmed) :
    w.step s = { w with fired := w.overdue s } := by
  rw [step, if_neg (by simp [hf]), if_neg hd, if_neg ha]

end Watch

namespace HpmcuSim

/-- The deciding part of a core. -/
def watch (m : HpmcuSim B) : Watch := ⟨m.t0, m.lastChange, m.lastSeen, m.armedEver, m.fired⟩

/-- What a tick at `now` would see. -/
def sees (m : HpmcuSim B) (now : ℕ) : Seen := ⟨now, m.read offMagic, m.read offCounter⟩

@[simp] theorem watch_write (m : HpmcuSim B) (off : UInt64) (v : UInt32) :
    (m.write off v).watch = m.watch := rfl

@[simp] theorem watch_poll (m : HpmcuSim B) (now : ℕ) : (m.poll now).watch = m.watch := rfl

theorem read_poll (m : HpmcuSim B) (now : ℕ) (off : UInt64) (h : off ≠ offCyc) :
    (m.poll now).read off = m.read off :=
  read_write_of_ne ({ m with polls := m.polls + 1 } : HpmcuSim B) _ h

theorem watch_tickArmed (m : HpmcuSim B) (hf : m.fired = false) (now : ℕ)
    (magic counter : UInt32) :
    (m.tickArmed now counter).watch = m.watch.armed ⟨now, magic, counter⟩ := by
  by_cases hc : counter = m.lastSeen
  · by_cases ht : now - m.lastChange > heartbeatTimeoutS
    · simp [tickArmed, Watch.armed, hc, ht, watch, write, fire]
    · simp [tickArmed, Watch.armed, hc, ht, watch, write, hf]
  · simp [tickArmed, Watch.armed, hc, watch, write, hf]

theorem watch_tickBoot (m : HpmcuSim B) (hf : m.fired = false) (now : ℕ)
    (magic counter : UInt32) :
    (m.tickBoot now).watch =
      { m.watch with fired := m.watch.overdue ⟨now, magic, counter⟩ } := by
  cases he : m.armedEver with
  | false =>
    by_cases ht : now - m.t0 > bootGraceS
    · simp [tickBoot, Watch.overdue, ht, watch, write, fire, he]
    · simp [tickBoot, Watch.overdue, ht, watch, write, he, hf]
  | true =>
    by_cases ht : now - m.lastChange > heartbeatTimeoutS
    · simp [tickBoot, Watch.overdue, ht, watch, write, fire, he]
    · simp [tickBoot, Watch.overdue, ht, watch, write, he, hf]

/-- **A tick of the core is a step of the watch on what the tick saw.** -/
theorem watch_tick (m : HpmcuSim B) (now : ℕ) :
    (m.tick now).watch = m.watch.step (m.sees now) := by
  cases hf : m.fired with
  | true => simp [tick, Watch.step, hf, watch]
  | false =>
    have hpoll : (m.poll now).fired = false := hf
    have hw : m.watch.fired = false := hf
    have hmagic := m.read_poll now offMagic (by decide)
    have hcounter := m.read_poll now offCounter (by decide)
    simp only [tick, hf, hmagic, hcounter, Bool.false_eq_true, if_false]
    by_cases hd : m.read offMagic = magicDisarm
    · rw [if_pos hd, Watch.step_disarm hw (s := m.sees now) hd]
      rfl
    · rw [if_neg hd]
      by_cases ha : m.read offMagic = magicArmed
      · rw [if_pos ha, Watch.step_armed hw (s := m.sees now) ha]
        exact watch_tickArmed _ hpoll now _ _
      · rw [if_neg ha, Watch.step_boot hw (s := m.sees now) hd ha]
        exact watch_tickBoot _ hpoll now _ _

end HpmcuSim
end Sim
end WardenSdk
