import WardenSdk.Sim.CruLaw
import WardenSdk.Sim.HpmcuMailbox

/-!
# Two devices on one store

The mailbox of the coprocessor and the registers of the reset ladder are words of one
bus, and every handle of a `SimBus` aliases the same words.  On a board the core
therefore ticks on the store that the ladder polls, and software may poke any address
of it.

`Board` is the two simulators over one store; that it is one store is a field.
`board_is_two_devices` says that this sharing does not show: as long as the five words
of the mailbox are none of the five registers of the ladder, the ladder goes through
the run it would go through alone, on the same pokes and polls, and the core through
the run it would go through alone, on its ticks and on the pokes of its two input
words.  Every law of either device is then a law of the board.

The argument is a simulation with one lemma for each event.  What a device depends on
is a view (`LadderView`, `CoreView`); an event of the other device leaves the view as it
was, and an event of its own takes equal views to equal views.
-/

namespace WardenSdk
namespace Sim

open Lib

variable {B : Type} [MemBus B]

/-! ## The board -/

/-- The words of a mailbox, those Linux owns first. -/
def mailboxWords (base : UInt64) : List UInt64 :=
  [base + offMagic, base + offCounter, base + offState, base + offSeen, base + offCyc]

/-- No word of the mailbox is a register of the ladder. -/
def Apart (base : UInt64) : Prop := ∀ a ∈ mailboxWords base, a ∉ ladderRegs

instance (base : UInt64) : Decidable (Apart base) :=
  List.decidableBAll (· ∉ ladderRegs) (mailboxWords base)

/-- A core with its mailbox at `base`, and a ladder with the log of its run, on one
store. -/
structure Board (B : Type) (base : UInt64) where
  mcu : HpmcuSim B
  cru : Recorded B
  at_base : mcu.base = base
  shared : mcu.bus = cru.sim.bus

inductive BoardEvent where
  /-- Software writes a word of the store. -/
  | poke (a : UInt64) (v : UInt32)
  | tick (now : ℕ)
  | poll (now : UInt64)
  | powerOnReset
  deriving DecidableEq

/-- The ladder on another content of its store. -/
def Recorded.onBus (r : Recorded B) (bus : B) : Recorded B := ⟨{ r.sim with bus := bus }, r.log⟩

theorem base_tick (m : HpmcuSim B) (now : ℕ) : (m.tick now).base = m.base := by
  cases hf : m.fired with
  | true => rw [HpmcuSim.tick_of_fired hf]
  | false => exact (HpmcuSim.tickEffect hf now).base

namespace Board

variable {base : UInt64}

/-- The core is brought up on the store, and the ladder beside it. -/
def new (bus : B) (base : UInt64) (startNow : ℕ) : Board B base where
  mcu := HpmcuSim.new bus base startNow
  cru := Recorded.start (HpmcuSim.new bus base startNow).bus
  at_base := rfl
  shared := rfl

/-- An event of the ladder, seen by the core as a new content of the store. -/
def cruStep (b : Board B base) (e : CruEvent) : Board B base where
  mcu := { b.mcu with bus := (b.cru.step e).sim.bus }
  cru := b.cru.step e
  at_base := b.at_base
  shared := rfl

def step (b : Board B base) : BoardEvent → Board B base
  | .poke a v => b.cruStep (.poke a v)
  | .tick now =>
    { mcu := b.mcu.tick now
      cru := b.cru.onBus (b.mcu.tick now).bus
      at_base := (base_tick b.mcu now).trans b.at_base
      shared := rfl }
  | .poll now => b.cruStep (.poll now)
  | .powerOnReset => b.cruStep .powerOnReset

end Board

/-- The board after the events. -/
def boardAfter (bus : B) (base : UInt64) (startNow : ℕ) (es : List BoardEvent) : Board B base :=
  run Board.step (Board.new bus base startNow) es

/-- What the ladder alone is run on. -/
def BoardEvent.cru? : BoardEvent → Option CruEvent
  | .poke a v => some (.poke a v)
  | .tick _ => none
  | .poll now => some (.poll now)
  | .powerOnReset => some .powerOnReset

/-- What the core alone is run on: its ticks, and the pokes of the words Linux owns. -/
def BoardEvent.core? (base : UInt64) : BoardEvent → Option Event
  | .poke a v =>
    if a = base + offMagic then some (.pokeMagic v)
    else if a = base + offCounter then some (.pokeCounter v)
    else none
  | .tick now => some (.tick now)
  | .poll _ => none
  | .powerOnReset => none

/-! ## What the ladder sees of the board -/

/-- A tick pokes words of the mailbox only. -/
theorem touches_tick (m : HpmcuSim B) (now : ℕ) :
    Touches (mcuWords m.base) m.bus (m.tick now).bus := by
  cases hf : m.fired with
  | true =>
    rw [HpmcuSim.tick_of_fired hf]
    exact Touches.refl _ _
  | false => exact (HpmcuSim.tickEffect hf now).bus

/-- A store that differs in no register of the ladder gives the same view. -/
theorem view_onBus {r : Recorded B} {bus : B}
    (h : ∀ a ∈ ladderRegs, MemBus.peek32 bus a = MemBus.peek32 r.sim.bus a) :
    (r.onBus bus).view = r.view := by
  have hpeek : ∀ a ∈ ladderRegs, (r.onBus bus).sim.peek a = r.sim.peek a := h
  simp only [Recorded.view, hpeek cruGlbSrstFst (by decide), hpeek bootModeReg (by decide),
    hpeek dwWdtCr (by decide), hpeek dwWdtTorr (by decide), hpeek dwWdtCrr (by decide)]
  rfl

/-- **A tick of the core is nothing to the ladder.** -/
theorem Board.view_step_tick {base : UInt64} (hapart : Apart base) (b : Board B base) (now : ℕ) :
    (b.step (.tick now)).cru.view = b.cru.view := by
  refine view_onBus fun a ha => ?_
  have htouch := touches_tick b.mcu now
  rw [b.at_base] at htouch
  have hnot : a ∉ mcuWords base := by
    intro hmem
    refine hapart a ?_ ha
    simp only [mcuWords, mailboxWords, List.mem_cons, List.not_mem_nil, or_false] at hmem ⊢
    exact .inr (.inr hmem)
  rw [htouch.peek32 hnot, b.shared]

/-- The ladder on the board goes the way of the ladder alone. -/
theorem cruView_boardAfter (bus : B) {base : UInt64} (hapart : Apart base) (startNow : ℕ)
    (es : List BoardEvent) :
    (boardAfter bus base startNow es).cru.view =
      (recorded (HpmcuSim.new bus base startNow).bus (es.filterMap BoardEvent.cru?)).view := by
  refine run_history (I := fun es (b : Board B base) => b.cru.view =
    (recorded (HpmcuSim.new bus base startNow).bus (es.filterMap BoardEvent.cru?)).view) rfl ?_ es
  intro past b e ih
  have hown (e' : CruEvent) : (b.cru.step e').view =
      (recorded (HpmcuSim.new bus base startNow).bus
        (past.filterMap BoardEvent.cru? ++ [e'])).view := by
    rw [recorded_concat]
    exact view_step_of_view _ _ e' ih
  rw [List.filterMap_append]
  cases e with
  | poke a v => exact hown (.poke a v)
  | poll now => exact hown (.poll now)
  | powerOnReset => exact hown .powerOnReset
  | tick now =>
    rw [b.view_step_tick hapart, ih]
    exact congrArg (fun es => (recorded _ es).view) (List.append_nil _).symm

/-! ## What the core sees of the board -/

/-- All that the decisions of the core depend on, and its counters. -/
structure CoreView where
  watch : Watch
  polls : UInt32
  fireCount : ℕ
  magic : UInt32
  counter : UInt32
  deriving DecidableEq

def HpmcuSim.view (m : HpmcuSim B) : CoreView :=
  ⟨m.watch, m.polls, m.fireCount, m.read offMagic, m.read offCounter⟩

/-- The view after a tick, from the view before it. -/
def CoreView.tick (w : CoreView) (now : ℕ) : CoreView :=
  if w.watch.fired then w
  else
    let watch := w.watch.step ⟨now, w.magic, w.counter⟩
    ⟨watch, w.polls + 1, if watch.fired then w.fireCount + 1 else w.fireCount, w.magic, w.counter⟩

/-- **A tick of the core is a step of its view.** -/
theorem HpmcuSim.view_tick (m : HpmcuSim B) (now : ℕ) : (m.tick now).view = m.view.tick now := by
  cases hf : m.fired with
  | true =>
    have hwatch : m.view.watch.fired = true := hf
    rw [HpmcuSim.tick_of_fired hf, CoreView.tick, if_pos hwatch]
  | false =>
    have hwatch : ¬ m.view.watch.fired = true := by
      show ¬ m.fired = true
      simp [hf]
    have heffect := HpmcuSim.tickEffect hf now
    have hread {off : UInt64} (hoff : off ∉ [offState, offSeen, offCyc]) :
        (m.tick now).read off = m.read off := by
      unfold HpmcuSim.read
      rw [heffect.base]
      refine heffect.bus.peek32 fun hmem => hoff ?_
      simpa only [mcuWords, List.mem_cons, add_right_inj, List.not_mem_nil, or_false] using hmem
    have hstep := m.watch_tick now
    have hfired : (m.watch.step (m.sees now)).fired = (m.tick now).fired :=
      (congrArg Watch.fired hstep).symm
    rw [CoreView.tick, if_neg hwatch]
    show CoreView.mk _ _ _ _ _ = CoreView.mk (m.watch.step (m.sees now)) (m.polls + 1)
      (if (m.watch.step (m.sees now)).fired then m.fireCount + 1 else m.fireCount)
      (m.read offMagic) (m.read offCounter)
    rw [hstep, heffect.polls, hread (by decide), hread (by decide), hfired]
    cases hf' : (m.tick now).fired with
    | true => rw [(heffect.fires hf').2]; rfl
    | false => rw [(heffect.quiet hf').2]; rfl

theorem HpmcuSim.view_write_magic (m : HpmcuSim B) (v : UInt32) :
    (m.write offMagic v).view = { m.view with magic := v } := by
  simp only [HpmcuSim.view, HpmcuSim.watch_write, HpmcuSim.read_write_self,
    HpmcuSim.read_write_of_ne m v (show offCounter ≠ offMagic by decide)]
  rfl

theorem HpmcuSim.view_write_counter (m : HpmcuSim B) (v : UInt32) :
    (m.write offCounter v).view = { m.view with counter := v } := by
  simp only [HpmcuSim.view, HpmcuSim.watch_write, HpmcuSim.read_write_self,
    HpmcuSim.read_write_of_ne m v (show offMagic ≠ offCounter by decide)]
  rfl

/-- The view of a core after another content of its store. -/
theorem HpmcuSim.view_withBus (m : HpmcuSim B) (bus : B) :
    ({ m with bus := bus } : HpmcuSim B).view =
      { m.view with
        magic := MemBus.peek32 bus (m.base + offMagic)
        counter := MemBus.peek32 bus (m.base + offCounter) } := rfl

/-- **An event of the ladder is nothing to the core**: a poll and a power-on reset
write registers of the ladder. -/
theorem Board.view_cruStep {base : UInt64} (hapart : Apart base) (b : Board B base) (e : CruEvent)
    (h : ∀ a v, e ≠ .poke a v) : (b.cruStep e).mcu.view = b.mcu.view := by
  have hword (off : UInt64) (hoff : base + off ∈ mailboxWords base) :
      (b.cru.step e).sim.peek (base + off) = b.cru.sim.peek (base + off) := by
    have hne {a : UInt64} (ha : a ∈ ladderRegs) : base + off ≠ a := fun he => hapart _ hoff (he ▸ ha)
    cases e with
    | poke a v => exact absurd rfl (h a v)
    | poll now => exact b.cru.sim.peek_poll_of_ne now (hne (by decide)) (hne (by decide))
    | powerOnReset =>
      exact (b.cru.sim.peek_powerOnReset _).trans (if_neg (hne (by decide)))
  have hmagic := hword offMagic (by simp [mailboxWords])
  have hcounter := hword offCounter (by simp [mailboxWords])
  show ({ b.mcu with bus := (b.cru.step e).sim.bus } : HpmcuSim B).view = _
  rw [HpmcuSim.view_withBus, b.at_base]
  show CoreView.mk _ _ _ ((b.cru.step e).sim.peek _) ((b.cru.step e).sim.peek _) = _
  rw [hmagic, hcounter]
  unfold CruSim.peek
  rw [← b.shared, HpmcuSim.view, HpmcuSim.read, HpmcuSim.read, b.at_base]

/-- A poke is to the core what its two input words make of it. -/
theorem Board.view_step_poke {base : UInt64} (b : Board B base) (a : UInt64) (v : UInt32) :
    (b.step (.poke a v)).mcu.view =
      { b.mcu.view with
        magic := if a = base + offMagic then v else b.mcu.view.magic
        counter := if a = base + offCounter then v else b.mcu.view.counter } := by
  have hword (off : UInt64) : MemBus.peek32 (b.cru.step (.poke a v)).sim.bus (b.mcu.base + off) =
      if a = base + off then v else b.mcu.read off := by
    rw [HpmcuSim.read, b.shared, b.at_base]
    refine (b.cru.sim.peek_poke a (base + off) v).trans ?_
    simp only [eq_comm (a := a)]
    rfl
  show ({ b.mcu with bus := (b.cru.step (.poke a v)).sim.bus } : HpmcuSim B).view = _
  rw [HpmcuSim.view_withBus, hword, hword]
  rfl

/-- The core on the board goes the way of the core alone. -/
theorem coreView_boardAfter (bus : B) {base : UInt64} (hapart : Apart base) (startNow : ℕ)
    (es : List BoardEvent) :
    (boardAfter bus base startNow es).mcu.view =
      (coreAfter bus base startNow (es.filterMap (BoardEvent.core? base))).view := by
  refine run_history (I := fun es (b : Board B base) => b.mcu.view =
    (coreAfter bus base startNow (es.filterMap (BoardEvent.core? base))).view) rfl ?_ es
  intro past b e ih
  have hskip (hnone : e.core? base = none) (hview : (b.step e).mcu.view = b.mcu.view) :
      (b.step e).mcu.view =
        (coreAfter bus base startNow ((past ++ [e]).filterMap (BoardEvent.core? base))).view := by
    rw [hview, ih, List.filterMap_append, List.filterMap_cons_none hnone, List.filterMap_nil,
      List.append_nil]
  have hown {e' : Event} (hsome : e.core? base = some e') (hview : (b.step e).mcu.view =
      ((coreAfter bus base startNow (past.filterMap (BoardEvent.core? base))).step e').view) :
      (b.step e).mcu.view =
        (coreAfter bus base startNow ((past ++ [e]).filterMap (BoardEvent.core? base))).view := by
    rw [hview, List.filterMap_append, List.filterMap_cons_some hsome, List.filterMap_nil]
    exact congrArg HpmcuSim.view (run_concat _ _ _ e').symm
  cases e with
  | poke a v =>
    have hpoke := b.view_step_poke a v
    rw [ih] at hpoke
    by_cases hmagic : a = base + offMagic
    · have hne : a ≠ base + offCounter := fun he =>
        absurd (add_left_cancel (hmagic.symm.trans he)) (by decide)
      refine hown (if_pos hmagic) (hpoke.trans ?_)
      rw [if_pos hmagic, if_neg hne]
      exact (HpmcuSim.view_write_magic _ v).symm
    · by_cases hcounter : a = base + offCounter
      · refine hown ((if_neg hmagic).trans (if_pos hcounter)) (hpoke.trans ?_)
        rw [if_neg hmagic, if_pos hcounter]
        exact (HpmcuSim.view_write_counter _ v).symm
      · refine hskip ((if_neg hmagic).trans (if_neg hcounter)) ?_
        rw [b.view_step_poke a v, if_neg hmagic, if_neg hcounter]
  | tick now =>
    refine hown rfl ?_
    show (b.mcu.tick now).view = (HpmcuSim.tick _ now).view
    rw [HpmcuSim.view_tick, HpmcuSim.view_tick, ih]
  | poll now => exact hskip rfl (b.view_cruStep hapart (.poll now) nofun)
  | powerOnReset => exact hskip rfl (b.view_cruStep hapart .powerOnReset nofun)

/-! ## The two devices -/

/-- **A board is its two devices side by side**, for every run of software pokes at any
address, ticks, polls and power-on resets.  The ladder returns the results, and shows the
reset count, cause and boot mode, that it shows alone; the core has the clocks, flags
and counters that it has alone. -/
theorem board_is_two_devices (bus : B) {base : UInt64} (hapart : Apart base) (startNow : ℕ)
    (es : List BoardEvent) :
    (let ladder := (boardAfter bus base startNow es).cru
     let alone := recorded (HpmcuSim.new bus base startNow).bus (es.filterMap BoardEvent.cru?)
     results ladder.log = results alone.log ∧ ladder.sim.resetCount = alone.sim.resetCount ∧
      ladder.sim.lastCause = alone.sim.lastCause ∧ ladder.sim.bootMode = alone.sim.bootMode ∧
      ladder.sim.wdtDeadline = alone.sim.wdtDeadline) ∧
    (let core := (boardAfter bus base startNow es).mcu
     let alone := coreAfter bus base startNow (es.filterMap (BoardEvent.core? base))
     core.watch = alone.watch ∧ core.fireCount = alone.fireCount ∧ core.polls = alone.polls) := by
  have hladder := cruView_boardAfter bus hapart startNow es
  have hcore := coreView_boardAfter bus hapart startNow es
  simp only [Recorded.view, LadderView.mk.injEq] at hladder
  simp only [HpmcuSim.view, CoreView.mk.injEq] at hcore
  exact ⟨⟨hladder.2.2.2.2.2.2.2.2.2, hladder.1, hladder.2.1, hladder.2.2.1, hladder.2.2.2.1⟩,
    hcore.1, hcore.2.2.1, hcore.2.1⟩

/-- A hung system at the mailbox of the board: the core fires while the ladder is asked
for one reset. -/
theorem board_is_two_devices_at_mbBase :
    (boardAfter SimBus.new mbBase 0 [.poke (mbBase + offMagic) magicArmed, .tick 1,
        .poke cruGlbSrstFst cruGlbSrstMagic, .poll 2, .tick 92]).mcu.fireCount = 1 ∧
      (boardAfter SimBus.new mbBase 0 [.poke (mbBase + offMagic) magicArmed, .tick 1,
        .poke cruGlbSrstFst cruGlbSrstMagic, .poll 2, .tick 92]).cru.sim.resetCount = 1 := by
  obtain ⟨⟨-, hcount, -⟩, -, hfire, -⟩ := board_is_two_devices SimBus.new
    (show Apart mbBase by decide) 0 [.poke (mbBase + offMagic) magicArmed, .tick 1,
      .poke cruGlbSrstFst cruGlbSrstMagic, .poll 2, .tick 92]
  exact ⟨hfire.trans (by decide), hcount.trans (by decide)⟩

end Sim
end WardenSdk
