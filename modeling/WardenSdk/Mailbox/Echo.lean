import Mathlib.Data.List.FinRange
import Mathlib.Data.UInt
import Mathlib.Logic.Function.Basic
import WardenSdk.Lib.Run

/-!
# The mailbox echo

`kernel/rv1106-enablement/mailbox/scr1-echo/main.c`: a coprocessor polls a
mailbox of four channels and echoes every message back to Linux.  The two sides
share registers and nothing else, so what can happen is any interleaving of
single register accesses.

* `Regs` is the mailbox as the repository records it: a write to `A2B_DAT` or
  `B2A_DAT` sets the status bit of its channel, and writing 1 to a status bit
  clears it.
* `Pc` is the firmware's place in its loop, one constructor or stage for each
  register access, with the local variables that are alive there.  What the
  firmware computes between two accesses belongs to the first of them.
* `Sender` is a stop-and-wait sender on one channel: command, data, wait for the
  answer, read it, clear its status bit, and only then the next message.

A step of the system is one access: by the firmware, or by the sender of a
channel, which is told what to send next.  The run starts where the firmware has
enabled the doorbells and enters its loop, with no message in flight and any
words in the data registers.
-/

namespace WardenSdk
namespace Mailbox

open Lib

/-! ## Status words -/

abbrev Chan := Fin 4

/-- `1u << ch`. -/
def chanBit (ch : Chan) : UInt32 := 1 <<< UInt32.ofNat ch.val

/-- Whether the bit of a channel is set. -/
def hasBit (w : UInt32) (ch : Chan) : Bool := w &&& chanBit ch != 0

theorem toBitVec_chanBit (ch : Chan) : (chanBit ch).toBitVec = BitVec.twoPow 32 ch.val := by
  revert ch
  decide

theorem hasBit_eq (w : UInt32) (ch : Chan) : hasBit w ch = w.toBitVec.getLsbD ch.val := by
  have hword : w &&& chanBit ch = 0 ↔ w.toBitVec.getLsbD ch.val = false := by
    rw [← UInt32.toBitVec_inj, UInt32.toBitVec_and, toBitVec_chanBit, BitVec.and_twoPow]
    cases w.toBitVec.getLsbD ch.val with
    | false => simp
    | true =>
      have hne : BitVec.twoPow 32 ch.val ≠ 0#32 := by
        rw [← toBitVec_chanBit]
        revert ch
        decide
      simpa using hne
  unfold hasBit
  cases hb : w.toBitVec.getLsbD ch.val with
  | false => simpa using hword.2 hb
  | true =>
    have hne : w &&& chanBit ch ≠ 0 := fun h => by
      rw [hword.1 h] at hb
      exact nomatch hb
    simpa using hne

@[simp] theorem hasBit_zero (ch : Chan) : hasBit 0 ch = false := by
  rw [hasBit_eq]
  simp

/-- A doorbell sets the bit of its channel. -/
@[simp] theorem hasBit_or_chanBit (w : UInt32) (c ch : Chan) :
    hasBit (w ||| chanBit c) ch = (hasBit w ch || decide (ch = c)) := by
  have hbit : (BitVec.twoPow 32 c.val).getLsbD ch.val = decide (ch = c) := by
    revert c ch
    decide
  rw [hasBit_eq, hasBit_eq, UInt32.toBitVec_or, toBitVec_chanBit, BitVec.getLsbD_or, hbit]

/-- Writing 1 to a bit clears it and no other. -/
@[simp] theorem hasBit_and_not_chanBit (w : UInt32) (c ch : Chan) :
    hasBit (w &&& ~~~chanBit c) ch = (hasBit w ch && decide (ch ≠ c)) := by
  have hbit : (~~~BitVec.twoPow 32 c.val).getLsbD ch.val = decide (ch ≠ c) := by
    revert c ch
    decide
  rw [hasBit_eq, hasBit_eq, UInt32.toBitVec_and, UInt32.toBitVec_not, toBitVec_chanBit,
    BitVec.getLsbD_and, hbit]

/-! ## Registers -/

/-- A command and its data. -/
structure Msg where
  cmd : UInt32
  dat : UInt32
  deriving DecidableEq

/-- The mailbox, and the two debug words the loop writes. -/
structure Regs where
  a2bStatus : UInt32
  a2b : Chan → Msg
  b2aStatus : UInt32
  b2a : Chan → Msg
  dbgLastcmd : UInt32
  dbgEchocnt : UInt32

namespace Regs

def writeA2bCmd (r : Regs) (ch : Chan) (v : UInt32) : Regs :=
  { r with a2b := Function.update r.a2b ch { r.a2b ch with cmd := v } }

/-- The doorbell of the firmware. -/
def writeA2bDat (r : Regs) (ch : Chan) (v : UInt32) : Regs :=
  { r with
    a2b := Function.update r.a2b ch { r.a2b ch with dat := v }
    a2bStatus := r.a2bStatus ||| chanBit ch }

def writeB2aCmd (r : Regs) (ch : Chan) (v : UInt32) : Regs :=
  { r with b2a := Function.update r.b2a ch { r.b2a ch with cmd := v } }

/-- The doorbell of Linux. -/
def writeB2aDat (r : Regs) (ch : Chan) (v : UInt32) : Regs :=
  { r with
    b2a := Function.update r.b2a ch { r.b2a ch with dat := v }
    b2aStatus := r.b2aStatus ||| chanBit ch }

/-- Write 1 to clear. -/
def writeA2bStatus (r : Regs) (v : UInt32) : Regs := { r with a2bStatus := r.a2bStatus &&& ~~~v }

def writeB2aStatus (r : Regs) (v : UInt32) : Regs := { r with b2aStatus := r.b2aStatus &&& ~~~v }

end Regs

/-! ## The firmware -/

/-- The next access of the loop body of a channel. -/
inductive Stage where
  | readCmd
  | readDat (cmd : UInt32)
  | writeCmd (cmd dat : UInt32)
  | writeDat (cmd dat : UInt32)
  | ack (cmd : UInt32)
  | dbgLastcmd (cmd : UInt32)
  | dbgEchocnt
  deriving DecidableEq

/-- The firmware's place: about to read the status word, or in the body of a
channel with the status word it has read. -/
inductive Pc where
  | poll
  | body (status : UInt32) (ch : Chan) (stage : Stage)
  deriving DecidableEq

/-- The rest of the inner loop from channel `k` on: the body of the next channel
whose bit is set, or back to the status word. -/
def scan (status : UInt32) (k : ℕ) : Pc :=
  match (List.finRange 4).find? fun ch => decide (k ≤ ch.val) && hasBit status ch with
  | some ch => .body status ch .readCmd
  | none => .poll

/-! ## The sender of a channel -/

inductive Sender where
  /-- Free to send. -/
  | idle
  /-- `A2B_CMD` is written, `A2B_DAT` is not. -/
  | wroteCmd (m : Msg)
  /-- Sent, and waiting for the answer. -/
  | waiting (m : Msg)
  /-- The B2A status bit was seen. -/
  | answered (m : Msg)
  | gotCmd (m : Msg) (cmd : UInt32)
  /-- The pair is read, and the status bit is next to be cleared. -/
  | gotDat (m : Msg) (cmd dat : UInt32)
  deriving DecidableEq

/-! ## The system -/

structure State where
  regs : Regs
  pc : Pc
  echoes : UInt32
  sender : Chan → Sender

/-- One register access: of the firmware, or of the sender of a channel, with
the message it would send next. -/
inductive Act where
  | firmware
  | linux (ch : Chan) (next : Msg)
  deriving DecidableEq

namespace State

/-- The loop is entered with no message in flight. -/
def init (r : Regs) : State :=
  ⟨{ r with a2bStatus := 0, b2aStatus := 0 }, .poll, 0, fun _ => .idle⟩

/-- One access of the firmware. -/
def firmware (s : State) : State :=
  match s.pc with
  | .poll => { s with pc := scan s.regs.a2bStatus 0 }
  | .body status ch stage =>
    match stage with
    | .readCmd => { s with pc := .body status ch (.readDat (s.regs.a2b ch).cmd) }
    | .readDat cmd => { s with pc := .body status ch (.writeCmd cmd (s.regs.a2b ch).dat) }
    | .writeCmd cmd dat =>
      { s with regs := s.regs.writeB2aCmd ch cmd, pc := .body status ch (.writeDat cmd dat) }
    | .writeDat cmd dat =>
      { s with regs := s.regs.writeB2aDat ch dat, pc := .body status ch (.ack cmd) }
    | .ack cmd =>
      { s with
        regs := s.regs.writeA2bStatus (chanBit ch), pc := .body status ch (.dbgLastcmd cmd) }
    | .dbgLastcmd cmd =>
      { s with regs := { s.regs with dbgLastcmd := cmd }, pc := .body status ch .dbgEchocnt }
    | .dbgEchocnt =>
      { s with
        regs := { s.regs with dbgEchocnt := s.echoes + 1 }
        echoes := s.echoes + 1
        pc := scan status (ch.val + 1) }

/-- One access of the sender of a channel. -/
def linux (s : State) (ch : Chan) (next : Msg) : State :=
  let move (sender : Sender) (regs : Regs) : State :=
    { s with regs, sender := Function.update s.sender ch sender }
  match s.sender ch with
  | .idle => move (.wroteCmd next) (s.regs.writeA2bCmd ch next.cmd)
  | .wroteCmd m => move (.waiting m) (s.regs.writeA2bDat ch m.dat)
  | .waiting m => if hasBit s.regs.b2aStatus ch then move (.answered m) s.regs else s
  | .answered m => move (.gotCmd m (s.regs.b2a ch).cmd) s.regs
  | .gotCmd m cmd => move (.gotDat m cmd (s.regs.b2a ch).dat) s.regs
  | .gotDat _ _ _ => move .idle (s.regs.writeB2aStatus (chanBit ch))

def step (s : State) : Act → State
  | .firmware => s.firmware
  | .linux ch next => s.linux ch next

end State

/-- The system after some accesses. -/
def after (r : Regs) (acts : List Act) : State := run State.step (State.init r) acts

end Mailbox
end WardenSdk
