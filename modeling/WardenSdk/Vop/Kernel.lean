import WardenSdk.Vop.Driver

/-!
# The kernel around the display driver

What a request does: to the references that each part of the driver holds, to the registers,
which may hold anything after the power has been off, and to the memory of the driver.  An
outcome is given for each request: what is returned, what is read where the device decides,
what the registers hold once they have been lost, and the framebuffer that `drm_flip_work` calls
the worker with.

`left` is what the driver found in the registers: at `vop_bind`, or when the power came on or
a reset was over after it.  `found` is what was copied into `regsbak`, and `sets` lists what
has been put into fields of it since.
-/

namespace WardenSdk
namespace Vop

open Lib

/-- Who runs a part of the driver. -/
inductive Who where
  | ops
  | irq
  | worker
  deriving DecidableEq

/-- The event that waits for a frame, and the flag of the framebuffers that do. -/
structure Flips where
  event : Option ℕ
  pending : Bool
  /-- The handler has cleared `pending` and not committed the framebuffers yet. -/
  claimed : Bool
  deriving DecidableEq

def Flips.empty : Flips := ⟨none, false, false⟩

structure Chip where
  held : Who → Ref → ℕ
  runtimePm : Bool
  irqOn : Bool
  regs : ℕ → Word
  /-- The words that have been written with a mask. -/
  masked : List ℕ
  left : ℕ → Word
  memory : Memory
  /-- `vop_bind` has come back with success, and `vop_unbind` has not been called. -/
  bound : Bool
  found : ℕ → Word
  sets : List (Cell 32 × Word)
  flips : Flips
  log : List Event
  /-- A reference has been dropped that was not held, or a register has been touched
  without power or clock. -/
  bad : Bool

structure Outcome where
  ret : ℤ
  val : Word
  regs : ℕ → Word

namespace Chip

/-- The references of a kind that are held by anyone. -/
def total (s : Chip) (ref : Ref) : ℕ := s.held .ops ref + s.held .irq ref + s.held .worker ref

def setHeld (s : Chip) (who : Who) (ref : Ref) (n : ℕ) : Chip :=
  { s with held := Function.update s.held who (Function.update (s.held who) ref n) }

/-- The registers hold what the device has put into them. -/
def lose (s : Chip) (regs : ℕ → Word) : Chip := { s with regs := regs, left := regs }

def gain (s : Chip) (who : Who) (ref : Ref) (regs : ℕ → Word) : Chip :=
  let s := if ref = .pm ∧ s.total .pm = 0 then s.lose regs else s
  s.setHeld who ref (s.held who ref + 1)

def drop (s : Chip) (who : Who) (ref : Ref) : Chip :=
  if s.held who ref = 0 then { s with bad := true }
  else s.setHeld who ref (s.held who ref - 1)

/-- A register is touched. -/
def touch (s : Chip) : Chip :=
  { s with bad := s.bad || s.total .pm == 0 || s.total (.enable .hclk) == 0 }

def writel (s : Chip) (masked : Bool) (k : ℕ) (v : Word) (o : Word) : Chip :=
  if masked then { s with regs := Function.update s.regs k o, masked := s.masked ++ [k] }
  else { s with regs := Function.update s.regs k v }

def note (s : Chip) : Event → Chip
  | .bound => { s with log := s.log ++ [.bound], bound := true }
  | .unbound l => { s with log := s.log ++ [.unbound l], bound := false }
  | e => { s with log := s.log ++ [e] }

def memoryStep (s : Chip) : MemoryOp → Chip
  | .load => s
  | .alloc => { s with memory := .zero, left := s.regs }
  | .free => { s with memory := .zero }
  | .setEnabled on => { s with memory := { s.memory with isEnabled := on } }
  | .setLoader on => { s with memory := { s.memory with loaderActive := on } }
  | .setWin i on => { s with memory := { s.memory with
      winEnabled := if on then s.memory.winEnabled ||| ((1 : Word) <<< i)
        else s.memory.winEnabled &&& ~~~((1 : Word) <<< i) } }
  | .snapshot => { s with found := s.regs, sets := [] }
  | .fill i v => { s with memory := { s.memory with
      regsbak := Function.update s.memory.regsbak i v } }
  | .put c v => { s with
      memory := { s.memory with regsbak := c.put v s.memory.regsbak }
      sets := s.sets ++ [(c, v)] }

def flipStep (s : Chip) (o : Outcome) : FlipOp → Chip
  | .post e => { s with flips := { s.flips with event := some e }, log := s.log ++ [.posted e] }
  | .send =>
    match s.flips.event with
    | none => s
    | some e => { s with flips := { s.flips with event := none }, log := s.log ++ [.sent e] }
  | .sendNow e => { s with log := s.log ++ [.posted e, .sent e] }
  | .queue fb =>
    { s with log := s.log ++ .queued fb :: if o.ret < 0 then [.released fb] else [] }
  | .pend => { s with flips := { s.flips with pending := true }, log := s.log ++ [.announced] }
  | .claim => { s with flips := { s.flips with
      pending := false, claimed := s.flips.pending || s.flips.claimed } }
  | .commit => { s with flips := { s.flips with claimed := false }, log := s.log ++ [.committed] }
  | .vblank => { s with log := s.log ++ [.vblank] }
  | .release => { s with log := s.log ++ [.released o.val.toNat] }
  | .destroy => { s with flips := .empty, log := s.log ++ [.destroyed] }

end Chip

/-- The words of the device that hold what is written into them, if it is not written with
a mask. -/
abbrev Steady := ℕ → Bool

/-- What is returned, with the memory of the driver as it stands. -/
def Chip.answers (s : Chip) (ret : ℤ) (val : Word) : Chip × Answer := (s, ⟨ret, val, s.memory⟩)

def answer (steady : Steady) (who : Who) (s : Chip) (q : Request) (o : Outcome) :
    Chip × Answer :=
  match q with
  | .take ref => if o.ret < 0 then s.answers o.ret o.val
    else (s.gain who ref o.regs).answers 0 o.val
  | .takeInUse =>
    if s.runtimePm = false then (s.note .lateIrq).answers (-einval) o.val
    else if s.total .pm = 0 ∨ o.ret ≤ 0 then s.answers 0 o.val
    else (s.gain who .pm o.regs).answers 1 o.val
  | .drop ref => (s.drop who ref).answers 0 o.val
  | .readl offset => s.touch.answers 0 (if steady (offset / 4) then s.regs (offset / 4) else o.val)
  | .writel masked offset v => (s.touch.writel masked (offset / 4) v o.val).answers 0 o.val
  | .reset => (s.lose o.regs).answers 0 o.val
  | .memory (.put c v) =>
    (s.memoryStep (.put c v)).answers 0 (c.put v s.memory.regsbak c.word)
  | .memory op => (s.memoryStep op).answers 0 o.val
  | .flip .claim => (s.flipStep o .claim).answers 0 (bit s.flips.pending)
  | .flip op => (s.flipStep o op).answers 0 o.val
  | .runtimePm on => { s with runtimePm := on }.answers 0 o.val
  | .requestIrq on => { s with irqOn := on }.answers 0 o.val
  | .raised => s.answers 0 (if s.irqOn then o.val else 0)
  | .result => s.answers o.ret o.val
  | .note e => (s.note e).answers 0 o.val

/-! ## The calls of the kernel -/

inductive Crtc where
  | off
  | on
  | selfRefresh
  deriving DecidableEq

/-- What the kernel knows: whether the driver is bound, and the CRTC as it was set. -/
structure Framework where
  bound : Bool
  crtc : Crtc
  deriving DecidableEq

inductive Call where
  | bind
  | unbind
  | enable (st : CrtcState)
  | disable (selfRefresh : Bool) (event : Option ℕ)
  | planeUpdate (mode : Mode) (st : PlaneState) (oldCrtc : Bool) (i : ℕ)
  | planeAsyncUpdate (mode : Mode) (st : PlaneState) (oldCrtc : Bool) (oldFb : Option ℕ) (i : ℕ)
  | planeDisable (oldCrtc : Bool) (i : ℕ)
  | flush (enableAfbc : Bool) (event : Option ℕ) (fbs : List ℕ)
  | enableVblank
  | disableVblank
  | waitVactEnd (mstimeout : ℕ)

/-- The kernel calls a driver that is bound.  It enables a CRTC that is off and disables one
that is not, and it updates planes while the CRTC is on.  The vblank interrupt is turned on and
off while the CRTC is on or in self refresh.  The kernel also does that beside a commit; here it
comes before or after the other calls, as they do among one another. -/
def Call.allowed (fw : Framework) : Call → Bool
  | .bind => !fw.bound
  | .unbind => fw.bound && fw.crtc == .off
  | .enable st => fw.bound && fw.crtc == (if st.oldSelfRefresh then .selfRefresh else .off)
  | .disable selfRefresh _ =>
    fw.bound && (if selfRefresh then fw.crtc == .on else fw.crtc != .off)
  | .planeUpdate .. | .planeAsyncUpdate .. | .planeDisable .. | .flush .. =>
    fw.bound && fw.crtc == .on
  | .enableVblank | .disableVblank => fw.bound && fw.crtc != .off
  | .waitVactEnd _ => fw.bound

/-- What is decided when the kernel comes up. -/
structure Boot where
  hdr : Header
  data : VopData
  /-- The length of the registers, in words. -/
  words : ℕ
  steady : Steady
  /-- The most reads that a poll takes after the first one. -/
  polls : ℕ
  regs : ℕ → Word
  calls : List Call
  irqs : ℕ
  works : ℕ

namespace Boot

variable (b : Boot)

/-- The work on a window that there is. -/
def onWin (i : ℕ) (f : VopWin → Io Unit) : Io Unit :=
  match b.data.win[i]? with
  | none => pure ()
  | some win => f win

/-- A call comes that does not ask whether the VOP is enabled. -/
def callUnasked : Io Unit := do
  let vop ← load
  if vop.isEnabled then return
  note .deadCall

/-- Coming out of self refresh is such a call. -/
def enableUnasked (st : CrtcState) : Io Unit :=
  if st.oldSelfRefresh then callUnasked else pure ()

/-- One call, and what the kernel knows after it. -/
def serve (fw : Framework) : Call → Io Framework
  | .bind => do
    let ret ← vopBind b.hdr b.data b.words
    if ret ≠ 0 then
      let _ ← Prog.ask (.requestIrq false)
      store .free
      return fw
    note .bound
    return ⟨true, .off⟩
  | .unbind => do
    vopUnbind
    let _ ← Prog.ask (.requestIrq false)
    store .free
    return ⟨false, .off⟩
  | .enable st => do
    enableUnasked st
    vopCrtcAtomicEnable b.hdr b.data b.words st
    return ⟨fw.bound, .on⟩
  | .disable selfRefresh event => do
    callUnasked
    vopCrtcAtomicDisable b.hdr b.data selfRefresh event
    return ⟨fw.bound, if selfRefresh then .selfRefresh else .off⟩
  | .planeUpdate mode st oldCrtc i => do
    b.onWin i (vopPlaneAtomicUpdate b.hdr b.data mode st oldCrtc i)
    return fw
  | .planeAsyncUpdate mode st oldCrtc oldFb i => do
    b.onWin i (vopPlaneAtomicAsyncUpdate b.hdr b.data mode st oldCrtc oldFb i)
    return fw
  | .planeDisable oldCrtc i => do
    callUnasked
    b.onWin i (vopPlaneAtomicDisable b.hdr oldCrtc i)
    return fw
  | .flush enableAfbc event fbs => do
    vopCrtcAtomicFlush b.hdr b.data b.polls enableAfbc event fbs
    return fw
  | .enableVblank => do
    let _ ← vopCrtcEnableVblank b.hdr b.data
    return fw
  | .disableVblank => do
    vopCrtcDisableVblank b.hdr b.data
    return fw
  | .waitVactEnd mstimeout => do
    let _ ← rockchipDrmWaitVactEnd b.hdr b.data mstimeout
    return fw

/-- The calls one after the other; one that the kernel would not make is passed over. -/
def serveAll (fw : Framework) : List Call → Io Unit
  | [] => pure ()
  | call :: calls =>
    if call.allowed fw then do
      let fw ← b.serve fw call
      serveAll fw calls
    else serveAll fw calls

def ops : Io Unit := b.serveAll ⟨false, .off⟩ b.calls

/-- The handler runs when an interrupt comes in. -/
def interrupt : Io Unit := do
  let raised ← Prog.ask .raised
  if raised.val = 0 then return
  let _ ← vopIsr b.hdr b.data

def irq : Io Unit := Prog.each (fun _ => b.interrupt) (List.range b.irqs)

def worker : Io Unit := Prog.each (fun _ => vopFbUnrefWorker) (List.range b.works)

def start : Pool Chip (Task Who Request Answer) where
  shared :=
    { held := fun _ _ => 0, runtimePm := false, irqOn := false, regs := b.regs, masked := []
      left := b.regs, memory := .zero, bound := false, found := b.regs, sets := []
      flips := .empty, log := [], bad := false }
  threads := [⟨.ops, b.ops⟩, ⟨.irq, b.irq⟩, ⟨.worker, b.worker⟩]

/-- Where an interleaving leads, with an outcome for every request. -/
def run (schedule : List (ℕ × Outcome)) : Pool Chip (Task Who Request Answer) :=
  Lib.run (fun p e => p.run (Task.step (answer b.steady)) e.1 e.2) b.start schedule

end Boot

end Vop
end WardenSdk
