import Mathlib.Algebra.Order.Ring.Int
import WardenSdk.Lib.Field
import WardenSdk.Lib.Prog

/-!
# The registers of the display controller

What the display driver asks for, one request at a time: references on power and clocks, the
registers of the VOP, its own memory, and the rest of the kernel; and the functions through
which it sets and reads registers.

A register is a field of a word.  One that is written with a mask takes the mask in the upper
half of the word.  Any other one is kept in `regsbak` beside the device, and what is written
into the device is the word there with the field in it.
-/

namespace WardenSdk
namespace Vop

open Lib

abbrev Word := BitVec 32

inductive Clk where
  | hclk
  | aclk
  | dclk
  deriving DecidableEq

/-- Something the driver takes and drops. -/
inductive Ref where
  | pm
  | prepare (clk : Clk)
  | enable (clk : Clk)
  deriving DecidableEq

/-- `struct vop_reg`. -/
structure VopReg where
  offset : ℕ
  shift : ℕ
  mask : Word
  writeMask : Bool

/-- The parts of `struct vop` that the calls of the display core work on. -/
structure Memory where
  isEnabled : Bool
  loaderActive : Bool
  winEnabled : Word
  regsbak : ℕ → Word

/-- `devm_kzalloc`. -/
def Memory.zero : Memory := ⟨false, false, 0, fun _ => 0⟩

/-- An access to that memory. -/
inductive MemoryOp where
  | load
  | alloc
  | free
  | setEnabled (on : Bool)
  | setLoader (on : Bool)
  | setWin (i : ℕ) (on : Bool)
  /-- The registers are about to be copied. -/
  | snapshot
  /-- `regsbak[i] = v`. -/
  | fill (i : ℕ) (v : Word)
  /-- The word of `regsbak`, with the value in the field. -/
  | put (c : Cell 32) (v : Word)

/-- An access to what the interrupt handler shares with the calls: the event that waits for
the next frame, and the framebuffers to let go of.  These are handed to `drm_flip_work`, which
is no part of the driver: with which framebuffers it calls `vop_fb_unref_worker`, and when, is
left open. -/
inductive FlipOp where
  /-- `vop->event = event`. -/
  | post (event : ℕ)
  /-- `drm_crtc_send_vblank_event` for the event that waits, if there is one. -/
  | send
  /-- `drm_crtc_send_vblank_event` for this event. -/
  | sendNow (event : ℕ)
  /-- `drm_flip_work_queue`, which calls `vop_fb_unref_worker` at once when it finds no
  memory. -/
  | queue (fb : ℕ)
  /-- `set_bit(VOP_PENDING_FB_UNREF, &vop->pending)`. -/
  | pend
  /-- `test_and_clear_bit(VOP_PENDING_FB_UNREF, &vop->pending)`. -/
  | claim
  /-- `drm_flip_work_commit`. -/
  | commit
  /-- `drm_crtc_handle_vblank`: a frame has started. -/
  | vblank
  /-- `vop_fb_unref_worker` lets go of the framebuffer that it is called with. -/
  | release
  /-- `vop_destroy_crtc`. -/
  | destroy
  deriving DecidableEq

inductive Event where
  /-- `vop_bind` has come back with success. -/
  | bound
  /-- `vop_bind` has failed after `vop_initial`. -/
  | abandoned (loaderActive : Bool)
  | unbound (loaderActive : Bool)
  /-- "loader takeover: dclk enable failed". -/
  | dclkEnableFailed
  /-- A call that does not ask whether the VOP is enabled has come to one that is not. -/
  | deadCall
  /-- An interrupt has come in when runtime PM was off. -/
  | lateIrq
  | posted (event : ℕ)
  | sent (event : ℕ)
  | queued (fb : ℕ)
  | announced
  | vblank
  | committed
  | released (fb : ℕ)
  | destroyed
  deriving DecidableEq

inductive Request where
  /-- `pm_runtime_resume_and_get`, `clk_prepare`, `clk_enable`. -/
  | take (ref : Ref)
  /-- `pm_runtime_get_if_in_use`. -/
  | takeInUse
  | drop (ref : Ref)
  | readl (offset : ℕ)
  | writel (masked : Bool) (offset : ℕ) (v : Word)
  /-- A reset line of the VOP is asserted and deasserted. -/
  | reset
  | memory (op : MemoryOp)
  | flip (op : FlipOp)
  | runtimePm (on : Bool)
  | requestIrq (on : Bool)
  /-- Whether an interrupt comes in. -/
  | raised
  /-- What another part of the kernel returns. -/
  | result
  | note (event : Event)

structure Answer where
  ret : ℤ
  val : Word
  memory : Memory

/-- A part of the driver. -/
abbrev Io (α : Type) : Type := Prog Request Answer α

def take (ref : Ref) : Io ℤ := do
  let answer ← Prog.ask (.take ref)
  return answer.ret

def drop (ref : Ref) : Io Unit := do
  let _ ← Prog.ask (.drop ref)
  return

def load : Io Memory := do
  let answer ← Prog.ask (.memory .load)
  return answer.memory

def store (op : MemoryOp) : Io Unit := do
  let _ ← Prog.ask (.memory op)
  return

def flip (op : FlipOp) : Io Unit := do
  let _ ← Prog.ask (.flip op)
  return

def result : Io ℤ := do
  let answer ← Prog.ask .result
  return answer.ret

def note (event : Event) : Io Unit := do
  let _ ← Prog.ask (.note event)
  return

def vopReadl (offset : ℕ) : Io Word := do
  let answer ← Prog.ask (.readl offset)
  return answer.val

def writel (masked : Bool) (offset : ℕ) (v : Word) : Io Unit := do
  let _ ← Prog.ask (.writel masked offset v)
  return

def vopReadReg (base : ℕ) (reg : VopReg) : Io Word := do
  let v ← vopReadl (base + reg.offset)
  return (v >>> reg.shift) &&& reg.mask

/-- The field of `regsbak` behind a register. -/
def VopReg.cell (reg : VopReg) (base : ℕ) (mask : Word) : Cell 32 where
  word := (reg.offset + base) / 4
  field := ⟨reg.mask &&& mask, reg.shift⟩

def vopRegSet (reg : VopReg) (base : ℕ) (mask v : Word) : Io Unit :=
  -- the register is not there on this version
  if reg.mask = 0 then pure ()
  else if reg.writeMask then
    writel true (reg.offset + base)
      (((v <<< reg.shift) &&& 0xffff) ||| ((reg.mask &&& mask) <<< (reg.shift + 16)))
  else do
    let answer ← Prog.ask (.memory (.put (reg.cell base mask) v))
    writel false (reg.offset + base) answer.val

/-! ## The registers of a version -/

structure VopCommon where
  cfgDone : VopReg
  standby : VopReg
  dspBlank : VopReg
  preDitherDown : VopReg
  ditherDownSel : VopReg
  ditherDownMode : VopReg
  ditherDownEn : VopReg
  outMode : VopReg
  dmaStop : VopReg

structure VopModeset where
  htotalPw : VopReg
  hactStEnd : VopReg
  hpostStEnd : VopReg
  vtotalPw : VopReg
  vactStEnd : VopReg
  vpostStEnd : VopReg

/-- The clock polarity, the pin polarity and the enable bit of one output. -/
structure VopPort where
  dclkPol : VopReg
  pinPol : VopReg
  en : VopReg

structure VopOutput where
  pinPol : VopReg
  mipiDualChannelEn : VopReg
  rgb : VopPort
  edp : VopPort
  hdmi : VopPort
  mipi : VopPort
  dp : VopPort

structure VopIntr where
  intrs : List Word
  lineFlagNum0 : VopReg
  enable : VopReg
  clear : VopReg
  status : VopReg

structure VopScl where
  yrgbHorSclMode : VopReg
  yrgbVerSclMode : VopReg
  cbcrHorSclMode : VopReg
  cbcrVerSclMode : VopReg

structure VopWinPhy where
  enable : VopReg
  format : VopReg
  fmt10 : VopReg
  yrgbVir : VopReg
  yrgbMst : VopReg
  yMirEn : VopReg
  xMirEn : VopReg
  uvVir : VopReg
  uvMst : VopReg
  uvSwap : VopReg
  actInfo : VopReg
  dspInfo : VopReg
  dspSt : VopReg
  rbSwap : VopReg
  dstAlphaCtl : VopReg
  srcAlphaCtl : VopReg
  alphaPreMul : VopReg
  alphaMode : VopReg
  alphaEn : VopReg
  channel : VopReg
  gate : VopReg
  /-- The registers of an extended scaler. -/
  scl : Option VopScl

structure VopAfbc where
  enable : VopReg
  winSel : VopReg
  format : VopReg
  hregBlockSplit : VopReg
  picSize : VopReg
  hdrPtr : VopReg

structure VopYuv2yuv where
  base : ℕ
  y2rEn : VopReg
  y2rCoefficients : List VopReg

/-- `struct vop_win_data`, with the entry of `win_yuv2yuv` for the window. -/
structure VopWin where
  base : ℕ
  phy : VopWinPhy
  yuv2yuv : Option VopYuv2yuv

/-- `struct vop_data`. -/
structure VopData where
  /-- `VOP_MAJOR(version)`. -/
  major : ℕ
  outputRgb10 : Bool
  internalRgb : Bool
  common : VopCommon
  globalRegdoneEn : VopReg
  modeset : VopModeset
  output : VopOutput
  intr : VopIntr
  win : List VopWin
  afbc : Option VopAfbc

def regSet (reg : VopReg) (v : Word) : Io Unit := vopRegSet reg 0 (BitVec.allOnes 32) v

def winSet (win : VopWin) (reg : VopReg) (v : Word) : Io Unit :=
  vopRegSet reg win.base (BitVec.allOnes 32) v

/-- `v` in the place of each interrupt of the type. -/
def intrBits (intrs : List Word) (type v : Word) : Word :=
  intrs.zipIdx.foldl (fun bits x => if x.1 &&& type ≠ 0 then bits ||| (v <<< x.2) else bits) 0

variable (data : VopData)

def intrSetType (reg : VopReg) (type v : Word) : Io Unit :=
  vopRegSet reg 0 (intrBits data.intr.intrs type 1) (intrBits data.intr.intrs type v)

def vopGetIntrType (reg : VopReg) (type : Word) : Io Word := do
  let regs ← vopReadReg 0 reg
  return data.intr.intrs.zipIdx.foldl
    (fun ret x => if type &&& x.1 ≠ 0 ∧ regs &&& (1 <<< x.2) ≠ 0 then ret ||| x.1 else ret) 0

def vopCfgDone : Io Unit := regSet data.common.cfgDone 1

end Vop
end WardenSdk
