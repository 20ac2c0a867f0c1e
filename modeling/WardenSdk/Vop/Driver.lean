import WardenSdk.Vop.Plane

/-!
# The display driver

`rockchip_drm_vop.c` in its own words: from `vop_bind`, which takes over a scanout of the
bootloader, through the calls of the display core to `vop_unbind`, the interrupt handler and
the worker that lets go of framebuffers.

`Call.serve` is the kernel around it: the component framework binds and unbinds, and the
display core enables and disables the CRTC, and updates its planes, in the order that it
keeps.
-/

namespace WardenSdk
namespace Vop

open Lib

def eperm : ℤ := 1
def ebusy : ℤ := 16
def enodev : ℤ := 19
def etimedout : ℤ := 110

variable (hdr : Header) (data : VopData)

/-! ## Interrupts -/

def vopDspHoldValidIrqEnable : Io Unit := do
  let vop ← load
  if !vop.isEnabled then return
  intrSetType data data.intr.clear hdr.dspHoldValidIntr 1
  intrSetType data data.intr.enable hdr.dspHoldValidIntr 1

def vopDspHoldValidIrqDisable : Io Unit := do
  let vop ← load
  if !vop.isEnabled then return
  intrSetType data data.intr.enable hdr.dspHoldValidIntr 0

def vopLineFlagIrqIsEnabled : Io Bool := do
  let lineFlagIrq ← vopGetIntrType data data.intr.enable hdr.lineFlagIntr
  return lineFlagIrq != 0

def vopLineFlagIrqEnable : Io Unit := do
  let vop ← load
  if !vop.isEnabled then return
  intrSetType data data.intr.clear hdr.lineFlagIntr 1
  intrSetType data data.intr.enable hdr.lineFlagIntr 1

def vopLineFlagIrqDisable : Io Unit := do
  let vop ← load
  if !vop.isEnabled then return
  intrSetType data data.intr.enable hdr.lineFlagIntr 0

def vopCrtcEnableVblank : Io ℤ := do
  let vop ← load
  if !vop.isEnabled then return -eperm
  intrSetType data data.intr.clear hdr.fsIntr 1
  intrSetType data data.intr.enable hdr.fsIntr 1
  return 0

def vopCrtcDisableVblank : Io Unit := do
  let vop ← load
  if !vop.isEnabled then return
  intrSetType data data.intr.enable hdr.fsIntr 0

/-- `drm_crtc_vblank_on` turns the interrupt on where somebody waits for it. -/
def drmCrtcVblankOn : Io Unit := do
  let waiting ← result
  if waiting = 0 then return
  let _ ← vopCrtcEnableVblank hdr data

/-- `drm_crtc_vblank_off` turns the interrupt off where it is on. -/
def drmCrtcVblankOff : Io Unit := do
  let enabled ← result
  if enabled = 0 then return
  vopCrtcDisableVblank hdr data

/-! ## Clocks -/

def vopCoreClksEnable : Io ℤ := do
  let ret ← take (.enable .hclk)
  if ret < 0 then return ret
  let ret ← take (.enable .aclk)
  if ret < 0 then
    drop (.enable .hclk)
    return ret
  return 0

def vopCoreClksDisable : Io Unit := do
  drop (.enable .aclk)
  drop (.enable .hclk)

/-! ## Enabling and disabling the CRTC -/

def afbcSetEnable (on : Bool) : Io Unit :=
  match data.afbc with
  | none => pure ()
  | some afbc => regSet afbc.enable (bit on)

/-- Every window is disabled, but where the screen comes out of self refresh. -/
def vopWinsDisable (oldSelfRefresh : Bool) : Io Unit :=
  if oldSelfRefresh then pure ()
  else Prog.each (fun x => vopWinDisable hdr x.2 x.1) data.win.zipIdx

/-- The registers are written from `regsbak`. -/
def restore (words : ℕ) : Io Unit :=
  Prog.each (fun i => do
    let vop ← load
    writel false (4 * i) (vop.regsbak i)) (List.range words)

/-- The references of the bootloader's scanout are dropped. -/
def releaseLoader : Io Unit := do
  let vop ← load
  if !vop.loaderActive then return
  store (.setLoader false)
  drop (.enable .dclk)
  vopCoreClksDisable
  drop .pm

def vopEnable (words : ℕ) (oldSelfRefresh : Bool) : Io ℤ := do
  let ret ← take .pm
  if ret < 0 then return ret
  let ret ← vopCoreClksEnable
  if ret < 0 then
    drop .pm
    return ret
  let ret ← take (.enable .dclk)
  if ret < 0 then
    vopCoreClksDisable
    drop .pm
    return ret
  let ret ← result
  if ret ≠ 0 then
    drop (.enable .dclk)
    vopCoreClksDisable
    drop .pm
    return ret
  restore words
  vopWinsDisable hdr data oldSelfRefresh
  afbcSetEnable data false
  vopCfgDone data
  store (.setEnabled true)
  regSet data.common.standby 1
  releaseLoader
  drmCrtcVblankOn hdr data
  return 0

def rockchipDrmSetWinEnabled (enabled : Bool) : Io Unit := do
  Prog.each (fun x => do
    let vop ← load
    winSet x.1 x.1.phy.enable (bit (enabled && vop.winEnabled.getLsbD x.2))) data.win.zipIdx
  vopCfgDone data

/-- The event of a state that is not active is sent at once. -/
def sendNow : Option ℕ → Io Unit
  | none => pure ()
  | some event => flip (.sendNow event)

def vopCrtcAtomicDisable (selfRefresh : Bool) (event : Option ℕ) : Io Unit := do
  if selfRefresh then
    rockchipDrmSetWinEnabled data false
    sendNow event
  else
    drmCrtcVblankOff hdr data
    vopDspHoldValidIrqEnable hdr data
    regSet data.common.standby 1
    let _ ← result
    vopDspHoldValidIrqDisable hdr data
    store (.setEnabled false)
    drop (.enable .dclk)
    vopCoreClksDisable
    drop .pm
    sendNow event

inductive Connector where
  | lvds
  | edp
  | hdmia
  | dsi
  | displayPort
  | other
  deriving DecidableEq

/-- The new state of the CRTC, and whether the old one was in self refresh. -/
structure CrtcState where
  mode : Mode
  outputType : Connector
  outputMode : Word
  outputBpc : ℕ
  dsiDual : Bool
  oldSelfRefresh : Bool

def pinPol (mode : Mode) : Word :=
  (if mode.phsync then 1 <<< hdr.hsyncPositive else 0) |||
    (if mode.pvsync then 1 <<< hdr.vsyncPositive else 0)

def portEnable (port : VopPort) (dclkPol pinPol : Word) : Io Unit := do
  regSet port.dclkPol dclkPol
  regSet port.pinPol pinPol
  regSet port.en 1

def outputEnable (st : CrtcState) : Io Unit :=
  let pol := pinPol hdr st.mode
  match st.outputType with
  -- the panel latches on the edge that is not inverted
  | .lvds => portEnable data.output.rgb 0 pol
  | .edp => portEnable data.output.edp 1 pol
  | .hdmia => portEnable data.output.hdmi 1 pol
  | .dsi => do
    portEnable data.output.mipi 1 pol
    regSet data.output.mipiDualChannelEn (bit st.dsiDual)
  | .displayPort => portEnable data.output.dp 0 pol
  | .other => pure ()

/-- RGB10 is put out as RGB888 where the VOP does not support it. -/
def outputMode (st : CrtcState) : Word :=
  if st.outputMode = hdr.outModeAaaa ∧ data.outputRgb10 = false then hdr.outModeP888
  else st.outputMode

def ditherBpc (st : CrtcState) : ℕ := if st.outputBpc ≠ 0 then st.outputBpc else 10

def ditherSet (st : CrtcState) : Io Unit :=
  if ditherBpc st = 6 then do
    regSet data.common.ditherDownSel hdr.ditherDownAllegro
    regSet data.common.ditherDownMode hdr.rgb888ToRgb666
    regSet data.common.ditherDownEn 1
  else regSet data.common.ditherDownEn 0

/-- Two halves of a timing register. -/
def halves (hi lo : BitVec 16) : Word := (hi.setWidth 32 <<< 16) ||| lo.setWidth 32

def modeSet (mode : Mode) : Io Unit := do
  let hactSt := mode.htotal - mode.hsyncStart
  let vactSt := mode.vtotal - mode.vsyncStart
  let vactEnd := vactSt + mode.vdisplay
  regSet data.modeset.htotalPw (halves mode.htotal (mode.hsyncEnd - mode.hsyncStart))
  regSet data.modeset.hactStEnd (halves hactSt (hactSt + mode.hdisplay))
  regSet data.modeset.hpostStEnd (halves hactSt (hactSt + mode.hdisplay))
  regSet data.modeset.vtotalPw (halves mode.vtotal (mode.vsyncEnd - mode.vsyncStart))
  regSet data.modeset.vactStEnd (halves vactSt vactEnd)
  regSet data.modeset.vpostStEnd (halves vactSt vactEnd)
  regSet data.intr.lineFlagNum0 (vactEnd.setWidth 32)

def vopCrtcAtomicEnable (words : ℕ) (st : CrtcState) : Io Unit := do
  if st.oldSelfRefresh then
    drmCrtcVblankOn hdr data
    rockchipDrmSetWinEnabled data true
  else
    let ret ← vopEnable hdr data words st.oldSelfRefresh
    if ret ≠ 0 then return
    regSet data.output.pinPol (pinPol hdr st.mode)
    regSet data.output.mipiDualChannelEn 0
    outputEnable hdr data st
    regSet data.common.preDitherDown
      (bit (outputMode hdr data st == hdr.outModeAaaa && decide (ditherBpc st ≤ 8)))
    ditherSet hdr data st
    regSet data.common.outMode (outputMode hdr data st)
    modeSet data st.mode
    regSet data.common.standby 0

/-! ## Commits -/

/-- A framebuffer that is no longer shown is let go of after the next frame. -/
def unref (fb : ℕ) : Io Unit := do
  flip (.queue fb)
  flip .pend

/-- `old_fb`, where it is another one than the new framebuffer. -/
def unrefOld : Option ℕ → Io Unit
  | none => pure ()
  | some fb => unref fb

def vopPlaneAtomicAsyncUpdate (mode : Mode) (st : PlaneState) (oldCrtc : Bool)
    (oldFb : Option ℕ) (i : ℕ) (win : VopWin) : Io Unit := do
  let vop ← load
  if !vop.isEnabled then return
  vopPlaneAtomicUpdate hdr data mode st oldCrtc i win
  vopCfgDone data
  unrefOld oldFb

/-- `vop_wait_for_irq_handler`, where at most `polls` more reads come before the deadline. -/
def vopWaitForIrqHandler : ℕ → Io Unit
  | 0 => do
    let _ ← vopGetIntrType data data.intr.status hdr.fsIntr
    return
  | polls + 1 => do
    let pending ← vopGetIntrType data data.intr.status hdr.fsIntr
    if pending = 0 then return
    vopWaitForIrqHandler polls

def postEvent : Option ℕ → Io Unit
  | none => pure ()
  | some event => flip (.post event)

/-- `fbs` are the old framebuffers of the planes that have another one now. -/
def vopCrtcAtomicFlush (polls : ℕ) (enableAfbc : Bool) (event : Option ℕ) (fbs : List ℕ) :
    Io Unit := do
  let vop ← load
  if !vop.isEnabled then return
  afbcSetEnable data enableAfbc
  vopCfgDone data
  regSet data.common.dmaStop 0
  vopWaitForIrqHandler hdr data polls
  postEvent event
  Prog.each unref fbs

def rockchipDrmWaitVactEnd (mstimeout : ℕ) : Io ℤ := do
  let vop ← load
  if !vop.isEnabled then return -enodev
  if mstimeout = 0 then return -einval
  let enabled ← vopLineFlagIrqIsEnabled hdr data
  if enabled then return -ebusy
  vopLineFlagIrqEnable hdr data
  let jiffiesLeft ← result
  vopLineFlagIrqDisable hdr data
  if jiffiesLeft = 0 then return -etimedout
  return 0

/-! ## The interrupt handler and the worker -/

def vopHandleVblank : Io Unit := do
  flip .send
  let pending ← Prog.ask (.flip .claim)
  if pending.val = 0 then return
  flip .commit

def clearActive (activeIrqs : Word) : Io Unit :=
  if activeIrqs = 0 then pure () else intrSetType data data.intr.clear activeIrqs 1

def frameStart (activeIrqs : Word) : Io Unit :=
  if activeIrqs &&& hdr.fsIntr = 0 then pure ()
  else do
    flip .vblank
    vopHandleVblank

/-- Whether an interrupt of the VOP has been handled. -/
def vopIsr : Io Bool := do
  let inUse ← Prog.ask .takeInUse
  if inUse.ret = 0 then return false
  let ret ← vopCoreClksEnable
  if ret ≠ 0 then
    drop .pm
    return false
  let activeIrqs ← vopGetIntrType data data.intr.status hdr.intrMask
  clearActive data activeIrqs
  frameStart hdr activeIrqs
  vopCoreClksDisable
  drop .pm
  return activeIrqs &&& (hdr.dspHoldValidIntr ||| hdr.lineFlagIntr ||| hdr.fsIntr) != 0

def vopFbUnrefWorker : Io Unit := flip .release

/-! ## From bind to unbind -/

/-- The enable bits of the windows, put together. -/
def enabledWins : List VopWin → Io Word
  | [] => return 0
  | win :: wins => do
    let bits ← vopReadReg win.base win.phy.enable
    let rest ← enabledWins wins
    return bits ||| rest

/-- The second half of a condition is read where the first one holds. -/
def readStandby (wins : Word) : Io Word :=
  if wins = 0 then pure 1 else vopReadReg 0 data.common.standby

def resetUnlessLoader (loaderActive : Bool) : Io Unit :=
  if loaderActive then pure ()
  else do
    let _ ← Prog.ask .reset
    return

/-- What the registers hold is copied into `regsbak`. -/
def snapshot (words : ℕ) : Io Unit :=
  Prog.each (fun i => do
    let v ← vopReadl (4 * i)
    store (.fill i v)) (List.range words)

def winsSetup (loaderActive : Bool) : Io Unit :=
  if loaderActive then pure ()
  else do
    Prog.each (fun x => do
      let channel := BitVec.ofNat 32 (x.2 * 2 + 1)
      winSet x.1 x.1.phy.channel (((channel + 1) <<< 4) ||| channel)
      vopWinDisable hdr x.2 x.1
      winSet x.1 x.1.phy.gate 1) data.win.zipIdx
    vopCfgDone data

/-- The clocks of a scanout that goes on stay on; the driver goes on where `dclk` fails. -/
def holdClocks (loaderActive : Bool) : Io Unit :=
  if loaderActive then do
    let ret ← take (.enable .dclk)
    if ret < 0 then note .dclkEnableFailed else pure ()
  else do
    drop (.enable .hclk)
    drop (.enable .aclk)

def clkDisableUnprepare (clk : Clk) : Io Unit := do
  drop (.enable clk)
  drop (.prepare clk)

def errPutPmRuntime (ret : ℤ) : Io ℤ := do
  drop .pm
  return ret

def errUnprepareDclk (ret : ℤ) : Io ℤ := do
  drop (.prepare .dclk)
  errPutPmRuntime ret

def errDisableHclk (ret : ℤ) : Io ℤ := do
  clkDisableUnprepare .hclk
  errUnprepareDclk ret

def errDisableAclk (ret : ℤ) : Io ℤ := do
  clkDisableUnprepare .aclk
  errDisableHclk ret

def clkPrepareEnable (clk : Clk) : Io ℤ := do
  let ret ← take (.prepare clk)
  if ret < 0 then return ret
  let ret ← take (.enable clk)
  if ret < 0 then
    drop (.prepare clk)
    return ret
  return 0

/-- The registers are set up, from the copy of what they hold to the reset of `dclk`. -/
def setup (words : ℕ) (loaderActive : Bool) : Io Unit := do
  intrSetType data data.intr.clear hdr.intrMask 1
  intrSetType data data.intr.enable hdr.intrMask 0
  store .snapshot
  snapshot words
  regSet data.globalRegdoneEn 1
  regSet data.common.dspBlank 0
  winsSetup hdr data loaderActive

def vopInitial (words : ℕ) : Io ℤ := do
  let ret ← result
  if ret < 0 then return ret
  let ret ← result
  if ret < 0 then return ret
  let ret ← result
  if ret < 0 then return ret
  let ret ← take .pm
  if ret < 0 then return ret
  let ret ← take (.prepare .dclk)
  if ret < 0 then errPutPmRuntime ret
  else
  let ret ← clkPrepareEnable .hclk
  if ret < 0 then errUnprepareDclk ret
  else
  let ret ← clkPrepareEnable .aclk
  if ret < 0 then errDisableHclk ret
  else
  let wins ← enabledWins data.win
  let standby ← readStandby data wins
  let loaderActive := wins != 0 && standby == 0
  store (.setLoader loaderActive)
  let ret ← result
  if ret < 0 then errDisableAclk ret
  else
  resetUnlessLoader loaderActive
  setup hdr data words loaderActive
  let ret ← result
  if ret < 0 then errDisableAclk ret
  else
  resetUnlessLoader loaderActive
  holdClocks loaderActive
  store (.setEnabled false)
  if loaderActive then return 0
  drop .pm
  return 0

def errDisablePmRuntime (ret : ℤ) : Io ℤ := do
  let _ ← Prog.ask (.runtimePm false)
  flip .destroy
  return ret

/-- A failure after `vop_initial`. -/
def abandon (ret : ℤ) : Io ℤ := do
  let vop ← load
  note (.abandoned vop.loaderActive)
  errDisablePmRuntime ret

def rgbInit : Io ℤ :=
  if data.internalRgb then result else return 0

def vopBind (words : ℕ) : Io ℤ := do
  let ret ← result
  if ret < 0 then return ret
  store .alloc
  -- the registers, `regsbak`, the interrupt and the CRTC
  let ret ← result
  if ret < 0 then return ret
  let ret ← result
  if ret < 0 then return ret
  let ret ← result
  if ret < 0 then return ret
  let ret ← result
  if ret ≠ 0 then return ret
  let _ ← Prog.ask (.runtimePm true)
  let ret ← vopInitial hdr data words
  if ret < 0 then errDisablePmRuntime ret
  else
  let ret ← result
  if ret ≠ 0 then abandon ret
  else
  let _ ← Prog.ask (.requestIrq true)
  let ret ← rgbInit data
  if ret < 0 then abandon ret
  else return 0

def vopUnbind : Io Unit := do
  let _ ← Prog.ask (.runtimePm false)
  flip .destroy
  let vop ← load
  note (.unbound vop.loaderActive)
  drop (.prepare .aclk)
  drop (.prepare .hclk)
  drop (.prepare .dclk)

end Vop
end WardenSdk
