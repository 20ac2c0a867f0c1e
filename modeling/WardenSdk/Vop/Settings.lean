import WardenSdk.Vop.Flips
import WardenSdk.Vop.Shadow

/-!
# The parts of the driver that set registers

`Keeps` is a part of the driver that, with power and clock, leaves the references and the flags
as they are and the registers in agreement with `regsbak`.  Everything that configures planes,
outputs, modes and interrupts is one.
-/

namespace WardenSdk
namespace Vop

open Lib

structure Keeps (steady : Steady) (words : ℕ) {α : Type} (p : Io α) : Prop where
  runs : ∀ {n : Ref → ℕ} {e l b : Bool}, Powered n →
    Runs steady (Core n e l b (Regs steady words none)) p
      fun _ => Core n e l b (Regs steady words none)
  pends : Pends steady p

variable {steady : Steady} {words : ℕ}

/-- Requests that write no register but with a mask keep the registers anyhow. -/
theorem keeps_of_idle {α : Type} {p : Io α} (h : p.Asks Request.idle) (hp : Pends steady p) :
    Keeps steady words p := ⟨fun hn => runs_idle h respects_regs hn, hp⟩

theorem keeps_pure {α : Type} (a : α) : Keeps steady words (pure a) :=
  ⟨fun _ => runs_pure respects_regs, pends_pure a⟩

theorem Keeps.bind {α β : Type} {p : Io α} {f : α → Io β} (hp : Keeps steady words p)
    (hf : ∀ a, Keeps steady words (f a)) : Keeps steady words (p >>= f) where
  runs hn := (hp.runs hn).bind fun a => (hf a).runs hn
  pends := hp.pends.bind fun a => (hf a).pends

theorem Keeps.ite {α : Type} {c : Prop} [Decidable c] {p q : Io α} (hp : Keeps steady words p)
    (hq : Keeps steady words q) : Keeps steady words (if c then p else q) where
  runs hn := .ite (fun _ => hp.runs hn) fun _ => hq.runs hn
  pends := hp.pends.ite hq.pends

/-- A loop keeps what its body keeps. -/
theorem keeps_each {β : Type} {f : β → Io Unit} (h : ∀ x, Keeps steady words (f x)) :
    ∀ xs : List β, Keeps steady words (Prog.each f xs)
  | [] => keeps_pure ()
  | x :: xs => (h x).bind fun _ => keeps_each h xs

theorem keeps_load : Keeps steady words load :=
  keeps_of_idle (idle_of_silent silent_load) pends_load

theorem keeps_result : Keeps steady words result :=
  keeps_of_idle (idle_of_silent silent_result) pends_result

/-- A framebuffer that is queued is nothing to the registers. -/
theorem keeps_unref (fb : ℕ) : Keeps steady words (unref fb) :=
  keeps_of_idle (idle_of_silent ((silent_flip _).bind fun _ => silent_flip _)) (pends_unref fb)

/-- The mask of the windows is no part of the agreement. -/
theorem keeps_setWin (i : ℕ) (on : Bool) : Keeps steady words (store (.setWin i on)) where
  runs _ := runs_store respects_regs respects_regs fun _ hs =>
    ⟨hs.holds, hs.enabled, hs.loader, hs.bound, hs.regs.recorded, hs.regs.mirrored, nofun⟩
  pends := pends_store _

/-- `vop_reg_set` writes with a mask, or puts the field into `regsbak` and writes that word. -/
theorem keeps_vopRegSet (reg : VopReg) (base : ℕ) (mask v : Word) :
    Keeps steady words (vopRegSet reg base mask v) where
  runs hn := runs_vopRegSet hn reg base mask v nofun
  pends := pends_vopRegSet reg base mask v

theorem keeps_regSet (reg : VopReg) (v : Word) : Keeps steady words (regSet reg v) :=
  keeps_vopRegSet reg 0 _ v

theorem keeps_winSet (win : VopWin) (reg : VopReg) (v : Word) :
    Keeps steady words (winSet win reg v) := keeps_vopRegSet reg win.base _ v

theorem keeps_intrSetType (data : VopData) (reg : VopReg) (type v : Word) :
    Keeps steady words (intrSetType data reg type v) := keeps_vopRegSet reg 0 _ _

/-- An interrupt status that is read changes nothing. -/
theorem keeps_vopGetIntrType (data : VopData) (reg : VopReg) (type : Word) :
    Keeps steady words (vopGetIntrType data reg type) :=
  keeps_of_idle (idle_vopGetIntrType ..) ((pends_vopReadReg 0 reg).bind fun _ => pends_pure _)

/-- A part that asks first whether the VOP is enabled. -/
theorem keeps_guarded {α : Type} {a : α} {rest : Memory → Io α}
    (h : ∀ m, Keeps steady words (rest m)) :
    Keeps steady words
      (load >>= fun vop => if (!vop.isEnabled) = true then pure a else rest vop) :=
  keeps_load.bind fun m => (keeps_pure a).ite (h m)

variable (hdr : Header) (data : VopData)

/-! ## Interrupts -/

/-- The clear bit is set before the enable bit. -/
theorem keeps_vopDspHoldValidIrqEnable :
    Keeps steady words (vopDspHoldValidIrqEnable hdr data) :=
  keeps_guarded fun _ => (keeps_intrSetType data ..).bind fun _ => keeps_intrSetType data ..

theorem keeps_vopDspHoldValidIrqDisable :
    Keeps steady words (vopDspHoldValidIrqDisable hdr data) :=
  keeps_guarded fun _ => keeps_intrSetType data ..

theorem keeps_vopLineFlagIrqEnable : Keeps steady words (vopLineFlagIrqEnable hdr data) :=
  keeps_guarded fun _ => (keeps_intrSetType data ..).bind fun _ => keeps_intrSetType data ..

theorem keeps_vopLineFlagIrqDisable : Keeps steady words (vopLineFlagIrqDisable hdr data) :=
  keeps_guarded fun _ => keeps_intrSetType data ..

/-- Where the VOP is not enabled the call fails with `-EPERM` and sets nothing. -/
theorem keeps_vopCrtcEnableVblank : Keeps steady words (vopCrtcEnableVblank hdr data) :=
  keeps_guarded fun _ => (keeps_intrSetType data ..).bind fun _ =>
    (keeps_intrSetType data ..).bind fun _ => keeps_pure _

theorem keeps_vopCrtcDisableVblank : Keeps steady words (vopCrtcDisableVblank hdr data) :=
  keeps_guarded fun _ => keeps_intrSetType data ..

/-- Whether somebody waits for vblanks is not known to the driver. -/
theorem keeps_drmCrtcVblankOn : Keeps steady words (drmCrtcVblankOn hdr data) :=
  keeps_result.bind fun _ => (keeps_pure ()).ite <|
    (keeps_vopCrtcEnableVblank hdr data).bind fun _ => keeps_pure ()

theorem keeps_drmCrtcVblankOff : Keeps steady words (drmCrtcVblankOff hdr data) :=
  keeps_result.bind fun _ => (keeps_pure ()).ite (keeps_vopCrtcDisableVblank hdr data)

/-! ## Planes -/

variable (win : VopWin)

/-- A window without a scaler has nothing to turn off. -/
theorem keeps_sclDisable : Keeps steady words (sclDisable hdr win) := by
  unfold sclDisable
  cases win.phy.scl with
  | none => exact keeps_pure ()
  | some ext =>
    exact (keeps_winSet ..).bind fun _ => (keeps_winSet ..).bind fun _ =>
      (keeps_winSet ..).bind fun _ => keeps_winSet ..

/-- The window is turned off and its bit in `win_enabled` cleared. -/
theorem keeps_vopWinDisable (i : ℕ) : Keeps steady words (vopWinDisable hdr i win) :=
  (keeps_sclDisable hdr win).bind fun _ => (keeps_winSet ..).bind fun _ => keeps_setWin ..

/-- A plane without an old CRTC is left alone. -/
theorem keeps_vopPlaneAtomicDisable (oldCrtc : Bool) (i : ℕ) :
    Keeps steady words (vopPlaneAtomicDisable hdr oldCrtc i win) :=
  (keeps_vopWinDisable hdr win i).ite (keeps_pure ())

variable (st : PlaneState)

/-- A compressed framebuffer is set up on a VOP that has AFBC. -/
theorem keeps_afbcUpdate (i : ℕ) : Keeps steady words (afbcUpdate hdr data st i) := by
  unfold afbcUpdate
  cases data.afbc with
  | none => exact keeps_pure ()
  | some afbc =>
    cases st.fb.afbc with
    | false => exact keeps_pure ()
    | true =>
      exact (keeps_regSet ..).bind fun _ => (keeps_regSet ..).bind fun _ =>
        (keeps_regSet ..).bind fun _ => (keeps_regSet ..).bind fun _ => keeps_regSet ..

theorem keeps_y2rUpdate : Keeps steady words (y2rUpdate st win) := by
  unfold y2rUpdate
  cases win.yuv2yuv with
  | none => exact keeps_pure ()
  | some yuv2yuv => exact keeps_regSet ..

/-- The coefficients are words of their own, written one after the other. -/
theorem keeps_y2rCoefficientsUpdate : Keeps steady words (y2rCoefficientsUpdate win) := by
  unfold y2rCoefficientsUpdate
  cases win.yuv2yuv with
  | none => exact keeps_pure ()
  | some yuv2yuv => exact keeps_each (fun _ => keeps_vopRegSet ..) _

/-- Only a YUV framebuffer has a second plane. -/
theorem keeps_uvUpdate : Keeps steady words (uvUpdate hdr st win) :=
  .ite ((keeps_winSet ..).bind fun _ => (keeps_winSet ..).bind fun _ =>
    (keeps_y2rCoefficientsUpdate win).bind fun _ => keeps_winSet ..) (keeps_pure ())

/-- Every plane but the first one blends with its alpha, where the format has one. -/
theorem keeps_alphaUpdate (i : ℕ) : Keeps steady words (alphaUpdate hdr st i win) :=
  .ite ((keeps_winSet ..).bind fun _ => (keeps_winSet ..).bind fun _ =>
      (keeps_winSet ..).bind fun _ => (keeps_winSet ..).bind fun _ => keeps_winSet ..)
    ((keeps_winSet ..).bind fun _ => keeps_winSet ..)

/-- **`vop_plane_atomic_update`** sets registers, and a plane that has become invisible is
disabled instead. -/
theorem keeps_vopPlaneAtomicUpdate (mode : Mode) (oldCrtc : Bool) (i : ℕ) :
    Keeps steady words (vopPlaneAtomicUpdate hdr data mode st oldCrtc i win) := by
  refine keeps_guarded fun _ => .ite (keeps_vopPlaneAtomicDisable hdr win oldCrtc i) ?_
  refine (keeps_afbcUpdate hdr data st i).bind fun _ => ?_
  -- the format and the address
  refine (keeps_winSet ..).bind fun _ => (keeps_winSet ..).bind fun _ => ?_
  refine (keeps_winSet ..).bind fun _ => (keeps_winSet ..).bind fun _ => ?_
  refine (keeps_y2rUpdate win st).bind fun _ => ?_
  refine (keeps_winSet ..).bind fun _ => (keeps_winSet ..).bind fun _ => ?_
  refine (keeps_uvUpdate hdr win st).bind fun _ => ?_
  refine (keeps_each (fun _ => keeps_winSet ..) _).bind fun _ => ?_
  -- the sizes and the place
  refine (keeps_winSet ..).bind fun _ => (keeps_winSet ..).bind fun _ => ?_
  refine (keeps_winSet ..).bind fun _ => (keeps_winSet ..).bind fun _ => ?_
  refine (keeps_alphaUpdate hdr win st i).bind fun _ => ?_
  exact (keeps_winSet ..).bind fun _ => keeps_setWin ..

/-! ## The CRTC -/

theorem keeps_afbcSetEnable (on : Bool) : Keeps steady words (afbcSetEnable data on) := by
  unfold afbcSetEnable
  cases data.afbc with
  | none => exact keeps_pure ()
  | some afbc => exact keeps_regSet ..

/-- Coming out of self refresh leaves the windows on. -/
theorem keeps_vopWinsDisable (oldSelfRefresh : Bool) :
    Keeps steady words (vopWinsDisable hdr data oldSelfRefresh) :=
  (keeps_pure ()).ite (keeps_each (fun x : VopWin × ℕ => keeps_vopWinDisable hdr x.1 x.2) _)

theorem keeps_rockchipDrmSetWinEnabled (enabled : Bool) :
    Keeps steady words (rockchipDrmSetWinEnabled data enabled) :=
  (keeps_each (fun _ => keeps_load.bind fun _ => keeps_winSet ..) _).bind fun _ =>
    keeps_regSet ..

/-- An event that is sent at once does not wait for a frame. -/
theorem pends_sendNow (event : Option ℕ) : Pends steady (sendNow event) := by
  cases event with
  | none => exact pends_pure ()
  | some event => exact pends_of_still (still_flip (.sendNow event) trivial)

theorem silent_sendNow (event : Option ℕ) : (sendNow event).Asks Request.silent := by
  cases event with
  | none => exact Prog.asks_pure ()
  | some event => exact silent_flip _

theorem keeps_portEnable (port : VopPort) (dclkPol pinPol : Word) :
    Keeps steady words (portEnable port dclkPol pinPol) :=
  (keeps_regSet ..).bind fun _ => (keeps_regSet ..).bind fun _ => keeps_regSet ..

variable (crtc : CrtcState)

/-- Each kind of output has its own pins and its own enable bit. -/
theorem keeps_outputEnable : Keeps steady words (outputEnable hdr data crtc) := by
  unfold outputEnable
  cases crtc.outputType with
  | lvds | edp | hdmia | displayPort => exact keeps_portEnable ..
  | dsi => exact (keeps_portEnable ..).bind fun _ => keeps_regSet ..
  | other => exact keeps_pure ()

theorem keeps_ditherSet : Keeps steady words (ditherSet hdr data crtc) :=
  .ite ((keeps_regSet ..).bind fun _ => (keeps_regSet ..).bind fun _ => keeps_regSet ..)
    (keeps_regSet ..)

/-- The timings of the mode. -/
theorem keeps_modeSet (mode : Mode) : Keeps steady words (modeSet data mode) := by
  refine (keeps_regSet ..).bind fun _ => (keeps_regSet ..).bind fun _ => ?_
  refine (keeps_regSet ..).bind fun _ => (keeps_regSet ..).bind fun _ => ?_
  exact (keeps_regSet ..).bind fun _ => (keeps_regSet ..).bind fun _ => keeps_regSet ..

/-! ## Commits -/

theorem keeps_unrefOld (fb : Option ℕ) : Keeps steady words (unrefOld fb) := by
  cases fb with
  | none => exact keeps_pure ()
  | some fb => exact keeps_unref fb

/-- The old framebuffer is let go of after the new one has been set. -/
theorem keeps_vopPlaneAtomicAsyncUpdate (mode : Mode) (oldCrtc : Bool) (oldFb : Option ℕ) (i : ℕ) :
    Keeps steady words (vopPlaneAtomicAsyncUpdate hdr data mode st oldCrtc oldFb i win) :=
  keeps_guarded fun _ => (keeps_vopPlaneAtomicUpdate hdr data win st mode oldCrtc i).bind fun _ =>
    (keeps_regSet ..).bind fun _ => keeps_unrefOld oldFb

/-- However often the status is polled. -/
theorem keeps_vopWaitForIrqHandler (polls : ℕ) :
    Keeps steady words (vopWaitForIrqHandler hdr data polls) := by
  induction polls with
  | zero => exact (keeps_vopGetIntrType data ..).bind fun _ => keeps_pure ()
  | succ polls ih => exact (keeps_vopGetIntrType data ..).bind fun _ => (keeps_pure ()).ite ih

theorem keeps_postEvent (event : Option ℕ) : Keeps steady words (postEvent event) := by
  cases event with
  | none => exact keeps_pure ()
  | some event =>
    exact keeps_of_idle (idle_of_silent (silent_flip _))
      (pends_of_still (still_flip (.post event) trivial))

/-- **`vop_crtc_atomic_flush`** commits the settings, and hands over the event and the old
framebuffers. -/
theorem keeps_vopCrtcAtomicFlush (polls : ℕ) (enableAfbc : Bool) (event : Option ℕ)
    (fbs : List ℕ) :
    Keeps steady words (vopCrtcAtomicFlush hdr data polls enableAfbc event fbs) := by
  refine keeps_guarded fun _ => (keeps_afbcSetEnable data enableAfbc).bind fun _ => ?_
  refine (keeps_regSet ..).bind fun _ => (keeps_regSet ..).bind fun _ => ?_
  refine (keeps_vopWaitForIrqHandler hdr data polls).bind fun _ => ?_
  exact (keeps_postEvent event).bind fun _ => keeps_each keeps_unref fbs

/-- The line flag interrupt is turned off again, whether it came in time or not. -/
theorem keeps_rockchipDrmWaitVactEnd (mstimeout : ℕ) :
    Keeps steady words (rockchipDrmWaitVactEnd hdr data mstimeout) := by
  refine keeps_guarded fun _ => (keeps_pure _).ite ?_
  refine ((keeps_vopGetIntrType data ..).bind fun _ => keeps_pure _).bind fun _ =>
    (keeps_pure _).ite ?_
  refine (keeps_vopLineFlagIrqEnable hdr data).bind fun _ => keeps_result.bind fun _ => ?_
  exact (keeps_vopLineFlagIrqDisable hdr data).bind fun _ => (keeps_pure _).ite (keeps_pure _)

/-- What `vop_crtc_atomic_enable` sets once the VOP is enabled. -/
theorem keeps_crtcSet : Keeps steady words (do
    regSet data.output.pinPol (pinPol hdr crtc.mode)
    regSet data.output.mipiDualChannelEn 0
    outputEnable hdr data crtc
    regSet data.common.preDitherDown
      (bit (outputMode hdr data crtc == hdr.outModeAaaa && decide (ditherBpc crtc ≤ 8)))
    ditherSet hdr data crtc
    regSet data.common.outMode (outputMode hdr data crtc)
    modeSet data crtc.mode
    regSet data.common.standby 0) := by
  refine (keeps_regSet ..).bind fun _ => (keeps_regSet ..).bind fun _ => ?_
  refine (keeps_outputEnable hdr data crtc).bind fun _ => (keeps_regSet ..).bind fun _ => ?_
  refine (keeps_ditherSet hdr data crtc).bind fun _ => (keeps_regSet ..).bind fun _ => ?_
  exact (keeps_modeSet data crtc.mode).bind fun _ => keeps_regSet ..

end Vop
end WardenSdk
