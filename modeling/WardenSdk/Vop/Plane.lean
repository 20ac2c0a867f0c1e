import WardenSdk.Vop.Registers

/-!
# The planes of the display driver

What a plane update writes into the registers of its window, and how a window is disabled.

`Header` holds what the driver takes from the headers of the kernel and of the VOP.
-/

namespace WardenSdk
namespace Vop

open Lib

inductive Format where
  | xrgb8888
  | argb8888
  | xbgr8888
  | abgr8888
  | rgb888
  | bgr888
  | rgb565
  | bgr565
  | nv12
  | nv15
  | nv21
  | nv16
  | nv20
  | nv61
  | nv24
  | nv30
  | nv42
  | other
  deriving DecidableEq

/-- `enum vop_data_format`. -/
inductive VopDataFormat where
  | argb8888
  | rgb888
  | rgb565
  | yuv420sp
  | yuv422sp
  | yuv444sp
  deriving DecidableEq

/-- `struct drm_format_info`, with the entries of its tables for each color plane. -/
structure FormatInfo where
  format : Format
  isYuv : Bool
  hasAlpha : Bool
  hsub : Word
  vsub : Word
  cpp : ℕ → Word
  charPerBlock : ℕ → Word

structure Framebuffer where
  info : FormatInfo
  /-- The modifier is `ROCKCHIP_AFBC_MOD`. -/
  afbc : Bool
  pitches : ℕ → Word
  offsets : ℕ → Word
  dmaAddr : ℕ → Word

structure Rect where
  x1 : Word
  y1 : Word
  x2 : Word
  y2 : Word

def Rect.width (r : Rect) : Word := r.x2 - r.x1

def Rect.height (r : Rect) : Word := r.y2 - r.y1

/-- `struct drm_display_mode`. -/
structure Mode where
  hdisplay : BitVec 16
  hsyncStart : BitVec 16
  hsyncEnd : BitVec 16
  htotal : BitVec 16
  vdisplay : BitVec 16
  vsyncStart : BitVec 16
  vsyncEnd : BitVec 16
  vtotal : BitVec 16
  phsync : Bool
  pvsync : Bool

/-- The new state of a plane. -/
structure PlaneState where
  visible : Bool
  src : Rect
  dst : Rect
  reflectX : Bool
  reflectY : Bool
  fb : Framebuffer

/-- What comes from other parts of the kernel. -/
structure Header where
  intrMask : Word
  dspHoldValidIntr : Word
  lineFlagIntr : Word
  fsIntr : Word
  scaleNone : Word
  vopFmt : VopDataFormat → Word
  hsyncPositive : ℕ
  vsyncPositive : ℕ
  outModeAaaa : Word
  outModeP888 : Word
  ditherDownAllegro : Word
  rgb888ToRgb666 : Word
  /-- `DST_FACTOR_M0(ALPHA_SRC_INVERSE)`. -/
  dstFactorInverse : Word
  /-- The alpha control of a window that is blended over others, and of one that is not. -/
  srcAlphaOn : Word
  srcAlphaOff : Word
  alphaSrcPreMul : Word
  alphaPerPix : Word
  /-- `drm_format_info_min_pitch`. -/
  minPitch : FormatInfo → ℕ → Word → Word
  /-- What `scl_vop_cal_scl_fac` sets, from the sizes of the source and of the destination. -/
  sclFac : VopWin → Word → Word → Word → Word → FormatInfo → List (VopReg × Word)

def bt601Yuv2rgb : List Word :=
  [0x4A8, 0x0, 0x662, 0x4A8, 0x1E6F, 0x1CBF, 0x4A8, 0x812, 0x0, 0x321168, 0x0877CF, 0x2EB127]

def einval : ℤ := 22

def bit (b : Bool) : Word := if b then 1 else 0

def hasRbSwapped (major : ℕ) : Format → Bool
  | .xbgr8888 | .abgr8888 | .bgr565 => true
  | .rgb888 => major == 3
  | .bgr888 => major != 3
  | _ => false

def hasUvSwapped : Format → Bool
  | .nv21 | .nv61 | .nv42 => true
  | _ => false

def isFmt10 : Format → Bool
  | .nv15 | .nv20 | .nv30 => true
  | _ => false

def vopConvertFormat : Format → Option VopDataFormat
  | .xrgb8888 | .argb8888 | .xbgr8888 | .abgr8888 => some .argb8888
  | .rgb888 | .bgr888 => some .rgb888
  | .rgb565 | .bgr565 => some .rgb565
  | .nv12 | .nv15 | .nv21 => some .yuv420sp
  | .nv16 | .nv20 | .nv61 => some .yuv422sp
  | .nv24 | .nv30 | .nv42 => some .yuv444sp
  | .other => none

def vopConvertAfbcFormat : Format → Option Word
  | .xrgb8888 | .argb8888 | .xbgr8888 | .abgr8888 => some 0x5
  | .rgb888 | .bgr888 => some 0x4
  | .rgb565 | .bgr565 => some 0x0
  | _ => none

def afbcTile16x16 : Word := 0x10

/-- The offset of the first pixel of a color plane in its line. -/
def lineOffset (hdr : Header) (st : PlaneState) (k : ℕ) : Word :=
  if st.fb.info.charPerBlock k ≠ 0 then hdr.minPitch st.fb.info k (st.src.x1.sshiftRight 16)
  else st.src.x1.sshiftRight 16 * st.fb.info.cpp k

section

variable (hdr : Header) (data : VopData)

/-- The scaler of a window is turned off, where it is an extended one. -/
def sclDisable (win : VopWin) : Io Unit :=
  match win.phy.scl with
  | none => pure ()
  | some ext => do
    winSet win ext.yrgbHorSclMode hdr.scaleNone
    winSet win ext.yrgbVerSclMode hdr.scaleNone
    winSet win ext.cbcrHorSclMode hdr.scaleNone
    winSet win ext.cbcrVerSclMode hdr.scaleNone

def vopWinDisable (i : ℕ) (win : VopWin) : Io Unit := do
  sclDisable hdr win
  winSet win win.phy.enable 0
  store (.setWin i false)

def vopPlaneAtomicDisable (oldCrtc : Bool) (i : ℕ) (win : VopWin) : Io Unit :=
  if oldCrtc then vopWinDisable hdr i win else pure ()

def actualW (st : PlaneState) : Word := st.src.width.sshiftRight 16

def actualH (st : PlaneState) : Word := st.src.height.sshiftRight 16

def actInfo (st : PlaneState) : Word :=
  ((actualH st - 1) <<< 16) ||| ((actualW st - 1) &&& 0xffff)

def dspInfo (st : PlaneState) : Word :=
  ((st.dst.height - 1) <<< 16) ||| ((st.dst.width - 1) &&& 0xffff)

def dspSt (mode : Mode) (st : PlaneState) : Word :=
  ((st.dst.y1 + mode.vtotal.setWidth 32 - mode.vsyncStart.setWidth 32) <<< 16) |||
    ((st.dst.x1 + mode.htotal.setWidth 32 - mode.hsyncStart.setWidth 32) &&& 0xffff)

/-- The address of the first pixel that is shown, or of its line's place in the last line
where the plane is mirrored. -/
def yrgbAddr (st : PlaneState) : Word :=
  let offset := lineOffset hdr st 0 + st.src.y1.sshiftRight 16 * st.fb.pitches 0
  let dmaAddr := st.fb.dmaAddr 0 + offset + st.fb.offsets 0
  if st.reflectY then dmaAddr + (actualH st - 1) * st.fb.pitches 0 else dmaAddr

def uvAddr (st : PlaneState) : Word :=
  let offset := lineOffset hdr st 1 / st.fb.info.hsub +
    st.src.y1.sshiftRight 16 * st.fb.pitches 1 / st.fb.info.vsub
  st.fb.dmaAddr 1 + offset + st.fb.offsets 1

/-- The format code, or the error as the driver would write it. -/
def formatWord (format : Format) : Word :=
  match vopConvertFormat format with
  | some code => hdr.vopFmt code
  | none => BitVec.ofInt 32 (-einval)

/-! The parts of `vop_plane_atomic_update` that depend on the format. -/

def afbcUpdate (st : PlaneState) (i : ℕ) : Io Unit :=
  match data.afbc, st.fb.afbc with
  | some afbc, true => do
    let format := (vopConvertAfbcFormat st.fb.info.format).getD (BitVec.ofInt 32 (-einval))
    regSet afbc.format (format ||| afbcTile16x16)
    regSet afbc.hregBlockSplit 0
    regSet afbc.winSel (BitVec.ofNat 32 i)
    regSet afbc.hdrPtr (yrgbAddr hdr st)
    regSet afbc.picSize (actInfo st)
  | _, _ => pure ()

def y2rUpdate (st : PlaneState) (win : VopWin) : Io Unit :=
  match win.yuv2yuv with
  | none => pure ()
  | some yuv2yuv => regSet yuv2yuv.y2rEn (bit st.fb.info.isYuv)

def y2rCoefficientsUpdate (win : VopWin) : Io Unit :=
  match win.yuv2yuv with
  | none => pure ()
  | some yuv2yuv =>
    Prog.each (fun x => vopRegSet x.1 yuv2yuv.base (BitVec.allOnes 32) x.2)
      (yuv2yuv.y2rCoefficients.zip bt601Yuv2rgb)

def uvUpdate (st : PlaneState) (win : VopWin) : Io Unit :=
  if st.fb.info.isYuv then do
    winSet win win.phy.uvVir ((st.fb.pitches 1 + 3) / 4)
    winSet win win.phy.uvMst (uvAddr hdr st)
    y2rCoefficientsUpdate win
    winSet win win.phy.uvSwap (bit (hasUvSwapped st.fb.info.format))
  else pure ()

def alphaUpdate (st : PlaneState) (i : ℕ) (win : VopWin) : Io Unit :=
  if st.fb.info.hasAlpha ∧ 0 < i then do
    winSet win win.phy.dstAlphaCtl hdr.dstFactorInverse
    winSet win win.phy.srcAlphaCtl hdr.srcAlphaOn
    winSet win win.phy.alphaPreMul hdr.alphaSrcPreMul
    winSet win win.phy.alphaMode hdr.alphaPerPix
    winSet win win.phy.alphaEn 1
  else do
    winSet win win.phy.srcAlphaCtl hdr.srcAlphaOff
    winSet win win.phy.alphaEn 0

def vopPlaneAtomicUpdate (mode : Mode) (st : PlaneState) (oldCrtc : Bool) (i : ℕ)
    (win : VopWin) : Io Unit := do
  let vop ← load
  if !vop.isEnabled then return
  if !st.visible then vopPlaneAtomicDisable hdr oldCrtc i win
  else do
    afbcUpdate hdr data st i
    winSet win win.phy.format (formatWord hdr st.fb.info.format)
    winSet win win.phy.fmt10 (bit (isFmt10 st.fb.info.format))
    winSet win win.phy.yrgbVir ((st.fb.pitches 0 + 3) / 4)
    winSet win win.phy.yrgbMst (yrgbAddr hdr st)
    y2rUpdate st win
    winSet win win.phy.yMirEn (bit st.reflectY)
    winSet win win.phy.xMirEn (bit st.reflectX)
    uvUpdate hdr st win
    Prog.each (fun x => winSet win x.1 x.2)
      (hdr.sclFac win (actualW st) (actualH st) st.dst.width st.dst.height st.fb.info)
    winSet win win.phy.actInfo (actInfo st)
    winSet win win.phy.dspInfo (dspInfo st)
    winSet win win.phy.dspSt (dspSt mode st)
    winSet win win.phy.rbSwap (bit (hasRbSwapped data.major st.fb.info.format))
    alphaUpdate hdr st i win
    winSet win win.phy.enable 1
    store (.setWin i true)

end

end Vop
end WardenSdk
