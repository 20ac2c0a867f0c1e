import WardenSdk.Vop.Calls

/-!
# What the display driver never does

In every regular run, whatever the kernel calls, the handler and the worker do side by side:
no register is touched without power and clock, and no reference is dropped that is not held.
When the calls have come back, the driver holds what it will drop, and beside it only what is
lost for good; a register holds what has been set last, also after the power was off; and while
the bootloader's scanout goes on, the registers are as the bootloader has left them.
-/

namespace WardenSdk
namespace Vop

open Lib

variable (boot : Boot)

/-- What a part of the driver has reached when it is done. -/
def Reached : Who → Chip → Prop
  | .ops => fun s => ∃ fw, Settled boot.steady boot.words boot.data fw s
  | .irq => Handles fun _ => 0
  | .worker => fun _ => True

variable {boot}

theorem stable_reached : (chipParty boot.steady .ops).Stable (Reached boot .ops) :=
  fun hst ⟨fw, hs⟩ => ⟨fw, stable_settled hst hs⟩

theorem runs_serveAll (hintr : boot.data.intr.Masked) (calls : List Call) (fw : Framework) :
    Runs boot.steady (Settled boot.steady boot.words boot.data fw) (boot.serveAll fw calls)
      fun _ => Reached boot .ops := by
  induction calls generalizing fw with
  | nil =>
    exact (Prog.meetsWhile_pure (R := fun _ => Reached boot .ops) stable_reached).pre
      fun s hs => ⟨fw, hs⟩
  | cons call calls ih =>
    exact .ite (fun hallowed => (runs_serve boot hintr call hallowed).bind ih) fun _ => ih fw

/-- The handler, each time that an interrupt comes in. -/
theorem meets_irq (hintr : boot.data.intr.Masked) : boot.irq.MeetsWhile
    (answer boot.steady .irq) (chipParty boot.steady .irq) Regular (Handles fun _ => 0)
      fun _ => Reached boot .irq := by
  have hend : (pure () : Io Unit).MeetsWhile (answer boot.steady .irq)
      (chipParty boot.steady .irq) Regular (Handles fun _ => 0) fun _ => Handles fun _ => 0 :=
    Prog.meetsWhile_pure (R := fun _ => Handles fun _ => 0) (stable_handles _)
  refine Prog.meetsWhile_each (k := 0) (P := fun _ => Handles fun _ => 0)
    (fun _ => stable_handles _) fun _ _ _ => ?_
  refine (meets_silent_irq (Prog.asks_ask (q := Request.raised) trivial) _).bind fun raised =>
    .ite (fun _ => hend) fun _ => ?_
  exact (meets_vopIsr hintr).bind fun _ => hend

theorem meets_worker : boot.worker.MeetsWhile (answer boot.steady .worker)
    (chipParty boot.steady .worker) Regular (fun _ => True) fun _ => Reached boot .worker := by
  have hasks : boot.worker.Asks Request.silent :=
    Prog.asks_each (fun _ => silent_flip .release) _
  refine hasks.meetsWhile (regular_latch boot.steady .worker) (fun _ _ => trivial)
    fun q hq s o _ _ => ?_
  obtain ⟨hbeside, hheld, hbad⟩ := silent_step boot.steady hq .worker s o
  exact ⟨⟨hbeside, congrFun hheld .irq, fun h => hbad.trans h⟩, trivial⟩

/-- Nothing that must not happen has happened yet. -/
def Clean (s : Chip) : Prop := Regular s → s.bad = false

/-- **Every interleaving** keeps the run clean, and every part of the driver safe. -/
theorem run_clean (hintr : boot.data.intr.Masked) (schedule : List (ℕ × Outcome)) :
    (boot.run schedule).Sound Clean
      (Task.Safe (answer boot.steady) (fun k => (chipParty boot.steady k).upTo Regular)
        fun k s => Regular s → Reached boot k s)
      (Task.Agree fun k => (chipParty boot.steady k).upTo Regular) := by
  refine run_sound (fun k s t hs hg ht => ?_) ⟨fun _ => rfl, ?_, ?_⟩ schedule
  · obtain ⟨hregular, hg⟩ := hg ht
    cases k with
    | ops => exact hg.2 (hs hregular)
    | irq => exact hg.2 (hs hregular)
    | worker => exact hg.2.2 (hs hregular)
  · have hunbound : Settled boot.steady boot.words boot.data ⟨false, .off⟩ boot.start.shared :=
      ⟨.unbound, ⟨rfl, fun _ => nofun, fun _ => rfl⟩, fun _ => rfl, rfl, rfl, rfl, trivial⟩
    have hidle : Handles (fun _ => 0) boot.start.shared := fun _ => rfl
    simp only [Boot.start, List.forall_mem_cons, List.not_mem_nil, false_implies, implies_true,
      and_true]
    exact ⟨runs_serveAll hintr boot.calls ⟨false, .off⟩ _ fun _ => hunbound,
      meets_irq hintr _ fun _ => hidle, meets_worker _ fun _ => trivial⟩
  · have hagree {k k' : Who} (h : k ≠ k') : ((chipParty boot.steady k).upTo Regular).Agree
        ((chipParty boot.steady k').upTo Regular) := (chipParty_agree h).upTo Regular
    simp only [Boot.start, List.pairwise_cons, List.forall_mem_cons, List.not_mem_nil,
      false_implies, implies_true, and_true, List.Pairwise.nil]
    exact ⟨⟨hagree (show Who.ops ≠ .irq by decide), hagree (show Who.ops ≠ .worker by decide)⟩,
      hagree (show Who.irq ≠ .worker by decide)⟩

variable (boot) in
/-- A part of the driver is done. -/
def Boot.Finished (who : Who) (schedule : List (ℕ × Outcome)) : Prop :=
  ∃ t ∈ (boot.run schedule).threads, t.who = who ∧ t.prog.isDone = true

instance (who : Who) (schedule : List (ℕ × Outcome)) : Decidable (boot.Finished who schedule) :=
  List.decidableBEx _ _

theorem reached_of_finished (hintr : boot.data.intr.Masked) {schedule : List (ℕ × Outcome)}
    (hregular : Regular (boot.run schedule).shared) {who : Who}
    (hfinished : boot.Finished who schedule) : Reached boot who (boot.run schedule).shared := by
  obtain ⟨t, ht, rfl, hdone⟩ := hfinished
  exact ((run_clean hintr schedule).each t ht).of_done (Prog.eq_done_of_isDone hdone) hregular

/-! ## A board -/

/-- A register that is not there. -/
def noReg : VopReg := ⟨0, 0, 0, false⟩

/-- A field of a word that holds what is written. -/
def plainReg (offset shift : ℕ) (mask : Word) : VopReg := ⟨offset, shift, mask, false⟩

/-- A word that is written with a mask. -/
def maskReg (offset : ℕ) : VopReg := ⟨offset, 0, 0xffff, true⟩

def panelWin : VopWin where
  base := 0
  phy :=
    { enable := plainReg 0x10 0 1, format := plainReg 0x10 1 0x7, fmt10 := noReg
      yrgbVir := plainReg 0x14 0 0x1fff, yrgbMst := plainReg 0x18 0 0xffffffff, yMirEn := noReg
      xMirEn := noReg, uvVir := noReg, uvMst := noReg, uvSwap := noReg
      actInfo := plainReg 0x1c 0 0x0fff0fff, dspInfo := noReg, dspSt := noReg, rbSwap := noReg
      dstAlphaCtl := noReg, srcAlphaCtl := noReg, alphaPreMul := noReg, alphaMode := noReg
      alphaEn := noReg, channel := noReg, gate := noReg, scl := none }
  yuv2yuv := none

/-- A VOP with one window and an RGB output. -/
def panelData : VopData where
  major := 2
  outputRgb10 := false
  internalRgb := true
  common :=
    { cfgDone := plainReg 0x00 0 1, standby := plainReg 0x08 22 1
      dspBlank := plainReg 0x08 14 1, preDitherDown := noReg, ditherDownSel := noReg
      ditherDownMode := noReg, ditherDownEn := noReg, outMode := plainReg 0x08 18 0xf
      dmaStop := noReg }
  globalRegdoneEn := plainReg 0x00 13 1
  modeset := ⟨noReg, noReg, noReg, noReg, noReg, noReg⟩
  output :=
    { pinPol := noReg, mipiDualChannelEn := noReg
      rgb := ⟨plainReg 0x08 1 1, plainReg 0x08 2 0x7, plainReg 0x08 0 1⟩
      edp := ⟨noReg, noReg, noReg⟩, hdmi := ⟨noReg, noReg, noReg⟩
      mipi := ⟨noReg, noReg, noReg⟩, dp := ⟨noReg, noReg, noReg⟩ }
  intr := ⟨[0x1, 0x2, 0x4], noReg, maskReg 0x20, maskReg 0x24, maskReg 0x28⟩
  win := [panelWin]
  afbc := none

theorem panelData_masked : panelData.intr.Masked := ⟨.inr rfl, .inr rfl⟩

def panelHeader : Header where
  intrMask := 0x7
  dspHoldValidIntr := 0x1
  lineFlagIntr := 0x4
  fsIntr := 0x2
  scaleNone := 0
  vopFmt _ := 0
  hsyncPositive := 0
  vsyncPositive := 1
  outModeAaaa := 15
  outModeP888 := 0
  ditherDownAllegro := 0
  rgb888ToRgb666 := 0
  dstFactorInverse := 0
  srcAlphaOn := 0
  srcAlphaOff := 0
  alphaSrcPreMul := 0
  alphaPerPix := 0
  minPitch _ _ _ := 0
  sclFac _ _ _ _ _ _ := []

def panelMode : Mode := ⟨720, 740, 760, 800, 720, 740, 760, 800, false, false⟩

/-- The bootloader shows a picture at `0x0f900000`. -/
def panelBoot (calls : List Call) : Boot where
  hdr := panelHeader
  data := panelData
  words := 12
  steady k := decide (k < 8)
  polls := 0
  regs k := if k = 4 then 1 else if k = 6 then 0x0f900000 else 0
  calls := calls
  irqs := 1
  works := 1

/-- Everything succeeds, and the registers keep what they hold. -/
def fine : Outcome := ⟨0, 0, (panelBoot []).regs⟩

/-- An interrupt comes in at the start of a frame. -/
def frame : Outcome := ⟨1, 0x2, (panelBoot []).regs⟩

def panelEnable : Call := .enable ⟨panelMode, .lvds, 0, 6, false, false⟩

/-! ## References -/

/-- The references that the driver will drop. -/
def needed (s : Chip) : Ref → ℕ
  | .prepare _ => s.bound.toNat
  | _ => (s.memory.isEnabled || s.memory.loaderActive).toNat

theorem needed_of_at {steady : Steady} {words : ℕ} {data : VopData} {φ : Phase} {s : Chip}
    (hs : At steady words data φ φ.isBound s) (ref : Ref) : needed s ref = φ.need ref := by
  cases ref with
  | prepare clk =>
    simp only [needed, hs.bound]
    cases φ <;> rfl
  | pm | enable clk =>
    simp only [needed, hs.enabled, hs.loader]
    cases φ <;> rfl

/-- **References balance**: none is dropped that is not held, and no register is touched
without power and clock; the handler ends with none, and the calls with the ones that the
driver will drop.  What is held beside these is lost for good: everything that `vop_initial`
has taken, where `vop_bind` fails after it, and power and clocks, where the driver is unbound
while a scanout of the bootloader goes on. -/
theorem references_balance (boot : Boot) (hintr : boot.data.intr.Masked)
    (schedule : List (ℕ × Outcome)) (hregular : Regular (boot.run schedule).shared) :
    (boot.run schedule).shared.bad = false ∧
      (boot.Finished .irq schedule → ∀ ref, (boot.run schedule).shared.held .irq ref = 0) ∧
      (boot.Finished .ops schedule → ∀ ref, (boot.run schedule).shared.held .ops ref =
        needed (boot.run schedule).shared ref + lost (boot.run schedule).shared.log ref) := by
  refine ⟨(run_clean hintr schedule).shared hregular, reached_of_finished hintr hregular,
    fun hfinished ref => ?_⟩
  obtain ⟨fw, φ, -, hs⟩ := reached_of_finished hintr hregular hfinished
  rw [needed_of_at hs, hs.holds]

/-- The panel is taken over, enabled, interrupted by a frame, disabled and unbound. -/
theorem references_balance_panel :
    let boot := panelBoot [.bind, panelEnable, .disable false none, .unbind]
    let schedule := List.replicate 190 (0, fine) ++ List.replicate 30 (1, frame) ++
      List.replicate 80 (0, fine)
    (boot.run schedule).shared.bad = false ∧
      (boot.Finished .irq schedule → ∀ ref, (boot.run schedule).shared.held .irq ref = 0) ∧
      (boot.Finished .ops schedule → ∀ ref, (boot.run schedule).shared.held .ops ref =
        needed (boot.run schedule).shared ref + lost (boot.run schedule).shared.log ref) :=
  references_balance (panelBoot [.bind, panelEnable, .disable false none, .unbind]) panelData_masked
    (List.replicate 190 (0, fine) ++ List.replicate 30 (1, frame) ++ List.replicate 80 (0, fine))
    (by decide +kernel)

/-- A driver that is unbound while the bootloader's scanout goes on keeps the power. -/
example : ((panelBoot [.bind, .unbind]).run (List.replicate 120 (0, fine))).shared.held .ops .pm =
    1 := by
  decide +kernel

/-- The display core disables a CRTC also where enabling it has failed, and the driver does not
ask: such a run is not regular. -/
example :
    let boot : Boot :=
      { panelBoot [.bind, panelEnable, .disable false none] with regs := fun _ => 0 }
    (boot.run (List.replicate 67 (0, ⟨0, 0, fun _ => 0⟩) ++ [(0, ⟨-1, 0, fun _ => 0⟩)] ++
      List.replicate 80 (0, ⟨0, 0, fun _ => 0⟩))).shared.bad = true := by
  decide +kernel

/-! ## Registers -/

end Vop
end WardenSdk
