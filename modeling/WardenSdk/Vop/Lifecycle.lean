import WardenSdk.Vop.Settings

/-!
# The display driver from call to call

Between two calls the driver is not bound, or it idles, goes on with the bootloader's scanout,
or is enabled.  Each of these says which references are held, what the flags of its memory are
and what is known of the registers; every call leads from one of them to another.
-/

namespace WardenSdk
namespace Vop

open Lib

inductive Phase where
  | unbound
  | idle
  /-- The bootloader's scanout goes on. -/
  | loader
  | enabled
  deriving DecidableEq

/-- The two registers that are set while the bootloader's scanout goes on. -/
def takeoverCells (data : VopData) : List (Cell 32) :=
  [data.globalRegdoneEn.cell 0 (BitVec.allOnes 32),
    data.common.dspBlank.cell 0 (BitVec.allOnes 32)]

namespace Phase

def isBound : Phase → Bool
  | .unbound => false
  | _ => true

def isLoader : Phase → Bool
  | .loader => true
  | _ => false

def isEnabled : Phase → Bool
  | .enabled => true
  | _ => false

/-- The references that will be dropped. -/
def need : Phase → Ref → ℕ
  | .unbound, _ => 0
  | .idle, .prepare _ => 1
  | .idle, _ => 0
  | .loader, _ | .enabled, _ => 1

def regs (steady : Steady) (words : ℕ) (data : VopData) : Phase → Chip → Prop
  | .unbound => fun _ => True
  | .idle => Recorded steady words
  | .loader => Regs steady words (some (takeoverCells data))
  | .enabled => Regs steady words none

end Phase

/-- The driver is in a phase. -/
def At (steady : Steady) (words : ℕ) (data : VopData) (φ : Phase) (b : Bool) : Chip → Prop :=
  Core φ.need φ.isEnabled φ.isLoader b (φ.regs steady words data)

variable {steady : Steady} {words : ℕ} {hdr : Header} {data : VopData} {φ : Phase}
  {n n' : Ref → ℕ} {e l b : Bool} {R R' : Chip → Prop}

theorem respects_phase : Respects steady (φ.regs steady words data) := by
  cases φ with
  | unbound => exact respects_true
  | idle => exact respects_recorded
  | loader | enabled => exact respects_regs

theorem stable_at : (chipParty steady .ops).Stable (At steady words data φ b) :=
  stable_core respects_phase

theorem Core.weaken {s : Chip} (h : Core n e l b R s) (hR : ∀ s, R s → R' s) :
    Core n e l b R' s := ⟨h.holds, h.enabled, h.loader, h.bound, hR s h.regs⟩

theorem Core.recount {s : Chip} (h : Core n e l b R s) (hn : n = n') : Core n' e l b R s := hn ▸ h

/-- An assertion under which the power may come on. -/
def Forgets (R : Chip → Prop) : Prop := ∀ s regs, R s → R (s.lose regs)

theorem forgets_recorded : Forgets (Recorded steady words) := fun _ _ h => h

theorem forgets_fresh : Forgets (Fresh steady words) := fun s regs _ => fresh_lose s regs

/-! ## The clocks of a scanout -/

theorem runs_vopCoreClksEnable (hR : Respects steady R) : Runs steady (Core n e l b R)
    vopCoreClksEnable
    fun ret => Either ret (Core n e l b R) (Core (withCoreClks n) e l b R) := by
  have hstable (n : Ref → ℕ) : (chipParty steady .ops).Stable (Core n e l b R) := stable_core hR
  exact meets_vopCoreClksEnable hstable (fun _ clk => runs_take hR (.enable clk) (.inl nofun))
    (fun _ ref => runs_drop hR ref) n

theorem runs_vopCoreClksDisable (hR : Respects steady R) : Runs steady
    (Core (withCoreClks n) e l b R) vopCoreClksDisable fun _ => Core n e l b R := by
  have hdrop (n : Ref → ℕ) (ref : Ref) (hn : 0 < n ref) : Runs steady (Core n e l b R) (drop ref)
      fun _ => Core (less ref n) e l b R := runs_drop hR ref hn
  exact meets_vopCoreClksDisable hdrop n

theorem runs_drop_more (hR : Respects steady R) (ref : Ref) :
    Runs steady (Core (more ref n) e l b R) (drop ref) fun _ => Core n e l b R := by
  have hdrop := runs_drop (n := more ref n) (e := e) (l := l) (b := b) hR ref
    (more_self ref n ▸ Nat.succ_pos _)
  rwa [less_more] at hdrop

/-- Power and every clock. -/
def withScanout (n : Ref → ℕ) : Ref → ℕ := more (.enable .dclk) (withCoreClks (more .pm n))

theorem withScanout_idle : withScanout Phase.idle.need = Phase.enabled.need := by
  funext ref
  rcases ref with _ | clk | clk
  · rfl
  all_goals cases clk <;> rfl

theorem powered_withScanout : Powered (withScanout n) := by
  constructor
  · exact (more_self .pm n ▸ Nat.succ_pos _ : 0 < more .pm n .pm)
  · exact Nat.succ_pos _

/-- A scanout comes to its end, and the driver goes on. -/
theorem runs_dropScanout {α : Type} {rest : Io α} {Q : α → Chip → Prop} (hR : Respects steady R)
    (hrest : Runs steady (Core n e l b R) rest Q) :
    Runs steady (Core (withScanout n) e l b R)
      (do
        drop (.enable .dclk)
        vopCoreClksDisable
        drop .pm
        rest) Q :=
  (runs_drop_more hR (.enable .dclk)).bind fun _ => (runs_vopCoreClksDisable hR).bind fun _ =>
    (runs_drop_more hR .pm).bind fun _ => hrest

/-! ## Enabling and disabling -/

/-- What has been loaded says whether the bootloader's scanout goes on. -/
theorem runs_loaded {α : Type} {rest : Memory → Io α} {Q : α → Chip → Prop}
    (hR : Respects steady R)
    (h : ∀ m : Memory, m.loaderActive = l → Runs steady (Core n e l b R) (rest m) Q) :
    Runs steady (Core n e l b R) (load >>= rest) Q := by
  refine (runs_load hR).bind fun m => ?_
  have hflag (s : Chip) (hs : s.memory = m ∧ Core n e l b R s) : m.loaderActive = l :=
    hs.1 ▸ hs.2.loader
  exact .of_imp (regular_latch steady .ops) hflag fun hm => (h m hm).pre fun s hs => hs.2

theorem runs_releaseLoader (hR : Respects steady R) : Runs steady
    (Core (withScanout n) e l b R) releaseLoader
    fun _ => Core (if l then n else withScanout n) e false b R := by
  refine runs_loaded hR fun m hm => ?_
  rw [hm]
  cases l with
  | false => exact runs_pure hR
  | true =>
    refine (runs_setLoader hR false).bind fun _ => ?_
    exact (runs_drop_more hR (.enable .dclk)).bind fun _ => (runs_vopCoreClksDisable hR).bind
      fun _ => runs_drop_more hR .pm

theorem runs_either (ret : ℤ) {P P' : Chip → Prop} (h : (chipParty steady .ops).Stable P)
    (h' : (chipParty steady .ops).Stable P') :
    Runs steady (Either ret P P') (pure ret) fun ret => Either ret P P' :=
  Prog.meetsWhile_pure (R := fun ret => Either ret P P') (stable_either h h')

/-- A failure is told by anything but zero. -/
def Told (ret : ℤ) (failed succeeded : Chip → Prop) (s : Chip) : Prop :=
  (ret ≠ 0 ∧ failed s) ∨ (ret = 0 ∧ succeeded s)

theorem runs_told (ret : ℤ) {P P' : Chip → Prop} (h : (chipParty steady .ops).Stable P)
    (h' : (chipParty steady .ops).Stable P') :
    Runs steady (Told ret P P') (pure ret) fun ret => Told ret P P' :=
  Prog.meetsWhile_pure (R := fun ret => Told ret P P') fun hst hs =>
    hs.imp (And.imp_right (h hst)) (And.imp_right (h' hst))

/-- Enabling from the phases in which the CRTC can be off. -/
theorem runs_vopEnable (oldSelfRefresh : Bool) (hφ : φ = .idle ∨ φ = .loader) :
    Runs steady (At steady words data φ b) (vopEnable hdr data words oldSelfRefresh)
      fun ret => Told ret (At steady words data φ b) (At steady words data .enabled b) := by
  have hR : Respects steady (φ.regs steady words data) := respects_phase
  have hdisabled : φ.isEnabled = false := by rcases hφ with rfl | rfl <;> rfl
  have hpower : Ref.pm ≠ .pm ∨ 0 < φ.need .pm ∨ Forgets (φ.regs steady words data) := by
    rcases hφ with rfl | rfl
    · exact .inr (.inr forgets_recorded)
    · exact .inr (.inl Nat.one_pos)
  have hrecorded : ∀ s, φ.regs steady words data s → Recorded steady words s := by
    rcases hφ with rfl | rfl
    · exact fun s hs => hs
    · exact fun s hs => hs.recorded
  have hcount : (if φ.isLoader then φ.need else withScanout φ.need) = Phase.enabled.need := by
    rcases hφ with rfl | rfl
    · exact withScanout_idle
    · rfl
  have hfailed {ret : ℤ} (hret : ret ≠ 0) : Runs steady (At steady words data φ b) (pure ret)
      fun ret => Told ret (At steady words data φ b) (At steady words data .enabled b) :=
    (runs_told _ stable_at stable_at).pre fun s hs => .inl ⟨hret, hs⟩
  refine (runs_take hR .pm hpower).bind fun ret => .ite (fun hret => ?_) fun hret => ?_
  · exact (hfailed hret.ne).pre fun s hs => hs.failed hret.ne
  refine ((runs_vopCoreClksEnable hR).pre fun s hs => hs.succeeded hret).bind fun ret =>
    .ite (fun hret => ?_) fun hret => ?_
  · refine ((runs_drop_more hR .pm).pre fun s hs => hs.failed hret.ne).bind fun _ => ?_
    exact hfailed hret.ne
  refine ((runs_take hR (.enable .dclk) (.inl nofun)).pre fun s hs => hs.succeeded hret).bind
    fun ret => .ite (fun hret => ?_) fun hret => ?_
  · refine ((runs_vopCoreClksDisable hR).pre fun s hs => hs.failed hret.ne).bind fun _ => ?_
    exact (runs_drop_more hR .pm).bind fun _ => hfailed hret.ne
  refine ((runs_silent silent_result hR).pre fun s hs => hs.succeeded hret).bind fun ret =>
    .ite (fun hret => ?_) fun _ => ?_
  · exact runs_dropScanout hR (hfailed hret)
  have hn : Powered (withScanout φ.need) := powered_withScanout
  refine ((runs_restore hn).pre fun s hs => hs.weaken hrecorded).bind fun _ => ?_
  refine ((keeps_vopWinsDisable hdr data oldSelfRefresh).runs hn).bind fun _ => ?_
  refine ((keeps_afbcSetEnable data false).runs hn).bind fun _ => ?_
  refine ((keeps_regSet _ _).runs hn).bind fun _ => ?_
  refine (runs_setEnabled respects_regs true).bind fun _ => ?_
  refine ((keeps_regSet _ _).runs hn).bind fun _ => ?_
  refine (runs_releaseLoader respects_regs).bind fun _ => ?_
  rw [hcount]
  refine ((keeps_drmCrtcVblankOn hdr data).runs ⟨Nat.one_pos, Nat.one_pos⟩).bind fun _ => ?_
  exact (runs_told _ stable_at stable_at).pre fun s hs => .inr ⟨rfl, hs⟩

theorem runs_vopCrtcAtomicEnable (st : CrtcState) (hold : st.oldSelfRefresh = false)
    (hφ : φ = .idle ∨ φ = .loader) :
    Runs steady (At steady words data φ b) (vopCrtcAtomicEnable hdr data words st)
      fun _ s => At steady words data φ b s ∨ At steady words data .enabled b s := by
  have hend : Runs steady
      (fun s => At steady words data φ b s ∨ At steady words data .enabled b s) (pure ())
      fun _ s => At steady words data φ b s ∨ At steady words data .enabled b s :=
    Prog.meetsWhile_pure (R := fun _ s => At steady words data φ b s ∨
      At steady words data .enabled b s) fun hst hs => hs.imp (stable_at hst) (stable_at hst)
  unfold vopCrtcAtomicEnable
  rw [hold]
  refine (runs_vopEnable false hφ).bind fun ret => .ite (fun hret => ?_) fun hret => ?_
  · exact hend.pre fun s hs => hs.imp And.right And.right
  refine Prog.MeetsWhile.mono ((keeps_crtcSet hdr data st).runs ⟨Nat.one_pos, Nat.one_pos⟩)
    (fun s hs => ?_) fun _ s hs => .inr hs
  exact hs.elim (fun h => (hret h.1).elim) And.right

theorem runs_vopCrtcAtomicDisable (event : Option ℕ) : Runs steady
    (At steady words data .enabled b) (vopCrtcAtomicDisable hdr data false event)
      fun _ => At steady words data .idle b := by
  have hn : Powered Phase.enabled.need := ⟨Nat.one_pos, Nat.one_pos⟩
  refine ((keeps_drmCrtcVblankOff hdr data).runs hn).bind fun _ => ?_
  refine ((keeps_vopDspHoldValidIrqEnable hdr data).runs hn).bind fun _ => ?_
  refine ((keeps_regSet _ _).runs hn).bind fun _ => (keeps_result.runs hn).bind fun _ => ?_
  refine ((keeps_vopDspHoldValidIrqDisable hdr data).runs hn).bind fun _ => ?_
  refine (runs_setEnabled respects_regs false).bind fun _ => ?_
  have hend : Runs steady (Core (withScanout Phase.idle.need) false false b (Recorded steady words))
      (do
        drop (.enable .dclk)
        vopCoreClksDisable
        drop .pm
        sendNow event) fun _ => At steady words data .idle b :=
    runs_dropScanout respects_recorded (runs_silent (silent_sendNow event) respects_recorded)
  rw [withScanout_idle] at hend
  exact hend.pre fun s hs => hs.weaken fun _ => Regs.recorded

/-- Into self refresh and out of it. -/
theorem keeps_selfRefresh (event : Option ℕ) :
    Keeps steady words (vopCrtcAtomicDisable hdr data true event) :=
  (keeps_rockchipDrmSetWinEnabled data false).bind fun _ =>
    keeps_of_idle (idle_of_silent (silent_sendNow event)) (pends_sendNow event)

theorem keeps_outOfSelfRefresh (st : CrtcState) (hold : st.oldSelfRefresh = true) :
    Keeps steady words (vopCrtcAtomicEnable hdr data words st) := by
  unfold vopCrtcAtomicEnable
  rw [hold]
  exact (keeps_drmCrtcVblankOn hdr data).bind fun _ => keeps_rockchipDrmSetWinEnabled data true

end Vop
end WardenSdk
