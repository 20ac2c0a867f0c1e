import WardenSdk.Vop.Lifecycle

/-!
# Bind and unbind

`vop_bind` ends with everything given back, but for what a failure after `vop_initial` loses, or
in one of the phases that the CRTC is off in: with the registers copied, and with the scanout of
the bootloader going on where there was one.
-/

namespace WardenSdk
namespace Vop

open Lib

variable {steady : Steady} {words : ℕ} {hdr : Header} {data : VopData} {φ : Phase}
  {n n' : Ref → ℕ} {e l b e' l' b' : Bool} {R R' : Chip → Prop} {ret : ℤ}

theorem runs_note {event : Event} (hR : Respects steady R) (hR' : Respects steady R')
    (step : ∀ s, Core n e l b R s → Regular (s.note event) → Core n' e' l' b' R' (s.note event)) :
    Runs steady (Core n e l b R) (note event) fun _ => Core n' e' l' b' R' := by
  have hheld (s : Chip) : (s.note event).held = s.held := by cases event <;> rfl
  have hbad (s : Chip) : (s.note event).bad = s.bad := by cases event <;> rfl
  refine Prog.meetsWhile_ask_bind (regular_latch steady .ops) (stable_core hR)
    (fun _ => stable_core hR') fun s o hs hregular => ?_
  exact ⟨⟨congrFun (hheld s) .irq, fun h => (hbad s).trans h⟩, step s hs hregular⟩

/-- What makes a run irregular is followed by anything. -/
theorem runs_irregular {event : Event} (hR : Respects steady R) (hR' : Respects steady R')
    (hevent : event.regular = false) :
    Runs steady (Core n e l b R) (note event) fun _ => Core n' e' l' b' R' := by
  refine runs_note hR hR' fun s _ hregular => ?_
  have hmem : event ∈ (s.note event).log := by
    rw [s.log_note]
    exact List.mem_append_right _ List.mem_cons_self
  exact absurd ((hregular event hmem).symm.trans hevent) nofun

/-- The result is passed on. -/
theorem runs_return (hR : Respects steady R) (ret : ℤ) : Runs steady (Core n e l b R) (pure ret)
    fun r s => r = ret ∧ Core n e l b R s :=
  (Prog.meetsWhile_pure (R := fun r s => r = ret ∧ Core n e l b R s)
    (And.imp_right <| stable_core hR ·)).pre fun _ hs => ⟨rfl, hs⟩

/-! ## The way back -/

/-- A clock that is prepared and enabled. -/
def withClk (clk : Clk) (n : Ref → ℕ) : Ref → ℕ := more (.enable clk) (more (.prepare clk) n)

/-- Everything that `vop_initial` has taken once the registers can be read. -/
def probed (n : Ref → ℕ) : Ref → ℕ :=
  withClk .aclk (withClk .hclk (more (.prepare .dclk) (more .pm n)))

theorem runs_clkPrepareEnable (hR : Respects steady R) (clk : Clk) : Runs steady (Core n e l b R)
    (clkPrepareEnable clk)
    fun ret => Either ret (Core n e l b R) (Core (withClk clk n) e l b R) := by
  have hend (ret : ℤ) : Runs steady (Either ret (Core n e l b R) (Core (withClk clk n) e l b R))
      (pure ret) fun ret => Either ret (Core n e l b R) (Core (withClk clk n) e l b R) :=
    runs_either ret (stable_core hR) (stable_core hR)
  refine (runs_take hR (.prepare clk) (.inl nofun)).bind fun ret => .ite (fun hret => ?_)
    fun hret => ?_
  · exact (hend _).pre fun s hs => .inl ⟨hret, hs.failed hret.ne⟩
  refine ((runs_take hR (.enable clk) (.inl nofun)).pre fun s hs => hs.succeeded hret).bind
    fun ret' => .ite (fun hret' => ?_) fun hret' => ?_
  · refine ((runs_drop_more hR (.prepare clk)).pre fun s hs => hs.failed hret'.ne).bind fun _ => ?_
    exact (hend _).pre fun s hs => .inl ⟨hret', hs⟩
  · exact (hend _).pre fun s hs => .inr ⟨rfl, hs.succeeded hret'⟩

theorem runs_errPutPmRuntime (hR : Respects steady R) (ret : ℤ) : Runs steady
    (Core (more .pm n) e l b R) (errPutPmRuntime ret) fun r s => r = ret ∧ Core n e l b R s :=
  (runs_drop_more hR .pm).bind fun _ => runs_return hR ret

theorem runs_errUnprepareDclk (hR : Respects steady R) (ret : ℤ) : Runs steady
    (Core (more (.prepare .dclk) (more .pm n)) e l b R) (errUnprepareDclk ret)
      fun r s => r = ret ∧ Core n e l b R s :=
  (runs_drop_more hR (.prepare .dclk)).bind fun _ => runs_errPutPmRuntime hR ret

theorem runs_clkDisableUnprepare (hR : Respects steady R) (clk : Clk) : Runs steady
    (Core (withClk clk n) e l b R) (clkDisableUnprepare clk) fun _ => Core n e l b R :=
  (runs_drop_more hR (.enable clk)).bind fun _ => runs_drop_more hR (.prepare clk)

theorem runs_errDisableHclk (hR : Respects steady R) (ret : ℤ) : Runs steady
    (Core (withClk .hclk (more (.prepare .dclk) (more .pm n))) e l b R) (errDisableHclk ret)
      fun r s => r = ret ∧ Core n e l b R s :=
  (runs_clkDisableUnprepare hR .hclk).bind fun _ => runs_errUnprepareDclk hR ret

theorem runs_errDisableAclk (hR : Respects steady R) (ret : ℤ) : Runs steady
    (Core (probed n) e l b R) (errDisableAclk ret) fun r s => r = ret ∧ Core n e l b R s :=
  (runs_clkDisableUnprepare hR .aclk).bind fun _ => runs_errDisableHclk hR ret

/-! ## The registers are set up -/

theorem idle_enabledWins : ∀ wins : List VopWin, (enabledWins wins).Asks Request.idle
  | [] => Prog.asks_pure _
  | _ :: wins => (idle_vopReadReg _ _).bind fun _ => (idle_enabledWins wins).bind fun _ =>
    Prog.asks_pure _

theorem idle_readStandby (data : VopData) (wins : Word) :
    (readStandby data wins).Asks Request.idle := .ite (Prog.asks_pure _) (idle_vopReadReg _ _)

/-- The reset, or none where the scanout goes on. -/
theorem runs_resetUnlessLoader (hR : Respects steady R) (hforget : Forgets R)
    (loaderActive : Bool) : Runs steady (Core n e l b R) (resetUnlessLoader loaderActive)
      fun _ => Core n e l b R := by
  refine .ite (fun _ => runs_pure hR) fun _ => ?_
  refine Prog.meetsWhile_ask_bind (regular_latch steady .ops) (stable_core hR)
    (fun _ => stable_core hR) fun s o hs _ => ?_
  exact ⟨⟨rfl, id⟩, hs.holds, hs.enabled, hs.loader, hs.bound, hforget s o.regs hs.regs⟩

theorem keeps_winsSetup (loaderActive : Bool) :
    Keeps steady words (winsSetup hdr data loaderActive) :=
  (keeps_pure ()).ite <| (keeps_each (fun x : VopWin × ℕ => (keeps_winSet ..).bind fun _ =>
    (keeps_vopWinDisable hdr x.1 x.2).bind fun _ => keeps_winSet ..) _).bind fun _ =>
      keeps_regSet ..

/-- The cells that may be set: any, but for a scanout that goes on. -/
def setupCells (data : VopData) (loaderActive : Bool) : Option (List (Cell 32)) :=
  if loaderActive then some (takeoverCells data) else none

theorem runs_setup (hintr : data.intr.Masked) (hn : Powered n) (loaderActive : Bool) :
    Runs steady (Core n e l b (Fresh steady words)) (setup hdr data words loaderActive)
      fun _ => Core n e l b (Regs steady words (setupCells data loaderActive)) := by
  refine (runs_idle (idle_intrSetType hintr.clear _ _) respects_fresh hn).bind fun _ => ?_
  refine (runs_idle (idle_intrSetType hintr.enable _ _) respects_fresh hn).bind fun _ => ?_
  refine runs_storeSnapshot.bind fun _ => (runs_snapshot hn).bind fun _ => ?_
  have hset {reg : VopReg} (v : Word)
      (hreg : reg.cell 0 (BitVec.allOnes 32) ∈ takeoverCells data) :
      Runs steady (Core n e l b (Regs steady words (setupCells data loaderActive))) (regSet reg v)
        fun _ => Core n e l b (Regs steady words (setupCells data loaderActive)) := by
    refine runs_vopRegSet hn reg 0 _ v fun cells hcells => ?_
    cases loaderActive with
    | false => exact absurd hcells nofun
    | true => exact Option.mem_some.mp hcells ▸ hreg
  refine ((hset 1 List.mem_cons_self).pre fun s hs => hs.weaken fun _ => Regs.of_nil).bind
    fun _ => ?_
  refine (hset 0 (List.mem_cons_of_mem _ List.mem_cons_self)).bind fun _ => ?_
  cases loaderActive with
  | false => exact (keeps_winsSetup false).runs hn
  | true => exact runs_pure respects_regs

/-! ## `vop_initial` -/

/-- Nothing is held any more, but what is lost for good. -/
def Failing (s : Chip) : Prop := ∃ l, Core Phase.unbound.need false l false (fun _ => True) s

/-- The driver is in one of the phases that it can come up in. -/
def Found (steady : Steady) (words : ℕ) (data : VopData) (b : Bool) (s : Chip) : Prop :=
  ∃ φ, (φ = Phase.idle ∨ φ = .loader) ∧ At steady words data φ b s

theorem stable_failing : (chipParty steady .ops).Stable Failing :=
  fun hst ⟨l, hs⟩ => ⟨l, stable_core respects_true hst hs⟩

theorem stable_found : (chipParty steady .ops).Stable (Found steady words data b) :=
  fun hst ⟨φ, hφ, hs⟩ => ⟨φ, hφ, stable_at hst hs⟩

theorem Core.failing {s : Chip} (h : Core Phase.unbound.need false l false R s) : Failing s :=
  ⟨l, h.weaken fun _ _ => trivial⟩

theorem runs_found {α : Type} {p : Io α} {Q : α → Chip → Prop}
    (h : ∀ φ, φ = Phase.idle ∨ φ = .loader → Runs steady (At steady words data φ b) p Q) :
    Runs steady (Found steady words data b) p Q :=
  .exists (regular_latch steady .ops) fun φ =>
    .of_imp (regular_latch steady .ops) (fun _ hs => hs.1) fun hφ => (h φ hφ).pre fun _ hs => hs.2

/-- A failure on the way, with everything given back. -/
theorem runs_failed {p : Io ℤ} (hret : ret ≠ 0)
    (h : Runs steady (Core n e l b R) p
      fun r s => r = ret ∧ Core Phase.unbound.need false l' false R' s) :
    Runs steady (Core n e l b R) p
      fun r => Told r Failing (Found steady words data false) :=
  h.mono (fun _ => id) fun _ _ hs => .inl ⟨hs.1 ▸ hret, hs.2.failing⟩

theorem runs_failedInitial {p : Io ℤ} (hret : ret < 0)
    (h : Runs steady (Core n e l b R) p
      fun r s => r = ret ∧ Core Phase.unbound.need false l' false R' s) :
    Runs steady (Core n e l b R) p
      fun r => Either r Failing (Found steady words data false) :=
  h.mono (fun _ => id) fun _ _ hs => .inl ⟨hs.1 ▸ hret, hs.2.failing⟩

theorem probed_loader : more (.enable .dclk) (probed Phase.unbound.need) = Phase.loader.need := by
  funext ref
  rcases ref with _ | clk | clk
  · rfl
  all_goals cases clk <;> rfl

theorem probed_idle :
    less .pm (less (.enable .aclk) (less (.enable .hclk) (probed Phase.unbound.need))) =
      Phase.idle.need := by
  funext ref
  rcases ref with _ | clk | clk
  · rfl
  all_goals cases clk <;> rfl

/-- The end of `vop_initial` where a scanout goes on. -/
theorem runs_holdLoader : Runs steady
    (Core (probed Phase.unbound.need) false true false
      (Regs steady words (some (takeoverCells data))))
    (do
      holdClocks true
      store (.setEnabled false)
      return (0 : ℤ))
    fun r => Either r Failing (Found steady words data false) := by
  have hhold : Runs steady (Core (probed Phase.unbound.need) false true false
      (Regs steady words (some (takeoverCells data)))) (holdClocks true)
      fun _ => At steady words data .loader false := by
    unfold At
    rw [← probed_loader]
    refine (runs_take respects_regs (.enable .dclk) (.inl nofun)).bind fun ret =>
      .ite (fun hret => ?_) fun hret => ?_
    · exact (runs_irregular respects_regs respects_regs rfl).pre fun s hs => hs.failed hret.ne
    · exact (runs_pure respects_regs).pre fun s hs => hs.succeeded hret
  refine hhold.bind fun _ => (runs_setEnabled respects_regs false).bind fun _ => ?_
  exact (runs_either _ stable_failing stable_found).pre fun s hs =>
    .inr ⟨rfl, .loader, .inr rfl, hs⟩

/-- The end of `vop_initial` where there is none. -/
theorem runs_holdNone : Runs steady
    (Core (probed Phase.unbound.need) false false false (Recorded steady words))
    (do
      holdClocks false
      store (.setEnabled false)
      drop .pm
      return (0 : ℤ))
    fun r => Either r Failing (Found steady words data false) := by
  have hR : Respects steady (Recorded steady words) := respects_recorded
  have hhold : Runs steady
      (Core (probed Phase.unbound.need) false false false (Recorded steady words))
      (holdClocks false)
      fun _ => Core (less (.enable .aclk) (less (.enable .hclk) (probed Phase.unbound.need)))
        false false false (Recorded steady words) :=
    (runs_drop hR (.enable .hclk) (by decide)).bind fun _ =>
      runs_drop hR (.enable .aclk) (by decide)
  refine hhold.bind fun _ => (runs_setEnabled hR false).bind fun _ => ?_
  refine (runs_drop hR .pm (by decide)).bind fun _ => ?_
  rw [probed_idle]
  exact (runs_either _ stable_failing stable_found).pre fun s hs => .inr ⟨rfl, .idle, .inl rfl, hs⟩

/-- **`vop_initial`** comes to one of the phases that the CRTC is off in, or gives everything
back. -/
theorem runs_vopInitial (hintr : data.intr.Masked) : Runs steady
    (Core Phase.unbound.need false false false (Fresh steady words)) (vopInitial hdr data words)
      fun ret => Either ret Failing (Found steady words data false) := by
  have hR : Respects steady (Fresh steady words) := respects_fresh
  have hstep {rest : ℤ → Io ℤ}
      (h : ∀ ret, Runs steady (Core Phase.unbound.need false false false (Fresh steady words))
        (rest ret) fun ret => Either ret Failing (Found steady words data false)) :
      Runs steady (Core Phase.unbound.need false false false (Fresh steady words))
        (result >>= fun ret => if ret < 0 then pure ret else rest ret)
        fun ret => Either ret Failing (Found steady words data false) := by
    refine (runs_silent silent_result hR).bind fun ret => .ite (fun hret => ?_) fun _ => h ret
    exact runs_failedInitial hret (runs_return hR ret)
  refine hstep fun _ => hstep fun _ => hstep fun _ => ?_
  refine (runs_take hR .pm (.inr (.inr forgets_fresh))).bind fun ret =>
    .ite (fun hret => ?_) fun hret => ?_
  · exact (runs_failedInitial hret (runs_return hR ret)).pre fun s hs => hs.failed hret.ne
  refine ((runs_take hR (.prepare .dclk) (.inl nofun)).pre fun s hs => hs.succeeded hret).bind
    fun ret => .ite (fun hret => ?_) fun hret => ?_
  · exact (runs_failedInitial hret (runs_errPutPmRuntime hR ret)).pre fun s hs => hs.failed hret.ne
  refine ((runs_clkPrepareEnable hR .hclk).pre fun s hs => hs.succeeded hret).bind fun ret =>
    .ite (fun hret => ?_) fun hret => ?_
  · exact (runs_failedInitial hret (runs_errUnprepareDclk hR ret)).pre fun s hs => hs.failed hret.ne
  refine ((runs_clkPrepareEnable hR .aclk).pre fun s hs => hs.succeeded hret).bind fun ret =>
    .ite (fun hret => ?_) fun hret => ?_
  · exact (runs_failedInitial hret (runs_errDisableHclk hR ret)).pre fun s hs => hs.failed hret.ne
  have hn : Powered (probed Phase.unbound.need) := by decide
  -- the registers are readable from here on
  refine ((runs_idle (idle_enabledWins data.win) hR hn).pre fun s hs => hs.succeeded hret).bind
    fun wins => (runs_idle (idle_readStandby data wins) hR hn).bind fun standby => ?_
  generalize (wins != 0 && standby == 0) = loaderActive
  refine (runs_setLoader hR loaderActive).bind fun _ => (runs_silent silent_result hR).bind
    fun ret => .ite (fun hret => ?_) fun _ => ?_
  · exact runs_failedInitial hret (runs_errDisableAclk hR ret)
  refine (runs_resetUnlessLoader hR forgets_fresh loaderActive).bind fun _ => ?_
  refine (runs_setup hintr hn loaderActive).bind fun _ => ?_
  refine (runs_silent silent_result respects_regs).bind fun ret => .ite (fun hret => ?_) fun _ => ?_
  · exact runs_failedInitial hret (runs_errDisableAclk respects_regs ret)
  cases loaderActive with
  | true => exact runs_holdLoader
  | false =>
    refine ((runs_resetUnlessLoader respects_recorded forgets_recorded false).pre fun s hs =>
      hs.weaken fun _ => Regs.recorded).bind fun _ => ?_
    exact runs_holdNone

/-! ## Bind and unbind -/

theorem runs_runtimePm (hR : Respects steady R) (on : Bool) : Runs steady (Core n e l b R)
    (Prog.ask (.runtimePm on)) fun _ => Core n e l b R :=
  runs_silent (Prog.asks_ask trivial) hR

theorem runs_requestIrq (hR : Respects steady R) (on : Bool) : Runs steady (Core n e l b R)
    (Prog.ask (.requestIrq on)) fun _ => Core n e l b R :=
  runs_silent (Prog.asks_ask trivial) hR

theorem runs_failing {α : Type} {p : Io α} {Q : α → Chip → Prop}
    (h : ∀ l, Runs steady (Core Phase.unbound.need false l false fun _ => True) p Q) :
    Runs steady Failing p Q := .exists (regular_latch steady .ops) h

theorem runs_errDisablePmRuntime (hR : Respects steady R) (ret : ℤ) : Runs steady
    (Core n e l b R) (errDisablePmRuntime ret) fun r s => r = ret ∧ Core n e l b R s :=
  (runs_runtimePm hR false).bind fun _ => (runs_silent (silent_flip .destroy) hR).bind fun _ =>
    runs_return hR ret

/-- What the driver holds is lost when it gives up after `vop_initial`. -/
theorem need_abandoned (hφ : φ = .idle ∨ φ = .loader) (ref : Ref) :
    φ.need ref = (Event.abandoned φ.isLoader).loses ref := by
  rcases hφ with rfl | rfl <;> cases ref <;> rfl

theorem lost_note (event : Event) (s : Chip) (ref : Ref) :
    lost (s.note event).log ref = lost s.log ref + event.loses ref := by
  rw [s.log_note, lost_append]
  rfl

theorem runs_abandon (hφ : φ = .idle ∨ φ = .loader) (hret : ret ≠ 0) : Runs steady
    (At steady words data φ false) (abandon ret)
      fun r => Told r Failing (Found steady words data false) := by
  have hdisabled : φ.isEnabled = false := by rcases hφ with rfl | rfl <;> rfl
  refine runs_loaded respects_phase fun m hm => ?_
  have hnote : Runs steady (At steady words data φ false) (note (.abandoned m.loaderActive))
      fun _ => Core Phase.unbound.need false φ.isLoader false fun _ => True := by
    refine runs_note respects_phase respects_true fun s hs _ => ?_
    refine ⟨fun ref => ?_, hs.enabled.trans hdisabled, hs.loader, hs.bound, trivial⟩
    rw [lost_note, hm, ← need_abandoned hφ]
    exact (hs.holds ref).trans (by rw [Phase.need]; omega)
  refine hnote.bind fun _ => ?_
  exact runs_failed hret (runs_errDisablePmRuntime respects_true ret)

theorem silent_rgbInit : (rgbInit data).Asks Request.silent :=
  .ite silent_result (Prog.asks_pure _)

/-- **`vop_bind`.** -/
theorem runs_vopBind (hintr : data.intr.Masked) : Runs steady
    (At steady words data .unbound false) (vopBind hdr data words)
      fun ret => Told ret Failing (Found steady words data false) := by
  have hR : Respects steady (Fresh steady words) := respects_fresh
  refine (runs_silent silent_result respects_true).bind fun ret => .ite (fun hret => ?_) fun _ => ?_
  · exact runs_failed hret.ne (runs_return respects_true ret)
  have halloc : Runs steady (At steady words data .unbound false) (store .alloc)
      fun _ => Core Phase.unbound.need false false false (Fresh steady words) :=
    runs_store respects_true hR fun s hs => ⟨hs.holds, rfl, rfl, hs.bound, fun _ _ => rfl⟩
  have hstep {rest : ℤ → Io ℤ} {c : ℤ → Prop} [DecidablePred c] (hc : ∀ ret, c ret → ret ≠ 0)
      (h : ∀ ret, Runs steady (Core Phase.unbound.need false false false (Fresh steady words))
        (rest ret) fun ret => Told ret Failing (Found steady words data false)) :
      Runs steady (Core Phase.unbound.need false false false (Fresh steady words))
        (result >>= fun ret => if c ret then pure ret else rest ret)
        fun ret => Told ret Failing (Found steady words data false) := by
    refine (runs_silent silent_result hR).bind fun ret => .ite (fun hret => ?_) fun _ => h ret
    exact runs_failed (hc ret hret) (runs_return hR ret)
  refine halloc.bind fun _ => hstep (fun _ => LT.lt.ne) fun _ => hstep (fun _ => LT.lt.ne) fun _ =>
    hstep (fun _ => LT.lt.ne) fun _ => hstep (fun _ => id) fun _ => ?_
  refine (runs_runtimePm hR true).bind fun _ => (runs_vopInitial hintr).bind fun ret =>
    .ite (fun hret => ?_) fun hret => ?_
  · refine (runs_failing fun l => runs_failed hret.ne
      (runs_errDisablePmRuntime respects_true ret)).pre fun s hs => hs.failed hret.ne
  refine (runs_found fun φ hφ => ?_).pre fun s hs => hs.succeeded hret
  have hR : Respects steady (φ.regs steady words data) := respects_phase
  refine (runs_silent silent_result hR).bind fun ret => .ite (fun hret => runs_abandon hφ hret)
    fun _ => ?_
  refine (runs_requestIrq hR true).bind fun _ => (runs_silent silent_rgbInit hR).bind fun ret =>
    .ite (fun hret => runs_abandon hφ hret.ne) fun _ => ?_
  exact (runs_told _ stable_failing stable_found).pre fun s hs => .inr ⟨rfl, φ, hφ, hs⟩

/-- **`vop_unbind`**, with the CRTC off, drops what it has prepared. -/
theorem runs_vopUnbind (hφ : φ = .idle ∨ φ = .loader) : Runs steady
    (At steady words data φ true) vopUnbind fun _ => Failing := by
  have hR : Respects steady (φ.regs steady words data) := respects_phase
  have hdisabled : φ.isEnabled = false := by rcases hφ with rfl | rfl <;> rfl
  refine (runs_runtimePm hR false).bind fun _ => ?_
  refine (runs_silent (silent_flip .destroy) hR).bind fun _ => ?_
  refine runs_loaded hR fun m hm => ?_
  have hneed (ref : Ref) :
      φ.need ref = Phase.idle.need ref + (Event.unbound φ.isLoader).loses ref := by
    rcases hφ with rfl | rfl <;> cases ref <;> rfl
  have hnote : Runs steady (At steady words data φ true) (note (.unbound m.loaderActive))
      fun _ => Core Phase.idle.need false φ.isLoader false fun _ => True := by
    refine runs_note hR respects_true fun s hs _ => ?_
    refine ⟨fun ref => ?_, hs.enabled.trans hdisabled, hs.loader, rfl, trivial⟩
    have hholds := hs.holds ref
    rw [hneed] at hholds
    rw [lost_note, hm]
    exact hholds.trans (by omega)
  refine hnote.bind fun _ => ?_
  refine (runs_drop respects_true (.prepare .aclk) (by decide)).bind fun _ => ?_
  refine (runs_drop respects_true (.prepare .hclk) (by decide)).bind fun _ => ?_
  refine (runs_drop respects_true (.prepare .dclk) (by decide)).mono (fun _ => id) fun _ s hs => ?_
  refine ⟨φ.isLoader, hs.recount ?_⟩
  funext ref
  rcases ref with _ | clk | clk
  · rfl
  all_goals cases clk <;> rfl

end Vop
end WardenSdk
