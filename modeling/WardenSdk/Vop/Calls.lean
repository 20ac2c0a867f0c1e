import WardenSdk.Vop.Binding

/-!
# Every run of the display driver

`Settled` is what holds between two calls of the kernel.  Every call that the kernel makes
leads from there to there, whatever the interrupt handler and the worker do meanwhile, and so
do all of them one after the other.
-/

namespace WardenSdk
namespace Vop

open Lib

variable {steady : Steady} {words : ℕ} {hdr : Header} {data : VopData} {φ : Phase} {b : Bool}

/-! ## Calls to a driver that is bound -/

/-- A call asks first whether the VOP is enabled, and is a configuration where it is. -/
theorem runs_asked {α : Type} {p : Io α} (hp : Keeps steady words p)
    (hasks : ∃ (a : α) (rest : Memory → Io α), p = load >>= fun vop =>
      if (!vop.isEnabled) = true then pure a else rest vop) :
    Runs steady (At steady words data φ b) p fun _ => At steady words data φ b := by
  cases φ with
  | enabled => exact hp.runs ⟨Nat.one_pos, Nat.one_pos⟩
  | unbound | idle | loader =>
    obtain ⟨a, rest, rfl⟩ := hasks
    exact runs_guarded respects_phase fun h => absurd h nofun

/-- A call that does not ask comes to a VOP that is enabled, in a regular run. -/
theorem runs_callUnasked : Runs steady (At steady words data φ b) Boot.callUnasked
    fun _ => At steady words data .enabled b := by
  refine (runs_load respects_phase).bind fun m => .ite (fun hm => ?_) fun _ => ?_
  · have hφ (s : Chip) (hs : s.memory = m ∧ At steady words data φ b s) : φ = .enabled := by
      have henabled : φ.isEnabled = true := by rw [← hs.2.enabled, hs.1, hm]
      cases φ with
      | enabled => rfl
      | unbound | idle | loader => exact absurd henabled nofun
    refine .of_imp (regular_latch steady .ops) hφ fun hφ => ?_
    subst hφ
    exact (runs_pure respects_regs).pre fun s hs => hs.2
  · exact (runs_irregular respects_phase respects_regs rfl).pre fun s hs => hs.2

theorem runs_onWin (boot : Boot) (i : ℕ) {f : VopWin → Io Unit}
    (h : ∀ win, Runs steady (At steady words data φ b) (f win)
      fun _ => At steady words data φ b) :
    Runs steady (At steady words data φ b) (boot.onWin i f)
      fun _ => At steady words data φ b := by
  unfold Boot.onWin
  cases boot.data.win[i]? with
  | none => exact runs_pure respects_phase
  | some win => exact h win

/-! ## Between two calls -/

/-- The phases that the driver can be in as far as the kernel knows. -/
structure Framework.Fits (fw : Framework) (φ : Phase) : Prop where
  bound : fw.bound = φ.isBound
  off : fw.crtc = .off → φ ≠ .enabled
  unbound : φ = .unbound → fw.crtc = .off

def Settled (steady : Steady) (words : ℕ) (data : VopData) (fw : Framework) (s : Chip) : Prop :=
  ∃ φ, fw.Fits φ ∧ At steady words data φ φ.isBound s

variable {fw : Framework}

theorem stable_settled : (chipParty steady .ops).Stable (Settled steady words data fw) :=
  fun hst ⟨φ, hφ, hs⟩ => ⟨φ, hφ, stable_at hst hs⟩

theorem runs_settled {α : Type} {p : Io α} {Q : α → Chip → Prop}
    (h : ∀ φ, fw.Fits φ → Runs steady (At steady words data φ φ.isBound) p Q) :
    Runs steady (Settled steady words data fw) p Q :=
  .exists (regular_latch steady .ops) fun φ =>
    .of_imp (regular_latch steady .ops) (fun _ hs => hs.1) fun hφ => (h φ hφ).pre fun _ hs => hs.2

theorem Framework.Fits.of_off (h : fw.Fits φ) (hbound : fw.bound = true) (hoff : fw.crtc = .off) :
    φ = .idle ∨ φ = .loader := by
  have hφ := h.off hoff
  cases φ with
  | unbound => exact absurd (h.bound.symm.trans hbound) nofun
  | idle => exact .inl rfl
  | loader => exact .inr rfl
  | enabled => exact (hφ rfl).elim

/-- The call comes back in the phase that it has started in. -/
theorem runs_settledSame {α : Type} {p : Io α}
    (h : ∀ φ, Runs steady (At steady words data φ φ.isBound) p
      fun _ => At steady words data φ φ.isBound) :
    Runs steady (Settled steady words data fw) (p >>= fun _ => pure fw)
      fun fw' => Settled steady words data fw' :=
  runs_settled fun φ hφ => (h φ).bind fun _ =>
    (Prog.meetsWhile_pure (R := fun fw => Settled steady words data fw) stable_settled).pre
      fun _ hs => ⟨φ, hφ, hs⟩

/-- The framework is told where the call has led. -/
theorem runs_settledAt {P : Chip → Prop} (h : ∀ s, P s → Settled steady words data fw s) :
    Runs steady P (pure fw) fun fw' => Settled steady words data fw' :=
  (Prog.meetsWhile_pure (R := fun fw => Settled steady words data fw) stable_settled).pre h

variable (boot : Boot)

theorem runs_released {P : Chip → Prop} (hfw : fw = ⟨false, .off⟩)
    (hP : ∀ s, P s → Failing s) : Runs boot.steady P (do
      let _ ← Prog.ask (.requestIrq false)
      store .free
      return fw) fun fw' => Settled boot.steady boot.words boot.data fw' := by
  subst hfw
  refine Prog.MeetsWhile.pre (runs_failing fun l => ?_) hP
  refine (runs_requestIrq respects_true false).bind fun _ => ?_
  have hfree : Runs boot.steady (Core Phase.unbound.need false l false fun _ => True) (store .free)
      fun _ => At boot.steady boot.words boot.data .unbound false :=
    runs_store respects_true respects_true fun s hs => ⟨hs.holds, rfl, rfl, hs.bound, trivial⟩
  exact hfree.bind fun _ => runs_settledAt fun s hs =>
    ⟨.unbound, ⟨rfl, fun _ => nofun, fun _ => rfl⟩, hs⟩

theorem runs_serveBind (hintr : boot.data.intr.Masked) (h : Call.bind.allowed fw = true) :
    Runs boot.steady (Settled boot.steady boot.words boot.data fw) (boot.serve fw .bind)
      fun fw' => Settled boot.steady boot.words boot.data fw' := by
  refine runs_settled fun φ hφ => ?_
  have hbound : fw.bound = false := by simpa [Call.allowed] using h
  obtain rfl : φ = .unbound := by
    cases φ with
    | unbound => rfl
    | idle | loader | enabled => exact absurd (hφ.bound.symm.trans hbound) nofun
  have hfw : fw = ⟨false, .off⟩ := by
    obtain ⟨bound, crtc⟩ := fw
    exact congrArg₂ Framework.mk hbound (hφ.unbound rfl)
  refine (runs_vopBind hintr).bind fun ret => .ite (fun hret => ?_) fun hret => ?_
  · exact runs_released boot hfw fun s hs => hs.elim And.right fun h => (hret h.1).elim
  have hnote : Runs boot.steady (Found boot.steady boot.words boot.data false) (note .bound)
      fun _ => Found boot.steady boot.words boot.data true := by
    refine runs_found fun φ hφ => ?_
    have hR : Respects boot.steady (φ.regs boot.steady boot.words boot.data) := respects_phase
    refine Prog.MeetsWhile.mono (runs_note hR hR fun s hs _ => ?_) (fun _ => id)
      fun _ s hs => ⟨φ, hφ, hs⟩
    refine hs.alike hR (alike_of_eq rfl rfl rfl rfl rfl rfl) (fun ref => ?_) hs.enabled
      hs.loader rfl
    rw [lost_note]
    exact hs.holds ref
  refine (hnote.pre fun s hs => hs.elim (fun h => (hret h.1).elim) And.right).bind fun _ => ?_
  refine runs_settledAt fun s ⟨φ, hφ, hs⟩ => ⟨φ, ?_, ?_⟩
  · rcases hφ with rfl | rfl <;> exact ⟨rfl, fun _ => nofun, nofun⟩
  · rcases hφ with rfl | rfl <;> exact hs

theorem runs_serveUnbind (h : Call.unbind.allowed fw = true) :
    Runs boot.steady (Settled boot.steady boot.words boot.data fw) (boot.serve fw .unbind)
      fun fw' => Settled boot.steady boot.words boot.data fw' := by
  refine runs_settled fun φ hφ => ?_
  obtain ⟨hbound, hoff⟩ : fw.bound = true ∧ fw.crtc = .off := by simpa [Call.allowed] using h
  have hphase := hφ.of_off hbound hoff
  rw [← hφ.bound, hbound]
  exact (runs_vopUnbind hphase).bind fun _ => runs_released boot rfl fun _ => id

theorem runs_serveEnable (st : CrtcState) (h : (Call.enable st).allowed fw = true) :
    Runs boot.steady (Settled boot.steady boot.words boot.data fw) (boot.serve fw (.enable st))
      fun fw' => Settled boot.steady boot.words boot.data fw' := by
  refine runs_settled fun φ hφ => ?_
  obtain ⟨hbound, hcrtc⟩ : fw.bound = true ∧
      fw.crtc = if st.oldSelfRefresh then .selfRefresh else .off := by
    simpa [Call.allowed] using h
  rw [← hφ.bound, hbound]
  have hend : Runs boot.steady (At boot.steady boot.words boot.data .enabled true)
      (pure ⟨fw.bound, .on⟩) fun fw' => Settled boot.steady boot.words boot.data fw' :=
    runs_settledAt fun s hs => ⟨.enabled, ⟨hbound, nofun, nofun⟩, hs⟩
  cases hold : st.oldSelfRefresh with
  | true =>
    have henable : Keeps boot.steady boot.words
        (vopCrtcAtomicEnable boot.hdr boot.data boot.words st) := keeps_outOfSelfRefresh st hold
    refine (Prog.MeetsWhile.ite (fun _ => runs_callUnasked) fun hne => (hne hold).elim).bind
      fun _ => ?_
    exact (henable.runs ⟨Nat.one_pos, Nat.one_pos⟩).bind fun _ => hend
  | false =>
    have hphase := hφ.of_off hbound (by simpa [hold] using hcrtc)
    refine (Prog.MeetsWhile.ite (fun heq => absurd (heq.symm.trans hold) nofun) fun _ =>
      runs_pure respects_phase).bind fun _ => ?_
    refine (runs_vopCrtcAtomicEnable st hold hphase).bind fun _ => runs_settledAt fun s hs => ?_
    refine hs.elim (fun hs => ⟨φ, ⟨hφ.bound, nofun, ?_⟩, ?_⟩) fun hs =>
      ⟨.enabled, ⟨hbound, nofun, nofun⟩, hs⟩
    · rcases hphase with rfl | rfl <;> nofun
    · rcases hphase with rfl | rfl <;> exact hs

theorem runs_serveDisable (selfRefresh : Bool) (event : Option ℕ)
    (h : (Call.disable selfRefresh event).allowed fw = true) :
    Runs boot.steady (Settled boot.steady boot.words boot.data fw)
      (boot.serve fw (.disable selfRefresh event))
      fun fw' => Settled boot.steady boot.words boot.data fw' := by
  refine runs_settled fun φ hφ => ?_
  have hbound : fw.bound = true := (Bool.and_eq_true_iff.mp h).1
  rw [← hφ.bound, hbound]
  refine runs_callUnasked.bind fun _ => ?_
  cases selfRefresh with
  | true =>
    refine ((keeps_selfRefresh event).runs ⟨Nat.one_pos, Nat.one_pos⟩).bind fun _ => ?_
    exact runs_settledAt fun s hs => ⟨.enabled, ⟨hbound, nofun, nofun⟩, hs⟩
  | false =>
    refine (runs_vopCrtcAtomicDisable event).bind fun _ => ?_
    exact runs_settledAt fun s hs => ⟨.idle, ⟨hbound, fun _ => nofun, nofun⟩, hs⟩

/-- **Every call** that the kernel makes leads from a settled state to a settled one. -/
theorem runs_serve (hintr : boot.data.intr.Masked) (call : Call) (h : call.allowed fw = true) :
    Runs boot.steady (Settled boot.steady boot.words boot.data fw) (boot.serve fw call)
      fun fw' => Settled boot.steady boot.words boot.data fw' := by
  cases call with
  | bind => exact runs_serveBind boot hintr h
  | unbind => exact runs_serveUnbind boot h
  | enable st => exact runs_serveEnable boot st h
  | disable selfRefresh event => exact runs_serveDisable boot selfRefresh event h
  | planeUpdate mode st oldCrtc i =>
    exact runs_settledSame fun φ => runs_onWin boot i fun win =>
      runs_asked (keeps_vopPlaneAtomicUpdate _ _ win st mode oldCrtc i) ⟨_, _, rfl⟩
  | planeAsyncUpdate mode st oldCrtc oldFb i =>
    exact runs_settledSame fun φ => runs_onWin boot i fun win =>
      runs_asked (keeps_vopPlaneAtomicAsyncUpdate _ _ win st mode oldCrtc oldFb i) ⟨_, _, rfl⟩
  | planeDisable oldCrtc i =>
    refine runs_settled fun φ hφ => ?_
    obtain ⟨hbound, hon⟩ : fw.bound = true ∧ fw.crtc = .on := by simpa [Call.allowed] using h
    rw [← hφ.bound, hbound]
    have hwin (win : VopWin) : Runs boot.steady
        (At boot.steady boot.words boot.data .enabled true)
        (vopPlaneAtomicDisable boot.hdr oldCrtc i win)
        fun _ => At boot.steady boot.words boot.data .enabled true :=
      (keeps_vopPlaneAtomicDisable boot.hdr win oldCrtc i).runs ⟨Nat.one_pos, Nat.one_pos⟩
    refine runs_callUnasked.bind fun _ => (runs_onWin boot i hwin).bind fun _ => ?_
    exact runs_settledAt fun s hs =>
      ⟨.enabled, ⟨hbound, fun hoff => absurd (hon.symm.trans hoff) nofun, nofun⟩, hs⟩
  | flush enableAfbc event fbs =>
    exact runs_settledSame fun φ =>
      runs_asked (keeps_vopCrtcAtomicFlush _ _ boot.polls enableAfbc event fbs) ⟨_, _, rfl⟩
  | enableVblank =>
    exact runs_settledSame fun φ => runs_asked (keeps_vopCrtcEnableVblank _ _) ⟨_, _, rfl⟩
  | disableVblank =>
    exact runs_settledSame fun φ => runs_asked (keeps_vopCrtcDisableVblank _ _) ⟨_, _, rfl⟩
  | waitVactEnd mstimeout =>
    exact runs_settledSame fun φ =>
      runs_asked (keeps_rockchipDrmWaitVactEnd _ _ mstimeout) ⟨_, _, rfl⟩

end Vop
end WardenSdk
