import WardenSdk.Vop.Sharing

/-!
# The interrupt handler and the worker beside the calls

References are counted by the kind.  `meets_vopCoreClksEnable` and `meets_vopCoreClksDisable`
are about any account of them that follows `take` and `drop`; the handler's account is what it
holds.  It comes to its end with the references that it has started with, and has touched no
register without power and clock.
-/

namespace WardenSdk
namespace Vop

open Lib

/-! ## Accounts of references -/

def more (ref : Ref) (n : Ref → ℕ) : Ref → ℕ := Function.update n ref (n ref + 1)

def less (ref : Ref) (n : Ref → ℕ) : Ref → ℕ := Function.update n ref (n ref - 1)

theorem more_self (ref : Ref) (n : Ref → ℕ) : more ref n ref = n ref + 1 := Function.update_self ..

theorem le_more (ref : Ref) (n : Ref → ℕ) (ref' : Ref) : n ref' ≤ more ref n ref' := by
  unfold more
  rw [Function.update_apply]
  split_ifs with h
  · exact h ▸ Nat.le_succ _
  · exact Nat.le_refl _

@[simp] theorem less_more (ref : Ref) (n : Ref → ℕ) : less ref (more ref n) = n := by
  unfold less more
  rw [Function.update_self, Function.update_idem, Nat.add_sub_cancel, Function.update_eq_self]

/-- A failure is told by a negative number, and success by zero. -/
def Either (ret : ℤ) (failed succeeded : Chip → Prop) (s : Chip) : Prop :=
  (ret < 0 ∧ failed s) ∨ (ret = 0 ∧ succeeded s)

variable {ret : ℤ} {P P' : Chip → Prop}

theorem Either.failed {s : Chip} (h : Either ret P P' s) (hret : ret ≠ 0) : P s :=
  h.elim And.right fun h => (hret h.1).elim

theorem Either.succeeded {s : Chip} (h : Either ret P P' s) (hret : ¬ret < 0) : P' s :=
  h.elim (fun h => (hret h.1).elim) And.right

theorem stable_either {party : Party Chip} (h : party.Stable P) (h' : party.Stable P') :
    party.Stable (Either ret P P') :=
  fun hst hs => hs.imp (And.imp_right (h hst)) (And.imp_right (h' hst))

/-- The registers can be touched. -/
def Powered (n : Ref → ℕ) : Prop := 0 < n .pm ∧ 0 < n (.enable .hclk)

instance (n : Ref → ℕ) : Decidable (Powered n) := instDecidableAnd

theorem Powered.more {n : Ref → ℕ} (h : Powered n) (ref : Ref) : Powered (more ref n) :=
  ⟨h.1.trans_le (le_more ref n _), h.2.trans_le (le_more ref n _)⟩

section Account

variable {steady : Steady} {who : Who} {Acc : (Ref → ℕ) → Chip → Prop}
  (stable : ∀ n, (chipParty steady who).Stable (Acc n))
  (onTake : ∀ n clk, (take (.enable clk)).MeetsWhile (answer steady who) (chipParty steady who)
    Regular (Acc n) fun ret => Either ret (Acc n) (Acc (more (.enable clk) n)))
  (onDrop : ∀ n ref, 0 < n ref → (drop ref).MeetsWhile (answer steady who)
    (chipParty steady who) Regular (Acc n) fun _ => Acc (less ref n))

/-- What `vop_core_clks_enable` takes. -/
def withCoreClks (n : Ref → ℕ) : Ref → ℕ := more (.enable .aclk) (more (.enable .hclk) n)

include stable onTake onDrop in
theorem meets_vopCoreClksEnable (n : Ref → ℕ) : vopCoreClksEnable.MeetsWhile (answer steady who)
    (chipParty steady who) Regular (Acc n)
    fun ret => Either ret (Acc n) (Acc (withCoreClks n)) := by
  have hend {ret : ℤ} : (pure ret : Io ℤ).MeetsWhile (answer steady who) (chipParty steady who)
      Regular (Either ret (Acc n) (Acc (withCoreClks n)))
      fun ret => Either ret (Acc n) (Acc (withCoreClks n)) :=
    Prog.meetsWhile_pure (R := fun ret => Either ret (Acc n) (Acc (withCoreClks n)))
      (stable_either (stable n) (stable _))
  refine (onTake n .hclk).bind fun ret => .ite (fun hret => ?_) fun hret => ?_
  · exact hend.pre fun s hs => .inl ⟨hret, hs.failed hret.ne⟩
  refine ((onTake _ .aclk).pre fun s hs => hs.succeeded hret).bind fun ret' =>
    .ite (fun hret' => ?_) fun hret' => ?_
  · have hdrop := onDrop (more (.enable .hclk) n) (.enable .hclk)
      (more_self _ n ▸ Nat.succ_pos _)
    rw [less_more] at hdrop
    refine (hdrop.pre fun s hs => hs.failed hret'.ne).bind fun _ => ?_
    exact hend.pre fun s hs => .inl ⟨hret', hs⟩
  · exact hend.pre fun s hs => .inr ⟨rfl, hs.succeeded hret'⟩

include onDrop in
theorem meets_vopCoreClksDisable (n : Ref → ℕ) : vopCoreClksDisable.MeetsWhile
    (answer steady who) (chipParty steady who) Regular (Acc (withCoreClks n)) fun _ => Acc n := by
  unfold withCoreClks
  have haclk := onDrop (more (.enable .aclk) (more (.enable .hclk) n)) (.enable .aclk)
    (more_self _ _ ▸ Nat.succ_pos _)
  have hhclk := onDrop (more (.enable .hclk) n) (.enable .hclk) (more_self _ n ▸ Nat.succ_pos _)
  rw [less_more] at haclk hhclk
  exact haclk.bind fun _ => hhclk

end Account

/-! ## The handler -/

/-- What the handler holds. -/
def Handles (n : Ref → ℕ) (s : Chip) : Prop := ∀ ref, s.held .irq ref = n ref

variable {steady : Steady}

theorem stable_handles (n : Ref → ℕ) : (chipParty steady .irq).Stable (Handles n) := by
  intro s t hst hs ref
  have hheld : t.held .irq = s.held .irq := hst
  rw [hheld, hs]

theorem Handles.powered {n : Ref → ℕ} {s : Chip} (h : Handles n s) (hn : Powered n) :
    0 < s.total .pm ∧ 0 < s.total (.enable .hclk) := by
  unfold Chip.total
  rw [h, h]
  exact ⟨Nat.add_pos_left (Nat.add_pos_right _ hn.1) _,
    Nat.add_pos_left (Nat.add_pos_right _ hn.2) _⟩

theorem beside_setHeld_irq (s : Chip) (ref : Ref) (n : ℕ) :
    Beside steady s (s.setHeld .irq ref n) where
  toAlike := ⟨rfl, rfl, rfl, rfl, List.Subset.refl _, fun _ _ _ => rfl⟩
  held := s.held_setHeld_of_ne (by decide) ref n
  memory := rfl
  bound := rfl
  lost _ := rfl

theorem handles_setHeld {n : Ref → ℕ} {s : Chip} (h : Handles n s) (ref : Ref) (k : ℕ) :
    Handles (Function.update n ref k) (s.setHeld .irq ref k) := by
  intro ref'
  rw [s.held_setHeld_self, Function.update_apply, h]

theorem meets_take_irq (n : Ref → ℕ) (clk : Clk) : (take (.enable clk)).MeetsWhile
    (answer steady .irq) (chipParty steady .irq) Regular (Handles n)
      fun ret => Either ret (Handles n) (Handles (more (.enable clk) n)) := by
  have hstable (ret : ℤ) : (chipParty steady .irq).Stable
      (Either ret (Handles n) (Handles (more (.enable clk) n))) :=
    stable_either (stable_handles n) (stable_handles _)
  refine Prog.meetsWhile_ask_bind (regular_latch steady .irq) (stable_handles n) hstable
    fun s o hs _ => ?_
  simp only [answer]
  split_ifs with hret
  · exact ⟨⟨.refl s, id⟩, .inl ⟨hret, hs⟩⟩
  · have hne : Ref.enable clk ≠ .pm := by
      intro h
      cases h
    rw [Chip.gain_of_powered (.inl hne)]
    have hmore := handles_setHeld hs (.enable clk) (s.held .irq (.enable clk) + 1)
    rw [hs] at hmore ⊢
    exact ⟨⟨beside_setHeld_irq s _ _, id⟩, .inr ⟨rfl, hmore⟩⟩

theorem meets_drop_irq (n : Ref → ℕ) (ref : Ref) (hn : 0 < n ref) : (drop ref).MeetsWhile
    (answer steady .irq) (chipParty steady .irq) Regular (Handles n)
      fun _ => Handles (less ref n) := by
  refine Prog.meetsWhile_ask_bind (regular_latch steady .irq) (stable_handles n)
    (fun _ => stable_handles _) fun s o hs _ => ?_
  simp only [answer, Chip.answers_fst]
  have hpos : 0 < s.held .irq ref := by rwa [hs]
  have hless := handles_setHeld hs ref (s.held .irq ref - 1)
  rw [Chip.drop_of_pos hpos]
  rw [hs] at hless ⊢
  exact ⟨⟨beside_setHeld_irq s _ _, id⟩, hless⟩

theorem meets_takeInUse : (Prog.ask .takeInUse).MeetsWhile (answer steady .irq)
    (chipParty steady .irq) Regular (Handles fun _ => 0) fun a s =>
      (a.ret = 0 ∧ Handles (fun _ => 0) s) ∨
        (a.ret ≠ 0 ∧ Handles (more .pm fun _ => 0) s) := by
  refine Prog.meetsWhile_ask (regular_latch steady .irq) (stable_handles _)
    (fun a _ _ hst hs => hs.imp (And.imp_right (stable_handles _ hst))
      (And.imp_right (stable_handles _ hst))) fun s o hs hregular => ?_
  simp only [answer] at hregular ⊢
  split_ifs with hpm huse
  · -- such a run is not regular
    rw [if_pos hpm] at hregular
    exact absurd (hregular .lateIrq (List.mem_append_right _ List.mem_cons_self))
      Bool.false_ne_true
  · exact ⟨⟨.refl s, id⟩, .inl ⟨rfl, hs⟩⟩
  · rw [not_or] at huse
    rw [Chip.gain_of_powered (.inr huse.1)]
    have hmore := handles_setHeld hs .pm (s.held .irq .pm + 1)
    rw [hs] at hmore ⊢
    exact ⟨⟨beside_setHeld_irq s _ _, id⟩, .inr ⟨one_ne_zero, hmore⟩⟩

/-- Requests that leave the references alone. -/
theorem meets_beside_irq {α : Type} {p : Io α} {allowed : Request → Prop} (h : p.Asks allowed)
    {n : Ref → ℕ} (step : ∀ q, allowed q → ∀ s o, Handles n s →
      Beside steady s (answer steady .irq s q o).1 ∧ (answer steady .irq s q o).1.held = s.held ∧
        (answer steady .irq s q o).1.bad = s.bad) :
    p.MeetsWhile (answer steady .irq) (chipParty steady .irq) Regular (Handles n)
      fun _ => Handles n := by
  have hstable : (chipParty steady .irq).Stable (Handles n) := stable_handles n
  refine h.meetsWhile (regular_latch steady .irq) hstable fun q hq s o hs _ => ?_
  obtain ⟨hbeside, hheld, hbad⟩ := step q hq s o hs
  exact ⟨⟨hbeside, fun h => hbad.trans h⟩, hstable (congrFun hheld .irq) hs⟩

theorem meets_silent_irq {α : Type} {p : Io α} (h : p.Asks Request.silent) (n : Ref → ℕ) :
    p.MeetsWhile (answer steady .irq) (chipParty steady .irq) Regular (Handles n)
      fun _ => Handles n :=
  meets_beside_irq h fun _ hq s o _ => silent_step steady hq .irq s o

theorem meets_idle_irq {α : Type} {p : Io α} (h : p.Asks Request.idle) {n : Ref → ℕ}
    (hn : Powered n) : p.MeetsWhile (answer steady .irq) (chipParty steady .irq) Regular
      (Handles n) fun _ => Handles n :=
  meets_beside_irq h fun _ hq _ o hs =>
    have ⟨hpm, hclk⟩ := hs.powered hn
    idle_step steady hq .irq hpm hclk o

variable {hdr : Header} {data : VopData}

/-- **The handler** ends with the references that it has started with. -/
theorem meets_vopIsr (hintr : data.intr.Masked) : (vopIsr hdr data).MeetsWhile
    (answer steady .irq) (chipParty steady .irq) Regular (Handles fun _ => 0)
      fun _ => Handles fun _ => 0 := by
  have hend {a : Bool} : (pure a : Io Bool).MeetsWhile (answer steady .irq)
      (chipParty steady .irq) Regular (Handles fun _ => 0) fun _ => Handles fun _ => 0 :=
    Prog.meetsWhile_pure (R := fun _ => Handles fun _ => 0) (stable_handles _)
  have hdrop := @meets_drop_irq steady (more .pm fun _ => 0) .pm (by decide)
  rw [less_more] at hdrop
  have hpowered : Powered (withCoreClks (more .pm fun _ => 0)) := by decide
  refine meets_takeInUse.bind fun inUse => .ite (fun hret => ?_) fun hret => ?_
  · exact hend.pre fun s hs => hs.elim And.right fun h => (h.1 hret).elim
  refine ((meets_vopCoreClksEnable stable_handles meets_take_irq meets_drop_irq
    (more .pm fun _ => 0)).pre fun s hs => ?_).bind fun ret =>
      .ite (fun hret' => ?_) fun hret' => ?_
  · exact hs.elim (fun h => (hret h.1).elim) And.right
  · exact (hdrop.pre fun s hs => hs.failed hret').bind fun _ => hend
  refine ((meets_idle_irq (idle_vopGetIntrType _ _ _) hpowered).pre fun s hs => ?_).bind
    fun activeIrqs => ?_
  · exact hs.succeeded fun h => hret' h.ne
  refine (meets_idle_irq (idle_clearActive hintr activeIrqs) hpowered).bind fun _ => ?_
  refine (meets_idle_irq (idle_frameStart hdr activeIrqs) hpowered).bind fun _ => ?_
  exact (meets_vopCoreClksDisable meets_drop_irq _).bind fun _ => hdrop.bind fun _ => hend

end Vop
end WardenSdk
