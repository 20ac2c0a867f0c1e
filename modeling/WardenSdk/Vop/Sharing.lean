import WardenSdk.Vop.Kernel

/-!
# What the parts of the display driver do beside one another

The calls of the kernel rely on the interrupt handler and the worker to be `Beside` them:
these take and drop references of their own only, leave the memory of the calls alone, and
write no register but with a mask.  The handler relies on nobody to drop its references.

All this is due as long as the run is `Regular`: the clock of a scanout that is taken over
could be enabled, no call has come unasked to a VOP that is not enabled, and no interrupt when
runtime PM was off.
-/

namespace WardenSdk
namespace Vop

open Lib

def Event.regular : Event → Bool
  | .dclkEnableFailed | .deadCall | .lateIrq => false
  | _ => true

def Regular (s : Chip) : Prop := ∀ e ∈ s.log, e.regular = true

instance (s : Chip) : Decidable (Regular s) := List.decidableBAll _ s.log

/-- The references that nobody will drop any more. -/
def Event.loses : Event → Ref → ℕ
  | .abandoned loaderActive, .pm | .abandoned loaderActive, .enable _ => loaderActive.toNat
  | .abandoned _, .prepare _ => 1
  | .unbound loaderActive, .pm | .unbound loaderActive, .enable _ => loaderActive.toNat
  | _, _ => 0

def lost (log : List Event) (ref : Ref) : ℕ := (log.map fun e => e.loses ref).sum

theorem lost_append (log log' : List Event) (ref : Ref) :
    lost (log ++ log') ref = lost log ref + lost log' ref := by
  unfold lost
  rw [List.map_append, List.sum_append]

/-! ## The steps -/

@[simp] theorem Chip.answers_fst (s : Chip) (ret : ℤ) (val : Word) :
    (s.answers ret val).1 = s := rfl

theorem Chip.log_note (s : Chip) (e : Event) : (s.note e).log = s.log ++ [e] := by
  cases e <;> rfl

theorem Chip.flips_note (s : Chip) (e : Event) : (s.note e).flips = s.flips := by
  cases e <;> rfl

/-- The power comes on with the first reference, and only then. -/
theorem Chip.gain_cases (s : Chip) (who : Who) (ref : Ref) (regs : ℕ → Word) :
    (ref = .pm ∧ s.total .pm = 0 ∧
        s.gain who ref regs = (s.lose regs).setHeld who ref (s.held who ref + 1)) ∨
      s.gain who ref regs = s.setHeld who ref (s.held who ref + 1) := by
  unfold Chip.gain
  split_ifs with h
  · exact .inl ⟨h.1, h.2, rfl⟩
  · exact .inr rfl

theorem Chip.gain_of_powered {s : Chip} {ref : Ref} (h : ref ≠ .pm ∨ s.total .pm ≠ 0) (who : Who)
    (regs : ℕ → Word) : s.gain who ref regs = s.setHeld who ref (s.held who ref + 1) := by
  rcases s.gain_cases who ref regs with ⟨href, htotal, -⟩ | heq
  · exact (h.elim (· href) (· htotal)).elim
  · exact heq

theorem Chip.drop_of_pos {s : Chip} {who : Who} {ref : Ref} (h : 0 < s.held who ref) :
    s.drop who ref = s.setHeld who ref (s.held who ref - 1) :=
  if_neg (Nat.ne_of_gt h)

theorem Chip.touch_of_pos {s : Chip} (hpm : 0 < s.total .pm) (hclk : 0 < s.total (.enable .hclk)) :
    s.touch = s := by
  unfold Chip.touch
  rw [beq_false_of_ne (Nat.ne_of_gt hpm), beq_false_of_ne (Nat.ne_of_gt hclk), Bool.or_false,
    Bool.or_false]

theorem Chip.held_setHeld_self (s : Chip) (who : Who) (ref : Ref) (n : ℕ) (ref' : Ref) :
    (s.setHeld who ref n).held who ref' = if ref' = ref then n else s.held who ref' := by
  simp only [Chip.setHeld, Function.update_self, Function.update_apply]

theorem Chip.held_setHeld_of_ne (s : Chip) {who who' : Who} (h : who' ≠ who) (ref : Ref) (n : ℕ) :
    (s.setHeld who ref n).held who' = s.held who' := Function.update_of_ne h ..

/-- The log only grows. -/
theorem log_grows (steady : Steady) (who : Who) (s : Chip) (q : Request) (o : Outcome) :
    s.log <+: (answer steady who s q o).1.log := by
  have hnote : ∀ e, s.log <+: (s.note e).log := by
    intro e
    rw [s.log_note]
    exact List.prefix_append _ _
  have hgain : ∀ ref, (s.gain who ref o.regs).log = s.log := by
    intro ref
    rcases s.gain_cases who ref o.regs with ⟨-, -, heq⟩ | heq <;> rw [heq] <;> rfl
  cases q with
  | take ref =>
    simp only [answer]
    split_ifs
    · exact List.prefix_rfl
    · exact (hgain ref).symm ▸ List.prefix_rfl
  | takeInUse =>
    simp only [answer]
    split_ifs
    · exact hnote .lateIrq
    · exact List.prefix_rfl
    · exact (hgain .pm).symm ▸ List.prefix_rfl
  | drop ref =>
    simp only [answer, Chip.drop]
    split_ifs <;> exact List.prefix_rfl
  | writel masked offset v => cases masked <;> exact List.prefix_rfl
  | memory op => cases op <;> exact List.prefix_rfl
  | flip op =>
    cases op with
    | send =>
      simp only [answer, Chip.flipStep]
      split
      · exact List.prefix_rfl
      · exact List.prefix_append _ _
    | claim => exact List.prefix_rfl
    | _ => exact List.prefix_append _ _
  | note e => exact hnote e
  | readl | reset | runtimePm | requestIrq | raised | result => exact List.prefix_rfl

theorem Regular.of_log {s t : Chip} (h : Regular t) (hlog : s.log <+: t.log) : Regular s :=
  fun e he => h e (hlog.subset he)

theorem regular_latch (steady : Steady) (who : Who) (s : Chip) (q : Request) (o : Outcome)
    (h : Regular (answer steady who s q o).1) : Regular s :=
  h.of_log (log_grows steady who s q o)

/-! ## The parties -/

/-- The registers, and what the driver keeps of them, are left alone but for words that are
written with a mask. -/
structure Alike (steady : Steady) (s t : Chip) : Prop where
  regsbak : t.memory.regsbak = s.memory.regsbak
  found : t.found = s.found
  sets : t.sets = s.sets
  left : t.left = s.left
  masked : s.masked ⊆ t.masked
  regs : ∀ k, steady k = true → k ∉ t.masked → t.regs k = s.regs k

/-- What the handler and the worker may do between two requests of a call. -/
structure Beside (steady : Steady) (s t : Chip) : Prop extends Alike steady s t where
  held : t.held .ops = s.held .ops
  memory : t.memory = s.memory
  bound : t.bound = s.bound
  lost : ∀ ref, lost t.log ref = lost s.log ref

variable {steady : Steady}

theorem Alike.refl (s : Chip) : Alike steady s s :=
  ⟨rfl, rfl, rfl, rfl, List.Subset.refl _, fun _ _ _ => rfl⟩

theorem Alike.trans {s t u : Chip} (hst : Alike steady s t) (htu : Alike steady t u) :
    Alike steady s u where
  regsbak := htu.regsbak.trans hst.regsbak
  found := htu.found.trans hst.found
  sets := htu.sets.trans hst.sets
  left := htu.left.trans hst.left
  masked := List.Subset.trans hst.masked htu.masked
  regs k hk hmasked := (htu.regs k hk hmasked).trans
    (hst.regs k hk fun h => hmasked (htu.masked h))

theorem Beside.refl (s : Chip) : Beside steady s s :=
  ⟨.refl s, rfl, rfl, rfl, fun _ => rfl⟩

theorem Beside.trans {s t u : Chip} (hst : Beside steady s t) (htu : Beside steady t u) :
    Beside steady s u where
  toAlike := hst.toAlike.trans htu.toAlike
  held := htu.held.trans hst.held
  memory := htu.memory.trans hst.memory
  bound := htu.bound.trans hst.bound
  lost ref := (htu.lost ref).trans (hst.lost ref)

variable (steady) in
/-- The parties, as long as the run is regular. -/
def chipParty : Who → Party Chip
  | .ops =>
    { rely := Beside steady
      guarantee := fun s t => t.held .irq = s.held .irq ∧ (s.bad = false → t.bad = false)
      refl := Beside.refl
      trans := Beside.trans }
  | .irq =>
    { rely := fun s t => t.held .irq = s.held .irq
      guarantee := fun s t => Beside steady s t ∧ (s.bad = false → t.bad = false)
      refl := fun _ => rfl
      trans := fun hst htu => htu.trans hst }
  | .worker =>
    { rely := fun _ _ => True
      guarantee := fun s t =>
        Beside steady s t ∧ t.held .irq = s.held .irq ∧ (s.bad = false → t.bad = false)
      refl := fun _ => trivial
      trans := fun _ _ => trivial }

theorem chipParty_agree {k k' : Who} (h : k ≠ k') :
    (chipParty steady k).Agree (chipParty steady k') := by
  cases k <;> cases k' <;> first
    | exact (h rfl).elim
    | exact ⟨fun _ _ hg => hg.1, fun _ _ hg => hg.1⟩
    | exact ⟨fun _ _ _ => trivial, fun _ _ hg => hg.1⟩
    | exact ⟨fun _ _ hg => hg.1, fun _ _ _ => trivial⟩
    | exact ⟨fun _ _ _ => trivial, fun _ _ hg => hg.2.1⟩
    | exact ⟨fun _ _ hg => hg.2.1, fun _ _ _ => trivial⟩

/-! ## Requests that are nothing to the others -/

/-- The flips change, and nothing is lost in the log. -/
theorem beside_flips (s : Chip) (flips : Flips) {l : List Event}
    (h : ∀ e ∈ l, ∀ ref, e.loses ref = 0) :
    Beside steady s { s with flips := flips, log := s.log ++ l } where
  toAlike := ⟨rfl, rfl, rfl, rfl, List.Subset.refl _, fun _ _ _ => rfl⟩
  held := rfl
  memory := rfl
  bound := rfl
  lost ref := by
    have hl : Vop.lost l ref = 0 := List.sum_eq_zero_iff_forall_eq_nat.mpr fun k hk => by
      obtain ⟨e, he, rfl⟩ := List.mem_map.mp hk
      exact h e he ref
    rw [lost_append, hl, Nat.add_zero]

/-- What a step on the flips can do. -/
theorem Chip.flipStep_cases (s : Chip) (o : Outcome) (op : FlipOp) : ∃ flips l,
    s.flipStep o op = { s with flips := flips, log := s.log ++ l } ∧
      ∀ e ∈ l, ∀ ref, e.loses ref = 0 := by
  cases op with
  | claim => exact ⟨_, [], by rw [List.append_nil]; rfl, by simp⟩
  | send =>
    simp only [Chip.flipStep]
    split
    · exact ⟨s.flips, [], by rw [List.append_nil], by simp⟩
    · exact ⟨_, _, rfl, by simp [Event.loses]⟩
  | queue fb =>
    refine ⟨s.flips, _, rfl, ?_⟩
    split_ifs <;> simp [Event.loses]
  | _ => exact ⟨_, _, rfl, by simp [Event.loses]⟩

theorem answer_flip (steady : Steady) (who : Who) (s : Chip) (op : FlipOp) (o : Outcome) :
    (answer steady who s (.flip op) o).1 = s.flipStep o op := by
  cases op <;> rfl

/-- A request that has nothing to do with references, registers and the memory of the calls. -/
def Request.silent : Request → Prop
  | .flip _ | .runtimePm _ | .requestIrq _ | .raised | .result | .memory .load => True
  | _ => False

/-- A register is read, or written with a mask. -/
def Request.passing : Request → Prop
  | .readl _ | .writel true _ _ => True
  | _ => False

def Request.idle (q : Request) : Prop := q.silent ∨ q.passing

variable (steady) in
theorem silent_step {q : Request} (hq : q.silent) (who : Who) (s : Chip) (o : Outcome) :
    Beside steady s (answer steady who s q o).1 ∧ (answer steady who s q o).1.held = s.held ∧
      (answer steady who s q o).1.bad = s.bad := by
  cases q with
  | flip op =>
    obtain ⟨flips, l, hstep, hl⟩ := s.flipStep_cases o op
    rw [answer_flip, hstep]
    exact ⟨beside_flips s flips hl, rfl, rfl⟩
  | runtimePm on | requestIrq on =>
    refine ⟨⟨⟨rfl, rfl, rfl, rfl, List.Subset.refl _, fun _ _ _ => rfl⟩, rfl, rfl, rfl, ?_⟩, rfl,
      rfl⟩
    exact fun _ => rfl
  | raised | result => exact ⟨.refl s, rfl, rfl⟩
  | memory op =>
    cases op with
    | load => exact ⟨.refl s, rfl, rfl⟩
    | _ => exact hq.elim
  | _ => exact hq.elim

variable (steady) in
theorem idle_step {q : Request} (hq : q.idle) (who : Who) {s : Chip} (hpm : 0 < s.total .pm)
    (hclk : 0 < s.total (.enable .hclk)) (o : Outcome) :
    Beside steady s (answer steady who s q o).1 ∧ (answer steady who s q o).1.held = s.held ∧
      (answer steady who s q o).1.bad = s.bad := by
  rcases hq with hq | hq
  · exact silent_step steady hq who s o
  cases q with
  | readl offset =>
    simp only [answer, Chip.answers_fst, Chip.touch_of_pos hpm hclk]
    exact ⟨.refl s, trivial, trivial⟩
  | writel masked offset v =>
    cases masked with
    | false => exact hq.elim
    | true =>
      simp only [answer, Chip.answers_fst, Chip.touch_of_pos hpm hclk]
      refine ⟨⟨⟨rfl, rfl, rfl, rfl, List.subset_append_left _ _, fun k _ hk => ?_⟩, rfl, rfl, rfl,
        fun _ => rfl⟩, rfl, rfl⟩
      refine Function.update_of_ne (fun heq => hk ?_) ..
      exact List.mem_append_right _ (List.mem_singleton.mpr heq)
  | _ => exact hq.elim

/-! ### The parts of the driver that only do that -/

theorem silent_result : result.Asks Request.silent :=
  (Prog.asks_ask (q := Request.result) trivial).bind fun _ => Prog.asks_pure _

theorem silent_load : load.Asks Request.silent :=
  (Prog.asks_ask (q := Request.memory .load) trivial).bind fun _ => Prog.asks_pure _

theorem silent_flip (op : FlipOp) : (flip op).Asks Request.silent :=
  (Prog.asks_ask (q := Request.flip op) trivial).bind fun _ => Prog.asks_pure _

theorem idle_of_silent {α : Type} {p : Io α} (h : p.Asks Request.silent) : p.Asks Request.idle :=
  h.mono fun _ => .inl

theorem idle_vopReadReg (base : ℕ) (reg : VopReg) : (vopReadReg base reg).Asks Request.idle :=
  ((Prog.asks_ask (.inr trivial)).bind fun _ => Prog.asks_pure _).bind fun _ => Prog.asks_pure _

theorem idle_vopGetIntrType (data : VopData) (reg : VopReg) (type : Word) :
    (vopGetIntrType data reg type).Asks Request.idle :=
  (idle_vopReadReg 0 reg).bind fun _ => Prog.asks_pure _

/-- The register is written with a mask, or is not there. -/
def VopReg.Masked (reg : VopReg) : Prop := reg.mask = 0 ∨ reg.writeMask = true

/-- The registers that turn interrupts on and off are. -/
structure VopIntr.Masked (intr : VopIntr) : Prop where
  enable : intr.enable.Masked
  clear : intr.clear.Masked

theorem idle_vopRegSet {reg : VopReg} (h : reg.Masked) (base : ℕ) (mask v : Word) :
    (vopRegSet reg base mask v).Asks Request.idle := by
  unfold vopRegSet
  refine (em (reg.mask = 0)).elim (fun hmask => ?_) fun hmask => ?_
  · rw [if_pos hmask]
    exact Prog.asks_pure _
  · rw [if_neg hmask, if_pos (h.resolve_left hmask)]
    exact (Prog.asks_ask (.inr trivial)).bind fun _ => Prog.asks_pure _

variable {data : VopData}

theorem idle_intrSetType {reg : VopReg} (h : reg.Masked) (type v : Word) :
    (intrSetType data reg type v).Asks Request.idle := idle_vopRegSet h _ _ _

theorem idle_vopHandleVblank : vopHandleVblank.Asks Request.idle :=
  idle_of_silent <| (silent_flip .send).bind fun _ =>
    (Prog.asks_ask (q := Request.flip .claim) trivial).bind fun _ =>
      .ite (Prog.asks_pure _) (silent_flip .commit)

theorem idle_clearActive (h : data.intr.Masked) (activeIrqs : Word) :
    (clearActive data activeIrqs).Asks Request.idle :=
  .ite (Prog.asks_pure _) (idle_intrSetType h.clear _ _)

theorem idle_frameStart (hdr : Header) (activeIrqs : Word) :
    (frameStart hdr activeIrqs).Asks Request.idle :=
  .ite (Prog.asks_pure _) <|
    (idle_of_silent (silent_flip .vblank)).bind fun _ => idle_vopHandleVblank

end Vop
end WardenSdk
