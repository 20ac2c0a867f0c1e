import WardenSdk.Vop.Interrupt

/-!
# What the calls keep

`Core` is what a part of a call starts from and ends with: the references that the driver
holds beside those that are lost for good, the flags of its memory, and an assertion about
registers.

`Regs` is that assertion in a VOP that has been set up: `regsbak` is what was found in the
registers with what has been put into fields since; while nothing has been lost, the device
holds what `regsbak` says; and while a scanout is taken over, only a few fields have been
touched at all.  A part of the driver that only sets fields keeps it (`Keeps`, in the next
file).
-/

namespace WardenSdk
namespace Vop

open Lib

/-- The assertion does not mind words that are written with a mask. -/
def Respects (steady : Steady) (R : Chip → Prop) : Prop := ∀ {s t}, Alike steady s t → R s → R t

structure Core (n : Ref → ℕ) (enabled loader bound : Bool) (R : Chip → Prop) (s : Chip) : Prop where
  holds : ∀ ref, s.held .ops ref = n ref + lost s.log ref
  enabled : s.memory.isEnabled = enabled
  loader : s.memory.loaderActive = loader
  bound : s.bound = bound
  regs : R s

variable {steady : Steady} {n : Ref → ℕ} {e l b : Bool} {R : Chip → Prop}

theorem Core.beside {s t : Chip} (h : Core n e l b R s) (hR : Respects steady R)
    (hst : Beside steady s t) : Core n e l b R t where
  holds ref := by rw [hst.held, hst.lost, h.holds]
  enabled := hst.memory ▸ h.enabled
  loader := hst.memory ▸ h.loader
  bound := hst.bound.trans h.bound
  regs := hR hst.toAlike h.regs

theorem stable_core (hR : Respects steady R) : (chipParty steady .ops).Stable (Core n e l b R) :=
  fun hst hs => hs.beside hR hst

theorem Core.powered {s : Chip} (h : Core n e l b R s) (hn : Powered n) :
    0 < s.total .pm ∧ 0 < s.total (.enable .hclk) := by
  unfold Chip.total
  rw [h.holds, h.holds]
  have hpm := hn.1
  have hclk := hn.2
  omega

/-- A part of a call, as long as the run is regular. -/
abbrev Runs (steady : Steady) {α : Type} (P : Chip → Prop) (p : Io α) (Q : α → Chip → Prop) :
    Prop :=
  p.MeetsWhile (answer steady .ops) (chipParty steady .ops) Regular P Q

/-- Requests that leave the references and the memory of the calls alone. -/
theorem runs_beside {α : Type} {p : Io α} {allowed : Request → Prop} (h : p.Asks allowed)
    (hR : Respects steady R) (step : ∀ q, allowed q → ∀ s o, Core n e l b R s →
      Beside steady s (answer steady .ops s q o).1 ∧ (answer steady .ops s q o).1.held = s.held ∧
        (answer steady .ops s q o).1.bad = s.bad) :
    Runs steady (Core n e l b R) p fun _ => Core n e l b R := by
  refine h.meetsWhile (regular_latch steady .ops) (stable_core hR) fun q hq s o hs _ => ?_
  obtain ⟨hbeside, hheld, hbad⟩ := step q hq s o hs
  exact ⟨⟨congrFun hheld .irq, fun h => hbad.trans h⟩, hs.beside hR hbeside⟩

theorem runs_silent {α : Type} {p : Io α} (h : p.Asks Request.silent) (hR : Respects steady R) :
    Runs steady (Core n e l b R) p fun _ => Core n e l b R :=
  runs_beside h hR fun _ hq s o _ => silent_step steady hq .ops s o

theorem runs_idle {α : Type} {p : Io α} (h : p.Asks Request.idle) (hR : Respects steady R)
    (hn : Powered n) : Runs steady (Core n e l b R) p fun _ => Core n e l b R :=
  runs_beside h hR fun _ hq _ o hs =>
    have ⟨hpm, hclk⟩ := hs.powered hn
    idle_step steady hq .ops hpm hclk o

theorem runs_pure {α : Type} {a : α} (hR : Respects steady R) :
    Runs steady (Core n e l b R) (pure a) fun _ => Core n e l b R :=
  Prog.meetsWhile_pure (R := fun _ => Core n e l b R) (stable_core hR)

/-- What has been loaded is what the memory holds, since nobody else writes it. -/
theorem runs_load (hR : Respects steady R) : Runs steady (Core n e l b R) load fun m s =>
    s.memory = m ∧ Core n e l b R s := by
  refine Prog.meetsWhile_ask_bind (regular_latch steady .ops) (stable_core hR)
    (fun m s t hst hs => ⟨hst.memory.trans hs.1, hs.2.beside hR hst⟩) fun s o hs _ => ?_
  exact ⟨⟨rfl, id⟩, rfl, hs⟩

/-- A call that asks first whether the VOP is enabled. -/
theorem runs_guarded {α : Type} {a : α} {rest : Memory → Io α} (hR : Respects steady R)
    (h : e = true → ∀ m, Runs steady (Core n e l b R) (rest m) fun _ => Core n e l b R) :
    Runs steady (Core n e l b R)
      (load >>= fun vop => if (!vop.isEnabled) = true then pure a else rest vop)
      fun _ => Core n e l b R := by
  refine (runs_load hR).bind fun m => .ite (fun _ => ?_) fun hm => ?_
  · exact (runs_pure hR).pre fun s hs => hs.2
  refine .of_imp (regular_latch steady .ops) (fun s hs => ?_) fun he =>
    (h he m).pre fun s hs => hs.2
  rw [← hs.2.enabled, hs.1]
  simpa using hm

/-! ## References and memory -/

/-- A step on the memory of the calls that leaves the registers alone. -/
theorem Core.alike {n' : Ref → ℕ} {e' l' b' : Bool} {s t : Chip} (h : Core n e l b R s)
    (hR : Respects steady R) (hst : Alike steady s t)
    (holds : ∀ ref, t.held .ops ref = n' ref + lost t.log ref) (enabled : t.memory.isEnabled = e')
    (loader : t.memory.loaderActive = l') (bound : t.bound = b') : Core n' e' l' b' R t :=
  ⟨holds, enabled, loader, bound, hR hst h.regs⟩

theorem alike_of_eq {s t : Chip} (hmemory : t.memory.regsbak = s.memory.regsbak)
    (hfound : t.found = s.found) (hsets : t.sets = s.sets) (hleft : t.left = s.left)
    (hmasked : t.masked = s.masked) (hregs : t.regs = s.regs) : Alike steady s t :=
  ⟨hmemory, hfound, hsets, hleft, hmasked ▸ List.Subset.refl _, fun _ _ _ => hregs ▸ rfl⟩

theorem holds_setHeld {s : Chip} (h : Core n e l b R s) (ref : Ref) {k k' : ℕ}
    (hk : k = k' + lost s.log ref) (ref' : Ref) :
    (s.setHeld .ops ref k).held .ops ref' = Function.update n ref k' ref' + lost s.log ref' := by
  rw [s.held_setHeld_self, Function.update_apply]
  split_ifs with heq
  · rw [heq, hk]
  · exact h.holds ref'

theorem runs_drop (hR : Respects steady R) (ref : Ref) (hn : 0 < n ref) :
    Runs steady (Core n e l b R) (drop ref) fun _ => Core (less ref n) e l b R := by
  refine Prog.meetsWhile_ask_bind (regular_latch steady .ops) (stable_core hR)
    (fun _ => stable_core hR) fun s o hs _ => ?_
  simp only [answer, Chip.answers_fst]
  have hpos : 0 < s.held .ops ref := by
    rw [hs.holds]
    exact Nat.add_pos_left hn _
  rw [Chip.drop_of_pos hpos]
  refine ⟨⟨s.held_setHeld_of_ne (by decide) ref _, id⟩, hs.alike hR
    (alike_of_eq rfl rfl rfl rfl rfl rfl) (holds_setHeld hs ref ?_) hs.enabled hs.loader hs.bound⟩
  rw [hs.holds]
  omega

/-- A reference is taken: on power only while it is there, or where nothing is known of the
registers yet. -/
theorem runs_take (hR : Respects steady R) (ref : Ref)
    (hpower : ref ≠ .pm ∨ 0 < n .pm ∨ ∀ s regs, R s → R (s.lose regs)) :
    Runs steady (Core n e l b R) (take ref) fun ret =>
      Either ret (Core n e l b R) (Core (more ref n) e l b R) := by
  refine Prog.meetsWhile_ask_bind (regular_latch steady .ops) (stable_core hR)
    (fun _ => stable_either (stable_core hR) (stable_core hR)) fun s o hs _ => ?_
  simp only [answer]
  split_ifs with hret
  · exact ⟨⟨rfl, id⟩, .inl ⟨hret, hs⟩⟩
  have hmore (t : Chip) (ht : Core n e l b R t) :
      Core (more ref n) e l b R (t.setHeld .ops ref (t.held .ops ref + 1)) := by
    refine ht.alike hR (alike_of_eq rfl rfl rfl rfl rfl rfl) (holds_setHeld ht ref ?_) ht.enabled
      ht.loader ht.bound
    rw [ht.holds]
    omega
  have hirq (t : Chip) : (t.setHeld .ops ref (t.held .ops ref + 1)).held .irq = t.held .irq :=
    t.held_setHeld_of_ne (by decide) ref _
  rcases s.gain_cases .ops ref o.regs with ⟨rfl, htotal, hgain⟩ | hgain
  · have hlose : ∀ s regs, R s → R (s.lose regs) := by
      refine (hpower.resolve_left (· rfl)).resolve_left fun hn => ?_
      unfold Chip.total at htotal
      rw [hs.holds] at htotal
      omega
    have hlost : Core n e l b R (s.lose o.regs) :=
      ⟨hs.holds, hs.enabled, hs.loader, hs.bound, hlose s o.regs hs.regs⟩
    simp only [Chip.answers_fst, hgain]
    exact ⟨⟨hirq (s.lose o.regs), id⟩, .inr ⟨rfl, hmore _ hlost⟩⟩
  · simp only [Chip.answers_fst, hgain]
    exact ⟨⟨hirq s, id⟩, .inr ⟨rfl, hmore s hs⟩⟩

/-! ## What is known of the registers -/

/-- The word keeps what is written into it, and nobody has written it with a mask. -/
def Chip.Plain (s : Chip) (steady : Steady) (words k : ℕ) : Prop :=
  k < words ∧ steady k = true ∧ k ∉ s.masked

/-- `regsbak` is what was found, with what has been put into fields since. -/
def Recorded (steady : Steady) (words : ℕ) (s : Chip) : Prop :=
  ∀ k, s.Plain steady words k → s.memory.regsbak k = Cell.puts s.found s.sets k

/-- The device holds what `regsbak` says. -/
def Mirrored (steady : Steady) (words : ℕ) (s : Chip) : Prop :=
  ∀ k, s.Plain steady words k → s.regs k = s.memory.regsbak k

/-- What was found is what was left, and nothing but these cells has been set since. -/
structure Kept (steady : Steady) (words : ℕ) (cells : List (Cell 32)) (s : Chip) : Prop where
  found : ∀ k, s.Plain steady words k → s.found k = s.left k
  sets : ∀ x ∈ s.sets, x.1 ∈ cells

/-- The device and `regsbak` agree; with `some cells`, the device is as it was left but for
these. -/
structure Regs (steady : Steady) (words : ℕ) (only : Option (List (Cell 32))) (s : Chip) :
    Prop where
  recorded : Recorded steady words s
  mirrored : Mirrored steady words s
  kept : ∀ cells ∈ only, Kept steady words cells s

variable {words : ℕ} {only : Option (List (Cell 32))}

theorem Alike.plain {s t : Chip} (h : Alike steady s t) {k : ℕ} (hk : t.Plain steady words k) :
    s.Plain steady words k :=
  ⟨hk.1, hk.2.1, fun hmasked => hk.2.2 (h.masked hmasked)⟩

theorem respects_true : Respects steady fun _ => True := fun _ _ => trivial

theorem respects_recorded : Respects steady (Recorded steady words) := by
  intro s t hst hs k hk
  rw [hst.regsbak, hst.found, hst.sets]
  exact hs k (hst.plain hk)

theorem respects_mirrored : Respects steady (Mirrored steady words) := by
  intro s t hst hs k hk
  rw [hst.regsbak, hst.regs k hk.2.1 hk.2.2]
  exact hs k (hst.plain hk)

theorem respects_regs : Respects steady (Regs steady words only) := by
  intro s t hst hs
  refine ⟨respects_recorded hst hs.recorded, respects_mirrored hst hs.mirrored,
    fun cells hcells => ⟨fun k hk => ?_, ?_⟩⟩
  · rw [hst.found, hst.left]
    exact (hs.kept cells hcells).found k (hst.plain hk)
  · rw [hst.sets]
    exact (hs.kept cells hcells).sets

/-- What a store into `regsbak` leaves to be written into the device. -/
structure Stored (steady : Steady) (words : ℕ) (only : Option (List (Cell 32))) (k : ℕ) (v : Word)
    (s : Chip) : Prop where
  recorded : Recorded steady words s
  mirrored : ∀ i ≠ k, s.Plain steady words i → s.regs i = s.memory.regsbak i
  kept : ∀ cells ∈ only, Kept steady words cells s
  value : s.memory.regsbak k = v

theorem respects_stored {k : ℕ} {v : Word} : Respects steady (Stored steady words only k v) := by
  intro s t hst hs
  refine ⟨respects_recorded hst hs.recorded, fun i hi hplain => ?_, fun cells hcells =>
    ⟨fun i hi => ?_, ?_⟩, ?_⟩
  · rw [hst.regsbak, hst.regs i hplain.2.1 hplain.2.2]
    exact hs.mirrored i hi (hst.plain hplain)
  · rw [hst.found, hst.left]
    exact (hs.kept cells hcells).found i (hst.plain hi)
  · rw [hst.sets]
    exact (hs.kept cells hcells).sets
  · rw [hst.regsbak, hs.value]

theorem Regs.put {s : Chip} (h : Regs steady words only s) {c : Cell 32}
    (hc : ∀ cells ∈ only, c ∈ cells) (v : Word) :
    Stored steady words only c.word (c.put v s.memory.regsbak c.word)
      (s.memoryStep (.put c v)) where
  recorded k hk := by
    have hput := Cell.put_congr (c := c) (v := v) (h.recorded k hk)
    simp only [Chip.memoryStep, Cell.puts, run_concat]
    exact hput
  mirrored k hk hplain := by
    simp only [Chip.memoryStep, Cell.put_apply_of_ne hk]
    exact h.mirrored k hplain
  kept cells hcells := by
    refine ⟨(h.kept cells hcells).found, fun x hx => ?_⟩
    rcases List.mem_append.mp hx with hx | hx
    · exact (h.kept cells hcells).sets x hx
    · rw [List.mem_singleton.mp hx]
      exact hc cells hcells
  value := rfl

theorem Stored.writel {s : Chip} {k : ℕ} {v : Word} (h : Stored steady words only k v s)
    (o : Word) : Regs steady words only (s.writel false k v o) where
  recorded := h.recorded
  mirrored i hi := by
    by_cases hik : i = k
    · subst hik
      exact (Function.update_self ..).trans h.value.symm
    · exact (Function.update_of_ne hik ..).trans (h.mirrored i hik hi)
  kept cells hcells := ⟨(h.kept cells hcells).found, (h.kept cells hcells).sets⟩

/-- **A register is set**: in `regsbak`, and then in the device. -/
theorem runs_vopRegSet (hn : Powered n) (reg : VopReg) (base : ℕ) (mask v : Word)
    (hc : ∀ cells ∈ only, reg.cell base mask ∈ cells) :
    Runs steady (Core n e l b (Regs steady words only)) (vopRegSet reg base mask v)
      fun _ => Core n e l b (Regs steady words only) := by
  by_cases hreg : reg.Masked
  · exact runs_idle (idle_vopRegSet hreg base mask v) respects_regs hn
  obtain ⟨hmask, hwrite⟩ := not_or.mp hreg
  unfold vopRegSet
  rw [if_neg hmask, if_neg hwrite]
  have hput : Runs steady (Core n e l b (Regs steady words only))
      (Prog.ask (.memory (.put (reg.cell base mask) v)))
      fun a => Core n e l b (Stored steady words only ((reg.offset + base) / 4) a.val) := by
    refine Prog.meetsWhile_ask (regular_latch steady .ops) (stable_core respects_regs)
      (fun _ => stable_core respects_stored) fun s o hs _ => ?_
    exact ⟨⟨rfl, id⟩, hs.holds, hs.enabled, hs.loader, hs.bound, hs.regs.put hc v⟩
  refine hput.bind fun a => ?_
  refine Prog.meetsWhile_ask_bind (regular_latch steady .ops) (stable_core respects_stored)
    (fun _ => stable_core respects_regs) fun s o hs _ => ?_
  obtain ⟨hpm, hclk⟩ := hs.powered hn
  simp only [answer, Chip.answers_fst, Chip.touch_of_pos hpm hclk]
  exact ⟨⟨rfl, id⟩, hs.holds, hs.enabled, hs.loader, hs.bound, hs.regs.writel o.val⟩

/-! ## The registers are copied, and written back -/

/-- The memory of the driver is written. -/
theorem runs_store {n' : Ref → ℕ} {e' l' b' : Bool} {R' : Chip → Prop} {op : MemoryOp}
    (hR : Respects steady R) (hR' : Respects steady R')
    (step : ∀ s, Core n e l b R s → Core n' e' l' b' R' (s.memoryStep op)) :
    Runs steady (Core n e l b R) (store op) fun _ => Core n' e' l' b' R' := by
  refine Prog.meetsWhile_ask_bind (regular_latch steady .ops) (stable_core hR)
    (fun _ => stable_core hR') fun s o hs _ => ?_
  have hanswer : (answer steady .ops s (.memory op) o).1 = s.memoryStep op := by cases op <;> rfl
  have hheld : (s.memoryStep op).held = s.held := by cases op <;> rfl
  have hbad : (s.memoryStep op).bad = s.bad := by cases op <;> rfl
  rw [hanswer]
  exact ⟨⟨congrFun hheld .irq, fun h => hbad.trans h⟩, step s hs⟩

theorem runs_setEnabled (hR : Respects steady R) (on : Bool) : Runs steady (Core n e l b R)
    (store (.setEnabled on)) fun _ => Core n on l b R :=
  runs_store hR hR fun _ hs => hs.alike hR (alike_of_eq rfl rfl rfl rfl rfl rfl) hs.holds rfl
    hs.loader hs.bound

theorem runs_setLoader (hR : Respects steady R) (on : Bool) : Runs steady (Core n e l b R)
    (store (.setLoader on)) fun _ => Core n e on b R :=
  runs_store hR hR fun _ hs => hs.alike hR (alike_of_eq rfl rfl rfl rfl rfl rfl) hs.holds
    hs.enabled rfl hs.bound

/-- A loop over the words. -/
theorem runs_words {f : ℕ → Io Unit} {P : ℕ → Chip → Prop}
    (stable : ∀ i, (chipParty steady .ops).Stable (P i))
    (step : ∀ i, Runs steady (P i) (f i) fun _ => P (i + 1)) :
    Runs steady (P 0) (Prog.each f (List.range words)) fun _ => P words := by
  have hloop : Runs steady (P 0) (Prog.each f (List.range words))
      fun _ => P (0 + (List.range words).length) := by
    refine Prog.meetsWhile_each stable fun i j hj => ?_
    obtain ⟨hi, hj⟩ := List.getElem?_eq_some_iff.mp hj
    rw [List.getElem_range] at hj
    rw [← hj, Nat.zero_add]
    exact step i
  rwa [Nat.zero_add, List.length_range] at hloop

/-- The first words of the device hold what `regsbak` says. -/
structure Restored (steady : Steady) (words i : ℕ) (s : Chip) : Prop where
  recorded : Recorded steady words s
  mirrored : ∀ k < i, s.Plain steady words k → s.regs k = s.memory.regsbak k

theorem respects_restored {i : ℕ} : Respects steady (Restored steady words i) := by
  intro s t hst hs
  refine ⟨respects_recorded hst hs.recorded, fun k hk hplain => ?_⟩
  rw [hst.regsbak, hst.regs k hplain.2.1 hplain.2.2]
  exact hs.mirrored k hk (hst.plain hplain)

theorem Restored.writel {i : ℕ} {s : Chip} (h : Restored steady words i s) (o : Word) :
    Restored steady words (i + 1) (s.writel false i (s.memory.regsbak i) o) where
  recorded := h.recorded
  mirrored k hk hplain := by
    by_cases hki : k = i
    · subst hki
      exact Function.update_self ..
    · have hlt : k < i := Nat.lt_of_le_of_ne (Nat.le_of_lt_succ hk) hki
      exact (Function.update_of_ne hki ..).trans (h.mirrored k hlt hplain)

/-- **The device is restored from `regsbak`.** -/
theorem runs_restore (hn : Powered n) : Runs steady (Core n e l b (Recorded steady words))
    (restore words) fun _ => Core n e l b (Regs steady words none) := by
  have hbody (i : ℕ) : Runs steady (Core n e l b (Restored steady words i))
      (load >>= fun vop => writel false (4 * i) (vop.regsbak i))
      fun _ => Core n e l b (Restored steady words (i + 1)) := by
    refine (runs_load respects_restored).bind fun m => ?_
    refine Prog.meetsWhile_ask_bind (regular_latch steady .ops)
      (fun hst hs => ⟨hst.memory.trans hs.1, hs.2.beside respects_restored hst⟩)
      (fun _ => stable_core respects_restored) fun s o hs _ => ?_
    obtain ⟨rfl, hs⟩ := hs
    obtain ⟨hpm, hclk⟩ := hs.powered hn
    have hword : 4 * i / 4 = i := Nat.mul_div_cancel_left i (by decide)
    simp only [answer, Chip.answers_fst, Chip.touch_of_pos hpm hclk, hword]
    exact ⟨⟨rfl, id⟩, hs.holds, hs.enabled, hs.loader, hs.bound, hs.regs.writel o.val⟩
  refine (runs_words (P := fun i => Core n e l b (Restored steady words i))
    (fun i => stable_core respects_restored) hbody).mono (fun s hs => ?_) fun _ s hs => ?_
  · exact ⟨hs.holds, hs.enabled, hs.loader, hs.bound, hs.regs,
      fun _ hk => absurd hk (Nat.not_lt_zero _)⟩
  · exact ⟨hs.holds, hs.enabled, hs.loader, hs.bound, hs.regs.recorded,
      fun k hk => hs.regs.mirrored k hk.1 hk,
      fun cells h => absurd h (Option.not_mem_none cells)⟩

/-- The device is as the driver has found it. -/
def Fresh (steady : Steady) (words : ℕ) (s : Chip) : Prop :=
  ∀ k, s.Plain steady words k → s.regs k = s.left k

theorem respects_fresh : Respects steady (Fresh steady words) := by
  intro s t hst hs k hk
  rw [hst.left, hst.regs k hk.2.1 hk.2.2]
  exact hs k (hst.plain hk)

theorem fresh_lose (s : Chip) (regs : ℕ → Word) : Fresh steady words (s.lose regs) := fun _ _ => rfl

/-- The first words have been copied. -/
structure Copied (steady : Steady) (words i : ℕ) (s : Chip) : Prop where
  found : ∀ k, s.Plain steady words k → s.found k = s.left k
  regs : ∀ k, s.Plain steady words k → s.regs k = s.found k
  sets : s.sets = []
  copied : ∀ k < i, s.Plain steady words k → s.memory.regsbak k = s.found k

theorem respects_copied {i : ℕ} : Respects steady (Copied steady words i) := by
  intro s t hst hs
  refine ⟨fun k hk => ?_, fun k hk => ?_, hst.sets.trans hs.sets, fun k hk hplain => ?_⟩
  · rw [hst.found, hst.left]
    exact hs.found k (hst.plain hk)
  · rw [hst.found, hst.regs k hk.2.1 hk.2.2]
    exact hs.regs k (hst.plain hk)
  · rw [hst.found, hst.regsbak]
    exact hs.copied k hk (hst.plain hplain)

/-- The next word has been read. -/
structure Reading (steady : Steady) (words i : ℕ) (v : Word) (s : Chip) : Prop
    extends Copied steady words i s where
  value : s.Plain steady words i → v = s.found i

theorem respects_reading {i : ℕ} {v : Word} : Respects steady (Reading steady words i v) := by
  intro s t hst hs
  refine ⟨respects_copied hst hs.toCopied, fun hplain => ?_⟩
  rw [hst.found]
  exact hs.value (hst.plain hplain)

theorem Reading.fill {i : ℕ} {v : Word} {s : Chip} (h : Reading steady words i v s) :
    Copied steady words (i + 1) (s.memoryStep (.fill i v)) where
  found := h.found
  regs := h.regs
  sets := h.sets
  copied k hk hplain := by
    by_cases hki : k = i
    · subst hki
      exact (Function.update_self ..).trans (h.value hplain)
    · have hlt : k < i := Nat.lt_of_le_of_ne (Nat.le_of_lt_succ hk) hki
      exact (Function.update_of_ne hki ..).trans (h.copied k hlt hplain)

theorem Copied.regs_some {s : Chip} (h : Copied steady words words s) :
    Regs steady words (some []) s where
  recorded k hk := by
    rw [h.copied k hk.1 hk, h.sets]
    rfl
  mirrored k hk := (h.regs k hk).trans (h.copied k hk.1 hk).symm
  kept cells hcells := by
    refine ⟨h.found, fun x hx => ?_⟩
    rw [h.sets] at hx
    exact absurd hx List.not_mem_nil

/-- The copy begins. -/
theorem runs_storeSnapshot : Runs steady (Core n e l b (Fresh steady words)) (store .snapshot)
    fun _ => Core n e l b (Copied steady words 0) :=
  runs_store respects_fresh respects_copied fun _ hs =>
    ⟨hs.holds, hs.enabled, hs.loader, hs.bound, hs.regs, fun _ _ => rfl, rfl,
      fun _ hk => absurd hk (Nat.not_lt_zero _)⟩

/-- **What the registers hold is copied** into `regsbak`. -/
theorem runs_snapshot (hn : Powered n) : Runs steady (Core n e l b (Copied steady words 0))
    (snapshot words) fun _ => Core n e l b (Regs steady words (some [])) := by
  have hread (i : ℕ) : Runs steady (Core n e l b (Copied steady words i)) (vopReadl (4 * i))
      fun v => Core n e l b (Reading steady words i v) := by
    refine Prog.meetsWhile_ask_bind (regular_latch steady .ops) (stable_core respects_copied)
      (fun v => stable_core respects_reading) fun s o hs _ => ?_
    obtain ⟨hpm, hclk⟩ := hs.powered hn
    have hword : 4 * i / 4 = i := Nat.mul_div_cancel_left i (by decide)
    simp only [answer, Chip.answers, Chip.touch_of_pos hpm hclk, hword]
    refine ⟨⟨rfl, id⟩, hs.holds, hs.enabled, hs.loader, hs.bound, hs.regs, fun hplain => ?_⟩
    exact (if_pos hplain.2.1).trans (hs.regs.regs i hplain)
  have hbody (i : ℕ) : Runs steady (Core n e l b (Copied steady words i))
      (vopReadl (4 * i) >>= fun v => store (.fill i v))
      fun _ => Core n e l b (Copied steady words (i + 1)) := by
    refine (hread i).bind fun v => runs_store respects_reading respects_copied fun s hs => ?_
    exact ⟨hs.holds, hs.enabled, hs.loader, hs.bound, hs.regs.fill⟩
  refine (runs_words (P := fun i => Core n e l b (Copied steady words i))
    (fun i => stable_core respects_copied) hbody).mono (fun _ => id) fun _ s hs => ?_
  exact ⟨hs.holds, hs.enabled, hs.loader, hs.bound, hs.regs.regs_some⟩

/-- Nothing has been set yet. -/
theorem Regs.of_nil {s : Chip} (h : Regs steady words (some []) s) : Regs steady words only s where
  recorded := h.recorded
  mirrored := h.mirrored
  kept _ _ := by
    obtain ⟨hfound, hsets⟩ := h.kept [] rfl
    exact ⟨hfound, fun x hx => absurd (hsets x hx) List.not_mem_nil⟩

end Vop
end WardenSdk
