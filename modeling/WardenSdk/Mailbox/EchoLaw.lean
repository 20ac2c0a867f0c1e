import WardenSdk.Mailbox.Echo

/-!
# What the echo keeps and what it loses

The four channels share two status words and one firmware loop, but an access
concerns one channel at a time.  `ChanView` is what a channel sees of the system
and `view` takes it; the accesses of its sender and of the firmware inside its
body are functions of the view (`ChanView.linux`, `ChanView.work`), and all the
firmware does elsewhere is a `Sweeps` step or nothing (`view_firmware`).

`ChanView.Inv` is the invariant of one channel.  It has a place for a lost
message only where one can arise: a message whose doorbell rings while the
firmware is about to acknowledge the one before.  The acknowledgement comes after
the echo, and clears the doorbell of whatever was sent in between.

* The invariant with that place holds in every run, and gives the exactness of
  the echo.
* Without it the invariant holds as long as no doorbell rings during an
  acknowledgement, and then no message is ever lost.
* A doorbell that does ring then is lost three accesses later.
-/

namespace WardenSdk
namespace Mailbox

open Lib

/-! ## One channel -/

/-- The stage of the firmware in the body of a channel. -/
def Pc.stageOf (ch : Chan) : Pc → Option Stage
  | .poll => none
  | .body _ c stage => if c = ch then some stage else none

/-- The status word the firmware carries still has the channel to come. -/
def Pc.pending (ch : Chan) : Pc → Bool
  | .poll => false
  | .body status c _ => decide (c < ch) && hasBit status ch

/-- What one channel sees of the system. -/
structure ChanView where
  rung : Bool
  echoed : Bool
  a2b : Msg
  b2a : Msg
  stage : Option Stage
  pending : Bool
  sender : Sender

def view (s : State) (ch : Chan) : ChanView where
  rung := hasBit s.regs.a2bStatus ch
  echoed := hasBit s.regs.b2aStatus ch
  a2b := s.regs.a2b ch
  b2a := s.regs.b2a ch
  stage := s.pc.stageOf ch
  pending := s.pc.pending ch
  sender := s.sender ch

namespace ChanView

/-- An access of the sender. -/
def linux (v : ChanView) (next : Msg) : ChanView :=
  match v.sender with
  | .idle => { v with a2b := { v.a2b with cmd := next.cmd }, sender := .wroteCmd next }
  | .wroteCmd m =>
    { v with a2b := { v.a2b with dat := m.dat }, rung := true, sender := .waiting m }
  | .waiting m => if v.echoed then { v with sender := .answered m } else v
  | .answered m => { v with sender := .gotCmd m v.b2a.cmd }
  | .gotCmd m cmd => { v with sender := .gotDat m cmd v.b2a.dat }
  | .gotDat _ _ _ => { v with echoed := false, sender := .idle }

/-- An access of the firmware in the body of the channel, up to the last. -/
def work (v : ChanView) : Stage → ChanView
  | .readCmd => { v with stage := some (.readDat v.a2b.cmd) }
  | .readDat cmd => { v with stage := some (.writeCmd cmd v.a2b.dat) }
  | .writeCmd cmd dat =>
    { v with b2a := { v.b2a with cmd := cmd }, stage := some (.writeDat cmd dat) }
  | .writeDat cmd dat =>
    { v with b2a := { v.b2a with dat := dat }, echoed := true, stage := some (.ack cmd) }
  | .ack cmd => { v with rung := false, stage := some (.dbgLastcmd cmd) }
  | .dbgLastcmd _ => { v with stage := some .dbgEchocnt }
  | .dbgEchocnt => v

/-- The firmware moves on in its sweep: it passes the channel, or, if the channel
has rung or is pending, enters its body or leaves it for later. -/
def Sweeps (v v' : ChanView) : Prop :=
  v' = { v with stage := none, pending := false } ∨
    (v.rung = true ∨ v.pending = true) ∧
      (v' = { v with stage := some .readCmd, pending := false } ∨
        v' = { v with stage := none, pending := true })

end ChanView

/-! ### The sender's accesses -/

theorem view_linux_self (s : State) (ch : Chan) (next : Msg) :
    view (s.linux ch next) ch = (view s ch).linux next := by
  unfold State.linux ChanView.linux
  have hsender : (view s ch).sender = s.sender ch := rfl
  rw [hsender]
  cases hs : s.sender ch with
  | idle => simp [view, Regs.writeA2bCmd]
  | wroteCmd m => simp [view, Regs.writeA2bDat]
  | waiting m =>
    cases hb : hasBit s.regs.b2aStatus ch with
    | false => simp [view, hb]
    | true => simp [view, hb]
  | answered m => simp [view]
  | gotCmd m cmd => simp [view]
  | gotDat m cmd dat => simp [view, Regs.writeB2aStatus]

theorem view_linux_of_ne (s : State) {ch c : Chan} (h : ch ≠ c) (next : Msg) :
    view (s.linux c next) ch = view s ch := by
  unfold State.linux
  cases hs : s.sender c with
  | idle => simp [view, Regs.writeA2bCmd, h]
  | wroteCmd m => simp [view, Regs.writeA2bDat, h]
  | waiting m =>
    cases hb : hasBit s.regs.b2aStatus c with
    | false => simp
    | true => simp [view, h]
  | answered m => simp [view, h]
  | gotCmd m cmd => simp [view, h]
  | gotDat m cmd dat => simp [view, Regs.writeB2aStatus, h]

/-! ### The firmware's accesses -/

/-- Where the rest of a sweep leaves a channel. -/
theorem scan_cases (status : UInt32) (k : ℕ) (ch : Chan) :
    ((scan status k).stageOf ch = none ∧ (scan status k).pending ch = false) ∨
      (k ≤ ch.val ∧ hasBit status ch = true ∧
        ((scan status k).stageOf ch = some .readCmd ∧ (scan status k).pending ch = false ∨
          (scan status k).stageOf ch = none ∧ (scan status k).pending ch = true)) := by
  unfold scan
  cases hfind : (List.finRange 4).find? fun ch => decide (k ≤ ch.val) && hasBit status ch with
  | none => exact Or.inl ⟨rfl, rfl⟩
  | some c =>
    have hc := List.find?_some hfind
    simp only [Bool.and_eq_true, decide_eq_true_eq] at hc
    by_cases heq : c = ch
    · subst heq
      exact Or.inr ⟨hc.1, hc.2, Or.inl ⟨by simp [Pc.stageOf], by simp [Pc.pending]⟩⟩
    · have hstage : (Pc.body status c .readCmd).stageOf ch = none := if_neg heq
      cases hp : (Pc.body status c .readCmd).pending ch with
      | false => exact Or.inl ⟨hstage, rfl⟩
      | true =>
        have hp' := hp
        simp only [Pc.pending, Bool.and_eq_true, decide_eq_true_eq] at hp'
        exact Or.inr ⟨hc.1.trans (Nat.le_of_lt hp'.1), hp'.2, Or.inr ⟨hstage, rfl⟩⟩

/-- The rest of a sweep is a step of the sweep for each channel, when the status
word it goes by has the bits of the channels to come. -/
theorem sweeps_scan {s s' : State} {status : UInt32} {k : ℕ} (ch : Chan)
    (hpc : s'.pc = scan status k) (hview : ∀ stage pending,
      { view s' ch with stage, pending } = { view s ch with stage, pending })
    (hseen : k ≤ ch.val → hasBit status ch = true →
      (view s ch).rung = true ∨ (view s ch).pending = true) :
    (view s ch).Sweeps (view s' ch) := by
  have hself : view s' ch = { view s ch with
      stage := (scan status k).stageOf ch, pending := (scan status k).pending ch } := by
    rw [← hview, ← hpc]
    rfl
  rcases scan_cases status k ch with ⟨h₁, h₂⟩ | ⟨hk, hbit, ⟨h₁, h₂⟩ | ⟨h₁, h₂⟩⟩
  · rw [h₁, h₂] at hself
    exact Or.inl hself
  · rw [h₁, h₂] at hself
    exact Or.inr ⟨hseen hk hbit, Or.inl hself⟩
  · rw [h₁, h₂] at hself
    exact Or.inr ⟨hseen hk hbit, Or.inr hself⟩

theorem view_firmware_body_self {s : State} {status : UInt32} {ch : Chan} {stage : Stage}
    (hpc : s.pc = .body status ch stage) (hlast : stage ≠ .dbgEchocnt) :
    (view s ch).stage = some stage ∧ view s.firmware ch = (view s ch).work stage := by
  refine ⟨by simp [view, hpc, Pc.stageOf], ?_⟩
  unfold State.firmware ChanView.work
  rw [hpc]
  cases stage with
  | readCmd => simp [view, hpc, Pc.stageOf, Pc.pending]
  | readDat cmd => simp [view, hpc, Pc.stageOf, Pc.pending]
  | writeCmd cmd dat => simp [view, hpc, Pc.stageOf, Pc.pending, Regs.writeB2aCmd]
  | writeDat cmd dat => simp [view, hpc, Pc.stageOf, Pc.pending, Regs.writeB2aDat]
  | ack cmd => simp [view, hpc, Pc.stageOf, Pc.pending, Regs.writeA2bStatus]
  | dbgLastcmd cmd => simp [view, hpc, Pc.stageOf, Pc.pending]
  | dbgEchocnt => exact absurd rfl hlast

theorem view_firmware_body_of_ne {s : State} {status : UInt32} {ch c : Chan} {stage : Stage}
    (hne : ch ≠ c) (hpc : s.pc = .body status c stage) (hlast : stage ≠ .dbgEchocnt) :
    view s.firmware ch = view s ch := by
  have hne' : c ≠ ch := Ne.symm hne
  unfold State.firmware
  rw [hpc]
  cases stage with
  | readCmd => simp [view, hpc, Pc.stageOf, Pc.pending, hne']
  | readDat cmd => simp [view, hpc, Pc.stageOf, Pc.pending, hne']
  | writeCmd cmd dat => simp [view, hpc, Pc.stageOf, Pc.pending, Regs.writeB2aCmd, hne, hne']
  | writeDat cmd dat => simp [view, hpc, Pc.stageOf, Pc.pending, Regs.writeB2aDat, hne, hne']
  | ack cmd => simp [view, hpc, Pc.stageOf, Pc.pending, Regs.writeA2bStatus, hne, hne']
  | dbgLastcmd cmd => simp [view, hpc, Pc.stageOf, Pc.pending, hne']
  | dbgEchocnt => exact absurd rfl hlast

/-- **What the firmware does to a channel**: an access inside its body, a step of
the sweep, or nothing. -/
theorem view_firmware (s : State) (ch : Chan) :
    (∃ stage, (view s ch).stage = some stage ∧ stage ≠ .dbgEchocnt ∧
      view s.firmware ch = (view s ch).work stage) ∨
    (((view s ch).stage = none ∨ (view s ch).stage = some .dbgEchocnt) ∧
      (view s ch).Sweeps (view s.firmware ch)) ∨
    view s.firmware ch = view s ch := by
  cases hpc : s.pc with
  | poll =>
    have hstep : s.firmware = { s with pc := scan s.regs.a2bStatus 0 } := by
      unfold State.firmware
      rw [hpc]
    refine Or.inr (Or.inl ⟨Or.inl (by simp [view, hpc, Pc.stageOf]), ?_⟩)
    rw [hstep]
    exact sweeps_scan ch rfl (fun _ _ => rfl) fun _ hbit => Or.inl hbit
  | body status c stage =>
    by_cases hlast : stage = .dbgEchocnt
    · subst hlast
      have hstep : s.firmware =
          { s with
            regs := { s.regs with dbgEchocnt := s.echoes + 1 }
            echoes := s.echoes + 1
            pc := scan status (c.val + 1) } := by
        unfold State.firmware
        rw [hpc]
      refine Or.inr (Or.inl ⟨?_, ?_⟩)
      · by_cases hc : c = ch
        · exact Or.inr (by simp [view, hpc, Pc.stageOf, hc])
        · exact Or.inl (by simp [view, hpc, Pc.stageOf, hc])
      · rw [hstep]
        refine sweeps_scan ch rfl (fun _ _ => rfl) fun hk hbit => Or.inr ?_
        have hlt : c < ch := hk
        simp [view, hpc, Pc.pending, hlt, hbit]
    · by_cases hc : c = ch
      · subst hc
        obtain ⟨hstage, hwork⟩ := view_firmware_body_self hpc hlast
        exact Or.inl ⟨stage, hstage, hlast, hwork⟩
      · exact Or.inr (Or.inr (view_firmware_body_of_ne (Ne.symm hc) hpc hlast))

/-! ## The invariant of a channel -/

/-- The firmware is elsewhere, or past the acknowledgement. -/
def Resting : Option Stage → Prop
  | none => True
  | some (.dbgLastcmd _) => True
  | some .dbgEchocnt => True
  | some _ => False

namespace ChanView

/-- The firmware has echoed and is about to acknowledge, or has done so. -/
def Done (v : ChanView) : Prop :=
  v.pending = false ∧
    ((∃ cmd, v.stage = some (.ack cmd)) ∧ v.rung = true ∨ Resting v.stage ∧ v.rung = false)

/-- The message is on its way: its doorbell is set, the registers hold it, and
what the firmware has read of it is right. -/
def InFlight (v : ChanView) (m : Msg) : Prop :=
  v.rung = true ∧ v.echoed = false ∧ v.a2b = m ∧
    (Resting v.stage ∨ v.pending = false ∧
      (v.stage = some .readCmd ∨ v.stage = some (.readDat m.cmd) ∨
        v.stage = some (.writeCmd m.cmd m.dat) ∨
        v.stage = some (.writeDat m.cmd m.dat) ∧ v.b2a.cmd = m.cmd))

/-- The echo of the message stands in the registers. -/
def Answered (v : ChanView) (m : Msg) : Prop := v.echoed = true ∧ v.b2a = m ∧ v.Done

/-- The invariant of a channel.  A message may be lost only if `lossy`. -/
def Inv (lossy : Prop) (v : ChanView) : Prop :=
  match v.sender with
  | .idle => v.echoed = false ∧ v.Done
  | .wroteCmd m => v.echoed = false ∧ v.a2b.cmd = m.cmd ∧ v.Done
  | .waiting m => v.InFlight m ∨ v.Answered m ∨ lossy ∧ v.echoed = false ∧ v.Done
  | .answered m => v.Answered m
  | .gotCmd m cmd => v.Answered m ∧ cmd = m.cmd
  | .gotDat m cmd dat => v.Answered m ∧ cmd = m.cmd ∧ dat = m.dat

/-- The doorbell is about to ring while the firmware is about to acknowledge. -/
def Races (v : ChanView) : Prop :=
  (∃ m, v.sender = .wroteCmd m) ∧ ∃ cmd, v.stage = some (.ack cmd)

variable {lossy : Prop} {v : ChanView}

/-- **An access of the sender keeps the invariant**, unless it races. -/
theorem Inv.linux (h : v.Inv lossy) (hrace : v.Races → lossy) (next : Msg) :
    (v.linux next).Inv lossy := by
  unfold ChanView.linux
  cases hs : v.sender with
  | idle =>
    rw [Inv, hs] at h
    exact ⟨h.1, rfl, h.2⟩
  | wroteCmd m =>
    rw [Inv, hs] at h
    obtain ⟨hecho, hcmd, hpending, ⟨hack, hrung⟩ | ⟨hrest, -⟩⟩ := h
    · -- the race: the new doorbell is one with the bit about to be cleared
      refine Or.inr (Or.inr ⟨hrace ⟨⟨m, hs⟩, hack⟩, hecho, hpending, Or.inl ⟨hack, rfl⟩⟩)
    · refine Or.inl ⟨rfl, hecho, ?_, Or.inl hrest⟩
      show (⟨v.a2b.cmd, m.dat⟩ : Msg) = m
      rw [hcmd]
  | waiting m =>
    rw [Inv, hs] at h
    dsimp only
    by_cases hecho : v.echoed = true
    · rw [if_pos hecho]
      rcases h with h | h | h
      · exact absurd (hecho.symm.trans h.2.1) (by decide)
      · exact h
      · exact absurd (hecho.symm.trans h.2.1) (by decide)
    · rw [if_neg hecho, Inv, hs]
      exact h
  | answered m =>
    rw [Inv, hs] at h
    exact ⟨h, congrArg Msg.cmd h.2.1⟩
  | gotCmd m cmd =>
    rw [Inv, hs] at h
    exact ⟨h.1, h.2, congrArg Msg.dat h.1.2.1⟩
  | gotDat m cmd dat =>
    rw [Inv, hs] at h
    exact ⟨rfl, h.1.2.2⟩

/-- An access that leaves the sender and the echo alone keeps what it keeps of
the three states of a message. -/
theorem Inv.of_keeps {v' : ChanView} (h : v.Inv lossy) (hsender : v'.sender = v.sender)
    (hecho : v'.echoed = v.echoed) (ha2b : v'.a2b = v.a2b)
    (hdone : v.Done → v'.Done ∧ v'.b2a = v.b2a) (hflight : ∀ m, v.InFlight m → v'.InFlight m) :
    v'.Inv lossy := by
  have hanswered : ∀ m, v.Answered m → v'.Answered m := fun m hm =>
    ⟨hecho.trans hm.1, (hdone hm.2.2).2.trans hm.2.1, (hdone hm.2.2).1⟩
  unfold Inv at h ⊢
  rw [hsender, hecho, ha2b]
  cases hs : v.sender with
  | idle =>
    rw [hs] at h
    exact ⟨h.1, (hdone h.2).1⟩
  | wroteCmd m =>
    rw [hs] at h
    exact ⟨h.1, h.2.1, (hdone h.2.2).1⟩
  | waiting m =>
    rw [hs] at h
    exact h.imp (hflight m) (Or.imp (hanswered m) fun hl => ⟨hl.1, hl.2.1, (hdone hl.2.2).1⟩)
  | answered m =>
    rw [hs] at h
    exact hanswered m h
  | gotCmd m cmd =>
    rw [hs] at h
    exact ⟨hanswered m h.1, h.2⟩
  | gotDat m cmd dat =>
    rw [hs] at h
    exact ⟨hanswered m h.1, h.2⟩

/-- A finished channel is not in the middle of its body. -/
theorem Done.not_stage {stage : Stage} (h : v.Done) (hs : v.stage = some stage) :
    (∃ cmd, stage = .ack cmd) ∨ Resting (some stage) := by
  obtain ⟨-, ⟨⟨cmd, hcmd⟩, -⟩ | ⟨hrest, -⟩⟩ := h
  · exact Or.inl ⟨cmd, Option.some_inj.1 (hs.symm.trans hcmd)⟩
  · rw [hs] at hrest
    exact Or.inr hrest

/-- The stages a message in flight can be at. -/
theorem InFlight.stage_eq {m : Msg} {stage : Stage} (h : v.InFlight m) (hs : v.stage = some stage)
    (hrest : ¬ Resting (some stage)) :
    v.pending = false ∧ (stage = .readCmd ∨ stage = .readDat m.cmd ∨ stage = .writeCmd m.cmd m.dat ∨
      stage = .writeDat m.cmd m.dat ∧ v.b2a.cmd = m.cmd) := by
  obtain ⟨-, -, -, hstage⟩ := h
  simp only [hs, Option.some_inj] at hstage
  exact hstage.resolve_left hrest

/-- Between the first read and the echo there is a message in flight, and what
the firmware has read of it is right. -/
theorem Inv.midway {stage : Stage} (h : v.Inv lossy) (hs : v.stage = some stage)
    (hack : ∀ cmd, stage ≠ .ack cmd) (hrest : ¬ Resting (some stage)) :
    ∃ m, v.sender = .waiting m ∧ v.InFlight m ∧ v.pending = false ∧
      (stage = .readCmd ∨ stage = .readDat m.cmd ∨ stage = .writeCmd m.cmd m.dat ∨
        stage = .writeDat m.cmd m.dat ∧ v.b2a.cmd = m.cmd) := by
  have hnot : ¬ v.Done := fun hd => by
    rcases hd.not_stage hs with ⟨cmd, hcmd⟩ | hr
    · exact hack cmd hcmd
    · exact hrest hr
  unfold Inv at h
  cases hsender : v.sender with
  | idle =>
    rw [hsender] at h
    exact absurd h.2 hnot
  | wroteCmd m =>
    rw [hsender] at h
    exact absurd h.2.2 hnot
  | waiting m =>
    rw [hsender] at h
    rcases h with h | h | h
    · exact ⟨m, rfl, h, h.stage_eq hs hrest⟩
    · exact absurd h.2.2 hnot
    · exact absurd h.2.2 hnot
  | answered m =>
    rw [hsender] at h
    exact absurd h.2.2 hnot
  | gotCmd m cmd =>
    rw [hsender] at h
    exact absurd h.1.2.2 hnot
  | gotDat m cmd dat =>
    rw [hsender] at h
    exact absurd h.1.2.2 hnot

/-- **An access of the firmware inside the body keeps the invariant.** -/
theorem Inv.work {stage : Stage} (h : v.Inv lossy) (hs : v.stage = some stage)
    (hlast : stage ≠ .dbgEchocnt) : (v.work stage).Inv lossy := by
  cases stage with
  | readCmd =>
    obtain ⟨m, hm, ⟨hrung, hecho, ha2b, -⟩, hpending, -⟩ := h.midway hs (fun _ he => nomatch he) id
    rw [Inv, ChanView.work, hm]
    refine Or.inl ⟨hrung, hecho, ha2b, Or.inr ⟨hpending, Or.inr (Or.inl ?_)⟩⟩
    rw [ha2b]
  | readDat cmd =>
    obtain ⟨m, hm, ⟨hrung, hecho, ha2b, -⟩, hpending, hstage⟩ :=
      h.midway hs (fun _ he => nomatch he) id
    have hcmd : cmd = m.cmd := by simpa using hstage
    rw [Inv, ChanView.work, hm]
    refine Or.inl ⟨hrung, hecho, ha2b, Or.inr ⟨hpending, Or.inr (Or.inr (Or.inl ?_))⟩⟩
    rw [ha2b, hcmd]
  | writeCmd cmd dat =>
    obtain ⟨m, hm, ⟨hrung, hecho, ha2b, -⟩, hpending, hstage⟩ :=
      h.midway hs (fun _ he => nomatch he) id
    obtain ⟨hcmd, hdat⟩ : cmd = m.cmd ∧ dat = m.dat := by simpa using hstage
    rw [Inv, ChanView.work, hm, hcmd, hdat]
    exact Or.inl ⟨hrung, hecho, ha2b, Or.inr ⟨hpending, Or.inr (Or.inr (Or.inr ⟨rfl, rfl⟩))⟩⟩
  | writeDat cmd dat =>
    obtain ⟨m, hm, hf, hpending, hstage⟩ := h.midway hs (fun _ he => nomatch he) id
    obtain ⟨⟨hcmd, hdat⟩, hb2a⟩ : (cmd = m.cmd ∧ dat = m.dat) ∧ v.b2a.cmd = m.cmd := by
      simpa using hstage
    rw [Inv, ChanView.work, hm, hdat]
    refine Or.inr (Or.inl ⟨rfl, ?_, hpending, Or.inl ⟨⟨cmd, rfl⟩, hf.1⟩⟩)
    show (⟨v.b2a.cmd, m.dat⟩ : Msg) = m
    rw [hb2a]
  | ack cmd =>
    refine h.of_keeps rfl rfl rfl (fun hd => ⟨⟨hd.1, Or.inr ⟨trivial, rfl⟩⟩, rfl⟩) fun m hf => ?_
    obtain ⟨-, hstage⟩ := hf.stage_eq hs id
    simp at hstage
  | dbgLastcmd cmd =>
    refine h.of_keeps rfl rfl rfl (fun hd => ?_) fun m hf =>
      ⟨hf.1, hf.2.1, hf.2.2.1, Or.inl trivial⟩
    obtain ⟨hpending, ⟨⟨c, hc⟩, -⟩ | ⟨-, hrung⟩⟩ := hd
    · exact absurd (hs.symm.trans hc) (by simp)
    · exact ⟨⟨hpending, Or.inr ⟨trivial, hrung⟩⟩, rfl⟩
  | dbgEchocnt => exact absurd rfl hlast

/-- **A step of the sweep keeps the invariant**: only a channel that has rung is
entered, and its message is in flight. -/
theorem Inv.sweeps {v' : ChanView} (h : v.Inv lossy)
    (hs : v.stage = none ∨ v.stage = some .dbgEchocnt) (hsweep : v.Sweeps v') : v'.Inv lossy := by
  have hdone : v.Done → v.pending = false ∧ v.rung = false := by
    rintro ⟨hpending, ⟨⟨cmd, hcmd⟩, -⟩ | ⟨-, hrung⟩⟩
    · rcases hs with hs | hs
      · exact absurd (hs.symm.trans hcmd) (by simp)
      · exact absurd (hs.symm.trans hcmd) (by simp)
    · exact ⟨hpending, hrung⟩
  rcases hsweep with rfl | ⟨hseen, rfl | rfl⟩
  · exact h.of_keeps rfl rfl rfl (fun hd => ⟨⟨rfl, Or.inr ⟨trivial, (hdone hd).2⟩⟩, rfl⟩)
      fun m hf => ⟨hf.1, hf.2.1, hf.2.2.1, Or.inl trivial⟩
  · refine h.of_keeps rfl rfl rfl (fun hd => ?_)
      fun m hf => ⟨hf.1, hf.2.1, hf.2.2.1, Or.inr ⟨rfl, Or.inl rfl⟩⟩
    simp [hdone hd] at hseen
  · refine h.of_keeps rfl rfl rfl (fun hd => ?_)
      fun m hf => ⟨hf.1, hf.2.1, hf.2.2.1, Or.inl trivial⟩
    simp [hdone hd] at hseen

end ChanView

/-! ## Runs -/

/-- A doorbell rings while the firmware is about to acknowledge its channel. -/
def RingsDuringAck (s : State) (act : Act) : Prop :=
  ∃ ch next m status cmd, act = .linux ch next ∧ s.sender ch = .wroteCmd m ∧
    s.pc = .body status ch (.ack cmd)

/-- The firmware is handling a channel. -/
def Pc.Handles (ch : Chan) (pc : Pc) : Prop := ∃ status stage, pc = .body status ch stage

/-- A sent message is unanswered while its doorbell is clear and the firmware is
not handling its channel. -/
def Lost (s : State) (ch : Chan) : Prop :=
  (∃ m, s.sender ch = .waiting m) ∧ hasBit s.regs.b2aStatus ch = false ∧
    hasBit s.regs.a2bStatus ch = false ∧ ¬ s.pc.Handles ch

/-- No doorbell of the run rings during an acknowledgement. -/
def RaceFree (r : Regs) (acts : List Act) : Prop :=
  ∀ past act rest, acts = past ++ act :: rest → ¬ RingsDuringAck (after r past) act

theorem view_init_inv (r : Regs) (ch : Chan) (lossy : Prop) :
    (view (State.init r) ch).Inv lossy :=
  ⟨hasBit_zero ch, rfl, Or.inr ⟨trivial, hasBit_zero ch⟩⟩

/-- **One access keeps the invariant of every channel**, unless it races. -/
theorem view_step_inv {s : State} {lossy : Prop} {act : Act}
    (hrace : RingsDuringAck s act → lossy) (h : ∀ ch, (view s ch).Inv lossy) (ch : Chan) :
    (view (s.step act) ch).Inv lossy := by
  cases act with
  | firmware =>
    show (view s.firmware ch).Inv lossy
    rcases view_firmware s ch with ⟨stage, hstage, hlast, hv⟩ | ⟨hstage, hsweep⟩ | hv
    · rw [hv]
      exact (h ch).work hstage hlast
    · exact (h ch).sweeps hstage hsweep
    · rw [hv]
      exact h ch
  | linux c next =>
    show (view (s.linux c next) ch).Inv lossy
    by_cases hc : ch = c
    · subst hc
      rw [view_linux_self]
      refine (h ch).linux (fun hr => hrace ?_) next
      obtain ⟨⟨m, hm⟩, cmd, hcmd⟩ := hr
      cases hpc : s.pc with
      | poll =>
        have hnone : (view s ch).stage = none := by simp [view, hpc, Pc.stageOf]
        exact nomatch hnone.symm.trans hcmd
      | body status c stage =>
        by_cases hcc : c = ch
        · subst hcc
          have hstage : (view s c).stage = some stage := by simp [view, hpc, Pc.stageOf]
          have heq : stage = .ack cmd := Option.some_inj.1 (hstage.symm.trans hcmd)
          subst heq
          exact ⟨c, next, m, status, cmd, rfl, hm, hpc⟩
        · have hnone : (view s ch).stage = none := by simp [view, hpc, Pc.stageOf, hcc]
          exact nomatch hnone.symm.trans hcmd
    · rw [view_linux_of_ne s hc next]
      exact h ch

theorem after_concat (r : Regs) (acts : List Act) (act : Act) :
    after r (acts ++ [act]) = (after r acts).step act :=
  run_concat _ _ acts act

/-- Every run keeps the invariant, with a lost message only after a race. -/
theorem view_after_inv (r : Regs) (acts : List Act) (lossy : Prop)
    (hrace : ¬ lossy → RaceFree r acts) (ch : Chan) : (view (after r acts) ch).Inv lossy := by
  induction acts using List.reverseRecOn generalizing ch with
  | nil => exact view_init_inv r ch lossy
  | append_singleton acts act ih =>
    have hpast : ¬ lossy → RaceFree r acts := fun hl past a rest he => by
      refine hrace hl past a (rest ++ [act]) ?_
      rw [he, List.append_assoc]
      rfl
    rw [after_concat]
    refine view_step_inv (fun hr => ?_) (fun c => ih hpast c) ch
    by_contra hl
    exact hrace hl acts act [] rfl hr

/-- The rest of a sweep after a channel does not come back to it. -/
theorem not_handles_scan_succ (status : UInt32) (ch : Chan) :
    ¬ (scan status (ch.val + 1)).Handles ch := by
  rintro ⟨status', stage, hpc⟩
  rcases scan_cases status (ch.val + 1) ch with ⟨hstage, -⟩ | ⟨hk, -⟩
  · rw [hpc, Pc.stageOf, if_pos rfl] at hstage
    exact nomatch hstage
  · exact absurd hk (Nat.not_succ_le_self _)

/-- A doorbell that rings during an acknowledgement is lost once the firmware has
left the body. -/
theorem lost_of_ringsDuringAck (r : Regs) (acts : List Act) {act : Act}
    (h : RingsDuringAck (after r acts) act) :
    ∃ ch, Lost (after r (acts ++ [act, .firmware, .firmware, .firmware])) ch := by
  obtain ⟨ch, next, m, status, cmd, rfl, hsender, hpc⟩ := h
  have hinv := view_after_inv r acts True (fun h => absurd trivial h) ch
  have hquiet : hasBit (after r acts).regs.b2aStatus ch = false := by
    have hview : (view (after r acts) ch).sender = .wroteCmd m := hsender
    rw [ChanView.Inv, hview] at hinv
    exact hinv.1
  rw [after, run_append]
  change ∃ ch, Lost (run State.step (after r acts) _) ch
  generalize after r acts = s at hsender hpc hquiet
  have hring : s.linux ch next =
      { s with
        regs := s.regs.writeA2bDat ch m.dat
        sender := Function.update s.sender ch (.waiting m) } := by
    unfold State.linux
    rw [hsender]
  simp only [run_cons, run_nil, State.step, hring, State.firmware, hpc]
  refine ⟨ch, ⟨m, ?_⟩, ?_, ?_, ?_⟩
  · exact Function.update_self ch _ s.sender
  · exact hquiet
  · show hasBit (_ &&& ~~~chanBit ch) ch = false
    rw [hasBit_and_not_chanBit]
    simp
  · exact not_handles_scan_succ status ch

/-- **What the echo keeps**, for every run of register accesses: a pair that Linux
reads is always the pair it sent last on the channel; no message is lost as long
as no doorbell rings while the firmware is about to acknowledge its channel; and
one that does is lost when the firmware goes on. -/
theorem echo_exact_and_lossless (r : Regs) (acts : List Act) :
    (∀ ch m cmd dat, (after r acts).sender ch = .gotDat m cmd dat → (⟨cmd, dat⟩ : Msg) = m) ∧
    (RaceFree r acts → ∀ ch, ¬ Lost (after r acts) ch) ∧
    ∀ act, RingsDuringAck (after r acts) act →
      ∃ ch, Lost (after r (acts ++ [act, .firmware, .firmware, .firmware])) ch := by
  refine ⟨fun ch m cmd dat hs => ?_, fun hfree ch hlost => ?_,
    fun act h => lost_of_ringsDuringAck r acts h⟩
  · have hinv := view_after_inv r acts True (fun h => absurd trivial h) ch
    have hview : (view (after r acts) ch).sender = .gotDat m cmd dat := hs
    rw [ChanView.Inv, hview] at hinv
    rw [hinv.2.1, hinv.2.2]
  · obtain ⟨⟨m, hs⟩, hecho, hrung, -⟩ := hlost
    have hinv := view_after_inv r acts False (fun _ => hfree) ch
    have hview : (view (after r acts) ch).sender = .waiting m := hs
    rw [ChanView.Inv, hview] at hinv
    rcases hinv with hf | ha | hl
    · exact absurd (hrung.symm.trans hf.1) (by decide)
    · exact absurd (hecho.symm.trans ha.1) (by decide)
    · exact hl.1

/-- On channel 0 a second message whose doorbell rings between the echo and the
acknowledgement of the first is lost. -/
theorem second_message_lost :
    Lost (after ⟨0, fun _ => ⟨0, 0⟩, 0, fun _ => ⟨0, 0⟩, 0, 0⟩
      ([.linux 0 ⟨1, 2⟩, .linux 0 ⟨1, 2⟩] ++ List.replicate 5 .firmware ++
        List.replicate 6 (.linux 0 ⟨3, 4⟩) ++ List.replicate 3 .firmware)) 0 := by
  refine ⟨⟨⟨3, 4⟩, by decide⟩, by decide, by decide, ?_⟩
  rintro ⟨status, stage, hpc⟩
  have hpoll : (after ⟨0, fun _ => ⟨0, 0⟩, 0, fun _ => ⟨0, 0⟩, 0, 0⟩
      ([.linux 0 ⟨1, 2⟩, .linux 0 ⟨1, 2⟩] ++ List.replicate 5 .firmware ++
        List.replicate 6 (.linux 0 ⟨3, 4⟩) ++ List.replicate 3 .firmware)).pc = .poll := by
    decide
  exact nomatch hpoll.symm.trans hpc

end Mailbox
end WardenSdk
