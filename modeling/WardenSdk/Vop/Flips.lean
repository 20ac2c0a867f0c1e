import WardenSdk.Vop.Sharing

/-!
# Framebuffers that wait for a frame

A commit queues the framebuffer that is no longer shown and then says so in `pending`; the
handler clears `pending` at the start of a frame and then commits what is queued.  What
`drm_flip_work` makes of it is not the driver's business, so that all is said about the calls
the driver makes, which the log has in their order.

`Watch` follows them: framebuffers are fresh until they are announced, due until they are
committed, and owed when a frame has started meanwhile; and so is the event, which waits until
it is sent.  `Booked` connects that to the fields of the driver, and every request keeps it,
whoever asks.  A call leaves nothing fresh, and the handler nothing owed.
-/

namespace WardenSdk
namespace Vop

open Lib

/-! ## Reading the log -/

structure Watch where
  /-- A framebuffer has been queued and not been announced. -/
  fresh : Bool
  /-- Framebuffers have been announced and not been committed. -/
  due : Bool
  /-- A frame has started since then. -/
  owed : Bool
  /-- The event that has been posted and not been sent. -/
  waits : Option ℕ
  /-- A frame has started since then. -/
  late : Bool
  deriving DecidableEq

def Watch.step (w : Watch) : Event → Watch
  | .queued _ => { w with fresh := true }
  | .announced => { w with fresh := false, due := true }
  | .vblank => { w with owed := w.due, late := w.waits.isSome }
  | .committed => { w with due := false, owed := false }
  | .posted e => { w with waits := some e, late := false }
  | .sent e => if w.waits = some e then { w with waits := none, late := false } else w
  | .destroyed => { w with due := false, owed := false, waits := none, late := false }
  | _ => w

def Watch.init : Watch := ⟨false, false, false, none, false⟩

def watch (log : List Event) : Watch := run Watch.step .init log

/-- A log is read from its first event on. -/
@[simp] theorem watch_append (log log' : List Event) :
    watch (log ++ log') = run Watch.step (watch log) log' := run_append ..

@[simp] theorem watch_concat (log : List Event) (e : Event) :
    watch (log ++ [e]) = (watch log).step e := run_concat ..

/-- What is waited for can be found by the handler. -/
structure Booked (s : Chip) : Prop where
  due : (watch s.log).due = true → s.flips.pending = true ∨ s.flips.claimed = true
  owed : (watch s.log).owed = true → (watch s.log).due = true
  waits : ∀ k, (watch s.log).waits = some k → s.flips.event = some k
  late : (watch s.log).late = true → (watch s.log).waits.isSome = true
  events : ∀ k, s.log.count (.sent k) + s.flips.event.toList.count k ≤ s.log.count (.posted k)

/-- The books of what the log has led to. -/
theorem Booked.of_watch {s : Chip} {w : Watch} (hw : watch s.log = w)
    (due : w.due = true → s.flips.pending = true ∨ s.flips.claimed = true)
    (owed : w.owed = true → w.due = true)
    (waits : ∀ k, w.waits = some k → s.flips.event = some k)
    (late : w.late = true → w.waits.isSome = true)
    (events : ∀ k, s.log.count (.sent k) + s.flips.event.toList.count k ≤
      s.log.count (.posted k)) : Booked s := by
  subst hw
  exact ⟨due, owed, waits, late, events⟩

/-- Whatever has been queued has been announced. -/
def Announced (s : Chip) : Prop := (watch s.log).fresh = false

/-- Notes are no business of the queue. -/
def Event.apart : Event → Bool
  | .posted _ | .sent _ | .queued _ | .announced | .vblank | .committed | .released _
    | .destroyed => false
  | _ => true

/-- A note is nothing to what is watched. -/
theorem watch_note (s : Chip) {e : Event} (he : e.apart = true) :
    watch (s.note e).log = watch s.log := by
  rw [s.log_note, watch_concat]
  cases e <;> first
    | rfl
    | exact absurd he Bool.false_ne_true

/-- Notes keep the books. -/
theorem Booked.note {s : Chip} (h : Booked s) {e : Event} (he : e.apart = true) :
    Booked (s.note e) := by
  have hflips := s.flips_note e
  refine .of_watch (watch_note s he) (hflips ▸ h.due) h.owed (hflips ▸ h.waits) h.late
    fun k => ?_
  rw [s.log_note, hflips, List.count_append, List.count_append]
  have hk := h.events k
  cases e <;> first
    | simpa using hk
    | exact absurd he Bool.false_ne_true

/-- Events are counted in the log and where one waits. -/
theorem Booked.flipStep_events {s : Chip} (h : Booked s) (o : Outcome) (op : FlipOp) (k : ℕ) :
    (s.flipStep o op).log.count (.sent k) + (s.flipStep o op).flips.event.toList.count k ≤
      (s.flipStep o op).log.count (.posted k) := by
  have hk := h.events k
  cases op with
  | claim => exact hk
  | post e =>
    simp only [Chip.flipStep, List.count_append, List.count_singleton, Option.toList_some,
      beq_iff_eq, Event.posted.injEq, reduceCtorEq, if_false]
    omega
  | sendNow e =>
    simp only [Chip.flipStep, List.count_append, List.count_cons, List.count_nil, beq_iff_eq,
      Event.posted.injEq, Event.sent.injEq, reduceCtorEq, if_false]
    omega
  | send =>
    cases hevent : s.flips.event with
    | none =>
      simp only [Chip.flipStep, hevent]
      exact hevent ▸ hk
    | some e =>
      rw [hevent] at hk
      simp only [Chip.flipStep, hevent, List.count_append, List.count_singleton, Option.toList_some,
        Option.toList_none, List.count_nil, beq_iff_eq, Event.sent.injEq, reduceCtorEq,
        if_false] at hk ⊢
      omega
  | queue fb =>
    have hcount (e : Event) (he : e ≠ .queued fb ∧ e ≠ .released fb) :
        (Event.queued fb :: if o.ret < 0 then [.released fb] else []).count e = 0 := by
      refine List.count_eq_zero.mpr ?_
      split_ifs <;> simp [he]
    simp only [Chip.flipStep, List.count_append]
    rw [hcount (.sent k) (by simp), hcount (.posted k) (by simp)]
    exact hk
  | pend | commit | vblank | release =>
    simp only [Chip.flipStep, List.count_append, List.count_singleton, beq_iff_eq, reduceCtorEq,
      if_false]
    exact hk
  | destroy =>
    simp only [Chip.flipStep, Flips.empty, List.count_append, List.count_singleton, beq_iff_eq,
      reduceCtorEq, if_false, Option.toList_none, List.count_nil]
    omega

/-- Nothing that is not due, owed or late has to be shown. -/
theorem of_false {P : Prop} (h : false = true) : P := absurd h Bool.false_ne_true

/-- Nor anything of an event that does not wait. -/
theorem of_none {P : ℕ → Prop} (k : ℕ) (h : none = some k) : P k :=
  absurd h.symm (Option.some_ne_none k)

/-- What the flip work does at once is nothing to what is watched. -/
theorem watch_queue (s : Chip) (o : Outcome) (fb : ℕ) :
    watch (s.flipStep o (.queue fb)).log = { watch s.log with fresh := true } := by
  simp only [Chip.flipStep, watch_append, run_cons]
  split_ifs <;> rfl

/-- An event that is sent at once takes the place of the one that waits, and waits no more. -/
theorem watch_sendNow (s : Chip) (o : Outcome) (k : ℕ) :
    watch (s.flipStep o (.sendNow k)).log =
      { watch s.log with waits := none, late := false } := by
  simp only [Chip.flipStep, watch_append, run_cons, run_nil, Watch.step, if_true]

/-- An event that is sent waits no more. -/
theorem watch_send {s : Chip} (h : Booked s) (o : Outcome) :
    watch (s.flipStep o .send).log = { watch s.log with waits := none, late := false } := by
  have hnone (hwaits : (watch s.log).waits = none) :
      watch s.log = { watch s.log with waits := none, late := false } := by
    have hlate : (watch s.log).late = false := by
      by_contra hlate
      have hsome := h.late (Bool.eq_true_of_not_eq_false hlate)
      rw [hwaits] at hsome
      exact absurd hsome Bool.false_ne_true
    rw [← hwaits, ← hlate]
  cases hevent : s.flips.event with
  | none =>
    simp only [Chip.flipStep, hevent]
    refine hnone (Option.eq_none_iff_forall_ne_some.mpr fun k hk => ?_)
    exact Option.some_ne_none k (hevent.symm.trans (h.waits k hk)).symm
  | some k =>
    simp only [Chip.flipStep, hevent, watch_append, run_cons, run_nil, Watch.step]
    split_ifs with hwaits
    · rfl
    · refine hnone (Option.eq_none_iff_forall_ne_some.mpr fun k' hk' => hwaits ?_)
      rw [hk', hevent.symm.trans (h.waits k' hk')]

/-- Sending the event leaves the flags alone. -/
theorem Chip.flags_send (s : Chip) (o : Outcome) :
    (s.flipStep o .send).flips.pending = s.flips.pending ∧
      (s.flipStep o .send).flips.claimed = s.flips.claimed := by
  cases hevent : s.flips.event <;> simp only [Chip.flipStep, hevent, and_self]

/-- **Every access keeps the books**, whoever makes it. -/
theorem Booked.flipStep {s : Chip} (h : Booked s) (o : Outcome) (op : FlipOp) :
    Booked (s.flipStep o op) := by
  have hevents := h.flipStep_events o op
  cases op with
  | post k => exact .of_watch (watch_concat ..) h.due h.owed (fun _ hk => hk) of_false hevents
  | send =>
    have hflags := s.flags_send o
    refine .of_watch (watch_send h o) (fun hdue => ?_) h.owed of_none of_false hevents
    rw [hflags.1, hflags.2]
    exact h.due hdue
  | sendNow k => exact .of_watch (watch_sendNow s o k) h.due h.owed of_none of_false hevents
  | queue fb => exact .of_watch (watch_queue s o fb) h.due h.owed h.waits h.late hevents
  | pend =>
    exact .of_watch (watch_concat ..) (fun _ => .inl rfl) (fun _ => rfl) h.waits h.late hevents
  | claim =>
    refine ⟨fun hdue => ?_, h.owed, h.waits, h.late, hevents⟩
    simp only [Chip.flipStep, Bool.or_eq_true]
    exact .inr (h.due hdue)
  | commit => exact .of_watch (watch_concat ..) of_false of_false h.waits h.late hevents
  | vblank => exact .of_watch (watch_concat ..) h.due id h.waits id hevents
  | release => exact .of_watch (watch_concat ..) h.due h.owed h.waits h.late hevents
  | destroy => exact .of_watch (watch_concat ..) of_false of_false of_none of_false hevents

/-! ## Requests that only move on -/

/-- Neither a framebuffer is queued, nor `pending` cleared, nor does a frame start. -/
def Request.still : Request → Prop
  | .flip (.queue _) | .flip .claim | .flip .vblank => False
  | .note e => e.apart = true
  | _ => True

/-- What the handler relies on: nobody else makes anything owed. -/
structure Calm (s t : Chip) : Prop where
  claimed : t.flips.claimed = true → s.flips.claimed = true
  owed : (watch t.log).owed = true → (watch s.log).owed = true
  late : (watch t.log).late = true → (watch s.log).late = true
  booked : Booked s → Booked t

theorem Calm.refl (s : Chip) : Calm s s := ⟨id, id, id, id⟩

/-- What nobody brings about step by step nobody brings about at all. -/
theorem Calm.trans {s t u : Chip} (hst : Calm s t) (htu : Calm t u) : Calm s u where
  claimed := hst.claimed ∘ htu.claimed
  owed := hst.owed ∘ htu.owed
  late := hst.late ∘ htu.late
  booked := htu.booked ∘ hst.booked

/-- What a request that is still keeps, where the books are kept. -/
structure Moved (s t : Chip) : Prop extends Calm s t where
  announced : Announced s → Announced t

/-- What the log has led to, and the flag of the handler, tell what has moved. -/
theorem Moved.of_watch {s t : Chip} {w : Watch} (hw : watch t.log = w)
    (claimed : t.flips.claimed = true → s.flips.claimed = true)
    (owed : w.owed = true → (watch s.log).owed = true)
    (late : w.late = true → (watch s.log).late = true)
    (announced : (watch s.log).fresh = false → w.fresh = false) (booked : Booked s → Booked t) :
    Moved s t := by
  subst hw
  exact ⟨⟨claimed, owed, late, booked⟩, announced⟩

/-- Where neither the log nor the flips change, nothing has moved. -/
theorem Moved.of_eq {s t : Chip} (hlog : t.log = s.log) (hflips : t.flips = s.flips) :
    Moved s t := by
  refine .of_watch (congrArg watch hlog) (hflips ▸ id) id id id fun h => ?_
  exact .of_watch (congrArg watch hlog) (hflips ▸ h.due) h.owed (hflips ▸ h.waits) h.late
    (hlog ▸ hflips ▸ h.events)

/-- Notes are no move. -/
theorem moved_note (s : Chip) {e : Event} (he : e.apart = true) : Moved s (s.note e) :=
  .of_watch (watch_note s he) (s.flips_note e ▸ id) id id id fun h => h.note he

/-- References are nothing to the flips. -/
theorem moved_gain (s : Chip) (who : Who) (ref : Ref) (regs : ℕ → Word) :
    Moved s (s.gain who ref regs) := by
  rcases s.gain_cases who ref regs with ⟨-, -, heq⟩ | heq <;> rw [heq] <;>
    exact .of_eq rfl rfl

/-- An event that is sent leaves the framebuffers as they are. -/
theorem moved_send (s : Chip) (o : Outcome) : Moved s (s.flipStep o .send) := by
  have hbooked : Booked s → Booked (s.flipStep o .send) := fun hs => hs.flipStep o .send
  cases hevent : s.flips.event with
  | none =>
    have hsame : s.flipStep o .send = s := by simp only [Chip.flipStep, hevent]
    rw [hsame]
    exact .of_eq rfl rfl
  | some k =>
    have hwatch : watch (s.flipStep o .send).log = (watch s.log).step (.sent k) := by
      simp only [Chip.flipStep, hevent, watch_concat]
    refine .of_watch hwatch ?_ ?_ ?_ ?_ hbooked
    · rw [(s.flags_send o).2]
      exact id
    · simp only [Watch.step]
      split_ifs <;> exact id
    · simp only [Watch.step]
      split_ifs
      · exact False.elim
      · exact id
    · simp only [Watch.step]
      split_ifs <;> exact id

/-- **An access that is still** brings nothing about that the handler would owe. -/
theorem moved_flipStep (s : Chip) (o : Outcome) {op : FlipOp} (h : (Request.flip op).still) :
    Moved s (s.flipStep o op) := by
  have hbooked : Booked s → Booked (s.flipStep o op) := fun hs => hs.flipStep o op
  cases op with
  | queue | claim | vblank => exact h.elim
  | send => exact moved_send s o
  | post => exact .of_watch (watch_concat ..) id id of_false id hbooked
  | sendNow k => exact .of_watch (watch_sendNow s o k) id id of_false id hbooked
  | pend => exact .of_watch (watch_concat ..) id id id (fun _ => rfl) hbooked
  | commit => exact .of_watch (watch_concat ..) of_false of_false id id hbooked
  | release => exact .of_watch (watch_concat ..) id id id id hbooked
  | destroy => exact .of_watch (watch_concat ..) of_false of_false of_false id hbooked

/-- **Every other request** does so too. -/
theorem moved_answer (steady : Steady) {q : Request} (hq : q.still) (who : Who) (s : Chip)
    (o : Outcome) : Moved s (answer steady who s q o).1 := by
  cases q with
  | take ref =>
    simp only [answer]
    split_ifs
    · exact .of_eq rfl rfl
    · exact moved_gain s who ref o.regs
  | takeInUse =>
    simp only [answer]
    split_ifs
    · exact moved_note s (e := .lateIrq) rfl
    · exact .of_eq rfl rfl
    · exact moved_gain s who .pm o.regs
  | drop ref =>
    simp only [answer, Chip.drop]
    split_ifs <;> exact .of_eq rfl rfl
  | writel masked offset v => cases masked <;> exact .of_eq rfl rfl
  | memory op => cases op <;> exact .of_eq rfl rfl
  | flip op =>
    rw [answer_flip]
    exact moved_flipStep s o hq
  | note e => exact moved_note s hq
  | readl | reset | runtimePm | requestIrq | raised | result => exact .of_eq rfl rfl

/-! ### The parts of the driver that ask nothing else -/

theorem still_load : load.Asks Request.still :=
  (Prog.asks_ask (q := Request.memory .load) trivial).bind fun _ => Prog.asks_pure _

theorem still_result : result.Asks Request.still :=
  (Prog.asks_ask (q := Request.result) trivial).bind fun _ => Prog.asks_pure _

theorem still_store (op : MemoryOp) : (store op).Asks Request.still :=
  (Prog.asks_ask (q := Request.memory op) trivial).bind fun _ => Prog.asks_pure _

/-- What the driver asks for by these names is still. -/
theorem still_flip (op : FlipOp) (h : (Request.flip op).still) :
    (flip op).Asks Request.still :=
  (Prog.asks_ask h).bind fun _ => Prog.asks_pure _

theorem still_vopReadl (offset : ℕ) : (vopReadl offset).Asks Request.still :=
  (Prog.asks_ask (q := Request.readl offset) trivial).bind fun _ => Prog.asks_pure _

/-- Reading a register. -/
theorem still_vopReadReg (base : ℕ) (reg : VopReg) : (vopReadReg base reg).Asks Request.still :=
  (still_vopReadl _).bind fun _ => Prog.asks_pure _

theorem still_writel (masked : Bool) (offset : ℕ) (v : Word) :
    (writel masked offset v).Asks Request.still :=
  (Prog.asks_ask (q := Request.writel masked offset v) trivial).bind fun _ => Prog.asks_pure _

/-- Setting one, which may write `regsbak` first. -/
theorem still_vopRegSet (reg : VopReg) (base : ℕ) (mask v : Word) :
    (vopRegSet reg base mask v).Asks Request.still :=
  .ite (Prog.asks_pure ()) <| .ite (still_writel ..) <|
    (Prog.asks_ask (q := Request.memory (.put (reg.cell base mask) v)) trivial).bind fun _ =>
      still_writel ..

def flipParty : Who → Party Chip
  | .ops =>
    { rely := fun s t => Announced s → Announced t
      guarantee := Calm
      refl := fun _ => id
      trans := fun hst htu hs => htu (hst hs) }
  | .irq =>
    { rely := Calm
      guarantee := fun s t => (Announced s → Announced t) ∧ (Booked s → Booked t)
      refl := Calm.refl
      trans := Calm.trans }
  | .worker =>
    { rely := fun _ _ => True
      guarantee := Moved
      refl := fun _ => trivial
      trans := fun _ _ => trivial }

/-- Whatever is queued is announced by the end of the part. -/
structure Pends (steady : Steady) {α : Type} (p : Io α) : Prop where
  meets : p.Meets (answer steady .ops) (flipParty .ops) Announced fun _ => Announced

variable {steady : Steady} {α β : Type} {p q : Io α}

/-- A part that only asks what is still has nothing to announce. -/
theorem pends_of_still (h : p.Asks Request.still) : Pends steady p := by
  refine ⟨h.meets (fun hst hs => hst hs) fun q hq s o hs => ?_⟩
  have hmoved := moved_answer steady hq .ops s o
  exact ⟨hmoved.toCalm, hmoved.announced hs⟩

/-- One part after the other. -/
theorem Pends.bind {f : α → Io β} (hp : Pends steady p) (hf : ∀ a, Pends steady (f a)) :
    Pends steady (p >>= f) := ⟨hp.meets.bind fun a => (hf a).meets⟩

theorem Pends.ite {c : Prop} [Decidable c] (hp : Pends steady p) (hq : Pends steady q) :
    Pends steady (if c then p else q) := ⟨.ite (fun _ => hp.meets) fun _ => hq.meets⟩

theorem pends_pure (a : α) : Pends steady (pure a) := pends_of_still (Prog.asks_pure a)

theorem pends_load : Pends steady load := pends_of_still still_load

theorem pends_result : Pends steady result := pends_of_still still_result

theorem pends_store (op : MemoryOp) : Pends steady (store op) := pends_of_still (still_store op)

theorem pends_vopReadReg (base : ℕ) (reg : VopReg) : Pends steady (vopReadReg base reg) :=
  pends_of_still (still_vopReadReg base reg)

theorem pends_vopRegSet (reg : VopReg) (base : ℕ) (mask v : Word) :
    Pends steady (vopRegSet reg base mask v) := pends_of_still (still_vopRegSet reg base mask v)

/-- **A framebuffer that is queued is announced.** -/
theorem pends_unref (fb : ℕ) : Pends steady (unref fb) := by
  have hqueue : (Prog.ask (.flip (.queue fb))).Meets (answer steady .ops) (flipParty .ops) Announced
      fun _ _ => True := by
    refine Prog.meets_ask (fun hst hs => hst hs) (fun _ _ _ _ _ => trivial) fun s o _ =>
      ⟨⟨id, fun h => ?_, fun h => ?_, fun hs => hs.flipStep o (.queue fb)⟩, trivial⟩
    · exact (congrArg Watch.owed (watch_queue s o fb)).symm.trans h
    · exact (congrArg Watch.late (watch_queue s o fb)).symm.trans h
  have hpend : (Prog.ask (.flip .pend)).Meets (answer steady .ops) (flipParty .ops)
      (fun _ => True) fun _ => Announced :=
    Prog.meets_ask (fun _ _ => trivial) (fun _ _ _ hst hs => hst hs) fun s o _ =>
      ⟨(@moved_flipStep s o .pend trivial).toCalm,
        congrArg Watch.fresh (watch_concat s.log .announced)⟩
  have hqueued : (flip (.queue fb)).Meets (answer steady .ops) (flipParty .ops) Announced
      fun _ _ => True :=
    hqueue.bind fun _ => Prog.meets_pure (R := fun _ _ => True) fun _ _ => trivial
  exact ⟨hqueued.bind fun _ => hpend.bind fun _ =>
    Prog.meets_pure (R := fun _ => Announced) fun hst hs => hst hs⟩

end Vop
end WardenSdk
