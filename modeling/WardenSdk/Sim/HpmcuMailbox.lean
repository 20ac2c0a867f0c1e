import WardenSdk.Sim.HpmcuLaw

/-!
# Who writes which mailbox word

Linux owns the magic and the counter, the core owns the state, the seen counter
and the coarse runtime.  This file follows the words the core owns through every
run of pokes and ticks.

`MailboxTracks` ties the words and counters to the run.  The state word keeps
the low half of the poll count beside the sentinel of the branch, so the halves
are separated by masks and the count is the number of ticks modulo `2 ^ 16`.
-/

namespace WardenSdk
namespace Sim

open Lib

variable {B : Type} [MemBus B]

/-! ## The two halves of the state word -/

theorem or_and_high (s p : UInt32) (hs : s &&& 0xffff0000 = s) :
    (s ||| (p &&& 0xffff)) &&& 0xffff0000 = s := by
  have hlow : (0xffff : BitVec 32) &&& 0xffff0000 = 0 := by decide
  have hs' : s.toBitVec &&& 0xffff0000 = s.toBitVec := congrArg UInt32.toBitVec hs
  refine UInt32.eq_of_toBitVec_eq ?_
  show (s.toBitVec ||| (p.toBitVec &&& 0xffff)) &&& 0xffff0000 = s.toBitVec
  rw [BitVec.and_or_distrib_right, hs', BitVec.and_assoc, hlow]
  simp

theorem or_and_low (s p : UInt32) (hs : s &&& 0xffff = 0) :
    ((s ||| (p &&& 0xffff)) &&& 0xffff).toNat = p.toNat % 2 ^ 16 := by
  have hs' : s.toBitVec &&& 0xffff = 0 := congrArg UInt32.toBitVec hs
  have hword : (s ||| (p &&& 0xffff)) &&& 0xffff = p &&& 0xffff := by
    refine UInt32.eq_of_toBitVec_eq ?_
    show (s.toBitVec ||| (p.toBitVec &&& 0xffff)) &&& 0xffff = p.toBitVec &&& 0xffff
    rw [BitVec.and_or_distrib_right, hs', BitVec.and_assoc, BitVec.and_self]
    simp
  rw [hword, UInt32.toNat_and]
  exact Nat.and_two_pow_sub_one_eq_mod p.toNat 16

theorem sentinelOf_masks (magic : UInt32) :
    sentinelOf magic &&& 0xffff0000 = sentinelOf magic ∧ sentinelOf magic &&& 0xffff = 0 := by
  unfold sentinelOf
  split
  · decide
  · split
    · decide
    · decide

/-! ## The mailbox of a run -/

/-- Whether an event is a tick. -/
def Event.isTick : Event → Bool
  | .pokeMagic _ => false
  | .pokeCounter _ => false
  | .tick _ => true

/-- The number of ticks of a run. -/
def tickCount (es : List Event) : ℕ := es.countP Event.isTick

/-- What the words and counters of a core are after `n` ticks. -/
structure MailboxTracks (n : ℕ) (m : HpmcuSim B) : Prop where
  seen : m.read offSeen = m.lastSeen
  polls : m.fired = false → m.polls = UInt32.ofNat n
  count : m.fireCount = if m.fired then 1 else 0
  state : m.fired = true → m.read offState = stateFired

theorem mailboxTracks_new (bus : B) (base : UInt64) (start : ℕ) :
    MailboxTracks 0 (HpmcuSim.new bus base start) :=
  ⟨MemBus.peek32_poke32_self _ _ _, fun _ => rfl, rfl, fun h => nomatch h⟩

/-- A poke of a word Linux owns touches none of the core's. -/
theorem MailboxTracks.write {n : ℕ} {m : HpmcuSim B} (h : MailboxTracks n m) {off : UInt64}
    (hseen : offSeen ≠ off) (hstate : offState ≠ off) (v : UInt32) :
    MailboxTracks n (m.write off v) :=
  ⟨(m.read_write_of_ne v hseen).trans h.seen, h.polls, h.count,
    fun hf => (m.read_write_of_ne v hstate).trans (h.state hf)⟩

/-- **One tick keeps it**, and a fired core does not move. -/
theorem MailboxTracks.tick {n : ℕ} {m : HpmcuSim B} (h : MailboxTracks n m) (now : ℕ) :
    MailboxTracks (n + 1) (m.tick now) := by
  cases hf : m.fired with
  | true =>
    rw [HpmcuSim.tick_of_fired hf]
    refine ⟨h.seen, fun h' => ?_, h.count, h.state⟩
    exact absurd (hf.symm.trans h') (by decide)
  | false =>
    have heff := HpmcuSim.tickEffect hf now
    have hcount : m.fireCount = 0 := by
      rw [h.count, hf]
      rfl
    refine ⟨heff.seen h.seen, fun _ => ?_, ?_, fun hf' => (heff.fires hf').1⟩
    · rw [heff.polls, h.polls hf, UInt32.ofNat_add]
      rfl
    · cases hf' : (m.tick now).fired with
      | true =>
        rw [(heff.fires hf').2, hcount]
        rfl
      | false =>
        rw [(heff.quiet hf').2, hcount]
        rfl

theorem coreAfter_mailboxTracks (bus : B) (base : UInt64) (start : ℕ) (es : List Event) :
    MailboxTracks (tickCount es) (coreAfter bus base start es) := by
  refine run_history (I := fun es m => MailboxTracks (tickCount es) m)
    (mailboxTracks_new bus base start) ?_ es
  intro past m e h
  have hcount : tickCount (past ++ [e]) = tickCount past + if e.isTick then 1 else 0 := by
    simp [tickCount, List.countP_singleton]
  rw [hcount]
  cases e with
  | pokeMagic v => exact h.write (by decide) (by decide) v
  | pokeCounter v => exact h.write (by decide) (by decide) v
  | tick now => exact h.tick now

theorem base_coreAfter (bus : B) (base : UInt64) (start : ℕ) (es : List Event) :
    (coreAfter bus base start es).base = base := by
  refine run_invariant (I := fun m : HpmcuSim B => m.base = base) (fun m e h => ?_) rfl es
  cases e with
  | pokeMagic v => exact h
  | pokeCounter v => exact h
  | tick now =>
    cases hf : m.fired with
    | true => exact (congrArg HpmcuSim.base (HpmcuSim.tick_of_fired hf now)).trans h
    | false => exact (HpmcuSim.tickEffect hf now).base.trans h

/-- A fired core stays fired whatever Linux pokes. -/
theorem fired_coreAfter_append (bus : B) (base : UInt64) (start : ℕ) (es es' : List Event)
    (hf : (coreAfter bus base start es).fired = true) :
    (coreAfter bus base start (es ++ es')).fired = true := by
  rw [coreAfter, run_append]
  refine run_invariant (I := fun m : HpmcuSim B => m.fired = true) (fun m e h => ?_) hf es'
  cases e with
  | pokeMagic v => exact h
  | pokeCounter v => exact h
  | tick now => exact (congrArg HpmcuSim.fired (HpmcuSim.tick_of_fired h now)).trans h

section

variable (bus : B) (base : UInt64) (start : ℕ) (es : List Event)

/-- A tick of a run pokes only the words the core owns. -/
theorem touches_coreAfter_tick (now : ℕ) :
    Touches (mcuWords base) (coreAfter bus base start es).bus
      ((coreAfter bus base start es).tick now).bus := by
  cases hf : (coreAfter bus base start es).fired with
  | true =>
    rw [HpmcuSim.tick_of_fired hf]
    exact Touches.refl _ _
  | false =>
    have hbus := (HpmcuSim.tickEffect hf now).bus
    rwa [base_coreAfter] at hbus

/-- The two halves of the state word after a tick that does not fire. -/
theorem state_of_quiet_tick {now : ℕ}
    (hf' : ((coreAfter bus base start es).tick now).fired = false) :
    ((coreAfter bus base start es).tick now).state =
        sentinelOf ((coreAfter bus base start es).read offMagic) ∧
      (((coreAfter bus base start es).tick now).read offState &&& 0xffff).toNat =
        (tickCount es + 1) % 2 ^ 16 := by
  have hf : (coreAfter bus base start es).fired = false := by
    refine Bool.eq_false_of_not_eq_true fun hf => ?_
    rw [HpmcuSim.tick_of_fired hf, hf] at hf'
    exact nomatch hf'
  have hpolls := ((coreAfter_mailboxTracks bus base start es).tick now).polls hf'
  obtain ⟨hword, -⟩ := (HpmcuSim.tickEffect hf now).quiet hf'
  obtain ⟨hhigh, hlow⟩ := sentinelOf_masks ((coreAfter bus base start es).read offMagic)
  constructor
  · rw [HpmcuSim.state, hword]
    exact or_and_high _ _ hhigh
  · rw [hword, or_and_low _ _ hlow, hpolls, UInt32.toNat_ofNat']
    exact Nat.mod_mod_of_dvd _ (by decide)

/-- The seen word after a tick that does not fire. -/
theorem seen_of_quiet_tick {now : ℕ}
    (hf' : ((coreAfter bus base start es).tick now).fired = false) :
    ((coreAfter bus base start es).tick now).read offSeen =
      prevCounter (ticksOf bus base (es ++ [.tick now])).reverse := by
  have hseen := ((coreAfter_mailboxTracks bus base start es).tick now).seen
  rw [← coreAfter_tick] at hf' hseen ⊢
  rw [fired_coreAfter] at hf'
  have htracks := Watch.tracks_run start _ hf'
  rw [← watch_coreAfter] at htracks
  exact hseen.trans htracks.lastSeen

/-- A fired core is at rest, with its state word at FIRED. -/
theorem rests_of_fired (hf : (coreAfter bus base start es).fired = true) :
    (∀ now, (coreAfter bus base start es).tick now = coreAfter bus base start es) ∧
      (coreAfter bus base start es).state = stateFired := by
  refine ⟨HpmcuSim.tick_of_fired hf, ?_⟩
  rw [HpmcuSim.state, (coreAfter_mailboxTracks bus base start es).state hf]
  decide

end

/-- **Ownership of the mailbox and finality of firing**, for every run of pokes
of the magic and the counter and of ticks. -/
theorem mailbox_ownership (bus : B) (base : UInt64) (start : ℕ) (es : List Event) :
    (∀ now, Touches (mcuWords base) (coreAfter bus base start es).bus
      ((coreAfter bus base start es).tick now).bus) ∧
    (∀ now, ((coreAfter bus base start es).tick now).fired = false →
      ((coreAfter bus base start es).tick now).state =
        sentinelOf ((coreAfter bus base start es).read offMagic) ∧
      (((coreAfter bus base start es).tick now).read offState &&& 0xffff).toNat =
        (tickCount es + 1) % 2 ^ 16 ∧
      ((coreAfter bus base start es).tick now).read offSeen =
        prevCounter (ticksOf bus base (es ++ [.tick now])).reverse) ∧
    (coreAfter bus base start es).fireCount ≤ 1 ∧
    ((coreAfter bus base start es).fireCount = 1 ↔ (coreAfter bus base start es).fired = true) ∧
    ((coreAfter bus base start es).fired = true → ∀ es',
      (∀ now, (coreAfter bus base start (es ++ es')).tick now =
        coreAfter bus base start (es ++ es')) ∧
      (coreAfter bus base start (es ++ es')).state = stateFired) := by
  have h := coreAfter_mailboxTracks bus base start es
  refine ⟨touches_coreAfter_tick bus base start es, fun now hf' => ?_, ?_, ?_, fun hf es' => ?_⟩
  · obtain ⟨hhigh, hlow⟩ := state_of_quiet_tick bus base start es hf'
    exact ⟨hhigh, hlow, seen_of_quiet_tick bus base start es hf'⟩
  · rw [h.count]
    split
    · exact Nat.le_refl 1
    · exact Nat.zero_le 1
  · rw [h.count]
    cases (coreAfter bus base start es).fired with
    | true => decide
    | false => decide
  · exact rests_of_fired bus base start _ (fired_coreAfter_append bus base start es es' hf)

end Sim
end WardenSdk
