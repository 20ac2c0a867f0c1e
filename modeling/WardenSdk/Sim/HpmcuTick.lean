import WardenSdk.Sim.Hpmcu

/-!
# What a tick does to the mailbox

The loop of the watchdog firmware has three branches and two places that fire.
This file says once what any of them does to the words the core owns.

* `Touches` says that one bus comes from another by pokes at a list of
  addresses.  It is stated for an arbitrary bus, so it counts the pokes that
  happen to write the word already there.
* `TickEffect` is all that a tick of a core that has not fired does to the
  mailbox; each branch of the loop has it (`tickEffect_disarm`,
  `tickEffect_armed`, `tickEffect_boot`), and `tickEffect` puts them together.
* `read_tick` is the frame: a tick leaves every other word alone.
-/

namespace WardenSdk
namespace Sim

variable {B : Type} [MemBus B]

/-! ## Pokes at a list of addresses -/

/-- A list of pokes, first one first. -/
def pokes (bus : B) (ws : List (UInt64 × UInt32)) : B :=
  ws.foldl (fun bus w => MemBus.poke32 bus w.1 w.2) bus

/-- `bus'` comes from `bus` by pokes at the given addresses only. -/
def Touches (addrs : List UInt64) (bus bus' : B) : Prop :=
  ∃ ws : List (UInt64 × UInt32), (∀ w ∈ ws, w.1 ∈ addrs) ∧ bus' = pokes bus ws

theorem Touches.refl (addrs : List UInt64) (bus : B) : Touches addrs bus bus :=
  ⟨[], fun _ h => (List.not_mem_nil h).elim, rfl⟩

/-- A word elsewhere reads as before. -/
theorem Touches.peek32 {addrs : List UInt64} {bus bus' : B} (h : Touches addrs bus bus')
    {a : UInt64} (ha : a ∉ addrs) : MemBus.peek32 bus' a = MemBus.peek32 bus a := by
  obtain ⟨ws, hws, rfl⟩ := h
  induction ws generalizing bus with
  | nil => rfl
  | cons w ws ih =>
    have hne : a ≠ w.1 := fun he => ha (he ▸ hws w List.mem_cons_self)
    have hrest : MemBus.peek32 (pokes (MemBus.poke32 bus w.1 w.2) ws) a =
        MemBus.peek32 (MemBus.poke32 bus w.1 w.2) a :=
      ih fun w' hw' => hws w' (List.mem_cons_of_mem _ hw')
    exact hrest.trans (MemBus.peek32_poke32_of_ne bus w.2 hne)

theorem Touches.poke {addrs : List UInt64} {bus bus' : B} (h : Touches addrs bus bus') {a : UInt64}
    (ha : a ∈ addrs) (v : UInt32) : Touches addrs bus (MemBus.poke32 bus' a v) := by
  obtain ⟨ws, hws, rfl⟩ := h
  refine ⟨ws ++ [(a, v)], fun w hw => ?_, by simp [pokes]⟩
  rcases List.mem_append.1 hw with h | h
  · exact hws w h
  · rw [List.mem_singleton.1 h]
    exact ha

/-- The words the core owns. -/
def mcuWords (base : UInt64) : List UInt64 := [base + offState, base + offSeen, base + offCyc]

/-! ## The branches of a tick -/

/-- The sentinel of the branch a magic word selects. -/
def sentinelOf (magic : UInt32) : UInt32 :=
  if magic = magicDisarm then stateDisarmed
  else if magic = magicArmed then stateArmed
  else stateBoot

namespace HpmcuSim

theorem tick_of_fired {m : HpmcuSim B} (hf : m.fired = true) (now : ℕ) : m.tick now = m := by
  rw [tick, if_pos hf]

/-- The effect on the mailbox of a tick that starts at `m`, not fired, and ends
at `m'`. -/
structure TickEffect (m m' : HpmcuSim B) : Prop where
  base : m'.base = m.base
  polls : m'.polls = m.polls + 1
  bus : Touches (mcuWords m.base) m.bus m'.bus
  quiet : m'.fired = false →
    m'.read offState = sentinelOf (m.read offMagic) ||| (m'.polls &&& 0xffff) ∧
      m'.fireCount = m.fireCount
  fires : m'.fired = true → m'.read offState = stateFired ∧ m'.fireCount = m.fireCount + 1
  seen : m.read offSeen = m.lastSeen → m'.read offSeen = m'.lastSeen

variable {m : HpmcuSim B}

theorem touches_poll (m : HpmcuSim B) (now : ℕ) :
    Touches (mcuWords m.base) m.bus (m.poll now).bus :=
  (Touches.refl _ m.bus).poke (by simp [mcuWords]) _

/-- Writing the state word at the end of a branch and then firing or not. -/
theorem tickEffect_close {n : HpmcuSim B} (hbase : n.base = m.base)
    (hpolls : n.polls = m.polls + 1) (hbus : Touches (mcuWords m.base) m.bus n.bus)
    (hcount : n.fireCount = m.fireCount) (hfired : n.fired = false)
    (hseen : m.read offSeen = m.lastSeen → n.read offSeen = n.lastSeen) (late : Bool) :
    TickEffect m
      (let n := n.write offState (sentinelOf (m.read offMagic) ||| n.pollLo)
       if late then n.fire else n) := by
  have hmem : n.base + offState ∈ mcuWords m.base := by simp [mcuWords, hbase]
  have hbus' := hbus.poke hmem (sentinelOf (m.read offMagic) ||| n.pollLo)
  have hseen' : ∀ v, (n.write offState v).read offSeen = n.read offSeen := fun v =>
    read_write_of_ne n v (by decide)
  cases late with
  | false =>
    refine ⟨hbase, hpolls, hbus', fun _ => ⟨?_, hcount⟩, fun h => ?_, fun h => ?_⟩
    · exact read_write_self _ _ _
    · exact absurd (hfired.symm.trans h) (by decide)
    · exact (hseen' _).trans (hseen h)
  | true =>
    refine ⟨hbase, hpolls, hbus'.poke hmem stateFired, fun h => ?_, fun _ => ⟨?_, ?_⟩, fun h => ?_⟩
    · exact nomatch h
    · exact read_write_self (n.write offState _) offState stateFired
    · exact congrArg (· + 1) hcount
    · have hfire : ∀ k : HpmcuSim B, k.fire.read offSeen = k.read offSeen := fun k =>
        read_write_of_ne k stateFired (by decide)
      exact (hfire _).trans ((hseen' _).trans (hseen h))

variable (hf : m.fired = false) (now : ℕ)

include hf

theorem tickEffect_disarm (hd : m.read offMagic = magicDisarm) :
    TickEffect m ((m.poll now).tickDisarm now) where
  base := rfl
  polls := rfl
  bus := (m.touches_poll now).poke (by simp [mcuWords, poll, write]) _
  quiet _ := by
    refine ⟨?_, rfl⟩
    rw [sentinelOf, if_pos hd]
    exact read_write_self _ _ _
  fires h := by
    have hfired : ((m.poll now).tickDisarm now).fired = m.fired := rfl
    exact absurd (hf.symm.trans (hfired.symm.trans h)) (by decide)
  seen h := by
    have hstate : ((m.poll now).tickDisarm now).read offSeen = (m.poll now).read offSeen :=
      read_write_of_ne _ _ (by decide)
    rw [hstate, m.read_poll now _ (by decide)]
    exact h

theorem tickEffect_armed (ha : m.read offMagic = magicArmed) (counter : UInt32) :
    TickEffect m ((m.poll now).tickArmed now counter) := by
  have hs : sentinelOf (m.read offMagic) = stateArmed := by
    rw [sentinelOf, ha, if_neg (by decide), if_pos rfl]
  by_cases hc : counter = m.lastSeen
  · let n : HpmcuSim B := { m.poll now with armedEver := true }
    have heq : (m.poll now).tickArmed now counter =
        (let n' := n.write offState (sentinelOf (m.read offMagic) ||| n.pollLo)
         if decide (now - m.lastChange > heartbeatTimeoutS) then n'.fire else n') := by
      simp [tickArmed, n, hs, hc, poll, write, pollLo]
    rw [heq]
    refine tickEffect_close (m := m) (n := n) rfl rfl (m.touches_poll now) rfl hf (fun h => ?_) _
    exact (m.read_poll now offSeen (by decide)).trans h
  · let n : HpmcuSim B :=
      { ({ m.poll now with armedEver := true, lastSeen := counter } : HpmcuSim B).write offSeen
          counter with lastChange := now }
    have heq : (m.poll now).tickArmed now counter =
        (let n' := n.write offState (sentinelOf (m.read offMagic) ||| n.pollLo)
         if decide (now - now > heartbeatTimeoutS) then n'.fire else n') := by
      simp [tickArmed, n, hs, hc, poll, write, pollLo]
    rw [heq]
    refine tickEffect_close (m := m) (n := n) rfl rfl ?_ rfl hf (fun _ => ?_) _
    · exact (m.touches_poll now).poke (by simp [mcuWords, poll, write]) counter
    · exact read_write_self _ offSeen counter

theorem tickEffect_boot (hd : m.read offMagic ≠ magicDisarm) (ha : m.read offMagic ≠ magicArmed) :
    TickEffect m ((m.poll now).tickBoot now) := by
  have hs : sentinelOf (m.read offMagic) = stateBoot := by
    rw [sentinelOf, if_neg hd, if_neg ha]
  have heq : (m.poll now).tickBoot now =
      (let n := (m.poll now).write offState (sentinelOf (m.read offMagic) ||| (m.poll now).pollLo)
       if (m.watch.overdue ⟨now, 0, 0⟩) then n.fire else n) := by
    cases he : m.armedEver with
    | false =>
      by_cases ht : now - m.t0 > bootGraceS
      · simp [tickBoot, hs, Watch.overdue, watch, he, ht, poll, write, pollLo, fire]
      · simp [tickBoot, hs, Watch.overdue, watch, he, ht, poll, write, pollLo]
    | true => simp [tickBoot, hs, Watch.overdue, watch, he, poll, write, pollLo]
  rw [heq]
  refine tickEffect_close (m := m) (n := m.poll now) rfl rfl (m.touches_poll now) rfl hf (fun h => ?_) _
  exact (m.read_poll now offSeen (by decide)).trans h

/-- **What a tick does to the mailbox**, whichever branch it takes. -/
theorem tickEffect : TickEffect m (m.tick now) := by
  have hmagic := m.read_poll now offMagic (by decide)
  simp only [tick, hf, hmagic, Bool.false_eq_true, if_false]
  by_cases hd : m.read offMagic = magicDisarm
  · rw [if_pos hd]
    exact tickEffect_disarm hf now hd
  · rw [if_neg hd]
    by_cases ha : m.read offMagic = magicArmed
    · rw [if_pos ha]
      exact tickEffect_armed hf now ha _
    · rw [if_neg ha]
      exact tickEffect_boot hf now hd ha

omit hf in
/-- **A tick writes only MCU-owned words.** -/
theorem read_tick (m : HpmcuSim B) (now : ℕ) {off : UInt64} (hstate : off ≠ offState)
    (hseen : off ≠ offSeen) (hcyc : off ≠ offCyc) : (m.tick now).read off = m.read off := by
  cases hf : m.fired with
  | true => rw [tick_of_fired hf]
  | false =>
    have heff := tickEffect hf now
    have hmem : m.base + off ∉ mcuWords m.base := by
      simp only [mcuWords, List.mem_cons, List.not_mem_nil, or_false, add_right_inj, not_or]
      exact ⟨hstate, hseen, hcyc⟩
    rw [read, heff.base]
    exact heff.bus.peek32 hmem

end HpmcuSim
end Sim
end WardenSdk
