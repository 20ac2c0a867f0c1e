import WardenSdk.Relays.Calls

/-!
# The relays as latches

Two results about the driver over the kernel's tree.

* With no failing call the two relays are independent latches
  (`RelayOp.effect`): a relay holds the level of the last `set` of its index, or
  the level it had, and every call is about the pin of its own index.
* With failing calls a page that is opened must not move a contact.  It does so
  in one case, which `LosesLevel` names: the value of an input pin that is high
  cannot be read, the driver takes it for 0, and the switch to an output then
  drives the pin low.
-/

namespace WardenSdk
namespace Relays

open Lib

/-- The pin of a relay. -/
def relayPin (idx : UInt32) : ℕ := 32 + idx.toNat

section

variable {idx : UInt32} (hidx : idx.toNat < wardenRelayCount)

include hidx

theorem sGpio_getD : sGpio.getD idx.toNat 0 = relayPin idx := by
  have h : ∀ i < wardenRelayCount, sGpio.getD i 0 = 32 + i := by decide
  exact h idx.toNat hidx

theorem relayPin_mem : relayPin idx ∈ sGpio := by
  have h : ∀ i < wardenRelayCount, 32 + i ∈ sGpio := by decide
  exact h idx.toNat hidx

theorem available_eq (h : Host) :
    wardenRelayAvailable sysfsRoot h idx = ensureReady sysfsRoot h (relayPin idx) := by
  rw [wardenRelayAvailable, if_neg (Nat.not_le.2 hidx), sGpio_getD hidx]

theorem get_eq (h : Host) :
    wardenRelayGet sysfsRoot h idx =
      let h₁ := h.visit (.exists (nodePath sysfsRoot (relayPin idx))) h.pins
      if h.next && (h.pins (relayPin idx)).exported then
        (h₁.next && (h.pins (relayPin idx)).level,
          h₁.visit (.readInt (valuePath sysfsRoot (relayPin idx))) h.pins)
      else (false, h₁) := by
  have hg := relayPin_mem hidx
  rw [wardenRelayGet, if_neg (Nat.not_le.2 hidx), sGpio_getD hidx, exported, exists_node hg]
  dsimp only
  cases hfound : h.next && (h.pins (relayPin idx)).exported with
  | false => rfl
  | true =>
    rw [readInt_value hg]
    have hexp : (h.pins (relayPin idx)).exported = true := (Bool.and_eq_true _ _ ▸ hfound).2
    generalize hnext : (h.visit (.exists (nodePath sysfsRoot (relayPin idx))) h.pins).next = b
    have hpins : (h.visit (.exists (nodePath sysfsRoot (relayPin idx))) h.pins).pins = h.pins := rfl
    simp only [hpins, hexp, Bool.and_true, Bool.not_true, Bool.false_eq_true, if_false, if_true,
      Prod.mk.injEq, and_true]
    cases b with
    | false => rfl
    | true =>
      cases (h.pins (relayPin idx)).level with
      | false => rfl
      | true => rfl

theorem get_reaches (h : Host) {L : Bool → Prop} (hL : L (h.pins (relayPin idx)).level) :
    Reaches (relayPin idx) L h (wardenRelayGet sysfsRoot h idx).2 := by
  have hg := relayPin_mem hidx
  have h₁ := (Reaches.refl hL).look (pin_exists hg)
  rw [get_eq hidx]
  dsimp only
  split
  · exact h₁.look (pin_readInt hg)
  · exact h₁

theorem set_eq (h : Host) (on : Bool) :
    wardenRelaySet sysfsRoot h idx on =
      let e := ensureReady sysfsRoot h (relayPin idx)
      if e.1 then
        e.2.visit (.write (valuePath sysfsRoot (relayPin idx))
            (if on then "1".toList else "0".toList))
          (if e.2.next && (e.2.pins (relayPin idx)).exported && (e.2.pins (relayPin idx)).output then
            Function.update e.2.pins (relayPin idx) { e.2.pins (relayPin idx) with level := on }
          else e.2.pins)
      else e.2 := by
  rw [wardenRelaySet, if_neg (Nat.not_le.2 hidx), sGpio_getD hidx]
  dsimp only
  rw [write_value (relayPin_mem hidx)]
  cases (ensureReady sysfsRoot h (relayPin idx)).1 with
  | false => rfl
  | true => rfl

theorem set_reaches (h : Host) (on : Bool) {L : Bool → Prop} (hL : L (h.pins (relayPin idx)).level)
    (hlost : LosesLevel (h.pins (relayPin idx)) h.ok h.log.length → L false) (hon : L on) :
    Reaches (relayPin idx) L h (wardenRelaySet sysfsRoot h idx on) := by
  have hg := relayPin_mem hidx
  have he := ensureReady_reaches hg h hL hlost
  rw [set_eq hidx]
  dsimp only
  split
  · exact he.update (pin_write_value hg _) _ _ fun _ => hon
  · exact he

end

/-! ## The latches -/

/-- A call of the driver. -/
inductive RelayOp where
  | available (idx : UInt32)
  | get (idx : UInt32)
  | set (idx : UInt32) (on : Bool)
  deriving DecidableEq

namespace RelayOp

def idx : RelayOp → UInt32
  | .available idx => idx
  | .get idx => idx
  | .set idx _ => idx

/-- The world after the call, at the default root. -/
def run (h : Host) : RelayOp → Host
  | .available idx => (wardenRelayAvailable (gpioRoot none) h idx).2
  | .get idx => (wardenRelayGet (gpioRoot none) h idx).2
  | .set idx on => wardenRelaySet (gpioRoot none) h idx on

/-- What a call does to the pin of its index when nothing fails. -/
def effect (p : Pin) : RelayOp → Pin
  | .available _ => ⟨true, true, p.level⟩
  | .get _ => p
  | .set _ on => ⟨true, true, on⟩

end RelayOp

/-- An index beyond the last relay has no effect. -/
theorem run_of_le (h : Host) {op : RelayOp} (hidx : wardenRelayCount ≤ op.idx.toNat) :
    op.run h = h := by
  cases op with
  | available idx => exact congrArg Prod.snd (if_pos hidx)
  | get idx => exact congrArg Prod.snd (if_pos hidx)
  | set idx on => exact if_pos hidx

/-- **A call is about the pin of its index**, and does to it what a latch does. -/
theorem run_spec (h : Host) (hok : ∀ k, h.ok k = true) {op : RelayOp}
    (hidx : op.idx.toNat < wardenRelayCount) :
    Reaches (relayPin op.idx) (fun _ => True) h (op.run h) ∧
      (op.run h).pins (relayPin op.idx) = op.effect (h.pins (relayPin op.idx)) := by
  have hg := relayPin_mem hidx
  cases op with
  | available idx =>
    simp only [RelayOp.idx] at hidx hg ⊢
    rw [RelayOp.run, gpioRoot_none, available_eq hidx]
    exact ⟨ensureReady_reaches hg h trivial fun _ => trivial, (ensureReady_of_ok hg h hok).2⟩
  | get idx =>
    simp only [RelayOp.idx] at hidx hg ⊢
    refine ⟨get_reaches hidx h trivial, ?_⟩
    rw [RelayOp.run, gpioRoot_none, get_eq hidx]
    dsimp only
    split
    · rfl
    · rfl
  | set idx on =>
    simp only [RelayOp.idx] at hidx hg ⊢
    refine ⟨set_reaches hidx h on trivial (fun _ => trivial) trivial, ?_⟩
    obtain ⟨hready, hpin⟩ := ensureReady_of_ok hg h hok
    have hnext : (ensureReady sysfsRoot h (relayPin idx)).2.next = true := by
      rw [Host.next, (ensureReady_reaches hg h (L := fun _ => True) trivial fun _ => trivial).ok]
      exact hok _
    rw [RelayOp.run, gpioRoot_none, set_eq hidx]
    simp [hready, hnext, hpin, Host.visit, RelayOp.effect]

/-- The level of the last `set` of an index, if there was one. -/
def lastSet (i : UInt32) (ops : List RelayOp) : Option Bool :=
  ops.foldl (fun last op => match op with
    | .set idx on => if idx = i then some on else last
    | _ => last) none

/-- Whether a call of the run has exported the pin of an index. -/
def opened (i : UInt32) (ops : List RelayOp) : Bool :=
  ops.any fun op => match op with
    | .available idx => idx == i
    | .get _ => false
    | .set idx _ => idx == i

/-- The driver's world after a run with no failing call. -/
def hostAfter (pins : Pins) (ops : List RelayOp) : Host :=
  run RelayOp.run (Host.start pins fun _ => true) ops

/-- What a run has done to the pins. -/
structure LatchTracks (pins : Pins) (ops : List RelayOp) (h : Host) : Prop where
  ok : ∀ k, h.ok k = true
  level : ∀ i : UInt32, i.toNat < wardenRelayCount →
    (h.pins (relayPin i)).level = (lastSet i ops).getD (pins (relayPin i)).level
  exported : ∀ i : UInt32, i.toNat < wardenRelayCount →
    (h.pins (relayPin i)).exported = ((pins (relayPin i)).exported || opened i ops)
  frame : ∀ g ∉ sGpio, h.pins g = pins g
  log : ∀ v ∈ h.log, ∃ g ∈ sGpio, v.call.pin = some g

theorem latchTracks_start (pins : Pins) :
    LatchTracks pins [] (Host.start pins fun _ => true) :=
  ⟨fun _ => rfl, fun _ _ => rfl, fun _ _ => (Bool.or_false _).symm, fun _ _ => rfl,
    fun _ hv => (List.not_mem_nil hv).elim⟩

theorem relayPin_inj {i j : UInt32} (h : relayPin i = relayPin j) : i = j :=
  UInt32.toNat_inj.1 (Nat.add_left_cancel h)

theorem lastSet_concat (i : UInt32) (ops : List RelayOp) (op : RelayOp) :
    lastSet i (ops ++ [op]) =
      match op with
      | .set idx on => if idx = i then some on else lastSet i ops
      | _ => lastSet i ops := by
  rw [lastSet, List.foldl_append]
  rfl

theorem opened_concat (i : UInt32) (ops : List RelayOp) (op : RelayOp) :
    opened i (ops ++ [op]) = (opened i ops || opened i [op]) :=
  List.any_append

/-- A call of another index, or of none, is no `set` of this one. -/
theorem lastSet_concat_of_ne {i : UInt32} (ops : List RelayOp) {op : RelayOp} (h : op.idx ≠ i) :
    lastSet i (ops ++ [op]) = lastSet i ops := by
  rw [lastSet_concat]
  cases op with
  | available idx => rfl
  | get idx => rfl
  | set idx on => exact if_neg h

theorem opened_concat_of_ne {i : UInt32} (ops : List RelayOp) {op : RelayOp} (h : op.idx ≠ i) :
    opened i (ops ++ [op]) = opened i ops := by
  have hno : opened i [op] = false := by
    cases op with
    | available idx => simpa [opened, RelayOp.idx] using h
    | get idx => rfl
    | set idx on => simpa [opened, RelayOp.idx] using h
  rw [opened_concat, hno, Bool.or_false]

/-- **One call keeps it.** -/
theorem LatchTracks.run {pins : Pins} {ops : List RelayOp} {h : Host} (ht : LatchTracks pins ops h)
    (op : RelayOp) : LatchTracks pins (ops ++ [op]) (op.run h) := by
  by_cases hidx : op.idx.toNat < wardenRelayCount
  · obtain ⟨hr, hpin⟩ := run_spec h ht.ok hidx
    obtain ⟨new, hlog, hnew⟩ := hr.log
    refine ⟨fun k => ?_, fun i hi => ?_, fun i hi => ?_, fun g hg => ?_, fun v hv => ?_⟩
    · rw [hr.ok]
      exact ht.ok k
    · by_cases hne : op.idx = i
      · subst hne
        rw [hpin, lastSet_concat]
        cases op with
        | available idx => exact ht.level idx hi
        | get idx => exact ht.level idx hi
        | set idx on => simp [RelayOp.effect, RelayOp.idx]
      · rw [hr.frame _ fun he => hne (relayPin_inj he).symm, lastSet_concat_of_ne ops hne]
        exact ht.level i hi
    · by_cases hne : op.idx = i
      · subst hne
        rw [hpin, opened_concat]
        cases op with
        | available idx => simp [RelayOp.effect, opened, RelayOp.idx]
        | get idx => simpa [RelayOp.effect, opened, RelayOp.idx] using ht.exported idx hi
        | set idx on => simp [RelayOp.effect, opened, RelayOp.idx]
      · rw [hr.frame _ fun he => hne (relayPin_inj he).symm, opened_concat_of_ne ops hne]
        exact ht.exported i hi
    · have hne : g ≠ relayPin op.idx := fun he => hg (he ▸ relayPin_mem hidx)
      exact (hr.frame g hne).trans (ht.frame g hg)
    · rw [hlog] at hv
      rcases List.mem_append.1 hv with hv | hv
      · exact ⟨relayPin op.idx, relayPin_mem hidx, (hnew v hv).pin⟩
      · exact ht.log v hv
  · have hne : ∀ i : UInt32, i.toNat < wardenRelayCount → op.idx ≠ i := by
      rintro i hi rfl
      exact hidx hi
    rw [run_of_le h (Nat.not_lt.1 hidx)]
    refine ⟨ht.ok, fun i hi => ?_, fun i hi => ?_, ht.frame, ht.log⟩
    · rw [lastSet_concat_of_ne ops (hne i hi)]
      exact ht.level i hi
    · rw [opened_concat_of_ne ops (hne i hi)]
      exact ht.exported i hi

theorem hostAfter_latchTracks (pins : Pins) (ops : List RelayOp) :
    LatchTracks pins ops (hostAfter pins ops) :=
  run_history (I := fun ops h => LatchTracks pins ops h) (latchTracks_start pins)
    (fun _ _ op ht => ht.run op) ops

/-- What `get` answers when nothing fails. -/
theorem get_of_ok {idx : UInt32} (hidx : idx.toNat < wardenRelayCount) (h : Host)
    (hok : ∀ k, h.ok k = true) :
    (wardenRelayGet sysfsRoot h idx).1 =
      ((h.pins (relayPin idx)).exported && (h.pins (relayPin idx)).level) := by
  have hnext : h.next = true := hok _
  have hnext' : (h.visit (.exists (nodePath sysfsRoot (relayPin idx))) h.pins).next = true := hok _
  rw [get_eq hidx]
  dsimp only
  rw [hnext, hnext']
  cases (h.pins (relayPin idx)).exported with
  | false => rfl
  | true => rfl

/-- **The relays are two independent latches**, for every run of calls with any
indices over a tree with no failing call: a relay holds the level of the last
`set` of its index or the one it had; `get` answers it once the pin is exported
and `false` before; every call is about the pin of its own index, a bad index
changes nothing, and no other pin is ever exported, read or written. -/
theorem relays_are_latches (pins : Pins) (ops : List RelayOp) :
    (∀ i : UInt32, i.toNat < wardenRelayCount →
      ((hostAfter pins ops).pins (relayPin i)).level =
        (lastSet i ops).getD (pins (relayPin i)).level ∧
      ((hostAfter pins ops).pins (relayPin i)).exported =
        ((pins (relayPin i)).exported || opened i ops) ∧
      (wardenRelayGet (gpioRoot none) (hostAfter pins ops) i).1 =
        (((pins (relayPin i)).exported || opened i ops) &&
          (lastSet i ops).getD (pins (relayPin i)).level)) ∧
    (∀ op : RelayOp, op.idx.toNat < wardenRelayCount →
      (∃ new, (op.run (hostAfter pins ops)).log = new ++ (hostAfter pins ops).log ∧
        ∀ v ∈ new, v.call.pin = some (relayPin op.idx)) ∧
      ∀ g ≠ relayPin op.idx, (op.run (hostAfter pins ops)).pins g = (hostAfter pins ops).pins g) ∧
    (∀ op : RelayOp, wardenRelayCount ≤ op.idx.toNat →
      op.run (hostAfter pins ops) = hostAfter pins ops) ∧
    (∀ v ∈ (hostAfter pins ops).log, ∃ g ∈ sGpio, v.call.pin = some g) ∧
    ∀ g ∉ sGpio, (hostAfter pins ops).pins g = pins g := by
  have ht := hostAfter_latchTracks pins ops
  refine ⟨fun i hi => ⟨ht.level i hi, ht.exported i hi, ?_⟩, fun op hop => ?_,
    fun op hop => run_of_le _ hop, ht.log, ht.frame⟩
  · rw [gpioRoot_none, get_of_ok hi _ ht.ok, ht.level i hi, ht.exported i hi]
  · obtain ⟨hr, -⟩ := run_spec (hostAfter pins ops) ht.ok hop
    obtain ⟨new, hlog, hnew⟩ := hr.log
    exact ⟨⟨new, hlog, fun v hv => (hnew v hv).pin⟩, hr.frame⟩

/-! ## Opening a page when calls fail -/

/-- Every level on the way is the one before. -/
def KeepsLevels (pins : Pins) (h : Host) : Prop :=
  ∀ v ∈ h.log, ∀ g, (v.pins g).level = (pins g).level

/-- Every level on the way is the one before, or `on`. -/
def MovesOnlyTo (on : Bool) (pins : Pins) (h : Host) : Prop :=
  ∀ v ∈ h.log, ∀ g, (v.pins g).level = (pins g).level ∨ (v.pins g).level = on

/-- The visits of a call made in a fresh log. -/
theorem level_of_reaches {pins : Pins} {ok : ℕ → Bool} {g : ℕ} {L : Bool → Prop} {h' : Host}
    (hr : Reaches g L (Host.start pins ok) h') {v : Visit} (hv : v ∈ h'.log) (g' : ℕ) :
    (v.pins g').level = (pins g').level ∨ g' = g ∧ L (v.pins g').level := by
  obtain ⟨new, hlog, hnew⟩ := hr.log
  rw [hlog, Host.start, List.append_nil] at hv
  have habout := hnew v hv
  by_cases hg : g' = g
  · rw [hg]
    exact Or.inr ⟨rfl, habout.level⟩
  · exact Or.inl (congrArg Pin.level (habout.frame g' hg))

theorem keepsLevels_of_reaches {pins : Pins} {ok : ℕ → Bool} {g : ℕ} {h' : Host}
    (hr : Reaches g (fun b => b = (pins g).level) (Host.start pins ok) h') : KeepsLevels pins h' := by
  intro v hv g'
  rcases level_of_reaches hr hv g' with h | ⟨rfl, h⟩
  · exact h
  · exact h

/-- A page is opened without moving a contact: neither `available` nor `get`
changes a level on the way, and `set` goes through the level before and the one
asked for only. -/
def OpensQuietly (pins : Pins) (ok : ℕ → Bool) (idx : UInt32) : Prop :=
  KeepsLevels pins (wardenRelayAvailable (gpioRoot none) (Host.start pins ok) idx).2 ∧
    KeepsLevels pins (wardenRelayGet (gpioRoot none) (Host.start pins ok) idx).2 ∧
    ∀ on, MovesOnlyTo on pins (wardenRelaySet (gpioRoot none) (Host.start pins ok) idx on)

/-- **When opening a page moves no contact**, for every state of the pins, every
index and every pattern of failing calls: exactly when the level of the relay's
pin is not lost. -/
theorem opensQuietly_iff (pins : Pins) (ok : ℕ → Bool) (idx : UInt32) :
    OpensQuietly pins ok idx ↔
      ¬ (idx.toNat < wardenRelayCount ∧ LosesLevel (pins (relayPin idx)) ok 0) := by
  constructor
  · rintro ⟨havailable, -, -⟩ ⟨hidx, hlost⟩
    obtain ⟨-, v, hv, hlow⟩ := ensureReady_loses (relayPin_mem hidx) (Host.start pins ok) hlost
    rw [gpioRoot_none, available_eq hidx] at havailable
    have hkept := havailable v hv (relayPin idx)
    rw [hlow, hlost.2.1] at hkept
    exact nomatch hkept
  · intro hnot
    by_cases hidx : idx.toNat < wardenRelayCount
    · have hlost : ¬ LosesLevel (pins (relayPin idx)) ok 0 := fun h => hnot ⟨hidx, h⟩
      refine ⟨?_, ?_, fun on v hv g => ?_⟩
      · rw [gpioRoot_none, available_eq hidx]
        refine keepsLevels_of_reaches (ensureReady_reaches (relayPin_mem hidx) _ rfl ?_)
        exact fun h => absurd h hlost
      · exact keepsLevels_of_reaches (get_reaches hidx (Host.start pins ok) rfl)
      · have hr := set_reaches hidx (Host.start pins ok) on
          (L := fun b => b = (pins (relayPin idx)).level ∨ b = on) (Or.inl rfl)
          (fun h => absurd h hlost) (Or.inr rfl)
        rcases level_of_reaches hr hv g with h | ⟨rfl, h⟩
        · exact Or.inl h
        · exact h
    · have hle := Nat.not_lt.1 hidx
      have hno : ∀ (op : RelayOp), op.idx = idx →
          (op.run (Host.start pins ok)).log = [] := fun op hop => by
        rw [run_of_le _ (hop ▸ hle)]
        rfl
      refine ⟨fun v hv => ?_, fun v hv => ?_, fun on v hv => ?_⟩
      · exact (List.not_mem_nil (hno (.available idx) rfl ▸ hv)).elim
      · exact (List.not_mem_nil (hno (.get idx) rfl ▸ hv)).elim
      · exact (List.not_mem_nil (hno (.set idx on) rfl ▸ hv)).elim

/-- A relay whose input pin is high is dropped by opening its page, when the one
read of the value fails. -/
theorem opening_drops_relay :
    ¬ OpensQuietly (fun _ => ⟨true, false, true⟩) (fun k => k != 2) 0 := by
  rintro ⟨havailable, -, -⟩
  have hlow : ((wardenRelayAvailable sysfsRoot
      (Host.start (fun _ => ⟨true, false, true⟩) fun k => k != 2) 0).2.log.map
        fun v => (v.pins 32).level) = [false, true, true, true] := by
    decide
  have hmem : false ∈ ((wardenRelayAvailable sysfsRoot
      (Host.start (fun _ => ⟨true, false, true⟩) fun k => k != 2) 0).2.log.map
        fun v => (v.pins 32).level) := by
    rw [hlow]
    exact List.mem_cons_self
  obtain ⟨v, hv, hv'⟩ := List.mem_map.1 hmem
  exact absurd (hv'.symm.trans (havailable v hv 32)) (by decide)

end Relays
end WardenSdk
