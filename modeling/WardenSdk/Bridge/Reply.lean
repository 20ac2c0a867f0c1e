import WardenSdk.Bridge.Memory
import WardenSdk.Sim.Reply

/-!
# Replies on the field bus

No line of the control channel and no frame touches the address or the identity of the
slave, so every slave that a session can lead to has the two-byte identity it was made
with, and with it every reply on the bus is a legal frame.
-/

namespace WardenSdk
namespace Bridge

open Lib Sim

/-- The two slaves go by the same address and the same identity. -/
structure SameIdentity (s s' : ModbusSlave) : Prop where
  address : s'.address = s.address
  slaveId : s'.slaveId = s.slaveId

/-! ## Frames -/

theorem sameIdentity_of_handles {s s' : ModbusSlave} {req : List UInt8} {reply : Option (List UInt8)}
    (h : Handles s req s' reply) : SameIdentity s s' := by
  cases h with
  | dropped => exact ⟨rfl, rfl⟩
  | ignored => exact ⟨rfl, rfl⟩
  | forced => exact ⟨rfl, rfl⟩
  | answered h own fault answers =>
    cases answers with
    | write h inside banks settings => exact ⟨settings.address, settings.slaveId⟩
    | _ => exact ⟨rfl, rfl⟩

/-! ## Lines -/

/-- A setter replaces a bank. -/
theorem sameIdentity_of_setter {β : Type} {s s' : ModbusSlave} {x : Checked β}
    {put : β → ModbusSlave} (h : (do return put (← x) : Checked ModbusSlave) = .ok s')
    (hput : ∀ bank, SameIdentity s (put bank)) : SameIdentity s s' := by
  obtain ⟨bank, -, h⟩ := bind_eq_ok h
  cases h
  exact hput bank

theorem seeded_sameIdentity {bus bus' : Bus} {slave : Checked ModbusSlave} {reply : ControlReply}
    (h : bus.seeded slave = .ok (bus', reply))
    (hset : ∀ s', slave = .ok s' → SameIdentity bus.slave s') :
    SameIdentity bus.slave bus'.slave := by
  obtain ⟨s', hslave, h⟩ := bind_eq_ok h
  cases h
  exact hset s' hslave

/-- No line changes who the slave is. -/
theorem handleControlLine_sameIdentity {bus bus' : Bus} {line : Text} {reply : ControlReply}
    (h : handleControlLine line bus = .ok (bus', reply)) : SameIdentity bus.slave bus'.slave := by
  unfold handleControlLine at h
  split at h
  · cases h
    exact ⟨rfl, rfl⟩
  · split_ifs at h <;> (cases h; exact ⟨rfl, rfl⟩)
  · split_ifs at h with hdrop hexception hregs hholding hbits hcoil hget hget'
    · split at h <;> (cases h; exact ⟨rfl, rfl⟩)
    · split at h
      · split_ifs at h <;> (cases h; exact ⟨rfl, rfl⟩)
      · cases h
        exact ⟨rfl, rfl⟩
    · split at h
      · refine seeded_sameIdentity h fun s' hset => ?_
        exact sameIdentity_of_setter hset fun _ => ⟨rfl, rfl⟩
      · cases h
        exact ⟨rfl, rfl⟩
    · split at h
      · refine seeded_sameIdentity h fun s' hset => ?_
        exact sameIdentity_of_setter hset fun _ => ⟨rfl, rfl⟩
      · cases h
        exact ⟨rfl, rfl⟩
    · split at h
      · refine seeded_sameIdentity h fun s' hset => ?_
        exact sameIdentity_of_setter hset fun _ => ⟨rfl, rfl⟩
      · cases h
        exact ⟨rfl, rfl⟩
    · split at h
      · refine seeded_sameIdentity h fun s' hset => ?_
        exact sameIdentity_of_setter hset fun _ => ⟨rfl, rfl⟩
      · cases h
        exact ⟨rfl, rfl⟩
    · split at h
      · obtain ⟨v, -, h⟩ := bind_eq_ok h
        cases h
        exact ⟨rfl, rfl⟩
      · cases h
        exact ⟨rfl, rfl⟩
    · split at h
      · obtain ⟨v, -, h⟩ := bind_eq_ok h
        cases h
        exact ⟨rfl, rfl⟩
      · cases h
        exact ⟨rfl, rfl⟩
    · cases h
      exact ⟨rfl, rfl⟩
  · cases h
    exact ⟨rfl, rfl⟩

/-! ## Sessions -/

theorem serve_sameIdentity {bus bus' : Bus} {e : BusEvent} {reply : BusReply}
    (h : serve bus e = .ok (bus', reply)) : SameIdentity bus.slave bus'.slave := by
  cases e with
  | line text =>
    obtain ⟨p, hline, h⟩ := bind_eq_ok h
    cases h
    exact handleControlLine_sameIdentity hline
  | frame bytes =>
    obtain ⟨slave, r, hframe, hhandles⟩ := handleFrame_handles bus.slave bytes
    rw [serve, hframe] at h
    cases h
    exact sameIdentity_of_handles hhandles

/-- The slave of a session has the address and the identity it was made with. -/
theorem session_sameIdentity (address : UInt8) (regs bits : ℕ) (es : List BusEvent) :
    ∃ t, session (Bus.new address regs bits) es = .ok t ∧
      SameIdentity (ModbusSlave.new address regs bits) t.bus.slave := by
  have hkeep (t : Session) (e : BusEvent)
      (h : t.Sound regs bits ∧ SameIdentity (ModbusSlave.new address regs bits) t.bus.slave) :
      ∃ t', t.next e = .ok t' ∧
        t'.Sound regs bits ∧ SameIdentity (ModbusSlave.new address regs bits) t'.bus.slave := by
    obtain ⟨t', hnext, hsound⟩ := Session.Sound.next t e h.1
    refine ⟨t', hnext, hsound, ?_⟩
    obtain ⟨p, hserve, hnext⟩ := bind_eq_ok hnext
    cases hnext
    have hstep := serve_sameIdentity hserve
    exact ⟨hstep.address.trans h.2.address, hstep.slaveId.trans h.2.slaveId⟩
  obtain ⟨t, ht, -, hid⟩ := runChecked_invariant hkeep
    ⟨Session.sound_new address regs bits, rfl, rfl⟩ es
  exact ⟨t, ht, hid⟩

/-- **Every reply on the bus is a legal frame.**  After any session, any bytes are met
with silence or with a reply that is legal: of a frame's length, with the right
checksum and the slave's address, an exception exactly for a refused request, and
otherwise with a byte count, padding and echo as its request asks. -/
theorem every_reply_legal (address : UInt8) (regs bits : ℕ) (es : List BusEvent)
    (req : List UInt8) :
    ∃ t slave reply, session (Bus.new address regs bits) es = .ok t ∧
      t.bus.slave.address = address ∧ handleFrame t.bus.slave req = .ok (slave, reply) ∧
      ∀ bytes, reply = some bytes → ∃ fc pdu, req = appendCrc (address :: fc :: pdu) ∧
        LegalReply t.bus.slave fc pdu bytes := by
  obtain ⟨t, ht, hid⟩ := session_sameIdentity address regs bits es
  obtain ⟨slave, reply, hframe, -⟩ := handleFrame_handles t.bus.slave req
  refine ⟨t, slave, reply, ht, hid.address, hframe, ?_⟩
  rintro bytes rfl
  have hshort : t.bus.slave.slaveId.length ≤ 251 := by
    rw [hid.slaveId]
    show 2 ≤ 251
    omega
  obtain ⟨fc, pdu, hreq, hlegal⟩ := handleFrame_legalReply hshort hframe
  exact ⟨fc, pdu, by rw [hreq, hid.address]; rfl, hlegal⟩

end Bridge
end WardenSdk
