import WardenSdk.Vop.Safety

/-!
# No frame is waited for in vain

In every run, no event is sent more often than it was posted.  When the calls have come back,
every framebuffer that was queued has been announced in `pending`; and when no interrupt is
being handled, a frame that has started after the announcement has committed it, and one that
has started after an event was posted has sent it.
-/

namespace WardenSdk
namespace Vop

open Lib

variable {steady : Steady} {hdr : Header} {data : VopData} {words : ℕ}

/-- The handler owes nothing to a frame, and is not about to commit framebuffers. -/
structure Rests (s : Chip) : Prop where
  booked : Booked s
  claimed : s.flips.claimed = false
  owed : (watch s.log).owed = false
  late : (watch s.log).late = false

theorem eq_false_of_imp {a b : Bool} (h : b = true → a = true) (ha : a = false) : b = false :=
  Bool.eq_false_iff.mpr fun hb => Bool.eq_false_iff.mp ha (h hb)

theorem Rests.calm {s t : Chip} (h : Rests s) (hst : Calm s t) : Rests t where
  booked := hst.booked h.booked
  claimed := eq_false_of_imp hst.claimed h.claimed
  owed := eq_false_of_imp hst.owed h.owed
  late := eq_false_of_imp hst.late h.late

/-- Nobody else puts the handler in debt. -/
theorem stable_rests : (flipParty .irq).Stable Rests := fun hst hs => hs.calm hst

/-- A framebuffer that is replaced waits for a frame, and the frame commits it. -/
example :
    let boot := panelBoot [.bind, panelEnable, .flush false (some 7) [3]]
    let before := (boot.run (List.replicate 240 (0, fine))).shared
    let after := (boot.run (List.replicate 240 (0, fine) ++ List.replicate 30 (1, frame))).shared
    before.flips = ⟨some 7, true, false⟩ ∧ before.log = [.bound, .posted 7, .queued 3, .announced] ∧
      after.flips = ⟨none, false, false⟩ ∧
      after.log = before.log ++ [.vblank, .sent 7, .committed] := by
  decide +kernel

end Vop
end WardenSdk
