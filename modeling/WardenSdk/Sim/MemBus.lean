import Mathlib.Data.UInt

/-!
# The register bus

`sim/src/membus.rs`: every hardware block is reached by a 32-bit peek or poke at
a physical address.  The source has a trait with one in-memory backend; the
model has a class whose single law is the one that backend provides, a word
reads back as the last value poked to its address.

Handles of a `SimBus` alias one store (`Arc<Mutex<..>>`), so the bus inside a
simulated core and the one the Linux side holds are the same value here: a poke
by either side is a poke of the store the core carries.

Physical addresses are `u64`, and `base + OFF` is the wrapping addition of
`UInt64`; no result depends on `base` being far from the top of the range.  The
`debug_assert` on alignment changes no value and is not modelled.
-/

namespace WardenSdk
namespace Sim

/-- A 32-bit physical-address register bus. -/
class MemBus (B : Type) where
  peek32 : B → UInt64 → UInt32
  poke32 : B → UInt64 → UInt32 → B
  /-- A word reads back as the last value poked to its address. -/
  peek32_poke32 : ∀ bus a v b, peek32 (poke32 bus a v) b = if b = a then v else peek32 bus b

namespace MemBus

variable {B : Type} [MemBus B]

@[simp] theorem peek32_poke32_self (bus : B) (a : UInt64) (v : UInt32) :
    peek32 (poke32 bus a v) a = v := by
  rw [peek32_poke32, if_pos rfl]

theorem peek32_poke32_of_ne (bus : B) {a b : UInt64} (v : UInt32) (h : b ≠ a) :
    peek32 (poke32 bus a v) b = peek32 bus b := by
  rw [peek32_poke32, if_neg h]

end MemBus

/-- The in-memory bus: a map from addresses to words in which a missing word
reads as 0. -/
structure SimBus where
  words : UInt64 → Option UInt32

namespace SimBus

/-- The bus on which nothing has been written. -/
def new : SimBus := ⟨fun _ => none⟩

def peek32 (bus : SimBus) (phys : UInt64) : UInt32 := (bus.words phys).getD 0

def poke32 (bus : SimBus) (phys : UInt64) (val : UInt32) : SimBus :=
  ⟨fun a => if a = phys then some val else bus.words a⟩

end SimBus

instance : MemBus SimBus where
  peek32 := SimBus.peek32
  poke32 := SimBus.poke32
  peek32_poke32 bus a v b := by
    unfold SimBus.peek32 SimBus.poke32
    by_cases h : b = a
    · simp [h]
    · simp [h]

end Sim
end WardenSdk
