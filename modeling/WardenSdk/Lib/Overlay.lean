import Mathlib.Data.List.Pairwise

/-!
# Overlays

A patch gives new values to some of the places of a store and leaves the others.  Patches
that are applied one after the other hide what they have in common; those that have
nothing in common can all be read back (`overlay_of_mem`), and a place that none of them
covers keeps what it had (`overlay_of_not_covered`).
-/

namespace WardenSdk
namespace Lib

variable {A V : Type*}

structure Patch (A V : Type*) where
  covers : A → Bool
  value : A → V

def Patch.apply (p : Patch A V) (s : A → V) : A → V := fun a => if p.covers a then p.value a else s a

/-- The patches are applied in their order. -/
def overlay (s : A → V) (ps : List (Patch A V)) : A → V := ps.foldl (fun s p => p.apply s) s

/-- No place is covered by both. -/
def Patch.Apart (p q : Patch A V) : Prop := ∀ a, p.covers a = true → q.covers a = false

theorem overlay_of_not_covered {ps : List (Patch A V)} {a : A} (h : ∀ p ∈ ps, p.covers a = false)
    (s : A → V) : overlay s ps a = s a := by
  induction ps generalizing s with
  | nil => rfl
  | cons p ps ih =>
    have hp : p.covers a = false := h p List.mem_cons_self
    have hrest : overlay (p.apply s) ps a = p.apply s a :=
      ih (fun q hq => h q (List.mem_cons_of_mem _ hq)) _
    exact hrest.trans (if_neg (ne_true_of_eq_false hp))

/-- **Patches apart from each other are all there in the end.** -/
theorem overlay_of_mem {ps : List (Patch A V)} (hapart : ps.Pairwise Patch.Apart) {p : Patch A V}
    (hp : p ∈ ps) {a : A} (ha : p.covers a = true) (s : A → V) : overlay s ps a = p.value a := by
  induction ps generalizing s with
  | nil => exact absurd hp List.not_mem_nil
  | cons q ps ih =>
    obtain ⟨hfirst, hrest⟩ := List.pairwise_cons.mp hapart
    rcases List.mem_cons.mp hp with rfl | hp
    · have hkeeps : overlay (p.apply s) ps a = p.apply s a :=
        overlay_of_not_covered (fun q hq => hfirst q hq a ha) _
      exact hkeeps.trans (if_pos ha)
    · exact ih hrest hp _

end Lib
end WardenSdk
