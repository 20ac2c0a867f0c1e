import Mathlib.Data.List.GetD
import WardenSdk.Lib.Checked

/-!
# Memories and their write logs

A memory is a family of banks; a log lists the writes it has received, oldest
first.  `lastWrite` is what a cell must hold by its log: the value of the most recent
write to it, or the initial value.  `Recalls` says that a memory agrees with its
log everywhere, and `Recalls.overwrite` that it keeps doing so when a stretch of a
bank is overwritten and the writes are logged.
-/

namespace WardenSdk
namespace Lib

variable {B V : Type*}

/-- The writes that put `values` into a bank from `start` on. -/
def stretch (bank : B) (start : ℕ) (values : List V) : List ((B × ℕ) × V) :=
  values.zipIdx.map fun (v, i) => ((bank, start + i), v)

theorem stretch_concat (b : B) (start : ℕ) (vs : List V) (v : V) :
    stretch b start (vs ++ [v]) = stretch b start vs ++ [((b, start + vs.length), v)] := by
  rw [stretch, List.zipIdx_append, List.map_append, stretch]
  simp

variable [DecidableEq B]

/-- The value of the most recent write to a cell, or the initial value. -/
def lastWrite (d : V) (log : List ((B × ℕ) × V)) (cell : B × ℕ) : V :=
  ((log.reverse.find? fun w => w.1 = cell).map Prod.snd).getD d

/-- Every bank holds what was written to it last. -/
def Recalls (d : V) (log : List ((B × ℕ) × V)) (banks : B → List V) : Prop :=
  ∀ b a v, (banks b)[a]? = some v → v = lastWrite d log (b, a)

theorem lastWrite_concat (d : V) (log : List ((B × ℕ) × V)) (w : (B × ℕ) × V) (cell : B × ℕ) :
    lastWrite d (log ++ [w]) cell = if w.1 = cell then w.2 else lastWrite d log cell := by
  rw [lastWrite, List.reverse_append, List.reverse_singleton, List.singleton_append, List.find?_cons]
  by_cases h : w.1 = cell
  · rw [if_pos h, decide_eq_true h]
    rfl
  · rw [if_neg h, decide_eq_false h]
    rfl

/-- Reading after a stretch of writes. -/
theorem lastWrite_append_stretch (d : V) (log : List ((B × ℕ) × V)) (b : B) (start : ℕ)
    (vs : List V) (c : B) (a : ℕ) :
    lastWrite d (log ++ stretch b start vs) (c, a) =
      if b = c ∧ start ≤ a ∧ a < start + vs.length then vs.getD (a - start) d
      else lastWrite d log (c, a) := by
  induction vs using List.reverseRecOn with
  | nil =>
    rw [if_neg (by rw [List.length_nil]; omega)]
    exact congrArg (lastWrite d · (c, a)) (List.append_nil log)
  | append_singleton vs v ih =>
    rw [stretch_concat, ← List.append_assoc, lastWrite_concat, ih, List.length_append,
      List.length_singleton]
    by_cases hlast : b = c ∧ start + vs.length = a
    · obtain ⟨rfl, rfl⟩ := hlast
      rw [if_pos rfl, if_pos ⟨rfl, by omega, by omega⟩, Nat.add_sub_cancel_left]
      simp
    · rw [if_neg (by simpa only [Prod.mk.injEq] using hlast)]
      by_cases hin : b = c ∧ start ≤ a ∧ a < start + vs.length
      · obtain ⟨rfl, hstart, hstop⟩ := hin
        rw [if_pos ⟨rfl, hstart, hstop⟩, if_pos ⟨rfl, hstart, by omega⟩,
          List.getD_append _ _ _ _ (by omega)]
      · rw [if_neg hin, if_neg]
        rintro ⟨rfl, hstart, hstop⟩
        rcases Nat.lt_or_ge a (start + vs.length) with hlt | hge
        · exact hin ⟨rfl, hstart, hlt⟩
        · exact hlast ⟨rfl, by omega⟩

/-- **Logged writes keep a memory in step with its log.** -/
theorem Recalls.overwrite {d : V} {log : List ((B × ℕ) × V)} {banks : B → List V}
    (h : Recalls d log banks) {b : B} {start : ℕ} {vs : List V}
    (hfits : start + vs.length ≤ (banks b).length) :
    Recalls d (log ++ stretch b start vs)
      (Function.update banks b (overwrite (banks b) start vs)) := by
  intro c a v hv
  rw [lastWrite_append_stretch]
  by_cases hbank : b = c
  · subst hbank
    rw [Function.update_self, getElem?_overwrite hfits] at hv
    by_cases hin : start ≤ a ∧ a < start + vs.length
    · rw [if_pos hin] at hv
      rw [if_pos ⟨rfl, hin⟩, List.getD_eq_getElem?_getD, hv]
      rfl
    · rw [if_neg hin] at hv
      rw [if_neg fun h => hin h.2]
      exact h b a v hv
  · rw [Function.update_of_ne (Ne.symm hbank)] at hv
    rw [if_neg fun h => hbank h.1]
    exact h c a v hv

end Lib
end WardenSdk
