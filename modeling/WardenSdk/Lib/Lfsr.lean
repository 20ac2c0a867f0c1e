import Mathlib.Algebra.Group.Nat.Defs
import Mathlib.Algebra.Ring.Parity
import Mathlib.Data.BitVec
import Mathlib.Data.List.GetD
import Mathlib.Logic.Function.Iterate
import WardenSdk.Lib.Run

/-!
# Linear feedback shift registers

A register of width `w` that is clocked towards its low end: a clock moves every
bit one place down, and a bit that falls out at the bottom comes back in as
`poly`.  A serial checksum is such a register that is fed a stream of bits, each of
which is added to the lowest place before the clock.

* `shift_injective`: when `poly` has its top bit set, a clock loses nothing.
* `run_feed`: feeding at most `w` bits one by one is adding the word they spell and
  clocking that often.
* `run_feed_eq_zero_iff`: of at most `w` bits only those that stand in the register
  empty it.
* `run_feed_injective`: the same bits take different registers to different ones.
* `eq_of_burst`: two streams that differ only within `w` consecutive bits are told
  apart.
* `run_feed_xor`: the register is linear, so what two streams do differently is what
  their difference does to the empty register.
* `run_feed_ne_zero_of_odd`: a difference of odd weight shows, when `poly` has odd
  weight itself.
* `run_feed_ne_zero_of_two`: a difference of two bits shows, as long as the register
  has not come round between them.
-/

namespace WardenSdk
namespace Lib
namespace Lfsr

variable {w : ℕ}

section

variable (poly : BitVec w)

/-- One clock of the register. -/
def shift (s : BitVec w) : BitVec w := if s.getLsbD 0 then (s >>> 1) ^^^ poly else s >>> 1

/-- A bit at the lowest place. -/
def low (b : Bool) : BitVec w := (BitVec.ofBool b).setWidth w

/-- A bit is added and the register clocked. -/
def feed (s : BitVec w) (b : Bool) : BitVec w := shift poly (s ^^^ low b)

/-- The word that a list of bits spells, the first at the lowest place. -/
def word : List Bool → BitVec w
  | [] => 0#w
  | b :: bs => low b ^^^ (word bs <<< 1)

end

variable {poly : BitVec w}

/-! ## One clock -/

theorem shift_xor (s t : BitVec w) : shift poly (s ^^^ t) = shift poly s ^^^ shift poly t := by
  have hcancel (a b : BitVec w) : a ^^^ b = a ^^^ poly ^^^ (b ^^^ poly) := by
    rw [BitVec.xor_assoc, BitVec.xor_comm b poly, ← BitVec.xor_assoc poly, BitVec.xor_self,
      BitVec.zero_xor]
  unfold shift
  rw [BitVec.getLsbD_xor, BitVec.ushiftRight_xor_distrib]
  cases s.getLsbD 0 <;> cases t.getLsbD 0 <;>
    simp only [Bool.xor_false, Bool.xor_true, Bool.not_true, Bool.not_false,
      Bool.false_eq_true, if_true, if_false]
  · rw [BitVec.xor_assoc]
  · rw [BitVec.xor_assoc, BitVec.xor_assoc, BitVec.xor_comm poly]
  · exact hcancel _ _

theorem shift_zero : shift poly 0#w = 0#w := by simp [shift]

/-- Only the empty register is clocked to the empty one: what falls out at the bottom
comes back in at the top. -/
theorem eq_zero_of_shift (hpoly : poly.msb = true) {s : BitVec w} (h : shift poly s = 0#w) :
    s = 0#w := by
  have htop : poly.getLsbD (w - 1) = true := by rwa [← BitVec.msb_eq_getLsbD_last]
  have hw : 0 < w := Nat.pos_of_ne_zero fun hw => by
    subst hw
    exact absurd hpoly (by simp [BitVec.msb_of_zero_length])
  have hbit (i : ℕ) : (shift poly s).getLsbD i = false := by rw [h, BitVec.getLsbD_zero]
  unfold shift at hbit
  cases hlow : s.getLsbD 0 with
  | true =>
    have hlast := hbit (w - 1)
    rw [hlow, if_pos rfl, BitVec.getLsbD_xor, htop, BitVec.getLsbD_ushiftRight,
      BitVec.getLsbD_of_ge s _ (by omega)] at hlast
    exact absurd hlast (by decide)
  | false =>
    apply BitVec.eq_of_getLsbD_eq
    intro i hi
    rw [BitVec.getLsbD_zero]
    cases i with
    | zero => exact hlow
    | succ i =>
      have hnext := hbit i
      rw [hlow, if_neg (by decide), BitVec.getLsbD_ushiftRight, Nat.add_comm] at hnext
      exact hnext

theorem shift_injective (hpoly : poly.msb = true) : Function.Injective (shift poly) := by
  intro s t h
  rw [← BitVec.xor_eq_zero_iff]
  apply eq_zero_of_shift hpoly
  rw [shift_xor, h, BitVec.xor_self]

theorem iterate_shift_eq_zero_iff (hpoly : poly.msb = true) (n : ℕ) {s : BitVec w} :
    (shift poly)^[n] s = 0#w ↔ s = 0#w := by
  have hempty : (shift poly)^[n] 0#w = 0#w := Function.iterate_fixed shift_zero n
  constructor
  · intro h
    exact (shift_injective hpoly).iterate n (h.trans hempty.symm)
  · rintro rfl
    exact hempty

/-! ## The word of a list of bits -/

theorem getLsbD_low (b : Bool) (i : ℕ) :
    (low b : BitVec w).getLsbD i = (decide (i < w) && decide (i = 0) && b) := by
  rw [low, BitVec.getLsbD_setWidth, BitVec.getLsbD_ofBool]
  cases i <;> simp

theorem getLsbD_word (bs : List Bool) (i : ℕ) :
    (word bs : BitVec w).getLsbD i = (decide (i < w) && bs.getD i false) := by
  induction bs generalizing i with
  | nil => simp [word]
  | cons b bs ih =>
    rw [word, BitVec.getLsbD_xor, getLsbD_low, BitVec.getLsbD_shiftLeft]
    cases i with
    | zero => simp
    | succ i =>
      rw [Nat.add_sub_cancel, ih]
      by_cases hi : i + 1 < w
      · simp [hi, Nat.lt_of_succ_lt hi]
      · simp [hi]

/-- The binary digits of a number spell it. -/
theorem word_testBit {n k : ℕ} (h : n < 2 ^ k) :
    (word ((List.range k).map n.testBit) : BitVec w) = BitVec.ofNat w n := by
  apply BitVec.eq_of_getLsbD_eq
  intro i hi
  rw [getLsbD_word, BitVec.getLsbD_ofNat]
  by_cases hik : i < k
  · simp [List.getD_eq_getElem?_getD, hik]
  · have hzero : n.testBit i = false :=
      Nat.testBit_lt_two_pow (h.trans_le (Nat.pow_le_pow_right (by omega) (by omega)))
    rw [List.getD_eq_default _ _ (by simpa using hik), hzero]

/-- Bits that fit the register are read back from their word. -/
theorem word_injective {bs cs : List Bool} (hlen : bs.length = cs.length) (hfits : bs.length ≤ w)
    (h : (word bs : BitVec w) = word cs) : bs = cs := by
  apply List.ext_getElem hlen
  intro i hb hc
  have hi := congrArg (fun v : BitVec w => v.getLsbD i) h
  simp only [getLsbD_word, List.getD_eq_getElem _ _ hb, List.getD_eq_getElem _ _ hc] at hi
  simpa [show i < w by omega] using hi

/-- A word that leaves the top place free is what the clock makes of it one place up. -/
theorem shift_word {bs : List Bool} (h : bs.length < w) :
    shift poly (word bs <<< 1) = word bs := by
  have hlow : (word bs <<< 1 : BitVec w).getLsbD 0 = false := by simp
  rw [shift, hlow, if_neg (by decide)]
  apply BitVec.eq_of_getLsbD_eq
  intro i hi
  rw [BitVec.getLsbD_ushiftRight, BitVec.getLsbD_shiftLeft, Nat.add_sub_cancel_left]
  by_cases hlast : 1 + i < w
  · simp [hlast]
  · rw [getLsbD_word, List.getD_eq_default _ _ (by omega)]
    simp [hlast]

/-! ## Streams of bits -/

/-- **Feeding bits is adding their word**, and clocking once for each of them. -/
theorem run_feed (s : BitVec w) {bs : List Bool} (h : bs.length ≤ w) :
    run (feed poly) s bs = (shift poly)^[bs.length] (s ^^^ word bs) := by
  induction bs generalizing s with
  | nil => simp [word]
  | cons b bs ih =>
    have hfits : bs.length < w := h
    have hfirst : shift poly (s ^^^ word (b :: bs)) = feed poly s b ^^^ word bs := by
      rw [word, ← BitVec.xor_assoc, shift_xor, shift_word hfits]
      rfl
    rw [run_cons, ih _ hfits.le, List.length_cons, Function.iterate_succ_apply, hfirst]

/-- **A register is emptied by its own bits** and by no others of their number. -/
theorem run_feed_eq_zero_iff (hpoly : poly.msb = true) {s : BitVec w} {bs : List Bool}
    (h : bs.length ≤ w) : run (feed poly) s bs = 0#w ↔ s = word bs := by
  rw [run_feed s h, iterate_shift_eq_zero_iff hpoly, BitVec.xor_eq_zero_iff]

theorem run_feed_injective (hpoly : poly.msb = true) {s t : BitVec w} {bs : List Bool}
    (h : run (feed poly) s bs = run (feed poly) t bs) : s = t := by
  induction bs generalizing s t with
  | nil => exact h
  | cons b bs ih =>
    have hfeed := shift_injective hpoly (ih h)
    rwa [BitVec.xor_left_inj] at hfeed

/-- Short streams of one length are told apart from any register. -/
theorem run_feed_inj_of_le (hpoly : poly.msb = true) {s : BitVec w} {bs cs : List Bool}
    (hlen : bs.length = cs.length) (hfits : bs.length ≤ w)
    (h : run (feed poly) s bs = run (feed poly) s cs) : bs = cs := by
  rw [run_feed s hfits, run_feed s (hlen ▸ hfits), hlen] at h
  have hword := (shift_injective hpoly).iterate _ h
  rw [BitVec.xor_right_inj] at hword
  exact word_injective hlen hfits hword

/-- **Burst errors are caught.**  Two streams of one length that agree outside `w`
consecutive places leave different registers, unless they are equal. -/
theorem eq_of_burst (hpoly : poly.msb = true) {s : BitVec w} {bs cs : List Bool} {k : ℕ}
    (hlen : bs.length = cs.length) (hagree : ∀ i, i < k ∨ k + w ≤ i → bs[i]? = cs[i]?)
    (h : run (feed poly) s bs = run (feed poly) s cs) : bs = cs := by
  have hbefore : bs.take k = cs.take k := by
    apply List.ext_getElem?
    intro i
    rw [List.getElem?_take, List.getElem?_take]
    split_ifs with hi
    · exact hagree i (.inl hi)
    · rfl
  have hafter : (bs.drop k).drop w = (cs.drop k).drop w := by
    apply List.ext_getElem?
    intro i
    rw [List.drop_drop, List.drop_drop, List.getElem?_drop, List.getElem?_drop]
    exact hagree _ (.inr (Nat.le_add_right _ _))
  have hsplit (l : List Bool) : l = l.take k ++ ((l.drop k).take w ++ (l.drop k).drop w) := by
    rw [List.take_append_drop, List.take_append_drop]
  rw [hsplit bs, hsplit cs, hbefore, hafter, run_append, run_append, run_append, run_append] at h
  have hwindow := run_feed_inj_of_le hpoly (by simp [hlen]) (by simp) (run_feed_injective hpoly h)
  rw [hsplit bs, hsplit cs, hbefore, hafter, hwindow]

/-! ## Scattered errors -/

/-- The bits in which two streams differ. -/
def difference (bs cs : List Bool) : List Bool := List.zipWith (· ^^ ·) bs cs

/-- **The register is linear**: two streams fed together do what their difference does
to the difference of the registers. -/
theorem run_feed_xor {bs cs : List Bool} (h : bs.length = cs.length) (s t : BitVec w) :
    run (feed poly) (s ^^^ t) (difference bs cs) =
      run (feed poly) s bs ^^^ run (feed poly) t cs := by
  induction bs generalizing cs s t with
  | nil =>
    obtain rfl := List.eq_nil_of_length_eq_zero h.symm
    rfl
  | cons b bs ih =>
    cases cs with
    | nil => exact absurd h (Nat.succ_ne_zero _)
    | cons c cs =>
      have hlow : (low (b ^^ c) : BitVec w) = low b ^^^ low c := by
        apply BitVec.eq_of_getLsbD_eq
        intro i hi
        rw [BitVec.getLsbD_xor, getLsbD_low, getLsbD_low, getLsbD_low]
        cases b <;> cases c <;> simp
      have hfeed : feed poly (s ^^^ t) (b ^^ c) = feed poly s b ^^^ feed poly t c := by
        rw [feed, feed, feed, ← shift_xor, hlow, BitVec.xor_assoc, BitVec.xor_assoc,
          ← BitVec.xor_assoc t, BitVec.xor_comm t, BitVec.xor_assoc (low b)]
      show run (feed poly) (feed poly (s ^^^ t) (b ^^ c)) (difference bs cs) = _
      rw [hfeed, ih (Nat.succ_injective h)]
      rfl

/-- Streams that the register does not tell apart differ by a stream it does not see. -/
theorem run_feed_difference_eq_zero {s : BitVec w} {bs cs : List Bool}
    (hlen : bs.length = cs.length) (h : run (feed poly) s bs = run (feed poly) s cs) :
    run (feed poly) 0#w (difference bs cs) = 0#w := by
  rw [← BitVec.xor_self (x := s), run_feed_xor hlen, h, BitVec.xor_self, BitVec.xor_self]

/-- The parity of the first values of a sequence of bits. -/
def parityTo (f : ℕ → Bool) : ℕ → Bool
  | 0 => false
  | n + 1 => parityTo f n ^^ f n

/-- The parity of a register. -/
def parity (s : BitVec w) : Bool := parityTo s.getLsbD w

theorem parityTo_succ' (f : ℕ → Bool) (n : ℕ) :
    parityTo f (n + 1) = (f 0 ^^ parityTo (fun i => f (1 + i)) n) := by
  induction n with
  | zero => simp [parityTo]
  | succ n ih => rw [parityTo, ih, parityTo, Bool.xor_assoc, Nat.add_comm 1 n]

theorem parityTo_xor (f g : ℕ → Bool) (n : ℕ) :
    parityTo (fun i => f i ^^ g i) n = (parityTo f n ^^ parityTo g n) := by
  induction n with
  | zero => rfl
  | succ n ih =>
    rw [parityTo, ih, parityTo, parityTo]
    cases parityTo f n <;> cases parityTo g n <;> cases f n <;> cases g n <;> rfl

theorem parity_xor (s t : BitVec w) : parity (s ^^^ t) = (parity s ^^ parity t) := by
  rw [parity, parity, parity, ← parityTo_xor]
  congr 1
  funext i
  exact BitVec.getLsbD_xor

theorem parity_zero : parity 0#w = false := by
  have h := parity_xor 0#w 0#w
  rwa [BitVec.xor_self, Bool.xor_self] at h

/-- What falls out at the bottom leaves the parity. -/
theorem parity_ushiftRight_one (s : BitVec w) : parity (s >>> 1) = (s.getLsbD 0 ^^ parity s) := by
  have hnext : (s >>> 1).getLsbD = fun i => s.getLsbD (1 + i) := by
    funext i
    exact BitVec.getLsbD_ushiftRight ..
  have hall := parityTo_succ' s.getLsbD w
  rw [parityTo, BitVec.getLsbD_of_ge s w le_rfl, Bool.xor_false] at hall
  rw [parity, parity, hnext, hall, ← Bool.xor_assoc, Bool.xor_self, Bool.false_xor]

/-- A clock keeps the parity when what comes back in is odd. -/
theorem parity_shift (hodd : parity poly = true) (s : BitVec w) :
    parity (shift poly s) = parity s := by
  unfold shift
  cases hlow : s.getLsbD 0 with
  | true =>
    rw [if_pos rfl, parity_xor, hodd, parity_ushiftRight_one, hlow]
    cases parity s <;> rfl
  | false => rw [if_neg (by decide), parity_ushiftRight_one, hlow, Bool.false_xor]

theorem parity_low (hw : 0 < w) (b : Bool) : parity (low b : BitVec w) = b := by
  cases w with
  | zero => exact absurd hw (Nat.lt_irrefl 0)
  | succ w =>
    have hrest (n : ℕ) : parityTo (fun i => (low b : BitVec (w + 1)).getLsbD (1 + i)) n = false := by
      induction n with
      | zero => rfl
      | succ n ih =>
        have hplace : ¬ 1 + n = 0 := by omega
        rw [parityTo, ih, getLsbD_low, decide_eq_false hplace, Bool.and_false]
        rfl
    rw [parity, parityTo_succ', hrest, getLsbD_low]
    simp

/-- **The parity of the register is the parity of the stream**, from the empty
register. -/
theorem parity_run_feed (hw : 0 < w) (hodd : parity poly = true) (s : BitVec w) (bs : List Bool) :
    parity (run (feed poly) s bs) = (parity s ^^ decide (Odd (bs.count true))) := by
  induction bs generalizing s with
  | nil => simp
  | cons b bs ih =>
    rw [run_cons, ih, feed, parity_shift hodd, parity_xor, parity_low hw, Bool.xor_assoc]
    congr 1
    cases b with
    | true =>
      rw [List.count_cons_self, decide_eq_decide.mpr Nat.odd_add_one, decide_not, Bool.true_xor]
    | false => rw [List.count_cons_of_ne (by decide), Bool.false_xor]

/-- **Errors of odd weight are caught.** -/
theorem run_feed_ne_zero_of_odd (hw : 0 < w) (hodd : parity poly = true) {e : List Bool}
    (h : Odd (e.count true)) : run (feed poly) 0#w e ≠ 0#w := by
  intro hzero
  have hparity := parity_run_feed hw hodd 0#w e
  rw [hzero, parity_zero, decide_eq_true h] at hparity
  exact absurd hparity (by decide)

theorem run_feed_of_count_eq_zero {bs : List Bool} (h : bs.count true = 0) (s : BitVec w) :
    run (feed poly) s bs = (shift poly)^[bs.length] s := by
  induction bs generalizing s with
  | nil => rfl
  | cons b bs ih =>
    cases b with
    | true => exact absurd h (by simp)
    | false =>
      have hlow : (low false : BitVec w) = 0#w := by simp [low]
      rw [run_cons, ih (by simpa using h), feed, hlow, BitVec.xor_zero]
      rfl

/-- **Errors of two bits are caught** as long as the register, started from a single
bit, does not come round between them. -/
theorem run_feed_ne_zero_of_two (hpoly : poly.msb = true) {e : List Bool}
    (hround : ∀ d, 0 < d → d < e.length → (shift poly)^[d] (low true) ≠ low true)
    (h : e.count true = 2) : run (feed poly) 0#w e ≠ 0#w := by
  intro hzero
  have hfirst : true ∈ e := List.count_pos_iff.mp (by omega)
  obtain ⟨as, rest, rfl, has⟩ := List.eq_append_cons_of_mem hfirst
  rw [List.count_append, List.count_cons_self, List.count_eq_zero.mpr has] at h
  have hsecond : true ∈ rest := List.count_pos_iff.mp (by omega)
  obtain ⟨bs, cs, rfl, hbs⟩ := List.eq_append_cons_of_mem hsecond
  rw [List.count_append, List.count_cons_self, List.count_eq_zero.mpr hbs] at h
  -- the register stays empty to the first bit, runs free to the second and on to the end
  have hstart : (shift poly)^[as.length] 0#w = 0#w := Function.iterate_fixed shift_zero _
  rw [run_append, run_feed_of_count_eq_zero (List.count_eq_zero.mpr has), hstart, run_cons,
    run_append, run_feed_of_count_eq_zero (List.count_eq_zero.mpr hbs), run_cons,
    run_feed_of_count_eq_zero (by omega)] at hzero
  have hlast := eq_zero_of_shift hpoly ((iterate_shift_eq_zero_iff hpoly _).mp hzero)
  rw [feed, BitVec.zero_xor, ← Function.iterate_succ_apply, BitVec.xor_eq_zero_iff] at hlast
  refine hround _ (Nat.succ_pos _) ?_ hlast
  simp only [List.length_append, List.length_cons]
  omega

/-- The first `n` registers from `s` on are not `t`. -/
def avoids (poly t : BitVec w) : ℕ → BitVec w → Bool
  | 0, _ => true
  | n + 1, s => decide (s ≠ t) && avoids poly t n (shift poly s)

theorem iterate_ne_of_avoids {t : BitVec w} {n : ℕ} {s : BitVec w} (h : avoids poly t n s = true)
    {d : ℕ} (hd : d < n) : (shift poly)^[d] s ≠ t := by
  induction n generalizing s d with
  | zero => exact absurd hd (Nat.not_lt_zero d)
  | succ n ih =>
    rw [avoids, Bool.and_eq_true, decide_eq_true_iff] at h
    cases d with
    | zero => exact h.1
    | succ d =>
      rw [Function.iterate_succ_apply]
      exact ih h.2 (Nat.lt_of_succ_lt_succ hd)

end Lfsr
end Lib
end WardenSdk
