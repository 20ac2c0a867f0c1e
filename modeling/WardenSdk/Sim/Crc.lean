import WardenSdk.Lib.Lfsr
import WardenSdk.Sim.ModbusMemory

/-!
# What the checksum catches

`crc16` of `sim/src/modbus.rs` is a shift register of width 16 that is fed the bits
of the frame as they go over the wire.  Here it is put on the register of
`Lib.Lfsr`, and the two facts the bus relies on are drawn from there.

* A frame carries the right checksum exactly when the register is empty after all
  of it, checksum included (`crcOk_eq_decide`).
* Within a window of 16 wire bits nothing can change unnoticed.
* An odd number of flipped bits never goes unnoticed, and two flipped bits do not in a
  frame of legal length.
* A frame that is cut in two is not safe: either piece may pass for a frame of its
  own, and the register at the cut says when.
-/

namespace WardenSdk
namespace Sim

open Lib

/-! ## The register -/

def crcPoly : BitVec 16 := 0xA001#16

/-- The bits of a byte on the wire, the least significant first. -/
def byteBits (b : UInt8) : List Bool := (List.range 8).map b.toNat.testBit

/-- The bits of a frame on the wire. -/
def wireBits (frame : List UInt8) : List Bool := frame.flatMap byteBits

theorem length_byteBits (b : UInt8) : (byteBits b).length = 8 := by simp [byteBits]

theorem length_wireBits (frame : List UInt8) : (wireBits frame).length = frame.length * 8 := by
  induction frame with
  | nil => rfl
  | cons b frame ih =>
    rw [wireBits, List.flatMap_cons, List.length_append, length_byteBits]
    rw [wireBits] at ih
    rw [ih, List.length_cons]
    omega

theorem byteBits_injective : Function.Injective byteBits := by
  intro b c h
  rw [← UInt8.toNat_inj]
  apply Nat.eq_of_testBit_eq
  intro i
  by_cases hi : i < 8
  · have hbit := congrArg (fun l => l[i]?) h
    simpa [byteBits, hi] using hbit
  · have hzero (b : UInt8) : b.toNat.testBit i = false :=
      Nat.testBit_lt_two_pow (b.toNat_lt.trans_le (Nat.pow_le_pow_right (by omega) (by omega)))
    rw [hzero, hzero]

theorem wireBits_injective : Function.Injective wireBits := by
  intro f g h
  induction f generalizing g with
  | nil =>
    have hlen := congrArg List.length h
    rw [length_wireBits, length_wireBits] at hlen
    exact (List.eq_nil_of_length_eq_zero (by simpa using hlen.symm)).symm
  | cons b f ih =>
    cases g with
    | nil =>
      have hlen := congrArg List.length h
      rw [length_wireBits, length_wireBits] at hlen
      simp at hlen
    | cons c g =>
      obtain ⟨hhead, htail⟩ := List.append_inj h (by rw [length_byteBits, length_byteBits])
      rw [byteBits_injective hhead, ih htail]

theorem toBitVec_crcShift (c : UInt16) :
    (crcShift c).toBitVec = Lfsr.shift crcPoly c.toBitVec := by
  have hlow : c &&& 1 ≠ 0 ↔ c.toBitVec.getLsbD 0 = true := by
    rw [← UInt16.toBitVec_inj.ne, UInt16.toBitVec_and]
    show c.toBitVec &&& 1#16 ≠ 0#16 ↔ _
    rw [BitVec.and_one_eq_setWidth_ofBool_getLsbD]
    cases c.toBitVec.getLsbD 0 <;> decide
  unfold crcShift Lfsr.shift
  by_cases h : c &&& 1 ≠ 0
  · rw [if_pos h, if_pos (hlow.mp h)]
    rfl
  · rw [if_neg h, if_neg (hlow.not.mp h)]
    rfl

theorem toBitVec_iterate_crcShift (n : ℕ) (c : UInt16) :
    (crcShift^[n] c).toBitVec = (Lfsr.shift crcPoly)^[n] c.toBitVec := by
  induction n generalizing c with
  | zero => rfl
  | succ n ih => rw [Function.iterate_succ_apply, ih, toBitVec_crcShift, Function.iterate_succ_apply]

/-- One byte of the loop feeds the register its eight bits. -/
theorem toBitVec_crcByte (c : UInt16) (b : UInt8) :
    (crcShift^[8] (c ^^^ b.toUInt16)).toBitVec =
      run (Lfsr.feed crcPoly) c.toBitVec (byteBits b) := by
  have hword : (Lfsr.word (byteBits b) : BitVec 16) = b.toUInt16.toBitVec := by
    have hb := b.toNat_lt
    rw [byteBits, Lfsr.word_testBit hb]
    apply BitVec.eq_of_toNat_eq
    rw [BitVec.toNat_ofNat, UInt16.toNat_toBitVec, UInt8.toNat_toUInt16, Nat.mod_eq_of_lt (by omega)]
  rw [Lfsr.run_feed _ (by rw [length_byteBits]; omega), length_byteBits, hword,
    toBitVec_iterate_crcShift, UInt16.toBitVec_xor]

/-- **The checksum is the register fed with the wire bits**, from wherever it
stands. -/
theorem toBitVec_crc16_append (p q : List UInt8) :
    (crc16 (p ++ q)).toBitVec = run (Lfsr.feed crcPoly) (crc16 p).toBitVec (wireBits q) := by
  induction q using List.reverseRecOn with
  | nil => rw [List.append_nil]; rfl
  | append_singleton q b ih =>
    have hstep : crc16 (p ++ (q ++ [b])) = crcShift^[8] (crc16 (p ++ q) ^^^ b.toUInt16) := by
      rw [← List.append_assoc, crc16, List.foldl_append]
      rfl
    have hbits : wireBits (q ++ [b]) = wireBits q ++ byteBits b := by simp [wireBits]
    rw [hstep, toBitVec_crcByte, ih, hbits, run_append]

theorem toBitVec_crc16 (frame : List UInt8) :
    (crc16 frame).toBitVec = run (Lfsr.feed crcPoly) 0xFFFF#16 (wireBits frame) :=
  toBitVec_crc16_append [] frame

theorem msb_crcPoly : crcPoly.msb = true := by decide

/-- The checksum of the whole is settled by the register at any cut. -/
theorem crc16_inj_of_append {p p' q : List UInt8} (h : crc16 (p ++ q) = crc16 (p' ++ q)) :
    crc16 p = crc16 p' := by
  have hrun := congrArg UInt16.toBitVec h
  rw [toBitVec_crc16_append, toBitVec_crc16_append] at hrun
  exact UInt16.toBitVec_inj.mp (Lfsr.run_feed_injective msb_crcPoly hrun)

/-! ## The frame and its checksum -/

/-- The checksum goes over the wire as the bits of the register. -/
theorem wireBits_crcBytes (body : List UInt8) :
    wireBits (crcBytes body) = (List.range 16).map (crc16 body).toNat.testBit := by
  have hlow (i : ℕ) (hi : i < 8) :
      (crc16 body &&& 0xFF).toUInt8.toNat.testBit i = (crc16 body).toNat.testBit i := by
    have hmod : (crc16 body &&& 0xFF).toUInt8.toNat = (crc16 body).toNat % 2 ^ 8 := by
      rw [UInt16.toNat_toUInt8, UInt16.toNat_and]
      show ((crc16 body).toNat &&& (2 ^ 8 - 1)) % 2 ^ 8 = _
      rw [Nat.and_two_pow_sub_one_eq_mod, Nat.mod_mod]
    rw [hmod, Nat.testBit_mod_two_pow, decide_eq_true hi, Bool.true_and]
  have hhigh (i : ℕ) (hi : i < 8) :
      (crc16 body >>> 8).toUInt8.toNat.testBit i = (crc16 body).toNat.testBit (8 + i) := by
    have hdiv : (crc16 body >>> 8).toUInt8.toNat = (crc16 body).toNat / 2 ^ 8 := by
      have hlt := (crc16 body).toNat_lt
      rw [UInt16.toNat_toUInt8, UInt16.toNat_shiftRight]
      show (crc16 body).toNat >>> 8 % 2 ^ 8 = _
      rw [Nat.shiftRight_eq_div_pow, Nat.mod_eq_of_lt (by omega)]
    rw [hdiv, Nat.testBit_div_two_pow, Nat.add_comm]
  rw [show (16 : ℕ) = 8 + 8 from rfl, List.range_add, List.map_append, List.map_map]
  show byteBits _ ++ (byteBits _ ++ []) = _
  rw [List.append_nil, byteBits, byteBits]
  congr 1
  · exact List.map_congr_left fun i hi => hlow i (List.mem_range.mp hi)
  · exact List.map_congr_left fun i hi => hhigh i (List.mem_range.mp hi)

/-- **A completed frame empties the register**, and only the right checksum does. -/
theorem crc16_append_eq_zero_iff (body : List UInt8) {crc : List UInt8} (h : crc.length = 2) :
    crc16 (body ++ crc) = 0 ↔ crc = crcBytes body := by
  have hfits : (wireBits crc).length ≤ 16 := by rw [length_wireBits, h]
  have hword : (Lfsr.word (wireBits (crcBytes body)) : BitVec 16) = (crc16 body).toBitVec := by
    rw [wireBits_crcBytes, Lfsr.word_testBit (crc16 body).toNat_lt]
    exact BitVec.ofNat_toNat _ _
  have hempty : crc16 (body ++ crc) = 0 ↔ (crc16 body).toBitVec = Lfsr.word (wireBits crc) := by
    rw [← UInt16.toBitVec_inj, toBitVec_crc16_append]
    exact Lfsr.run_feed_eq_zero_iff msb_crcPoly hfits
  rw [hempty, ← hword]
  constructor
  · intro hbits
    refine wireBits_injective (Lfsr.word_injective ?_ hfits hbits.symm)
    rw [length_wireBits, length_wireBits, h]
    rfl
  · rintro rfl
    rfl

/-- **A frame passes exactly when the register is empty after all of it.** -/
theorem crcOk_eq_decide (frame : List UInt8) :
    crcOk frame = .ok (decide (3 ≤ frame.length ∧ crc16 frame = 0)) := by
  rw [crcOk_eq]
  congr 1
  refine decide_eq_decide.mpr (and_congr_right fun hlen => ?_)
  have htwo : (frame.drop (frame.length - 2)).length = 2 := by
    rw [List.length_drop]
    omega
  rw [eq_appendCrc_take_iff, ← crc16_append_eq_zero_iff _ htwo, List.take_append_drop]

theorem crcOk_iff (frame : List UInt8) :
    crcOk frame = .ok true ↔ 3 ≤ frame.length ∧ crc16 frame = 0 := by
  rw [crcOk_eq_decide, Except.ok.injEq, decide_eq_true_iff]

/-- **The two ways of checking a checksum agree**: computing it over the body and
comparing, and running the register over the whole frame. -/
theorem crc_checks_agree :
    (∀ f : List UInt8, 3 ≤ f.length → crcOk f = .ok (decide (crc16 f = 0))) ∧
      ∀ body : List UInt8, crc16 (appendCrc body) = 0 := by
  refine ⟨fun f hlen => ?_, fun body => (crc16_append_eq_zero_iff body rfl).mpr rfl⟩
  rw [crcOk_eq_decide]
  congr 1
  exact decide_eq_decide.mpr (and_iff_right hlen)

/-- A read request with the checksum that every master gives it. -/
theorem crc_checks_agree_on_known_vector :
    appendCrc [0x01, 0x03, 0x00, 0x00, 0x00, 0x01] =
        [0x01, 0x03, 0x00, 0x00, 0x00, 0x01, 0x84, 0x0A] ∧
      crcOk [0x01, 0x03, 0x00, 0x00, 0x00, 0x01, 0x84, 0x0A] = .ok true := by
  have hvector : appendCrc [0x01, 0x03, 0x00, 0x00, 0x00, 0x01] =
      [0x01, 0x03, 0x00, 0x00, 0x00, 0x01, 0x84, 0x0A] := by decide +kernel
  have hempty := crc_checks_agree.2 [0x01, 0x03, 0x00, 0x00, 0x00, 0x01]
  rw [hvector] at hempty
  refine ⟨hvector, (crc_checks_agree.1 _ (by decide)).trans ?_⟩
  rw [decide_eq_true hempty]

-- two bytes can empty the register too, but are no frame
example : crc16 [0xFF, 0xFF] = 0 ∧ crcOk [0xFF, 0xFF] = .ok false := by decide +kernel

/-! ## Silence -/

/-- The bytes pass for a frame of the slave at `address`. -/
def PassesFor (address : UInt8) (req : List UInt8) : Prop :=
  4 ≤ req.length ∧ req.head? = some address ∧ crc16 req = 0

instance (address : UInt8) (req : List UInt8) : Decidable (PassesFor address req) :=
  inferInstanceAs (Decidable (_ ∧ _ ∧ _))

theorem passesFor_iff (address : UInt8) (req : List UInt8) :
    PassesFor address req ↔ ∃ fc pdu, req = appendCrc (address :: fc :: pdu) := by
  constructor
  · rintro ⟨hlen, hhead, hcrc⟩
    have hok := (crcOk_iff req).mpr ⟨by omega, hcrc⟩
    rw [crcOk_eq, Except.ok.injEq, decide_eq_true_iff] at hok
    have htake : 2 ≤ (req.take (req.length - 2)).length := by
      rw [List.length_take]
      omega
    match hbody : req.take (req.length - 2), htake with
    | a :: fc :: pdu, _ =>
      refine ⟨fc, pdu, ?_⟩
      rw [hbody] at hok
      rw [hok.2] at hhead
      cases hhead
      exact hok.2
  · rintro ⟨fc, pdu, rfl⟩
    refine ⟨?_, rfl, (crc16_append_eq_zero_iff _ rfl).mpr rfl⟩
    rw [(appendCrc_take_drop _).1, List.length_cons, List.length_cons]
    omega

/-- **When the slave stays silent**: it drops the frame, or the frame is not one of
its own. -/
theorem handleFrame_none_iff (s : ModbusSlave) (req : List UInt8) :
    (∃ s', handleFrame s req = .ok (s', none)) ↔
      (s.dropNext = 0 → ¬ PassesFor s.address req) := by
  obtain ⟨s', reply, hframe, hhandles⟩ := handleFrame_handles s req
  rw [passesFor_iff, hframe]
  cases hhandles with
  | dropped h => exact ⟨fun _ hzero => absurd hzero (by omega), fun _ => ⟨_, rfl⟩⟩
  | ignored h foreign =>
    refine ⟨fun _ _ => ?_, fun _ => ⟨_, rfl⟩⟩
    rintro ⟨fc, pdu, hown⟩
    exact foreign fc pdu hown
  | forced h own fault =>
    refine ⟨?_, fun hnot => absurd ⟨_, _, own⟩ (hnot h)⟩
    rintro ⟨s', hs'⟩
    cases hs'
  | answered h own fault answers =>
    refine ⟨?_, fun hnot => absurd ⟨_, _, own⟩ (hnot h)⟩
    rintro ⟨s', hs'⟩
    cases hs'

/-- What silence leaves behind: one drop less, if any was left. -/
theorem eq_of_handleFrame_none {s s' : ModbusSlave} {req : List UInt8}
    (h : handleFrame s req = .ok (s', none)) : s' = { s with dropNext := s.dropNext - 1 } := by
  obtain ⟨s'', reply, hframe, hhandles⟩ := handleFrame_handles s req
  rw [hframe] at h
  cases h
  cases hhandles with
  | dropped h => rfl
  | ignored h foreign =>
    cases s
    cases h
    rfl

/-- **Bytes that leave something in the register are no frame**: they do not pass, and
every slave meets them with silence.  Of its state only a pending drop is touched. -/
theorem silent_of_crc16_ne_zero {f : List UInt8} (h : crc16 f ≠ 0) :
    crcOk f = .ok false ∧
      ∀ s, handleFrame s f = .ok ({ s with dropNext := s.dropNext - 1 }, none) := by
  constructor
  · rw [crcOk_eq_decide, decide_eq_false fun hok => h hok.2]
  · intro s
    obtain ⟨s', hs'⟩ := (handleFrame_none_iff s f).mpr fun _ hpass => h hpass.2.2
    rw [hs', eq_of_handleFrame_none hs']

/-! ## Burst errors -/

/-- **A burst of at most 16 wire bits is met with silence.**  Change a frame that
carries the right checksum anywhere within 16 consecutive bits, the checksum
included: it no longer passes, no slave answers it, and no bank changes. -/
theorem burst_detected {f f' : List UInt8} {k : ℕ} (hok : crcOk f = .ok true)
    (hlen : f'.length = f.length)
    (hwindow : ∀ i, i < k ∨ k + 16 ≤ i → (wireBits f')[i]? = (wireBits f)[i]?) (hne : f' ≠ f) :
    crcOk f' = .ok false ∧
      ∀ s, ∃ s', handleFrame s f' = .ok (s', none) ∧ cells s' = cells s := by
  have hcrc : crc16 f' ≠ 0 := by
    intro hzero
    have hrun := congrArg UInt16.toBitVec (hzero.trans ((crcOk_iff f).mp hok).2.symm)
    rw [toBitVec_crc16, toBitVec_crc16] at hrun
    have hbits : (wireBits f').length = (wireBits f).length := by
      rw [length_wireBits, length_wireBits, hlen]
    exact hne (wireBits_injective (Lfsr.eq_of_burst msb_crcPoly hbits hwindow hrun))
  obtain ⟨hfails, hsilent⟩ := silent_of_crc16_ne_zero hcrc
  exact ⟨hfails, fun s => ⟨_, hsilent s, rfl⟩⟩

/-- A read request with a bit flipped on either side of a byte boundary. -/
theorem burst_detected_across_bytes :
    crcOk [0x01, 0x03, 0x00, 0x00, 0x80, 0x00, 0x84, 0x0A] = .ok false ∧
      ∀ s, ∃ s', handleFrame s [0x01, 0x03, 0x00, 0x00, 0x80, 0x00, 0x84, 0x0A] = .ok (s', none) ∧
        cells s' = cells s := by
  refine burst_detected (f := [0x01, 0x03, 0x00, 0x00, 0x00, 0x01, 0x84, 0x0A]) (k := 39)
    (by decide +kernel) rfl ?_ (by decide)
  have hinside : ∀ i < 64, i < 39 ∨ 39 + 16 ≤ i →
      (wireBits [0x01, 0x03, 0x00, 0x00, 0x80, 0x00, 0x84, 0x0A])[i]? =
        (wireBits [0x01, 0x03, 0x00, 0x00, 0x00, 0x01, 0x84, 0x0A])[i]? := by decide +kernel
  intro i hi
  by_cases hlast : i < 64
  · exact hinside i hlast hi
  · rw [List.getElem?_eq_none (by rw [length_wireBits]; exact not_lt.mp hlast),
      List.getElem?_eq_none (by rw [length_wireBits]; exact not_lt.mp hlast)]

/-! ## Scattered errors -/

/-- The number of bits in which two frames differ. -/
def flips (f f' : List UInt8) : ℕ := (Lfsr.difference (wireBits f) (wireBits f')).count true

theorem parity_crcPoly : Lfsr.parity crcPoly = true := by decide

set_option maxRecDepth 10000 in
theorem avoids_crcPoly : Lfsr.avoids crcPoly (Lfsr.low true) 2047
    (Lfsr.shift crcPoly (Lfsr.low true)) = true := by decide +kernel

/-- From a single bit the register does not come round within the 2048 bits of the
longest frame. -/
theorem iterate_shift_ne_low {d : ℕ} (hpos : 0 < d) (hd : d < 2048) :
    (Lfsr.shift crcPoly)^[d] (Lfsr.low true) ≠ Lfsr.low true := by
  obtain ⟨d, rfl⟩ := Nat.exists_eq_add_one_of_ne_zero hpos.ne'
  rw [Function.iterate_succ_apply]
  exact Lfsr.iterate_ne_of_avoids avoids_crcPoly (Nat.lt_of_succ_lt_succ hd)

/-- A difference that the empty register sees is seen by the checksum. -/
theorem crc16_ne_zero_of_difference {f f' : List UInt8} (hok : crcOk f = .ok true)
    (hlen : f'.length = f.length)
    (h : run (Lfsr.feed crcPoly) 0#16 (Lfsr.difference (wireBits f) (wireBits f')) ≠ 0#16) :
    crc16 f' ≠ 0 := by
  intro hzero
  have hrun := congrArg UInt16.toBitVec (((crcOk_iff f).mp hok).2.trans hzero.symm)
  rw [toBitVec_crc16, toBitVec_crc16] at hrun
  refine h (Lfsr.run_feed_difference_eq_zero ?_ hrun)
  rw [length_wireBits, length_wireBits, hlen]

theorem crc16_ne_zero_of_odd_flips {f f' : List UInt8} (hok : crcOk f = .ok true)
    (hlen : f'.length = f.length) (hodd : Odd (flips f f')) : crc16 f' ≠ 0 :=
  crc16_ne_zero_of_difference hok hlen
    (Lfsr.run_feed_ne_zero_of_odd (by decide) parity_crcPoly hodd)

theorem crc16_ne_zero_of_two_flips {f f' : List UInt8} (hok : crcOk f = .ok true)
    (hlen : f'.length = f.length) (hshort : f.length ≤ 256) (htwo : flips f f' = 2) :
    crc16 f' ≠ 0 := by
  refine crc16_ne_zero_of_difference hok hlen (Lfsr.run_feed_ne_zero_of_two msb_crcPoly ?_ htwo)
  intro d hpos hd
  rw [Lfsr.difference, List.length_zipWith, length_wireBits, length_wireBits, hlen,
    Nat.min_self] at hd
  exact iterate_shift_ne_low hpos (by omega)

/-- **Scattered errors are met with silence.**  Flip an odd number of bits of a frame
that carries the right checksum, or any two bits of one that is no longer than a legal
frame: it no longer passes.  So one, two or three flipped bits of a legal frame get no
answer and change nothing in a slave; what a fault injected beforehand uses up is a
drop that was pending anyway. -/
theorem scattered_detected {f f' : List UInt8} (hok : crcOk f = .ok true)
    (hlen : f'.length = f.length) :
    (Odd (flips f f') → crcOk f' = .ok false) ∧
      (f.length ≤ 256 → flips f f' = 2 → crcOk f' = .ok false) ∧
      (f.length ≤ 256 → 1 ≤ flips f f' → flips f f' ≤ 3 →
        crcOk f' = .ok false ∧
        ∀ s, ∃ s', handleFrame s f' = .ok (s', none) ∧ cells s' = cells s ∧
          SameSettings { s with dropNext := s.dropNext - 1 } s' ∧ (s.dropNext = 0 → s' = s)) := by
  refine ⟨fun hodd => (silent_of_crc16_ne_zero (crc16_ne_zero_of_odd_flips hok hlen hodd)).1,
    fun hshort htwo =>
      (silent_of_crc16_ne_zero (crc16_ne_zero_of_two_flips hok hlen hshort htwo)).1, ?_⟩
  intro hshort hone hthree
  have hcrc : crc16 f' ≠ 0 := by
    by_cases htwo : flips f f' = 2
    · exact crc16_ne_zero_of_two_flips hok hlen hshort htwo
    · refine crc16_ne_zero_of_odd_flips hok hlen (Nat.odd_iff.mpr ?_)
      omega
  obtain ⟨hfails, hsilent⟩ := silent_of_crc16_ne_zero hcrc
  refine ⟨hfails, fun s => ⟨_, hsilent s, rfl, ⟨rfl, rfl, rfl, rfl⟩, fun hzero => ?_⟩⟩
  cases s
  cases hzero
  rfl

/-- A read request with two bits flipped, six bytes apart. -/
theorem scattered_detected_of_two_bits :
    flips [0x01, 0x03, 0x00, 0x00, 0x00, 0x01, 0x84, 0x0A]
        [0x03, 0x03, 0x00, 0x00, 0x00, 0x01, 0x04, 0x0A] = 2 ∧
      crcOk [0x03, 0x03, 0x00, 0x00, 0x00, 0x01, 0x04, 0x0A] = .ok false := by
  have hok : crcOk [0x01, 0x03, 0x00, 0x00, 0x00, 0x01, 0x84, 0x0A] = .ok true := by
    decide +kernel
  have htwo : flips [0x01, 0x03, 0x00, 0x00, 0x00, 0x01, 0x84, 0x0A]
      [0x03, 0x03, 0x00, 0x00, 0x00, 0x01, 0x04, 0x0A] = 2 := by decide +kernel
  have hlen : [0x03, 0x03, 0x00, 0x00, 0x00, 0x01, 0x04, 0x0A].length =
      [0x01, 0x03, 0x00, 0x00, 0x00, 0x01, 0x84, (0x0A : UInt8)].length := rfl
  exact ⟨htwo, (scattered_detected hok hlen).2.1 (by simp) htwo⟩

/-! ## A frame cut in two -/

/-- The two pieces of a frame, handed on as frames of their own, amount to a dropped
poll: no answer to either and no bank changed. -/
def DropsPoll (s : ModbusSlave) (p q : List UInt8) : Prop :=
  ∃ s₁ s₂, handleFrame s p = .ok (s₁, none) ∧ handleFrame s₁ q = .ok (s₂, none) ∧
    cells s₁ = cells s ∧ cells s₂ = cells s

theorem dropsPoll_iff (s : ModbusSlave) (p q : List UInt8) :
    DropsPoll s p q ↔ (s.dropNext = 0 → ¬ PassesFor s.address p) ∧
      (s.dropNext ≤ 1 → ¬ PassesFor s.address q) := by
  have hsecond (h : s.dropNext ≤ 1) : s.dropNext - 1 = 0 := by omega
  constructor
  · rintro ⟨s₁, s₂, h₁, h₂, -⟩
    refine ⟨(handleFrame_none_iff s p).mp ⟨s₁, h₁⟩, fun hone => ?_⟩
    have hq := (handleFrame_none_iff s₁ q).mp ⟨s₂, h₂⟩
    rw [eq_of_handleFrame_none h₁] at hq
    exact hq (hsecond hone)
  · rintro ⟨hp, hq⟩
    obtain ⟨s₁, h₁⟩ := (handleFrame_none_iff s p).mpr hp
    have hs₁ := eq_of_handleFrame_none h₁
    obtain ⟨s₂, h₂⟩ := (handleFrame_none_iff s₁ q).mpr fun hzero => by
      rw [hs₁] at hzero ⊢
      exact hq (Nat.sub_eq_zero_iff_le.mp hzero)
    refine ⟨s₁, s₂, h₁, h₂, by rw [hs₁]; rfl, ?_⟩
    rw [eq_of_handleFrame_none h₂, hs₁]
    rfl

/-- The end of a frame checks on its own exactly when the register stands at the cut
as it does at the start of a frame. -/
theorem crc16_eq_zero_iff_of_append {p q : List UInt8} (h : crc16 (p ++ q) = 0) :
    crc16 q = 0 ↔ crc16 p = 0xFFFF := by
  constructor
  · intro hq
    exact @crc16_inj_of_append p [] q (h.trans hq.symm)
  · intro hp
    have hrun := toBitVec_crc16_append p q
    rw [hp] at hrun
    rw [← h]
    exact UInt16.toBitVec_inj.mp ((toBitVec_crc16 q).trans hrun.symm)

/-- **When a mis-split frame is a dropped poll.**  Exactly when no piece that the
slave does not drop passes for a frame: the first, which carries the address, when it
is long enough and empties the register; the second when it is long enough, happens
to start with the address and the register stands at the cut as at the start. -/
theorem cut_dropsPoll_iff {s : ModbusSlave} {p q : List UInt8} (hok : crcOk (p ++ q) = .ok true)
    (hown : (p ++ q).head? = some s.address) (hp : p ≠ []) :
    DropsPoll s p q ↔
      (s.dropNext = 0 → ¬ (4 ≤ p.length ∧ crc16 p = 0)) ∧
        (s.dropNext ≤ 1 → ¬ (4 ≤ q.length ∧ q.head? = some s.address ∧ crc16 p = 0xFFFF)) := by
  have hhead : p.head? = some s.address := by
    cases p with
    | nil => exact absurd rfl hp
    | cons a p => exact hown
  have hcrc := crc16_eq_zero_iff_of_append ((crcOk_iff _).mp hok).2
  rw [dropsPoll_iff, PassesFor, PassesFor, hcrc]
  simp only [hhead, true_and]

/-- A read request cut after its function code. -/
theorem cut_dropsPoll_of_read :
    DropsPoll (ModbusSlave.new 1 4 0) [0x01, 0x03] [0x00, 0x00, 0x00, 0x01, 0x84, 0x0A] :=
  (cut_dropsPoll_iff (by decide +kernel) rfl (by decide)).mpr
    ⟨by decide, by decide⟩

/-- A write of four registers whose payload holds a write of one. -/
def nestedWrite : List UInt8 := appendCrc [1, 0x10, 0, 0, 0, 4, 8, 93, 67, 1, 6, 0, 2, 0x12, 0x34]

/-- Cut in front of the inner write, the frame is no dropped poll: the second piece is
answered and changes a register. -/
theorem nestedWrite_not_dropsPoll :
    crcOk nestedWrite = .ok true ∧ nestedWrite.head? = some 1 ∧
      (handleFrame (ModbusSlave.new 1 4 0) (nestedWrite.drop 9)).toOption.map
        (fun r => (r.1.holding, r.2.isSome)) = some ([0, 0, 0x1234, 0], true) ∧
      ¬ DropsPoll (ModbusSlave.new 1 4 0) (nestedWrite.take 9) (nestedWrite.drop 9) := by
  have hsecond : (handleFrame (ModbusSlave.new 1 4 0) (nestedWrite.drop 9)).toOption.map
      (fun r => (r.1.holding, r.2.isSome)) = some ([0, 0, 0x1234, 0], true) := by decide +kernel
  refine ⟨by decide +kernel, rfl, hsecond, ?_⟩
  rintro ⟨s₁, s₂, h₁, h₂, -⟩
  rw [eq_of_handleFrame_none h₁] at h₂
  have hnone : handleFrame (ModbusSlave.new 1 4 0) (nestedWrite.drop 9) = .ok (s₂, none) := h₂
  rw [hnone] at hsecond
  have hanswered : some false = some true := congrArg (Option.map Prod.snd) hsecond
  cases hanswered

end Sim
end WardenSdk
