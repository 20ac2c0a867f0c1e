import Mathlib.Data.Nat.Bitwise
import WardenSdk.Sim.Modbus

/-!
# The slave as a register memory

What a Modbus request asks for, apart from how the slave goes about it: a request
reads a stretch of one of four banks, writes a stretch of one, or asks for the
slave's identity.  `decode` reads a request off its function code and its data;
`valueAt` reads one value off the bytes that carry values on the wire, in a
response as in a request.

The main result is `dispatch_answers`: whatever the state of the device and
whatever the bytes, `dispatch` does not panic, and it answers as `Answers` says.
A request that does not decode is refused with its code, one that leaves its bank
is refused with an address error, a read returns the stretch it names, a write
replaces the stretch it names and touches nothing else.
-/

namespace WardenSdk
namespace Sim

open Lib

/-! ## Requests -/

inductive Bank where
  | holding
  | input
  | coils
  | discrete
  deriving DecidableEq

/-- The contents of a bank, bits as `0` and `1`. -/
def cells (s : ModbusSlave) : Bank → List ℕ
  | .holding => s.holding.map UInt16.toNat
  | .input => s.input.map UInt16.toNat
  | .coils => s.coils.map Bool.toNat
  | .discrete => s.discrete.map Bool.toNat

inductive Request where
  | read (bank : Bank) (start count : ℕ)
  | write (bank : Bank) (start : ℕ) (values : List ℕ)
  | reportSlaveId
  deriving DecidableEq

/-- The big-endian word of two bytes. -/
def word (hi lo : UInt8) : ℕ := hi.toNat * 256 + lo.toNat

/-- The `i`th word of the data. -/
def regAt (data : List UInt8) (i : ℕ) : Option ℕ := do
  return word (← data[i * 2]?) (← data[i * 2 + 1]?)

/-- The `i`th bit of the data, least significant bit of a byte first. -/
def bitAt (data : List UInt8) (i : ℕ) : Option ℕ := do
  return ((← data[i / 8]?).toNat.testBit (i % 8)).toNat

/-- The `i`th value that the data carries for a bank. -/
def valueAt : Bank → List UInt8 → ℕ → Option ℕ
  | .holding | .input => regAt
  | .coils | .discrete => bitAt

/-- The number of bytes that carry `count` values. -/
def byteCount : Bank → ℕ → ℕ
  | .holding | .input => fun count => count * 2
  | .coils | .discrete => fun count => (count + 7) / 8

def valuesOf (bank : Bank) (data : List UInt8) (count : ℕ) : List ℕ :=
  (List.range count).map fun i => (valueAt bank data i).getD 0

@[simp] theorem length_valuesOf (bank : Bank) (data : List UInt8) (count : ℕ) :
    (valuesOf bank data count).length = count := by
  simp [valuesOf]

/-- A read of at most `most` values. -/
def decodeRead (bank : Bank) (most : ℕ) : List UInt8 → Except UInt8 Request
  | [s₁, s₀, c₁, c₀] =>
    if word c₁ c₀ = 0 ∨ word c₁ c₀ > most then .error illegalDataValue
    else .ok (.read bank (word s₁ s₀) (word c₁ c₀))
  | _ => .error illegalDataValue

def decodeWriteReg : List UInt8 → Except UInt8 Request
  | [a₁, a₀, v₁, v₀] => .ok (.write .holding (word a₁ a₀) [word v₁ v₀])
  | _ => .error illegalDataValue

def decodeWriteCoil : List UInt8 → Except UInt8 Request
  | [a₁, a₀, v₁, v₀] =>
    if word v₁ v₀ = 0xFF00 then .ok (.write .coils (word a₁ a₀) [1])
    else if word v₁ v₀ = 0 then .ok (.write .coils (word a₁ a₀) [0])
    else .error illegalDataValue
  | _ => .error illegalDataValue

/-- A write of at most `most` values, with its own byte count in front of them. -/
def decodeWrites (bank : Bank) (most : ℕ) : List UInt8 → Except UInt8 Request
  | s₁ :: s₀ :: c₁ :: c₀ :: n :: data =>
    if word c₁ c₀ = 0 ∨ word c₁ c₀ > most ∨ n.toNat ≠ byteCount bank (word c₁ c₀) ∨
        data.length ≠ n.toNat then .error illegalDataValue
    else .ok (.write bank (word s₁ s₀) (valuesOf bank data (word c₁ c₀)))
  | _ => .error illegalDataValue

def decode (fc : UInt8) (pdu : List UInt8) : Except UInt8 Request :=
  if fc = 0x01 then decodeRead .coils 2000 pdu
  else if fc = 0x02 then decodeRead .discrete 2000 pdu
  else if fc = 0x03 then decodeRead .holding 125 pdu
  else if fc = 0x04 then decodeRead .input 125 pdu
  else if fc = 0x05 then decodeWriteCoil pdu
  else if fc = 0x06 then decodeWriteReg pdu
  else if fc = 0x0F then decodeWrites .coils 1968 pdu
  else if fc = 0x10 then decodeWrites .holding 123 pdu
  else if fc = 0x11 then .ok .reportSlaveId
  else .error illegalFunction

/-- The function codes that decode. -/
theorem code_of_decode {fc : UInt8} {pdu : List UInt8} {r : Request} (h : decode fc pdu = .ok r) :
    fc ∈ ([0x01, 0x02, 0x03, 0x04, 0x05, 0x06, 0x0F, 0x10, 0x11] : List UInt8) := by
  by_contra hcode
  simp only [List.mem_cons, List.not_mem_nil, or_false, not_or] at hcode
  obtain ⟨h₁, h₂, h₃, h₄, h₅, h₆, h₇, h₈, h₉⟩ := hcode
  rw [decode, if_neg h₁, if_neg h₂, if_neg h₃, if_neg h₄, if_neg h₅, if_neg h₆, if_neg h₇,
    if_neg h₈, if_neg h₉] at h
  cases h

/-- Only function codes without the exception bit decode. -/
theorem testBit_seven_of_decode {fc : UInt8} {pdu : List UInt8} {r : Request}
    (h : decode fc pdu = .ok r) : fc.toNat.testBit 7 = false := by
  have hall : ([0x01, 0x02, 0x03, 0x04, 0x05, 0x06, 0x0F, 0x10, 0x11] : List UInt8).all
      (fun fc => !fc.toNat.testBit 7) = true := rfl
  exact (Bool.not_eq_true' _).mp (List.all_eq_true.mp hall fc (code_of_decode h))

theorem testBit_seven_or (fc : UInt8) : (fc ||| 0x80).toNat.testBit 7 = true := by
  rw [UInt8.toNat_or, Nat.testBit_or]
  exact Bool.or_true _

/-! ## Answers -/

/-- Everything but the banks is as it was. -/
structure SameSettings (s s' : ModbusSlave) : Prop where
  address : s'.address = s.address
  slaveId : s'.slaveId = s.slaveId
  dropNext : s'.dropNext = s.dropNext
  forceException : s'.forceException = s.forceException

/-- What the slave may do with a request. -/
inductive Answers (s : ModbusSlave) (decoded : Except UInt8 Request) :
    ModbusSlave → Response → Prop
  | refused {code : UInt8} (h : decoded = .error code) : Answers s decoded s (.error code)
  | readOutside {bank : Bank} {start count : ℕ} (h : decoded = .ok (.read bank start count))
      (outside : (cells s bank).length < start + count) :
      Answers s decoded s (.error illegalDataAddress)
  | writeOutside {bank : Bank} {start : ℕ} {values : List ℕ}
      (h : decoded = .ok (.write bank start values))
      (outside : (cells s bank).length < start + values.length) :
      Answers s decoded s (.error illegalDataAddress)
  | read {bank : Bank} {start count : ℕ} {n : UInt8} {data : List UInt8}
      (h : decoded = .ok (.read bank start count))
      (inside : start + count ≤ (cells s bank).length)
      (bytes : n.toNat = byteCount bank count)
      (values : ∀ i < count, valueAt bank data i = (cells s bank)[start + i]?) :
      Answers s decoded s (.ok (n :: data))
  | write {bank : Bank} {start : ℕ} {values : List ℕ} {s' : ModbusSlave} {echo : List UInt8}
      (h : decoded = .ok (.write bank start values))
      (inside : start + values.length ≤ (cells s bank).length)
      (banks : cells s' = Function.update (cells s) bank (overwrite (cells s bank) start values))
      (settings : SameSettings s s') :
      Answers s decoded s' (.ok echo)
  | report (h : decoded = .ok .reportSlaveId) : Answers s decoded s (.ok (reportSlaveId s))

/-! ## Words and bits -/

theorem toNat_fromBeBytes (hi lo : UInt8) : (fromBeBytes hi lo).toNat = word hi lo := by
  have hhi := hi.toNat_lt
  have hlo := lo.toNat_lt
  have hshift : (hi.toUInt16 <<< 8).toNat = hi.toNat <<< 8 := by
    rw [UInt16.toNat_shiftLeft, UInt8.toNat_toUInt16, Nat.mod_eq_of_lt]
    · rfl
    · show hi.toNat <<< 8 < 2 ^ 16
      rw [Nat.shiftLeft_eq]
      omega
  rw [fromBeBytes, UInt16.toNat_or, hshift, UInt8.toNat_toUInt16,
    ← Nat.shiftLeft_add_eq_or_of_lt (by omega), Nat.shiftLeft_eq, word]

theorem word_toBeBytes (v : UInt16) : word (v >>> 8).toUInt8 v.toUInt8 = v.toNat := by
  have hv := v.toNat_lt
  have hshift : (v >>> 8).toNat = v.toNat / 256 := by
    rw [UInt16.toNat_shiftRight]
    exact Nat.shiftRight_eq_div_pow _ _
  rw [word, UInt16.toNat_toUInt8, UInt16.toNat_toUInt8, hshift]
  omega

theorem toNat_bitMask {n : ℕ} (h : n < 8) : (bitMask n).toNat = 2 ^ n := by
  rw [bitMask, UInt8.toNat_ofNat']
  exact Nat.mod_eq_of_lt (Nat.pow_lt_pow_right (by omega) h)

theorem and_bitMask_bne_zero (b : UInt8) {n : ℕ} (h : n < 8) :
    (b &&& bitMask n != 0) = b.toNat.testBit n := by
  have hzero : b &&& bitMask n = 0 ↔ b.toNat.testBit n = false := by
    rw [← UInt8.toNat_inj, UInt8.toNat_and, toNat_bitMask h]
    constructor
    · intro h0
      have := congrArg (fun x => Nat.testBit x n) h0
      simpa using this
    · intro hbit
      apply Nat.eq_of_testBit_eq
      intro i
      rw [Nat.testBit_and, Nat.testBit_two_pow]
      by_cases hi : n = i
      · subst hi
        simp [hbit]
      · simp [hi]
  cases hb : b.toNat.testBit n with
  | false => rw [hzero.mpr hb]; rfl
  | true =>
    rw [bne_iff_ne]
    intro h0
    rw [hzero.mp h0] at hb
    cases hb

theorem wordAt_of_getElem? {pdu : List UInt8} {i : ℕ} {hi lo : UInt8} (h₁ : pdu[i]? = some hi)
    (h₀ : pdu[i + 1]? = some lo) : wordAt pdu i = .ok (fromBeBytes hi lo) := by
  rw [wordAt, index_of_getElem? h₁, index_of_getElem? h₀]
  rfl

/-- Registers laid out as big-endian words are read back word by word. -/
theorem regAt_flatMap_toBeBytes (regs : List UInt16) (i : ℕ) :
    regAt (regs.flatMap toBeBytes) i = (regs.map UInt16.toNat)[i]? := by
  induction regs generalizing i with
  | nil => rfl
  | cons v regs ih =>
    cases i with
    | zero => exact congrArg some (word_toBeBytes v)
    | succ i =>
      have hcons : regAt ((v :: regs).flatMap toBeBytes) (i + 1) =
          regAt (regs.flatMap toBeBytes) i := by
        rw [regAt, regAt, show (i + 1) * 2 = i * 2 + 1 + 1 by omega]
        rfl
      rw [hcons, ih]
      rfl

/-- The bits a list of bytes carries. -/
def Carries (data : List UInt8) (bits : List Bool) : Prop :=
  ∀ i, i / 8 < data.length → bitAt data i = some (bits.getD i false).toNat

theorem bitAt_of_getElem? {data : List UInt8} {i : ℕ} {b : UInt8} (h : data[i / 8]? = some b) :
    bitAt data i = some (b.toNat.testBit (i % 8)).toNat := by
  rw [bitAt, h]
  rfl

theorem getD_concat_of_ne {bits : List Bool} {i : ℕ} (b : Bool) (h : i ≠ bits.length) :
    (bits ++ [b]).getD i false = bits.getD i false := by
  rcases Nat.lt_or_gt_of_ne h with hlt | hgt
  · rw [List.getD_append _ _ _ _ hlt]
  · rw [List.getD_eq_default _ _ (by simp; omega), List.getD_eq_default _ _ (by omega)]

/-- Setting the next bit of a byte row. -/
theorem Carries.set {data : List UInt8} {bits : List Bool} {b : UInt8} (h : Carries data bits)
    (hb : data[bits.length / 8]? = some b) :
    Carries (data.set (bits.length / 8) (b ||| bitMask (bits.length % 8))) (bits ++ [true]) := by
  intro i hi
  rw [List.length_set] at hi
  have hold := h i hi
  have hmod : bits.length % 8 < 8 := Nat.mod_lt _ (by omega)
  by_cases hbyte : bits.length / 8 = i / 8
  · -- the byte that is touched: only the bit of this index changes
    rw [bitAt_of_getElem? (hbyte ▸ hb)] at hold
    have hnew : (data.set (bits.length / 8) (b ||| bitMask (bits.length % 8)))[i / 8]? =
        some (b ||| bitMask (bits.length % 8)) := by
      rw [List.getElem?_set, if_pos hbyte, if_pos (hbyte ▸ hi)]
    rw [bitAt_of_getElem? hnew, UInt8.toNat_or, toNat_bitMask hmod, Nat.testBit_or,
      Nat.testBit_two_pow]
    by_cases hbit : bits.length % 8 = i % 8
    · have hi' : i = bits.length := by omega
      subst hi'
      simp
    · have hne : i ≠ bits.length := by
        rintro rfl
        exact hbit rfl
      rw [getD_concat_of_ne true hne, ← hold, decide_eq_false hbit, Bool.or_false]
  · have hsame : (data.set (bits.length / 8) (b ||| bitMask (bits.length % 8)))[i / 8]? =
        data[i / 8]? := by
      rw [List.getElem?_set, if_neg hbyte]
    have hne : i ≠ bits.length := by
      rintro rfl
      exact hbyte rfl
    rw [bitAt, hsame, getD_concat_of_ne true hne, ← hold, bitAt]

/-- A byte row that carries some bits carries them with a zero appended. -/
theorem Carries.concat_false {data : List UInt8} {bits : List Bool} (h : Carries data bits) :
    Carries data (bits ++ [false]) := by
  intro i hi
  by_cases hne : i = bits.length
  · subst hne
    rw [h _ hi]
    simp
  · rw [getD_concat_of_ne false hne, h i hi]

theorem carries_replicate (n : ℕ) : Carries (List.replicate n 0) [] := by
  intro i hi
  rw [bitAt_of_getElem? (b := 0) (by rw [List.getElem?_replicate, if_pos (by simpa using hi)])]
  simp

/-- **The packing loop.**  With room for the bits it succeeds, leaves the byte in
front alone and carries the bits. -/
theorem packBits_carries (n : UInt8) (nbytes : ℕ) (bits : List Bool)
    (h : bits.length ≤ nbytes * 8) :
    ∃ data, packBits (n :: List.replicate nbytes 0) bits = .ok (n :: data) ∧
      data.length = nbytes ∧ Carries data bits := by
  induction bits using List.reverseRecOn with
  | nil => exact ⟨_, rfl, List.length_replicate, carries_replicate nbytes⟩
  | append_singleton bits bit ih =>
    rw [List.length_append, List.length_singleton] at h
    obtain ⟨data, hpack, hlen, hcarries⟩ := ih (by omega)
    have hstep : packBits (n :: List.replicate nbytes 0) (bits ++ [bit]) =
        if bit then
          (do setAt (n :: data) (1 + bits.length / 8)
                ((← index (n :: data) (1 + bits.length / 8)) ||| bitMask (bits.length % 8)))
        else .ok (n :: data) := by
      rw [packBits] at hpack
      rw [packBits, List.zipIdx_append, List.zipIdx_cons, List.zipIdx_nil, foldlM_concat, hpack,
        Nat.zero_add]
      rfl
    rw [hstep]
    cases bit with
    | false => exact ⟨data, rfl, hlen, hcarries.concat_false⟩
    | true =>
      have hlt : bits.length / 8 < data.length := by omega
      have hget : data[bits.length / 8]? = some data[bits.length / 8] :=
        List.getElem?_eq_getElem hlt
      refine ⟨_, ?_, ?_, hcarries.set hget⟩
      · rw [if_pos rfl, Nat.add_comm 1, index_cons_succ, index_of_getElem? hget]
        exact setAt_of_lt (by simpa using hlt) _
      · rw [List.length_set, hlen]

/-! ## The handlers -/

theorem exists_of_length_four {l : List UInt8} (h : l.length = 4) :
    ∃ a b c d, l = [a, b, c, d] := by
  match l, h with
  | [a, b, c, d], _ => exact ⟨a, b, c, d, rfl⟩

theorem exists_of_five_le_length {l : List UInt8} (h : 5 ≤ l.length) :
    ∃ a b c d e rest, l = a :: b :: c :: d :: e :: rest := by
  match l, h with
  | a :: b :: c :: d :: e :: rest, _ => exact ⟨a, b, c, d, e, rest, rfl⟩

@[simp] theorem wordAt_zero (a b : UInt8) (l : List UInt8) :
    wordAt (a :: b :: l) 0 = .ok (fromBeBytes a b) := rfl

@[simp] theorem wordAt_two (a b c d : UInt8) (l : List UInt8) :
    wordAt (a :: b :: c :: d :: l) 2 = .ok (fromBeBytes c d) := rfl

theorem decodeRead_of_length_ne {bank : Bank} {most : ℕ} {pdu : List UInt8}
    (h : pdu.length ≠ 4) : decodeRead bank most pdu = .error illegalDataValue := by
  unfold decodeRead
  split
  · exact absurd rfl h
  · rfl

/-- The two register banks, as `read_regs` picks them. -/
def regBank (input : Bool) : Bank := if input then .input else .holding

/-- The two bit banks, as `read_bits` picks them. -/
def bitBank (discrete : Bool) : Bank := if discrete then .discrete else .coils

theorem cells_regBank (s : ModbusSlave) (input : Bool) :
    cells s (regBank input) = (if input then s.input else s.holding).map UInt16.toNat := by
  cases input <;> rfl

theorem cells_bitBank (s : ModbusSlave) (discrete : Bool) :
    cells s (bitBank discrete) = (if discrete then s.discrete else s.coils).map Bool.toNat := by
  cases discrete <;> rfl

theorem valueAt_regBank (input : Bool) : valueAt (regBank input) = regAt := by
  cases input <;> rfl

theorem valueAt_bitBank (discrete : Bool) : valueAt (bitBank discrete) = bitAt := by
  cases discrete <;> rfl

/-- `read_regs` on data of the right length. -/
theorem readRegs_four (s : ModbusSlave) (s₁ s₀ c₁ c₀ : UInt8) (input : Bool) :
    readRegs s [s₁, s₀, c₁, c₀] input =
      if word c₁ c₀ = 0 ∨ word c₁ c₀ > 125 then .ok (.error illegalDataValue)
      else if word s₁ s₀ + word c₁ c₀ > (if input then s.input else s.holding).length then
        .ok (.error illegalDataAddress)
      else .ok (.ok (UInt8.ofNat (word c₁ c₀ * 2) ::
        (((if input then s.input else s.holding).drop (word s₁ s₀)).take
          (word c₁ c₀)).flatMap toBeBytes)) := by
  have hlen : ¬ [s₁, s₀, c₁, c₀].length ≠ 4 := not_not.mpr rfl
  simp only [readRegs, if_neg hlen, wordAt_zero, wordAt_two, ok_bind, pure_eq_ok,
    toNat_fromBeBytes]
  generalize (if input then s.input else s.holding) = bank
  split_ifs with hcount houtside
  · rfl
  · rfl
  · rw [slice_of_le (Nat.le_add_right _ _) (not_lt.mp houtside), Nat.add_sub_cancel_left]
    rfl

theorem readRegs_answers (s : ModbusSlave) (pdu : List UInt8) (input : Bool) :
    ∃ r, readRegs s pdu input = .ok r ∧ Answers s (decodeRead (regBank input) 125 pdu) s r := by
  by_cases hlen : pdu.length ≠ 4
  · exact ⟨_, by rw [readRegs, if_pos hlen]; rfl, .refused (decodeRead_of_length_ne hlen)⟩
  obtain ⟨s₁, s₀, c₁, c₀, rfl⟩ := exists_of_length_four (not_not.mp hlen)
  have hregs := readRegs_four s s₁ s₀ c₁ c₀ input
  by_cases hcount : word c₁ c₀ = 0 ∨ word c₁ c₀ > 125
  · exact ⟨_, hregs.trans (if_pos hcount), .refused (if_pos hcount)⟩
  rw [if_neg hcount] at hregs
  have hdecode : decodeRead (regBank input) 125 [s₁, s₀, c₁, c₀] =
      .ok (.read (regBank input) (word s₁ s₀) (word c₁ c₀)) := if_neg hcount
  have hcells := cells_regBank s input
  have hbank : (cells s (regBank input)).length = (if input then s.input else s.holding).length := by
    rw [hcells, List.length_map]
  by_cases houtside : word s₁ s₀ + word c₁ c₀ > (if input then s.input else s.holding).length
  · exact ⟨_, hregs.trans (if_pos houtside), .readOutside hdecode (by omega)⟩
  refine ⟨_, hregs.trans (if_neg houtside), .read hdecode (by omega) ?_ ?_⟩
  · have hbytes : byteCount (regBank input) = fun count => count * 2 := by cases input <;> rfl
    rw [hbytes, UInt8.toNat_ofNat']
    exact Nat.mod_eq_of_lt (by omega)
  · intro i hi
    rw [valueAt_regBank, regAt_flatMap_toBeBytes, hcells, List.map_take, List.map_drop,
      List.getElem?_take_of_lt hi, List.getElem?_drop]

/-- `read_bits` on data of the right length. -/
theorem readBits_four (s : ModbusSlave) (s₁ s₀ c₁ c₀ : UInt8) (discrete : Bool) :
    ∃ data, data.length = (word c₁ c₀ + 7) / 8 ∧
      Carries data (((if discrete then s.discrete else s.coils).drop (word s₁ s₀)).take
        (word c₁ c₀)) ∧
      readBits s [s₁, s₀, c₁, c₀] discrete =
        if word c₁ c₀ = 0 ∨ word c₁ c₀ > 2000 then .ok (.error illegalDataValue)
        else if word s₁ s₀ + word c₁ c₀ > (if discrete then s.discrete else s.coils).length then
          .ok (.error illegalDataAddress)
        else .ok (.ok (UInt8.ofNat ((word c₁ c₀ + 7) / 8) :: data)) := by
  have hlen : ¬ [s₁, s₀, c₁, c₀].length ≠ 4 := not_not.mpr rfl
  simp only [readBits, if_neg hlen, wordAt_zero, wordAt_two, ok_bind, pure_eq_ok,
    toNat_fromBeBytes]
  generalize (if discrete then s.discrete else s.coils) = bank
  have hroom : ((bank.drop (word s₁ s₀)).take (word c₁ c₀)).length ≤ (word c₁ c₀ + 7) / 8 * 8 := by
    rw [List.length_take]
    omega
  obtain ⟨data, hpack, hdata, hcarries⟩ := packBits_carries
    (UInt8.ofNat ((word c₁ c₀ + 7) / 8)) ((word c₁ c₀ + 7) / 8) _ hroom
  refine ⟨data, hdata, hcarries, ?_⟩
  split_ifs with hcount houtside
  · rfl
  · rfl
  · rw [slice_of_le (Nat.le_add_right _ _) (not_lt.mp houtside), Nat.add_sub_cancel_left, ok_bind,
      hpack]
    rfl

theorem readBits_answers (s : ModbusSlave) (pdu : List UInt8) (discrete : Bool) :
    ∃ r, readBits s pdu discrete = .ok r ∧
      Answers s (decodeRead (bitBank discrete) 2000 pdu) s r := by
  by_cases hlen : pdu.length ≠ 4
  · exact ⟨_, by rw [readBits, if_pos hlen]; rfl, .refused (decodeRead_of_length_ne hlen)⟩
  obtain ⟨s₁, s₀, c₁, c₀, rfl⟩ := exists_of_length_four (not_not.mp hlen)
  obtain ⟨data, hdata, hcarries, hbits⟩ := readBits_four s s₁ s₀ c₁ c₀ discrete
  by_cases hcount : word c₁ c₀ = 0 ∨ word c₁ c₀ > 2000
  · exact ⟨_, hbits.trans (if_pos hcount), .refused (if_pos hcount)⟩
  rw [if_neg hcount] at hbits
  have hdecode : decodeRead (bitBank discrete) 2000 [s₁, s₀, c₁, c₀] =
      .ok (.read (bitBank discrete) (word s₁ s₀) (word c₁ c₀)) := if_neg hcount
  have hcells := cells_bitBank s discrete
  have hbank : (cells s (bitBank discrete)).length =
      (if discrete then s.discrete else s.coils).length := by
    rw [hcells, List.length_map]
  by_cases houtside : word s₁ s₀ + word c₁ c₀ > (if discrete then s.discrete else s.coils).length
  · exact ⟨_, hbits.trans (if_pos houtside), .readOutside hdecode (by omega)⟩
  refine ⟨_, hbits.trans (if_neg houtside), .read hdecode (by omega) ?_ ?_⟩
  · have hbytes : byteCount (bitBank discrete) = fun count => (count + 7) / 8 := by
      cases discrete <;> rfl
    rw [hbytes, UInt8.toNat_ofNat']
    exact Nat.mod_eq_of_lt (by omega)
  · intro i hi
    rw [valueAt_bitBank, hcarries i (by omega), hcells, List.getElem?_map, List.getD_eq_getElem?_getD,
      List.getElem?_take_of_lt hi, List.getElem?_drop,
      List.getElem?_eq_getElem (show word s₁ s₀ + i < _ by omega)]
    rfl

theorem cells_setHolding (s : ModbusSlave) (bank : List UInt16) :
    cells { s with holding := bank } =
      Function.update (cells s) .holding (bank.map UInt16.toNat) := by
  funext b
  cases b <;> rfl

theorem cells_setInput (s : ModbusSlave) (bank : List UInt16) :
    cells { s with input := bank } = Function.update (cells s) .input (bank.map UInt16.toNat) := by
  funext b
  cases b <;> rfl

theorem cells_setCoils (s : ModbusSlave) (bank : List Bool) :
    cells { s with coils := bank } = Function.update (cells s) .coils (bank.map Bool.toNat) := by
  funext b
  cases b <;> rfl

theorem cells_setDiscrete (s : ModbusSlave) (bank : List Bool) :
    cells { s with discrete := bank } =
      Function.update (cells s) .discrete (bank.map Bool.toNat) := by
  funext b
  cases b <;> rfl

theorem writeSingleReg_answers (s : ModbusSlave) (pdu : List UInt8) :
    ∃ s' r, writeSingleReg s pdu = .ok (s', r) ∧ Answers s (decodeWriteReg pdu) s' r := by
  by_cases hlen : pdu.length ≠ 4
  · refine ⟨s, _, by rw [writeSingleReg, if_pos hlen]; rfl, .refused ?_⟩
    unfold decodeWriteReg
    split
    · exact absurd rfl hlen
    · rfl
  obtain ⟨a₁, a₀, v₁, v₀, rfl⟩ := exists_of_length_four (not_not.mp hlen)
  simp only [writeSingleReg, if_neg hlen, wordAt_zero, wordAt_two, decodeWriteReg, ok_bind,
    pure_eq_ok, toNat_fromBeBytes]
  have hbank : (cells s .holding).length = s.holding.length := List.length_map _
  by_cases houtside : word a₁ a₀ ≥ s.holding.length
  · simp only [if_pos houtside]
    exact ⟨_, _, rfl, .writeOutside rfl (by rw [List.length_singleton]; omega)⟩
  simp only [if_neg houtside, setAt_of_lt (not_le.mp houtside), ok_bind]
  refine ⟨_, _, rfl, .write rfl (by rw [List.length_singleton]; omega) ?_ ⟨rfl, rfl, rfl, rfl⟩⟩
  rw [cells_setHolding, set_eq_overwrite (not_le.mp houtside), map_overwrite, List.map_singleton,
    toNat_fromBeBytes]
  rfl

theorem writeSingleCoil_answers (s : ModbusSlave) (pdu : List UInt8) :
    ∃ s' r, writeSingleCoil s pdu = .ok (s', r) ∧ Answers s (decodeWriteCoil pdu) s' r := by
  by_cases hlen : pdu.length ≠ 4
  · refine ⟨s, _, by rw [writeSingleCoil, if_pos hlen]; rfl, .refused ?_⟩
    unfold decodeWriteCoil
    split
    · exact absurd rfl hlen
    · rfl
  obtain ⟨a₁, a₀, v₁, v₀, rfl⟩ := exists_of_length_four (not_not.mp hlen)
  have hval (w : UInt16) : fromBeBytes v₁ v₀ = w ↔ word v₁ v₀ = w.toNat := by
    rw [← UInt16.toNat_inj, toNat_fromBeBytes]
  simp only [writeSingleCoil, if_neg hlen, wordAt_zero, wordAt_two, decodeWriteCoil, ok_bind,
    pure_eq_ok, toNat_fromBeBytes]
  have hbank : (cells s .coils).length = s.coils.length := List.length_map _
  by_cases hbad : fromBeBytes v₁ v₀ ≠ 0x0000 ∧ fromBeBytes v₁ v₀ ≠ 0xFF00
  · simp only [if_pos hbad]
    have hoff : word v₁ v₀ ≠ 0 := fun h => hbad.1 ((hval 0).mpr h)
    have hon : word v₁ v₀ ≠ 0xFF00 := fun h => hbad.2 ((hval 0xFF00).mpr h)
    rw [if_neg hon, if_neg hoff]
    exact ⟨_, _, rfl, .refused rfl⟩
  simp only [if_neg hbad]
  -- both accepted words decode to a write of the bit that the code computes
  have hdecode : (if word v₁ v₀ = 0xFF00 then Except.ok (Request.write .coils (word a₁ a₀) [1])
      else if word v₁ v₀ = 0 then .ok (.write .coils (word a₁ a₀) [0])
      else .error illegalDataValue) =
      .ok (.write .coils (word a₁ a₀) [(fromBeBytes v₁ v₀ == 0xFF00).toNat]) := by
    by_cases hon : word v₁ v₀ = 0xFF00
    · rw [if_pos hon, beq_iff_eq.mpr ((hval 0xFF00).mpr hon)]
      rfl
    · have hon' : fromBeBytes v₁ v₀ ≠ 0xFF00 := fun h => hon ((hval 0xFF00).mp h)
      have hoff : word v₁ v₀ = 0 := by
        by_contra hoff
        exact hbad ⟨fun h => hoff ((hval 0).mp h), hon'⟩
      rw [if_neg hon, if_pos hoff, beq_eq_false_iff_ne.mpr hon']
      rfl
  rw [hdecode]
  by_cases houtside : word a₁ a₀ ≥ s.coils.length
  · simp only [if_pos houtside]
    exact ⟨_, _, rfl, .writeOutside rfl (by rw [List.length_singleton]; omega)⟩
  simp only [if_neg houtside, setAt_of_lt (not_le.mp houtside), ok_bind]
  refine ⟨_, _, rfl, .write rfl (by rw [List.length_singleton]; omega) ?_ ⟨rfl, rfl, rfl, rfl⟩⟩
  rw [cells_setCoils, set_eq_overwrite (not_le.mp houtside), map_overwrite, List.map_singleton]
  rfl

theorem decodeWrites_of_length_lt {bank : Bank} {most : ℕ} {pdu : List UInt8}
    (h : pdu.length < 5) : decodeWrites bank most pdu = .error illegalDataValue := by
  unfold decodeWrites
  split
  · simp only [List.length_cons] at h
    omega
  · rfl

theorem regAt_of_lt {data : List UInt8} {i : ℕ} (h : i * 2 + 1 < data.length) :
    regAt data i = some (word (data.getD (i * 2) 0) (data.getD (i * 2 + 1) 0)) := by
  rw [regAt, List.getElem?_eq_getElem (by omega), List.getElem?_eq_getElem h,
    List.getD_eq_getElem _ _ (by omega), List.getD_eq_getElem _ _ h]
  rfl

theorem bitAt_of_lt {data : List UInt8} {i : ℕ} (h : i / 8 < data.length) :
    bitAt data i = some ((data.getD (i / 8) 0).toNat.testBit (i % 8)).toNat := by
  rw [bitAt_of_getElem? (List.getElem?_eq_getElem h), List.getD_eq_getElem _ _ h]

/-- The writing loop of `write_multi_regs`. -/
theorem multiRegs_loop (s₁ s₀ c₁ c₀ n : UInt8) {data : List UInt8} {bank : List UInt16}
    {start count : ℕ} (hdata : data.length = count * 2) (h : start + count ≤ bank.length) :
    ∃ bank', (List.range count).foldlM (fun bank i => do
          setAt bank (start + i) (← wordAt (s₁ :: s₀ :: c₁ :: c₀ :: n :: data) (5 + i * 2)))
        bank = .ok bank' ∧
      bank'.map UInt16.toNat =
        overwrite (bank.map UInt16.toNat) start (valuesOf .holding data count) := by
  refine ⟨_, foldlM_setAt (f := fun i => fromBeBytes (data.getD (i * 2) 0)
    (data.getD (i * 2 + 1) 0)) ?_ h, ?_⟩
  · intro bank i hi
    have hword : wordAt (s₁ :: s₀ :: c₁ :: c₀ :: n :: data) (5 + i * 2) =
        .ok (fromBeBytes (data.getD (i * 2) 0) (data.getD (i * 2 + 1) 0)) := by
      apply wordAt_of_getElem?
      · rw [Nat.add_comm 5, List.getD_eq_getElem _ _ (by omega)]
        exact List.getElem?_eq_getElem (l := data) (by omega)
      · rw [show 5 + i * 2 + 1 = i * 2 + 1 + 5 by omega, List.getD_eq_getElem _ _ (by omega)]
        exact List.getElem?_eq_getElem (l := data) (by omega)
    rw [hword]
    rfl
  · refine map_overwrite_range bank start fun i hi => ?_
    show (fromBeBytes _ _).toNat = (regAt data i).getD 0
    rw [toNat_fromBeBytes, regAt_of_lt (by omega)]
    rfl

/-- The writing loop of `write_multi_coils`. -/
theorem multiCoils_loop (s₁ s₀ c₁ c₀ n : UInt8) {data : List UInt8} {bank : List Bool}
    {start count : ℕ} (hdata : data.length = (count + 7) / 8) (h : start + count ≤ bank.length) :
    ∃ bank', (List.range count).foldlM (fun bank i => do
          setAt bank (start + i) ((← index (s₁ :: s₀ :: c₁ :: c₀ :: n :: data) (5 + i / 8)) &&&
            bitMask (i % 8) != 0))
        bank = .ok bank' ∧
      bank'.map Bool.toNat =
        overwrite (bank.map Bool.toNat) start (valuesOf .coils data count) := by
  refine ⟨_, foldlM_setAt (f := fun i => (data.getD (i / 8) 0).toNat.testBit (i % 8)) ?_ h, ?_⟩
  · intro bank i hi
    have hbyte : index (s₁ :: s₀ :: c₁ :: c₀ :: n :: data) (5 + i / 8) =
        .ok (data.getD (i / 8) 0) := by
      apply index_of_getElem?
      rw [Nat.add_comm 5, List.getD_eq_getElem _ _ (by omega)]
      exact List.getElem?_eq_getElem (l := data) (by omega)
    rw [hbyte, ← and_bitMask_bne_zero _ (Nat.mod_lt i (by omega))]
    rfl
  · refine map_overwrite_range bank start fun i hi => ?_
    show Bool.toNat _ = (bitAt data i).getD 0
    rw [bitAt_of_lt (by omega)]
    rfl

theorem writeMultiRegs_answers (s : ModbusSlave) (pdu : List UInt8) :
    ∃ s' r, writeMultiRegs s pdu = .ok (s', r) ∧
      Answers s (decodeWrites .holding 123 pdu) s' r := by
  by_cases hlen : pdu.length < 5
  · exact ⟨s, _, by rw [writeMultiRegs, if_pos hlen]; rfl,
      .refused (decodeWrites_of_length_lt hlen)⟩
  obtain ⟨s₁, s₀, c₁, c₀, n, data, rfl⟩ := exists_of_five_le_length (not_lt.mp hlen)
  have hpdu : (s₁ :: s₀ :: c₁ :: c₀ :: n :: data).length = 5 + data.length := by
    simp only [List.length_cons]
    omega
  rw [hpdu] at hlen
  simp only [writeMultiRegs, hpdu, if_neg hlen, wordAt_zero, wordAt_two, index_cons_succ,
    index_cons_zero, ok_bind, pure_eq_ok, toNat_fromBeBytes]
  have hbank : (cells s .holding).length = s.holding.length := List.length_map _
  by_cases hval : word c₁ c₀ = 0 ∨ word c₁ c₀ > 123 ∨ n.toNat ≠ word c₁ c₀ * 2 ∨
      data.length ≠ n.toNat
  · rw [if_pos (by omega)]
    exact ⟨_, _, rfl, .refused (if_pos hval)⟩
  have hdecode : decodeWrites .holding 123 (s₁ :: s₀ :: c₁ :: c₀ :: n :: data) =
      .ok (.write .holding (word s₁ s₀) (valuesOf .holding data (word c₁ c₀))) := if_neg hval
  rw [hdecode, if_neg (by omega)]
  by_cases houtside : word s₁ s₀ + word c₁ c₀ > s.holding.length
  · simp only [if_pos houtside]
    exact ⟨_, _, rfl, .writeOutside rfl (by rw [length_valuesOf]; omega)⟩
  obtain ⟨bank, hloop, hcells⟩ := multiRegs_loop s₁ s₀ c₁ c₀ n
    (show data.length = word c₁ c₀ * 2 by omega) (not_lt.mp houtside)
  have hecho : 4 ≤ (s₁ :: s₀ :: c₁ :: c₀ :: n :: data).length := by omega
  simp only [if_neg houtside, hloop, ok_bind, slice_of_le (Nat.zero_le 4) hecho]
  refine ⟨_, _, rfl, .write rfl (by rw [length_valuesOf]; omega) ?_ ⟨rfl, rfl, rfl, rfl⟩⟩
  rw [cells_setHolding, hcells]
  rfl

theorem writeMultiCoils_answers (s : ModbusSlave) (pdu : List UInt8) :
    ∃ s' r, writeMultiCoils s pdu = .ok (s', r) ∧
      Answers s (decodeWrites .coils 1968 pdu) s' r := by
  by_cases hlen : pdu.length < 5
  · exact ⟨s, _, by rw [writeMultiCoils, if_pos hlen]; rfl,
      .refused (decodeWrites_of_length_lt hlen)⟩
  obtain ⟨s₁, s₀, c₁, c₀, n, data, rfl⟩ := exists_of_five_le_length (not_lt.mp hlen)
  have hpdu : (s₁ :: s₀ :: c₁ :: c₀ :: n :: data).length = 5 + data.length := by
    simp only [List.length_cons]
    omega
  rw [hpdu] at hlen
  simp only [writeMultiCoils, hpdu, if_neg hlen, wordAt_zero, wordAt_two, index_cons_succ,
    index_cons_zero, ok_bind, pure_eq_ok, toNat_fromBeBytes]
  have hbank : (cells s .coils).length = s.coils.length := List.length_map _
  by_cases hval : word c₁ c₀ = 0 ∨ word c₁ c₀ > 1968 ∨ n.toNat ≠ (word c₁ c₀ + 7) / 8 ∨
      data.length ≠ n.toNat
  · rw [if_pos (by omega)]
    exact ⟨_, _, rfl, .refused (if_pos hval)⟩
  have hdecode : decodeWrites .coils 1968 (s₁ :: s₀ :: c₁ :: c₀ :: n :: data) =
      .ok (.write .coils (word s₁ s₀) (valuesOf .coils data (word c₁ c₀))) := if_neg hval
  rw [hdecode, if_neg (by omega)]
  by_cases houtside : word s₁ s₀ + word c₁ c₀ > s.coils.length
  · simp only [if_pos houtside]
    exact ⟨_, _, rfl, .writeOutside rfl (by rw [length_valuesOf]; omega)⟩
  obtain ⟨bank, hloop, hcells⟩ := multiCoils_loop s₁ s₀ c₁ c₀ n
    (show data.length = (word c₁ c₀ + 7) / 8 by omega) (not_lt.mp houtside)
  have hecho : 4 ≤ (s₁ :: s₀ :: c₁ :: c₀ :: n :: data).length := by omega
  simp only [if_neg houtside, hloop, ok_bind, slice_of_le (Nat.zero_le 4) hecho]
  refine ⟨_, _, rfl, .write rfl (by rw [length_valuesOf]; omega) ?_ ⟨rfl, rfl, rfl, rfl⟩⟩
  rw [cells_setCoils, hcells]
  rfl

theorem keeping_answers {s : ModbusSlave} {d : Except UInt8 Request} {c : Checked Response}
    (h : ∃ r, c = .ok r ∧ Answers s d s r) :
    ∃ s' r, keeping s c = .ok (s', r) ∧ Answers s d s' r := by
  obtain ⟨r, rfl, hr⟩ := h
  exact ⟨s, r, rfl, hr⟩

/-- Both sides choose by the same test. -/
theorem ite_answers {s : ModbusSlave} {p : Prop} [Decidable p] {d e : Except UInt8 Request}
    {x y : Checked (ModbusSlave × Response)} (hx : ∃ s' r, x = .ok (s', r) ∧ Answers s d s' r)
    (hy : ∃ s' r, y = .ok (s', r) ∧ Answers s e s' r) :
    ∃ s' r, (if p then x else y) = .ok (s', r) ∧ Answers s (if p then d else e) s' r := by
  by_cases hp : p
  · rw [if_pos hp, if_pos hp]
    exact hx
  · rw [if_neg hp, if_neg hp]
    exact hy

/-- **Every request is answered as decoded.**  From any state of the device and
for any bytes, `dispatch` returns, and does what the decoded request asks. -/
theorem dispatch_answers (s : ModbusSlave) (fc : UInt8) (pdu : List UInt8) :
    ∃ s' r, dispatch s fc pdu = .ok (s', r) ∧ Answers s (decode fc pdu) s' r := by
  unfold dispatch decode
  refine ite_answers (keeping_answers (readBits_answers s pdu false)) ?_
  refine ite_answers (keeping_answers (readBits_answers s pdu true)) ?_
  refine ite_answers (keeping_answers (readRegs_answers s pdu false)) ?_
  refine ite_answers (keeping_answers (readRegs_answers s pdu true)) ?_
  refine ite_answers (writeSingleCoil_answers s pdu) ?_
  refine ite_answers (writeSingleReg_answers s pdu) ?_
  refine ite_answers (writeMultiCoils_answers s pdu) ?_
  refine ite_answers (writeMultiRegs_answers s pdu) ?_
  refine ite_answers ⟨s, _, rfl, .report rfl⟩ ?_
  exact ⟨s, _, rfl, .refused rfl⟩

/-! ## Frames -/

/-- What the slave may do with a frame.  Its own frames are those that carry its
address and the right checksum. -/
inductive Handles (s : ModbusSlave) (req : List UInt8) :
    ModbusSlave → Option (List UInt8) → Prop
  | dropped (h : 0 < s.dropNext) : Handles s req { s with dropNext := s.dropNext - 1 } none
  | ignored (h : s.dropNext = 0) (foreign : ∀ fc pdu, req ≠ appendCrc (s.address :: fc :: pdu)) :
      Handles s req s none
  | forced {fc code : UInt8} {pdu : List UInt8} (h : s.dropNext = 0)
      (own : req = appendCrc (s.address :: fc :: pdu)) (fault : s.forceException = some code) :
      Handles s req s (some (frameOf s.address fc (.error code)))
  | answered {fc : UInt8} {pdu : List UInt8} {s' : ModbusSlave} {r : Response}
      (h : s.dropNext = 0) (own : req = appendCrc (s.address :: fc :: pdu))
      (fault : s.forceException = none) (answers : Answers s (decode fc pdu) s' r) :
      Handles s req s' (some (frameOf s.address fc r))

theorem appendCrc_take_drop (body : List UInt8) :
    (appendCrc body).length = body.length + 2 ∧ (appendCrc body).take body.length = body ∧
      (appendCrc body).drop body.length = crcBytes body :=
  ⟨List.length_append, List.take_left, List.drop_left⟩

theorem eq_appendCrc_take_iff (frame : List UInt8) (n : ℕ) :
    frame = appendCrc (frame.take n) ↔ frame.drop n = crcBytes (frame.take n) := by
  have hsplit := List.take_append_drop n frame
  constructor
  · intro hframe
    rw [appendCrc] at hframe
    exact List.append_cancel_left (hsplit.trans hframe)
  · intro hcrc
    rw [appendCrc, ← hcrc, hsplit]

theorem crcOk_eq (frame : List UInt8) :
    crcOk frame = .ok (decide (3 ≤ frame.length ∧
      frame = appendCrc (frame.take (frame.length - 2)))) := by
  by_cases h : frame.length < 3
  · rw [crcOk, if_pos h, decide_eq_false (by omega)]
    rfl
  · rw [crcOk, if_neg h, checkedSub_of_le (by omega), ok_bind,
      splitAt_of_le (Nat.sub_le _ _), ok_bind]
    show Except.ok (frame.drop (frame.length - 2) == crcBytes (frame.take (frame.length - 2))) = _
    congr 1
    rw [Bool.eq_iff_iff, beq_iff_eq, decide_eq_true_iff, eq_appendCrc_take_iff]
    exact (and_iff_right (not_lt.mp h)).symm

theorem length_appendCrc (body : List UInt8) : (appendCrc body).length = body.length + 2 :=
  (appendCrc_take_drop body).1

theorem crcOk_appendCrc {body : List UInt8} (h : body ≠ []) : crcOk (appendCrc body) = .ok true := by
  have hpos := List.length_pos_of_ne_nil h
  rw [crcOk_eq, length_appendCrc, Nat.add_sub_cancel, (appendCrc_take_drop body).2.1,
    decide_eq_true ⟨by omega, rfl⟩]

/-- What a slave that is not dropping does with a frame of its own: the forced
exception, or what `dispatch` answers. -/
theorem handleFrame_own {s : ModbusSlave} (hdrop : s.dropNext = 0) (fc : UInt8)
    (pdu : List UInt8) :
    handleFrame s (appendCrc (s.address :: fc :: pdu)) = (do
      let (s', body) ← match s.forceException with
        | some code => pure (s, .error code)
        | none => dispatch s fc pdu
      return (s', some (frameOf s.address fc body))) := by
  have hlen : (appendCrc (s.address :: fc :: pdu)).length = pdu.length + 4 := by
    rw [length_appendCrc, List.length_cons, List.length_cons]
  have hslice : slice (appendCrc (s.address :: fc :: pdu)) 2 (pdu.length + 2) = .ok pdu := by
    rw [slice_of_le (by omega) (by omega), Nat.add_sub_cancel]
    exact congrArg Except.ok List.take_left
  rw [handleFrame, if_neg (by omega), if_neg (by omega), crcOk_appendCrc (List.cons_ne_nil _ _),
    ok_bind, if_neg (by decide),
    show index (appendCrc (s.address :: fc :: pdu)) 0 = .ok s.address from rfl, ok_bind,
    if_neg (not_not.mpr rfl), show index (appendCrc (s.address :: fc :: pdu)) 1 = .ok fc from rfl,
    ok_bind, checkedSub_of_le (by omega), ok_bind, hlen,
    show pdu.length + 4 - 2 = pdu.length + 2 by omega, hslice]
  rfl

/-- A frame that is not one of its own is ignored. -/
theorem handleFrame_foreign {s : ModbusSlave} (hdrop : s.dropNext = 0) {req : List UInt8}
    (foreign : ∀ fc pdu, req ≠ appendCrc (s.address :: fc :: pdu)) :
    handleFrame s req = .ok (s, none) := by
  rw [handleFrame, if_neg (by omega)]
  by_cases hshort : req.length < 4
  · exact if_pos hshort
  rw [if_neg hshort, crcOk_eq, ok_bind]
  by_cases hcrc : 3 ≤ req.length ∧ req = appendCrc (req.take (req.length - 2))
  swap
  · rw [decide_eq_false hcrc]
    rfl
  rw [decide_eq_true hcrc, if_neg (by decide)]
  have hlen : 2 ≤ (req.take (req.length - 2)).length := by
    rw [List.length_take]
    omega
  match hbody : req.take (req.length - 2), hlen with
  | addr :: fc :: pdu, _ =>
    have hreq : req = appendCrc (addr :: fc :: pdu) := hbody ▸ hcrc.2
    subst hreq
    rw [show index (appendCrc (addr :: fc :: pdu)) 0 = .ok addr from rfl, ok_bind]
    refine if_pos fun haddr => foreign fc pdu ?_
    rw [haddr]

/-- **Every frame is handled.**  From any state of the device and for any bytes,
`handle_frame` returns, and it drops, ignores, refuses or answers the frame. -/
theorem handleFrame_handles (s : ModbusSlave) (req : List UInt8) :
    ∃ s' reply, handleFrame s req = .ok (s', reply) ∧ Handles s req s' reply := by
  by_cases hdrop : s.dropNext > 0
  · refine ⟨_, _, ?_, .dropped hdrop⟩
    rw [handleFrame, if_pos hdrop, checkedSub_of_le hdrop]
    rfl
  have hzero : s.dropNext = 0 := by omega
  by_cases hown : ∃ fc pdu, req = appendCrc (s.address :: fc :: pdu)
  swap
  · have foreign : ∀ fc pdu, req ≠ appendCrc (s.address :: fc :: pdu) :=
      fun fc pdu h => hown ⟨fc, pdu, h⟩
    exact ⟨s, none, handleFrame_foreign hzero foreign, .ignored hzero foreign⟩
  obtain ⟨fc, pdu, rfl⟩ := hown
  rw [handleFrame_own hzero]
  cases hfault : s.forceException with
  | some code => exact ⟨_, _, rfl, .forced hzero rfl hfault⟩
  | none =>
    obtain ⟨s', r, hdispatch, hanswers⟩ := dispatch_answers s fc pdu
    exact ⟨s', _, by rw [hdispatch]; rfl, .answered hzero rfl hfault hanswers⟩

end Sim
end WardenSdk
