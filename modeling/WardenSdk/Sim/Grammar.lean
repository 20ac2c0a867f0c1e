import Mathlib.Data.BitVec
import WardenSdk.Sim.ModbusMemory

/-!
# The request grammar

What a master may send to the data plane of the slave, said once and by one encoder:
a `Command` names a read, a write of one register or coil, or a write of many, and
`Command.data` lays it out on the wire.  The eight handlers of `sim/src/modbus.rs` each
check lengths, counts, byte counts and ranges in an order of their own; here they are
held against that one encoder.

* `decode_eq_ok_iff`: what decodes is what the encoder makes of a legal command, up to
  the padding bits of the last coil byte.
* The slave answers normally exactly the legal commands that stay inside their bank,
  and the exception says which of the conditions fails first: the function code, the
  form, the range.
-/

namespace WardenSdk
namespace Sim

open Lib

/-! ## Commands -/

inductive Command where
  | read (bank : Bank) (start count : UInt16)
  | writeReg (addr value : UInt16)
  | writeCoil (addr : UInt16) (on : Bool)
  | writeRegs (start : UInt16) (values : List UInt16)
  | writeCoils (start : UInt16) (values : List Bool)
  deriving DecidableEq

def readCode : Bank → UInt8
  | .coils => 0x01
  | .discrete => 0x02
  | .holding => 0x03
  | .input => 0x04

def Command.functionCode : Command → UInt8
  | .read bank _ _ => readCode bank
  | .writeCoil _ _ => 0x05
  | .writeReg _ _ => 0x06
  | .writeCoils _ _ => 0x0F
  | .writeRegs _ _ => 0x10

/-- The function codes of the data plane. -/
def dataPlane : List UInt8 := [0x01, 0x02, 0x03, 0x04, 0x05, 0x06, 0x0F, 0x10]

/-- Coils on the wire, eight to a byte, the first at the lowest place; the rest of the
last byte is zero. -/
def packed (values : List Bool) : List UInt8 :=
  (List.range ((values.length + 7) / 8)).map fun j =>
    UInt8.ofNat (Nat.ofBits fun i : Fin 8 => values.getD (j * 8 + i) false)

/-- The front of a write of many values: where, how many, and in how many bytes. -/
def manyHeader (start : UInt16) (count bytes : ℕ) : List UInt8 :=
  toBeBytes start ++ toBeBytes (UInt16.ofNat count) ++ [UInt8.ofNat bytes]

/-- The data of a command, between its function code and its checksum. -/
def Command.data : Command → List UInt8
  | .read _ start count => toBeBytes start ++ toBeBytes count
  | .writeReg addr value => toBeBytes addr ++ toBeBytes value
  | .writeCoil addr on => toBeBytes addr ++ toBeBytes (if on then 0xFF00 else 0x0000)
  | .writeRegs start values =>
    manyHeader start values.length (values.length * 2) ++ values.flatMap toBeBytes
  | .writeCoils start values =>
    manyHeader start values.length ((values.length + 7) / 8) ++ packed values

/-- The most values a read may ask for. -/
def mostRead : Bank → ℕ
  | .holding | .input => 125
  | .coils | .discrete => 2000

def Command.Legal : Command → Prop
  | .read bank _ count => 1 ≤ count.toNat ∧ count.toNat ≤ mostRead bank
  | .writeReg _ _ => True
  | .writeCoil _ _ => True
  | .writeRegs _ values => 1 ≤ values.length ∧ values.length ≤ 123
  | .writeCoils _ values => 1 ≤ values.length ∧ values.length ≤ 1968

instance (c : Command) : Decidable c.Legal := by
  cases c <;> unfold Command.Legal <;> infer_instance

/-- The same bytes, up to the bits past the first `count`. -/
def SameBits (count : ℕ) (data data' : List UInt8) : Prop :=
  data.length = data'.length ∧ ∀ i < count, bitAt data i = bitAt data' i

/-- The data is that of the command; of the last coil byte only the bits that stand for
coils are looked at. -/
def Command.Encodes (c : Command) (pdu : List UInt8) : Prop :=
  match c with
  | .writeCoils start values => ∃ data, SameBits values.length data (packed values) ∧
      pdu = manyHeader start values.length ((values.length + 7) / 8) ++ data
  | c => pdu = c.data

/-- What a command asks of the register memory. -/
def Command.request : Command → Request
  | .read bank start count => .read bank start.toNat count.toNat
  | .writeReg addr value => .write .holding addr.toNat [value.toNat]
  | .writeCoil addr on => .write .coils addr.toNat [on.toNat]
  | .writeRegs start values => .write .holding start.toNat (values.map UInt16.toNat)
  | .writeCoils start values => .write .coils start.toNat (values.map Bool.toNat)

/-- The stretch that a request names lies inside its bank. -/
def Request.Inside (s : ModbusSlave) : Request → Prop
  | .read bank start count => start + count ≤ (cells s bank).length
  | .write bank start values => start + values.length ≤ (cells s bank).length
  | .reportSlaveId => True

/-- A command encodes itself. -/
theorem Command.encodes_data (c : Command) : c.Encodes c.data := by
  cases c with
  | writeCoils start values => exact ⟨_, ⟨rfl, fun i _ => rfl⟩, rfl⟩
  | _ => rfl

/-! ## Words -/

theorem toBeBytes_fromBeBytes (hi lo : UInt8) : toBeBytes (fromBeBytes hi lo) = [hi, lo] := by
  have hword := word_toBeBytes (fromBeBytes hi lo)
  rw [toNat_fromBeBytes, word, word, UInt16.toNat_toUInt8, UInt16.toNat_toUInt8] at hword
  have hhi := hi.toNat_lt
  have hlo := lo.toNat_lt
  rw [toBeBytes, List.cons.injEq, List.cons.injEq, ← UInt8.toNat_inj, ← UInt8.toNat_inj,
    UInt16.toNat_toUInt8, UInt16.toNat_toUInt8]
  refine ⟨?_, ?_, rfl⟩ <;> omega

theorem word_eq_iff (hi lo : UInt8) (v : UInt16) : word hi lo = v.toNat ↔ [hi, lo] = toBeBytes v := by
  rw [← toNat_fromBeBytes, UInt16.toNat_inj]
  constructor
  · rintro rfl
    exact (toBeBytes_fromBeBytes hi lo).symm
  · intro h
    apply UInt16.toNat_inj.mp
    rw [toNat_fromBeBytes, ← word_toBeBytes v]
    cases h
    rfl

theorem toNat_ofNat_of_lt {n : ℕ} (h : n < 65536) : (UInt16.ofNat n).toNat = n := by
  rw [UInt16.toNat_ofNat']
  exact Nat.mod_eq_of_lt h

/-- Bytes in pairs are registers on the wire. -/
theorem exists_flatMap_toBeBytes {data : List UInt8} {count : ℕ} (h : data.length = count * 2) :
    ∃ values : List UInt16, values.length = count ∧ data = values.flatMap toBeBytes := by
  induction count generalizing data with
  | zero => exact ⟨[], rfl, List.eq_nil_of_length_eq_zero h⟩
  | succ count ih =>
    match data, h with
    | [], h => exact absurd h (by simp)
    | [_], h => exact absurd h (by simp only [List.length_singleton]; omega)
    | hi :: lo :: data, h =>
      have hrest : data.length = count * 2 := by
        simp only [List.length_cons] at h
        omega
      obtain ⟨values, hlen, rfl⟩ := ih hrest
      refine ⟨fromBeBytes hi lo :: values, by rw [List.length_cons, hlen], ?_⟩
      rw [List.flatMap_cons, toBeBytes_fromBeBytes]
      rfl

theorem length_flatMap_toBeBytes (values : List UInt16) :
    (values.flatMap toBeBytes).length = values.length * 2 := by
  induction values with
  | nil => rfl
  | cons v values ih =>
    rw [List.flatMap_cons, List.length_append, ih, List.length_cons]
    show 2 + _ = _
    omega

theorem valuesOf_flatMap_toBeBytes (values : List UInt16) :
    valuesOf .holding (values.flatMap toBeBytes) values.length = values.map UInt16.toNat := by
  apply List.ext_getElem (by simp)
  intro i h₁ h₂
  rw [length_valuesOf] at h₁
  simp only [valuesOf, valueAt, List.getElem_map, List.getElem_range, regAt_flatMap_toBeBytes]
  rw [List.getElem?_eq_getElem (by simpa using h₁), List.getElem_map]
  rfl

/-! ## Coils -/

theorem length_packed (values : List Bool) : (packed values).length = (values.length + 7) / 8 := by
  rw [packed, List.length_map, List.length_range]

/-- **Coils are read back from where they were packed.** -/
theorem carries_packed (values : List Bool) : Carries (packed values) values := by
  intro i hi
  rw [length_packed] at hi
  have hbyte : (packed values)[i / 8]? =
      some (UInt8.ofNat (Nat.ofBits fun j : Fin 8 => values.getD (i / 8 * 8 + j) false)) := by
    rw [packed, List.getElem?_map, List.getElem?_range hi]
    rfl
  have hmod : i % 8 < 8 := Nat.mod_lt i (by omega)
  rw [bitAt_of_getElem? hbyte, UInt8.toNat_ofNat_of_lt' (Nat.ofBits_lt_two_pow _),
    Nat.testBit_ofBits_lt _ _ hmod]
  show some (values.getD (i / 8 * 8 + i % 8) false).toNat = _
  rw [show i / 8 * 8 + i % 8 = i by omega]

theorem bitAt_packed {values : List Bool} {i : ℕ} (h : i < values.length) :
    bitAt (packed values) i = some values[i].toNat := by
  rw [carries_packed values i (by rw [length_packed]; omega), List.getD_eq_getElem _ _ h]

/-- Any bytes carry some coils. -/
theorem exists_sameBits_packed {data : List UInt8} {count : ℕ}
    (h : data.length = (count + 7) / 8) :
    ∃ values : List Bool, values.length = count ∧ SameBits values.length data (packed values) := by
  refine ⟨(List.range count).map fun i => (data.getD (i / 8) 0).toNat.testBit (i % 8), by simp, ?_, ?_⟩
  · rw [length_packed, h]
    simp
  · intro i hi
    rw [bitAt_packed hi, List.getElem_map, List.getElem_range]
    rw [List.length_map, List.length_range] at hi
    exact bitAt_of_lt (by omega)

theorem valuesOf_of_sameBits {data : List UInt8} {values : List Bool}
    (h : SameBits values.length data (packed values)) :
    valuesOf .coils data values.length = values.map Bool.toNat := by
  apply List.ext_getElem (by simp)
  intro i h₁ h₂
  rw [length_valuesOf] at h₁
  simp only [valuesOf, valueAt, List.getElem_map, List.getElem_range]
  rw [h.2 i h₁, bitAt_packed h₁]
  rfl

/-! ## The decoders against the encoder -/

theorem decodeRead_eq_ok_iff {bank : Bank} {most : ℕ} {pdu : List UInt8} {r : Request} :
    decodeRead bank most pdu = .ok r ↔
      ∃ start count : UInt16, (1 ≤ count.toNat ∧ count.toNat ≤ most) ∧
        pdu = toBeBytes start ++ toBeBytes count ∧ .read bank start.toNat count.toNat = r := by
  constructor
  · intro h
    unfold decodeRead at h
    split at h
    · rename_i s₁ s₀ c₁ c₀
      split_ifs at h with hcount
      cases h
      refine ⟨fromBeBytes s₁ s₀, fromBeBytes c₁ c₀, ?_, ?_, ?_⟩
      · rw [toNat_fromBeBytes]
        omega
      · rw [toBeBytes_fromBeBytes, toBeBytes_fromBeBytes]
        rfl
      · rw [toNat_fromBeBytes, toNat_fromBeBytes]
    · cases h
  · rintro ⟨start, count, hcount, rfl, rfl⟩
    show (if word _ _ = 0 ∨ word _ _ > most then _ else _) = _
    rw [word_toBeBytes, word_toBeBytes, if_neg (by omega)]

theorem decodeWriteReg_eq_ok_iff {pdu : List UInt8} {r : Request} :
    decodeWriteReg pdu = .ok r ↔ ∃ addr value : UInt16,
      pdu = toBeBytes addr ++ toBeBytes value ∧ .write .holding addr.toNat [value.toNat] = r := by
  constructor
  · intro h
    unfold decodeWriteReg at h
    split at h
    · rename_i a₁ a₀ v₁ v₀
      cases h
      refine ⟨fromBeBytes a₁ a₀, fromBeBytes v₁ v₀, ?_, ?_⟩
      · rw [toBeBytes_fromBeBytes, toBeBytes_fromBeBytes]
        rfl
      · rw [toNat_fromBeBytes, toNat_fromBeBytes]
    · cases h
  · rintro ⟨addr, value, rfl, rfl⟩
    show Except.ok (Request.write .holding (word _ _) [word _ _]) = _
    rw [word_toBeBytes, word_toBeBytes]

theorem decodeWriteCoil_eq_ok_iff {pdu : List UInt8} {r : Request} :
    decodeWriteCoil pdu = .ok r ↔ ∃ (addr : UInt16) (on : Bool),
      pdu = toBeBytes addr ++ toBeBytes (if on then 0xFF00 else 0x0000) ∧
        .write .coils addr.toNat [on.toNat] = r := by
  constructor
  · intro h
    unfold decodeWriteCoil at h
    split at h
    · rename_i a₁ a₀ v₁ v₀
      have hpair (v : UInt16) (hv : word v₁ v₀ = v.toNat) :
          [a₁, a₀, v₁, v₀] = toBeBytes (fromBeBytes a₁ a₀) ++ toBeBytes v := by
        rw [← (word_eq_iff v₁ v₀ v).mp hv, toBeBytes_fromBeBytes]
        rfl
      split_ifs at h with hon hoff
      · cases h
        exact ⟨fromBeBytes a₁ a₀, true, hpair 0xFF00 hon, by rw [toNat_fromBeBytes]; rfl⟩
      · cases h
        exact ⟨fromBeBytes a₁ a₀, false, hpair 0x0000 hoff, by rw [toNat_fromBeBytes]; rfl⟩
    · cases h
  · rintro ⟨addr, on, rfl, rfl⟩
    have hdata (v : UInt16) : decodeWriteCoil (toBeBytes addr ++ toBeBytes v) =
        if v.toNat = 0xFF00 then .ok (.write .coils addr.toNat [1])
        else if v.toNat = 0 then .ok (.write .coils addr.toNat [0])
        else .error illegalDataValue := by
      rw [← word_toBeBytes v, ← word_toBeBytes addr]
      rfl
    rw [hdata]
    cases on with
    | true => exact if_pos rfl
    | false => exact (if_neg (by decide)).trans (if_pos rfl)

/-- A write of many values: what its header says of the data behind it. -/
theorem decodeWrites_eq_ok_iff {bank : Bank} {most : ℕ} (hmost : most < 65536)
    (hbytes : ∀ n ≤ most, byteCount bank n < 256) {pdu : List UInt8} {r : Request} :
    decodeWrites bank most pdu = .ok r ↔
      ∃ (start : UInt16) (count : ℕ) (data : List UInt8), (1 ≤ count ∧ count ≤ most) ∧
        data.length = byteCount bank count ∧
        pdu = manyHeader start count (byteCount bank count) ++ data ∧
        .write bank start.toNat (valuesOf bank data count) = r := by
  constructor
  · intro h
    unfold decodeWrites at h
    split at h
    · rename_i s₁ s₀ c₁ c₀ n data
      split_ifs at h with hform
      cases h
      simp only [not_or, not_lt, not_not] at hform
      obtain ⟨hpos, hle, hn, hlen⟩ := hform
      refine ⟨fromBeBytes s₁ s₀, word c₁ c₀, data, ⟨by omega, hle⟩, by omega, ?_, ?_⟩
      · have hcount : [c₁, c₀] = toBeBytes (UInt16.ofNat (word c₁ c₀)) :=
          (word_eq_iff _ _ _).mp (toNat_ofNat_of_lt (by omega)).symm
        rw [manyHeader, toBeBytes_fromBeBytes, ← hcount, ← hn, UInt8.ofNat_toNat]
        rfl
      · rw [toNat_fromBeBytes]
    · cases h
  · rintro ⟨start, count, data, ⟨hpos, hle⟩, hlen, rfl, rfl⟩
    have hcount := toNat_ofNat_of_lt (show count < 65536 by omega)
    have hn : (UInt8.ofNat (byteCount bank count)).toNat = byteCount bank count :=
      UInt8.toNat_ofNat_of_lt' (hbytes count hle)
    show (if word _ _ = 0 ∨ word _ _ > most ∨ UInt8.toNat _ ≠ byteCount bank (word _ _) ∨
        data.length ≠ UInt8.toNat _ then _ else Except.ok (Request.write bank (word _ _) (valuesOf bank data (word _ _)))) = _
    rw [word_toBeBytes, word_toBeBytes, hcount, hn, if_neg (by omega)]

theorem decodeWriteRegs_eq_ok_iff {pdu : List UInt8} {r : Request} :
    decodeWrites .holding 123 pdu = .ok r ↔
      ∃ (start : UInt16) (values : List UInt16), (1 ≤ values.length ∧ values.length ≤ 123) ∧
        pdu = (Command.writeRegs start values).data ∧ (Command.writeRegs start values).request = r := by
  have hbytes (n : ℕ) (hn : n ≤ 123) : byteCount .holding n < 256 := show n * 2 < 256 by omega
  rw [decodeWrites_eq_ok_iff (by decide) hbytes]
  constructor
  · rintro ⟨start, count, data, hcount, hlen, rfl, rfl⟩
    obtain ⟨values, rfl, rfl⟩ := exists_flatMap_toBeBytes hlen
    exact ⟨start, values, hcount, rfl, by rw [valuesOf_flatMap_toBeBytes]; rfl⟩
  · rintro ⟨start, values, hcount, rfl, rfl⟩
    exact ⟨start, values.length, _, hcount, length_flatMap_toBeBytes values, rfl,
      by rw [valuesOf_flatMap_toBeBytes]; rfl⟩

theorem decodeWriteCoils_eq_ok_iff {pdu : List UInt8} {r : Request} :
    decodeWrites .coils 1968 pdu = .ok r ↔
      ∃ (start : UInt16) (values : List Bool), (1 ≤ values.length ∧ values.length ≤ 1968) ∧
        (Command.writeCoils start values).Encodes pdu ∧
        (Command.writeCoils start values).request = r := by
  have hbytes (n : ℕ) (hn : n ≤ 1968) : byteCount .coils n < 256 := show (n + 7) / 8 < 256 by omega
  rw [decodeWrites_eq_ok_iff (by decide) hbytes]
  constructor
  · rintro ⟨start, count, data, hcount, hlen, rfl, rfl⟩
    obtain ⟨values, rfl, hbits⟩ := exists_sameBits_packed hlen
    exact ⟨start, values, hcount, ⟨data, hbits, rfl⟩, by rw [valuesOf_of_sameBits hbits]; rfl⟩
  · rintro ⟨start, values, hcount, ⟨data, hbits, rfl⟩, rfl⟩
    exact ⟨start, values.length, data, hcount, hbits.1.trans (length_packed values), rfl,
      by rw [valuesOf_of_sameBits hbits]; rfl⟩

/-- **What decodes is what the encoder makes of a legal command.** -/
theorem decode_eq_ok_iff {fc : UInt8} (hfc : fc ≠ 0x11) {pdu : List UInt8} {r : Request} :
    decode fc pdu = .ok r ↔
      ∃ c : Command, c.Legal ∧ c.functionCode = fc ∧ c.Encodes pdu ∧ c.request = r := by
  constructor
  · intro h
    unfold decode at h
    split_ifs at h with h₁ h₂ h₃ h₄ h₅ h₆ h₇ h₈
    · obtain ⟨start, count, hcount, hpdu, hr⟩ := decodeRead_eq_ok_iff.mp h
      exact ⟨.read .coils start count, hcount, h₁.symm, hpdu, hr⟩
    · obtain ⟨start, count, hcount, hpdu, hr⟩ := decodeRead_eq_ok_iff.mp h
      exact ⟨.read .discrete start count, hcount, h₂.symm, hpdu, hr⟩
    · obtain ⟨start, count, hcount, hpdu, hr⟩ := decodeRead_eq_ok_iff.mp h
      exact ⟨.read .holding start count, hcount, h₃.symm, hpdu, hr⟩
    · obtain ⟨start, count, hcount, hpdu, hr⟩ := decodeRead_eq_ok_iff.mp h
      exact ⟨.read .input start count, hcount, h₄.symm, hpdu, hr⟩
    · obtain ⟨addr, on, hpdu, hr⟩ := decodeWriteCoil_eq_ok_iff.mp h
      exact ⟨.writeCoil addr on, trivial, h₅.symm, hpdu, hr⟩
    · obtain ⟨addr, value, hpdu, hr⟩ := decodeWriteReg_eq_ok_iff.mp h
      exact ⟨.writeReg addr value, trivial, h₆.symm, hpdu, hr⟩
    · obtain ⟨start, values, hcount, hpdu, hr⟩ := decodeWriteCoils_eq_ok_iff.mp h
      exact ⟨.writeCoils start values, hcount, h₇.symm, hpdu, hr⟩
    · obtain ⟨start, values, hcount, hpdu, hr⟩ := decodeWriteRegs_eq_ok_iff.mp h
      exact ⟨.writeRegs start values, hcount, h₈.symm, hpdu, hr⟩
  · rintro ⟨c, hlegal, rfl, hpdu, rfl⟩
    cases c with
    | read bank start count =>
      have hread : decodeRead bank (mostRead bank) pdu = .ok (.read bank start.toNat count.toNat) :=
        decodeRead_eq_ok_iff.mpr ⟨start, count, hlegal, hpdu, rfl⟩
      cases bank <;> exact hread
    | writeReg addr value => exact decodeWriteReg_eq_ok_iff.mpr ⟨addr, value, hpdu, rfl⟩
    | writeCoil addr on => exact decodeWriteCoil_eq_ok_iff.mpr ⟨addr, on, hpdu, rfl⟩
    | writeRegs start values =>
      exact decodeWriteRegs_eq_ok_iff.mpr ⟨start, values, hlegal, hpdu, rfl⟩
    | writeCoils start values =>
      exact decodeWriteCoils_eq_ok_iff.mpr ⟨start, values, hlegal, hpdu, rfl⟩

theorem decodeRead_error {bank : Bank} {most : ℕ} {pdu : List UInt8} {code : UInt8}
    (h : decodeRead bank most pdu = .error code) : code = illegalDataValue := by
  unfold decodeRead at h
  split at h
  · split_ifs at h
    cases h
    rfl
  · cases h
    rfl

theorem decodeWrites_error {bank : Bank} {most : ℕ} {pdu : List UInt8} {code : UInt8}
    (h : decodeWrites bank most pdu = .error code) : code = illegalDataValue := by
  unfold decodeWrites at h
  split at h
  · split_ifs at h
    cases h
    rfl
  · cases h
    rfl

theorem decodeWriteCoil_error {pdu : List UInt8} {code : UInt8}
    (h : decodeWriteCoil pdu = .error code) : code = illegalDataValue := by
  unfold decodeWriteCoil at h
  split at h
  · split_ifs at h
    cases h
    rfl
  · cases h
    rfl

theorem decodeWriteReg_error {pdu : List UInt8} {code : UInt8}
    (h : decodeWriteReg pdu = .error code) : code = illegalDataValue := by
  unfold decodeWriteReg at h
  split at h
  · cases h
  · cases h
    rfl

/-- **Why a request does not decode**: its function code is not one of the data plane,
or its data is ill formed. -/
theorem decode_error {fc : UInt8} (hfc : fc ≠ 0x11) {pdu : List UInt8} {code : UInt8}
    (h : decode fc pdu = .error code) :
    (fc ∉ dataPlane ∧ code = illegalFunction) ∨ (fc ∈ dataPlane ∧ code = illegalDataValue) := by
  unfold decode at h
  split_ifs at h with h₁ h₂ h₃ h₄ h₅ h₆ h₇ h₈
  · exact .inr ⟨by simp [dataPlane, h₁], decodeRead_error h⟩
  · exact .inr ⟨by simp [dataPlane, h₂], decodeRead_error h⟩
  · exact .inr ⟨by simp [dataPlane, h₃], decodeRead_error h⟩
  · exact .inr ⟨by simp [dataPlane, h₄], decodeRead_error h⟩
  · exact .inr ⟨by simp [dataPlane, h₅], decodeWriteCoil_error h⟩
  · exact .inr ⟨by simp [dataPlane, h₆], decodeWriteReg_error h⟩
  · exact .inr ⟨by simp [dataPlane, h₇], decodeWrites_error h⟩
  · exact .inr ⟨by simp [dataPlane, h₈], decodeWrites_error h⟩
  · cases h
    exact .inl ⟨by simp [dataPlane, h₁, h₂, h₃, h₄, h₅, h₆, h₇, h₈], rfl⟩

theorem functionCode_mem_dataPlane (c : Command) : c.functionCode ∈ dataPlane := by
  have hcode : ∀ fc : UInt8, dataPlane.contains fc = true → fc ∈ dataPlane :=
    fun fc => List.contains_iff_mem.mp
  cases c with
  | read bank => cases bank <;> exact hcode _ rfl
  | _ => exact hcode _ rfl

/-! ## The slave -/

/-- A frame of its own, with no fault injected, is answered with what `dispatch` makes
of it. -/
theorem handleFrame_of_dispatch {s s' : ModbusSlave} {fc : UInt8} {pdu : List UInt8} {r : Response}
    (hdrop : s.dropNext = 0) (hfault : s.forceException = none)
    (h : dispatch s fc pdu = .ok (s', r)) :
    handleFrame s (appendCrc (s.address :: fc :: pdu)) =
      .ok (s', some (frameOf s.address fc r)) := by
  rw [handleFrame_own hdrop, hfault, h]
  rfl

/-- A request that decodes is answered normally, or leaves its bank. -/
theorem Answers.inside_or_outside {s s' : ModbusSlave} {req : Request} {r : Response}
    (h : Answers s (.ok req) s' r) :
    (req.Inside s ∧ ∃ data, r = .ok data) ∨ (¬ req.Inside s ∧ r = .error illegalDataAddress) := by
  cases h with
  | refused h => cases h
  | readOutside h outside =>
    cases h
    exact .inr ⟨Nat.not_le_of_lt outside, rfl⟩
  | writeOutside h outside =>
    cases h
    exact .inr ⟨Nat.not_le_of_lt outside, rfl⟩
  | read h inside =>
    cases h
    exact .inl ⟨inside, _, rfl⟩
  | write h inside =>
    cases h
    exact .inl ⟨inside, _, rfl⟩
  | report h =>
    cases h
    exact .inl ⟨trivial, _, rfl⟩

/-- A request that does not decode is refused with its code. -/
theorem Answers.eq_error {s s' : ModbusSlave} {code : UInt8} {r : Response}
    (h : Answers s (.error code) s' r) : r = .error code := by
  cases h with
  | refused h =>
    cases h
    rfl
  | _ => contradiction

/-- **The slave accepts exactly the grammar.**  With no fault injected, a frame of its
own with a function code other than Report Slave ID is answered normally exactly when
it encodes a legal command that stays inside its bank.  Otherwise the exception is
0x01 for a function code outside the data plane, 0x03 for data that encodes no legal
command, and 0x02 for a legal command that leaves its bank. -/
theorem accepts_exactly_grammar {s : ModbusSlave} {fc : UInt8} (pdu : List UInt8)
    (hdrop : s.dropNext = 0) (hfault : s.forceException = none) (hfc : fc ≠ 0x11) :
    ∃ s' r, dispatch s fc pdu = .ok (s', r) ∧
      handleFrame s (appendCrc (s.address :: fc :: pdu)) =
        .ok (s', some (frameOf s.address fc r)) ∧
      ((∃ data, r = .ok data) ↔ ∃ c : Command,
        c.Legal ∧ c.functionCode = fc ∧ c.Encodes pdu ∧ c.request.Inside s) ∧
      ∀ code, r = .error code ↔
        (code = 0x01 ∧ fc ∉ dataPlane) ∨
        (code = 0x03 ∧ fc ∈ dataPlane ∧
          ¬ ∃ c : Command, c.Legal ∧ c.functionCode = fc ∧ c.Encodes pdu) ∨
        (code = 0x02 ∧ ∃ c : Command,
          c.Legal ∧ c.functionCode = fc ∧ c.Encodes pdu ∧ ¬ c.request.Inside s) := by
  obtain ⟨s', r, hdispatch, hanswers⟩ := dispatch_answers s fc pdu
  refine ⟨s', r, hdispatch, handleFrame_of_dispatch hdrop hfault hdispatch, ?_⟩
  -- whatever command the data encodes, it is the request that was decoded
  have hrequest (c : Command) (hlegal : c.Legal) (hcode : c.functionCode = fc)
      (hpdu : c.Encodes pdu) : decode fc pdu = .ok c.request :=
    (decode_eq_ok_iff hfc).mpr ⟨c, hlegal, hcode, hpdu, rfl⟩
  cases hd : decode fc pdu with
  | error code =>
    rw [hd] at hanswers
    obtain rfl := hanswers.eq_error
    have hnone : ¬ ∃ c : Command, c.Legal ∧ c.functionCode = fc ∧ c.Encodes pdu := by
      rintro ⟨c, hlegal, hcode, hpdu⟩
      rw [hrequest c hlegal hcode hpdu] at hd
      cases hd
    refine ⟨⟨?_, ?_⟩, fun code' => ?_⟩
    · rintro ⟨data, h⟩
      cases h
    · rintro ⟨c, hlegal, hcode, hpdu, -⟩
      exact absurd ⟨c, hlegal, hcode, hpdu⟩ hnone
    rw [Except.error.injEq]
    rcases decode_error hfc hd with ⟨hunknown, rfl⟩ | ⟨hknown, rfl⟩
    · constructor
      · rintro rfl
        exact .inl ⟨rfl, hunknown⟩
      · rintro (⟨rfl, -⟩ | ⟨-, hknown, -⟩ | ⟨-, c, hlegal, hcode, hpdu, -⟩)
        · rfl
        · exact absurd hknown hunknown
        · exact absurd ⟨c, hlegal, hcode, hpdu⟩ hnone
    · constructor
      · rintro rfl
        exact .inr (.inl ⟨rfl, hknown, hnone⟩)
      · rintro (⟨-, hunknown⟩ | ⟨rfl, -⟩ | ⟨-, c, hlegal, hcode, hpdu, -⟩)
        · exact absurd hknown hunknown
        · rfl
        · exact absurd ⟨c, hlegal, hcode, hpdu⟩ hnone
  | ok req =>
    obtain ⟨c, hlegal, hcode, hpdu, rfl⟩ := (decode_eq_ok_iff hfc).mp hd
    have hsame (c' : Command) (hlegal' : c'.Legal) (hcode' : c'.functionCode = fc)
        (hpdu' : c'.Encodes pdu) : c'.request = c.request := by
      have h := hrequest c' hlegal' hcode' hpdu'
      rw [hd, Except.ok.injEq] at h
      exact h.symm
    rw [hd] at hanswers
    rcases hanswers.inside_or_outside with ⟨hinside, data, rfl⟩ | ⟨houtside, rfl⟩
    · refine ⟨⟨fun _ => ⟨c, hlegal, hcode, hpdu, hinside⟩, fun _ => ⟨data, rfl⟩⟩, fun code => ?_⟩
      constructor
      · intro h
        cases h
      · rintro (⟨-, hunknown⟩ | ⟨-, -, hnone⟩ | ⟨-, c', hlegal', hcode', hpdu', hout⟩)
        · exact absurd (hcode ▸ functionCode_mem_dataPlane c) hunknown
        · exact absurd ⟨c, hlegal, hcode, hpdu⟩ hnone
        · rw [hsame c' hlegal' hcode' hpdu'] at hout
          exact absurd hinside hout
    · refine ⟨⟨?_, ?_⟩, fun code => ?_⟩
      · rintro ⟨data, h⟩
        cases h
      · rintro ⟨c', hlegal', hcode', hpdu', hin⟩
        rw [hsame c' hlegal' hcode' hpdu'] at hin
        exact absurd hin houtside
      · rw [Except.error.injEq]
        constructor
        · rintro rfl
          exact .inr (.inr ⟨rfl, c, hlegal, hcode, hpdu, houtside⟩)
        · rintro (⟨-, hunknown⟩ | ⟨-, -, hnone⟩ | ⟨rfl, -⟩)
          · exact absurd (hcode ▸ functionCode_mem_dataPlane c) hunknown
          · exact absurd ⟨c, hlegal, hcode, hpdu⟩ hnone
          · rfl

/-- Two coils written to a slave that has sixteen, the padding bits set. -/
theorem accepts_exactly_grammar_of_padding :
    ∃ s' r, dispatch (ModbusSlave.new 1 0 16) 0x0F [0, 3, 0, 2, 1, 0xFD] = .ok (s', r) ∧
      ∃ data, r = .ok data := by
  have hdrop : (ModbusSlave.new 1 0 16).dropNext = 0 := rfl
  have hfc : (0x0F : UInt8) ≠ 0x11 := by decide
  obtain ⟨s', r, hdispatch, -, hnormal, -⟩ :=
    accepts_exactly_grammar [0, 3, 0, 2, 1, 0xFD] hdrop rfl hfc
  refine ⟨s', r, hdispatch, hnormal.mpr ⟨.writeCoils 3 [true, false], by decide, rfl,
    ⟨[0xFD], ⟨rfl, ?_⟩, by decide⟩, ?_⟩⟩
  · decide
  · show 3 + 2 ≤ 16
    omega

end Sim
end WardenSdk
