import WardenSdk.Sim.Grammar

/-!
# The form of a reply

A reply of the slave is a frame of its own: whoever reads the bus takes its length from
its second and third byte, so a reply that is longer or shorter than it says garbles
the exchange after it.  `LegalReply` says what a legal reply to a request looks like,
and the slave gives no other as long as its identity fits a frame.

Report Slave ID is where it may not: the handler looks neither at the data of the
request nor at the length of the identity it sends, and the last section says exactly
when its reply is well framed all the same.
-/

namespace WardenSdk
namespace Sim

open Lib

/-! ## What a handler answers -/

theorem readRegs_ok {s : ModbusSlave} {pdu out : List UInt8} {input : Bool}
    (h : readRegs s pdu input = .ok (.ok out)) :
    ∃ start count data, decodeRead (regBank input) 125 pdu = .ok (.read (regBank input) start count) ∧
      (1 ≤ count ∧ count ≤ 125) ∧ out = UInt8.ofNat (count * 2) :: data ∧
      data.length = count * 2 := by
  by_cases hlen : pdu.length ≠ 4
  · rw [readRegs, if_pos hlen] at h
    cases h
  obtain ⟨s₁, s₀, c₁, c₀, rfl⟩ := exists_of_length_four (not_not.mp hlen)
  rw [readRegs_four] at h
  generalize (if input then s.input else s.holding) = bank at h
  split_ifs at h with hcount houtside
  · cases h
  · cases h
  cases h
  refine ⟨word s₁ s₀, word c₁ c₀, _, if_neg hcount, by omega, rfl, ?_⟩
  rw [length_flatMap_toBeBytes, List.length_take, List.length_drop]
  omega

theorem readBits_ok {s : ModbusSlave} {pdu out : List UInt8} {discrete : Bool}
    (h : readBits s pdu discrete = .ok (.ok out)) :
    ∃ start count data,
      decodeRead (bitBank discrete) 2000 pdu = .ok (.read (bitBank discrete) start count) ∧
      (1 ≤ count ∧ count ≤ 2000) ∧ out = UInt8.ofNat ((count + 7) / 8) :: data ∧
      data.length = (count + 7) / 8 ∧
      ∀ i, count ≤ i → i < data.length * 8 → bitAt data i = some 0 := by
  by_cases hlen : pdu.length ≠ 4
  · rw [readBits, if_pos hlen] at h
    cases h
  obtain ⟨s₁, s₀, c₁, c₀, rfl⟩ := exists_of_length_four (not_not.mp hlen)
  obtain ⟨data, hdata, hcarries, hbits⟩ := readBits_four s s₁ s₀ c₁ c₀ discrete
  rw [hbits] at h
  clear hbits
  generalize (if discrete then s.discrete else s.coils) = bank at h hcarries
  split_ifs at h with hcount houtside
  · cases h
  · cases h
  cases h
  refine ⟨word s₁ s₀, word c₁ c₀, data, if_neg hcount, by omega, rfl, hdata, ?_⟩
  intro i hi hbit
  rw [hcarries i (by omega), List.getD_eq_default _ _ ((List.length_take_le _ _).trans hi)]
  rfl

theorem writeSingleReg_ok {s s' : ModbusSlave} {pdu out : List UInt8}
    (h : writeSingleReg s pdu = .ok (s', .ok out)) : 4 ≤ pdu.length ∧ out = pdu.take 4 := by
  by_cases hlen : pdu.length ≠ 4
  · rw [writeSingleReg, if_pos hlen] at h
    cases h
  obtain ⟨a₁, a₀, v₁, v₀, rfl⟩ := exists_of_length_four (not_not.mp hlen)
  simp only [writeSingleReg, if_neg hlen, wordAt_zero, wordAt_two, ok_bind, pure_eq_ok] at h
  split_ifs at h
  · cases h
  obtain ⟨bank, -, h⟩ := bind_eq_ok h
  cases h
  exact ⟨le_rfl, rfl⟩

theorem writeSingleCoil_ok {s s' : ModbusSlave} {pdu out : List UInt8}
    (h : writeSingleCoil s pdu = .ok (s', .ok out)) : 4 ≤ pdu.length ∧ out = pdu.take 4 := by
  by_cases hlen : pdu.length ≠ 4
  · rw [writeSingleCoil, if_pos hlen] at h
    cases h
  obtain ⟨a₁, a₀, v₁, v₀, rfl⟩ := exists_of_length_four (not_not.mp hlen)
  simp only [writeSingleCoil, if_neg hlen, wordAt_zero, wordAt_two, ok_bind, pure_eq_ok] at h
  split_ifs at h
  · cases h
  · cases h
  obtain ⟨bank, -, h⟩ := bind_eq_ok h
  cases h
  exact ⟨le_rfl, rfl⟩

/-- How both writes of many end: with the first four bytes of the request. -/
theorem echo_ok {β : Type} {s' : ModbusSlave} {pdu out : List UInt8} {x : Checked β}
    {put : β → ModbusSlave}
    (h : (do
      let bank ← x
      let echo ← slice pdu 0 4
      pure (put bank, .ok echo) : Checked (ModbusSlave × Response)) = .ok (s', .ok out)) :
    4 ≤ pdu.length ∧ out = pdu.take 4 := by
  obtain ⟨bank, -, h⟩ := bind_eq_ok h
  obtain ⟨echo, hecho, h⟩ := bind_eq_ok h
  obtain ⟨hfour, rfl⟩ := slice_eq_ok hecho
  cases h
  exact ⟨hfour, rfl⟩

theorem writeMultiRegs_ok {s s' : ModbusSlave} {pdu out : List UInt8}
    (h : writeMultiRegs s pdu = .ok (s', .ok out)) : 4 ≤ pdu.length ∧ out = pdu.take 4 := by
  unfold writeMultiRegs at h
  split_ifs at h
  · cases h
  obtain ⟨start, -, h⟩ := bind_eq_ok h
  obtain ⟨count, -, h⟩ := bind_eq_ok h
  obtain ⟨bytecount, -, h⟩ := bind_eq_ok h
  dsimp only at h
  split_ifs at h
  · cases h
  · cases h
  exact echo_ok h

theorem writeMultiCoils_ok {s s' : ModbusSlave} {pdu out : List UInt8}
    (h : writeMultiCoils s pdu = .ok (s', .ok out)) : 4 ≤ pdu.length ∧ out = pdu.take 4 := by
  unfold writeMultiCoils at h
  split_ifs at h
  · cases h
  obtain ⟨start, -, h⟩ := bind_eq_ok h
  obtain ⟨count, -, h⟩ := bind_eq_ok h
  obtain ⟨bytecount, -, h⟩ := bind_eq_ok h
  dsimp only at h
  split_ifs at h
  · cases h
  · cases h
  exact echo_ok h

/-- The data of a normal answer. -/
inductive Shaped (s : ModbusSlave) (decoded : Except UInt8 Request) (pdu : List UInt8) :
    List UInt8 → Prop
  | read {bank : Bank} {start count : ℕ} {data : List UInt8}
      (h : decoded = .ok (.read bank start count))
      (least : 1 ≤ byteCount bank count) (most : byteCount bank count ≤ 250)
      (bytes : data.length = byteCount bank count)
      (padding : bank = .coils ∨ bank = .discrete →
        ∀ i, count ≤ i → i < data.length * 8 → bitAt data i = some 0) :
      Shaped s decoded pdu (UInt8.ofNat (byteCount bank count) :: data)
  | write {bank : Bank} {start : ℕ} {values : List ℕ}
      (h : decoded = .ok (.write bank start values)) (long : 4 ≤ pdu.length) :
      Shaped s decoded pdu (pdu.take 4)
  | report (h : decoded = .ok .reportSlaveId) : Shaped s decoded pdu (reportSlaveId s)

theorem shaped_of_readRegs {s : ModbusSlave} {pdu out : List UInt8} (input : Bool)
    (h : readRegs s pdu input = .ok (.ok out)) :
    Shaped s (decodeRead (regBank input) 125 pdu) pdu out := by
  obtain ⟨start, count, data, hd, hcount, rfl, hlen⟩ := readRegs_ok h
  have hbytes : byteCount (regBank input) count = count * 2 := by cases input <;> rfl
  rw [← hbytes] at hlen ⊢
  refine .read hd (by omega) (by omega) hlen fun hbit => ?_
  cases input <;> simp [regBank] at hbit

theorem shaped_of_readBits {s : ModbusSlave} {pdu out : List UInt8} (discrete : Bool)
    (h : readBits s pdu discrete = .ok (.ok out)) :
    Shaped s (decodeRead (bitBank discrete) 2000 pdu) pdu out := by
  obtain ⟨start, count, data, hd, hcount, rfl, hlen, hzero⟩ := readBits_ok h
  have hbytes : byteCount (bitBank discrete) count = (count + 7) / 8 := by cases discrete <;> rfl
  rw [← hbytes] at hlen ⊢
  exact .read hd (by omega) (by omega) hlen fun _ => hzero

theorem keeping_ok {s s' : ModbusSlave} {x : Checked Response} {r : Response}
    (h : keeping s x = .ok (s', r)) : x = .ok r := by
  obtain ⟨r', hx, h⟩ := bind_eq_ok h
  cases h
  exact hx

/-- Only a request that decodes is answered normally. -/
theorem Answers.decoded {s s' : ModbusSlave} {decoded : Except UInt8 Request} {out : List UInt8}
    (h : Answers s decoded s' (.ok out)) : ∃ req, decoded = .ok req := by
  cases decoded with
  | ok req => exact ⟨req, rfl⟩
  | error code => exact absurd h.eq_error (by simp)

/-- **A normal answer has the shape its request asks for.** -/
theorem dispatch_shaped {s s' : ModbusSlave} {fc : UInt8} {pdu out : List UInt8}
    (h : dispatch s fc pdu = .ok (s', .ok out)) : Shaped s (decode fc pdu) pdu out := by
  obtain ⟨s'', r, hdispatch, hanswers⟩ := dispatch_answers s fc pdu
  rw [h] at hdispatch
  cases hdispatch
  obtain ⟨req, hd⟩ := hanswers.decoded
  clear hanswers
  have hcode := code_of_decode hd
  simp only [List.mem_cons, List.not_mem_nil, or_false] at hcode
  rcases hcode with rfl | rfl | rfl | rfl | rfl | rfl | rfl | rfl | rfl
  · exact shaped_of_readBits false (keeping_ok h)
  · exact shaped_of_readBits true (keeping_ok h)
  · exact shaped_of_readRegs false (keeping_ok h)
  · exact shaped_of_readRegs true (keeping_ok h)
  · obtain ⟨hlong, rfl⟩ := writeSingleCoil_ok h
    obtain ⟨addr, on, -, rfl⟩ := decodeWriteCoil_eq_ok_iff.mp hd
    exact .write hd hlong
  · obtain ⟨hlong, rfl⟩ := writeSingleReg_ok h
    obtain ⟨addr, value, -, rfl⟩ := decodeWriteReg_eq_ok_iff.mp hd
    exact .write hd hlong
  · obtain ⟨hlong, rfl⟩ := writeMultiCoils_ok h
    obtain ⟨start, values, -, -, rfl⟩ := decodeWriteCoils_eq_ok_iff.mp hd
    exact .write hd hlong
  · obtain ⟨hlong, rfl⟩ := writeMultiRegs_ok h
    obtain ⟨start, values, -, -, rfl⟩ := decodeWriteRegs_eq_ok_iff.mp hd
    exact .write hd hlong
  · cases h
    exact .report rfl

theorem Shaped.length {s : ModbusSlave} {decoded : Except UInt8 Request} {pdu out : List UInt8}
    (h : Shaped s decoded pdu out) (hid : s.slaveId.length ≤ 251) :
    1 ≤ out.length ∧ out.length ≤ 252 := by
  cases h with
  | read h least most bytes padding =>
    rw [List.length_cons]
    omega
  | write h long =>
    rw [List.length_take]
    omega
  | report h =>
    rw [reportSlaveId, List.length_cons]
    omega

/-! ## Legal replies -/

/-- The request is answered with an exception: one was forced, or its handler gives
one. -/
def Refuses (s : ModbusSlave) (fc : UInt8) (pdu : List UInt8) : Prop :=
  s.forceException ≠ none ∨ ∃ s' code, dispatch s fc pdu = .ok (s', .error code)

/-- A legal reply of the slave to a request with this function code and data. -/
structure LegalReply (s : ModbusSlave) (fc : UInt8) (pdu reply : List UInt8) : Prop where
  length : 5 ≤ reply.length ∧ reply.length ≤ 256
  checks : crcOk reply = .ok true
  address : reply[0]? = some s.address
  /-- The top bit of the second byte tells the exceptions. -/
  flag : (∃ b, reply[1]? = some b ∧ b.toNat.testBit 7 = true) ↔ Refuses s fc pdu
  refused : Refuses s fc pdu → ∃ code, reply = appendCrc [s.address, fc ||| 0x80, code]
  normal : ¬ Refuses s fc pdu → reply[1]? = some fc
  read : ¬ Refuses s fc pdu → ∀ bank start count, decode fc pdu = .ok (.read bank start count) →
    ∃ n data, reply = appendCrc (s.address :: fc :: n :: data) ∧ n.toNat = data.length ∧
      data.length = byteCount bank count ∧
      (bank = .coils ∨ bank = .discrete →
        ∀ i, count ≤ i → i < data.length * 8 → bitAt data i = some 0)
  write : ¬ Refuses s fc pdu → ∀ bank start values, decode fc pdu = .ok (.write bank start values) →
    4 ≤ pdu.length ∧ reply = appendCrc (s.address :: fc :: pdu.take 4)

/-- An exception is a legal reply. -/
theorem legalReply_error {s : ModbusSlave} {fc : UInt8} {pdu : List UInt8} (code : UInt8)
    (h : Refuses s fc pdu) : LegalReply s fc pdu (frameOf s.address fc (.error code)) where
  length := ⟨le_rfl, show 5 ≤ 256 by omega⟩
  checks := crcOk_appendCrc (List.cons_ne_nil _ _)
  address := rfl
  flag := ⟨fun _ => h, fun _ => ⟨_, rfl, testBit_seven_or fc⟩⟩
  refused := fun _ => ⟨code, rfl⟩
  normal := fun hnot => absurd h hnot
  read := fun hnot => absurd h hnot
  write := fun hnot => absurd h hnot

/-- A normal answer is a legal reply, when the identity of the slave fits a frame. -/
theorem legalReply_ok {s s' : ModbusSlave} {fc : UInt8} {pdu out : List UInt8}
    (hid : s.slaveId.length ≤ 251) (hfault : s.forceException = none)
    (h : dispatch s fc pdu = .ok (s', .ok out)) :
    LegalReply s fc pdu (frameOf s.address fc (.ok out)) := by
  have hshaped := dispatch_shaped h
  have hnot : ¬ Refuses s fc pdu := by
    rintro (hforced | ⟨s'', code, hcode⟩)
    · exact hforced hfault
    · rw [h] at hcode
      cases hcode
  have hdecoded : ∃ r, decode fc pdu = .ok r := by
    cases hshaped with
    | read h' => exact ⟨_, h'⟩
    | write h' => exact ⟨_, h'⟩
    | report h' => exact ⟨_, h'⟩
  obtain ⟨r, hd⟩ := hdecoded
  refine ⟨?_, crcOk_appendCrc (List.cons_ne_nil _ _), rfl, ?_, fun hyes => absurd hyes hnot,
    fun _ => rfl, ?_, ?_⟩
  · have hlen := hshaped.length hid
    rw [frameOf, length_appendCrc, List.length_cons, List.length_cons]
    omega
  · refine ⟨?_, fun hyes => absurd hyes hnot⟩
    rintro ⟨b, hb, hbit⟩
    cases hb
    rw [testBit_seven_of_decode hd] at hbit
    cases hbit
  · intro _ bank start count hread
    cases hshaped with
    | read h' least most bytes padding =>
      rw [h'] at hread
      cases hread
      refine ⟨_, _, rfl, ?_, bytes, padding⟩
      rw [bytes]
      exact UInt8.toNat_ofNat_of_lt' (Nat.lt_of_le_of_lt most (by decide))
    | write h' long => rw [h'] at hread; cases hread
    | report h' => rw [h'] at hread; cases hread
  · intro _ bank start values hwrite
    cases hshaped with
    | read h' => rw [h'] at hwrite; cases hwrite
    | write h' long => exact ⟨long, rfl⟩
    | report h' => rw [h'] at hwrite; cases hwrite

/-- **Every reply of a slave is legal**, as long as its identity fits a frame. -/
theorem handleFrame_legalReply {s s' : ModbusSlave} {req reply : List UInt8}
    (hid : s.slaveId.length ≤ 251) (h : handleFrame s req = .ok (s', some reply)) :
    ∃ fc pdu, req = appendCrc (s.address :: fc :: pdu) ∧ LegalReply s fc pdu reply := by
  obtain ⟨s'', r, hframe, hhandles⟩ := handleFrame_handles s req
  rw [h] at hframe
  cases hframe
  cases hhandles with
  | @forced fc code pdu hdrop own fault =>
    exact ⟨fc, pdu, own, legalReply_error code (.inl (by rw [fault]; simp))⟩
  | @answered fc pdu _ r hdrop own fault answers =>
    refine ⟨fc, pdu, own, ?_⟩
    obtain ⟨s₁, body, hdispatch, -⟩ := dispatch_answers s fc pdu
    rw [own, handleFrame_of_dispatch hdrop fault hdispatch, Except.ok.injEq, Prod.mk.injEq,
      Option.some.injEq] at h
    rw [← h.2]
    cases body with
    | ok out => exact legalReply_ok hid fault hdispatch
    | error code => exact legalReply_error code (.inr ⟨s₁, code, hdispatch⟩)

/-! ## Report Slave ID -/

/-- How a reply to Report Slave ID would be framed by the rules of the other functions:
data in the request is refused, and a normal reply counts the bytes that follow, which
are the identity, and fits a frame. -/
structure ReportFramed (address : UInt8) (payload pdu reply : List UInt8) : Prop where
  refused : pdu ≠ [] → reply = appendCrc [address, 0x11 ||| 0x80, illegalDataValue]
  empty : reply[1]? = some 0x11 → pdu = []
  counted : reply[1]? = some 0x11 → ∃ n rest, reply = appendCrc (address :: 0x11 :: n :: rest) ∧
    n.toNat = rest.length ∧ rest.take n.toNat = payload
  fits : reply[1]? = some 0x11 → reply.length ≤ 256

theorem handleFrame_reportSlaveId {s : ModbusSlave} (hdrop : s.dropNext = 0)
    (hfault : s.forceException = none) (pdu : List UInt8) :
    handleFrame s (appendCrc (s.address :: 0x11 :: pdu)) =
      .ok (s, some (frameOf s.address 0x11 (.ok (reportSlaveId s)))) :=
  handleFrame_of_dispatch hdrop hfault rfl

theorem reportFramed_iff (address : UInt8) (payload pdu : List UInt8) :
    ReportFramed address payload pdu
        (frameOf address 0x11 (.ok (UInt8.ofNat payload.length :: payload))) ↔
      pdu = [] ∧ payload.length ≤ 251 := by
  have hlen : (frameOf address 0x11 (.ok (UInt8.ofNat payload.length :: payload))).length =
      payload.length + 5 := by
    rw [frameOf, length_appendCrc]
    simp only [List.length_cons]
  constructor
  · intro h
    have hfits := h.fits rfl
    exact ⟨h.empty rfl, by omega⟩
  · rintro ⟨rfl, hshort⟩
    have hcount : (UInt8.ofNat payload.length).toNat = payload.length :=
      UInt8.toNat_ofNat_of_lt' (Nat.lt_of_le_of_lt hshort (by decide))
    refine ⟨fun hne => absurd rfl hne, fun _ => rfl, fun _ => ⟨_, _, rfl, hcount, ?_⟩, fun _ => ?_⟩
    · rw [hcount, List.take_length]
    · omega

/-- **When Report Slave ID is well framed.**  Exactly when the request carries no data
and the identity fits a frame behind its byte count. -/
theorem reportSlaveId_framed_iff {s : ModbusSlave} (payload pdu : List UInt8)
    (hdrop : s.dropNext = 0) (hfault : s.forceException = none) :
    ∃ s' reply, handleFrame (setSlaveId s payload) (appendCrc (s.address :: 0x11 :: pdu)) =
        .ok (s', some reply) ∧
      (ReportFramed s.address payload pdu reply ↔ pdu = [] ∧ payload.length ≤ 251) :=
  ⟨_, _, handleFrame_reportSlaveId (s := setSlaveId s payload) hdrop hfault pdu,
    reportFramed_iff s.address payload pdu⟩

/-- The request and the identity of the source's own test. -/
theorem reportSlaveId_framed_of_test :
    ∃ s' reply, handleFrame (setSlaveId (ModbusSlave.new 7 4 0) [0x42, 0xFF]) (appendCrc [7, 0x11]) =
        .ok (s', some reply) ∧ ReportFramed 7 [0x42, 0xFF] [] reply := by
  obtain ⟨s', reply, hframe, hiff⟩ :=
    reportSlaveId_framed_iff (s := ModbusSlave.new 7 4 0) [0x42, 0xFF] [] rfl rfl
  exact ⟨s', reply, hframe, hiff.mpr ⟨rfl, by decide⟩⟩

/-- A request with a byte of data is answered all the same. -/
theorem reportSlaveId_accepts_data :
    ∃ s' reply, handleFrame (setSlaveId (ModbusSlave.new 7 4 0) [0x42, 0xFF])
        (appendCrc [7, 0x11, 0x00]) = .ok (s', some reply) ∧
      reply = appendCrc [7, 0x11, 2, 0x42, 0xFF] ∧
      ¬ ReportFramed 7 [0x42, 0xFF] [0x00] reply := by
  refine ⟨_, _, handleFrame_reportSlaveId (s := setSlaveId (ModbusSlave.new 7 4 0) [0x42, 0xFF])
    rfl rfl [0x00], rfl, fun h => ?_⟩
  have hempty := ((reportFramed_iff 7 [0x42, 0xFF] [0x00]).mp h).1
  cases hempty

end Sim
end WardenSdk
