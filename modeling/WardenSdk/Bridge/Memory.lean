import WardenSdk.Bridge.Control
import WardenSdk.Lib.Memory

/-!
# The field bus is a register memory

A session is any interleaving of control lines and serial frames, with the replies
they got.  `written` reads off one exchange the writes that it made, from the
request and the reply alone: a writing frame answered normally, or a seeding line
answered `ok`.  `reported` reads off the values that a reply reports, and for which
cells.  Neither looks at the state of the bus.

The bus is then a memory over its sessions: what a reply reports of a cell is the
most recent value written to it, whoever wrote it, and zero before.  The invariant
that carries this, `Session.Sound`, also keeps the banks at their declared sizes,
which is what keeps the bus from panicking.
-/

namespace WardenSdk
namespace Bridge

open Lib Sim

/-! ## Sessions -/

inductive BusEvent where
  | line (text : Text)
  | frame (bytes : List UInt8)
  deriving DecidableEq

inductive BusReply where
  | line (reply : ControlReply)
  | frame (reply : Option (List UInt8))
  deriving DecidableEq

def serve (bus : Bus) : BusEvent → Checked (Bus × BusReply)
  | .line text => do
    let (bus, reply) ← handleControlLine text bus
    return (bus, .line reply)
  | .frame bytes => do
    let (slave, reply) ← handleFrame bus.slave bytes
    return ({ bus with slave }, .frame reply)

abbrev Exchange := BusEvent × BusReply

structure Session where
  bus : Bus
  log : List Exchange
  deriving DecidableEq

def Session.next (t : Session) (e : BusEvent) : Checked Session := do
  let (bus, reply) ← serve t.bus e
  return ⟨bus, t.log ++ [(e, reply)]⟩

/-- The bus after the events, with the exchanges that led there. -/
def session (bus : Bus) (es : List BusEvent) : Checked Session :=
  runChecked Session.next ⟨bus, []⟩ es

/-! ## What an exchange says -/

/-- The function code and the data of a frame, between its address and its
checksum. -/
def bodyOf : List UInt8 → Option (UInt8 × List UInt8)
  | _ :: fc :: rest => some (fc, rest.take (rest.length - 2))
  | _ => none

def requestOf (req : List UInt8) : Option Request := do
  let (fc, pdu) ← bodyOf req
  (decode fc pdu).toOption

/-- The data of a normal answer, which repeats the function code. -/
def answerOf (req : List UInt8) (reply : Option (List UInt8)) : Option (List UInt8) := do
  let (fc, _) ← bodyOf req
  let (fc', data) ← bodyOf (← reply)
  if fc' = fc then some data else none

/-- The writes an exchange made. -/
def written : Exchange → List (Cell × ℕ)
  | (.frame req, .frame reply) =>
    match requestOf req, answerOf req reply with
    | some (.write bank start values), some _ => stretch bank start values
    | _, _ => []
  | (.line text, .line .ok) => (seedOf text).toList
  | _ => []

/-- The cells a reply reports on, each with the value it reports, if it carries
one. -/
def reported : Exchange → List (Cell × Option ℕ)
  | (.frame req, .frame reply) =>
    match requestOf req, answerOf req reply with
    | some (.read bank start count), some data =>
      (List.range count).map fun i => ((bank, start + i), valueAt bank (data.drop 1) i)
    | _, _ => []
  | (.line text, .line .ok) => (queryOf text).toList.map fun cell => (cell, none)
  | (.line text, .line (.okValue v)) => (queryOf text).toList.map fun cell => (cell, some v)
  | _ => []

/-- Answered by silence, by an exception or by `err`. -/
def Refused : Exchange → Prop
  | (.frame _, .frame none) => True
  | (.frame req, .frame (some reply)) =>
    ∃ fc fc', (bodyOf req).map Prod.fst = some fc ∧ (bodyOf reply).map Prod.fst = some fc' ∧
      fc' = fc ||| 0x80
  | (.line _, .line (.err _)) => True
  | _ => False

/-- The byte count in front of the values of a read says how many bytes carry
them. -/
def Counted : Exchange → Prop
  | (.frame req, .frame reply) => ∀ bank start count data,
    requestOf req = some (.read bank start count) → answerOf req reply = some data →
      ∃ n rest, data = n :: rest ∧ n.toNat = byteCount bank count
  | _ => True

/-! ## One exchange -/

@[simp] theorem bodyOf_appendCrc (address fc : UInt8) (data : List UInt8) :
    bodyOf (appendCrc (address :: fc :: data)) = some (fc, data) := by
  show some (fc, (data ++ crcBytes _).take ((data ++ crcBytes _).length - 2)) = _
  rw [List.length_append, show (crcBytes (address :: fc :: data)).length = 2 from rfl,
    Nat.add_sub_cancel, List.take_left]

theorem requestOf_appendCrc (address fc : UInt8) (pdu : List UInt8) :
    requestOf (appendCrc (address :: fc :: pdu)) = (decode fc pdu).toOption := by
  rw [requestOf, bodyOf_appendCrc]
  rfl

theorem answerOf_silence (req : List UInt8) : answerOf req none = none := by
  cases h : bodyOf req <;> simp [answerOf, h]

theorem answerOf_frameOf_ok (address fc : UInt8) (pdu data : List UInt8) :
    answerOf (appendCrc (address :: fc :: pdu)) (some (frameOf address fc (.ok data))) =
      some data := by
  simp [answerOf, frameOf]

theorem answerOf_frameOf_error (address fc code : UInt8) (pdu : List UInt8)
    (h : fc ||| 0x80 ≠ fc) :
    answerOf (appendCrc (address :: fc :: pdu)) (some (frameOf address fc (.error code))) =
      none := by
  simp [answerOf, frameOf, h]

/-- Only function codes without the exception bit decode. -/
theorem or_ne_of_decode {fc : UInt8} {pdu : List UInt8} {r : Request}
    (h : decode fc pdu = .ok r) : fc ||| 0x80 ≠ fc := by
  intro hor
  have hbit := testBit_seven_or fc
  rw [hor, testBit_seven_of_decode h] at hbit
  cases hbit

/-- An exception answers no request. -/
theorem requestOf_or_answerOf_error (address fc code : UInt8) (pdu : List UInt8) :
    requestOf (appendCrc (address :: fc :: pdu)) = none ∨
      answerOf (appendCrc (address :: fc :: pdu)) (some (frameOf address fc (.error code))) =
        none := by
  rw [requestOf_appendCrc]
  cases h : decode fc pdu with
  | error e => exact .inl rfl
  | ok r => exact .inr (answerOf_frameOf_error address fc code pdu (or_ne_of_decode h))

/-- Only an answered read carries a byte count. -/
theorem counted_of_ne_read {req : List UInt8} {reply : Option (List UInt8)}
    (h : ∀ bank start count, requestOf req ≠ some (.read bank start count)) :
    Counted (.frame req, .frame reply) :=
  fun bank start count _ hreq _ => absurd hreq (h bank start count)

/-- What one exchange does, seen against a log that the banks agree with. -/
structure Exchanged (log : List (Cell × ℕ)) (bus bus' : Bus) (x : Exchange) : Prop where
  sized : bus'.Sized
  regs : bus'.regs = bus.regs
  bits : bus'.bits = bus.bits
  recalls : Recalls 0 (log ++ written x) (cells bus'.slave)
  reports : ∀ cell v, (cell, v) ∈ reported x → v = some (lastWrite 0 log cell)
  refused : Refused x → cells bus'.slave = cells bus.slave
  counted : Counted x

section Exchanges

variable {log : List (Cell × ℕ)} {bus : Bus} (hsized : bus.Sized)
  (hrecalls : Recalls 0 log (cells bus.slave))

include hsized hrecalls

/-- An exchange that leaves the banks alone and writes nothing. -/
theorem Exchanged.of_cells_eq {slave : ModbusSlave} {x : Exchange}
    (hcells : cells slave = cells bus.slave) (hwritten : written x = [])
    (hreports : ∀ cell v, (cell, v) ∈ reported x → v = some (lastWrite 0 log cell))
    (hcounted : Counted x) : Exchanged log bus { bus with slave } x where
  sized := fun bank => by rw [hcells]; exact hsized bank
  regs := rfl
  bits := rfl
  recalls := by rw [hwritten, List.append_nil, hcells]; exact hrecalls
  reports := hreports
  refused := fun _ => hcells
  counted := hcounted

/-- An exchange that overwrites a stretch of a bank. -/
theorem Exchanged.of_overwrite {slave : ModbusSlave} {x : Exchange} {bank : Bank} {start : ℕ}
    {values : List ℕ} (hfits : start + values.length ≤ (cells bus.slave bank).length)
    (hcells : cells slave =
      Function.update (cells bus.slave) bank (overwrite (cells bus.slave bank) start values))
    (hwritten : written x = stretch bank start values) (hreported : reported x = [])
    (hrefused : ¬ Refused x) (hcounted : Counted x) : Exchanged log bus { bus with slave } x where
  sized := by
    intro b
    rw [hcells]
    by_cases hb : b = bank
    · subst hb
      rw [Function.update_self, length_overwrite hfits]
      exact hsized b
    · rw [Function.update_of_ne hb]
      exact hsized b
  regs := rfl
  bits := rfl
  recalls := by rw [hwritten, hcells]; exact hrecalls.overwrite hfits
  reports := fun cell v h => by rw [hreported] at h; cases h
  refused := fun h => absurd h hrefused
  counted := hcounted

/-- A frame that gets no normal answer, or asks for nothing. -/
theorem Exchanged.of_unanswered {slave : ModbusSlave} {req : List UInt8}
    {reply : Option (List UInt8)} (hcells : cells slave = cells bus.slave)
    (h : requestOf req = none ∨ answerOf req reply = none) :
    Exchanged log bus { bus with slave } (.frame req, .frame reply) := by
  refine Exchanged.of_cells_eq hsized hrecalls hcells ?_ ?_ ?_
  · rcases h with h | h <;> simp [written, h]
  · intro cell v hmem
    rcases h with h | h <;> simp [reported, h] at hmem
  · intro bank start count data hreq hans
    rcases h with h | h
    · rw [h] at hreq; cases hreq
    · rw [h] at hans; cases hans

/-- A read that is answered with the stretch it names. -/
theorem Exchanged.of_read {address fc n : UInt8} {pdu data : List UInt8} {bank : Bank}
    {start count : ℕ} (hd : decode fc pdu = .ok (.read bank start count))
    (inside : start + count ≤ (cells bus.slave bank).length)
    (bytes : n.toNat = byteCount bank count)
    (values : ∀ i < count, valueAt bank data i = (cells bus.slave bank)[start + i]?) :
    Exchanged log bus bus (.frame (appendCrc (address :: fc :: pdu)),
      .frame (some (frameOf address fc (.ok (n :: data))))) := by
  have hreq := requestOf_appendCrc address fc pdu
  rw [hd] at hreq
  have hans := answerOf_frameOf_ok address fc pdu (n :: data)
  refine .of_cells_eq hsized hrecalls rfl (by simp [written, hreq, Except.toOption]) ?_ ?_
  · intro cell v hmem
    simp only [reported, hreq, Except.toOption, hans, List.mem_map, List.mem_range] at hmem
    obtain ⟨i, hi, hpair⟩ := hmem
    cases hpair
    show valueAt bank data i = _
    rw [values i hi, List.getElem?_eq_getElem (by omega)]
    exact congrArg some (hrecalls bank _ _ (List.getElem?_eq_getElem (by omega)))
  · intro bank' start' count' data' hreq' hans'
    rw [hreq] at hreq'
    rw [hans] at hans'
    cases hreq'
    cases hans'
    exact ⟨n, data, rfl, bytes⟩

/-- A write that is answered, and replaces the stretch it names. -/
theorem Exchanged.of_write {address fc : UInt8} {pdu echo : List UInt8} {slave : ModbusSlave}
    {bank : Bank} {start : ℕ} {values : List ℕ}
    (hd : decode fc pdu = .ok (.write bank start values))
    (inside : start + values.length ≤ (cells bus.slave bank).length)
    (banks : cells slave =
      Function.update (cells bus.slave) bank (overwrite (cells bus.slave bank) start values)) :
    Exchanged log bus { bus with slave } (.frame (appendCrc (address :: fc :: pdu)),
      .frame (some (frameOf address fc (.ok echo)))) := by
  have hreq := requestOf_appendCrc address fc pdu
  rw [hd] at hreq
  have hans := answerOf_frameOf_ok address fc pdu echo
  refine .of_overwrite hsized hrecalls inside banks (by simp [written, hreq, hans, Except.toOption])
    (by simp [reported, hreq, Except.toOption]) ?_ (counted_of_ne_read (by simp [hreq, Except.toOption]))
  rintro ⟨fc₁, fc₂, h₁, h₂, h₃⟩
  rw [bodyOf_appendCrc] at h₁
  rw [frameOf, bodyOf_appendCrc] at h₂
  cases h₁
  cases h₂
  exact or_ne_of_decode hd h₃.symm

/-- **A frame keeps the bus in step.** -/
theorem frame_exchanged {slave : ModbusSlave} {req : List UInt8} {reply : Option (List UInt8)}
    (h : Handles bus.slave req slave reply) :
    Exchanged log bus { bus with slave } (.frame req, .frame reply) := by
  cases h with
  | dropped h => exact .of_unanswered hsized hrecalls rfl (.inr (answerOf_silence req))
  | ignored h foreign => exact .of_unanswered hsized hrecalls rfl (.inr (answerOf_silence req))
  | forced h own fault =>
    subst own
    exact .of_unanswered hsized hrecalls rfl (requestOf_or_answerOf_error _ _ _ _)
  | @answered fc pdu s' r h own fault answers =>
    subst own
    cases answers with
    | refused hd =>
      exact .of_unanswered hsized hrecalls rfl (requestOf_or_answerOf_error _ _ _ _)
    | readOutside hd outside =>
      exact .of_unanswered hsized hrecalls rfl (requestOf_or_answerOf_error _ _ _ _)
    | writeOutside hd outside =>
      exact .of_unanswered hsized hrecalls rfl (requestOf_or_answerOf_error _ _ _ _)
    | read hd inside bytes values => exact .of_read hsized hrecalls hd inside bytes values
    | write hd inside banks settings => exact .of_write hsized hrecalls hd inside banks
    | report hd =>
      have hreq := requestOf_appendCrc bus.slave.address fc pdu
      rw [hd] at hreq
      refine .of_cells_eq hsized hrecalls rfl (by simp [written, hreq, Except.toOption])
        (fun cell v hmem => ?_) (counted_of_ne_read (by simp [hreq, Except.toOption]))
      simp [reported, hreq, Except.toOption] at hmem

/-- **A line keeps the bus in step.** -/
theorem line_exchanged {bus' : Bus} {line : Text} {reply : ControlReply}
    (h : Controls bus line bus' reply) : Exchanged log bus bus' (.line line, .line reply) := by
  cases h with
  | refused =>
    exact .of_cells_eq hsized hrecalls rfl rfl (fun cell v h => absurd h List.not_mem_nil) trivial
  | faults seed query banks =>
    refine .of_cells_eq hsized hrecalls banks (by simp [written, seed]) (fun cell v h => ?_) trivial
    simp [reported, query] at h
  | @seeded bank addr value slave seed query inside banks =>
    refine .of_overwrite hsized hrecalls ?_ banks (by simp [written, seed, stretch])
      (by simp [reported, query]) (fun h => h) trivial
    rw [hsized bank]
    exact inside
  | @got bank addr value query found =>
    refine .of_cells_eq hsized hrecalls rfl rfl (fun cell v h => ?_) trivial
    simp only [reported, query, Option.toList_some, List.map_singleton, List.mem_singleton] at h
    cases h
    exact congrArg some (hrecalls bank addr value found)

end Exchanges

/-! ## Whole sessions -/

/-- The bus has its declared sizes and holds what the exchanges so far wrote. -/
structure Session.Sound (regs bits : ℕ) (t : Session) : Prop where
  sized : t.bus.Sized
  regs : t.bus.regs = regs
  bits : t.bus.bits = bits
  recalls : Recalls 0 (t.log.flatMap written) (cells t.bus.slave)
  counted : ∀ x ∈ t.log, Counted x

theorem Session.sound_new (address : UInt8) (regs bits : ℕ) :
    Session.Sound regs bits ⟨Bus.new address regs bits, []⟩ where
  sized := Bus.sized_new address regs bits
  regs := rfl
  bits := rfl
  recalls := by
    intro b a v hv
    have hzero : v = 0 := by
      have hmem := List.mem_of_getElem? hv
      cases b <;> simp [Bus.new, ModbusSlave.new, cells] at hmem <;> exact hmem.2
    rw [hzero]
    rfl
  counted := fun x h => absurd h List.not_mem_nil

/-- One event, from a sound session. -/
theorem Session.Sound.serve {regs bits : ℕ} {t : Session} (h : t.Sound regs bits) (e : BusEvent) :
    ∃ bus' reply, Bridge.serve t.bus e = .ok (bus', reply) ∧
      Exchanged (t.log.flatMap written) t.bus bus' (e, reply) := by
  cases e with
  | line text =>
    obtain ⟨bus', reply, hline, hcontrols⟩ := handleControlLine_controls h.sized text
    exact ⟨bus', .line reply, by rw [Bridge.serve, hline]; rfl,
      line_exchanged h.sized h.recalls hcontrols⟩
  | frame bytes =>
    obtain ⟨slave, reply, hframe, hhandles⟩ := handleFrame_handles t.bus.slave bytes
    exact ⟨_, .frame reply, by rw [Bridge.serve, hframe]; rfl,
      frame_exchanged h.sized h.recalls hhandles⟩

theorem Session.Sound.next {regs bits : ℕ} (t : Session) (e : BusEvent) (h : t.Sound regs bits) :
    ∃ t', t.next e = .ok t' ∧ t'.Sound regs bits := by
  obtain ⟨bus', reply, hserve, hx⟩ := h.serve e
  refine ⟨_, by rw [Session.next, hserve]; rfl, hx.sized, hx.regs.trans h.regs,
    hx.bits.trans h.bits, ?_, ?_⟩
  · rw [List.flatMap_append, List.flatMap_singleton]
    exact hx.recalls
  · intro x hmem
    rcases List.mem_append.mp hmem with hold | hnew
    · exact h.counted x hold
    · rw [List.mem_singleton.mp hnew]
      exact hx.counted

theorem session_sound (address : UInt8) (regs bits : ℕ) (es : List BusEvent) :
    ∃ t, session (Bus.new address regs bits) es = .ok t ∧ t.Sound regs bits :=
  runChecked_invariant Session.Sound.next (Session.sound_new address regs bits) es

/-- A line answered `err` leaves the bus as it was, faults included. -/
theorem eq_of_serve_err {bus bus' : Bus} (hsized : bus.Sized) {e : BusEvent} {reason : Text}
    (h : serve bus e = .ok (bus', .line (.err reason))) : bus' = bus := by
  cases e with
  | line text =>
    obtain ⟨bus'', reply, hline, hcontrols⟩ := handleControlLine_controls hsized text
    rw [serve, hline] at h
    cases h
    cases hcontrols
    rfl
  | frame bytes =>
    obtain ⟨slave, reply, hframe, -⟩ := handleFrame_handles bus.slave bytes
    rw [serve, hframe] at h
    cases h

/-- **The field bus is a register memory.**  After any session, whatever is said to
the bus next is answered, and the answer reports for each cell that it covers the
most recent value written to that cell in the session, or zero.  Silence, an
exception and `err` change no bank, and `err` changes no fault setting. -/
theorem bus_is_register_memory (address : UInt8) (regs bits : ℕ) (es : List BusEvent)
    (e : BusEvent) :
    ∃ t bus' reply, session (Bus.new address regs bits) es = .ok t ∧
      serve t.bus e = .ok (bus', reply) ∧
      (∀ cell v, (cell, v) ∈ reported (e, reply) →
        v = some (lastWrite 0 (t.log.flatMap written) cell)) ∧
      (Refused (e, reply) → cells bus'.slave = cells t.bus.slave) ∧
      (∀ reason, reply = .line (.err reason) →
        bus'.slave.dropNext = t.bus.slave.dropNext ∧
          bus'.slave.forceException = t.bus.slave.forceException) := by
  obtain ⟨t, ht, hsound⟩ := session_sound address regs bits es
  obtain ⟨bus', reply, hserve, hx⟩ := hsound.serve e
  refine ⟨t, bus', reply, ht, hserve, hx.reports, hx.refused, ?_⟩
  rintro reason rfl
  rw [eq_of_serve_err hsound.sized hserve]
  exact ⟨rfl, rfl⟩

/-- **The field bus never panics.**  Every session runs to its end, the banks keep
their sizes, and the byte count of every answered read is the number of bytes its
values take, so narrowing it to a byte lost nothing. -/
theorem session_never_panics (address : UInt8) (regs bits : ℕ) (es : List BusEvent) :
    ∃ t, session (Bus.new address regs bits) es = .ok t ∧
      t.bus.slave.holding.length = regs ∧ t.bus.slave.input.length = regs ∧
      t.bus.slave.coils.length = bits ∧ t.bus.slave.discrete.length = bits ∧
      ∀ req reply bank start count data, (.frame req, .frame reply) ∈ t.log →
        requestOf req = some (.read bank start count) → answerOf req reply = some data →
        ∃ n rest, data = n :: rest ∧ n.toNat = byteCount bank count := by
  obtain ⟨t, ht, hsound⟩ := session_sound address regs bits es
  refine ⟨t, ht, hsound.regs ▸ hsound.sized.length_holding,
    hsound.regs ▸ hsound.sized.length_input, hsound.bits ▸ hsound.sized.length_coils,
    hsound.bits ▸ hsound.sized.length_discrete, ?_⟩
  intro req reply bank start count data hmem
  exact hsound.counted _ hmem bank start count data

end Bridge
end WardenSdk
