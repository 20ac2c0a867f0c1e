import WardenSdk.Lib.Text
import WardenSdk.Sim.ModbusMemory

/-!
# The control channel

One command a line scripts the simulated bus from a test harness: fault injection
and the seeding and reading of registers (`handle_control_line` of
`qemu/rs485-bridge/src/lib.rs`).  The setters of the slave panic on a bad index,
so each arm checks the address against its own bound first.

A reply is kept as what it says, `ok`, `ok <value>` or `err <reason>`;
`ControlReply.text` is the line that is sent.  `seedOf` and `queryOf` say what a
line asks for, and `handleControlLine_controls` that the bus does it or answers
`err`, and never panics, as long as the banks have their declared sizes.
-/

namespace WardenSdk
namespace Bridge

open Lib Sim

/-! ## The bus -/

/-- The slave with its declared dimensions. -/
structure Bus where
  slave : ModbusSlave
  regs : ℕ
  bits : ℕ
  deriving DecidableEq

def Bus.new (address : UInt8) (regs bits : ℕ) : Bus where
  slave := ModbusSlave.new address regs bits
  regs := regs
  bits := bits

inductive ControlReply where
  | ok
  | okValue (value : ℕ)
  | err (reason : Text)
  deriving DecidableEq

def ControlReply.text : ControlReply → Text
  | .ok => "ok".toList
  | .okValue value => "ok ".toList ++ decimal value
  | .err reason => "err ".toList ++ reason

/-! ## Arguments

An argument that cannot be used is refused with the reason to send. -/

def quoted (s : Text) : Text := "'".toList ++ s ++ "'".toList

def parseU16 (s : Text) : Option UInt16 :=
  match h : parsePrefixed 16 s with
  | some n => some (UInt16.ofNatLT n (parsePrefixed_lt h))
  | none => none

/-- `n.parse::<usize>()`. -/
def parseUsize (s : Text) : Option ℕ := fromStrRadix 64 10 s

def outOfRange (a : UInt16) (bound : ℕ) : Text :=
  "address ".toList ++ decimal a.toNat ++ " out of range (0..".toList ++ decimal bound ++ ")".toList

def expectedPair (kv : Text) : Text := "expected <addr>=<value>, got ".toList ++ quoted kv

def parseAddrVal (kv : Text) (bound : ℕ) : Except Text (ℕ × UInt16) :=
  match splitOnce '=' kv with
  | none => .error (expectedPair kv)
  | some (a, v) =>
    match parseU16 a, parseU16 v with
    | some a, some v =>
      if a.toNat ≥ bound then .error (outOfRange a bound) else .ok (a.toNat, v)
    | _, _ => .error (expectedPair kv)

def parseAddr (a : Text) (bound : ℕ) : Except Text ℕ :=
  match parseU16 a with
  | some v => if v.toNat < bound then .ok v.toNat else .error (outOfRange v bound)
  | none => .error ("bad address ".toList ++ quoted a)

/-! ## Commands -/

/-- The bus after one of the slave's setters. -/
def Bus.seeded (bus : Bus) (slave : Checked ModbusSlave) : Checked (Bus × ControlReply) := do
  return ({ bus with slave := ← slave }, .ok)

def handleControlLine (line : Text) (bus : Bus) : Checked (Bus × ControlReply) :=
  match splitWhitespace line with
  | [] => return (bus, .err "empty command".toList)
  | [cmd] =>
    if cmd = "ping".toList then return (bus, .ok)
    else if cmd = "clear".toList then return ({ bus with slave := clearFaults bus.slave }, .ok)
    else return (bus, .err ("unknown or malformed command ".toList ++ quoted line))
  | [cmd, arg] =>
    if cmd = "drop".toList then
      match parseUsize arg with
      | some n => return ({ bus with slave := dropNext bus.slave n }, .ok)
      | none => return (bus, .err ("bad count ".toList ++ quoted arg))
    else if cmd = "exception".toList then
      match parseU16 arg with
      | some c =>
        if c ≤ 0xff then return ({ bus with slave := forceException bus.slave c.toUInt8 }, .ok)
        else return (bus, .err ("bad exception code ".toList ++ quoted arg))
      | none => return (bus, .err ("bad exception code ".toList ++ quoted arg))
    else if cmd = "holding".toList ∨ cmd = "input".toList then
      match parseAddrVal arg bus.regs with
      | .ok (a, v) =>
        if cmd = "holding".toList then bus.seeded (setHolding bus.slave a v)
        else bus.seeded (setInput bus.slave a v)
      | .error e => return (bus, .err e)
    else if cmd = "coil".toList ∨ cmd = "discrete".toList then
      match parseAddrVal arg bus.bits with
      | .ok (a, v) =>
        if cmd = "coil".toList then bus.seeded (setCoil bus.slave a (v != 0))
        else bus.seeded (setDiscrete bus.slave a (v != 0))
      | .error e => return (bus, .err e)
    else if cmd = "get-holding".toList then
      match parseAddr arg bus.regs with
      | .ok a => return (bus, .okValue (← holding bus.slave a).toNat)
      | .error e => return (bus, .err e)
    else if cmd = "get-coil".toList then
      match parseAddr arg bus.bits with
      | .ok a => return (bus, .okValue (← coil bus.slave a).toNat)
      | .error e => return (bus, .err e)
    else return (bus, .err ("unknown or malformed command ".toList ++ quoted line))
  | cmd :: _ => return (bus, .err ("trailing arguments after ".toList ++ quoted cmd))

/-! ## What a line asks for -/

/-- One value of one bank. -/
abbrev Cell := Bank × ℕ

def seedBank (cmd : Text) : Option Bank :=
  if cmd = "holding".toList then some .holding
  else if cmd = "input".toList then some .input
  else if cmd = "coil".toList then some .coils
  else if cmd = "discrete".toList then some .discrete
  else none

def queryBank (cmd : Text) : Option Bank :=
  if cmd = "get-holding".toList then some .holding
  else if cmd = "get-coil".toList then some .coils
  else none

/-- What a bank keeps of a word: a bit bank only whether it is zero. -/
def stored : Bank → UInt16 → ℕ
  | .holding | .input => UInt16.toNat
  | .coils | .discrete => fun v => (v != 0).toNat

/-- The write a seeding line asks for. -/
def seedOf (line : Text) : Option (Cell × ℕ) :=
  match splitWhitespace line with
  | [cmd, kv] => do
    let bank ← seedBank cmd
    let (a, v) ← splitOnce '=' kv
    let addr ← parseU16 a
    return ((bank, addr.toNat), stored bank (← parseU16 v))
  | _ => none

/-- The cell a reading line asks for. -/
def queryOf (line : Text) : Option Cell :=
  match splitWhitespace line with
  | [cmd, a] => do return (← queryBank cmd, (← parseU16 a).toNat)
  | _ => none

/-- The declared size of a bank. -/
def Bus.bound (bus : Bus) : Bank → ℕ
  | .holding | .input => bus.regs
  | .coils | .discrete => bus.bits

/-- The banks have their declared sizes. -/
def Bus.Sized (bus : Bus) : Prop := ∀ bank, (cells bus.slave bank).length = bus.bound bank

theorem Bus.sized_new (address : UInt8) (regs bits : ℕ) : (Bus.new address regs bits).Sized := by
  intro bank
  cases bank <;> simp [Bus.new, ModbusSlave.new, cells, Bus.bound]

/-- What the bus may do with a line. -/
inductive Controls (bus : Bus) (line : Text) : Bus → ControlReply → Prop
  | refused {reason : Text} : Controls bus line bus (.err reason)
  | faults {slave : ModbusSlave} (seed : seedOf line = none) (query : queryOf line = none)
      (banks : cells slave = cells bus.slave) : Controls bus line { bus with slave } .ok
  | seeded {bank : Bank} {addr value : ℕ} {slave : ModbusSlave}
      (seed : seedOf line = some ((bank, addr), value)) (query : queryOf line = none)
      (inside : addr < bus.bound bank)
      (banks : cells slave =
        Function.update (cells bus.slave) bank (overwrite (cells bus.slave bank) addr [value])) :
      Controls bus line { bus with slave } .ok
  | got {bank : Bank} {addr value : ℕ} (query : queryOf line = some (bank, addr))
      (found : (cells bus.slave bank)[addr]? = some value) :
      Controls bus line bus (.okValue value)

theorem parseAddrVal_ok {kv : Text} {bound a : ℕ} {v : UInt16}
    (h : parseAddrVal kv bound = .ok (a, v)) :
    ∃ s t w, splitOnce '=' kv = some (s, t) ∧ parseU16 s = some w ∧ parseU16 t = some v ∧
      w.toNat = a ∧ a < bound := by
  unfold parseAddrVal at h
  split at h
  · cases h
  · rename_i s t hsplit
    split at h
    · rename_i w v' hs ht
      split at h
      · cases h
      · cases h
        exact ⟨s, t, w, hsplit, hs, ht, rfl, by omega⟩
    · cases h

theorem parseAddr_ok {s : Text} {bound a : ℕ} (h : parseAddr s bound = .ok a) :
    ∃ w, parseU16 s = some w ∧ w.toNat = a ∧ a < bound := by
  unfold parseAddr at h
  split at h
  · rename_i w hs
    split at h
    · cases h
      exact ⟨w, hs, rfl, by assumption⟩
    · cases h
  · cases h

theorem seedOf_eq_none {line cmd arg : Text} (hwords : splitWhitespace line = [cmd, arg])
    (h : seedBank cmd = none) : seedOf line = none := by
  simp only [seedOf, hwords, h, bind, Option.bind]

theorem queryOf_eq_none {line cmd arg : Text} (hwords : splitWhitespace line = [cmd, arg])
    (h : queryBank cmd = none) : queryOf line = none := by
  simp only [queryOf, hwords, h, bind, Option.bind]

theorem queryBank_of_seedBank {cmd : Text} {b : Bank} (h : seedBank cmd = some b) :
    queryBank cmd = none := by
  unfold seedBank at h
  split_ifs at h with h₁ h₂ h₃ h₄
  · subst h₁; rfl
  · subst h₂; rfl
  · subst h₃; rfl
  · subst h₄; rfl

/-- The arms that seed a bank: a setter that overwrites one cell of it. -/
theorem seeded_controls {bus : Bus} {line cmd kv : Text} {b : Bank} {bound : ℕ}
    {w : ℕ → UInt16 → Checked ModbusSlave} (hwords : splitWhitespace line = [cmd, kv])
    (hbank : seedBank cmd = some b) (hbound : bus.bound b = bound)
    (hset : ∀ a v, a < bound → ∃ slave, w a v = .ok slave ∧
      cells slave = Function.update (cells bus.slave) b
        (overwrite (cells bus.slave b) a [stored b v])) :
    ∃ bus' reply, (match parseAddrVal kv bound with
      | .ok (a, v) => bus.seeded (w a v)
      | .error e => return (bus, .err e)) = .ok (bus', reply) ∧ Controls bus line bus' reply := by
  cases hparse : parseAddrVal kv bound with
  | error e => exact ⟨bus, _, rfl, .refused⟩
  | ok p =>
    obtain ⟨a, v⟩ := p
    obtain ⟨s, t, c, hsplit, hs, ht, rfl, hlt⟩ := parseAddrVal_ok hparse
    obtain ⟨slave, hslave, hcells⟩ := hset c.toNat v hlt
    have hseed : seedOf line = some ((b, c.toNat), stored b v) := by
      simp only [seedOf, hwords, hbank, hsplit, hs, ht, bind, Option.bind, pure]
    refine ⟨_, _, ?_,
      .seeded hseed (queryOf_eq_none hwords (queryBank_of_seedBank hbank)) (hbound ▸ hlt) hcells⟩
    show bus.seeded (w c.toNat v) = _
    rw [hslave]
    rfl

/-- The arms that read a cell back. -/
theorem got_controls {α : Type} {bus : Bus} {line cmd arg : Text} {b : Bank} {bound : ℕ}
    {g : ℕ → Checked α} {f : α → ℕ} (hwords : splitWhitespace line = [cmd, arg])
    (hbank : queryBank cmd = some b)
    (hget : ∀ a < bound, ∃ v, g a = .ok v ∧ (cells bus.slave b)[a]? = some (f v)) :
    ∃ bus' reply, (match parseAddr arg bound with
      | .ok a => do return (bus, ControlReply.okValue (f (← g a)))
      | .error e => return (bus, ControlReply.err e)) = Except.ok (bus', reply) ∧
        Controls bus line bus' reply := by
  cases hparse : parseAddr arg bound with
  | error e => exact ⟨bus, _, rfl, .refused⟩
  | ok a =>
    obtain ⟨w, hs, rfl, hlt⟩ := parseAddr_ok hparse
    obtain ⟨v, hv, hcell⟩ := hget w.toNat hlt
    have hquery : queryOf line = some (b, w.toNat) := by
      simp only [queryOf, hwords, hbank, hs, bind, Option.bind, pure]
    refine ⟨_, _, ?_, .got hquery hcell⟩
    show (do return (bus, ControlReply.okValue (f (← g w.toNat)))) = _
    rw [hv]
    rfl

theorem Bus.Sized.length_holding {bus : Bus} (h : bus.Sized) :
    bus.slave.holding.length = bus.regs := (List.length_map _).symm.trans (h .holding)

theorem Bus.Sized.length_input {bus : Bus} (h : bus.Sized) :
    bus.slave.input.length = bus.regs := (List.length_map _).symm.trans (h .input)

theorem Bus.Sized.length_coils {bus : Bus} (h : bus.Sized) :
    bus.slave.coils.length = bus.bits := (List.length_map _).symm.trans (h .coils)

theorem Bus.Sized.length_discrete {bus : Bus} (h : bus.Sized) :
    bus.slave.discrete.length = bus.bits := (List.length_map _).symm.trans (h .discrete)

/-- **Every line is answered.**  On a bus whose banks have their declared sizes
no line panics, and the bus does what the line asks or refuses it. -/
theorem handleControlLine_controls {bus : Bus} (hsized : bus.Sized) (line : Text) :
    ∃ bus' reply, handleControlLine line bus = .ok (bus', reply) ∧
      Controls bus line bus' reply := by
  unfold handleControlLine
  split
  · exact ⟨_, _, rfl, .refused⟩
  · rename_i cmd hwords
    have hseed : seedOf line = none := by simp only [seedOf, hwords]
    have hquery : queryOf line = none := by simp only [queryOf, hwords]
    split_ifs
    · exact ⟨_, _, rfl, .faults hseed hquery rfl⟩
    · exact ⟨_, _, rfl, .faults hseed hquery rfl⟩
    · exact ⟨_, _, rfl, .refused⟩
  · rename_i cmd arg hwords
    split_ifs with hdrop hexception hregs hholding hbits hcoil hget hget'
    · subst hdrop
      split
      · exact ⟨_, _, rfl, .faults (seedOf_eq_none hwords rfl) (queryOf_eq_none hwords rfl) rfl⟩
      · exact ⟨_, _, rfl, .refused⟩
    · subst hexception
      split
      · split_ifs
        · exact ⟨_, _, rfl, .faults (seedOf_eq_none hwords rfl) (queryOf_eq_none hwords rfl) rfl⟩
        · exact ⟨_, _, rfl, .refused⟩
      · exact ⟨_, _, rfl, .refused⟩
    · subst hholding
      refine seeded_controls (w := setHolding bus.slave) hwords rfl rfl fun a v ha => ?_
      obtain ⟨l, hl, hmap⟩ := setAt_map UInt16.toNat (hsized.length_holding ▸ ha) v
      exact ⟨_, by rw [setHolding, hl]; rfl, by rw [cells_setHolding, hmap]; rfl⟩
    · obtain rfl := hregs.resolve_left hholding
      refine seeded_controls (w := setInput bus.slave) hwords rfl rfl fun a v ha => ?_
      obtain ⟨l, hl, hmap⟩ := setAt_map UInt16.toNat (hsized.length_input ▸ ha) v
      exact ⟨_, by rw [setInput, hl]; rfl, by rw [cells_setInput, hmap]; rfl⟩
    · subst hcoil
      refine seeded_controls (w := fun a v => setCoil bus.slave a (v != 0)) hwords rfl rfl
        fun a v ha => ?_
      obtain ⟨l, hl, hmap⟩ := setAt_map Bool.toNat (hsized.length_coils ▸ ha) (v != 0)
      exact ⟨_, by rw [setCoil, hl]; rfl, by rw [cells_setCoils, hmap]; rfl⟩
    · obtain rfl := hbits.resolve_left hcoil
      refine seeded_controls (w := fun a v => setDiscrete bus.slave a (v != 0)) hwords rfl rfl
        fun a v ha => ?_
      obtain ⟨l, hl, hmap⟩ := setAt_map Bool.toNat (hsized.length_discrete ▸ ha) (v != 0)
      exact ⟨_, by rw [setDiscrete, hl]; rfl, by rw [cells_setDiscrete, hmap]; rfl⟩
    · subst hget
      refine got_controls (g := holding bus.slave) (f := UInt16.toNat) (b := .holding)
        hwords rfl fun a ha => ?_
      have hv := List.getElem?_eq_getElem (hsized.length_holding ▸ ha : a < bus.slave.holding.length)
      exact ⟨_, index_of_getElem? hv, by rw [cells, List.getElem?_map, hv]; rfl⟩
    · subst hget'
      refine got_controls (g := coil bus.slave) (f := Bool.toNat) (b := .coils)
        hwords rfl fun a ha => ?_
      have hv := List.getElem?_eq_getElem (hsized.length_coils ▸ ha : a < bus.slave.coils.length)
      exact ⟨_, index_of_getElem? hv, by rw [cells, List.getElem?_map, hv]; rfl⟩
    · exact ⟨_, _, rfl, .refused⟩
  · exact ⟨_, _, rfl, .refused⟩

end Bridge
end WardenSdk
