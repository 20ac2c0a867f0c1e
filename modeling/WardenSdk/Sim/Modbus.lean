import Mathlib.Algebra.Group.Nat.Defs
import Mathlib.Logic.Function.Iterate
import WardenSdk.Lib.Checked

/-!
# The Modbus slave

The device end of the RS-485 seam, `sim/src/modbus.rs`: a slave in host memory
that is fed a request frame and answers with a response frame, or with silence.

Every index, slice and subtraction of the source is one of the checked
primitives of `Lib.Checked`, so a definition below panics exactly where the
source would.  The outcome of a handler has two layers, as in the source: the
outer `Checked` is the panic, the inner `Except UInt8` is the Modbus exception
code the master is sent.

The narrowing casts of the source are `UInt8.ofNat`, which truncates.
-/

namespace WardenSdk
namespace Sim

open Lib

/-! ## Exception codes -/

def illegalFunction : UInt8 := 0x01
def illegalDataAddress : UInt8 := 0x02
def illegalDataValue : UInt8 := 0x03

/-! ## The checksum -/

/-- One bit of the checksum. -/
def crcShift (crc : UInt16) : UInt16 :=
  if crc &&& 1 ≠ 0 then (crc >>> 1) ^^^ 0xA001 else crc >>> 1

def crc16 (bytes : List UInt8) : UInt16 :=
  bytes.foldl (fun crc b => crcShift^[8] (crc ^^^ b.toUInt16)) 0xFFFF

/-- The checksum on the wire, low byte first. -/
def crcBytes (bytes : List UInt8) : List UInt8 :=
  [(crc16 bytes &&& 0xFF).toUInt8, (crc16 bytes >>> 8).toUInt8]

def appendCrc (frame : List UInt8) : List UInt8 := frame ++ crcBytes frame

def crcOk (frame : List UInt8) : Checked Bool := do
  if frame.length < 3 then return false
  let (body, crc) ← splitAt frame (← checkedSub frame.length 2)
  return crc == crcBytes body

/-! ## The device -/

structure ModbusSlave where
  address : UInt8
  holding : List UInt16
  input : List UInt16
  coils : List Bool
  discrete : List Bool
  slaveId : List UInt8
  /-- Silently drop this many upcoming requests. -/
  dropNext : ℕ
  /-- Answer every request with this exception until cleared. -/
  forceException : Option UInt8
  deriving DecidableEq

def ModbusSlave.new (address : UInt8) (regs bits : ℕ) : ModbusSlave where
  address := address
  holding := List.replicate regs 0
  input := List.replicate regs 0
  coils := List.replicate bits false
  discrete := List.replicate bits false
  slaveId := [0xFF, 0xFF]
  dropNext := 0
  forceException := none

def setHolding (s : ModbusSlave) (addr : ℕ) (v : UInt16) : Checked ModbusSlave := do
  return { s with holding := ← setAt s.holding addr v }

def setInput (s : ModbusSlave) (addr : ℕ) (v : UInt16) : Checked ModbusSlave := do
  return { s with input := ← setAt s.input addr v }

def setCoil (s : ModbusSlave) (addr : ℕ) (v : Bool) : Checked ModbusSlave := do
  return { s with coils := ← setAt s.coils addr v }

def setDiscrete (s : ModbusSlave) (addr : ℕ) (v : Bool) : Checked ModbusSlave := do
  return { s with discrete := ← setAt s.discrete addr v }

def holding (s : ModbusSlave) (addr : ℕ) : Checked UInt16 := index s.holding addr

def coil (s : ModbusSlave) (addr : ℕ) : Checked Bool := index s.coils addr

def setSlaveId (s : ModbusSlave) (id : List UInt8) : ModbusSlave := { s with slaveId := id }

def dropNext (s : ModbusSlave) (n : ℕ) : ModbusSlave := { s with dropNext := n }

def forceException (s : ModbusSlave) (code : UInt8) : ModbusSlave :=
  { s with forceException := some code }

def clearFaults (s : ModbusSlave) : ModbusSlave := { s with dropNext := 0, forceException := none }

/-! ## Words and bits on the wire -/

/-- `u16::from_be_bytes`. -/
def fromBeBytes (hi lo : UInt8) : UInt16 := hi.toUInt16 <<< 8 ||| lo.toUInt16

/-- `u16::to_be_bytes`. -/
def toBeBytes (v : UInt16) : List UInt8 := [(v >>> 8).toUInt8, v.toUInt8]

/-- The word at `i` of a request. -/
def wordAt (pdu : List UInt8) (i : ℕ) : Checked UInt16 := do
  return fromBeBytes (← index pdu i) (← index pdu (i + 1))

/-- `1 << n` on bytes. -/
def bitMask (n : ℕ) : UInt8 := UInt8.ofNat (2 ^ n)

/-- The loop of `read_bits`: bit `i` of the answer goes to bit `i % 8` of byte
`1 + i / 8`. -/
def packBits (out : List UInt8) (bits : List Bool) : Checked (List UInt8) :=
  bits.zipIdx.foldlM (fun out (bit, i) =>
    if bit then do setAt out (1 + i / 8) ((← index out (1 + i / 8)) ||| bitMask (i % 8))
    else return out) out

/-! ## The function codes -/

/-- What a handler answers: the response, or an exception code. -/
abbrev Response := Except UInt8 (List UInt8)

def readRegs (s : ModbusSlave) (pdu : List UInt8) (input : Bool) : Checked Response := do
  if pdu.length ≠ 4 then return .error illegalDataValue
  let start := (← wordAt pdu 0).toNat
  let count := (← wordAt pdu 2).toNat
  if count = 0 ∨ count > 125 then return .error illegalDataValue
  let bank := if input then s.input else s.holding
  if start + count > bank.length then return .error illegalDataAddress
  return .ok (UInt8.ofNat (count * 2) ::
    (← slice bank start (start + count)).flatMap toBeBytes)

def readBits (s : ModbusSlave) (pdu : List UInt8) (discrete : Bool) : Checked Response := do
  if pdu.length ≠ 4 then return .error illegalDataValue
  let start := (← wordAt pdu 0).toNat
  let count := (← wordAt pdu 2).toNat
  if count = 0 ∨ count > 2000 then return .error illegalDataValue
  let bank := if discrete then s.discrete else s.coils
  if start + count > bank.length then return .error illegalDataAddress
  let nbytes := (count + 7) / 8
  return .ok (← packBits (UInt8.ofNat nbytes :: List.replicate nbytes 0)
    (← slice bank start (start + count)))

def writeSingleReg (s : ModbusSlave) (pdu : List UInt8) : Checked (ModbusSlave × Response) := do
  if pdu.length ≠ 4 then return (s, .error illegalDataValue)
  let addr := (← wordAt pdu 0).toNat
  let val ← wordAt pdu 2
  if addr ≥ s.holding.length then return (s, .error illegalDataAddress)
  return ({ s with holding := ← setAt s.holding addr val }, .ok pdu)

def writeSingleCoil (s : ModbusSlave) (pdu : List UInt8) : Checked (ModbusSlave × Response) := do
  if pdu.length ≠ 4 then return (s, .error illegalDataValue)
  let addr := (← wordAt pdu 0).toNat
  let val ← wordAt pdu 2
  if val ≠ 0x0000 ∧ val ≠ 0xFF00 then return (s, .error illegalDataValue)
  if addr ≥ s.coils.length then return (s, .error illegalDataAddress)
  return ({ s with coils := ← setAt s.coils addr (val == 0xFF00) }, .ok pdu)

def writeMultiRegs (s : ModbusSlave) (pdu : List UInt8) : Checked (ModbusSlave × Response) := do
  if pdu.length < 5 then return (s, .error illegalDataValue)
  let start := (← wordAt pdu 0).toNat
  let count := (← wordAt pdu 2).toNat
  let bytecount := (← index pdu 4).toNat
  if count = 0 ∨ count > 123 ∨ bytecount ≠ count * 2 ∨ pdu.length ≠ 5 + bytecount then
    return (s, .error illegalDataValue)
  if start + count > s.holding.length then return (s, .error illegalDataAddress)
  let bank ← (List.range count).foldlM
    (fun bank i => do setAt bank (start + i) (← wordAt pdu (5 + i * 2))) s.holding
  return ({ s with holding := bank }, .ok (← slice pdu 0 4))

def writeMultiCoils (s : ModbusSlave) (pdu : List UInt8) : Checked (ModbusSlave × Response) := do
  if pdu.length < 5 then return (s, .error illegalDataValue)
  let start := (← wordAt pdu 0).toNat
  let count := (← wordAt pdu 2).toNat
  let bytecount := (← index pdu 4).toNat
  if count = 0 ∨ count > 1968 ∨ bytecount ≠ (count + 7) / 8 ∨ pdu.length ≠ 5 + bytecount then
    return (s, .error illegalDataValue)
  if start + count > s.coils.length then return (s, .error illegalDataAddress)
  let bank ← (List.range count).foldlM
    (fun bank i => do
      setAt bank (start + i) ((← index pdu (5 + i / 8)) &&& bitMask (i % 8) != 0)) s.coils
  return ({ s with coils := bank }, .ok (← slice pdu 0 4))

def reportSlaveId (s : ModbusSlave) : List UInt8 := UInt8.ofNat s.slaveId.length :: s.slaveId

/-- A handler that only reads leaves the device as it is. -/
def keeping (s : ModbusSlave) (r : Checked Response) : Checked (ModbusSlave × Response) := do
  return (s, ← r)

def dispatch (s : ModbusSlave) (fc : UInt8) (pdu : List UInt8) :
    Checked (ModbusSlave × Response) :=
  if fc = 0x01 then keeping s (readBits s pdu false)
  else if fc = 0x02 then keeping s (readBits s pdu true)
  else if fc = 0x03 then keeping s (readRegs s pdu false)
  else if fc = 0x04 then keeping s (readRegs s pdu true)
  else if fc = 0x05 then writeSingleCoil s pdu
  else if fc = 0x06 then writeSingleReg s pdu
  else if fc = 0x0F then writeMultiCoils s pdu
  else if fc = 0x10 then writeMultiRegs s pdu
  else if fc = 0x11 then return (s, .ok (reportSlaveId s))
  else return (s, .error illegalFunction)

/-- The response frame around what a handler answered. -/
def frameOf (address fc : UInt8) : Response → List UInt8
  | .ok data => appendCrc (address :: fc :: data)
  | .error code => appendCrc [address, fc ||| 0x80, code]

def handleFrame (s : ModbusSlave) (req : List UInt8) :
    Checked (ModbusSlave × Option (List UInt8)) := do
  if s.dropNext > 0 then return ({ s with dropNext := ← checkedSub s.dropNext 1 }, none)
  -- the checksum is only computed for a frame that is long enough
  if req.length < 4 then return (s, none)
  if !(← crcOk req) then return (s, none)
  if (← index req 0) ≠ s.address then return (s, none)
  let fc ← index req 1
  let pdu ← slice req 2 (← checkedSub req.length 2)
  let (s', body) ← match s.forceException with
    | some code => pure (s, .error code)
    | none => dispatch s fc pdu
  return (s', some (frameOf s.address fc body))

end Sim
end WardenSdk
