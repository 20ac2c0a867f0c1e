import Mathlib.Data.UInt
import Mathlib.Logic.Function.Basic
import WardenSdk.Lib.Run

/-!
# The relay driver

`drivers/relays/relays.c`: two relays hang on GPIO pins that the driver reaches
through the files of `/sys/class/gpio`.  A page that shows a relay has to export
its pin and make it an output, and the relay may be holding a contactor closed
while that happens.

The file system is behind a seam of four primitives (`struct relay_io`), and so
it is here.  `Host` is the outside world the driver runs against:

* `pins`, every pin of the chip: whether it has a node, its direction and its
  level;
* `ok`, which of the calls of the seam succeed, by their number; a failing call
  answers `false` and has no effect;
* `log`, the calls made so far with the pins after each, newest first.

The tree follows the kernel: `export` makes a node and changes neither direction
nor level, `direction` takes `high` and `low` (an output at that level), `out`
and `in`, and `value` sets the level of an output.  A path means a file of the
tree by `decode`, which reads it character by character, so a wrong path or a
wrong number would be another file or none.

The driver's functions carry the names of the source.  Every path is formatted
into a buffer of a fixed size, which `snprintf` cuts off.
-/

namespace WardenSdk
namespace Relays

open Lib

abbrev CString := List Char

/-! ## The tree -/

/-- A pin of the GPIO chip. -/
@[ext]
structure Pin where
  exported : Bool
  output : Bool
  level : Bool
  deriving DecidableEq

/-- A file of the tree. -/
inductive Node where
  | export
  | gpio (g : ℕ)
  | direction (g : ℕ)
  | value (g : ℕ)
  deriving DecidableEq

def sysfsRoot : CString := "/sys/class/gpio".toList

/-- The decimal number a text is, if it is one. -/
def readDecimal (s : CString) : Option ℕ :=
  if s ≠ [] ∧ s.all Char.isDigit then
    some (s.foldl (fun n c => 10 * n + (c.toNat - '0'.toNat)) 0)
  else none

/-- The file of a pin named by what follows `gpio` in a path: the number in its
usual decimal form, and nothing, `/direction` or `/value`. -/
def decodePin (rest : CString) : Option Node :=
  let digits := rest.takeWhile Char.isDigit
  let tail := rest.dropWhile Char.isDigit
  match readDecimal digits with
  | none => none
  | some g =>
    if digits ≠ Nat.toDigits 10 g then none
    else if tail = [] then some (.gpio g)
    else if tail = "/direction".toList then some (.direction g)
    else if tail = "/value".toList then some (.value g)
    else none

/-- The file a path means. -/
def decode (p : CString) : Option Node :=
  let dir := sysfsRoot ++ ['/']
  if !dir.isPrefixOf p then none
  else
    let name := p.drop dir.length
    if name = "export".toList then some .export
    else if "gpio".toList.isPrefixOf name then decodePin (name.drop 4)
    else none

abbrev Pins := ℕ → Pin

/-- Whether `stat` finds the file. -/
def present (pins : Pins) : Node → Bool
  | .export => true
  | .gpio g => (pins g).exported
  | .direction g => (pins g).exported
  | .value g => (pins g).exported

/-- The pins after a write that reaches the file. -/
def written (pins : Pins) (v : CString) : Node → Pins
  | .export =>
    match readDecimal v with
    | some g => Function.update pins g { pins g with exported := true }
    | none => pins
  | .gpio _ => pins
  | .direction g =>
    if v = "high".toList then Function.update pins g { pins g with output := true, level := true }
    else if v = "low".toList ∨ v = "out".toList then
      Function.update pins g { pins g with output := true, level := false }
    else if v = "in".toList then Function.update pins g { pins g with output := false }
    else pins
  | .value g =>
    if (pins g).output = false then pins
    else if v = "0".toList then Function.update pins g { pins g with level := false }
    else if v = "1".toList then Function.update pins g { pins g with level := true }
    else pins

/-- The first line of a file. -/
def line (pins : Pins) : Node → Option CString
  | .export => none
  | .gpio _ => none
  | .direction g => some (if (pins g).output then "out\n".toList else "in\n".toList)
  | .value g => some (if (pins g).level then "1\n".toList else "0\n".toList)

/-- The number a file starts with. -/
def number (pins : Pins) : Node → Option ℤ
  | .export => none
  | .gpio _ => none
  | .direction _ => none
  | .value g => some (if (pins g).level then 1 else 0)

/-! ## The seam -/

/-- A call of `struct relay_io`. -/
inductive IoCall where
  | exists (path : CString)
  | write (path value : CString)
  | readLine (path : CString) (n : ℕ)
  | readInt (path : CString)
  deriving DecidableEq

/-- The pin a call is about: the one whose file it opens, or the one it exports. -/
def IoCall.pin : IoCall → Option ℕ
  | .exists path => (decode path).bind onNode
  | .write path value =>
    match decode path with
    | some .export => readDecimal value
    | node => node.bind onNode
  | .readLine path _ => (decode path).bind onNode
  | .readInt path => (decode path).bind onNode
where
  onNode : Node → Option ℕ
    | .export => none
    | .gpio g => some g
    | .direction g => some g
    | .value g => some g

/-- A call, and the pins right after it. -/
structure Visit where
  call : IoCall
  pins : Pins

/-- The outside world of the driver. -/
structure Host where
  pins : Pins
  ok : ℕ → Bool
  log : List Visit

namespace Host

def start (pins : Pins) (ok : ℕ → Bool) : Host := ⟨pins, ok, []⟩

/-- Whether the next call succeeds. -/
def next (h : Host) : Bool := h.ok h.log.length

/-- The world after a call that leaves the pins at `pins`. -/
def visit (h : Host) (call : IoCall) (pins : Pins) : Host :=
  { h with pins, log := ⟨call, pins⟩ :: h.log }

/-- The file a call reaches: it succeeds, the path means a file, and it is there. -/
def reach (h : Host) (path : CString) : Option Node :=
  if h.next then (decode path).filter (present h.pins) else none

def «exists» (h : Host) (path : CString) : Bool × Host :=
  ((h.reach path).isSome, h.visit (.exists path) h.pins)

/-- Best effort: a write that fails leaves everything as it is. -/
def write (h : Host) (path value : CString) : Host :=
  h.visit (.write path value) ((h.reach path).elim h.pins (written h.pins value))

/-- `fgets`: at most `n - 1` characters of the line. -/
def readLine (h : Host) (path : CString) (n : ℕ) : Option CString × Host :=
  (((h.reach path).bind (line h.pins)).map (·.take (n - 1)), h.visit (.readLine path n) h.pins)

def readInt (h : Host) (path : CString) : Option ℤ × Host :=
  ((h.reach path).bind (number h.pins), h.visit (.readInt path) h.pins)

end Host

/-! ## The driver -/

def wardenRelayCount : ℕ := 2

/-- GPIO1_A0 and GPIO1_A1. -/
def sGpio : List ℕ := [32, 33]

/-- The root of the tree, from the environment. -/
def gpioRoot (env : Option CString) : CString :=
  match env with
  | some (c :: r) => c :: r
  | _ => sysfsRoot

@[simp] theorem gpioRoot_none : gpioRoot none = sysfsRoot := rfl

/-- What fits into a buffer of `n` characters with the terminator. -/
def snprintf (n : ℕ) (s : CString) : CString := s.take (n - 1)

section

variable (root : CString)

def nodePath (gpio : ℕ) : CString :=
  snprintf 80 (root ++ "/gpio".toList ++ Nat.toDigits 10 gpio)

def exportPath : CString := snprintf 80 (root ++ "/export".toList)

def directionPath (gpio : ℕ) : CString :=
  snprintf 96 (root ++ "/gpio".toList ++ Nat.toDigits 10 gpio ++ "/direction".toList)

def valuePath (gpio : ℕ) : CString :=
  snprintf 96 (root ++ "/gpio".toList ++ Nat.toDigits 10 gpio ++ "/value".toList)

def exported (h : Host) (gpio : ℕ) : Bool × Host := h.exists (nodePath root gpio)

/-- The first half of `ensure_ready`: a pin without a node is exported, and then
looked for once more. -/
def ensureExported (h : Host) (gpio : ℕ) : Bool × Host :=
  let e := exported root h gpio
  if e.1 then e
  else exported root (e.2.write (exportPath root) (snprintf 16 (Nat.toDigits 10 gpio))) gpio

/-- The switch to an output, at the level read a moment before. -/
def switchToOutput (h : Host) (gpio : ℕ) : Host :=
  let v := h.readInt (valuePath root gpio)
  -- a value that cannot be read counts as 0
  let cur := v.1.getD 0
  v.2.write (directionPath root gpio) (if cur ≠ 0 then "high".toList else "low".toList)

/-- Export and set the direction, without disturbing the level. -/
def ensureReady (h : Host) (gpio : ℕ) : Bool × Host :=
  let e := ensureExported root h gpio
  if !e.1 then (false, e.2)
  else
    let d := e.2.readLine (directionPath root gpio) 16
    match d.1 with
    | none => (false, d.2)
    | some dir =>
      if dir.take 3 ≠ "out".toList then (true, switchToOutput root d.2 gpio) else (true, d.2)

def wardenRelayAvailable (h : Host) (idx : UInt32) : Bool × Host :=
  if idx.toNat ≥ wardenRelayCount then (false, h)
  else ensureReady root h (sGpio.getD idx.toNat 0)

def wardenRelayGet (h : Host) (idx : UInt32) : Bool × Host :=
  if idx.toNat ≥ wardenRelayCount then (false, h)
  else
    let e := exported root h (sGpio.getD idx.toNat 0)
    if !e.1 then (false, e.2)
    else
      let v := e.2.readInt (valuePath root (sGpio.getD idx.toNat 0))
      (decide (v.1.getD 0 ≠ 0), v.2)

def wardenRelaySet (h : Host) (idx : UInt32) (on : Bool) : Host :=
  if idx.toNat ≥ wardenRelayCount then h
  else
    let e := ensureReady root h (sGpio.getD idx.toNat 0)
    if !e.1 then e.2
    else
      e.2.write (valuePath root (sGpio.getD idx.toNat 0)) (if on then "1".toList else "0".toList)

end

end Relays
end WardenSdk
