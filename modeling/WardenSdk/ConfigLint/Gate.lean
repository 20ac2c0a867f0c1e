import WardenSdk.Lib.Numeral

/-!
# The gate

`tools/config-lint/src/lib.rs` checks a loader `.ini` against a devicetree: every
address that the loader drops coprocessor firmware to must sit inside a
`reserved-memory` node.  This module holds the data the two parsers produce and the
check over it.
-/

namespace WardenSdk
namespace ConfigLint

open Lib

/-- One firmware load declared by the loader `.ini`. -/
structure McuLoad where
  loader : Text
  name : Text
  loadAddr : UInt64
  deriving DecidableEq

/-- A `reserved-memory` range, from `start` up to but not including
`start + size`. -/
structure Range where
  start : UInt64
  size : UInt64
  deriving DecidableEq

/-- `u64::saturating_add`, as a number. -/
def saturatingAdd (a b : UInt64) : ℕ := min (a.toNat + b.toNat) (2 ^ 64 - 1)

def Range.contains (r : Range) (addr : UInt64) : Bool :=
  addr ≥ r.start && addr.toNat < saturatingAdd r.start r.size

structure Finding where
  load : McuLoad
  msg : Text
  deriving DecidableEq

def parseAddr (s : Text) : Option UInt64 :=
  match h : parsePrefixed 64 (trim s) with
  | some n => some (UInt64.ofNatLT n (parsePrefixed_lt h))
  | none => none

/-- A numeral is read as an address. -/
theorem parseAddr_text (n : Numeral 64) :
    parseAddr n.text = some (.ofNatLT n.value n.value_lt) := by
  have hread : parsePrefixed 64 (trim n.text) = some n.value := by
    rw [trim_of_no_space n.not_isWhitespace_text, n.parsePrefixed_text]
  unfold parseAddr
  split
  · rename_i m h
    obtain rfl : m = n.value := Option.some_inj.mp (h.symm.trans hread)
    rfl
  · rename_i h
    rw [hread] at h
    cases h

def findingFor (l : McuLoad) : Finding where
  load := l
  msg := l.loader ++ "=".toList ++ l.name ++ " loads MCU firmware at ".toList ++
    hexadecimal l.loadAddr.toNat ++ (" but no reserved-memory node covers it: " ++
      "kernel/MCU DRAM collision (the 0x40000 brick class)").toList

def check (loads : List McuLoad) (reserved : List Range) : List Finding :=
  (loads.filter fun l => !reserved.any fun r => r.contains l.loadAddr).map findingFor

/-- With nothing reserved every load is a finding. -/
theorem check_nil (loads : List McuLoad) : check loads [] = loads.map findingFor := by
  simp [check]

end ConfigLint
end WardenSdk
