import WardenSdk.Lib.Checked
import WardenSdk.Lib.Shell

/-!
# The partition layout

`qemu/lib.sh` reads a layout string such as `vda:32K(env),512K@32K(idblock)` and calls
a function once for each entry `SIZE[@OFFSET](NAME)`, with the name, the offset and the
size in bytes.  An entry without an offset begins where the one before it ends.

An entry is a word of an unquoted expansion; that it names a file of the working
directory by a pattern is left out.
-/

namespace WardenSdk
namespace Qemu

open Lib

structure Partition where
  name : Text
  off : ℤ
  size : ℤ
  deriving DecidableEq

/-- The number in front of a unit, and the unit. -/
def splitUnit (v : Text) : Text × ℤ :=
  match v.getLast? with
  | some 'K' => (withoutFinal 'K' v, 1024)
  | some 'M' => (withoutFinal 'M' v, 1048576)
  | some 'G' => (withoutFinal 'G' v, 1073741824)
  | _ => (v, 1)

def qemuToBytes (v : Text) : Script ℤ :=
  let (n, mult) := splitUnit v
  if n = [] ∨ n.any (!·.isDigit) then
    .error (.fatal ("FATAL: bad blkdevparts size/offset token: '".toList ++ v ++ "'".toList))
  else
    match arithmeticConstant n with
    | none => .error .arithmetic
    | some n => .ok (wrap64 (n * mult))

/-- One entry, where `off` is the end of the one before it. -/
def readEntry (entry : Text) (off : ℤ) : Script Partition := do
  let name := withoutFinal ')' (afterLast '(' entry)
  let sizeS := beforeFirst '(' entry
  let offS := afterFirst '@' sizeS
  if offS ≠ sizeS then
    let off ← qemuToBytes offS
    let size ← qemuToBytes (beforeLast '@' sizeS)
    return ⟨name, off, size⟩
  else
    let size ← qemuToBytes sizeS
    return ⟨name, off, size⟩

section Each

variable {σ : Type}

/-- The loop of `qemu_each_partition`, with the state that its callback works on. -/
def eachEntry (cb : σ → Partition → Script σ) : List Text → ℤ → σ → Script σ
  | [], _, st => .ok st
  | entry :: rest, off, st => do
    let p ← readEntry entry off
    let st ← cb st p
    eachEntry cb rest (wrap64 (p.off + p.size)) st

def qemuEachPartition (cb : σ → Partition → Script σ) (blkdevparts : Text) (st : σ) : Script σ :=
  eachEntry cb (fields ',' (afterFirst ':' blkdevparts)) 0 st

/-- The partitions of a layout: the arguments of the callback, one call after the
other. -/
def partitions (blkdevparts : Text) : Script (List Partition) :=
  qemuEachPartition (fun ps p => .ok (ps ++ [p])) blkdevparts []

/-- **The loop is the callback over the partitions**, once all the entries can be
read. -/
theorem eachEntry_eq_foldlM (cb : σ → Partition → Script σ) {entries : List Text} {off : ℤ}
    {acc ps : List Partition}
    (h : eachEntry (fun ps p => .ok (ps ++ [p])) entries off acc = .ok ps) :
    ∃ new, ps = acc ++ new ∧ ∀ st, eachEntry cb entries off st = new.foldlM cb st := by
  induction entries generalizing off acc with
  | nil =>
    cases h
    exact ⟨[], (List.append_nil _).symm, fun _ => rfl⟩
  | cons entry rest ih =>
    obtain ⟨p, hp, h⟩ := bind_eq_ok h
    obtain ⟨new, rfl, hfold⟩ := ih h
    refine ⟨p :: new, by rw [List.append_assoc, List.singleton_append], fun st => ?_⟩
    rw [eachEntry, hp, List.foldlM_cons]
    exact bind_congr hfold

theorem qemuEachPartition_of_partitions {blkdevparts : Text} {ps : List Partition}
    (h : partitions blkdevparts = .ok ps) (cb : σ → Partition → Script σ) (st : σ) :
    qemuEachPartition cb blkdevparts st = ps.foldlM cb st := by
  obtain ⟨new, rfl, hfold⟩ := eachEntry_eq_foldlM cb h
  exact hfold st

/-- A loop that ends has read all its entries. -/
theorem exists_partitions {cb : σ → Partition → Script σ} {entries : List Text} {off : ℤ}
    {st st' : σ} (h : eachEntry cb entries off st = .ok st') (acc : List Partition) :
    ∃ ps, eachEntry (fun ps p => .ok (ps ++ [p])) entries off acc = .ok ps := by
  induction entries generalizing off st acc with
  | nil => exact ⟨acc, rfl⟩
  | cons entry rest ih =>
    obtain ⟨p, hp, h⟩ := bind_eq_ok h
    obtain ⟨st₁, -, h⟩ := bind_eq_ok h
    rw [eachEntry, hp]
    exact ih h (acc ++ [p])

theorem qemuEachPartition_eq_ok {cb : σ → Partition → Script σ} {blkdevparts : Text} {st st' : σ}
    (h : qemuEachPartition cb blkdevparts st = .ok st') :
    ∃ ps, partitions blkdevparts = .ok ps ∧ ps.foldlM cb st = .ok st' := by
  obtain ⟨ps, hps⟩ := exists_partitions h []
  exact ⟨ps, hps, (qemuEachPartition_of_partitions hps cb st).symm.trans h⟩

end Each

example : partitions "vda:32K(env),512K@32K(idblock),010(uboot)".toList =
    .ok [⟨"env".toList, 0, 32768⟩, ⟨"idblock".toList, 32768, 524288⟩,
      ⟨"uboot".toList, 557056, 8⟩] := by decide +kernel

end Qemu
end WardenSdk
