import WardenSdk.Lib.Chunks
import WardenSdk.Lib.Word

/-!
# A job of the NPU

What user space submits to the driver of `patches/45-npu-rknpu.patch`, and what the
driver writes into the registers of the engine for it.  A job is an array of tasks, of
which `task_number` are to be run from `task_start` on; the engine takes at most
`max_submit_number` of them at a time, so a long job is committed in parts.

The SoC has one core and one interrupt (`rknpu_irqs`), and `num_irqs` is one throughout.
Fences, which only hold a submission back, are left out.
-/

namespace WardenSdk
namespace Npu

open Lib

/-- What the driver knows of a chip. -/
structure Config where
  pcDataAmountScale : ℕ
  pcTaskNumberBits : ℕ
  pcTaskNumberMask : UInt32
  maxSubmitNumber : ℕ

/-- `struct rknpu_task`. -/
structure Task where
  intMask : UInt32
  regcfgAmount : UInt32
  regcmdAddr : UInt64

def rknpuJobPc : UInt32 := 1
def rknpuJobNonblock : UInt32 := 2
def rknpuJobPingpong : UInt32 := 4

/-- `struct rknpu_submit`. -/
structure Submit where
  flags : UInt32
  taskStart : UInt32
  taskNumber : UInt32
  /-- The tasks of the object that `task_obj_addr` leads to. -/
  taskObj : Option (ℤ → Task)
  taskBaseAddr : UInt64

def Submit.has (args : Submit) (flag : UInt32) : Bool := args.flags &&& flag != 0

def einval : ℤ := 22
def etimedout : ℤ := 110

/-- `struct rknpu_job`; the flags of the job itself are `done` and `async`. -/
structure Job where
  args : Submit
  done : Bool
  async : Bool
  ret : ℤ
  runCount : ℤ
  interruptCount : ℤ
  submitCount : ℕ
  irqEntry : Bool
  intMask : UInt32
  intStatus : UInt32
  lastTask : Option Task
  /-- `kfree` has been called. -/
  freed : Bool

/-- `rknpu_job_alloc`: one core is in the mask. -/
def rknpuJobAlloc (args : Submit) : Job where
  args
  done := false
  async := args.has rknpuJobNonblock
  ret := 0
  runCount := 1
  interruptCount := 1
  submitCount := 0
  irqEntry := false
  intMask := 0
  intStatus := 0
  lastTask := none
  freed := false

def rknpuGetTaskNumber (args : Submit) : ℤ := cInt args.taskNumber

/-- How many parts of the job have to be done before it is. -/
def submits (cfg : Config) (args : Submit) : ℤ :=
  (rknpuGetTaskNumber args + cfg.maxSubmitNumber - 1).tdiv cfg.maxSubmitNumber

/-- The registers of the engine, in the order of their writes. -/
structure Program where
  pcDataAddr : UInt32
  pcDataAmount : UInt32
  intMask : UInt32
  intClear : UInt32
  pcTaskControl : UInt32
  pcDmaBaseAddr : UInt32

/-- `RKNPU_PC_DATA_EXTRA_AMOUNT`. -/
def rknpuPcDataExtraAmount : ℕ := 4

/-- A part of a job: where its tasks begin, the last of them, and the registers. -/
structure Part where
  taskStart : ℤ
  last : Task
  program : Program

/-- `rknpu_job_subcore_commit_pc`, where `index` is the number of the part. -/
def rknpuJobSubcoreCommitPc (cfg : Config) (args : Submit) (tasks : ℤ → Task) (index : ℕ) : Part :=
  let taskPpEn : UInt32 := if args.has rknpuJobPingpong then 1 else 0
  let taskStart := cInt args.taskStart + index * cfg.maxSubmitNumber
  let rest := cInt args.taskNumber - index * cfg.maxSubmitNumber
  let taskNumber := if rest > cfg.maxSubmitNumber then (cfg.maxSubmitNumber : ℤ) else rest
  let taskEnd := taskStart + taskNumber - 1
  let first := tasks taskStart
  let last := tasks taskEnd
  { taskStart, last
    program :=
      { pcDataAddr := first.regcmdAddr.toUInt32
        pcDataAmount :=
          (first.regcfgAmount + rknpuPcDataExtraAmount.toUInt32 + cfg.pcDataAmountScale.toUInt32 - 1) /
            cfg.pcDataAmountScale.toUInt32 - 1
        intMask := last.intMask
        intClear := first.intMask
        pcTaskControl := (6 ||| taskPpEn) <<< cfg.pcTaskNumberBits.toUInt32 ||| cWord taskNumber
        pcDmaBaseAddr := args.taskBaseAddr.toUInt32 } }

/-- `rknpu_fuzz_status`. -/
def rknpuFuzzStatus (status : UInt32) : UInt32 :=
  [0x3, 0xc, 0x30, 0xc0, 0x300, 0xc00].foldl
    (fun fuzz pair => if status &&& pair != 0 then fuzz ||| pair else fuzz) 0

/-! ## The parts of a job -/

/-- The tasks that the engine runs for a part: as many as the control register says. -/
def Part.tasks (cfg : Config) (part : Part) : List ℕ :=
  List.range' part.taskStart.toNat (part.program.pcTaskControl &&& cfg.pcTaskNumberMask).toNat

/-- The numbers of a chip belong together: the longest part can be written into the
low bits of the control register. -/
structure Config.Sound (cfg : Config) : Prop where
  pos : 0 < cfg.maxSubmitNumber
  bits : cfg.pcTaskNumberBits ≤ 29
  longest : cfg.maxSubmitNumber < 2 ^ cfg.pcTaskNumberBits
  mask : cfg.pcTaskNumberMask.toNat = 2 ^ cfg.pcTaskNumberBits - 1

/-- A job whose numbers are nonnegative as an `int`. -/
structure Submit.Fits (args : Submit) : Prop where
  pos : 0 < args.taskNumber.toNat
  lt : args.taskStart.toNat + args.taskNumber.toNat < 2 ^ 31

end Npu
end WardenSdk
