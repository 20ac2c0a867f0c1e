import Mathlib.Logic.Function.Basic
import WardenSdk.Lib.Pool
import WardenSdk.Lib.Run
import WardenSdk.Npu.Job

/-!
# The job scheduler of the NPU

`rknpu_job.c` in `patches/45-npu-rknpu.patch`, for the one core of the SoC.  Calls of
`rknpu_submit`, the interrupt handler and the deferred frees run side by side.  Each of
them is a thread that stands at a stage; a step of a thread is what it does up to the next
point where another one may come between: a critical section of `irq_lock`, an atomic
counter, the register writes of a commit, the lines from the setting of `RKNPU_JOB_DONE`
to the wake-up.  The kernel runs one handler of an interrupt line at a time.

The SoC has one CPU, and the kernel is taken not to preempt itself, so that nobody comes
between the lines of a handler, nor another thread between those of a thread that does not
sleep.  Two steps rest on it where the source holds no lock: `.finish`, in which a waiter
that saw the flag on another CPU could free the job before its fence and its flags are
read, and `.timeoutClean`, in which the job could be freed between the read of
`subcore_data->job` and that of its time stamp.

Whether the engine has been started and has not been seen to be done is part of the state,
as are the jobs in the order in which they were queued and in which they were taken off,
and the parts that were committed.
-/

namespace WardenSdk
namespace Npu

open Lib

/-- Who runs a piece of the driver. -/
inductive Who where
  /-- A call of `rknpu_submit`, for the job that it has allocated. -/
  | submitter (job : ℕ)
  | handler
  /-- `cleanup_work` of a job. -/
  | worker (job : ℕ)
  deriving DecidableEq

/-- What a thread is about to do. -/
inductive Stage where
  | timeoutClean
  | drop (job : ℕ)
  | drain (job : ℕ)
  | schedule
  | next
  | count (job : ℕ)
  | commit (job : ℕ)
  | wait
  | waited (ret : ℤ)
  | result
  | abort
  /-- `rknpu_soft_reset`, in front of the free, or of the drop of a job. -/
  | reset (dropped : Option ℕ)
  | resetting (dropped : Option ℕ)
  | cleanup
  | status (job : ℕ)
  | done (job : ℕ)
  | release (job : ℕ)
  | finish (job : ℕ)
  deriving DecidableEq

structure Thread where
  who : Who
  stage : Stage
  deriving DecidableEq

def Thread.at (t : Thread) (stage : Stage) : Thread := { t with stage }

/-- `struct rknpu_device`, with the data of its core. -/
structure Device where
  jobs : ℕ → Job
  /-- The number of the next job. -/
  fresh : ℕ
  todoList : List ℕ
  job : Option ℕ
  taskNum : ℤ
  softReseting : Bool
  resetLock : Bool
  started : Bool
  queued : List ℕ
  released : List ℕ
  commits : List (ℕ × Part)

def Device.setJob (d : Device) (j : ℕ) (f : Job → Job) : Device :=
  { d with jobs := Function.update d.jobs j (f (d.jobs j)) }

/-- After `rknpu_job_next`, or after `rknpu_job_schedule`. -/
def Device.afterNext (d : Device) (t : Thread) : List Thread :=
  match t.who with
  | .submitter o =>
    let args := (d.jobs o).args
    if !args.has rknpuJobNonblock && args.has rknpuJobPc then [t.at .wait] else [t.at .result]
  | _ => []

def rknpuJobNext (d : Device) (t : Thread) : Device × List Thread :=
  if d.softReseting then (d, d.afterNext t)
  else
    match d.job, d.todoList with
    | none, j :: rest => ({ d with todoList := rest, job := some j }, [t.at (.count j)])
    | _, _ => (d, d.afterNext t)

/-- `rknpu_job_commit`, where the mask has one core. -/
def rknpuJobCommit (cfg : Config) (d : Device) (j : ℕ) : Device :=
  let job := d.jobs j
  if !job.args.has rknpuJobPc then d.setJob j ({ · with ret := -einval })
  else
    match job.args.taskObj with
    | none => d.setJob j ({ · with ret := -einval })
    | some tasks =>
      let part := rknpuJobSubcoreCommitPc cfg job.args tasks job.submitCount
      { d.setJob j ({ · with lastTask := some part.last, intMask := part.last.intMask }) with
        started := true
        commits := d.commits ++ [(j, part)] }

/-- The first lines of `rknpu_job_done`. -/
def rknpuJobDone (cfg : Config) (d : Device) (t : Thread) (j : ℕ) : Device × List Thread :=
  let count := (d.jobs j).submitCount + 1
  (d.setJob j ({ · with submitCount := count }),
    [t.at (if (count : ℤ) < submits cfg (d.jobs j).args then .commit j else .release j)])

/-- `irq_lock` is held while the core is given free. -/
def rknpuJobRelease (d : Device) (t : Thread) (j : ℕ) : Device × List Thread :=
  ({ d with
      job := none
      taskNum := d.taskNum - rknpuGetTaskNumber (d.jobs j).args
      released := d.released ++ [j] },
    [t.at (.finish j)])

/-- The job is done when its last interrupt has come.  The handler holds no lock here; on one
CPU the waiter does not run before it has returned. -/
def rknpuJobFinish (d : Device) (t : Thread) (j : ℕ) : Device × List Thread :=
  let job := d.jobs j
  if job.interruptCount - 1 = 0 then
    (d.setJob j ({ · with interruptCount := job.interruptCount - 1, done := true, ret := 0 }),
      t.at .next :: if job.async then [⟨.worker j, .cleanup⟩] else [])
  else (d.setJob j ({ · with interruptCount := job.interruptCount - 1 }), [t.at .next])

/-- The handler has read the status of the interrupt. -/
def rknpuIrqStatus (d : Device) (t : Thread) (j : ℕ) (status : UInt32) : Device × List Thread :=
  let d' := d.setJob j ({ · with intStatus := status })
  if rknpuFuzzStatus status = (d.jobs j).intMask then
    ({ d' with started := false }, [t.at (.done j)])
  else (d', [])

/-- The end of `rknpu_job_wait`, after the loop. -/
def rknpuJobWaited (d : Device) (t : Thread) (o : ℕ) (ret : ℤ) : Device × List Thread :=
  let job := d.jobs o
  match job.lastTask with
  | none =>
    ({ d.setJob o ({ · with ret := -einval }) with todoList := d.todoList.erase o }, [t.at .result])
  | some _ =>
    (d.setJob o ({ · with
        ret := if ret ≤ 0 then -etimedout else if !job.done then -einval else 0 }),
      [t.at .result])

/-- A nonblocking job may have been freed by now; its `ret` is taken to read as it was. -/
def rknpuSubmitResult (d : Device) (t : Thread) (o : ℕ) : Device × List Thread :=
  let job := d.jobs o
  if job.args.has rknpuJobNonblock then (d, if job.ret = 0 then [] else [t.at .abort])
  else (d, [t.at (if job.ret = 0 then .cleanup else .abort)])

def rknpuJobAbort (d : Device) (t : Thread) (o : ℕ) : Device × List Thread :=
  let job := d.jobs o
  let d' :=
    if d.job = some o ∧ job.irqEntry = false then
      { d with job := none, taskNum := d.taskNum - rknpuGetTaskNumber job.args }
    else d
  (d', [t.at (if job.ret = -etimedout then .reset none else .cleanup)])

/-- What follows a reset. -/
def afterReset : Option ℕ → Stage
  | none => .cleanup
  | some j => .drop j

/-- `rknpu_soft_reset` gives up when another one is under way. -/
def rknpuSoftReset (d : Device) (t : Thread) (dropped : Option ℕ) : Device × List Thread :=
  if d.resetLock then (d, [t.at (afterReset dropped)])
  else ({ d with resetLock := true, softReseting := true }, [t.at (.resetting dropped)])

/-- One round of the loop of `rknpu_job_timeout_clean`. -/
def rknpuDrain (d : Device) (t : Thread) (j : ℕ) : Device × List Thread :=
  match d.todoList with
  | j' :: rest => ({ d with todoList := rest }, [t.at (.drain j'), ⟨.worker j, .cleanup⟩])
  | [] => (d, [t.at .schedule, ⟨.worker j, .cleanup⟩])

/-- What comes from outside while a thread goes a step. -/
inductive Input where
  /-- What `INT_STATUS` reads. -/
  | status (word : UInt32)
  /-- The time that the thread has given has passed. -/
  | expired

def Input.read : Input → UInt32
  | .status word => word
  | .expired => 0

/-- One step of a thread. -/
def stepThread (cfg : Config) (d : Device) (t : Thread) (i : Input) : Device × List Thread :=
  match t.stage, t.who with
  | .timeoutClean, _ =>
    -- no lock is held; a handler that comes in may finish the job, but nobody frees it
    match i, d.job with
    | .expired, some j => (d, [t.at (.reset (some j))])
    | _, _ => (d, [t.at .schedule])
  | .drop j, _ => ({ d with job := none }, [t.at (.drain j)])
  | .drain j, _ => rknpuDrain d t j
  | .schedule, .submitter o =>
    ({ d with
        todoList := d.todoList ++ [o]
        taskNum := d.taskNum + rknpuGetTaskNumber (d.jobs o).args
        queued := d.queued ++ [o] },
      [t.at .next])
  | .next, _ => rknpuJobNext d t
  | .count j, _ =>
    let count := (d.jobs j).runCount - 1
    let d' := d.setJob j ({ · with runCount := count })
    (d', if count = 0 then [t.at (.commit j)] else d.afterNext t)
  | .commit j, _ => (rknpuJobCommit cfg d j, d.afterNext t)
  | .wait, .submitter o =>
    if (d.jobs o).done ∨ d.softReseting then (d, [t.at (.waited 1)])
    else
      match i with
      | .expired => (d, [t.at (.waited 0)])
      | _ => (d, [t])
  | .waited ret, .submitter o => rknpuJobWaited d t o ret
  | .result, .submitter o => rknpuSubmitResult d t o
  | .abort, .submitter o => rknpuJobAbort d t o
  | .reset dropped, _ => rknpuSoftReset d t dropped
  | .resetting dropped, _ =>
    ({ d with started := false, softReseting := false, resetLock := false },
      [t.at (afterReset dropped)])
  | .cleanup, .submitter o => (d.setJob o ({ · with freed := true }), [])
  | .cleanup, .worker o => (d.setJob o ({ · with freed := true }), [])
  | .status j, _ => rknpuIrqStatus d t j i.read
  | .done j, _ => rknpuJobDone cfg d t j
  | .release j, _ => rknpuJobRelease d t j
  | .finish j, _ => rknpuJobFinish d t j
  | _, _ => (d, [])

abbrev System := Pool Device Thread

inductive Event where
  | submit (args : Submit)
  | irq
  | run (k : ℕ) (i : Input)

/-- `rknpu_submit` up to the allocation. -/
def System.submit (p : System) (args : Submit) : System :=
  if args.taskNumber = 0 then p
  else
    { shared := { p.shared with
        jobs := Function.update p.shared.jobs p.shared.fresh (rknpuJobAlloc args)
        fresh := p.shared.fresh + 1 }
      threads := p.threads ++ [⟨.submitter p.shared.fresh,
        if args.has rknpuJobNonblock then .timeoutClean else .schedule⟩] }

/-- `rknpu_irq_handler` up to the first unlock; the line is masked while it runs. -/
def System.irq (p : System) : System :=
  if p.threads.any (·.who = .handler) then p
  else
    match p.shared.job with
    | none => ⟨p.shared, p.threads ++ [⟨.handler, .next⟩]⟩
    | some j =>
      ⟨p.shared.setJob j ({ · with irqEntry := true }), p.threads ++ [⟨.handler, .status j⟩]⟩

def System.step (cfg : Config) (p : System) : Event → System
  | .submit args => p.submit args
  | .irq => p.irq
  | .run k i => Pool.run (stepThread cfg) p k i

/-- The driver after its probe. -/
def System.idle : System where
  shared :=
    { jobs := fun _ => rknpuJobAlloc ⟨0, 0, 0, none, 0⟩
      fresh := 0, todoList := [], job := none, taskNum := 0, softReseting := false
      resetLock := false, started := false, queued := [], released := [], commits := [] }
  threads := []

end Npu
end WardenSdk
