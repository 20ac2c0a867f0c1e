import Mathlib.Algebra.BigOperators.Group.List.Basic
import Mathlib.Data.List.Nodup
import WardenSdk.Npu.Scheduler

/-!
# The laws of the job scheduler

What every step of the scheduler keeps, as long as nothing runs into a time limit: what
holds of the device (`DeviceOk`), what each thread relies on at its stage (`ThreadOk`), and
that no two threads are the same one or are between two starts of the engine at once
(`Apart`).

A step lemma gives the new device and the new stage of the thread, and says what another
thread can see of it (`Frame`).  Only a stage between two starts relies on the counters of
the job on the core, and there is one such thread, so the frame of most steps is that of a
change of one job.  `Moves` says how a step hands on what keeps the core going.
-/

namespace WardenSdk
namespace Npu

open Lib

/-! ## Regular runs -/

instance (args : Submit) : Decidable args.Fits :=
  decidable_of_iff (0 < args.taskNumber.toNat ∧ args.taskStart.toNat + args.taskNumber.toNat < 2 ^ 31)
    ⟨fun h => ⟨h.1, h.2⟩, fun h => ⟨h.pos, h.lt⟩⟩

/-- A submission that can be committed. -/
def Submit.runs (args : Submit) : Bool :=
  args.has rknpuJobPc && args.taskObj.isSome && decide args.Fits

/-- The status that an interrupt shows is the one that the job waits for only if the engine
has been started for it. -/
def Device.genuine (d : Device) (word : UInt32) : Option Thread → Bool
  | some ⟨_, .status j⟩ => rknpuFuzzStatus word != (d.jobs j).intMask || d.started
  | _ => true

/-- Submissions can be committed, no time expires, and interrupts are genuine. -/
def Event.regular (p : System) : Event → Bool
  | .submit args => args.taskNumber == 0 || args.runs
  | .irq => true
  | .run _ .expired => false
  | .run k (.status word) => p.shared.genuine word p.threads[k]?

/-- How many parts a job has. -/
def partCount (cfg : Config) (args : Submit) : ℕ :=
  chunkCount args.taskNumber.toNat cfg.maxSubmitNumber

/-- The commits of a whole job. -/
def partsOf (cfg : Config) (j : ℕ) (args : Submit) : List (ℕ × Part) :=
  match args.taskObj with
  | none => []
  | some tasks =>
    (List.range (partCount cfg args)).map fun k => (j, rknpuJobSubcoreCommitPc cfg args tasks k)

def Device.parts (cfg : Config) (d : Device) (j : ℕ) : List (ℕ × Part) :=
  partsOf cfg j (d.jobs j).args

/-- How many parts of a job have been committed. -/
def Device.committed (d : Device) (j : ℕ) : ℕ := d.commits.countP (·.1 == j)

/-- The job that a thread works on while it is on the core. -/
def Stage.onCore : Stage → Option ℕ
  | .count j | .commit j | .status j | .done j | .release j => some j
  | _ => none

/-- The stages between the end of one start of the engine and the next, of which there is
one at a time. -/
def Stage.holds : Stage → Bool
  | .count _ | .commit _ | .done _ | .release _ => true
  | _ => false

/-- The stages that lead to `rknpu_job_next`. -/
def Stage.wakes : Stage → Bool
  | .next | .finish _ => true
  | _ => false

structure JobOk (cfg : Config) (d : Device) (j : ℕ) (job : Job) : Prop where
  ret : job.ret = 0
  async : job.async = job.args.has rknpuJobNonblock
  runs : j < d.fresh → job.args.runs = true
  untaken : j ∉ d.released → d.job ≠ some j →
    job.runCount = 1 ∧ job.submitCount = 0 ∧ d.committed j = 0
  pending : j ∉ d.released → job.interruptCount = 1 ∧ job.done = false
  task : job.done = true → job.lastTask ≠ none
  running : d.started = true → d.job = some j → job.lastTask ≠ none ∧
    d.committed j = job.submitCount + 1 ∧ job.submitCount < partCount cfg job.args
  freed : job.freed = true → job.done = true

/-- What holds of the device. -/
structure DeviceOk (cfg : Config) (d : Device) : Prop where
  calm : d.softReseting = false
  jobs : ∀ j, JobOk cfg d j (d.jobs j)
  order : d.queued = d.released ++ d.job.toList ++ d.todoList
  nodup : d.queued.Nodup
  bound : ∀ j ∈ d.queued, j < d.fresh
  account : d.taskNum =
    ((d.job.toList ++ d.todoList).map fun j => rknpuGetTaskNumber (d.jobs j).args).sum
  busy : d.started = true → d.job ≠ none
  commits : d.commits = d.released.flatMap (d.parts cfg) ++
    d.job.toList.flatMap fun j => (d.parts cfg j).take (d.committed j)

/-- What a thread has of its own. -/
def Who.Ok (d : Device) : Who → Prop
  | .submitter o => o < d.fresh ∧ ((d.jobs o).async = false → (d.jobs o).freed = false)
  | .handler => True
  | .worker o => o < d.fresh ∧ (d.jobs o).async = true ∧ (d.jobs o).done = true ∧
    (d.jobs o).freed = false

/-- A submission that has been queued. -/
def Device.Queued (d : Device) (who : Who) : Prop := ∀ o, who = .submitter o → o ∈ d.queued

/-- What a thread relies on at its stage. -/
def Stage.Ok (cfg : Config) (d : Device) (who : Who) : Stage → Prop
  | .timeoutClean | .schedule => ∃ o, who = .submitter o ∧ o ∉ d.queued
  | .next => d.Queued who
  | .count j => d.Queued who ∧ d.job = some j ∧ d.started = false ∧ (d.jobs j).runCount = 1 ∧
    (d.jobs j).submitCount = 0 ∧ d.committed j = 0
  | .commit j => d.Queued who ∧ d.job = some j ∧ d.started = false ∧
    d.committed j = (d.jobs j).submitCount ∧ (d.jobs j).submitCount < partCount cfg (d.jobs j).args
  | .wait => d.Queued who ∧ ∃ o, who = .submitter o ∧ (d.jobs o).async = false
  | .waited ret => ret = 1 ∧ ∃ o, who = .submitter o ∧ (d.jobs o).done = true
  | .result => ∃ o, who = .submitter o ∧ ((d.jobs o).async = false → (d.jobs o).done = true)
  | .cleanup =>
    (∃ o, who = .submitter o ∧ (d.jobs o).async = false ∧ (d.jobs o).done = true) ∨
      ∃ j, who = .worker j
  | .status j => who = .handler ∧ d.job = some j
  | .done j => who = .handler ∧ d.job = some j ∧ d.started = false ∧ (d.jobs j).lastTask ≠ none ∧
    d.committed j = (d.jobs j).submitCount + 1 ∧
    (d.jobs j).submitCount < partCount cfg (d.jobs j).args
  | .release j => who = .handler ∧ d.job = some j ∧ d.started = false ∧
    (d.jobs j).lastTask ≠ none ∧ d.committed j = partCount cfg (d.jobs j).args
  | .finish j => who = .handler ∧ j ∈ d.released ∧ (d.jobs j).interruptCount = 1 ∧
    (d.jobs j).done = false ∧ (d.jobs j).lastTask ≠ none
  | .drop _ | .drain _ | .abort | .reset _ | .resetting _ => False

def ThreadOk (cfg : Config) (d : Device) (t : Thread) : Prop :=
  t.who.Ok d ∧ t.stage.Ok cfg d t.who

/-- Any two threads: they are different ones, and only one is between two starts. -/
def Apart (t u : Thread) : Prop := t.who ≠ u.who ∧ (t.stage.holds = true → u.stage.holds = false)

instance : Std.Symm Apart where
  symm _ _ h := ⟨h.1.symm, fun hu => Bool.eq_false_iff.mpr fun ht =>
    absurd hu (Bool.eq_false_iff.mp (h.2 ht))⟩

/-- A job is only added to. -/
structure Job.Later (a b : Job) : Prop where
  args : b.args = a.args
  async : b.async = a.async
  done : a.done = true → b.done = true
  task : a.lastTask ≠ none → b.lastTask ≠ none

theorem Job.Later.refl (a : Job) : a.Later a := ⟨rfl, rfl, id, id⟩

/-- A change of the device that the thread `u` does not see. -/
structure Frame (d d' : Device) (u : Thread) : Prop where
  fresh : d.fresh ≤ d'.fresh
  queued : ∀ o, u.who = .submitter o → o ∈ d'.queued → o ∈ d.queued
  stays : ∀ j ∈ d.queued, j ∈ d'.queued
  released : ∀ j ∈ d.released, j ∈ d'.released
  later : ∀ j < d.fresh, (d.jobs j).Later (d'.jobs j)
  freed : ∀ j, (u.who = .submitter j ∧ (d.jobs j).async = false) ∨ u.who = .worker j →
    (d'.jobs j).freed = (d.jobs j).freed
  core : ∀ j, u.stage.onCore = some j → d.job = some j → d'.job = some j
  held : u.stage.holds = true → d'.started = d.started ∧
    ∀ j, d.job = some j → d'.committed j = d.committed j ∧
      (d'.jobs j).runCount = (d.jobs j).runCount ∧
      (d'.jobs j).submitCount = (d.jobs j).submitCount
  finishing : ∀ j, u.stage = .finish j → (d'.jobs j).interruptCount = (d.jobs j).interruptCount ∧
    (d'.jobs j).done = (d.jobs j).done

variable {cfg : Config} {d d' : Device}

theorem DeviceOk.lt_fresh (h : DeviceOk cfg d) {j : ℕ} (hj : d.job = some j) : j < d.fresh := by
  refine h.bound j ?_
  rw [h.order, hj]
  simp

theorem DeviceOk.lt_fresh_of_released (h : DeviceOk cfg d) {j : ℕ} (hj : j ∈ d.released) :
    j < d.fresh := by
  refine h.bound j ?_
  rw [h.order, List.append_assoc]
  exact List.mem_append_left _ hj

theorem Who.Ok.frame {u : Thread} (h : u.who.Ok d) (hframe : Frame d d' u) : u.who.Ok d' := by
  obtain ⟨who, stage⟩ := u
  cases who with
  | submitter o =>
    obtain ⟨hlt, hfreed⟩ := h
    refine ⟨hlt.trans_le hframe.fresh, fun hasync => ?_⟩
    have hasync : (d.jobs o).async = false := (hframe.later o hlt).async ▸ hasync
    rw [hframe.freed o (.inl ⟨rfl, hasync⟩)]
    exact hfreed hasync
  | handler => trivial
  | worker o =>
    obtain ⟨hlt, hasync, hdone, hfreed⟩ := h
    have hlater := hframe.later o hlt
    exact ⟨hlt.trans_le hframe.fresh, hlater.async ▸ hasync, hlater.done hdone,
      (hframe.freed o (.inr rfl)).trans hfreed⟩

theorem ThreadOk.frame {u : Thread} (hd : DeviceOk cfg d) (h : ThreadOk cfg d u)
    (hframe : Frame d d' u) : ThreadOk cfg d' u := by
  obtain ⟨who, stage⟩ := u
  obtain ⟨hwho, hstage⟩ := h
  have hown (o : ℕ) (ho : who = .submitter o) : o < d.fresh := by
    rw [ho] at hwho
    exact hwho.1
  have hstays (h : d.Queued who) : d'.Queued who := fun o ho => hframe.stays o (h o ho)
  refine ⟨Who.Ok.frame (u := ⟨who, stage⟩) hwho hframe, ?_⟩
  cases stage with
  | timeoutClean | schedule =>
    obtain ⟨o, ho, hnot⟩ := hstage
    exact ⟨o, ho, fun hmem => hnot (hframe.queued o ho hmem)⟩
  | next => exact hstays hstage
  | count j =>
    obtain ⟨hqueued, hjob, hstarted, hrun, hsubmit, hcommitted⟩ := hstage
    obtain ⟨hstarted', hsame⟩ := hframe.held rfl
    obtain ⟨hc, hr, hs⟩ := hsame j hjob
    exact ⟨hstays hqueued, hframe.core j rfl hjob, hstarted'.trans hstarted, hr.trans hrun,
      hs.trans hsubmit, hc.trans hcommitted⟩
  | commit j =>
    obtain ⟨hqueued, hjob, hstarted, hcommitted, hlt⟩ := hstage
    obtain ⟨hstarted', hsame⟩ := hframe.held rfl
    obtain ⟨hc, -, hs⟩ := hsame j hjob
    refine ⟨hstays hqueued, hframe.core j rfl hjob, hstarted'.trans hstarted, ?_, ?_⟩
    · rw [hc, hs, hcommitted]
    · rw [hs, (hframe.later j (hd.lt_fresh hjob)).args]
      exact hlt
  | wait =>
    obtain ⟨hqueued, o, ho, hasync⟩ := hstage
    exact ⟨hstays hqueued, o, ho, (hframe.later o (hown o ho)).async.trans hasync⟩
  | waited ret =>
    obtain ⟨hret, o, ho, hdone⟩ := hstage
    exact ⟨hret, o, ho, (hframe.later o (hown o ho)).done hdone⟩
  | result =>
    obtain ⟨o, ho, hdone⟩ := hstage
    have hlater := hframe.later o (hown o ho)
    exact ⟨o, ho, fun hasync => hlater.done (hdone (hlater.async ▸ hasync))⟩
  | cleanup =>
    rcases hstage with ⟨o, ho, hasync, hdone⟩ | hworker
    · have hlater := hframe.later o (hown o ho)
      exact .inl ⟨o, ho, hlater.async.trans hasync, hlater.done hdone⟩
    · exact .inr hworker
  | status j => exact ⟨hstage.1, hframe.core j rfl hstage.2⟩
  | done j =>
    obtain ⟨hh, hjob, hstarted, htask, hcommitted, hlt⟩ := hstage
    obtain ⟨hstarted', hsame⟩ := hframe.held rfl
    obtain ⟨hc, -, hs⟩ := hsame j hjob
    have hlater := hframe.later j (hd.lt_fresh hjob)
    refine ⟨hh, hframe.core j rfl hjob, hstarted'.trans hstarted, hlater.task htask, ?_, ?_⟩
    · rw [hc, hs, hcommitted]
    · rw [hs, hlater.args]
      exact hlt
  | release j =>
    obtain ⟨hh, hjob, hstarted, htask, hcommitted⟩ := hstage
    obtain ⟨hstarted', hsame⟩ := hframe.held rfl
    have hlater := hframe.later j (hd.lt_fresh hjob)
    refine ⟨hh, hframe.core j rfl hjob, hstarted'.trans hstarted, hlater.task htask, ?_⟩
    rw [(hsame j hjob).1, hlater.args, hcommitted]
  | finish j =>
    obtain ⟨hh, hmem, hcount, hdone, htask⟩ := hstage
    obtain ⟨hcount', hdone'⟩ := hframe.finishing j rfl
    exact ⟨hh, hframe.released j hmem, hcount'.trans hcount, hdone'.trans hdone,
      (hframe.later j (hd.lt_fresh_of_released hmem)).task htask⟩
  | drop _ | drain _ | abort | reset _ | resetting _ => exact hstage.elim

/-! ## A change of one job -/

section SetJob

variable (d) (j : ℕ) (f : Job → Job)

@[simp] theorem Device.setJob_jobs_self : (d.setJob j f).jobs j = f (d.jobs j) :=
  Function.update_self ..

@[simp] theorem Device.setJob_jobs_of_ne {i : ℕ} (h : i ≠ j) : (d.setJob j f).jobs i = d.jobs i :=
  Function.update_of_ne h ..

variable {d j f}

theorem Device.args_setJob (h : (f (d.jobs j)).args = (d.jobs j).args) (i : ℕ) :
    ((d.setJob j f).jobs i).args = (d.jobs i).args := by
  by_cases hi : i = j
  · rw [hi, Device.setJob_jobs_self, h]
  · rw [Device.setJob_jobs_of_ne d j f hi]

theorem Device.parts_setJob (h : (f (d.jobs j)).args = (d.jobs j).args) :
    (d.setJob j f).parts cfg = d.parts cfg :=
  funext fun i => congrArg (partsOf cfg i) (Device.args_setJob h i)

theorem DeviceOk.setJob (h : DeviceOk cfg d) (hargs : (f (d.jobs j)).args = (d.jobs j).args)
    (hjob : JobOk cfg d j (f (d.jobs j))) : DeviceOk cfg (d.setJob j f) where
  calm := h.calm
  jobs i := by
    by_cases hi : i = j
    · subst hi
      rw [Device.setJob_jobs_self]
      exact ⟨hjob.ret, hjob.async, hjob.runs, hjob.untaken, hjob.pending, hjob.task, hjob.running,
        hjob.freed⟩
    · have hold := h.jobs i
      rw [Device.setJob_jobs_of_ne d j f hi]
      exact ⟨hold.ret, hold.async, hold.runs, hold.untaken, hold.pending, hold.task, hold.running,
        hold.freed⟩
  order := h.order
  nodup := h.nodup
  bound := h.bound
  account := by
    simp only [Device.args_setJob hargs]
    exact h.account
  busy := h.busy
  commits := by
    rw [Device.parts_setJob hargs]
    exact h.commits

theorem Frame.setJob {u : Thread} (hlater : (d.jobs j).Later (f (d.jobs j)))
    (hfreed : (u.who = .submitter j ∧ (d.jobs j).async = false) ∨ u.who = .worker j →
      (f (d.jobs j)).freed = (d.jobs j).freed)
    (hheld : u.stage.holds = true → d.job = some j →
      (f (d.jobs j)).runCount = (d.jobs j).runCount ∧
        (f (d.jobs j)).submitCount = (d.jobs j).submitCount)
    (hfinishing : u.stage = .finish j →
      (f (d.jobs j)).interruptCount = (d.jobs j).interruptCount ∧
        (f (d.jobs j)).done = (d.jobs j).done) : Frame d (d.setJob j f) u where
  fresh := le_refl _
  queued _ _ h := h
  stays _ h := h
  released _ h := h
  later i _ := by
    by_cases hi : i = j
    · subst hi
      rw [Device.setJob_jobs_self]
      exact hlater
    · rw [Device.setJob_jobs_of_ne d j f hi]
      exact .refl _
  freed i h := by
    by_cases hi : i = j
    · subst hi
      rw [Device.setJob_jobs_self]
      exact hfreed h
    · rw [Device.setJob_jobs_of_ne d j f hi]
  core _ _ h := h
  held h := by
    refine ⟨rfl, fun i hjob => ⟨rfl, ?_⟩⟩
    by_cases hi : i = j
    · subst hi
      rw [Device.setJob_jobs_self]
      exact hheld h hjob
    · rw [Device.setJob_jobs_of_ne d j f hi]
      exact ⟨rfl, rfl⟩
  finishing i h := by
    by_cases hi : i = j
    · subst hi
      rw [Device.setJob_jobs_self]
      exact hfinishing h
    · rw [Device.setJob_jobs_of_ne d j f hi]
      exact ⟨rfl, rfl⟩

end SetJob

/-! ## The steps -/

/-- How a step hands on what keeps the scheduler going: the core that has a job, the list
that has jobs while the core is free, and the job that has been taken off the core. -/
structure Moves (d : Device) (t : Thread) (r : Device × List Thread) : Prop where
  running : r.1.job ≠ none → r.1.started = true ∨ (∃ v ∈ r.2, v.stage.holds = true) ∨
    (d.job ≠ none ∧ r.1.started = d.started ∧ t.stage.holds = false)
  waking : r.1.job = none → r.1.todoList ≠ [] → (∃ v ∈ r.2, v.stage.wakes = true) ∨
    (d.job = none ∧ d.todoList ≠ [] ∧ t.stage.wakes = false)
  finishing : ∀ j ∈ r.1.released, (r.1.jobs j).done = true ∨ (∃ v ∈ r.2, v.stage = .finish j) ∨
    (j ∈ d.released ∧ t.stage ≠ .finish j)
  done : ∀ j, (d.jobs j).done = true → (r.1.jobs j).done = true

/-- A step beside all of this. -/
theorem Moves.same {t : Thread} {ts : List Thread} (hjob : d'.job = d.job)
    (hstarted : d'.started = d.started) (htodo : d'.todoList = d.todoList)
    (hreleased : d'.released = d.released)
    (hdone : ∀ j, (d.jobs j).done = true → (d'.jobs j).done = true)
    (hholds : t.stage.holds = false) (hwakes : t.stage.wakes = false) : Moves d t (d', ts) where
  running h := .inr (.inr ⟨hjob ▸ h, hstarted, hholds⟩)
  waking h ht := .inr ⟨hjob ▸ h, htodo ▸ ht, hwakes⟩
  finishing j hj := by
    refine .inr (.inr ⟨hreleased ▸ hj, fun he => ?_⟩)
    rw [he] at hwakes
    cases hwakes
  done := hdone

theorem Moves.refl {t : Thread} {ts : List Thread} (hholds : t.stage.holds = false)
    (hwakes : t.stage.wakes = false) : Moves d t (d, ts) :=
  .same rfl rfl rfl rfl (fun _ h => h) hholds hwakes

/-- What a step has to keep, for the thread itself and for any other one. -/
structure StepOk (cfg : Config) (d : Device) (t : Thread) (r : Device × List Thread) : Prop where
  device : DeviceOk cfg r.1
  threads : ∀ v ∈ r.2, ThreadOk cfg r.1 v
  pairs : r.2.Pairwise Apart
  frame : ∀ u, ThreadOk cfg d u → Apart t u → Frame d r.1 u
  apart : ∀ u, ThreadOk cfg d u → Apart t u → ∀ v ∈ r.2, Apart v u
  moves : Moves d t r

theorem Frame.refl (d : Device) (u : Thread) : Frame d d u :=
  ⟨le_refl _, fun _ _ h => h, fun _ h => h, fun _ h => h, fun _ _ => .refl _, fun _ _ => rfl, fun _ _ h => h,
    fun _ => ⟨rfl, fun _ _ => ⟨rfl, rfl, rfl⟩⟩, fun _ _ => ⟨rfl, rfl⟩⟩

theorem Apart.at {t u : Thread} (h : Apart t u) {stage : Stage}
    (hstage : stage.holds = true → u.stage.holds = false) : Apart (t.at stage) u := ⟨h.1, hstage⟩

/-- A step that goes on at one stage. -/
theorem StepOk.one {t : Thread} {s : Stage} (device : DeviceOk cfg d') (hwho : t.who.Ok d')
    (hstage : s.Ok cfg d' t.who) (frame : ∀ u, ThreadOk cfg d u → Apart t u → Frame d d' u)
    (apart : s.holds = true → ∀ u, ThreadOk cfg d u → Apart t u → u.stage.holds = false)
    (moves : Moves d t (d', [t.at s])) : StepOk cfg d t (d', [t.at s]) where
  device := device
  threads := List.forall_mem_singleton.mpr ⟨hwho, hstage⟩
  pairs := List.pairwise_singleton ..
  frame := frame
  apart u hu h := List.forall_mem_singleton.mpr (h.at fun hs => apart hs u hu h)
  moves := moves

/-- A step that ends the thread. -/
theorem StepOk.end {t : Thread} (device : DeviceOk cfg d')
    (frame : ∀ u, ThreadOk cfg d u → Apart t u → Frame d d' u) (moves : Moves d t (d', [])) :
    StepOk cfg d t (d', []) where
  device := device
  threads := List.forall_mem_nil _
  pairs := List.Pairwise.nil
  frame := frame
  apart _ _ _ := List.forall_mem_nil _
  moves := moves

theorem Submit.has_pc {args : Submit} (h : args.runs = true) : args.has rknpuJobPc = true := by
  unfold Submit.runs at h
  simp only [Bool.and_eq_true] at h
  exact h.1.1

/-- A step after which `rknpu_job_next` returns. -/
theorem StepOk.afterNext {t : Thread} (device : DeviceOk cfg d') (hwho : t.who.Ok d')
    (hqueued : d'.Queued t.who) (frame : ∀ u, ThreadOk cfg d u → Apart t u → Frame d d' u)
    (moves : ∀ ts, Moves d t (d', ts)) : StepOk cfg d t (d', d'.afterNext t) := by
  unfold Device.afterNext
  cases hw : t.who with
  | submitter o =>
    rw [hw] at hwho
    have hjob := device.jobs o
    have hpc := Submit.has_pc (hjob.runs hwho.1)
    dsimp only
    split_ifs with hblock
    · rw [hpc, Bool.and_true, Bool.not_eq_true'] at hblock
      exact .one device (hw ▸ hwho) ⟨hqueued, o, hw, hjob.async.trans hblock⟩ frame nofun (moves _)
    · rw [hpc, Bool.and_true, Bool.not_eq_true', Bool.not_eq_false] at hblock
      refine .one device (hw ▸ hwho) ⟨o, hw, fun hasync => ?_⟩ frame nofun (moves _)
      exact absurd (hjob.async.trans hblock) (Bool.eq_false_iff.mp hasync)
  | handler => exact .end device frame (moves _)
  | worker _ => exact .end device frame (moves _)

section Steps

variable {t : Thread} (hd : DeviceOk cfg d) (ht : ThreadOk cfg d t)

include hd ht

end Steps

end Npu
end WardenSdk
