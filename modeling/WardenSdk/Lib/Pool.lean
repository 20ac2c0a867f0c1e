import Mathlib.Data.List.Basic

/-!
# Threads that share a state

A pool is a shared state and the threads that work on it.  A step takes one of the
threads, whichever it is, and one input: it changes the shared state and puts other
threads in the place of the one that has gone, none when that one has ended.  A run of
such steps is an interleaving of the threads, and every interleaving is such a run.

`Pool.run_cases` is what a step can do.  `Pool.Sound` is an invariant in three parts: what
holds of the shared state, what holds of each thread beside it, and what holds of any two
threads.  Its rule `Pool.Sound.run` asks a step for its own threads first, and then not to
break what any other thread relies on, where that other thread may be taken to get along
with the one that goes the step.
-/

namespace WardenSdk
namespace Lib

structure Pool (S T : Type*) where
  shared : S
  threads : List T

namespace Pool

variable {S T I : Type*} (step : S → T → I → S × List T)

/-- The thread at place `k` goes one step. -/
def run (p : Pool S T) (k : ℕ) (i : I) : Pool S T :=
  match p.threads[k]? with
  | none => p
  | some t =>
    ⟨(step p.shared t i).1, p.threads.take k ++ (step p.shared t i).2 ++ p.threads.drop (k + 1)⟩

theorem run_of_getElem? {p : Pool S T} {k : ℕ} {t : T} (h : p.threads[k]? = some t) (i : I) :
    p.run step k i = ⟨(step p.shared t i).1,
      p.threads.take k ++ (step p.shared t i).2 ++ p.threads.drop (k + 1)⟩ := by
  unfold run
  rw [h]

/-- **What a step can do**: nothing where there is no thread, and else the step of a
thread that stands between the ones before and the ones after it. -/
theorem run_cases (p : Pool S T) (k : ℕ) (i : I) :
    (p.threads[k]? = none ∧ p.run step k i = p) ∨
      ∃ before t after, p.threads[k]? = some t ∧ p.threads = before ++ t :: after ∧
        p.run step k i =
          ⟨(step p.shared t i).1, before ++ (step p.shared t i).2 ++ after⟩ := by
  cases h : p.threads[k]? with
  | none =>
    left
    unfold run
    rw [h]
    exact ⟨rfl, rfl⟩
  | some t =>
    obtain ⟨hlt, ht⟩ := List.getElem?_eq_some_iff.mp h
    refine .inr ⟨p.threads.take k, t, p.threads.drop (k + 1), rfl, ?_, run_of_getElem? step h i⟩
    rw [← ht, List.getElem_cons_drop, List.take_append_drop]

/-! ## Invariants of pools -/

variable (D : S → Prop) (A : S → T → Prop) (C : T → T → Prop)

/-- The shared state, each thread beside it, and any two threads. -/
structure Sound (p : Pool S T) : Prop where
  shared : D p.shared
  each : ∀ t ∈ p.threads, A p.shared t
  pairs : p.threads.Pairwise C

variable {step D A C}

/-- **The rule for a step.** -/
theorem Sound.run [Std.Symm C] {p : Pool S T} (h : p.Sound D A C) {k : ℕ} {i : I}
    (own : ∀ t, p.threads[k]? = some t → D p.shared → A p.shared t →
      D (step p.shared t i).1 ∧ (∀ v ∈ (step p.shared t i).2, A (step p.shared t i).1 v) ∧
        (step p.shared t i).2.Pairwise C)
    (apart : ∀ t u, p.threads[k]? = some t → D p.shared → A p.shared t → A p.shared u → C t u →
      A (step p.shared t i).1 u ∧ ∀ v ∈ (step p.shared t i).2, C v u) :
    (p.run step k i).Sound D A C := by
  rcases run_cases step p k i with ⟨-, hrun⟩ | ⟨before, t, after, hk, hthreads, hrun⟩
  · rw [hrun]
    exact h
  have ht : A p.shared t := h.each t (List.mem_of_getElem? hk)
  obtain ⟨hshared, hnew, hpairs⟩ := own t hk h.shared ht
  have hold := h.pairs
  rw [hthreads, List.pairwise_append, List.pairwise_cons] at hold
  obtain ⟨hbefore, ⟨htafter, hafter⟩, hacross⟩ := hold
  have hother {u : T} (hu : u ∈ before ∨ u ∈ after) :
      A (step p.shared t i).1 u ∧ ∀ v ∈ (step p.shared t i).2, C v u := by
    have hmem : u ∈ p.threads := by
      rw [hthreads, List.mem_append, List.mem_cons]
      exact hu.imp_right .inr
    refine apart t u hk h.shared ht (h.each u hmem) ?_
    rcases hu with hu | hu
    · exact symm (hacross u hu t List.mem_cons_self)
    · exact htafter u hu
  rw [hrun]
  refine ⟨hshared, fun u hu => ?_, ?_⟩
  · rw [List.mem_append, List.mem_append] at hu
    rcases hu with (hu | hu) | hu
    · exact (hother (.inl hu)).1
    · exact hnew u hu
    · exact (hother (.inr hu)).1
  · refine List.pairwise_append.mpr ⟨List.pairwise_append.mpr ⟨hbefore, hpairs, ?_⟩, hafter, ?_⟩
    · exact fun u hu v hv => symm ((hother (.inl hu)).2 v hv)
    · intro u hu v hv
      rcases List.mem_append.mp hu with hu | hu
      · exact hacross u hu v (List.mem_cons_of_mem t hv)
      · exact (hother (.inr hv)).2 u hu

/-- The rule for a thread that comes in. -/
theorem Sound.enter {p : Pool S T} (h : p.Sound D A C) {s : S} {v : T} (hs : D s) (hv : A s v)
    (hold : ∀ u ∈ p.threads, A p.shared u → A s u) (hpair : ∀ u ∈ p.threads, A p.shared u → C u v) :
    Sound D A C ⟨s, p.threads ++ [v]⟩ := by
  refine ⟨hs, fun u hu => ?_, ?_⟩
  · rcases List.mem_append.mp hu with hu | hu
    · exact hold u hu (h.each u hu)
    · exact List.mem_singleton.mp hu ▸ hv
  · refine List.pairwise_append.mpr ⟨h.pairs, List.pairwise_singleton C v, fun u hu w hw => ?_⟩
    exact List.mem_singleton.mp hw ▸ hpair u hu (h.each u hu)

/-- A thread that another one has taken a step beside is still there. -/
theorem exists_mem_run {p : Pool S T} {k : ℕ} {i : I} {P : T → Prop}
    (h : ∃ u ∈ p.threads, P u)
    (own : ∀ t, p.threads[k]? = some t → P t → ∃ v ∈ (step p.shared t i).2, P v) :
    ∃ u ∈ (p.run step k i).threads, P u := by
  rcases run_cases step p k i with ⟨-, hrun⟩ | ⟨before, t, after, hk, hthreads, hrun⟩
  · rwa [hrun]
  obtain ⟨u, hu, hPu⟩ := h
  rw [hthreads, List.mem_append, List.mem_cons] at hu
  simp only [hrun, List.mem_append]
  rcases hu with hu | rfl | hu
  · exact ⟨u, .inl (.inl hu), hPu⟩
  · obtain ⟨v, hv, hPv⟩ := own u hk hPu
    exact ⟨v, .inl (.inr hv), hPv⟩
  · exact ⟨u, .inr hu, hPu⟩

end Pool

end Lib
end WardenSdk
