import Mathlib.Data.List.Basic
import Mathlib.Data.List.Induction

/-!
# Runs of a deterministic system

A system is a step function `S → E → S` on states, driven by a list of events.
`run` folds the events, and everything proved about whole runs goes through one
of three rules.

* `run_history`: an invariant that may speak about the events taken so far.  It
  has to hold before the first event and to survive one more event at the end
  of the history.
* `run_invariant`: the special case of an invariant of the state alone.
* `view_run_of_filter_eq`: two runs that differ in hidden events only end in
  states that look the same, once a hidden event changes nothing in the view and
  the view after any event is decided by the view before it.

The history is a plain list of events, oldest first, so a property that is
stated over a history (the latest event of some kind, the last value written)
can be read off without any ghost field in the state.
-/

namespace WardenSdk
namespace Lib

variable {S : Type*} {E : Type*}

/-- The state after a list of events. -/
def run (step : S → E → S) (s : S) (es : List E) : S := es.foldl step s

section

variable (step : S → E → S) (s : S)

@[simp] theorem run_nil : run step s [] = s := rfl

@[simp] theorem run_cons (e : E) (es : List E) :
    run step s (e :: es) = run step (step s e) es := rfl

theorem run_append (es es' : List E) :
    run step s (es ++ es') = run step (run step s es) es' := by
  simp [run, List.foldl_append]

@[simp] theorem run_concat (es : List E) (e : E) :
    run step s (es ++ [e]) = step (run step s es) e := by
  rw [run_append, run_cons, run_nil]

end

/-- **The history rule.**  An invariant of the events taken so far and the state
they lead to holds after every run, once it holds at the start and one more
event keeps it. -/
theorem run_history {step : S → E → S} {I : List E → S → Prop} {s : S}
    (init : I [] s)
    (keep : ∀ past t e, I past t → I (past ++ [e]) (step t e)) (es : List E) :
    I es (run step s es) := by
  induction es using List.reverseRecOn with
  | nil => exact init
  | append_singleton past e ih =>
    rw [run_concat]
    exact keep past _ e ih

/-- **The invariant rule.**  A property of states that every event keeps holds
after every run that starts in it. -/
theorem run_invariant {step : S → E → S} {I : S → Prop}
    (keep : ∀ t e, I t → I (step t e)) {s : S} (init : I s) (es : List E) :
    I (run step s es) :=
  run_history (I := fun _ t => I t) init (fun _ t e h => keep t e h) es

section

variable {V : Type*} {step : S → E → S} {view : S → V} {p : E → Bool}
  (visible : ∀ s t e, view s = view t → view (step s e) = view (step t e))
  (hidden : ∀ s e, p e = false → view (step s e) = view s)

include visible hidden

/-- Dropping the hidden events of a run does not change the view it ends in. -/
theorem view_run_filter (s : S) (es : List E) :
    view (run step s es) = view (run step s (es.filter p)) := by
  have hview : ∀ (es : List E) (s t : S), view s = view t →
      view (run step s es) = view (run step t (es.filter p)) := by
    intro es
    induction es with
    | nil => exact fun s t h => h
    | cons e es ih =>
      intro s t h
      cases he : p e with
      | true =>
        rw [List.filter_cons_of_pos he, run_cons, run_cons]
        exact ih _ _ (visible s t e h)
      | false =>
        rw [List.filter_cons_of_neg (by simp [he]), run_cons]
        exact ih _ _ ((hidden s e he).trans h)
  exact hview es s s rfl

/-- **The unwinding rule.**  Two runs whose visible events are the same end in
states with the same view. -/
theorem view_run_of_filter_eq (s : S) {es es' : List E} (h : es.filter p = es'.filter p) :
    view (run step s es) = view (run step s es') := by
  rw [view_run_filter visible hidden s es, h, ← view_run_filter visible hidden s es']

end

end Lib
end WardenSdk
