import Mathlib.Data.List.Basic
import Mathlib.Data.List.Induction

/-!
# Computations that may panic

Indexing, slicing and subtracting are partial in a checked language: out of
range they stop the program.  `Checked α` is a result or the panic that stopped
it, and the primitives below fail exactly where the language does, so that "the
program never panics" is "the result is `ok`".

* `index`, `setAt`, `slice`, `splitAt`, `checkedSub`: the primitives, each with
  the lemma that says when it succeeds.
* `foldlM_setAt`: the loop that overwrites a stretch of a list.
* `Scan`: a loop with a position that every round moves forward, and so ends.
* `runChecked_invariant`: a system whose steps may panic, kept from it by an
  invariant.
-/

namespace WardenSdk
namespace Lib

inductive Panic where
  | index
  | slice
  | overflow
  deriving DecidableEq

abbrev Checked (α : Type*) := Except Panic α

variable {α : Type*}

@[simp] theorem ok_bind.{u} {α β : Type u} (a : α) (f : α → Checked β) :
    ((.ok a : Checked α) >>= f) = f a := rfl

@[simp] theorem pure_eq_ok (a : α) : (pure a : Checked α) = .ok a := rfl

/-- A computation that ends well went well at each step. -/
theorem bind_eq_ok.{u} {ε : Type} {α β : Type u} {x : Except ε α} {f : α → Except ε β} {b : β}
    (h : x >>= f = .ok b) : ∃ a, x = .ok a ∧ f a = .ok b := by
  cases x with
  | error e => cases h
  | ok a => exact ⟨a, rfl, h⟩

/-- `l[i]`. -/
def index (l : List α) (i : ℕ) : Checked α :=
  match l[i]? with
  | some a => .ok a
  | none => .error .index

/-- `l[i] = a`. -/
def setAt (l : List α) (i : ℕ) (a : α) : Checked (List α) :=
  if i < l.length then .ok (l.set i a) else .error .index

/-- `&l[start..stop]`. -/
def slice (l : List α) (start stop : ℕ) : Checked (List α) :=
  if start ≤ stop ∧ stop ≤ l.length then .ok ((l.drop start).take (stop - start))
  else .error .slice

/-- `l.split_at(mid)`. -/
def splitAt (l : List α) (mid : ℕ) : Checked (List α × List α) :=
  if mid ≤ l.length then .ok (l.take mid, l.drop mid) else .error .slice

/-- `a - b` on unsigned integers. -/
def checkedSub (a b : ℕ) : Checked ℕ := if b ≤ a then .ok (a - b) else .error .overflow

theorem index_of_getElem? {l : List α} {i : ℕ} {a : α} (h : l[i]? = some a) :
    index l i = .ok a := by
  rw [index, h]

@[simp] theorem index_cons_zero (a : α) (l : List α) : index (a :: l) 0 = .ok a := rfl

@[simp] theorem index_cons_succ (a : α) (l : List α) (i : ℕ) :
    index (a :: l) (i + 1) = index l i := rfl

theorem setAt_of_lt {l : List α} {i : ℕ} (h : i < l.length) (a : α) :
    setAt l i a = .ok (l.set i a) := if_pos h

theorem slice_eq_ok {l l' : List α} {start stop : ℕ} (h : slice l start stop = .ok l') :
    stop ≤ l.length ∧ l' = (l.drop start).take (stop - start) := by
  unfold slice at h
  split_ifs at h with hle
  cases h
  exact ⟨hle.2, rfl⟩

theorem slice_of_le {l : List α} {start stop : ℕ} (h : start ≤ stop) (h' : stop ≤ l.length) :
    slice l start stop = .ok ((l.drop start).take (stop - start)) := if_pos ⟨h, h'⟩

theorem splitAt_of_le {l : List α} {mid : ℕ} (h : mid ≤ l.length) :
    splitAt l mid = .ok (l.take mid, l.drop mid) := if_pos h

theorem checkedSub_of_le {a b : ℕ} (h : b ≤ a) : checkedSub a b = .ok (a - b) := if_pos h

/-! ## Loops -/

theorem foldlM_concat {S : Type*} (g : S → α → Checked S) (s : S) (l : List α) (a : α) :
    (l ++ [a]).foldlM g s = (l.foldlM g s).bind fun t => g t a := by
  rw [List.foldlM_append]
  show (l.foldlM g s).bind _ = (l.foldlM g s).bind _
  congr 1
  funext t
  simp only [List.foldlM_cons, List.foldlM_nil, bind_pure]

/-- A list with the stretch from `start` on overwritten. -/
def overwrite (l : List α) (start : ℕ) (vs : List α) : List α :=
  l.take start ++ vs ++ l.drop (start + vs.length)

@[simp] theorem length_overwrite {l vs : List α} {start : ℕ} (h : start + vs.length ≤ l.length) :
    (overwrite l start vs).length = l.length := by
  simp only [overwrite, List.length_append, List.length_take, List.length_drop]
  omega

theorem getElem?_overwrite {l vs : List α} {start : ℕ} (h : start + vs.length ≤ l.length)
    (a : ℕ) :
    (overwrite l start vs)[a]? =
      if start ≤ a ∧ a < start + vs.length then vs[a - start]? else l[a]? := by
  have htake : (l.take start).length = start := by
    rw [List.length_take]
    omega
  rw [overwrite, List.append_assoc]
  by_cases h₁ : a < start
  · rw [List.getElem?_append_left (by omega), List.getElem?_take_of_lt h₁, if_neg (by omega)]
  · rw [List.getElem?_append_right (by omega), htake]
    by_cases h₂ : a < start + vs.length
    · rw [List.getElem?_append_left (by omega), if_pos (by omega)]
    · rw [List.getElem?_append_right (by omega), List.getElem?_drop, if_neg (by omega)]
      congr 1
      omega

theorem map_overwrite {β : Type*} (f : α → β) (l vs : List α) (start : ℕ) :
    (overwrite l start vs).map f = overwrite (l.map f) start (vs.map f) := by
  simp [overwrite, List.map_take, List.map_drop]

/-- A stretch written value by value, seen through a function of the entries. -/
theorem map_overwrite_range {β : Type*} {f : α → β} (l : List α) (start : ℕ) {count : ℕ}
    {g : ℕ → α} {v : ℕ → β} (h : ∀ i < count, f (g i) = v i) :
    (overwrite l start ((List.range count).map g)).map f =
      overwrite (l.map f) start ((List.range count).map v) := by
  rw [map_overwrite, List.map_map]
  congr 1
  exact List.map_congr_left fun i hi => h i (List.mem_range.mp hi)

theorem set_eq_overwrite {l : List α} {i : ℕ} (h : i < l.length) (a : α) :
    l.set i a = overwrite l i [a] := by
  rw [List.set_eq_take_append_cons_drop, if_pos h, overwrite, List.append_assoc]
  rfl

/-- Setting one entry, seen through a function of the entries. -/
theorem setAt_map {β : Type*} (f : α → β) {l : List α} {i : ℕ} (h : i < l.length) (a : α) :
    ∃ l', setAt l i a = .ok l' ∧ l'.map f = overwrite (l.map f) i [f a] :=
  ⟨_, setAt_of_lt h a, by rw [set_eq_overwrite h, map_overwrite, List.map_singleton]⟩

/-- **The overwriting loop.**  Writing `f i` to `start + i` for every `i < count`
overwrites the stretch, provided it lies inside the list. -/
theorem foldlM_setAt {l : List α} {start count : ℕ} {g : List α → ℕ → Checked (List α)}
    {f : ℕ → α} (hg : ∀ l, ∀ i < count, g l i = setAt l (start + i) (f i))
    (h : start + count ≤ l.length) :
    (List.range count).foldlM g l = .ok (overwrite l start ((List.range count).map f)) := by
  induction count with
  | zero => simp [overwrite, pure, Except.pure]
  | succ count ih =>
    have ih' := ih (fun l i hi => hg l i (by omega)) (by omega)
    have hlen : (overwrite l start ((List.range count).map f)).length = l.length :=
      length_overwrite (by simp; omega)
    rw [List.range_succ, foldlM_concat, ih']
    show g _ count = _
    rw [hg _ count (by omega)]
    rw [setAt_of_lt (by rw [hlen]; omega)]
    have hset : (overwrite l start ((List.range count).map f)).set (start + count) (f count) =
        overwrite l start ((List.range count ++ [count]).map f) := by
      apply List.ext_getElem?
      intro a
      have hl₁ : start + ((List.range count).map f).length ≤ l.length := by simp; omega
      have hl₂ : start + ((List.range count ++ [count]).map f).length ≤ l.length := by simp; omega
      rw [List.getElem?_set, getElem?_overwrite hl₁, getElem?_overwrite hl₂, hlen]
      simp only [List.length_map, List.length_range, List.length_append, List.length_singleton]
      by_cases ha : start + count = a
      · subst ha
        rw [if_pos rfl, if_pos (by omega), if_pos (by omega)]
        simp
      · rw [if_neg ha]
        by_cases hin : start ≤ a ∧ a < start + count
        · rw [if_pos hin, if_pos (by omega), List.map_append,
            List.getElem?_append_left (by simp; omega)]
        · rw [if_neg hin, if_neg (by omega)]
    rw [hset]

/-- A loop over positions.  A round that goes on leaves a later position behind, and
none beyond the bound. -/
structure Scan (S : Type*) where
  step : ℕ → S → Checked (Option (ℕ × S))
  bound : ℕ
  forward : ∀ {i s i' s'}, step i s = .ok (some (i', s')) → i < i' ∧ i' ≤ bound

namespace Scan

variable {S : Type*} (scan : Scan S)

def run (i : ℕ) (s : S) : Checked S :=
  match _h : scan.step i s with
  | .error e => .error e
  | .ok none => .ok s
  | .ok (some (i', s')) => run i' s'
termination_by scan.bound - i
decreasing_by
  have := scan.forward _h
  omega

variable {scan} {i i' : ℕ} {s s' : S}

theorem run_of_none (h : scan.step i s = .ok none) : scan.run i s = .ok s := by
  rw [run]
  split
  · rename_i h'
    cases h.symm.trans h'
  · rfl
  · rename_i h'
    cases h.symm.trans h'

theorem run_of_some (h : scan.step i s = .ok (some (i', s'))) :
    scan.run i s = scan.run i' s' := by
  rw [run]
  split
  · rename_i h'
    cases h.symm.trans h'
  · rename_i h'
    cases h.symm.trans h'
  · rename_i h'
    cases h.symm.trans h'
    rfl

end Scan

/-! ## Systems -/

variable {S E : Type*}

/-- The state after a list of events, or the first panic. -/
def runChecked (step : S → E → Checked S) (s : S) (es : List E) : Checked S := es.foldlM step s

theorem runChecked_concat (step : S → E → Checked S) (s : S) (es : List E) (e : E) :
    runChecked step s (es ++ [e]) = (runChecked step s es).bind fun t => step t e :=
  foldlM_concat step s es e

/-- **The invariant rule.**  If every step from a state of the invariant succeeds
and keeps it, every run from one does. -/
theorem runChecked_invariant {step : S → E → Checked S} {I : S → Prop}
    (keep : ∀ s e, I s → ∃ t, step s e = .ok t ∧ I t) {s : S} (init : I s) (es : List E) :
    ∃ t, runChecked step s es = .ok t ∧ I t := by
  induction es using List.reverseRecOn with
  | nil => exact ⟨s, rfl, init⟩
  | append_singleton es e ih =>
    obtain ⟨t, ht, hI⟩ := ih
    obtain ⟨u, hu, hI'⟩ := keep t e hI
    refine ⟨u, ?_, hI'⟩
    rw [runChecked_concat, ht]
    exact hu

end Lib
end WardenSdk
