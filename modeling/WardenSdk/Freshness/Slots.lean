import WardenSdk.Freshness.Engine

/-!
# One binding inside the engine

Every operation of the engine scans the whole table, but what it does to one
slot depends on that slot alone.  `Op.onSlot` says what: the slot afterwards and
the calls made for it.  `getElem?_apply` is the frame theorem: for a slot in
use, the table and the calls of any operation but `reset` restrict to exactly
that.

Everything the outside world learns about a binding is in the calls made for its
slot.  `View` reads them: what the widget was last told to show, when the
producer was asked, and when it last confirmed its value.
-/

namespace WardenSdk
namespace Freshness

open Lib

/-- The calls made for slot `i`. -/
def callsFor (i : ℕ) (cs : List Call) : List Call := cs.filter fun c => c.slot == i

@[simp] theorem callsFor_nil (i : ℕ) : callsFor i [] = [] := rfl

@[simp] theorem callsFor_append (i : ℕ) (cs cs' : List Call) :
    callsFor i (cs ++ cs') = callsFor i cs ++ callsFor i cs' :=
  List.filter_append ..

/-- What an operation does to a slot in use, and the calls it makes for it. -/
def Op.onSlot (i : ℕ) (v : Slot) : Op → Slot × List Call
  | .bind _ => (v, [])
  | .setVisible page visible => (if v.page = page then { v with visible } else v, [])
  | .pageShow page time out =>
      if v.page = page then refreshOne i { v with visible := true } time (out i) else (v, [])
  | .tick time out => if v.visible then refreshOne i v time (out i) else (v, [])
  | .invalidate source time out =>
      if v.visible ∧ source.isSome ∧ v.source = source then refreshOne i v time (out i)
      else (v, [])
  | .reset => (Slot.zero, [])

/-! ## Refreshing one slot -/

theorem slot_of_mem_refreshOne {i : ℕ} {v : Slot} {time : ℕ} {p : Produced} {c : Call}
    (h : c ∈ (refreshOne i v time p).2) : c.slot = i := by
  unfold refreshOne at h
  dsimp only at h
  split at h
  · rcases List.mem_cons.mp h with rfl | h
    · rfl
    · rw [List.mem_singleton.mp h]
      rfl
  · rcases List.mem_cons.mp h with rfl | h
    · rfl
    · rw [List.mem_singleton.mp h]
      rfl
  · rw [List.mem_singleton.mp h]
    rfl

theorem callsFor_refreshOne_self (i : ℕ) (v : Slot) (time : ℕ) (p : Produced) :
    callsFor i (refreshOne i v time p).2 = (refreshOne i v time p).2 := by
  refine List.filter_eq_self.mpr fun c hc => ?_
  rw [slot_of_mem_refreshOne hc, beq_self_eq_true]

theorem callsFor_refreshOne_of_ne {i j : ℕ} (hne : j ≠ i) (v : Slot) (time : ℕ) (p : Produced) :
    callsFor i (refreshOne j v time p).2 = [] := by
  refine List.filter_eq_nil_iff.mpr fun c hc => ?_
  rw [slot_of_mem_refreshOne hc, beq_iff_eq]
  exact hne

/-- A refresh keeps everything a binding was declared with. -/
theorem refreshOne_keeps (i : ℕ) (v : Slot) (time : ℕ) (p : Produced) :
    (refreshOne i v time p).1.page = v.page ∧
      (refreshOne i v time p).1.maxStaleMs = v.maxStaleMs ∧
      (refreshOne i v time p).1.used = v.used ∧
      (refreshOne i v time p).1.visible = v.visible := by
  unfold refreshOne
  dsimp only
  split <;> cases p.result <;> simp

/-! ## The loop the refreshing operations share -/

section RefreshWhere

variable (touch : Slot → Option Slot) (time : ℕ) (out : ℕ → Produced)

/-- What the loop does to the slot with index `i`. -/
def touched (i : ℕ) (v : Slot) : Slot × List Call :=
  match touch v with
  | some v => refreshOne i v time (out i)
  | none => (v, [])

theorem callsFor_refreshWhere_of_lt {i k : ℕ} (t : List Slot) (h : i < k) :
    callsFor i (refreshWhere touch time out k t).2 = [] := by
  induction t generalizing k with
  | nil => rfl
  | cons v t ih =>
    have hrest := ih (Nat.lt_succ_of_lt h)
    unfold refreshWhere
    cases touch v with
    | none => exact hrest
    | some v' =>
      dsimp only
      rw [callsFor_append, hrest, callsFor_refreshOne_of_ne (by omega), List.append_nil]

/-- The loop acts on each slot alone. -/
theorem getElem?_refreshWhere {t : List Slot} {i : ℕ} {v : Slot} (k : ℕ) (hv : t[i]? = some v) :
    (refreshWhere touch time out k t).1[i]? = some (touched touch time out (k + i) v).1 ∧
      callsFor (k + i) (refreshWhere touch time out k t).2 =
        (touched touch time out (k + i) v).2 := by
  induction t generalizing i k with
  | nil => exact absurd hv (by simp)
  | cons u t ih =>
    cases i with
    | zero =>
      have hu : u = v := by simpa using hv
      subst hu
      unfold refreshWhere touched
      cases touch u with
      | none =>
        exact ⟨rfl, callsFor_refreshWhere_of_lt touch time out t (by omega)⟩
      | some v' =>
        dsimp only
        simp only [Nat.add_zero]
        rw [callsFor_append, callsFor_refreshOne_self,
          callsFor_refreshWhere_of_lt touch time out t (by omega), List.append_nil]
        exact ⟨rfl, rfl⟩
    | succ i =>
      have hv' : t[i]? = some v := by simpa using hv
      obtain ⟨h₁, h₂⟩ := ih (k + 1) hv'
      rw [show k + 1 + i = k + (i + 1) by omega] at h₁ h₂
      unfold refreshWhere
      cases touch u with
      | none => exact ⟨h₁, h₂⟩
      | some u' =>
        dsimp only
        rw [callsFor_append, callsFor_refreshOne_of_ne (by omega), List.nil_append]
        exact ⟨h₁, h₂⟩

variable {touch time out} in
/-- The loop from the first slot on, when it is known what it does to a slot. -/
theorem refreshWhere_of_touched {t : List Slot} {i : ℕ} {v : Slot} {x : Slot × List Call}
    (hv : t[i]? = some v) (hx : touched touch time out i v = x) :
    (refreshWhere touch time out 0 t).1[i]? = some x.1 ∧
      callsFor i (refreshWhere touch time out 0 t).2 = x.2 := by
  have h := getElem?_refreshWhere touch time out 0 hv
  rw [Nat.zero_add, hx] at h
  exact h

end RefreshWhere

/-! ## The frame theorem -/

theorem getElem?_bind {t : List Slot} {i : ℕ} {v : Slot} (hv : t[i]? = some v)
    (hused : v.used = true) (b : Binding) : (wardenFreshBind t b).1[i]? = some v := by
  unfold wardenFreshBind
  split
  · exact hv
  · split
    · next j hj =>
      obtain ⟨hlt, hfree, -⟩ := List.findIdx?_eq_some_iff_getElem.mp hj
      have hne : j ≠ i := by
        rintro rfl
        rw [List.getElem?_eq_getElem hlt, Option.some_inj] at hv
        rw [hv, hused] at hfree
        exact absurd hfree (by decide)
      rw [List.getElem?_set_ne hne]
      exact hv
    · exact hv

section Touched

variable (i : ℕ) {v : Slot} (hused : v.used = true) (time : ℕ) (out : ℕ → Produced)

include hused

theorem touched_pageShow (page : ℕ) :
    touched (fun v => if v.used && v.page == page then some { v with visible := true } else none)
      time out i v = (Op.pageShow page time out).onSlot i v := by
  by_cases hp : v.page = page
  · simp [touched, Op.onSlot, hused, hp]
  · simp [touched, Op.onSlot, hp]

theorem touched_tick :
    touched (fun v => if v.used && v.visible then some v else none) time out i v =
      (Op.tick time out).onSlot i v := by
  cases hvis : v.visible with
  | false => simp [touched, Op.onSlot, hvis]
  | true => simp [touched, Op.onSlot, hused, hvis]

theorem touched_invalidate (src : CString) :
    touched (fun v => if v.used && v.visible && v.source == some src then some v else none)
      time out i v = (Op.invalidate (some src) time out).onSlot i v := by
  cases hvis : v.visible with
  | false => simp [touched, Op.onSlot, hvis]
  | true =>
    by_cases hs : v.source = some src
    · simp [touched, Op.onSlot, hused, hvis, hs]
    · simp [touched, Op.onSlot, hs]

end Touched

/-- **An operation acts on each slot in use alone.** -/
theorem getElem?_apply {t : List Slot} {i : ℕ} {v : Slot} (hv : t[i]? = some v)
    (hused : v.used = true) {op : Op} (hop : op ≠ .reset) :
    (World.apply t op).1[i]? = some (op.onSlot i v).1 ∧
      callsFor i (World.apply t op).2 = (op.onSlot i v).2 := by
  cases op with
  | bind b => exact ⟨getElem?_bind hv hused b, rfl⟩
  | setVisible page visible =>
    refine ⟨?_, rfl⟩
    simp [World.apply, wardenFreshSetVisible, Op.onSlot, List.getElem?_map, hv, hused]
  | pageShow page time out =>
    exact refreshWhere_of_touched hv (touched_pageShow i hused time out page)
  | tick time out => exact refreshWhere_of_touched hv (touched_tick i hused time out)
  | invalidate source time out =>
    cases source with
    | none =>
      have hskip : (Op.invalidate none time out).onSlot i v = (v, []) := by simp [Op.onSlot]
      rw [hskip]
      exact ⟨hv, rfl⟩
    | some src => exact refreshWhere_of_touched hv (touched_invalidate i hused time out src)
  | reset => exact absurd rfl hop

/-- **What an operation can do to a slot**: refresh it once, at the operation's
time, or leave it alone.  Either way it may change whether the slot is visible,
and only hiding the slot's page clears that. -/
theorem onSlot_cases (i : ℕ) (v : Slot) {op : Op} (hop : op ≠ .reset) :
    ∃ visible, (v.visible = true → op ≠ .setVisible v.page false → visible = true) ∧
      ((∃ time p, op.time = some time ∧
          op.onSlot i v = refreshOne i { v with visible } time p) ∨
        op.onSlot i v = ({ v with visible }, [])) := by
  cases op with
  | bind b => exact ⟨v.visible, fun h _ => h, Or.inr rfl⟩
  | setVisible page visible =>
    by_cases hp : v.page = page
    · refine ⟨visible, fun _ hne => ?_, Or.inr (by simp [Op.onSlot, hp])⟩
      cases visible with
      | true => rfl
      | false => exact absurd (by rw [hp]) hne
    · exact ⟨v.visible, fun h _ => h, Or.inr (by simp [Op.onSlot, hp])⟩
  | pageShow page time out =>
    by_cases hp : v.page = page
    · exact ⟨true, fun _ _ => rfl, Or.inl ⟨time, out i, rfl, by simp [Op.onSlot, hp]⟩⟩
    · exact ⟨v.visible, fun h _ => h, Or.inr (by simp [Op.onSlot, hp])⟩
  | tick time out =>
    refine ⟨v.visible, fun h _ => h, ?_⟩
    by_cases hv : v.visible = true
    · exact Or.inl ⟨time, out i, rfl, by rw [Op.onSlot, if_pos hv]⟩
    · exact Or.inr (by rw [Op.onSlot, if_neg hv])
  | invalidate source time out =>
    refine ⟨v.visible, fun h _ => h, ?_⟩
    by_cases hv : v.visible = true ∧ source.isSome = true ∧ v.source = source
    · exact Or.inl ⟨time, out i, rfl, by rw [Op.onSlot, if_pos hv]⟩
    · exact Or.inr (by rw [Op.onSlot, if_neg hv])
  | reset => exact absurd rfl hop

/-! ## What the world learns about a binding -/

/-- What the calls made for a binding say about it. -/
structure View where
  /-- What the widget was last told to show. -/
  shown : Option (Render × CString)
  /-- The real time of the producer's last `FRESH_OK` or `FRESH_SAME`. -/
  confirmed : Option ℕ
  /-- The real times at which the producer was asked, oldest first. -/
  refreshes : List ℕ
  deriving DecidableEq

namespace View

/-- Before the first call. -/
def empty : View := ⟨none, none, []⟩

def step (w : View) : Call → View
  | .produce _ time p =>
      { w with
        confirmed := if p.result = .unknown then w.confirmed else some time
        refreshes := w.refreshes ++ [time] }
  | .render _ what text => { w with shown := some (what, text) }

/-- The widget was last told to show the UNKNOWN mark. -/
def ShowsUnknown (w : View) : Prop := ∃ text, w.shown = some (.unknown, text)

/-- The widget was last told to show a value. -/
def ShowsValue (w : View) : Prop := ∃ text, w.shown = some (.value, text)

theorem ShowsValue.not_showsUnknown {w : View} (h : w.ShowsValue) : ¬ w.ShowsUnknown := by
  rintro ⟨text, hunknown⟩
  obtain ⟨text', hvalue⟩ := h
  rw [hvalue] at hunknown
  simp at hunknown

end View

/-- What the calls made for slot `i` say. -/
def viewOf (i : ℕ) (cs : List Call) : View := run View.step View.empty (callsFor i cs)

end Freshness
end WardenSdk
