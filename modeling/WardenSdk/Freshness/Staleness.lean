import WardenSdk.Freshness.Slots
import Mathlib.Data.List.Chain

/-!
# No stale value on a page

The engine knows the age of a value only modulo `2 ^ 32` milliseconds.  This
file follows one binding from its bind on, through any operations of the engine,
and compares what it shows with the real time of its last confirmation.

`Matches` is the invariant between the slot and what the calls say about it: the
flag `ever_ok` is "some report was `FRESH_OK` or `FRESH_SAME`", the field
`last_ok_ms` is the reading of the clock at the latest such report, and
`showing_unknown` is "the last render was the UNKNOWN mark".  It survives every
operation, over any number of wraps of the counter.

Two results rest on it.  While the gaps between refreshes and the budget together
stay below `2 ^ 32`, a value that is not marked unknown was confirmed within its
budget.  Showing a page, on the other hand, comes after a hidden time that
nothing bounds, and there the wrapping age is all the engine has: the guarantee
holds exactly when the real age and its remainder agree on being over budget.
-/

namespace WardenSdk
namespace Freshness

open Lib

/-! ## The slot and the calls made for it -/

/-- The fields of a slot, read off the calls made for it. -/
structure Matches (v : Slot) (w : View) : Prop where
  everOk : v.everOk = w.confirmed.isSome
  lastOk : ∀ s, w.confirmed = some s → v.lastOkMs = reading s
  unknown : v.showingUnknown = true ↔ w.ShowsUnknown
  confirmed_mem : ∀ s, w.confirmed = some s → s ∈ w.refreshes

theorem matches_bind (b : Binding) : Matches b.slot View.empty := by
  refine ⟨rfl, fun s h => absurd h (by simp [View.empty]), ?_, fun s h => absurd h (by simp [View.empty])⟩
  simp [Binding.slot, Slot.zero, View.ShowsUnknown, View.empty]

/-- Whether a slot is visible is no part of the invariant. -/
theorem Matches.visible {v : Slot} {w : View} (h : Matches v w) (visible : Bool) :
    Matches { v with visible } w :=
  ⟨h.everOk, h.lastOk, h.unknown, h.confirmed_mem⟩

section Refresh

variable (i : ℕ) (v : Slot) (w : View) (time : ℕ) (p : Produced)

/-- What the widget is told by a refresh. -/
def told : Render :=
  wardenFreshDecide p.result v.everOk v.showingUnknown (reading time - v.lastOkMs) v.maxStaleMs

theorem confirmed_refreshOne :
    (run View.step w (refreshOne i v time p).2).confirmed =
      if p.result = .unknown then w.confirmed else some time := by
  unfold refreshOne
  dsimp only
  split <;> rfl

theorem refreshes_refreshOne :
    (run View.step w (refreshOne i v time p).2).refreshes = w.refreshes ++ [time] := by
  unfold refreshOne
  dsimp only
  split <;> rfl

/-- A refresh leaves on the widget what it is told to show, or what was there. -/
theorem shows_refreshOne {what : Render} (hwhat : what ≠ .nochange) :
    (∃ text, (run View.step w (refreshOne i v time p).2).shown = some (what, text)) ↔
      told v time p = what ∨
        (told v time p = .nochange ∧ ∃ text, w.shown = some (what, text)) := by
  unfold refreshOne told
  dsimp only
  split
  · next h => simp [h, View.step]
  · next h => simp [h, View.step]
  · next h => simp [h, hwhat.symm, View.step]

theorem showsUnknown_refreshOne :
    (run View.step w (refreshOne i v time p).2).ShowsUnknown ↔
      told v time p = .unknown ∨ (told v time p = .nochange ∧ w.ShowsUnknown) :=
  shows_refreshOne i v w time p (by decide)

theorem showsValue_refreshOne :
    (run View.step w (refreshOne i v time p).2).ShowsValue ↔
      told v time p = .value ∨ (told v time p = .nochange ∧ w.ShowsValue) :=
  shows_refreshOne i v w time p (by decide)

theorem fields_refreshOne :
    (refreshOne i v time p).1.everOk = (decide (p.result ≠ .unknown) || v.everOk) ∧
      (refreshOne i v time p).1.lastOkMs =
        (if p.result = .unknown then v.lastOkMs else reading time) ∧
      ((refreshOne i v time p).1.showingUnknown = true ↔
        told v time p = .unknown ∨ (told v time p = .nochange ∧ v.showingUnknown = true)) := by
  unfold refreshOne told
  dsimp only
  split
  · next h =>
    rw [h]
    cases p.result <;> simp
  · next h =>
    rw [h]
    cases p.result <;> simp
  · next h =>
    rw [h]
    cases p.result <;> simp

variable {v w}

/-- **A refresh keeps the slot and its calls in step.** -/
theorem Matches.refreshOne (h : Matches v w) :
    Matches (refreshOne i v time p).1 (run View.step w (refreshOne i v time p).2) := by
  obtain ⟨hever, hlast, hunknown⟩ := fields_refreshOne i v time p
  have hconf := confirmed_refreshOne i v w time p
  have href := refreshes_refreshOne i v w time p
  refine ⟨?_, ?_, ?_, ?_⟩
  · rw [hever, hconf, h.everOk]
    by_cases hr : p.result = .unknown <;> simp [hr]
  · intro s hs
    rw [hconf] at hs
    rw [hlast]
    by_cases hr : p.result = .unknown
    · rw [if_pos hr] at hs ⊢
      exact h.lastOk s hs
    · rw [if_neg hr] at hs ⊢
      rw [Option.some_inj.mp hs]
  · rw [hunknown, showsUnknown_refreshOne, h.unknown]
  · intro s hs
    rw [hconf] at hs
    rw [href]
    by_cases hr : p.result = .unknown
    · rw [if_pos hr] at hs
      exact List.mem_append_left _ (h.confirmed_mem s hs)
    · rw [if_neg hr] at hs
      rw [Option.some_inj.mp hs]
      exact List.mem_append_right _ (List.mem_singleton_self _)

end Refresh

/-! ## Following a binding through a run -/

/-- The table after a run that starts with an empty table of `n` slots. -/
def tableAfter (n : ℕ) (ops : List Op) : List Slot := (run World.step (World.init n) ops).table

/-- The table right after `b` was bound, and from there on the table and the
calls of the operations `post`. -/
def since (n : ℕ) (pre : List Op) (b : Binding) (post : List Op) : World :=
  run World.step ⟨(wardenFreshBind (tableAfter n pre) b).1, []⟩ post

/-- The real times of the operations of a run. -/
def times (ops : List Op) : List ℕ := ops.filterMap Op.time

/-- The binding `b` sits in slot `i`, as the calls made for the slot say. -/
structure Tracked (b : Binding) (i : ℕ) (past : List Op) (w : World) : Prop where
  slot : ∃ v, w.table[i]? = some v ∧ v.used = true ∧ v.page = b.page ∧
    v.maxStaleMs = b.maxStaleMs ∧ Matches v (viewOf i w.calls) ∧
    ((∀ op ∈ past, op ≠ .setVisible b.page false) → v.visible = true)
  refreshes : ∀ t ∈ (viewOf i w.calls).refreshes, t ∈ times past

theorem viewOf_append (i : ℕ) (cs cs' : List Call) :
    viewOf i (cs ++ cs') = run View.step (viewOf i cs) (callsFor i cs') := by
  rw [viewOf, callsFor_append, run_append, viewOf]

theorem times_append (ops ops' : List Op) : times (ops ++ ops') = times ops ++ times ops' :=
  List.filterMap_append ..

theorem bind_table {t : List Slot} {b : Binding} {i : ℕ} (h : (wardenFreshBind t b).2 = some i) :
    (wardenFreshBind t b).1[i]? = some b.slot := by
  unfold wardenFreshBind at h ⊢
  split at h
  · exact absurd h (by simp)
  · next hnull =>
    rw [if_neg hnull]
    split at h
    · next j hj =>
      have hji : j = i := Option.some_inj.mp h
      subst hji
      obtain ⟨hlt, -, -⟩ := List.findIdx?_eq_some_iff_getElem.mp hj
      exact List.getElem?_set_self hlt
    · exact absurd h (by simp)

theorem tracked_bind {t : List Slot} {b : Binding} {i : ℕ}
    (h : (wardenFreshBind t b).2 = some i) : Tracked b i [] ⟨(wardenFreshBind t b).1, []⟩ :=
  ⟨⟨b.slot, bind_table h, rfl, rfl, rfl, matches_bind b, fun _ => rfl⟩,
    fun t ht => absurd ht (by simp [viewOf, View.empty])⟩

/-- **Every operation but a reset keeps a binding tracked.** -/
theorem Tracked.step {b : Binding} {i : ℕ} {past : List Op} {w : World}
    (h : Tracked b i past w) {op : Op} (hop : op ≠ .reset) :
    Tracked b i (past ++ [op]) (w.step op) := by
  obtain ⟨v, hv, hused, hpage, hbudget, hmatch, hvisible⟩ := h.slot
  obtain ⟨htable, hcalls⟩ := getElem?_apply hv hused hop
  have hview : viewOf i (w.step op).calls =
      run View.step (viewOf i w.calls) (op.onSlot i v).2 := by
    rw [World.step, viewOf_append, hcalls]
  have hpast : ∀ t ∈ times past, t ∈ times (past ++ [op]) := fun t ht => by
    rw [times_append]
    exact List.mem_append_left _ ht
  obtain ⟨visible, hkeep, hcases⟩ := onSlot_cases i v hop
  have hvis : (∀ op' ∈ past ++ [op], op' ≠ .setVisible b.page false) → visible = true := by
    intro hall
    refine hkeep (hvisible fun op' hop' => hall op' (List.mem_append_left _ hop')) ?_
    rw [hpage]
    exact hall op (List.mem_append_right _ (List.mem_singleton_self _))
  rcases hcases with ⟨time, p, htime, hslot⟩ | hslot
  · rw [hslot] at htable hview
    obtain ⟨k₁, k₂, k₃, k₄⟩ := refreshOne_keeps i { v with visible } time p
    refine ⟨⟨_, htable, k₃.trans hused, k₁.trans hpage, k₂.trans hbudget, ?_, ?_⟩, ?_⟩
    · rw [hview]
      exact (hmatch.visible visible).refreshOne i time p
    · intro hall
      rw [k₄]
      exact hvis hall
    · intro t ht
      rw [hview, refreshes_refreshOne, List.mem_append, List.mem_singleton] at ht
      rcases ht with ht | rfl
      · exact hpast t (h.refreshes t ht)
      · rw [times_append]
        exact List.mem_append_right _ (by simp [times, htime])
  · rw [hslot] at htable hview
    refine ⟨⟨_, htable, hused, hpage, hbudget, ?_, hvis⟩, ?_⟩
    · rw [hview]
      exact hmatch.visible visible
    · intro t ht
      rw [hview] at ht
      exact hpast t (h.refreshes t ht)

/-- A binding stays tracked through any run without a reset. -/
theorem tracked_since {n : ℕ} {pre post : List Op} {b : Binding} {i : ℕ}
    (hbind : (wardenFreshBind (tableAfter n pre) b).2 = some i)
    (hpost : ∀ op ∈ post, op ≠ .reset) : Tracked b i post (since n pre b post) := by
  refine run_history (I := fun past w => (∀ op ∈ past, op ≠ .reset) → Tracked b i past w)
    (fun _ => tracked_bind hbind) ?_ post hpost
  intro past w op ih hall
  exact (ih fun op' h => hall op' (List.mem_append_left _ h)).step
    (hall op (List.mem_append_right _ (List.mem_singleton_self _)))

/-! ## A page that stays visible -/

/-- At the last refresh the widget either showed the UNKNOWN mark or a value
confirmed within the budget. -/
def FreshWithin (budget : ℕ) (w : View) : Prop :=
  ∀ t, w.refreshes.getLast? = some t → ¬ w.ShowsUnknown →
    ∃ s, w.confirmed = some s ∧ t ≤ s + budget

/-- What the widget is told when the producer cannot answer. -/
theorem told_of_unknown {v : Slot} {time : ℕ} {p : Produced} (hr : p.result = .unknown) :
    told v time p =
      if v.everOk = true ∧ (reading time - v.lastOkMs).toNat ≤ v.maxStaleMs.toNat then .nochange
      else .unknown := by
  unfold told wardenFreshDecide
  rw [hr]
  cases v.everOk with
  | false => simp
  | true =>
    by_cases hage : reading time - v.lastOkMs > v.maxStaleMs
    · have hlt : v.maxStaleMs.toNat < (reading time - v.lastOkMs).toNat :=
        UInt32.lt_iff_toNat_lt.mp hage
      simp [hage, Nat.not_le.mpr hlt]
    · have hle : (reading time - v.lastOkMs).toNat ≤ v.maxStaleMs.toNat :=
        UInt32.le_iff_toNat_le.mp (UInt32.not_lt.mp hage)
      simp [hage, hle]

/-- **A refresh that comes in time keeps the value fresh.**  The age of a value
that still stands is at most the gap plus the budget, so it is read exactly. -/
theorem FreshWithin.refreshOne {v : Slot} {w : View} {i g time : ℕ} {p : Produced}
    (hfresh : FreshWithin v.maxStaleMs.toNat w) (h : Matches v w)
    (hg : g + v.maxStaleMs.toNat < 2 ^ 32)
    (hgap : ∀ t, w.refreshes.getLast? = some t → time ≤ t + g)
    (hpast : ∀ t ∈ w.refreshes, t ≤ time) :
    FreshWithin v.maxStaleMs.toNat (run View.step w (refreshOne i v time p).2) := by
  intro t ht hshown
  rw [refreshes_refreshOne, List.getLast?_concat, Option.some_inj] at ht
  subst ht
  rw [showsUnknown_refreshOne, not_or, not_and] at hshown
  rw [confirmed_refreshOne]
  by_cases hr : p.result = .unknown
  · rw [told_of_unknown hr] at hshown
    rw [if_pos hr]
    obtain ⟨hunknown, hkeep⟩ := hshown
    have hstands : v.everOk = true ∧
        (reading time - v.lastOkMs).toNat ≤ v.maxStaleMs.toNat := by
      by_contra hnot
      exact hunknown (if_neg hnot)
    obtain ⟨hever, hage⟩ := hstands
    obtain ⟨s, hs⟩ := Option.isSome_iff_exists.mp (h.everOk ▸ hever)
    have hmem := h.confirmed_mem s hs
    have hst : s ≤ time := hpast s hmem
    have hlast := List.getLast?_eq_some_getLast (List.ne_nil_of_mem hmem)
    obtain ⟨s', hs', hle⟩ := hfresh _ hlast (hkeep (if_pos ⟨hever, hage⟩))
    have hss : s' = s := Option.some_inj.mp (hs'.symm.trans hs)
    have hlt : time - s < 2 ^ 32 := by
      have := hgap _ hlast
      omega
    rw [h.lastOk s hs, toNat_reading_sub_of_lt hst hlt] at hage
    exact ⟨s, hs, by omega⟩
  · rw [if_neg hr]
    exact ⟨time, rfl, Nat.le_add_right _ _⟩

/-- The scan for the smallest budget, as an invariant: a budget that was counted
bounds the result. -/
theorem foldl_budgetStep_le (t : List Slot) (acc : UInt32 × Bool) :
    (acc.2 = true → (t.foldl budgetStep acc).1 ≤ acc.1 ∧ (t.foldl budgetStep acc).2 = true) ∧
      ∀ v ∈ t, v.used = true → v.visible = true →
        (t.foldl budgetStep acc).1 ≤ v.maxStaleMs := by
  induction t generalizing acc with
  | nil => exact ⟨fun h => ⟨UInt32.le_refl _, h⟩, fun v hv => absurd hv (by simp)⟩
  | cons u t ih =>
    rw [List.foldl_cons]
    obtain ⟨ih₁, ih₂⟩ := ih (budgetStep acc u)
    refine ⟨fun hseen => ?_, fun v hv hused hvisible => ?_⟩
    · by_cases hu : (u.used && u.visible && (!acc.2 || decide (u.maxStaleMs < acc.1))) = true
      · have hstep : budgetStep acc u = (u.maxStaleMs, true) := by rw [budgetStep, if_pos hu]
        rw [hstep] at ih₁ ⊢
        obtain ⟨hle, hflag⟩ := ih₁ rfl
        simp only [hseen, Bool.not_true, Bool.false_or, Bool.and_eq_true,
          decide_eq_true_eq] at hu
        exact ⟨UInt32.le_trans hle (UInt32.le_of_lt hu.2), hflag⟩
      · have hstep : budgetStep acc u = acc := by rw [budgetStep, if_neg hu]
        rw [hstep] at ih₁ ⊢
        exact ih₁ hseen
    · rcases List.mem_cons.mp hv with rfl | hv
      · by_cases hu : (!acc.2 || decide (v.maxStaleMs < acc.1)) = true
        · have hstep : budgetStep acc v = (v.maxStaleMs, true) := by
            rw [budgetStep, if_pos (by simp only [hused, hvisible, hu, Bool.and_self])]
          rw [hstep] at ih₁ ⊢
          exact (ih₁ rfl).1
        · have hstep : budgetStep acc v = acc := by
            rw [budgetStep, if_neg (by simp only [hused, hvisible, Bool.and_self, Bool.true_and]; exact hu)]
          simp only [Bool.or_eq_true, Bool.not_eq_true', decide_eq_true_eq, not_or,
            Bool.not_eq_false, UInt32.not_lt] at hu
          rw [hstep] at ih₁ ⊢
          exact UInt32.le_trans (ih₁ hu.1).1 hu.2
      · exact ih₂ v hv hused hvisible

theorem minBudget_le {t : List Slot} {v : Slot} (hv : v ∈ t) (hused : v.used = true)
    (hvisible : v.visible = true) : (wardenFreshMinBudgetMs t).toNat ≤ v.maxStaleMs.toNat :=
  UInt32.le_iff_toNat_le.mp ((foldl_budgetStep_le t (0, false)).2 v hv hused hvisible)

/-- The gap `g` and the budget of `b` stay below the wrap: either outright, or
because `g` is the smallest budget on screen at some moment of the run at which
every visible budget is below `2 ^ 31`. -/
def GapFits (n : ℕ) (pre : List Op) (b : Binding) (post : List Op) (g : ℕ) : Prop :=
  g + b.maxStaleMs.toNat < 2 ^ 32 ∨
    ∃ mid, mid <+: post ∧ g = (wardenFreshMinBudgetMs (since n pre b mid).table).toNat ∧
      ∀ v ∈ (since n pre b mid).table, v.used = true → v.visible = true →
        v.maxStaleMs.toNat < 2 ^ 31

theorem GapFits.lt {n : ℕ} {pre post : List Op} {b : Binding} {i g : ℕ}
    (h : GapFits n pre b post g) (hbind : (wardenFreshBind (tableAfter n pre) b).2 = some i)
    (hpost : ∀ op ∈ post, op ≠ .reset ∧ op ≠ .setVisible b.page false) :
    g + b.maxStaleMs.toNat < 2 ^ 32 := by
  rcases h with h | ⟨mid, hmid, rfl, hall⟩
  · exact h
  · have hops : ∀ op ∈ mid, op ∈ post := fun op h => hmid.subset h
    obtain ⟨v, hv, hused, -, hbudget, -, hvisible⟩ :=
      (tracked_since hbind fun op h => (hpost op (hops op h)).1).slot
    have hmem : v ∈ (since n pre b mid).table := List.mem_of_getElem? hv
    have hvis := hvisible fun op h => (hpost op (hops op h)).2
    have hlt := hall v hmem hused hvis
    have hle := minBudget_le hmem hused hvis
    rw [hbudget] at hlt hle
    omega

theorem refreshes_prefix (w : View) (cs : List Call) :
    w.refreshes <+: (run View.step w cs).refreshes := by
  induction cs generalizing w with
  | nil => exact List.prefix_rfl
  | cons c cs ih =>
    refine List.IsPrefix.trans ?_ (ih (w.step c))
    cases c with
    | produce i time p => exact List.prefix_append _ _
    | render i what text => exact List.prefix_rfl

theorem calls_prefix (w : World) (ops : List Op) : w.calls <+: (run World.step w ops).calls := by
  induction ops generalizing w with
  | nil => exact List.prefix_rfl
  | cons op ops ih => exact (List.prefix_append _ _).trans (ih (w.step op))

/-- The refreshes of a binding only grow along a run. -/
theorem refreshes_since_prefix (n : ℕ) (pre : List Op) (b : Binding) (i : ℕ) (past rest : List Op) :
    (viewOf i (since n pre b past).calls).refreshes <+:
      (viewOf i (since n pre b (past ++ rest)).calls).refreshes := by
  have hrun : since n pre b (past ++ rest) = run World.step (since n pre b past) rest :=
    run_append _ _ _ _
  obtain ⟨cs, hcs⟩ := calls_prefix (since n pre b past) rest
  rw [hrun, ← hcs, viewOf_append]
  exact refreshes_prefix _ _

/-- Refreshes that come in time keep a binding fresh through a whole run. -/
theorem fresh_since {n : ℕ} {pre post : List Op} {b : Binding} {i g : ℕ}
    (hbind : (wardenFreshBind (tableAfter n pre) b).2 = some i)
    (hpost : ∀ op ∈ post, op ≠ .reset) (hmono : (times post).Pairwise (· ≤ ·))
    (hgap : (viewOf i (since n pre b post).calls).refreshes.IsChain fun s t => t ≤ s + g)
    (hg : g + b.maxStaleMs.toNat < 2 ^ 32) :
    FreshWithin b.maxStaleMs.toNat (viewOf i (since n pre b post).calls) := by
  refine (run_history (I := fun past w => (∀ op ∈ past, op ≠ .reset) → Tracked b i past w ∧
    ((times past).Pairwise (· ≤ ·) →
      ((viewOf i w.calls).refreshes.IsChain fun s t => t ≤ s + g) →
      FreshWithin b.maxStaleMs.toNat (viewOf i w.calls)))
    (fun _ => ⟨tracked_bind hbind, fun _ _ t ht => absurd ht (by simp [viewOf, View.empty])⟩)
    ?_ post hpost).2 hmono hgap
  intro past w op ih hall
  have hop : op ≠ .reset := hall op (List.mem_append_right _ (List.mem_singleton_self _))
  obtain ⟨htracked, hfresh⟩ := ih fun op' h => hall op' (List.mem_append_left _ h)
  refine ⟨htracked.step hop, fun hmono hchain => ?_⟩
  obtain ⟨v, hv, hused, -, hbudget, hmatch, -⟩ := htracked.slot
  obtain ⟨-, hcalls⟩ := getElem?_apply hv hused hop
  have hview : viewOf i (w.step op).calls =
      run View.step (viewOf i w.calls) (op.onSlot i v).2 := by
    rw [World.step, viewOf_append, hcalls]
  rw [times_append, List.pairwise_append] at hmono
  obtain ⟨hmono, -, hlast⟩ := hmono
  obtain ⟨visible, -, ⟨time, p, htime, hslot⟩ | hslot⟩ := onSlot_cases i v hop
  · rw [hview, hslot, refreshes_refreshOne, List.isChain_append] at hchain
    obtain ⟨hchain, -, hgap⟩ := hchain
    rw [hview, hslot, ← hbudget]
    refine FreshWithin.refreshOne (v := { v with visible }) (g := g) ?_ (hmatch.visible visible)
      (by rw [hbudget]; exact hg) ?_ ?_
    · rw [hbudget]
      exact hfresh hmono hchain
    · intro t ht
      exact hgap t ht time (by simp)
    · intro t ht
      exact hlast t (htracked.refreshes t ht) time (by simp [times, htime])
  · rw [hview, hslot] at hchain ⊢
    exact hfresh hmono hchain

/-- **No stale value on a visible page, across clock wrap.**  Take a binding that
stays visible from its bind on and is refreshed at gaps of at most `g`, with `g`
and its budget below the wrap.  After every refresh, a widget that was not last
told to show the UNKNOWN mark shows a value whose producer reported `FRESH_OK` or
`FRESH_SAME` at most the budget ago; so at every instant until the next refresh
is due the value was confirmed at most the budget plus `g` ago. -/
theorem visible_value_fresh {n : ℕ} {pre post : List Op} {b : Binding} {i g : ℕ}
    (hbind : (wardenFreshBind (tableAfter n pre) b).2 = some i)
    (hmono : (times (pre ++ .bind b :: post)).Pairwise (· ≤ ·))
    (hvisible : ∀ op ∈ post, op ≠ .reset ∧ op ≠ .setVisible b.page false)
    (hgap : (viewOf i (since n pre b post).calls).refreshes.IsChain fun s t => t ≤ s + g)
    (hfits : GapFits n pre b post g) :
    ∀ past, past <+: post → ∀ t,
      (viewOf i (since n pre b past).calls).refreshes.getLast? = some t →
      ¬ (viewOf i (since n pre b past).calls).ShowsUnknown →
      ∃ s, (viewOf i (since n pre b past).calls).confirmed = some s ∧
        t ≤ s + b.maxStaleMs.toNat ∧
        ∀ instant, instant ≤ t + g → instant ≤ s + (b.maxStaleMs.toNat + g) := by
  have hg := hfits.lt hbind hvisible
  rintro past ⟨rest, rfl⟩ t ht hshown
  have hops : ∀ op ∈ past, op ≠ .reset := fun op h =>
    (hvisible op (List.mem_append_left _ h)).1
  have htimes : (times past).Pairwise (· ≤ ·) := by
    rw [times_append, show times (.bind b :: (past ++ rest)) = times (past ++ rest) from rfl,
      times_append] at hmono
    exact (List.pairwise_append.mp (List.pairwise_append.mp hmono).2.1).1
  obtain ⟨more, hmore⟩ := refreshes_since_prefix n pre b i past rest
  rw [← hmore] at hgap
  obtain ⟨s, hs, hle⟩ := fresh_since hbind hops htimes hgap.left_of_append hg t ht hshown
  exact ⟨s, hs, hle, fun instant h => by omega⟩

/-- A binding with a budget of 100 ms, confirmed at 0 and refreshed 50 ms later by
a producer that cannot answer, still shows its value. -/
theorem visible_value_fresh_of_blip :
    let b : Binding := ⟨1, 1, 0, 100, none, 1, 9⟩
    let post : List Op := [.tick 0 fun _ => ⟨.ok, [0x37]⟩, .tick 50 fun _ => ⟨.unknown, []⟩]
    (viewOf 0 (since 96 [] b post).calls).shown = some (.value, [0x37]) ∧
      ∃ s, (viewOf 0 (since 96 [] b post).calls).confirmed = some s ∧ 50 ≤ s + 100 ∧
        ∀ instant, instant ≤ 50 + 60 → instant ≤ s + (100 + 60) := by
  intro b post
  have hshown : (viewOf 0 (since 96 [] b post).calls).shown = some (.value, [0x37]) := by decide
  refine ⟨hshown, @visible_value_fresh 96 [] post b 0 60
    (by decide) (by decide) ?_ (by decide) (Or.inl (by decide)) post List.prefix_rfl 50 (by decide) ?_⟩
  · intro op hop
    simp only [post, List.mem_cons, List.not_mem_nil, or_false] at hop
    rcases hop with rfl | rfl <;> exact ⟨by simp, by simp⟩
  · exact View.ShowsValue.not_showsUnknown ⟨_, hshown⟩

/-! ## A page that is shown again -/

/-- The widget shows the UNKNOWN mark, or a value confirmed at most the budget
before `t`. -/
def ShowsFresh (budget t : ℕ) (w : View) : Prop :=
  w.ShowsUnknown ∨ (w.ShowsValue ∧ ∃ s, w.confirmed = some s ∧ t ≤ s + budget)

section Told

variable {v : Slot} {w : View} {t : ℕ} {p : Produced}

theorem told_of_ok (hr : p.result = .ok) : told v t p = .value := by
  rw [told, hr]
  rfl

/-- An unchanged value is painted only over the UNKNOWN mark. -/
theorem told_of_same (hr : p.result = .same) :
    told v t p = if v.showingUnknown then .value else .nochange := by
  rw [told, hr]
  rfl

/-- An answer confirms what the widget shows, if it shows anything. -/
theorem showsFresh_refreshOne_of_answer (i : ℕ) (h : Matches v w) (hr : p.result ≠ .unknown) :
    ShowsFresh v.maxStaleMs.toNat t (run View.step w (refreshOne i v t p).2) ↔
      p.result = .ok ∨ w.ShowsUnknown ∨ w.ShowsValue := by
  have hfresh : ∃ s, some t = some s ∧ t ≤ s + v.maxStaleMs.toNat :=
    ⟨t, rfl, Nat.le_add_right _ _⟩
  rw [ShowsFresh, showsUnknown_refreshOne, showsValue_refreshOne, confirmed_refreshOne, if_neg hr,
    and_iff_left hfresh]
  cases hp : p.result with
  | ok => simp [told_of_ok hp]
  | unknown => exact absurd hp hr
  | same =>
    have hunknown := h.unknown
    cases hv : v.showingUnknown with
    | true =>
      have hshown : w.ShowsUnknown := hunknown.mp hv
      simp [told_of_same hp, hv, hshown]
    | false =>
      have hshown : ¬ w.ShowsUnknown := fun hshown =>
        Bool.false_ne_true (hv.symm.trans (hunknown.mpr hshown))
      simp [told_of_same hp, hv, hshown]

/-- A producer that cannot answer leaves a widget as it is while the age modulo
`2 ^ 32` is within the budget, and has it marked unknown otherwise. -/
theorem showsFresh_refreshOne_of_unknown (i : ℕ) (h : Matches v w) (hr : p.result = .unknown)
    (hpast : ∀ s, w.confirmed = some s → s ≤ t) :
    ShowsFresh v.maxStaleMs.toNat t (run View.step w (refreshOne i v t p).2) ↔
      w.ShowsUnknown ∨ ∀ s, w.confirmed = some s →
        (w.ShowsValue ∧ t ≤ s + v.maxStaleMs.toNat) ∨ v.maxStaleMs.toNat < (t - s) % 2 ^ 32 := by
  rw [ShowsFresh, showsUnknown_refreshOne, showsValue_refreshOne, confirmed_refreshOne, if_pos hr,
    told_of_unknown hr, h.everOk]
  cases hc : w.confirmed with
  | none => simp
  | some s =>
    rw [h.lastOk s hc, toNat_reading_sub (hpast s hc)]
    simp only [Option.some_inj, forall_eq']
    generalize (t - s) % 2 ^ 32 = age
    by_cases hage : age ≤ v.maxStaleMs.toNat
    · simp [hage, Nat.not_lt.mpr hage]
    · simp [hage, Nat.not_le.mp hage]

end Told

/-- What one refresh makes of a widget, whatever the age of its value. -/
theorem showsFresh_refreshOne_iff {v : Slot} {w : View} (i : ℕ) {t : ℕ} (p : Produced)
    (h : Matches v w) (hpast : ∀ s, w.confirmed = some s → s ≤ t) :
    ShowsFresh v.maxStaleMs.toNat t (run View.step w (refreshOne i v t p).2) ↔
      p.result = .ok ∨ w.ShowsUnknown ∨ (p.result = .same ∧ w.ShowsValue) ∨
        (p.result = .unknown ∧ ∀ s, w.confirmed = some s →
          (w.ShowsValue ∧ t ≤ s + v.maxStaleMs.toNat) ∨
            v.maxStaleMs.toNat < (t - s) % 2 ^ 32) := by
  cases hr : p.result with
  | ok | same =>
    rw [showsFresh_refreshOne_of_answer i h (by simp [hr])]
    simp [hr]
  | unknown =>
    rw [showsFresh_refreshOne_of_unknown i h hr hpast]
    simp

/-- **The on-show guarantee, exactly.**  Right after `warden_fresh_page_show` a
binding of the page shows the UNKNOWN mark or a value within its budget if and
only if its producer answers `FRESH_OK`; or the widget was already marked
unknown; or the producer answers `FRESH_SAME` of a value that is shown; or it
cannot answer, and the last confirmation, if there was one, is either of a value
that is shown and within its budget, or so old that its age modulo `2 ^ 32` is
over the budget. -/
theorem pageShow_showsFresh_iff {n : ℕ} {pre post : List Op} {b : Binding} {i t : ℕ}
    {out : ℕ → Produced} (hbind : (wardenFreshBind (tableAfter n pre) b).2 = some i)
    (hmono : (times (pre ++ .bind b :: (post ++ [.pageShow b.page t out]))).Pairwise (· ≤ ·))
    (hpost : ∀ op ∈ post, op ≠ .reset) :
    ShowsFresh b.maxStaleMs.toNat t
        (viewOf i (since n pre b (post ++ [.pageShow b.page t out])).calls) ↔
      (out i).result = .ok ∨ (viewOf i (since n pre b post).calls).ShowsUnknown ∨
        ((out i).result = .same ∧ (viewOf i (since n pre b post).calls).ShowsValue) ∨
        ((out i).result = .unknown ∧
          ∀ s, (viewOf i (since n pre b post).calls).confirmed = some s →
            ((viewOf i (since n pre b post).calls).ShowsValue ∧ t ≤ s + b.maxStaleMs.toNat) ∨
              b.maxStaleMs.toNat < (t - s) % 2 ^ 32) := by
  obtain ⟨⟨v, hv, hused, hpage, hbudget, hmatch, -⟩, hrefs⟩ := tracked_since hbind hpost
  have hcalls : callsFor i (World.apply (since n pre b post).table (.pageShow b.page t out)).2 = _ :=
    (getElem?_apply hv hused (by simp)).2
  generalize hw : viewOf i (since n pre b post).calls = w at hmatch hrefs ⊢
  have hview : viewOf i (since n pre b (post ++ [.pageShow b.page t out])).calls =
      run View.step w (refreshOne i { v with visible := true } t (out i)).2 := by
    have hrun : since n pre b (post ++ [.pageShow b.page t out]) =
      (since n pre b post).step (.pageShow b.page t out) := run_concat _ _ _ _
    rw [hrun, World.step, viewOf_append, hcalls, hw, Op.onSlot, if_pos hpage]
  have hpast : ∀ s, w.confirmed = some s → s ≤ t := by
    intro s hs
    have hmem : s ∈ times post := hrefs s (hmatch.confirmed_mem s hs)
    rw [times_append, show times (.bind b :: (post ++ [.pageShow b.page t out])) =
      times (post ++ [.pageShow b.page t out]) from rfl, times_append] at hmono
    exact (List.pairwise_append.mp (List.pairwise_append.mp hmono).2.1).2.2 s hmem t
      (by simp [times, Op.time])
  rw [hview, ← hbudget]
  exact showsFresh_refreshOne_iff i (out i) (hmatch.visible true) hpast

/-- A page hidden for a minute and shown again while its producer cannot answer:
the value is marked unknown. -/
theorem pageShow_showsFresh_after_minute :
    let b : Binding := ⟨1, 1, 0, 100, none, 1, 9⟩
    let post : List Op := [.tick 0 fun _ => ⟨.ok, [0x37]⟩, .setVisible 1 false]
    ShowsFresh 100 60000 (viewOf 0 (since 96 [] b
      (post ++ [.pageShow 1 60000 fun _ => ⟨.unknown, []⟩])).calls) := by
  intro b post
  refine (@pageShow_showsFresh_iff 96 [] post b 0 60000 _ (by decide) (by decide)
    ?_).mpr (Or.inr (Or.inr (Or.inr ⟨rfl, fun s hs => Or.inr ?_⟩)))
  · intro op hop
    simp only [post, List.mem_cons, List.not_mem_nil, or_false] at hop
    rcases hop with rfl | rfl <;> simp
  · have hconf : (viewOf 0 (since 96 [] b post).calls).confirmed = some 0 := by decide
    rw [hconf, Option.some_inj] at hs
    subst hs
    decide

/-- The same page hidden for `2 ^ 32` ms, about fifty days: the old value stands. -/
theorem pageShow_shows_stale_after_wrap :
    let b : Binding := ⟨1, 1, 0, 100, none, 1, 9⟩
    let ops : List Op := [.tick 0 fun _ => ⟨.ok, [0x37]⟩, .setVisible 1 false,
      .pageShow 1 (2 ^ 32) fun _ => ⟨.unknown, []⟩]
    (wardenFreshBind (tableAfter 96 []) b).2 = some 0 ∧
      (times (.bind b :: ops)).Pairwise (· ≤ ·) ∧
      (viewOf 0 (since 96 [] b ops).calls).shown = some (.value, [0x37]) ∧
      ¬ ShowsFresh 100 (2 ^ 32) (viewOf 0 (since 96 [] b ops).calls) := by
  intro b ops
  have hshown : (viewOf 0 (since 96 [] b ops).calls).shown = some (.value, [0x37]) := by decide
  have hconf : (viewOf 0 (since 96 [] b ops).calls).confirmed = some 0 := by decide
  refine ⟨by decide, by decide, hshown, ?_⟩
  rintro (hunknown | ⟨-, s, hs, hle⟩)
  · exact View.ShowsValue.not_showsUnknown ⟨_, hshown⟩ hunknown
  · rw [hconf, Option.some_inj] at hs
    omega

/-- A page shown for the first time with an unchanged value shows nothing. -/
example : (viewOf 0 (since 96 [] ⟨1, 1, 0, 100, none, 1, 9⟩
    [.pageShow 1 0 fun _ => ⟨.same, []⟩]).calls).shown = none := by
  decide

end Freshness
end WardenSdk
