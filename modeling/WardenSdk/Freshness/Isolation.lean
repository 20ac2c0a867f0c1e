import WardenSdk.Freshness.Staleness

/-!
# Bindings do not interfere

The engine scans one table for every operation, so a wrong guard in one loop
would let a binding act on another.  This file shows that it does not, in two
parts.

* `Alike` relates a binding inside a full table to the same binding in an engine
  that holds nothing else.  An operation keeps it, once it is seen as the lone
  engine sees it (`Op.alone`): no bind of anyone else, and the answers of the
  one producer.  The calls are the same up to the number of the slot.
* `Ledger` runs the engine with the list of the slots its binds have returned
  since the last reset.  `Ledger.Tracks` says that these are, without
  repetition, the slots in use.
-/

namespace WardenSdk
namespace Freshness

open Lib

/-! ## The engine that holds one binding -/

/-- The same call, made for another slot. -/
def Call.moveTo (i : ℕ) : Call → Call
  | .produce _ time p => .produce i time p
  | .render _ what text => .render i what text

/-- An operation as an engine sees it that holds only the binding of slot `i`. -/
def Op.alone (i : ℕ) : Op → Option Op
  | .bind _ => none
  | .setVisible page visible => some (.setVisible page visible)
  | .pageShow page time out => some (.pageShow page time fun _ => out i)
  | .tick time out => some (.tick time fun _ => out i)
  | .invalidate source time out => some (.invalidate source time fun _ => out i)
  | .reset => some .reset

/-- An engine with `n` slots that binds `b` and then sees the operations as the
binding of slot `i` in another engine does. -/
def aloneRun (n : ℕ) (b : Binding) (i : ℕ) (ops : List Op) : World :=
  run World.step (World.init n) (.bind b :: ops.filterMap (Op.alone i))

theorem refreshOne_moveTo (i j : ℕ) (v : Slot) (time : ℕ) (p : Produced) :
    refreshOne i v time p =
      ((refreshOne j v time p).1, (refreshOne j v time p).2.map (Call.moveTo i)) := by
  unfold refreshOne
  dsimp only
  split
  · rfl
  · rfl
  · rfl

/-- What an operation does to a binding does not depend on its slot. -/
theorem onSlot_alone (i : ℕ) (v : Slot) {op op' : Op} (h : op.alone i = some op') :
    op.onSlot i v = ((op'.onSlot 0 v).1, (op'.onSlot 0 v).2.map (Call.moveTo i)) := by
  cases op with
  | bind b => exact nomatch h
  | setVisible page visible =>
    obtain rfl := Option.some_inj.1 h
    rfl
  | pageShow page time out =>
    obtain rfl := Option.some_inj.1 h
    simp only [Op.onSlot]
    split
    · exact refreshOne_moveTo i 0 _ time (out i)
    · rfl
  | tick time out =>
    obtain rfl := Option.some_inj.1 h
    simp only [Op.onSlot]
    split
    · exact refreshOne_moveTo i 0 _ time (out i)
    · rfl
  | invalidate source time out =>
    obtain rfl := Option.some_inj.1 h
    simp only [Op.onSlot]
    split
    · exact refreshOne_moveTo i 0 _ time (out i)
    · rfl
  | reset =>
    obtain rfl := Option.some_inj.1 h
    rfl

/-- The loop makes no call for a slot that is not in use. -/
theorem refreshWhere_zero (touch : Slot → Option Slot) (time : ℕ) (out : ℕ → Produced)
    (h : touch Slot.zero = none) (j k : ℕ) :
    refreshWhere touch time out j (List.replicate k Slot.zero) =
      (List.replicate k Slot.zero, []) := by
  induction k generalizing j with
  | zero => rfl
  | succ k ih => simp [List.replicate_succ, refreshWhere, h, ih]

/-- The loop over a table that holds one binding, in its first slot. -/
theorem refreshWhere_lone (touch : Slot → Option Slot) (time : ℕ) (out : ℕ → Produced)
    (h : touch Slot.zero = none) (v : Slot) (k : ℕ) :
    refreshWhere touch time out 0 (v :: List.replicate k Slot.zero) =
      ((touched touch time out 0 v).1 :: List.replicate k Slot.zero,
        (touched touch time out 0 v).2) := by
  unfold refreshWhere touched
  rw [refreshWhere_zero touch time out h]
  cases touch v with
  | none => rfl
  | some v' => simp

/-- An operation on an engine that holds one binding is the operation on it. -/
theorem apply_lone {v : Slot} (hused : v.used = true) (k : ℕ) {i : ℕ} {op op' : Op}
    (h : op.alone i = some op') (hop : op ≠ .reset) :
    World.apply (v :: List.replicate k Slot.zero) op' =
      ((op'.onSlot 0 v).1 :: List.replicate k Slot.zero, (op'.onSlot 0 v).2) := by
  cases op with
  | bind b => exact nomatch h
  | setVisible page visible =>
    obtain rfl := Option.some_inj.1 h
    simp [World.apply, wardenFreshSetVisible, Op.onSlot, hused, Slot.zero]
  | pageShow page time out =>
    obtain rfl := Option.some_inj.1 h
    rw [World.apply, wardenFreshPageShow, refreshWhere_lone _ _ _ (by simp [Slot.zero]),
      touched_pageShow 0 hused]
  | tick time out =>
    obtain rfl := Option.some_inj.1 h
    rw [World.apply, wardenFreshTick, refreshWhere_lone _ _ _ (by simp [Slot.zero]),
      touched_tick 0 hused]
  | invalidate source time out =>
    obtain rfl := Option.some_inj.1 h
    cases source with
    | none => simp [World.apply, wardenFreshInvalidate, Op.onSlot]
    | some src =>
      rw [World.apply, wardenFreshInvalidate]
      rw [refreshWhere_lone _ _ _ (by simp [Slot.zero]), touched_invalidate 0 hused]
  | reset => exact absurd rfl hop

/-- An operation other than a reset keeps a binding in its slot. -/
theorem used_onSlot (i : ℕ) {v : Slot} (hused : v.used = true) {op : Op} (hop : op ≠ .reset) :
    (op.onSlot i v).1.used = true := by
  obtain ⟨visible, -, ⟨time, p, -, h⟩ | h⟩ := onSlot_cases i v hop
  · rw [h, (refreshOne_keeps i { v with visible } time p).2.2.1]
    exact hused
  · rw [h]
    exact hused

/-! ## A binding in company and alone -/

/-- The binding in slot `i` of the engine `w` is the one the engine `u` holds
alone, and both have made the same calls for it. -/
structure Alike (i : ℕ) (w u : World) : Prop where
  slot : ∃ v k, v.used = true ∧ w.table[i]? = some v ∧ u.table = v :: List.replicate k Slot.zero
  calls : callsFor i w.calls = u.calls.map (Call.moveTo i)

/-- An operation that the lone engine does not see leaves the binding alone. -/
theorem Alike.bind {i : ℕ} {w u : World} (h : Alike i w u) (b : Binding) :
    Alike i (w.step (.bind b)) u := by
  obtain ⟨v, k, hused, hw, hu⟩ := h.slot
  refine ⟨⟨v, k, hused, getElem?_bind hw hused b, hu⟩, ?_⟩
  show callsFor i (w.calls ++ []) = _
  rw [List.append_nil]
  exact h.calls

/-- **One operation keeps a binding like the lone one.** -/
theorem Alike.step {i : ℕ} {w u : World} (h : Alike i w u) {op op' : Op}
    (halone : op.alone i = some op') (hop : op ≠ .reset) : Alike i (w.step op) (u.step op') := by
  obtain ⟨v, k, hused, hw, hu⟩ := h.slot
  obtain ⟨htable, hcalls⟩ := getElem?_apply hw hused hop
  have hlone := apply_lone hused k halone hop
  have hmove := onSlot_alone i v halone
  refine ⟨⟨(op.onSlot i v).1, k, used_onSlot i hused hop, htable, ?_⟩, ?_⟩
  · show (World.apply u.table op').1 = _
    rw [hu, hlone, hmove]
  · show callsFor i (w.calls ++ _) = (u.calls ++ (World.apply u.table op').2).map _
    rw [callsFor_append, List.map_append, h.calls, hcalls, hu, hlone, hmove]

theorem Alike.run {i : ℕ} {w u : World} (h : Alike i w u) (ops : List Op)
    (hops : ∀ op ∈ ops, op ≠ .reset) :
    Alike i (run World.step w ops) (run World.step u (ops.filterMap (Op.alone i))) := by
  induction ops generalizing w u with
  | nil => exact h
  | cons op ops ih =>
    have hrest : ∀ op ∈ ops, op ≠ .reset := fun op' h' => hops op' (List.mem_cons_of_mem _ h')
    have hop : op ≠ .reset := hops op List.mem_cons_self
    cases halone : op.alone i with
    | none =>
      rw [List.filterMap_cons_none halone, run_cons]
      cases op with
      | bind b => exact ih (h.bind b) hrest
      | setVisible page visible => exact nomatch halone
      | pageShow page time out => exact nomatch halone
      | tick time out => exact nomatch halone
      | invalidate source time out => exact nomatch halone
      | reset => exact absurd rfl hop
    | some op' =>
      rw [List.filterMap_cons_some halone, run_cons, run_cons]
      exact ih (h.step halone hop) hrest

/-- A successful bind makes the binding like the one of an engine that binds it first. -/
theorem alike_bind {t : List Slot} {b : Binding} {i : ℕ} (h : (wardenFreshBind t b).2 = some i) :
    Alike i ⟨(wardenFreshBind t b).1, []⟩ ((World.init t.length).step (.bind b)) := by
  have htable := bind_table h
  unfold wardenFreshBind at h
  split at h
  · exact nomatch h
  · next hnull =>
    -- the table has a slot, so an empty table of the same size has a first one
    obtain ⟨k, hk⟩ : ∃ k, t.length = k + 1 := by
      cases t with
      | nil => exact nomatch h
      | cons v t => exact ⟨t.length, rfl⟩
    refine ⟨⟨b.slot, k, rfl, htable, ?_⟩, rfl⟩
    show (wardenFreshBind (List.replicate t.length Slot.zero) b).1 = _
    have hfirst : (List.replicate (k + 1) Slot.zero).findIdx? (fun v => !v.used) = some 0 := by
      simp [List.replicate_succ, List.findIdx?_cons, Slot.zero]
    rw [hk, wardenFreshBind, if_neg hnull, hfirst]
    rfl

/-! ## Which slots are in use -/

/-- Which slots of a table are in use. -/
def usedMap (t : List Slot) : List Bool := t.map Slot.used

theorem usedMap_refreshWhere (touch : Slot → Option Slot)
    (htouch : ∀ v v', touch v = some v' → v'.used = v.used) (time : ℕ) (out : ℕ → Produced)
    (j : ℕ) (t : List Slot) :
    usedMap (refreshWhere touch time out j t).1 = usedMap t := by
  induction t generalizing j with
  | nil => rfl
  | cons v t ih =>
    unfold refreshWhere
    cases hv : touch v with
    | none => exact congrArg (v.used :: ·) (ih (j + 1))
    | some v' =>
      have hused := (refreshOne_keeps j v' time (out j)).2.2.1
      exact congrArg₂ List.cons (hused.trans (htouch v v' hv)) (ih (j + 1))

/-- Only a bind and a reset change which slots are in use. -/
theorem usedMap_apply (t : List Slot) {op : Op} (hbind : ∀ b, op ≠ .bind b) (hop : op ≠ .reset) :
    usedMap (World.apply t op).1 = usedMap t := by
  cases op with
  | bind b => exact absurd rfl (hbind b)
  | setVisible page visible =>
    show List.map _ (List.map _ t) = List.map _ t
    rw [List.map_map]
    refine List.map_congr_left fun v _ => ?_
    simp only [Function.comp_apply]
    split
    · rfl
    · rfl
  | pageShow page time out =>
    refine usedMap_refreshWhere _ (fun v v' h => ?_) time out 0 t
    split at h
    · rw [← Option.some_inj.1 h]
    · exact nomatch h
  | tick time out =>
    refine usedMap_refreshWhere _ (fun v v' h => ?_) time out 0 t
    split at h
    · rw [← Option.some_inj.1 h]
    · exact nomatch h
  | invalidate source time out =>
    cases source with
    | none => rfl
    | some src =>
      refine usedMap_refreshWhere _ (fun v v' h => ?_) time out 0 t
      split at h
      · rw [← Option.some_inj.1 h]
      · exact nomatch h
  | reset => exact absurd rfl hop

theorem wardenFreshCount_eq (t : List Slot) : wardenFreshCount t = (usedMap t).countP id := by
  rw [usedMap, List.countP_map]
  rfl

/-- **What a bind does**: nothing, when a callback is `NULL` or every slot is in
use, and otherwise it fills a free slot. -/
theorem bind_cases (t : List Slot) (b : Binding) :
    (wardenFreshBind t b = (t, none) ∧
      (b.produce = 0 ∨ b.render = 0 ∨ wardenFreshCount t = t.length)) ∨
    ∃ i, wardenFreshBind t b = (t.set i b.slot, some i) ∧ (usedMap t)[i]? = some false ∧
      ¬ (b.produce = 0 ∨ b.render = 0 ∨ wardenFreshCount t = t.length) := by
  by_cases hnull : b.produce = 0 ∨ b.render = 0
  · left
    exact ⟨if_pos hnull, or_assoc.1 (Or.inl hnull)⟩
  · cases hfind : t.findIdx? (fun v => !v.used) with
    | none =>
      left
      refine ⟨by simp only [wardenFreshBind, if_neg hnull, hfind], Or.inr (Or.inr ?_)⟩
      refine List.countP_eq_length.2 fun v hv => ?_
      simpa using List.findIdx?_eq_none_iff.1 hfind v hv
    | some i =>
      right
      obtain ⟨hlt, hfree, -⟩ := List.findIdx?_eq_some_iff_getElem.1 hfind
      have hunused : t[i].used = false := by simpa using hfree
      refine ⟨i, by simp only [wardenFreshBind, if_neg hnull, hfind], ?_, ?_⟩
      · rw [usedMap, List.getElem?_map, List.getElem?_eq_getElem hlt, Option.map_some, hunused]
      · rw [← or_assoc]
        rintro (h | h)
        · exact hnull h
        · have hall := List.countP_eq_length.1 h t[i] (List.getElem_mem hlt)
          rw [hunused] at hall
          exact nomatch hall

/-! ## The ledger of binds -/

/-- The engine, with the slots its binds have returned since the last reset,
newest first. -/
structure Ledger where
  world : World
  slots : List ℕ

namespace Ledger

def step (l : Ledger) (op : Op) : Ledger where
  world := l.world.step op
  slots :=
    match op with
    | .bind b => (wardenFreshBind l.world.table b).2.toList ++ l.slots
    | .reset => []
    | _ => l.slots

theorem world_run (l : Ledger) (ops : List Op) :
    (run step l ops).world = run World.step l.world ops := by
  induction ops generalizing l with
  | nil => rfl
  | cons op ops ih => exact ih (l.step op)

/-- The ledger lists the slots in use, each once. -/
structure Tracks (n : ℕ) (l : Ledger) : Prop where
  length : l.world.table.length = n
  nodup : l.slots.Nodup
  mem : ∀ i, i ∈ l.slots ↔ (usedMap l.world.table)[i]? = some true
  count : (usedMap l.world.table).countP id = l.slots.length

/-- A table with no slot in use and the empty list. -/
theorem tracks_zero (calls : List Call) {n : ℕ} :
    Tracks n ⟨⟨List.replicate n Slot.zero, calls⟩, []⟩ := by
  have hmap : usedMap (List.replicate n Slot.zero) = List.replicate n false := by
    simp [usedMap, Slot.zero]
  refine ⟨List.length_replicate, List.nodup_nil, fun i => ?_, ?_⟩
  · rw [hmap, List.getElem?_replicate]
    split
    · simp
    · simp
  · rw [hmap]
    simp [List.countP_replicate]

/-- A bind enters its slot, and enters nothing when it fails. -/
theorem Tracks.bind {n : ℕ} {l : Ledger} (h : Tracks n l) (b : Binding) :
    Tracks n (l.step (.bind b)) := by
  rcases bind_cases l.world.table b with ⟨hb, -⟩ | ⟨i, hb, hfree, -⟩
  · have hstep : (l.step (.bind b)).world.table = l.world.table := congrArg Prod.fst hb
    have hslots : (l.step (.bind b)).slots = l.slots := by
      simp only [step, hb, Option.toList_none, List.nil_append]
    refine ⟨?_, ?_, fun j => ?_, ?_⟩
    · rw [hstep]
      exact h.length
    · rw [hslots]
      exact h.nodup
    · rw [hslots, hstep]
      exact h.mem j
    · rw [hslots, hstep]
      exact h.count
  · have hstep : (l.step (.bind b)).world.table = l.world.table.set i b.slot := congrArg Prod.fst hb
    have hslots : (l.step (.bind b)).slots = i :: l.slots := by
      simp only [step, hb, Option.toList_some, List.singleton_append]
    have hmap : usedMap (l.world.table.set i b.slot) = (usedMap l.world.table).set i true :=
      List.map_set ..
    obtain ⟨hlt, hget⟩ := List.getElem?_eq_some_iff.1 hfree
    refine ⟨?_, ?_, fun j => ?_, ?_⟩
    · rw [hstep, List.length_set]
      exact h.length
    · rw [hslots, List.nodup_cons, h.mem, hfree]
      exact ⟨by decide, h.nodup⟩
    · rw [hslots, hstep, hmap, List.mem_cons, h.mem]
      by_cases hj : j = i
      · simp [hj, List.getElem?_set_self hlt]
      · simp [hj, List.getElem?_set_ne (Ne.symm hj)]
    · rw [hslots, hstep, hmap, List.countP_set hlt, hget, h.count]
      simp

/-- Every other operation keeps the slots in use and the list. -/
theorem Tracks.keep {n : ℕ} {l : Ledger} (h : Tracks n l) {op : Op} (hbind : ∀ b, op ≠ .bind b)
    (hop : op ≠ .reset) : Tracks n (l.step op) := by
  have hused : usedMap (l.step op).world.table = usedMap l.world.table :=
    usedMap_apply l.world.table hbind hop
  have hlen : (l.step op).world.table.length = l.world.table.length := by
    have hmap := congrArg List.length hused
    rwa [usedMap, usedMap, List.length_map, List.length_map] at hmap
  have hslots : (l.step op).slots = l.slots := by
    cases op with
    | bind b => exact absurd rfl (hbind b)
    | setVisible page visible => rfl
    | pageShow page time out => rfl
    | tick time out => rfl
    | invalidate source time out => rfl
    | reset => exact absurd rfl hop
  refine ⟨hlen.trans h.length, ?_, fun j => ?_, ?_⟩
  · rw [hslots]
    exact h.nodup
  · rw [hslots, hused]
    exact h.mem j
  · rw [hslots, hused]
    exact h.count

theorem Tracks.step {n : ℕ} {l : Ledger} (h : Tracks n l) (op : Op) : Tracks n (l.step op) := by
  cases op with
  | bind b => exact h.bind b
  | setVisible page visible =>
    exact h.keep (fun b hb => Op.noConfusion hb) (fun hb => Op.noConfusion hb)
  | pageShow page time out =>
    exact h.keep (fun b hb => Op.noConfusion hb) (fun hb => Op.noConfusion hb)
  | tick time out =>
    exact h.keep (fun b hb => Op.noConfusion hb) (fun hb => Op.noConfusion hb)
  | invalidate source time out =>
    exact h.keep (fun b hb => Op.noConfusion hb) (fun hb => Op.noConfusion hb)
  | reset =>
    have htable : (l.step .reset).world.table = List.replicate n Slot.zero := by
      show List.map _ l.world.table = _
      rw [List.map_const', h.length]
    have hledger : l.step .reset =
        ⟨⟨List.replicate n Slot.zero, (l.step .reset).world.calls⟩, []⟩ := by
      rw [← htable]
      rfl
    rw [hledger]
    exact tracks_zero _

end Ledger

/-- The slots the binds of a run have returned since its last reset, newest first. -/
def boundSlots (n : ℕ) (ops : List Op) : List ℕ :=
  (run Ledger.step ⟨World.init n, []⟩ ops).slots

theorem ledger_tracks (n : ℕ) (ops : List Op) :
    Ledger.Tracks n (run Ledger.step ⟨World.init n, []⟩ ops) :=
  run_invariant (I := Ledger.Tracks n) (fun _ op h => h.step op) (Ledger.tracks_zero []) ops

theorem length_tableAfter (n : ℕ) (ops : List Op) : (tableAfter n ops).length = n := by
  have h := (ledger_tracks n ops).length
  rwa [Ledger.world_run] at h

/-- **Bindings do not interfere**, for every run of operations: a binding that
was bound and not reset since is, in state and in calls, the binding of an engine
that holds it alone; the slots handed out since the last reset are distinct and
counted by `warden_fresh_count`; a bind fails exactly when a callback is `NULL` or
the table is full, and then changes nothing. -/
theorem bindings_do_not_interfere (n : ℕ) (pre : List Op) :
    (∀ b i post, (wardenFreshBind (tableAfter n pre) b).2 = some i →
      (∀ op ∈ post, op ≠ Op.reset) →
      (since n pre b post).table[i]? = (aloneRun n b i post).table[0]? ∧
        callsFor i (since n pre b post).calls =
          (aloneRun n b i post).calls.map (Call.moveTo i)) ∧
    (boundSlots n pre).Nodup ∧
    (∀ b, (wardenFreshBind (tableAfter n pre) b).2 = none ↔
      b.produce = 0 ∨ b.render = 0 ∨ wardenFreshCount (tableAfter n pre) = n) ∧
    (∀ b, (wardenFreshBind (tableAfter n pre) b).2 = none →
      (wardenFreshBind (tableAfter n pre) b).1 = tableAfter n pre) ∧
    wardenFreshCount (tableAfter n pre) = (boundSlots n pre).length := by
  have htracks := ledger_tracks n pre
  have hlen := length_tableAfter n pre
  have hcases := bind_cases (tableAfter n pre)
  rw [hlen] at hcases
  refine ⟨fun b i post hbind hpost => ?_, htracks.nodup, fun b => ?_, fun b hb => ?_, ?_⟩
  · have halike := (alike_bind hbind).run post hpost
    rw [hlen] at halike
    obtain ⟨v, k, -, hw, hu⟩ := halike.slot
    refine ⟨?_, halike.calls⟩
    rw [since, hw, aloneRun, run_cons, hu]
    rfl
  · rcases hcases b with ⟨hb, hfull⟩ | ⟨i, hb, -, hfull⟩
    · exact iff_of_true (by rw [hb]) hfull
    · exact iff_of_false (by rw [hb]; exact Option.some_ne_none i) hfull
  · rcases hcases b with ⟨hb', -⟩ | ⟨i, hb', -, -⟩
    · rw [hb']
    · rw [hb'] at hb
      exact nomatch hb
  · have hcount := htracks.count
    rw [Ledger.world_run] at hcount
    rw [wardenFreshCount_eq]
    exact hcount

end Freshness
end WardenSdk
