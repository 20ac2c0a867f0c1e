import WardenSdk.Freshness.Staleness

/-!
# A confident value is a produced value

What stands on a widget is no field of the engine: it is the last render call.  This
file reads the calls made for a binding a second time, for the strings: which string the
producer last gave with `FRESH_OK`, and which one the widget was last told to show.

`Holds` ties the slot to that account: the copy in `last` is the string of the latest
`FRESH_OK`, and a widget without the UNKNOWN mark shows it.  Both are said only of a
binding whose producer has given a string.  A producer whose first good answer is
`FRESH_SAME` has given none, and the engine takes its word all the same: `ever_ok` is
set, and a widget that shows the UNKNOWN mark is repainted with the empty string that
`memset` left in `last`.  The main result says that this is the only way in which the
widget comes to show something that was never produced.
-/

namespace WardenSdk
namespace Freshness

open Lib

/-! ## The strings of a binding -/

/-- What the calls made for a binding say about its strings. -/
structure Account where
  /-- The string of the producer's last `FRESH_OK`. -/
  lastOk : Option CString
  /-- What the producer last reported. -/
  lastResult : Option Result
  /-- What the widget was last told to show. -/
  shown : Option (Render × CString)
  deriving DecidableEq

def Account.empty : Account := ⟨none, none, none⟩

def Account.step (a : Account) : Call → Account
  | .produce _ _ p =>
      { a with
        lastOk := if p.result = .ok then some p.buf else a.lastOk
        lastResult := some p.result }
  | .render _ what text => { a with shown := some (what, text) }

/-- What the calls made for slot `i` say about its strings. -/
def accountOf (i : ℕ) (cs : List Call) : Account := run Account.step Account.empty (callsFor i cs)

/-- What the producer of slot `i` answered, oldest first. -/
def answersFor (i : ℕ) (cs : List Call) : List Produced :=
  (callsFor i cs).filterMap fun
    | .produce _ _ p => some p
    | .render _ _ _ => none

/-- A producer that just reported `FRESH_OK` or `FRESH_SAME` has the string of its last
`FRESH_OK` on the widget. -/
def Displays (a : Account) : Prop :=
  ∀ r, a.lastResult = some r → r ≠ .unknown → ∃ s, a.lastOk = some s ∧ a.shown = some (.value, s)

/-- Every string that the widget is told to show as a value was produced before, with
`FRESH_OK`. -/
def Justified (i : ℕ) (cs : List Call) : Prop :=
  ∀ before text after, callsFor i cs = before ++ .render i .value text :: after →
    ∃ time p, .produce i time p ∈ before ∧ p.result = .ok ∧ p.buf = text

/-- No `FRESH_SAME` comes before the first `FRESH_OK`. -/
def SameAfterOk (answers : List Produced) : Prop :=
  ∀ before p after, answers = before ++ p :: after → p.result = .same →
    ∃ q ∈ before, q.result = .ok

theorem answersFor_append (i : ℕ) (cs cs' : List Call) :
    answersFor i (cs ++ cs') = answersFor i cs ++ answersFor i cs' := by
  rw [answersFor, callsFor_append, List.filterMap_append, answersFor, answersFor]

/-- The string of the last `FRESH_OK` is one that a producer gave. -/
theorem lastOk_mem {i : ℕ} {cs : List Call} (hcs : ∀ c ∈ cs, c.slot = i) {s : CString}
    (h : (run Account.step Account.empty cs).lastOk = some s) :
    ∃ time p, .produce i time p ∈ cs ∧ p.result = .ok ∧ p.buf = s := by
  induction cs using List.reverseRecOn with
  | nil => exact absurd h (by simp [Account.empty])
  | append_singleton cs c ih =>
    have hrest (hs : (run Account.step Account.empty cs).lastOk = some s) :
        ∃ time p, .produce i time p ∈ cs ++ [c] ∧ p.result = .ok ∧ p.buf = s := by
      obtain ⟨time, p, hmem, hp⟩ := ih (fun c hc => hcs c (List.mem_append_left _ hc)) hs
      exact ⟨time, p, List.mem_append_left _ hmem, hp⟩
    rw [run_concat] at h
    cases c with
    | render j what text => exact hrest h
    | produce j time p =>
      have hj : j = i := hcs _ (List.mem_append_right _ (List.mem_singleton_self _))
      by_cases hok : p.result = .ok
      · refine ⟨time, p, ?_, hok, ?_⟩
        · rw [← hj]
          exact List.mem_append_right _ (List.mem_singleton_self _)
        · simpa [Account.step, hok] using h
      · refine hrest ?_
        simpa [Account.step, hok] using h

/-- There is a string as soon as some answer was `FRESH_OK`. -/
theorem lastOk_isSome_iff (i : ℕ) (cs : List Call) :
    (accountOf i cs).lastOk.isSome = true ↔ ∃ q ∈ answersFor i cs, q.result = .ok := by
  rw [accountOf, answersFor]
  induction callsFor i cs using List.reverseRecOn with
  | nil => simp [Account.empty]
  | append_singleton cs c ih =>
    rw [run_concat, List.filterMap_append]
    cases c with
    | render j what text =>
      simpa [Account.step] using ih
    | produce j time p =>
      by_cases hok : p.result = .ok
      · simp [Account.step, hok]
      · simp only [Account.step, hok, if_false, ih, List.filterMap_cons, List.filterMap_nil,
          List.mem_append, List.mem_singleton]
        constructor
        · rintro ⟨q, hq, hqok⟩
          exact ⟨q, .inl hq, hqok⟩
        · rintro ⟨q, hq | rfl, hqok⟩
          · exact ⟨q, hq, hqok⟩
          · exact absurd hqok hok

/-! ## One refresh -/

/-- The calls of a refresh: the producer is asked, and the widget is told what was
decided. -/
theorem calls_refreshOne (i : ℕ) (v : Slot) (time : ℕ) (p : Produced) :
    (refreshOne i v time p).2 = .produce i time p ::
      match told v time p with
      | .value => [.render i .value (if p.result = .ok then p.buf else v.last)]
      | .unknown => [.render i .unknown unknownMark]
      | .nochange => [] := by
  cases htold : told v time p with
  | value =>
    rw [told] at htold
    simp only [refreshOne, htold]
    cases p.result <;> rfl
  | unknown =>
    rw [told] at htold
    simp only [refreshOne, htold]
  | nochange =>
    rw [told] at htold
    simp only [refreshOne, htold]

theorem last_refreshOne (i : ℕ) (v : Slot) (time : ℕ) (p : Produced) :
    (refreshOne i v time p).1.last =
      if p.result = .ok then p.buf.take (freshBufsz - 1) else v.last := by
  unfold refreshOne
  dsimp only
  split <;> cases p.result <;> rfl

/-- The slot holds the string of the last `FRESH_OK`, and a widget without the UNKNOWN
mark shows it. -/
structure Holds (v : Slot) (a : Account) : Prop where
  last : ∀ s, a.lastOk = some s → v.last = s
  shown : v.showingUnknown = false → ∀ s, a.lastOk = some s → a.shown = some (.value, s)

theorem holds_empty (v : Slot) : Holds v Account.empty :=
  ⟨fun s h => absurd h (by simp [Account.empty]), fun _ s h => absurd h (by simp [Account.empty])⟩

theorem Holds.visible {v : Slot} {a : Account} (h : Holds v a) (visible : Bool) :
    Holds { v with visible } a :=
  ⟨h.last, h.shown⟩

section Refresh

variable (i : ℕ) {v : Slot} {a : Account} (time : ℕ) {p : Produced}

theorem told_ne_value (hp : p.result = .unknown) : told v time p ≠ .value := by
  rw [told_of_unknown hp]
  split <;> simp

/-- What a refresh adds to the account. -/
theorem account_refreshOne (v : Slot) (a : Account) (p : Produced) :
    run Account.step a (refreshOne i v time p).2 =
      { lastOk := if p.result = .ok then some p.buf else a.lastOk
        lastResult := some p.result
        shown := match told v time p with
          | .value => some (.value, if p.result = .ok then p.buf else v.last)
          | .unknown => some (.unknown, unknownMark)
          | .nochange => a.shown } := by
  rw [calls_refreshOne]
  cases told v time p <;> rfl

/-- **A refresh keeps the slot in step with its strings.** -/
theorem Holds.refreshOne (h : Holds v a) (hbuf : p.buf.length < freshBufsz) :
    Holds (refreshOne i v time p).1 (run Account.step a (refreshOne i v time p).2) := by
  have hflag := (fields_refreshOne i v time p).2.2
  rw [account_refreshOne]
  cases hp : p.result with
  | ok =>
    refine ⟨fun s hs => ?_, fun _ s hs => ?_⟩
    · rw [last_refreshOne, if_pos hp, List.take_of_length_le (Nat.le_sub_one_of_lt hbuf)]
      exact Option.some_inj.mp hs
    · rw [told_of_ok hp]
      exact congrArg (fun s => some (Render.value, s)) (Option.some_inj.mp hs)
  | same =>
    refine ⟨fun s hs => ?_, fun hshows s hs => ?_⟩
    · rw [last_refreshOne, if_neg (by rw [hp]; decide)]
      exact h.last s hs
    · rw [told_of_same hp] at hflag ⊢
      cases hunknown : v.showingUnknown with
      | true => exact congrArg (fun s => some (Render.value, s)) (h.last s hs)
      | false => exact h.shown hunknown s hs
  | unknown =>
    refine ⟨fun s hs => ?_, fun hshows s hs => ?_⟩
    · rw [last_refreshOne, if_neg (by rw [hp]; decide)]
      exact h.last s hs
    · rw [hshows] at hflag
      cases htold : told v time p with
      | value => exact absurd htold (told_ne_value time hp)
      | unknown => exact absurd (hflag.mpr (.inl htold)) (by decide)
      | nochange =>
        refine h.shown ?_ s hs
        by_contra hunknown
        exact absurd (hflag.mpr (.inr ⟨htold, by simpa using hunknown⟩)) (by decide)

/-- What a refresh leaves on the widget: the string of the last `FRESH_OK`, unless the
producer says `FRESH_SAME` and there is none. -/
theorem displays_refreshOne_iff (h : Holds v a) :
    Displays (run Account.step a (refreshOne i v time p).2) ↔
      (p.result = .same → a.lastOk.isSome = true) := by
  rw [account_refreshOne]
  cases hp : p.result with
  | ok =>
    refine ⟨fun _ hsame => absurd hsame (by decide), fun _ r _ _ => ⟨p.buf, rfl, ?_⟩⟩
    rw [told_of_ok hp]
    rfl
  | unknown =>
    refine ⟨fun _ hsame => absurd hsame (by decide), fun _ r hr hne => ?_⟩
    exact absurd (Option.some_inj.mp hr).symm hne
  | same =>
    constructor
    · intro hdisplays _
      obtain ⟨s, hs, -⟩ := hdisplays .same rfl (by decide)
      exact Option.isSome_iff_exists.mpr ⟨s, hs⟩
    · intro hsome r _ _
      obtain ⟨s, hs⟩ := Option.isSome_iff_exists.mp (hsome rfl)
      refine ⟨s, hs, ?_⟩
      rw [told_of_same hp]
      cases hunknown : v.showingUnknown with
      | true => exact congrArg (fun s => some (Render.value, s)) (h.last s hs)
      | false => exact h.shown hunknown s hs

end Refresh

/-! ## One operation -/

theorem since_concat (n : ℕ) (pre : List Op) (b : Binding) (past : List Op) (op : Op) :
    since n pre b (past ++ [op]) = (since n pre b past).step op := run_concat _ _ _ _

/-- What an operation does to a slot in use and to the calls made for it. -/
theorem step_cases {w : World} {i : ℕ} {v : Slot} (hv : w.table[i]? = some v)
    (hused : v.used = true) {op : Op} (hop : op ≠ .reset) :
    ∃ visible,
      (∃ time p, (w.step op).table[i]? = some (refreshOne i { v with visible } time p).1 ∧
        callsFor i (w.step op).calls =
          callsFor i w.calls ++ (refreshOne i { v with visible } time p).2) ∨
      ((w.step op).table[i]? = some { v with visible } ∧
        callsFor i (w.step op).calls = callsFor i w.calls) := by
  obtain ⟨htable, hcalls⟩ := getElem?_apply hv hused hop
  obtain ⟨visible, -, ⟨time, p, -, hslot⟩ | hslot⟩ := onSlot_cases i v hop
  · refine ⟨visible, .inl ⟨time, p, ?_, ?_⟩⟩
    · rw [World.step, htable, hslot]
    · rw [World.step, callsFor_append, hcalls, hslot]
  · refine ⟨visible, .inr ⟨?_, ?_⟩⟩
    · rw [World.step, htable, hslot]
    · rw [World.step, callsFor_append, hcalls, hslot, List.append_nil]

/-- The producer's answer in the calls of a refresh. -/
theorem filterMap_refreshOne (i : ℕ) (v : Slot) (time : ℕ) (p : Produced) :
    ((refreshOne i v time p).2.filterMap fun
      | .produce _ _ p => some p
      | .render _ _ _ => none) = [p] := by
  rw [calls_refreshOne]
  cases told v time p <;> rfl

/-- One more answer. -/
theorem sameAfterOk_concat (answers : List Produced) (p : Produced) :
    SameAfterOk (answers ++ [p]) ↔
      SameAfterOk answers ∧ (p.result = .same → ∃ q ∈ answers, q.result = .ok) := by
  constructor
  · intro h
    refine ⟨fun before q after hsplit => ?_, h answers p [] rfl⟩
    refine h before q (after ++ [p]) ?_
    rw [hsplit, List.append_assoc]
    rfl
  · rintro ⟨hold, hnew⟩ before q after hsplit
    rcases List.eq_nil_or_concat after with rfl | ⟨after, q', rfl⟩
    · obtain ⟨rfl, hq⟩ := List.append_inj' hsplit rfl
      cases hq
      exact hnew
    · rw [List.concat_eq_append, ← List.cons_append, ← List.append_assoc] at hsplit
      obtain ⟨hsplit, -⟩ := List.append_inj' hsplit rfl
      exact hold before q after hsplit

/-- Calls that come later do not justify earlier ones. -/
theorem Justified.of_append {i : ℕ} {cs cs' more : List Call} (h : Justified i cs')
    (hcalls : callsFor i cs' = callsFor i cs ++ more) : Justified i cs := by
  intro before text after hsplit
  refine h before text (after ++ more) ?_
  rw [hcalls, hsplit, List.append_assoc]
  rfl

/-- A refresh that has a string to show justifies what it shows. -/
theorem Justified.refreshOne {i : ℕ} {cs cs' : List Call} {v : Slot} {time : ℕ} {p : Produced}
    (h : Justified i cs) (hholds : Holds v (accountOf i cs))
    (hsame : p.result = .same → (accountOf i cs).lastOk.isSome = true)
    (hcalls : callsFor i cs' = callsFor i cs ++ (refreshOne i v time p).2) : Justified i cs' := by
  intro before text after hsplit
  rw [hcalls, calls_refreshOne] at hsplit
  -- the render call is one of the old ones, or the one of this refresh
  have hold {rest : List Call} (hsplit : callsFor i cs ++ [.produce i time p] =
      before ++ .render i .value text :: rest) :
      ∃ time p, .produce i time p ∈ before ∧ p.result = .ok ∧ p.buf = text := by
    rcases List.eq_nil_or_concat rest with rfl | ⟨rest, c, rfl⟩
    · exact absurd (List.append_inj' hsplit rfl).2 (by simp)
    · rw [List.concat_eq_append, ← List.cons_append, ← List.append_assoc] at hsplit
      exact h before text rest (List.append_inj' hsplit rfl).1
  cases htold : told v time p with
  | nochange =>
    rw [htold] at hsplit
    exact hold hsplit
  | unknown =>
    rw [htold, List.append_cons] at hsplit
    rcases List.eq_nil_or_concat after with rfl | ⟨after, c, rfl⟩
    · exact absurd (List.append_inj' hsplit rfl).2 (by simp)
    · rw [List.concat_eq_append, ← List.cons_append, ← List.append_assoc] at hsplit
      exact hold (List.append_inj' hsplit rfl).1
  | value =>
    rw [htold, List.append_cons] at hsplit
    rcases List.eq_nil_or_concat after with rfl | ⟨after, c, rfl⟩
    swap
    · rw [List.concat_eq_append, ← List.cons_append, ← List.append_assoc] at hsplit
      exact hold (List.append_inj' hsplit rfl).1
    obtain ⟨rfl, htext⟩ := List.append_inj' hsplit rfl
    simp only [List.cons.injEq, Call.render.injEq, true_and, and_true] at htext
    cases hp : p.result with
    | ok =>
      rw [hp, if_pos rfl] at htext
      exact ⟨time, p, List.mem_append_right _ (List.mem_singleton_self _), hp, htext⟩
    | unknown => exact absurd htold (told_ne_value time hp)
    | same =>
      rw [hp, if_neg (by decide)] at htext
      obtain ⟨s, hs⟩ := Option.isSome_iff_exists.mp (hsame hp)
      have hslots : ∀ c ∈ callsFor i cs, c.slot = i := fun c hc =>
        beq_iff_eq.mp (List.mem_filter.mp hc).2
      obtain ⟨time', q, hmem, hq, hbuf⟩ := lastOk_mem hslots hs
      refine ⟨time', q, List.mem_append_left _ hmem, hq, ?_⟩
      rw [hbuf, ← hholds.last s hs, htext]

/-! ## Whole runs -/

section Runs

variable {n : ℕ} {pre post : List Op} {b : Binding} {i : ℕ}
  (hbind : (wardenFreshBind (tableAfter n pre) b).2 = some i)

include hbind

/-- The slot of a binding holds its strings through any run without a reset. -/
theorem holds_since (hpost : ∀ op ∈ post, op ≠ .reset)
    (hbuf : ∀ p ∈ answersFor i (since n pre b post).calls, p.buf.length < freshBufsz) :
    ∃ v, (since n pre b post).table[i]? = some v ∧ v.used = true ∧
      Holds v (accountOf i (since n pre b post).calls) := by
  induction post using List.reverseRecOn with
  | nil => exact ⟨b.slot, bind_table hbind, rfl, holds_empty _⟩
  | append_singleton past op ih =>
    have hop : op ≠ .reset := hpost op (List.mem_append_right _ (List.mem_singleton_self _))
    rw [since_concat] at hbuf ⊢
    have hold : answersFor i ((since n pre b past).step op).calls =
        answersFor i (since n pre b past).calls ++
          answersFor i (World.apply (since n pre b past).table op).2 := answersFor_append i _ _
    obtain ⟨v, hv, hused, hholds⟩ := ih (fun op h => hpost op (List.mem_append_left _ h))
      fun p hp => hbuf p (by rw [hold]; exact List.mem_append_left _ hp)
    obtain ⟨visible, ⟨time, p, htable, hcalls⟩ | ⟨htable, hcalls⟩⟩ := step_cases hv hused hop
    · refine ⟨_, htable, (refreshOne_keeps i _ time p).2.2.1.trans hused, ?_⟩
      rw [accountOf, hcalls, run_append]
      refine (hholds.visible visible).refreshOne i time (hbuf p ?_)
      rw [answersFor, hcalls, List.filterMap_append, filterMap_refreshOne]
      exact List.mem_append_right _ (List.mem_singleton_self _)
    · refine ⟨_, htable, hused, ?_⟩
      rw [accountOf, hcalls]
      exact hholds.visible visible

/-- **A confident value is a produced value, exactly when the producer gives one
first.**  Follow a binding through any operations but a reset, with a producer that
keeps to its buffer.  After every `FRESH_OK` or `FRESH_SAME` the widget shows the string
of the latest `FRESH_OK`, and no value is ever shown that was not produced, if and only
if the producer never says `FRESH_SAME` before its first `FRESH_OK`. -/
theorem confident_iff (hpost : ∀ op ∈ post, op ≠ .reset)
    (hbuf : ∀ p ∈ answersFor i (since n pre b post).calls, p.buf.length < freshBufsz) :
    ((∀ past, past <+: post → Displays (accountOf i (since n pre b past).calls)) ∧
        Justified i (since n pre b post).calls) ↔
      SameAfterOk (answersFor i (since n pre b post).calls) := by
  induction post using List.reverseRecOn with
  | nil =>
    constructor
    · rintro - before p after hsplit
      exact absurd hsplit (by simp [answersFor, since])
    · refine fun _ => ⟨fun past hpast => ?_, fun before text after hsplit => ?_⟩
      · obtain rfl := List.prefix_nil.mp hpast
        exact fun r hr => absurd hr (by simp [accountOf, since, Account.empty])
      · exact absurd hsplit (by simp [since])
  | append_singleton past op ih =>
    have hop : op ≠ .reset := hpost op (List.mem_append_right _ (List.mem_singleton_self _))
    have hpost' : ∀ op ∈ past, op ≠ .reset := fun op h => hpost op (List.mem_append_left _ h)
    have hpasts : (∀ past', past' <+: past ++ [op] →
        Displays (accountOf i (since n pre b past').calls)) ↔
        Displays (accountOf i ((since n pre b past).step op).calls) ∧
          ∀ past', past' <+: past → Displays (accountOf i (since n pre b past').calls) := by
      rw [← since_concat]
      simp only [List.prefix_concat_iff]
      constructor
      · exact fun h => ⟨h _ (.inl rfl), fun past' hp => h past' (.inr hp)⟩
      · rintro ⟨hall, hrest⟩ past' (rfl | hp)
        · exact hall
        · exact hrest past' hp
    rw [since_concat] at hbuf ⊢
    have hgrow : answersFor i ((since n pre b past).step op).calls =
        answersFor i (since n pre b past).calls ++
          answersFor i (World.apply (since n pre b past).table op).2 := answersFor_append i _ _
    have hbuf' : ∀ p ∈ answersFor i (since n pre b past).calls, p.buf.length < freshBufsz :=
      fun p hp => hbuf p (by rw [hgrow]; exact List.mem_append_left _ hp)
    have ih' := ih hpost' hbuf'
    obtain ⟨v, hv, hused, hholds⟩ := holds_since hbind hpost' hbuf'
    rw [hpasts]
    obtain ⟨visible, ⟨time, p, -, hcalls⟩ | ⟨-, hcalls⟩⟩ := step_cases hv hused hop
    · have hanswers : answersFor i ((since n pre b past).step op).calls =
          answersFor i (since n pre b past).calls ++ [p] := by
        rw [answersFor, hcalls, List.filterMap_append, filterMap_refreshOne]
        rfl
      have haccount : accountOf i ((since n pre b past).step op).calls =
          run Account.step (accountOf i (since n pre b past).calls)
            (refreshOne i { v with visible } time p).2 := by
        rw [accountOf, hcalls, run_append]
        rfl
      rw [hanswers, sameAfterOk_concat, ← ih', haccount,
        displays_refreshOne_iff i time (hholds.visible visible)]
      have hstring := lastOk_isSome_iff i (since n pre b past).calls
      constructor
      · rintro ⟨⟨hsame, hdisplays⟩, hjustified⟩
        exact ⟨⟨hdisplays, hjustified.of_append hcalls⟩, fun hp => hstring.mp (hsame hp)⟩
      · rintro ⟨⟨hdisplays, hjustified⟩, hok⟩
        have hsame (hp : p.result = .same) := hstring.mpr (hok hp)
        exact ⟨⟨hsame, hdisplays⟩,
          hjustified.refreshOne (hholds.visible visible) hsame hcalls⟩
    · -- the binding was not refreshed: the calls are those of before
      rw [accountOf, hcalls, answersFor, hcalls]
      show (Displays (accountOf i (since n pre b past).calls) ∧ _) ∧ _ ↔
        SameAfterOk (answersFor i (since n pre b past).calls)
      rw [← ih']
      constructor
      · rintro ⟨⟨-, hdisplays⟩, hjustified⟩
        exact ⟨hdisplays, hjustified.of_append (hcalls.trans (List.append_nil _).symm)⟩
      · rintro ⟨hdisplays, hjustified⟩
        refine ⟨⟨hdisplays past List.prefix_rfl, hdisplays⟩, ?_⟩
        exact hjustified.of_append (hcalls.symm.trans (List.append_nil _).symm)

end Runs

/-- A binding that goes stale and is repainted by `FRESH_SAME`, as in the engine's own
test. -/
theorem confident_of_recovery :
    let b : Binding := ⟨1, 1, 0, 100, none, 1, 9⟩
    let post : List Op := [.tick 0 fun _ => ⟨.ok, [0x34, 0x32]⟩, .tick 500 fun _ => ⟨.unknown, []⟩,
      .tick 520 fun _ => ⟨.same, []⟩]
    (accountOf 0 (since 96 [] b post).calls).shown = some (.value, [0x34, 0x32]) ∧
      Displays (accountOf 0 (since 96 [] b post).calls) ∧ Justified 0 (since 96 [] b post).calls := by
  intro b post
  have hshown : (accountOf 0 (since 96 [] b post).calls).shown = some (.value, [0x34, 0x32]) := by
    decide
  have hanswers : answersFor 0 (since 96 [] b post).calls =
      [⟨.ok, [0x34, 0x32]⟩, ⟨.unknown, []⟩, ⟨.same, []⟩] := by decide
  have hconfident := (@confident_iff 96 [] post b 0 (by decide) ?_ ?_).mpr ?_
  · exact ⟨hshown, hconfident.1 post List.prefix_rfl, hconfident.2⟩
  · intro op hop
    simp only [post, List.mem_cons, List.not_mem_nil, or_false] at hop
    rcases hop with rfl | rfl | rfl <;> simp
  · rw [hanswers]
    decide
  · rw [hanswers]
    rintro (_ | ⟨q, before⟩) p after hsplit hsame
    · cases hsplit
      exact absurd hsame (by decide)
    · obtain ⟨rfl, -⟩ := List.cons.inj hsplit
      exact ⟨_, List.mem_cons_self, rfl⟩

/-- After a reset and a new bind, a producer that knows its value to be unchanged says
`FRESH_SAME` without having said `FRESH_OK`: the widget is repainted with a string that
nobody produced. -/
theorem same_shows_unproduced :
    let b : Binding := ⟨1, 1, 0, 100, none, 1, 9⟩
    let pre : List Op := [.bind b, .tick 0 fun _ => ⟨.ok, [0x37]⟩, .reset]
    let post : List Op := [.tick 10 fun _ => ⟨.unknown, []⟩, .tick 20 fun _ => ⟨.same, []⟩]
    (wardenFreshBind (tableAfter 96 pre) b).2 = some 0 ∧
      (accountOf 0 (since 96 pre b post).calls).shown = some (.value, []) ∧
      ¬ ((∀ past, past <+: post → Displays (accountOf 0 (since 96 pre b past).calls)) ∧
        Justified 0 (since 96 pre b post).calls) := by
  intro b pre post
  refine ⟨by decide, by decide, ?_⟩
  rintro ⟨hdisplays, -⟩
  have hlast : (accountOf 0 (since 96 pre b post).calls).lastResult = some .same := by decide
  obtain ⟨s, hs, -⟩ := hdisplays post List.prefix_rfl .same hlast (by decide)
  have hnone : (accountOf 0 (since 96 pre b post).calls).lastOk = none := by decide
  rw [hnone] at hs
  cases hs

end Freshness
end WardenSdk
