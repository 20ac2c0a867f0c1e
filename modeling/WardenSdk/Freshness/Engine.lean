import WardenSdk.Lib.Run
import WardenSdk.Lib.Clock

/-!
# The freshness engine

`drivers/freshness/freshness.c`: a table of bindings, each of which ties a
producer of text to a widget.  The engine asks the producer, decides what the
widget has to show, and calls the render callback.

The table is a list of slots with the fields of `struct warden_fresh`; an
all-zero slot is `Slot.zero`, as `memset` leaves it.  Its length is `FRESH_MAX`,
which the build fixes and the model leaves open.  Pointers are numbers, with 0
for `NULL`; C strings are lists of bytes, and a `const char *` that may be
`NULL` is an `Option`.

The two callbacks are the outside world.  What a producer answers is an input
of the operation that calls it, one answer for each slot; what the engine does
to the world is the list of calls it makes.  The clock is real time in `ℕ`, of
which the engine sees `reading`.
-/

namespace WardenSdk
namespace Freshness

open Lib

abbrev CString := List UInt8

/-- `warden_fresh_result_t`.  Any other value of the enum takes the `default`
arm of the decision, which is the one of `unknown`. -/
inductive Result where
  | ok
  | unknown
  | same
  deriving DecidableEq

/-- `warden_fresh_render_t`. -/
inductive Render where
  | value
  | unknown
  | nochange
  deriving DecidableEq

/-- The em dash. -/
def unknownMark : CString := [0xE2, 0x80, 0x94]

def freshBufsz : ℕ := 64

/-- `struct warden_fresh`. -/
structure Slot where
  page : ℕ
  produce : ℕ
  ud : ℕ
  maxStaleMs : UInt32
  source : Option CString
  render : ℕ
  widget : ℕ
  lastOkMs : UInt32
  last : CString
  everOk : Bool
  showingUnknown : Bool
  visible : Bool
  used : Bool
  deriving DecidableEq

/-- A slot as `memset` leaves it. -/
def Slot.zero : Slot :=
  ⟨0, 0, 0, 0, none, 0, 0, 0, [], false, false, false, false⟩

/-- What a producer answers: its result, and the text it left in the buffer. -/
structure Produced where
  result : Result
  buf : CString
  deriving DecidableEq

/-- A call the engine makes, with the slot it is made for. -/
inductive Call where
  /-- The producer was asked at a real time and answered. -/
  | produce (slot : ℕ) (time : ℕ) (answer : Produced)
  /-- The widget was told what to show. -/
  | render (slot : ℕ) (what : Render) (text : CString)
  deriving DecidableEq

def Call.slot : Call → ℕ
  | .produce i _ _ => i
  | .render i _ _ => i

/-- The one pure decision at the heart of the contract. -/
def wardenFreshDecide (produced : Result) (everOk showingUnknown : Bool)
    (ageMs maxStaleMs : UInt32) : Render :=
  match produced with
  | .ok => .value
  | .same => if showingUnknown then .value else .nochange
  | .unknown =>
      if !everOk then .unknown
      else if ageMs > maxStaleMs then .unknown
      else .nochange

/-- `refresh_one` on the slot with index `i`: the slot afterwards, and the calls
made on the way. -/
def refreshOne (i : ℕ) (v : Slot) (time : ℕ) (p : Produced) : Slot × List Call :=
  let now := reading time
  let r := p.result
  let what := wardenFreshDecide r v.everOk v.showingUnknown (now - v.lastOkMs) v.maxStaleMs
  -- `snprintf` keeps one byte for the terminator
  let v := if r = .ok then { v with last := p.buf.take (freshBufsz - 1) } else v
  let v := if r = .ok ∨ r = .same then { v with lastOkMs := now, everOk := true } else v
  match what with
  | .value =>
      ({ v with showingUnknown := false },
        [.produce i time p, .render i .value (if r = .ok then p.buf else v.last)])
  | .unknown =>
      ({ v with showingUnknown := true }, [.produce i time p, .render i .unknown unknownMark])
  | .nochange => (v, [.produce i time p])

/-- The arguments of `warden_fresh_bind`. -/
structure Binding where
  page : ℕ
  produce : ℕ
  ud : ℕ
  maxStaleMs : UInt32
  source : Option CString
  render : ℕ
  widget : ℕ
  deriving DecidableEq

/-- The slot a successful bind fills in: visible, because it is bound while
building the page that is about to show. -/
def Binding.slot (b : Binding) : Slot :=
  { Slot.zero with
    page := b.page, produce := b.produce, ud := b.ud, maxStaleMs := b.maxStaleMs,
    source := b.source, render := b.render, widget := b.widget, visible := true, used := true }

/-- `warden_fresh_bind`: the first free slot, or `none` for `NULL`. -/
def wardenFreshBind (t : List Slot) (b : Binding) : List Slot × Option ℕ :=
  if b.produce = 0 ∨ b.render = 0 then (t, none)
  else
    match t.findIdx? fun v => !v.used with
    | some i => (t.set i b.slot, some i)
    | none => (t, none)

def wardenFreshSetVisible (t : List Slot) (page : ℕ) (visible : Bool) : List Slot :=
  t.map fun v => if v.used && v.page == page then { v with visible } else v

/-- The loop the refreshing operations share: `touch` gives the slot to refresh,
or `none` for a slot the operation skips. -/
def refreshWhere (touch : Slot → Option Slot) (time : ℕ) (out : ℕ → Produced) :
    ℕ → List Slot → List Slot × List Call
  | _, [] => ([], [])
  | i, v :: vs =>
      let rest := refreshWhere touch time out (i + 1) vs
      match touch v with
      | some v =>
          let r := refreshOne i v time (out i)
          (r.1 :: rest.1, r.2 ++ rest.2)
      | none => (v :: rest.1, rest.2)

/-- Refresh every value bound to `page`, and mark the page visible. -/
def wardenFreshPageShow (t : List Slot) (page time : ℕ) (out : ℕ → Produced) :
    List Slot × List Call :=
  refreshWhere (fun v => if v.used && v.page == page then some { v with visible := true } else none)
    time out 0 t

/-- Refresh every visible value. -/
def wardenFreshTick (t : List Slot) (time : ℕ) (out : ℕ → Produced) : List Slot × List Call :=
  refreshWhere (fun v => if v.used && v.visible then some v else none) time out 0 t

/-- Refresh every visible value bound to `source`. -/
def wardenFreshInvalidate (t : List Slot) (source : Option CString) (time : ℕ)
    (out : ℕ → Produced) : List Slot × List Call :=
  match source with
  | none => (t, [])
  | some src =>
      refreshWhere
        (fun v => if v.used && v.visible && v.source == some src then some v else none)
        time out 0 t

/-- `memset` of the whole table. -/
def wardenFreshReset (t : List Slot) : List Slot := t.map fun _ => Slot.zero

/-- Number of live bindings. -/
def wardenFreshCount (t : List Slot) : ℕ := t.countP Slot.used

/-- One iteration of the scan for the smallest budget: `best`, and whether a
visible binding has been seen. -/
def budgetStep (acc : UInt32 × Bool) (v : Slot) : UInt32 × Bool :=
  if v.used && v.visible && (!acc.2 || v.maxStaleMs < acc.1) then (v.maxStaleMs, true) else acc

/-- Smallest budget among the visible bindings, or 0 if there is none. -/
def wardenFreshMinBudgetMs (t : List Slot) : UInt32 := (t.foldl budgetStep (0, false)).1

/-! ## Runs -/

/-- An operation of the engine.  One that refreshes carries the real time of the
call and the answer of each slot's producer. -/
inductive Op where
  | bind (b : Binding)
  | setVisible (page : ℕ) (visible : Bool)
  | pageShow (page time : ℕ) (out : ℕ → Produced)
  | tick (time : ℕ) (out : ℕ → Produced)
  | invalidate (source : Option CString) (time : ℕ) (out : ℕ → Produced)
  | reset

/-- The real time of an operation that has one. -/
def Op.time : Op → Option ℕ
  | .pageShow _ time _ => some time
  | .tick time _ => some time
  | .invalidate _ time _ => some time
  | _ => none

/-- The table, and every call the engine has made, oldest first. -/
structure World where
  table : List Slot
  calls : List Call

namespace World

/-- The engine before the first operation, with a table of `n` slots. -/
def init (n : ℕ) : World := ⟨List.replicate n Slot.zero, []⟩

/-- The table after an operation, and the calls the operation made. -/
def apply (t : List Slot) : Op → List Slot × List Call
  | .bind b => ((wardenFreshBind t b).1, [])
  | .setVisible page visible => (wardenFreshSetVisible t page visible, [])
  | .pageShow page time out => wardenFreshPageShow t page time out
  | .tick time out => wardenFreshTick t time out
  | .invalidate source time out => wardenFreshInvalidate t source time out
  | .reset => (wardenFreshReset t, [])

def step (w : World) (op : Op) : World :=
  ⟨(apply w.table op).1, w.calls ++ (apply w.table op).2⟩

end World

end Freshness
end WardenSdk
