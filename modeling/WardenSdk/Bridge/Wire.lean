import WardenSdk.Bridge.Memory
import WardenSdk.Bridge.Pump

/-!
# The two channels of the bridge

`qemu/rs485-bridge/src/main.rs` starts a thread that serves the control channel and pumps
the serial connection in the main thread.  The two share one slave behind a mutex: a
control line holds it for the whole of its command, and the pump for the whole of a
frame, so each of them takes effect at one point of the run.

`Wire` is the bridge with both channels, driven by any interleaving of what the reads of
the serial connection return and of control lines; when the connection closes or fails
the program ends.  `serial_step` ties a serial event to a turn of the pump's loop.

`wire_is_register_memory` is about the bytes themselves: the gap-free runs read from the
connection, in any chunks, are the frames served, the bytes written back are the replies,
and every reply on either channel reports what was last written on either channel before
it.
-/

namespace WardenSdk
namespace Bridge

open Lib Sim

inductive WireEvent where
  | serial (e : ReadEvent)
  | control (line : Text)
  deriving DecidableEq

structure Wire where
  bus : Bus
  /-- The bytes read since the last gap. -/
  buf : List UInt8
  /-- The bytes written to the serial connection. -/
  sent : List UInt8
  /-- What the bus served, on either channel. -/
  log : List Exchange
  exit : PumpExit
  deriving DecidableEq

def BusReply.bytes : BusReply → List UInt8
  | .line _ => []
  | .frame reply => reply.getD []

namespace Wire

def start (bus : Bus) : Wire := ⟨bus, [], [], [], .reading⟩

/-- Serve one request with the mutex held. -/
def exchange (w : Wire) (e : BusEvent) : Checked Wire := do
  let (bus, reply) ← serve w.bus e
  return { w with bus, sent := w.sent ++ reply.bytes, log := w.log ++ [(e, reply)] }

def flush (w : Wire) : Checked Wire :=
  if w.buf.isEmpty then return w
  else do
    let w ← w.exchange (.frame w.buf)
    return { w with buf := [] }

def extend (w : Wire) (bytes : List UInt8) : Wire :=
  if (w.buf ++ bytes).length > maxPending then { w with buf := [] }
  else { w with buf := w.buf ++ bytes }

def step (w : Wire) (e : WireEvent) : Checked Wire :=
  if w.exit ≠ .reading then return w
  else
    match e with
    | .control line => w.exchange (.line line)
    | .serial (.chunk bytes) => return w.extend bytes
    | .serial .timeout => w.flush
    | .serial .interrupted => return w
    | .serial .eof => do return { ← w.flush with exit := .closed }
    | .serial .error => return { w with exit := .failed }

end Wire

/-- The bridge after the events. -/
def wireAfter (bus : Bus) (es : List WireEvent) : Checked Wire :=
  runChecked Wire.step (Wire.start bus) es

/-! ## What a log says -/

def frameOf? : Exchange → Option (List UInt8)
  | (.frame bytes, _) => some bytes
  | (.line _, _) => none

def lineOf? : Exchange → Option Text
  | (.frame _, _) => none
  | (.line text, _) => some text

def framesOf (log : List Exchange) : List (List UInt8) := log.filterMap frameOf?

def linesOf (log : List Exchange) : List Text := log.filterMap lineOf?

def WireEvent.serial? : WireEvent → Option ReadEvent
  | .serial e => some e
  | .control _ => none

def WireEvent.control? : WireEvent → Option Text
  | .serial _ => none
  | .control line => some line

/-- The connection is still open after the event. -/
def WireEvent.Open (e : WireEvent) : Prop := e ≠ .serial .eof ∧ e ≠ .serial .error

instance (e : WireEvent) : Decidable e.Open := inferInstanceAs (Decidable (_ ∧ _))

/-- Every reply reports what was written last before it. -/
def Truthful (log : List Exchange) : Prop :=
  ∀ past x future, log = past ++ x :: future →
    ∀ cell v, (cell, v) ∈ reported x → v = some (lastWrite 0 (past.flatMap written) cell)

theorem Truthful.concat {log : List Exchange} (h : Truthful log) {x : Exchange}
    (hx : ∀ cell v, (cell, v) ∈ reported x → v = some (lastWrite 0 (log.flatMap written) cell)) :
    Truthful (log ++ [x]) := by
  intro past y future heq
  rcases List.eq_nil_or_concat' future with rfl | ⟨future, z, rfl⟩
  · obtain ⟨rfl, hxy⟩ := List.append_inj' heq rfl
    obtain rfl := List.singleton_inj.mp hxy
    exact hx
  · refine h past y future ?_
    rw [← List.cons_append, ← List.append_assoc] at heq
    exact (List.append_inj' heq rfl).1

/-! ## The pump of the bridge -/

/-- The state of the pump's loop. -/
def Wire.pump (w : Wire) : Pump := ⟨w.bus.slave, w.buf, w.sent, framesOf w.log⟩

theorem Wire.flush_eq (w : Wire) :
    w.flush.map Wire.pump = w.pump.flush ∧ ∀ w', w.flush = .ok w' → w'.exit = w.exit := by
  unfold Wire.flush Pump.flush
  cases hbuf : w.buf.isEmpty with
  | true =>
    rw [if_pos rfl, if_pos (show w.pump.buf.isEmpty = true from hbuf)]
    exact ⟨rfl, fun w' h => by cases h; rfl⟩
  | false =>
    have hne : ¬ w.pump.buf.isEmpty = true := by
      show ¬ w.buf.isEmpty = true
      rw [hbuf]
      decide
    rw [if_neg (by decide), if_neg hne]
    obtain ⟨slave, reply, hframe, -⟩ := handleFrame_handles w.bus.slave w.buf
    have hframe' : handleFrame w.pump.slave w.pump.buf = .ok (slave, reply) := hframe
    rw [Wire.exchange, serve, hframe, Pump.dispatch, hframe']
    refine ⟨congrArg Except.ok ?_, fun w' h => by cases h; rfl⟩
    simp only [Wire.pump, framesOf, List.filterMap_append]
    rfl

/-- **A serial event is a turn of the pump's loop.** -/
theorem Wire.serial_step {w : Wire} (hreading : w.exit = .reading) (e : ReadEvent) :
    (w.step (.serial e)).map (fun w' => (w'.pump, w'.exit)) = pumpSerial w.pump [e] := by
  obtain ⟨hflush, hexit⟩ := w.flush_eq
  unfold Wire.step
  rw [if_neg (not_not_intro hreading)]
  cases e with
  | chunk bytes =>
    unfold Wire.extend pumpSerial pumpSerial Pump.extend
    show Except.ok _ = Except.ok _
    by_cases hlong : (w.buf ++ bytes).length > maxPending
    · rw [if_pos hlong, if_pos (show (w.pump.buf ++ bytes).length > maxPending from hlong)]
      exact congrArg (fun exit => Except.ok (_, exit)) hreading
    · rw [if_neg hlong, if_neg (show ¬ (w.pump.buf ++ bytes).length > maxPending from hlong)]
      exact congrArg (fun exit => Except.ok (_, exit)) hreading
  | timeout =>
    simp only [pumpSerial, ← hflush]
    cases hw : w.flush with
    | error panic => rfl
    | ok w' => exact congrArg (fun exit => Except.ok (w'.pump, exit)) ((hexit w' hw).trans hreading)
  | interrupted => exact congrArg (fun exit => Except.ok (_, exit)) hreading
  | eof =>
    simp only [pumpSerial, ← hflush]
    cases hw : w.flush with
    | error panic => rfl
    | ok w' => rfl
  | error => rfl

/-! ## Runs of the bridge -/

/-- The bus and its log are those of a session, the log is truthful, and the bytes
written are the replies. -/
structure Wire.Sound (regs bits : ℕ) (w : Wire) : Prop where
  session : Session.Sound regs bits ⟨w.bus, w.log⟩
  truthful : Truthful w.log
  sent : w.sent = w.log.flatMap fun x => x.2.bytes

theorem Wire.sound_start (address : UInt8) (regs bits : ℕ) :
    (Wire.start (Bus.new address regs bits)).Sound regs bits where
  session := Session.sound_new address regs bits
  truthful := fun past x future h => absurd h (by simp [Wire.start])
  sent := rfl

section Runs

variable {regs bits : ℕ} {w : Wire}

/-- **One exchange**, from a sound bridge. -/
theorem Wire.Sound.exchange (h : w.Sound regs bits) (e : BusEvent) :
    ∃ w' reply, w.exchange e = .ok w' ∧ w'.Sound regs bits ∧ w'.log = w.log ++ [(e, reply)] ∧
      w'.buf = w.buf ∧ w'.exit = w.exit := by
  obtain ⟨bus', reply, hserve, hx⟩ := h.session.serve e
  obtain ⟨t, hnext, hsession⟩ := Session.Sound.next ⟨w.bus, w.log⟩ e h.session
  rw [Session.next, hserve] at hnext
  cases hnext
  refine ⟨{ w with bus := bus', sent := w.sent ++ reply.bytes, log := w.log ++ [(e, reply)] }, reply,
    ?_, ⟨hsession, h.truthful.concat hx.reports, ?_⟩, rfl, rfl, rfl⟩
  · have hserve' : serve w.bus e = .ok (bus', reply) := hserve
    rw [Wire.exchange, hserve']
    rfl
  show w.sent ++ reply.bytes = (w.log ++ [(e, reply)]).flatMap fun x => x.2.bytes
  rw [List.flatMap_append, List.flatMap_singleton, h.sent]

/-- A flush serves the pending bytes as one frame, unless there are none. -/
theorem Wire.Sound.flush (h : w.Sound regs bits) :
    ∃ w' new, w.flush = .ok w' ∧ w'.Sound regs bits ∧ w'.log = w.log ++ new ∧
      framesOf new = [w.buf].filter (!·.isEmpty) ∧ linesOf new = [] ∧ w'.buf = [] ∧
      w'.exit = w.exit := by
  unfold Wire.flush
  cases hbuf : w.buf.isEmpty with
  | true =>
    refine ⟨w, [], rfl, h, (List.append_nil _).symm, ?_, rfl, List.isEmpty_iff.mp hbuf, rfl⟩
    rw [List.filter_singleton, hbuf]
    rfl
  | false =>
    obtain ⟨w', reply, hw', hsound, hlog, -, hexit⟩ := h.exchange (.frame w.buf)
    refine ⟨{ w' with buf := [] }, [(.frame w.buf, reply)], ?_, ?_, hlog, ?_, rfl, rfl, hexit⟩
    · rw [if_neg (by decide), hw']
      rfl
    · exact ⟨hsound.session, hsound.truthful, hsound.sent⟩
    · rw [List.filter_singleton, hbuf]
      rfl

/-- **The bridge, from any point of a run**, where `kept` are the chunks in its buffer. -/
theorem Wire.Sound.run {es : List WireEvent} (hes : ∀ e ∈ es, e.Open)
    {kept : List (List UInt8)} (h : w.Sound regs bits) (hreading : w.exit = .reading)
    (hbuf : w.buf = kept.flatten) :
    ∃ w' new, runChecked Wire.step w (es ++ [.serial .eof]) = .ok w' ∧ w'.Sound regs bits ∧
      w'.exit = .closed ∧ w'.log = w.log ++ new ∧
      framesOf new = (pending kept (runs (es.filterMap WireEvent.serial?))).filter (!·.isEmpty) ∧
      linesOf new = es.filterMap WireEvent.control? := by
  induction es generalizing kept w with
  | nil =>
    obtain ⟨w', new, hw', hsound, hlog, hframes, hlines, -, -⟩ := h.flush
    refine ⟨{ w' with exit := .closed }, new, ?_, ⟨hsound.session, hsound.truthful, hsound.sent⟩,
      rfl, hlog, by rw [hframes, hbuf]; rfl, hlines⟩
    show (w.step (.serial .eof) >>= fun w => pure w) = _
    rw [Wire.step, if_neg (not_not_intro hreading), hw']
    rfl
  | cons e es ih =>
    have hrest : ∀ e ∈ es, e.Open := fun e he => hes e (List.mem_cons_of_mem _ he)
    have hopen := hes e List.mem_cons_self
    have hstep {x : Checked Wire} (hx : w.step e = x) :
        runChecked Wire.step w (e :: es ++ [.serial .eof]) =
          x.bind fun w => runChecked Wire.step w (es ++ [.serial .eof]) := by
      rw [← hx]
      rfl
    have hreads : ¬ w.exit ≠ .reading := not_not_intro hreading
    cases e with
    | control line =>
      obtain ⟨w₁, reply, hw₁, hsound, hlog, hbuf₁, hexit⟩ := h.exchange (.line line)
      obtain ⟨w', new, hrun, hsound', hclosed, hlog', hframes, hlines⟩ :=
        ih hrest hsound (hexit.trans hreading) (hbuf₁.trans hbuf)
      refine ⟨w', (.line line, reply) :: new, ?_, hsound', hclosed, ?_, hframes, ?_⟩
      · rw [hstep ((if_neg hreads).trans hw₁)]
        exact hrun
      · rw [hlog', hlog, List.append_assoc, List.singleton_append]
      · exact congrArg (line :: ·) hlines
    | serial e =>
      obtain ⟨r, rs, hruns⟩ := runs_eq_cons (es.filterMap WireEvent.serial?)
      cases e with
      | chunk bytes =>
        have hkept : (w.extend bytes).buf = (keepChunk kept bytes).flatten := by
          unfold Wire.extend keepChunk
          rw [hbuf]
          split_ifs
          · rfl
          · exact (flatten_concat kept bytes).symm
        have hsame : (w.extend bytes).Sound regs bits ∧ (w.extend bytes).exit = .reading ∧
            (w.extend bytes).log = w.log := by
          unfold Wire.extend
          split_ifs
          · exact ⟨⟨h.session, h.truthful, h.sent⟩, hreading, rfl⟩
          · exact ⟨⟨h.session, h.truthful, h.sent⟩, hreading, rfl⟩
        obtain ⟨w', new, hrun, hsound', hclosed, hlog', hframes, hlines⟩ :=
          ih hrest hsame.1 hsame.2.1 hkept
        refine ⟨w', new, ?_, hsound', hclosed, hlog'.trans (congrArg (· ++ new) hsame.2.2), ?_,
          hlines⟩
        · rw [hstep (if_neg hreads)]
          exact hrun
        · rw [hframes]
          show _ = (pending kept (runs (.chunk bytes :: es.filterMap WireEvent.serial?))).filter _
          rw [runs, hruns]
          rfl
      | timeout =>
        obtain ⟨w₁, new₁, hw₁, hsound, hlog, hframes₁, hlines₁, hbuf₁, hexit⟩ := h.flush
        obtain ⟨w', new, hrun, hsound', hclosed, hlog', hframes, hlines⟩ :=
          ih hrest hsound (hexit.trans hreading)
            (show _ = ([] : List (List UInt8)).flatten from hbuf₁)
        refine ⟨w', new₁ ++ new, ?_, hsound', hclosed, ?_, ?_, ?_⟩
        · rw [hstep ((if_neg hreads).trans hw₁)]
          exact hrun
        · rw [hlog', hlog, List.append_assoc]
        · show framesOf (new₁ ++ new) =
            (pending kept (runs (.timeout :: es.filterMap WireEvent.serial?))).filter _
          rw [framesOf, List.filterMap_append]
          show framesOf new₁ ++ framesOf new = _
          rw [hframes₁, hframes, ← List.filter_append, hbuf, runs, hruns]
          rfl
        · show linesOf (new₁ ++ new) = es.filterMap WireEvent.control?
          rw [linesOf, List.filterMap_append]
          show linesOf new₁ ++ linesOf new = _
          rw [hlines₁, hlines]
          rfl
      | interrupted =>
        obtain ⟨w', new, hrun, hrunSound⟩ := ih hrest h hreading hbuf
        refine ⟨w', new, ?_, hrunSound⟩
        rw [hstep (if_neg hreads)]
        exact hrun
      | eof => exact absurd rfl hopen.1
      | error => exact absurd rfl hopen.2

end Runs

/-- **The bridge is a register memory on the wire**, for every interleaving of control
lines and of what the reads of the serial connection return, up to its end.  The frames
served are the gap-free runs read, in order and without what the overflow guard threw
away, and the lines served are the control lines; the bytes written back are the replies
to the frames; and every reply on either channel reports, of each cell it covers, the
value written last before it on either channel, or zero. -/
theorem wire_is_register_memory (address : UInt8) (regs bits : ℕ) (es : List WireEvent)
    (hes : ∀ e ∈ es, e.Open) :
    ∃ w, wireAfter (Bus.new address regs bits) (es ++ [.serial .eof]) = .ok w ∧
      w.exit = .closed ∧
      framesOf w.log = ((runs (es.filterMap WireEvent.serial?)).map fun r =>
        (keep r).flatten).filter (!·.isEmpty) ∧
      linesOf w.log = es.filterMap WireEvent.control? ∧
      w.sent = w.log.flatMap (fun x => x.2.bytes) ∧
      ∀ past x future, w.log = past ++ x :: future →
        ∀ cell v, (cell, v) ∈ reported x → v = some (lastWrite 0 (past.flatMap written) cell) := by
  obtain ⟨w, new, hrun, hsound, hclosed, hlog, hframes, hlines⟩ :=
    (Wire.sound_start address regs bits).run hes rfl
      (show _ = ([] : List (List UInt8)).flatten from rfl)
  obtain rfl : w.log = new := hlog
  refine ⟨w, hrun, hclosed, ?_, hlines, hsound.sent, hsound.truthful⟩
  rw [hframes, pending_nil]

/-- A register seeded on the control channel while its request is still arriving. -/
theorem wire_is_register_memory_of_seed :
    ∃ w, wireAfter (Bus.new 1 4 0) ([.serial (.chunk [1, 3, 0, 2]),
        .control "holding 2=515".toList, .serial .interrupted,
        .serial (.chunk ([0, 1] ++ crcBytes [1, 3, 0, 2, 0, 1])), .serial .timeout] ++
          [.serial .eof]) = .ok w ∧
      framesOf w.log = [appendCrc [1, 3, 0, 2, 0, 1]] ∧
      w.sent = appendCrc [1, 3, 2, 2, 3] := by
  obtain ⟨w, hrun, -, hframes, -⟩ := wire_is_register_memory 1 4 0 [.serial (.chunk [1, 3, 0, 2]),
    .control "holding 2=515".toList, .serial .interrupted,
    .serial (.chunk ([0, 1] ++ crcBytes [1, 3, 0, 2, 0, 1])), .serial .timeout] (by decide)
  refine ⟨w, hrun, hframes.trans (by decide +kernel), ?_⟩
  have hsent : (wireAfter (Bus.new 1 4 0) ([.serial (.chunk [1, 3, 0, 2]),
      .control "holding 2=515".toList, .serial .interrupted,
      .serial (.chunk ([0, 1] ++ crcBytes [1, 3, 0, 2, 0, 1])), .serial .timeout] ++
        [.serial .eof])).map Wire.sent = .ok (appendCrc [1, 3, 2, 2, 3]) := by decide +kernel
  rw [hrun] at hsent
  exact Except.ok.inj hsent

end Bridge
end WardenSdk
