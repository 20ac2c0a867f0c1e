import Mathlib.Data.List.Forall2
import WardenSdk.Sim.ModbusMemory

/-!
# Framing by gaps

`pump_serial` of `qemu/rs485-bridge/src/lib.rs` turns the bytes of a serial
connection into frames: it gathers what it reads until a read times out, hands the
gathered bytes to the slave and writes the reply back.  A connection is the list of
what its reads return, and replies are always writable.  The log lines and the
pause after a discard are left out.

The frames are described apart from the loop.  `runs` cuts the chunks read at the
timeouts; `keep` is what is left of a run once the overflow guard has thrown away
every buffer that grew past `maxPending`.  The loop hands on exactly the non-empty
kept runs (`pumpSerial_holds`), so how a run was cut into chunks shows only when
the run is too long for the buffer.
-/

namespace WardenSdk
namespace Bridge

open Lib Sim

/-! ## The loop -/

def maxPending : ℕ := 512

/-- What one read of the connection returns. -/
inductive ReadEvent where
  | chunk (bytes : List UInt8)
  | timeout
  | interrupted
  | eof
  | error
  deriving DecidableEq

/-- The state of the loop: the slave, the bytes gathered, the bytes written back,
and the frames handed to the slave so far. -/
structure Pump where
  slave : ModbusSlave
  buf : List UInt8
  sent : List UInt8
  frames : List (List UInt8)
  deriving DecidableEq

inductive PumpExit where
  | reading
  | closed
  | failed
  deriving DecidableEq

def Pump.start (slave : ModbusSlave) : Pump := ⟨slave, [], [], []⟩

/-- `dispatch` of the bridge. -/
def Pump.dispatch (p : Pump) : Checked Pump := do
  let (slave, reply) ← handleFrame p.slave p.buf
  return ⟨slave, [], p.sent ++ reply.getD [], p.frames ++ [p.buf]⟩

/-- Dispatch what is pending, if anything is. -/
def Pump.flush (p : Pump) : Checked Pump := if p.buf.isEmpty then return p else p.dispatch

def Pump.extend (p : Pump) (bytes : List UInt8) : Pump :=
  if (p.buf ++ bytes).length > maxPending then { p with buf := [] }
  else { p with buf := p.buf ++ bytes }

def pumpSerial (p : Pump) : List ReadEvent → Checked (Pump × PumpExit)
  | [] => return (p, .reading)
  | .eof :: _ => do return (← p.flush, .closed)
  | .chunk bytes :: es => pumpSerial (p.extend bytes) es
  | .timeout :: es => do pumpSerial (← p.flush) es
  | .interrupted :: es => pumpSerial p es
  | .error :: _ => return (p, .failed)

/-! ## Gap-free runs -/

/-- A chunk in front of the first run. -/
def glue (bytes : List UInt8) : List (List (List UInt8)) → List (List (List UInt8))
  | [] => [[bytes]]
  | r :: rs => (bytes :: r) :: rs

/-- The chunks read, cut at the timeouts. -/
def runs : List ReadEvent → List (List (List UInt8))
  | [] => [[]]
  | .chunk bytes :: es => glue bytes (runs es)
  | .timeout :: es => [] :: runs es
  | _ :: es => runs es

/-- One more chunk, unless it fills the buffer beyond its cap. -/
def keepChunk (kept : List (List UInt8)) (bytes : List UInt8) : List (List UInt8) :=
  if (kept.flatten ++ bytes).length > maxPending then [] else kept ++ [bytes]

/-- The chunks of a run that are still in the buffer at its end. -/
def keep (run : List (List UInt8)) : List (List UInt8) := run.foldl keepChunk []

/-- The slave and the bytes it answers when it is handed frames one by one. -/
def replies (slave : ModbusSlave) (frames : List (List UInt8)) :
    Checked (ModbusSlave × List UInt8) :=
  frames.foldlM (fun (s, sent) frame => do
    let (s, reply) ← handleFrame s frame
    return (s, sent ++ reply.getD [])) (slave, [])

theorem runs_eq_cons (es : List ReadEvent) : ∃ r rs, runs es = r :: rs := by
  induction es with
  | nil => exact ⟨_, _, rfl⟩
  | cons e es ih =>
    obtain ⟨r, rs, h⟩ := ih
    cases e with
    | chunk bytes => exact ⟨bytes :: r, rs, by rw [runs, h]; rfl⟩
    | timeout => exact ⟨[], runs es, rfl⟩
    | interrupted => exact ⟨r, rs, h⟩
    | eof => exact ⟨r, rs, h⟩
    | error => exact ⟨r, rs, h⟩

theorem flatten_concat (kept : List (List UInt8)) (bytes : List UInt8) :
    (kept ++ [bytes]).flatten = kept.flatten ++ bytes := by
  rw [List.flatten_append, List.flatten_singleton]

theorem keep_concat (run : List (List UInt8)) (bytes : List UInt8) :
    keep (run ++ [bytes]) = keepChunk (keep run) bytes := by
  rw [keep, List.foldl_append]
  rfl

/-- What is kept is a tail of the run, in whole chunks, and fits the buffer. -/
theorem keep_suffix (run : List (List UInt8)) :
    keep run <:+ run ∧ (keep run).flatten.length ≤ maxPending := by
  induction run using List.reverseRecOn with
  | nil => exact ⟨List.suffix_rfl, Nat.zero_le _⟩
  | append_singleton run bytes ih =>
    rw [keep_concat, keepChunk]
    split_ifs with hlong
    · exact ⟨List.nil_suffix, Nat.zero_le _⟩
    · refine ⟨?_, ?_⟩
      · obtain ⟨lost, hlost⟩ := ih.1
        exact ⟨lost, by rw [← List.append_assoc, hlost]⟩
      · rw [flatten_concat]
        exact not_lt.mp hlong

/-- A run that fits the buffer is kept whole. -/
theorem keep_of_fits {run : List (List UInt8)} (h : run.flatten.length ≤ maxPending) :
    keep run = run := by
  induction run using List.reverseRecOn with
  | nil => rfl
  | append_singleton run bytes ih =>
    rw [flatten_concat, List.length_append] at h
    have hrun : keep run = run := ih (by omega)
    rw [keep_concat, hrun, keepChunk, if_neg (by rw [List.length_append]; omega)]

/-! ## The loop hands on the kept runs -/

/-- The buffers of the kept runs, where the first run started with `kept`. -/
def pending (kept : List (List UInt8)) : List (List (List UInt8)) → List (List UInt8)
  | [] => []
  | r :: rs => (r.foldl keepChunk kept).flatten :: rs.map fun r => (keep r).flatten

/-- The frames handed on so far were answered in order, and the buffer holds the
kept chunks of the run that is being read. -/
structure Pump.Holds (slave : ModbusSlave) (kept : List (List UInt8)) (p : Pump) : Prop where
  buf : p.buf = kept.flatten
  answered : replies slave p.frames = .ok (p.slave, p.sent)

theorem Pump.holds_start (slave : ModbusSlave) : (Pump.start slave).Holds slave [] :=
  ⟨rfl, rfl⟩

theorem Pump.Holds.extend {slave : ModbusSlave} {kept : List (List UInt8)} {p : Pump}
    (h : p.Holds slave kept) (bytes : List UInt8) :
    (p.extend bytes).Holds slave (keepChunk kept bytes) ∧ (p.extend bytes).frames = p.frames := by
  unfold Pump.extend keepChunk
  rw [h.buf]
  split_ifs with hlong
  · exact ⟨⟨rfl, h.answered⟩, rfl⟩
  · exact ⟨⟨(flatten_concat kept bytes).symm, h.answered⟩, rfl⟩

/-- Flushing hands the pending bytes on as one frame, unless there are none. -/
theorem Pump.Holds.flush {slave : ModbusSlave} {kept : List (List UInt8)} {p : Pump}
    (h : p.Holds slave kept) :
    ∃ p', p.flush = .ok p' ∧ p'.Holds slave [] ∧
      p'.frames = p.frames ++ [kept.flatten].filter (!·.isEmpty) := by
  unfold Pump.flush
  rw [h.buf]
  cases hempty : kept.flatten.isEmpty with
  | true =>
    refine ⟨p, rfl, ⟨?_, h.answered⟩, ?_⟩
    · rw [h.buf, List.isEmpty_iff.mp hempty]
      rfl
    · simp [hempty]
  | false =>
    obtain ⟨slave', reply, hframe, -⟩ := handleFrame_handles p.slave p.buf
    refine ⟨⟨slave', [], p.sent ++ reply.getD [], p.frames ++ [p.buf]⟩, ?_, ⟨rfl, ?_⟩, ?_⟩
    · rw [if_neg (by decide), Pump.dispatch, hframe]
      rfl
    · have hanswered := h.answered
      rw [replies] at hanswered
      rw [replies, foldlM_concat, hanswered]
      show (do
        let (s, reply) ← handleFrame p.slave p.buf
        return (s, p.sent ++ reply.getD [])) = _
      rw [hframe]
      rfl
    · simp [hempty, h.buf]

/-- **The loop, from any point of a run.** -/
theorem pumpSerial_holds {slave : ModbusSlave} {es : List ReadEvent}
    (hes : ∀ e ∈ es, e ≠ .eof ∧ e ≠ .error) {kept : List (List UInt8)} {p : Pump}
    (h : p.Holds slave kept) :
    ∃ p', pumpSerial p (es ++ [.eof]) = .ok (p', .closed) ∧ p'.Holds slave [] ∧
      p'.frames = p.frames ++ (pending kept (runs es)).filter (!·.isEmpty) := by
  induction es generalizing kept p with
  | nil =>
    obtain ⟨p', hflush, hholds, hframes⟩ := h.flush
    exact ⟨p', by rw [List.nil_append, pumpSerial, hflush]; rfl, hholds, hframes⟩
  | cons e es ih =>
    have hrest : ∀ e ∈ es, e ≠ .eof ∧ e ≠ .error := fun e he => hes e (List.mem_cons_of_mem _ he)
    cases e with
    | chunk bytes =>
      obtain ⟨hnext, hsame⟩ := h.extend bytes
      obtain ⟨p', hpump, hholds, hframes⟩ := ih hrest hnext
      refine ⟨p', hpump, hholds, ?_⟩
      obtain ⟨r, rs, hruns⟩ := runs_eq_cons es
      rw [hframes, hsame, runs, hruns]
      rfl
    | timeout =>
      obtain ⟨q, hflush, hq, hqframes⟩ := h.flush
      obtain ⟨p', hpump, hholds, hframes⟩ := ih hrest hq
      refine ⟨p', by rw [List.cons_append, pumpSerial, hflush]; exact hpump, hholds, ?_⟩
      obtain ⟨r, rs, hruns⟩ := runs_eq_cons es
      rw [hframes, hqframes, List.append_assoc, ← List.filter_append, runs, hruns]
      rfl
    | interrupted => exact ih hrest h
    | eof => exact absurd rfl (hes _ List.mem_cons_self).1
    | error => exact absurd rfl (hes _ List.mem_cons_self).2

theorem pending_nil (es : List ReadEvent) :
    pending [] (runs es) = (runs es).map fun r => (keep r).flatten := by
  obtain ⟨r, rs, hruns⟩ := runs_eq_cons es
  rw [hruns]
  rfl

/-- **Framing by gaps.**  A connection that ends in EOF hands the slave, run by run
and in order, the non-empty kept part of each run: a tail of that run in whole
chunks and within the buffer.  If every run fits the buffer these are the runs
themselves.  The bytes written back are the replies of the slave to those frames,
one by one. -/
theorem pumpSerial_frames (slave : ModbusSlave) (es : List ReadEvent)
    (hes : ∀ e ∈ es, e ≠ .eof ∧ e ≠ .error) :
    ∃ p, pumpSerial (Pump.start slave) (es ++ [.eof]) = .ok (p, .closed) ∧
      replies slave p.frames = .ok (p.slave, p.sent) ∧
      (∃ kept, List.Forall₂ (fun k r => k <:+ r ∧ k.flatten.length ≤ maxPending) kept (runs es) ∧
        p.frames = (kept.map List.flatten).filter (!·.isEmpty)) ∧
      ((∀ r ∈ runs es, r.flatten.length ≤ maxPending) →
        p.frames = ((runs es).map List.flatten).filter (!·.isEmpty)) := by
  obtain ⟨p, hpump, hholds, hframes⟩ := pumpSerial_holds hes (Pump.holds_start slave)
  have hkept : p.frames = ((runs es).map fun r => (keep r).flatten).filter (!·.isEmpty) := by
    rw [hframes, pending_nil]
    rfl
  refine ⟨p, hpump, hholds.answered, ⟨(runs es).map keep, ?_, ?_⟩, fun hfits => ?_⟩
  · rw [List.forall₂_map_left_iff]
    exact List.forall₂_same.mpr fun r _ => keep_suffix r
  · rw [hkept, List.map_map]
    rfl
  · rw [hkept]
    congr 1
    apply List.map_congr_left
    intro r hr
    rw [keep_of_fits (hfits r hr)]

/-- A frame read in two chunks, an empty gap and a last frame at EOF. -/
theorem pumpSerial_frames_of_split :
    ∃ p, pumpSerial (Pump.start (ModbusSlave.new 1 2 0))
        ([.chunk [1], .interrupted, .chunk [2], .timeout, .timeout, .chunk [3]] ++ [.eof]) =
          .ok (p, .closed) ∧ p.frames = [[1, 2], [3]] := by
  obtain ⟨p, hpump, -, -, hframes⟩ := pumpSerial_frames (ModbusSlave.new 1 2 0)
    [.chunk [1], .interrupted, .chunk [2], .timeout, .timeout, .chunk [3]] (by decide)
  exact ⟨p, hpump, hframes (by decide)⟩

end Bridge
end WardenSdk
