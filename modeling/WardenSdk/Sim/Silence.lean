import WardenSdk.Sim.Crc

/-!
# What silence means

`handle_frame` of `sim/src/modbus.rs` stays silent, as its comment has it, on a bad
checksum, a wrong address, a broadcast, or an injected drop; and an injected drop is to
swallow the next so many requests.  `DocumentedSilence` says that of a whole run, against
the run of the same slave without the drop.

The code takes a drop before it looks at the frame, so a frame that would have got no
answer anyway uses one up; and it knows a broadcast only by its not being the slave's own
address, which a slave at address 0 has.  The main result says exactly which runs are
as documented all the same.
-/

namespace WardenSdk
namespace Sim

open Lib

/-- The replies to frames that come one after the other. -/
def handleFrames (s : ModbusSlave) : List (List UInt8) → Checked (List (Option (List UInt8)))
  | [] => return []
  | f :: fs => do
    let (s', reply) ← handleFrame s f
    return reply :: (← handleFrames s' fs)

/-- After `drop_next(n)` the slave is silent on a frame exactly when the frame is too
short or fails its checksum, is for another slave, is a broadcast, or is one of the first
`n` that the slave would have answered without the drop. -/
def DocumentedSilence (s : ModbusSlave) (n : ℕ) (fs : List (List UInt8)) : Prop :=
  ∃ dropping plain, handleFrames (dropNext s n) fs = .ok dropping ∧
    handleFrames s fs = .ok plain ∧
    ∀ k f, fs[k]? = some f →
      (dropping[k]? = some none ↔
        f.length < 4 ∨ crcOk f = .ok false ∨ f.head? ≠ some s.address ∨ f.head? = some 0 ∨
          ((∃ reply, plain[k]? = some (some reply)) ∧
            (plain.take k).countP Option.isSome < n))

/-! ## One run -/

/-- A frame never changes the address, and drops are only used up. -/
theorem Handles.address_dropNext {s s' : ModbusSlave} {req : List UInt8}
    {reply : Option (List UInt8)} (h : Handles s req s' reply) :
    s'.address = s.address ∧ s'.dropNext = s.dropNext - 1 := by
  cases h with
  | dropped h => exact ⟨rfl, rfl⟩
  | ignored h => exact ⟨rfl, by omega⟩
  | forced h => exact ⟨rfl, by omega⟩
  | answered h own fault answers =>
    cases answers with
    | write h' inside banks settings =>
      exact ⟨settings.address, by rw [settings.dropNext]; omega⟩
    | _ => exact ⟨rfl, by omega⟩

/-- **A run is silent** on the frames it drops and on those that do not pass. -/
theorem handleFrames_silent (s : ModbusSlave) (fs : List (List UInt8)) :
    ∃ replies, handleFrames s fs = .ok replies ∧ replies.length = fs.length ∧
      ∀ k f, fs[k]? = some f →
        (replies[k]? = some none ↔ k < s.dropNext ∨ ¬ PassesFor s.address f) := by
  induction fs generalizing s with
  | nil => exact ⟨[], rfl, rfl, fun k f h => by simp at h⟩
  | cons f fs ih =>
    obtain ⟨s', reply, hframe, hhandles⟩ := handleFrame_handles s f
    obtain ⟨haddress, hdrop⟩ := hhandles.address_dropNext
    obtain ⟨replies, hrest, hlen, hsilent⟩ := ih s'
    refine ⟨reply :: replies, ?_, by simp [hlen], ?_⟩
    · rw [handleFrames, hframe]
      show (do return reply :: (← handleFrames s' fs)) = _
      rw [hrest]
      rfl
    · intro k g hg
      cases k with
      | zero =>
        cases hg
        have hnone := handleFrame_none_iff s f
        rw [hframe] at hnone
        have hreply : (∃ s'', (Except.ok (s', reply) : Checked (ModbusSlave × Option (List UInt8))) =
            .ok (s'', none)) ↔ reply = none := by simp
        rw [hreply] at hnone
        rw [List.getElem?_cons_zero, Option.some.injEq, hnone]
        by_cases hzero : s.dropNext = 0
        · simp [hzero]
        · simp [hzero, Nat.pos_of_ne_zero hzero]
      | succ k =>
        rw [List.getElem?_cons_succ, hsilent k g hg, haddress, hdrop]
        have hshift : k < s.dropNext - 1 ↔ k + 1 < s.dropNext := by omega
        rw [hshift]

/-- Without a drop the slave answers just the frames that pass. -/
theorem handleFrames_plain {s : ModbusSlave} (hdrop : s.dropNext = 0) (fs : List (List UInt8)) :
    ∃ replies, handleFrames s fs = .ok replies ∧
      replies.map Option.isSome = fs.map fun f => decide (PassesFor s.address f) := by
  obtain ⟨replies, hrun, hlen, hsilent⟩ := handleFrames_silent s fs
  refine ⟨replies, hrun, ?_⟩
  apply List.ext_getElem (by simp [hlen])
  intro k h₁ h₂
  rw [List.length_map] at h₁ h₂
  rw [List.getElem_map, List.getElem_map]
  have hk := hsilent k fs[k] (List.getElem?_eq_getElem h₂)
  rw [List.getElem?_eq_getElem h₁, Option.some.injEq, hdrop] at hk
  cases hreply : replies[k] with
  | none =>
    have hfails : ¬ PassesFor s.address fs[k] := (hk.mp hreply).resolve_left (Nat.not_lt_zero k)
    rw [decide_eq_false hfails]
    rfl
  | some reply =>
    have hpasses : PassesFor s.address fs[k] := by
      by_contra hfails
      rw [hk.mpr (.inr hfails)] at hreply
      cases hreply
    rw [decide_eq_true hpasses]
    rfl

/-! ## Against the documentation -/

/-- The frames that pass, among the first `k`. -/
def passing (address : UInt8) (fs : List (List UInt8)) (k : ℕ) : ℕ :=
  (fs.take k).countP fun f => decide (PassesFor address f)

theorem passing_le (address : UInt8) (fs : List (List UInt8)) (k : ℕ) : passing address fs k ≤ k :=
  (List.countP_le_length).trans (by rw [List.length_take]; exact Nat.min_le_left _ _)

theorem passing_mono (address : UInt8) (fs : List (List UInt8)) {k l : ℕ} (h : k ≤ l) :
    passing address fs k ≤ passing address fs l := by
  have hsub : (fs.take k).Sublist (fs.take l) := (List.take_prefix_take_left h).sublist
  exact hsub.countP_le

/-- The documented reasons for silence that lie in the frame. -/
theorem not_passesFor_iff (address : UInt8) (f : List UInt8) :
    ¬ PassesFor address f ↔
      f.length < 4 ∨ crcOk f = .ok false ∨ f.head? ≠ some address := by
  have hfalse : crcOk f = .ok false ↔ ¬ (3 ≤ f.length ∧ crc16 f = 0) := by
    rw [← crcOk_iff, crcOk_eq, Except.ok.injEq, Except.ok.injEq, Bool.not_eq_true]
  rw [hfalse, PassesFor]
  constructor
  · intro h
    by_cases hlen : f.length < 4
    · exact .inl hlen
    by_cases hhead : f.head? = some address
    · exact .inr (.inl fun hcrc => h ⟨by omega, hhead, hcrc.2⟩)
    · exact .inr (.inr hhead)
  · rintro (h | h | h) ⟨hlen, hhead, hcrc⟩
    · omega
    · exact h ⟨by omega, hcrc⟩
    · exact h hhead

/-- What the documentation asks of the frames that pass: exactly the first `n` frames of
the run are the first `n` that pass, and no frame is a broadcast. -/
theorem documentedSilence_iff_passing {s : ModbusSlave} (hdrop : s.dropNext = 0) (n : ℕ)
    (fs : List (List UInt8)) :
    DocumentedSilence s n fs ↔ ∀ k f, fs[k]? = some f → PassesFor s.address f →
      (k < n ↔ s.address = 0 ∨ passing s.address fs k < n) := by
  obtain ⟨dropping, hdropping, -, hsilent⟩ := handleFrames_silent (dropNext s n) fs
  obtain ⟨plain, hplain, hanswered⟩ := handleFrames_plain hdrop fs
  have hcount (k : ℕ) : (plain.take k).countP Option.isSome = passing s.address fs k := by
    have htake := congrArg (fun l => (l.take k).countP id) hanswered
    simpa only [← List.map_take, List.countP_map, Function.id_comp, passing] using htake
  have hreply {k : ℕ} {f : List UInt8} (hf : fs[k]? = some f) :
      (∃ reply, plain[k]? = some (some reply)) ↔ PassesFor s.address f := by
    have hk := congrArg (fun l => l[k]?) hanswered
    simp only [List.getElem?_map, hf, Option.map_some] at hk
    cases hp : plain[k]? with
    | none => rw [hp] at hk; cases hk
    | some r =>
      rw [hp, Option.map_some, Option.some.injEq] at hk
      rw [← decide_eq_true_iff (p := PassesFor s.address f), ← hk, Option.isSome_iff_exists]
      simp
  -- the two sides of one frame, with the reasons that lie in the frame put together
  have hone {k : ℕ} {f : List UInt8} (hf : fs[k]? = some f) :
      (dropping[k]? = some none ↔
        f.length < 4 ∨ crcOk f = .ok false ∨ f.head? ≠ some s.address ∨ f.head? = some 0 ∨
          ((∃ reply, plain[k]? = some (some reply)) ∧
            (plain.take k).countP Option.isSome < n)) ↔
      (PassesFor s.address f → (k < n ↔ s.address = 0 ∨ passing s.address fs k < n)) := by
    rw [hsilent k f hf, hreply hf, hcount, ← or_assoc, ← or_assoc, or_assoc (a := f.length < 4),
      ← not_passesFor_iff]
    show (k < n ∨ ¬ PassesFor s.address f ↔ _) ↔ _
    by_cases hpasses : PassesFor s.address f
    · simp only [hpasses, hpasses.2.1, not_true_eq_false, or_false, false_or, true_and,
        Option.some.injEq, true_implies]
    · simp only [hpasses, not_false_eq_true, or_true, true_or, false_implies]
  constructor
  · rintro ⟨dropping', plain', hdropping', hplain', hdoc⟩ k f hf
    rw [hdropping] at hdropping'
    rw [hplain] at hplain'
    cases hdropping'
    cases hplain'
    exact (hone hf).mp (hdoc k f hf)
  · intro h
    exact ⟨dropping, plain, hdropping, hplain, fun k f hf => (hone hf).mpr (h k f hf)⟩

/-- If nothing passes between `n` and `k`, the first `k` frames hold what the first `n`
do. -/
theorem passing_eq_of_none {address : UInt8} {fs : List (List UInt8)} {n k : ℕ} (hle : n ≤ k)
    (h : ∀ j f, n ≤ j → j < k → fs[j]? = some f → ¬ PassesFor address f) :
    passing address fs k = passing address fs n := by
  obtain ⟨m, rfl⟩ := Nat.exists_eq_add_of_le hle
  rw [passing, passing, List.take_add, List.countP_append, Nat.add_eq_left, List.countP_eq_zero]
  intro f hf
  obtain ⟨j, hj, rfl⟩ := List.getElem_of_mem hf
  rw [List.length_take, List.length_drop] at hj
  rw [List.getElem_take, List.getElem_drop, decide_eq_true_iff]
  exact h (n + j) _ (by omega) (by omega) (List.getElem?_eq_getElem (by omega))

/-- **When silence is as documented.**  Exactly when nothing that comes after the first
`n` frames passes for a frame of the slave, or when each of the first `n` does and the
slave is not at the broadcast address. -/
theorem documentedSilence_iff {s : ModbusSlave} (hdrop : s.dropNext = 0) (n : ℕ)
    (fs : List (List UInt8)) :
    DocumentedSilence s n fs ↔
      (∀ f ∈ fs.drop n, ¬ PassesFor s.address f) ∨
        (s.address ≠ 0 ∧ ∀ f ∈ fs.take n, PassesFor s.address f) := by
  rw [documentedSilence_iff_passing hdrop]
  constructor
  · intro h
    by_cases hlate : ∃ k, n ≤ k ∧ ∃ f, fs[k]? = some f ∧ PassesFor s.address f
    swap
    · refine .inl fun f hf hpasses => hlate ?_
      obtain ⟨j, hj⟩ := List.mem_iff_getElem?.mp hf
      rw [List.getElem?_drop] at hj
      exact ⟨n + j, Nat.le_add_right n j, f, hj, hpasses⟩
    -- the first frame after the `n`th that passes
    classical
    obtain ⟨hle, f, hf, hpasses⟩ := Nat.find_spec hlate
    have hcount := (h _ f hf hpasses).not.mp (Nat.not_lt.mpr hle)
    rw [not_or, Nat.not_lt] at hcount
    refine .inr ⟨hcount.1, ?_⟩
    have hsame : passing s.address fs (Nat.find hlate) = passing s.address fs n :=
      passing_eq_of_none hle fun j g hj hlt hg hpass => Nat.find_min hlate hlt ⟨hj, g, hg, hpass⟩
    have hall : (fs.take n).countP (fun f => decide (PassesFor s.address f)) =
        (fs.take n).length := by
      have hge : n ≤ passing s.address fs n := by rw [← hsame]; exact hcount.2
      have hlen : (fs.take n).length ≤ n := by rw [List.length_take]; exact Nat.min_le_left _ _
      exact Nat.le_antisymm List.countP_le_length (hlen.trans hge)
    intro g hg
    exact decide_eq_true_iff.mp (List.countP_eq_length.mp hall g hg)
  · rintro (hnone | ⟨haddress, hall⟩) k f hf hpasses
    · have hearly : k < n := by
        by_contra hge
        refine hnone f (List.mem_iff_getElem?.mpr ⟨k - n, ?_⟩) hpasses
        rw [List.getElem?_drop, Nat.add_sub_cancel' (Nat.not_lt.mp hge), hf]
      exact ⟨fun _ => .inr ((passing_le _ _ k).trans_lt hearly), fun _ => hearly⟩
    · constructor
      · exact fun hearly => .inr ((passing_le _ _ k).trans_lt hearly)
      · rintro (hzero | hfew)
        · exact absurd hzero haddress
        · by_contra hge
          have hlen : (fs.take n).length = n := by
            have hk := (List.getElem?_eq_some_iff.mp hf).1
            rw [List.length_take]
            omega
          have hfull : passing s.address fs n = n := by
            rw [passing, List.countP_eq_length.mpr fun g hg => decide_eq_true (hall g hg), hlen]
          have hmono := passing_mono s.address fs (Nat.not_lt.mp hge)
          omega

/-- Two requests of its own, of which the first is dropped. -/
theorem documentedSilence_of_own_requests :
    DocumentedSilence (ModbusSlave.new 1 8 0) 1
      [appendCrc [1, 3, 0, 0, 0, 1], appendCrc [1, 3, 0, 0, 0, 1]] :=
  (documentedSilence_iff rfl 1 _).mpr (.inr ⟨by decide, by decide +kernel⟩)

/-- A slave at address 0 answers a broadcast; and a request for another slave uses up
the drop, so that the slave answers the one request it was to ignore. -/
theorem silence_not_as_documented :
    ¬ DocumentedSilence (ModbusSlave.new 0 8 0) 0 [appendCrc [0, 3, 0, 0, 0, 1]] ∧
      ¬ DocumentedSilence (ModbusSlave.new 1 8 0) 1
        [appendCrc [2, 3, 0, 0, 0, 1], appendCrc [1, 3, 0, 0, 0, 1]] := by
  constructor
  · intro h
    have hbroadcast := (documentedSilence_iff_passing rfl 0 _).mp h 0 _ rfl (by decide +kernel)
    exact absurd (hbroadcast.mpr (.inl rfl)) (by decide)
  · intro h
    have hsecond := (documentedSilence_iff_passing rfl 1 _).mp h 1 _ rfl (by decide +kernel)
    exact absurd (hsecond.mpr (.inr (by decide +kernel))) (by decide)

end Sim
end WardenSdk
