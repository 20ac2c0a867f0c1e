import WardenSdk.ConfigLint.DeviceTree
import WardenSdk.Lib.Utf8

/-!
# The devicetree scanner on bytes

`parse_reserved_ranges` as it runs: positions are byte offsets that loops move byte by
byte, and every slice and every index is checked.  `DeviceTree` has the same scanner
with the text that is left in place of a position.

* `outerStep` and `innerStep` are one round of the two `while let` loops.  Each round
  that goes on moves its position forward (`innerStep_lt`, `outerStep_lt`), which is
  what makes them loops (`blockScan`, `sourceScan`).
* From a position between two characters each round ends without a panic, in another
  such position, and has taken what the scanner on texts takes (`blockScan_run`,
  `sourceScan_run`).  The count of open braces stays below the length of the text, and so
  inside 32 bits when the text is shorter than `2 ^ 31` bytes.
-/

namespace WardenSdk
namespace ConfigLint

open Lib

/-! ## The loops -/

/-- A character literal `b'c'`. -/
def byteOf (c : Char) : UInt8 := UInt8.ofNat c.toNat

/-- `is_ident_byte`. -/
def isIdentU8 (b : UInt8) : Bool :=
  (byteOf '0' ≤ b && b ≤ byteOf '9') || (byteOf 'A' ≤ b && b ≤ byteOf 'Z') ||
    (byteOf 'a' ≤ b && b ≤ byteOf 'z') || b == byteOf '_' || b == byteOf '-'

def isRegSpaceU8 (b : UInt8) : Bool :=
  b == byteOf ' ' || b == byteOf '\t' || b == byteOf '\r' || b == byteOf '\n'

/-- The result of an operation on `i32`. -/
def checkedI32 (d : ℤ) : Checked ℤ :=
  if -2 ^ 31 ≤ d ∧ d < 2 ^ 31 then .ok d else .error .overflow

/-- The loop that counts braces, up to behind the one where they balance. -/
def braceEnd (bytes : List UInt8) (j : ℕ) (depth : ℤ) : Checked ℕ :=
  if j < bytes.length then do
    let b ← index bytes j
    if b = byteOf '{' then
      let depth ← checkedI32 (depth + 1)
      braceEnd bytes (j + 1) depth
    else if b = byteOf '}' then
      let depth ← checkedI32 (depth - 1)
      if depth = 0 then .ok (j + 1) else braceEnd bytes (j + 1) depth
    else braceEnd bytes (j + 1) depth
  else .ok j
termination_by bytes.length - j

/-- The two numbers between the next pair of angle brackets from `a` on. -/
def pairAt (block : Text) (a : ℕ) : Checked (Option Range) := do
  let s ← strFrom block a
  match strFind ['<'] s with
  | none => .ok none
  | some ltRel =>
    let lt := a + ltRel
    let s ← strFrom block lt
    match strFind ['>'] s with
    | none => .ok none
    | some gtRel =>
      let gt := lt + gtRel
      let inner ← strRange block (lt + 1) gt
      match splitWhitespace inner with
      | addr :: size :: _ =>
        .ok ((parseAddr addr).bind fun start => (parseAddr size).map fun size => ⟨start, size⟩)
      | _ => .ok none

/-- No identifier goes on at `p`. -/
def beforeOk (bb : List UInt8) (p : ℕ) : Checked Bool :=
  if p = 0 then .ok true else (index bb (p - 1)).map (!isIdentU8 ·)

def equalsAt (bb : List UInt8) (a : ℕ) : Checked Bool :=
  if a < bb.length then (index bb a).map (· == byteOf '=') else .ok false

/-- The range of the `reg` that stands at `p`, if it is one of a property. -/
def rangeAt (block : Text) (p : ℕ) : Checked (Option Range) := do
  let bb := utf8 block
  let ok ← beforeOk bb p
  let a ← skipWhile isRegSpaceU8 bb (p + 3)
  -- `before_ok && a < bb.len() && bb[a] == b'='`, from left to right
  if ok then
    let equals ← equalsAt bb a
    if equals then pairAt block a else .ok none
  else .ok none

/-- One round of the inner loop: the next position, and the ranges so far. -/
def innerStep (block : Text) (k : ℕ) (out : List Range) : Checked (Option (ℕ × List Range)) := do
  let rest ← strFrom block k
  match strFind "reg".toList rest with
  | none => .ok none
  | some rel =>
    let range ← rangeAt block (k + rel)
    .ok (some (k + rel + 3, out ++ range.toList))

/-- **The inner position moves forward**, and stays inside the block. -/
theorem innerStep_lt {block : Text} {k k' : ℕ} {out out' : List Range}
    (h : innerStep block k out = .ok (some (k', out'))) : k < k' ∧ k' ≤ utf8Len block := by
  obtain ⟨rest, hrest, h⟩ := bind_eq_ok h
  obtain ⟨u, rfl, rfl⟩ := strFrom_eq_ok hrest
  split at h
  · cases h
  · rename_i rel hrel
    obtain ⟨range, -, h⟩ := bind_eq_ok h
    cases h
    have hle := strFind_le hrel
    have hreg : utf8Len "reg".toList = 3 := rfl
    rw [utf8Len_append]
    omega

def blockScan (block : Text) : Scan (List Range) where
  step := innerStep block
  bound := utf8Len block
  forward := innerStep_lt

/-- One round of the outer loop. -/
def outerStep (dt : Text) (i : ℕ) (out : List Range) : Checked (Option (ℕ × List Range)) := do
  let bytes := utf8 dt
  let rest ← strFrom dt i
  match strFind reservedMemory rest with
  | none => .ok none
  | some pos =>
    let start ← skipWhile (· != byteOf '{') bytes (i + pos)
    if bytes.length ≤ start then .ok none
    else
      let j ← braceEnd bytes start 0
      let block ← strRange dt start (min j bytes.length)
      let out ← (blockScan block).run 0 out
      .ok (some (j, out))

/-- The count of braces takes at least one byte. -/
theorem braceEnd_lt {bytes : List UInt8} {j j' : ℕ} {depth : ℤ}
    (h : braceEnd bytes j depth = .ok j') (hj : j < bytes.length) : j < j' ∧ j' ≤ bytes.length := by
  induction hn : bytes.length - j generalizing j depth with
  | zero => omega
  | succ n ih =>
    rw [braceEnd, if_pos hj] at h
    obtain ⟨b, -, h⟩ := bind_eq_ok h
    have further {depth : ℤ} (h : braceEnd bytes (j + 1) depth = .ok j') :
        j < j' ∧ j' ≤ bytes.length := by
      by_cases hlast : j + 1 < bytes.length
      · have := ih h hlast (by omega)
        omega
      · rw [braceEnd, if_neg hlast] at h
        cases h
        omega
    split_ifs at h
    · obtain ⟨depth', -, h⟩ := bind_eq_ok h
      exact further h
    · obtain ⟨depth', -, h⟩ := bind_eq_ok h
      split_ifs at h
      · cases h
        omega
      · exact further h
    · exact further h

/-- **The outer position moves forward**, and stays inside the text. -/
theorem outerStep_lt {dt : Text} {i i' : ℕ} {out out' : List Range}
    (h : outerStep dt i out = .ok (some (i', out'))) : i < i' ∧ i' ≤ utf8Len dt := by
  obtain ⟨rest, -, h⟩ := bind_eq_ok h
  split at h
  · cases h
  · rename_i pos hpos
    obtain ⟨start, hstart, h⟩ := bind_eq_ok h
    by_cases hend : (utf8 dt).length ≤ start
    · rw [if_pos hend] at h
      cases h
    rw [if_neg hend] at h
    obtain ⟨j, hj, h⟩ := bind_eq_ok h
    obtain ⟨block, -, h⟩ := bind_eq_ok h
    obtain ⟨out₁, -, h⟩ := bind_eq_ok h
    cases h
    have hfrom := le_of_skipWhile hstart
    have hbrace := braceEnd_lt hj (by omega)
    exact ⟨by omega, hbrace.2⟩

def sourceScan (dt : Text) : Scan (List Range) where
  step := outerStep dt
  bound := utf8Len dt
  forward := outerStep_lt

/-- `parse_reserved_ranges`, with its panics. -/
def parseReservedRangesChecked (dt : Text) : Checked (List Range) := (sourceScan dt).run 0 []

/-! ## Kinds of bytes -/

theorem beq_of_not_ascii {c x : Char} (hc : 128 ≤ c.toNat) (hx : x.toNat < 128) :
    (c == x) = false := by
  refine beq_false_of_ne fun h => ?_
  rw [h] at hc
  omega

theorem agrees_isIdent : Agrees isIdentU8 isIdentByte := by
  refine agrees_of_ascii (d := false) (by decide) (by decide) fun c hc => ?_
  have halnum : c.isAlphanum = false := by
    rw [← Bool.not_eq_true]
    intro h
    have := toNat_lt_of_isAlphanum h
    omega
  rw [isIdentByte, halnum, beq_of_not_ascii hc (by decide), beq_of_not_ascii hc (by decide)]
  rfl

theorem agrees_isRegSpace : Agrees isRegSpaceU8 isRegSpace := by
  refine agrees_of_ascii (d := false) (by decide) (by decide) fun c hc => ?_
  rw [isRegSpace, beq_of_not_ascii hc (by decide), beq_of_not_ascii hc (by decide),
    beq_of_not_ascii hc (by decide), beq_of_not_ascii hc (by decide)]
  rfl

/-- The byte of an ASCII character stands in no other character. -/
theorem agrees_byteOf {x : Char} (hx : x.toNat < 128) : Agrees (· == byteOf x) (· == x) := by
  have hbyte : (byteOf x).toNat = x.toNat := by
    rw [byteOf, UInt8.toNat_ofNat', Nat.mod_eq_of_lt (by omega)]
  intro c b hb
  rw [Bool.eq_iff_iff, beq_iff_eq, beq_iff_eq]
  rcases utf8EncodeChar_cases c with ⟨hlt, henc⟩ | ⟨hle, hall⟩
  · rw [henc, List.mem_singleton] at hb
    have hc : b.toNat = c.toNat := by rw [hb, UInt8.toNat_ofNat', Nat.mod_eq_of_lt (by omega)]
    rw [← UInt8.toNat_inj, hbyte, hc]
    exact Char.toNat_inj
  · have hlarge := hall b hb
    constructor
    · rintro rfl
      omega
    · rintro rfl
      omega

/-! ## One `reg` token -/

theorem pairAt_eq (w t : Text) : pairAt (w ++ t) (utf8Len w) = .ok (readPair t) := by
  have hpos (u v : Text) : strFrom (w ++ (u ++ v)) (utf8Len w + utf8Len u) = .ok v := by
    rw [← List.append_assoc, ← utf8Len_append, strFrom_append]
  rw [pairAt, strFrom_append, ok_bind, readPair]
  cases hlt : splitOnce '<' t with
  | none =>
    rw [strFind_singleton_none (splitOnce_eq_none_iff.mp hlt)]
    rfl
  | some p =>
    obtain ⟨u, y⟩ := p
    obtain ⟨rfl, -⟩ := splitOnce_eq_some_iff.mp hlt
    rw [strFind_singleton hlt]
    dsimp only
    rw [hpos, ok_bind]
    have hfind : strFind ['>'] ('<' :: y) = (strFind ['>'] y).map (1 + ·) := by
      rw [strFind, if_neg (by simp)]
      rfl
    rw [hfind]
    cases hgt : splitOnce '>' y with
    | none =>
      rw [strFind_singleton_none (splitOnce_eq_none_iff.mp hgt)]
      simp only [Option.bind_eq_bind, Option.bind_some, hgt]
      rfl
    | some q =>
      obtain ⟨inner, v⟩ := q
      obtain ⟨rfl, -⟩ := splitOnce_eq_some_iff.mp hgt
      rw [strFind_singleton hgt]
      have hrange : strRange (w ++ (u ++ '<' :: (inner ++ '>' :: v)))
          (utf8Len w + utf8Len u + 1) (utf8Len w + utf8Len u + (1 + utf8Len inner)) = .ok inner := by
        have h := strRange_append (w ++ u ++ ['<']) inner ('>' :: v)
        have hone : utf8Len ['<'] = 1 := rfl
        simp only [utf8Len_append, hone, List.append_assoc, List.singleton_append] at h
        rw [← h]
        congr 1
        omega
      simp only [Option.map_some, hrange, ok_bind, Option.bind_eq_bind, Option.bind_some, hgt]
      rcases splitWhitespace inner with _ | ⟨addr, _ | ⟨size, more⟩⟩
      · rfl
      · rfl
      · dsimp only
        cases parseAddr addr <;> cases parseAddr size <;> rfl

theorem beforeOk_eq (u t : Text) :
    beforeOk (utf8 (u ++ t)) (utf8Len u) = .ok (u.getLast?.all (!isIdentByte ·)) := by
  unfold beforeOk
  cases hlast : u.getLast? with
  | none =>
    obtain rfl := List.getLast?_eq_none_iff.mp hlast
    rfl
  | some c =>
    obtain ⟨b, hb, hagree⟩ := agrees_isIdent.getLast_utf8 hlast
    have hpos : 0 < utf8Len u := by
      obtain ⟨v, rfl⟩ := List.getLast?_eq_some_iff.mp hlast
      have := c.utf8Size_pos
      rw [utf8Len_append, utf8Len_cons]
      omega
    have hindex : index (utf8 (u ++ t)) (utf8Len u - 1) = .ok b := by
      refine index_of_getElem? ?_
      rw [utf8_append, List.getElem?_append_left (by rw [utf8Len] at hpos ⊢; omega), utf8Len,
        ← List.getLast?_eq_getElem?, hb]
    rw [if_neg (by omega), hindex, Option.all_some, ← hagree]
    rfl

theorem equalsAt_eq (w t : Text) :
    equalsAt (utf8 (w ++ t)) (utf8Len w) = .ok (t.head? == some '=') := by
  unfold equalsAt
  cases t with
  | nil =>
    rw [List.append_nil, utf8Len, if_neg (Nat.lt_irrefl _)]
    rfl
  | cons d t =>
    have hlen : utf8Len w < (utf8 (w ++ d :: t)).length := by
      have := d.utf8Size_pos
      rw [← utf8Len, utf8Len_append, utf8Len_cons]
      omega
    obtain ⟨b, more, henc⟩ := List.exists_cons_of_ne_nil (String.utf8EncodeChar_ne_nil (c := d))
    have hindex : index (utf8 (w ++ d :: t)) (utf8Len w) = .ok b := by
      rw [utf8_append, utf8_cons, henc, List.cons_append, utf8Len, index_append]
    have hagree : (b == byteOf '=') = (d == '=') :=
      agrees_byteOf (by decide) d b (by rw [henc]; exact List.mem_cons_self)
    rw [if_pos hlen, hindex]
    show Except.ok (b == byteOf '=') = _
    rw [hagree]
    rfl

/-- **A `reg` at a boundary** gives the range that it gives in the text. -/
theorem rangeAt_eq (u s : Text) :
    rangeAt (u ++ ("reg".toList ++ s)) (utf8Len u) = .ok (regRange u.getLast? s) := by
  have hstop : utf8Len u + 3 = utf8Len (u ++ "reg".toList) := by rw [utf8Len_append]; rfl
  have hsplit := List.takeWhile_append_dropWhile (p := isRegSpace) (l := s)
  have hshape : u ++ ("reg".toList ++ s) =
      (u ++ "reg".toList ++ s.takeWhile isRegSpace) ++ s.dropWhile isRegSpace := by
    rw [List.append_assoc _ _ (s.dropWhile isRegSpace), hsplit, List.append_assoc]
  have hskip : skipWhile isRegSpaceU8 (utf8 (u ++ ("reg".toList ++ s))) (utf8Len u + 3) =
      .ok (utf8Len (u ++ "reg".toList ++ s.takeWhile isRegSpace)) := by
    rw [hstop, ← List.append_assoc, skipWhile_utf8 agrees_isRegSpace, ← utf8Len_append]
  rw [rangeAt, beforeOk_eq, ok_bind, hskip, ok_bind, hshape, equalsAt_eq, ok_bind, pairAt_eq, regRange]
  split_ifs with hbefore hequals
  · obtain ⟨t, ht⟩ := List.head?_eq_some_iff.mp (beq_iff_eq.mp hequals)
    rw [ht]
    rfl
  · split
    · rename_i t ht
      rw [ht] at hequals
      exact absurd rfl hequals
    · rfl
  · rfl

/-! ## One block -/

theorem scanRegs_of_strFind_none {v : Text} (h : strFind "reg".toList v = none)
    (before : Option Char) : scanRegs before v = [] := by
  induction v generalizing before with
  | nil => rfl
  | cons c v ih =>
    rw [strFind] at h
    split_ifs at h with hhere
    rw [scanRegs_cons_of_not_reg fun hreg => hhere (List.isPrefixOf_iff_prefix.mpr hreg)]
    exact ih (Option.map_eq_none_iff.mp h) _

/-- The scan goes on behind the token that the search finds. -/
theorem scanRegs_of_strFind {v : Text} {rel : ℕ} (h : strFind "reg".toList v = some rel)
    (before : Option Char) :
    ∃ w s, v = w ++ ("reg".toList ++ s) ∧ utf8Len w = rel ∧
      scanRegs before v =
        (regRange (w.getLast?.or before) s).toList ++ scanRegs (some 'g') s := by
  induction v generalizing before rel with
  | nil => cases h
  | cons c v ih =>
    rw [strFind] at h
    split_ifs at h with hhere
    · cases h
      obtain ⟨s, hs⟩ := List.isPrefixOf_iff_prefix.mp hhere
      refine ⟨[], s, hs.symm, rfl, ?_⟩
      rw [← hs]
      rfl
    · obtain ⟨rel', hrel, rfl⟩ := Option.map_eq_some_iff.mp h
      obtain ⟨w, s, rfl, rfl, hscan⟩ := ih hrel (some c)
      refine ⟨c :: w, s, rfl, utf8Len_cons c w, ?_⟩
      rw [scanRegs_cons_of_not_reg fun hreg => hhere (List.isPrefixOf_iff_prefix.mpr hreg), hscan,
        List.getLast?_cons]
      cases w.getLast? <;> rfl

/-- **The inner loop**, from a boundary on, takes what the scanner takes from the text
that is left. -/
theorem blockScan_run (u v : Text) (out : List Range) :
    (blockScan (u ++ v)).run (utf8Len u) out = .ok (out ++ scanRegs u.getLast? v) := by
  induction hn : v.length using Nat.strong_induction_on generalizing u v out with
  | _ n ih =>
  cases hfind : strFind "reg".toList v with
  | none =>
    have hstep : (blockScan (u ++ v)).step (utf8Len u) out = .ok none := by
      show innerStep _ _ _ = _
      rw [innerStep, strFrom_append, ok_bind, hfind]
    rw [Scan.run_of_none hstep, scanRegs_of_strFind_none hfind, List.append_nil]
  | some rel =>
    obtain ⟨w, s, rfl, rfl, hscan⟩ := scanRegs_of_strFind hfind u.getLast?
    have hrange : rangeAt (u ++ (w ++ ("reg".toList ++ s))) (utf8Len u + utf8Len w) =
        .ok (regRange (w.getLast?.or u.getLast?) s) := by
      rw [← List.append_assoc, ← utf8Len_append, rangeAt_eq, List.getLast?_append]
    have hstep : (blockScan (u ++ (w ++ ("reg".toList ++ s)))).step (utf8Len u) out =
        .ok (some (utf8Len (u ++ w ++ "reg".toList),
          out ++ (regRange (w.getLast?.or u.getLast?) s).toList)) := by
      show innerStep _ _ _ = _
      rw [innerStep, strFrom_append, ok_bind, hfind]
      dsimp only
      rw [hrange, ok_bind, utf8Len_append, utf8Len_append]
      rfl
    have hlen : s.length < n := by
      have hreg : "reg".toList.length = 3 := rfl
      rw [← hn, List.length_append, List.length_append]
      omega
    have hshape : u ++ (w ++ ("reg".toList ++ s)) = u ++ w ++ "reg".toList ++ s := by simp
    have hlast : (u ++ w ++ "reg".toList).getLast? = some 'g' := by simp
    have hnext := ih s.length hlen (u ++ w ++ "reg".toList) s
      (out ++ (regRange (w.getLast?.or u.getLast?) s).toList) rfl
    rw [hlast, List.append_assoc out] at hnext
    rw [Scan.run_of_some hstep, hscan, hshape, hnext]

/-! ## The whole source -/

/-- The bytes of a character that is no brace do not count. -/
theorem braceEnd_skip {mid : List UInt8} (hmid : ∀ b ∈ mid, b ≠ byteOf '{' ∧ b ≠ byteOf '}')
    (pre post : List UInt8) (depth : ℤ) :
    braceEnd (pre ++ (mid ++ post)) pre.length depth =
      braceEnd (pre ++ mid ++ post) (pre ++ mid).length depth := by
  induction mid generalizing pre with
  | nil => simp
  | cons b mid ih =>
    obtain ⟨⟨hopen, hclose⟩, hmid⟩ := List.forall_mem_cons.mp hmid
    rw [braceEnd, if_pos (by simp), List.cons_append, index_append, ok_bind, if_neg hopen,
      if_neg hclose]
    have hnext := ih hmid (pre ++ [b])
    simp only [List.append_assoc, List.singleton_append, List.length_append, List.length_cons]
      at hnext ⊢
    exact hnext

theorem checkedI32_natCast {depth : ℕ} (h : depth < 2 ^ 31) :
    checkedI32 (depth : ℤ) = .ok (depth : ℤ) := by
  refine if_pos ⟨?_, ?_⟩ <;> omega

theorem braceEnd_open (u v : Text) (depth : ℕ) (hfit : depth + 1 < 2 ^ 31) :
    braceEnd (utf8 (u ++ '{' :: v)) (utf8Len u) depth =
      braceEnd (utf8 (u ++ ['{'] ++ v)) (utf8Len (u ++ ['{'])) ((depth + 1 : ℕ) : ℤ) := by
  have henc : utf8 (u ++ '{' :: v) = utf8 u ++ byteOf '{' :: utf8 v := utf8_append _ _
  have hshape : u ++ ['{'] ++ v = u ++ '{' :: v := by simp
  rw [hshape, henc, braceEnd, utf8Len, if_pos (by simp), index_append, ok_bind, if_pos rfl,
    ← Int.natCast_succ, checkedI32_natCast hfit, ok_bind, utf8Len_append]
  rfl

theorem braceEnd_close (u v : Text) {depth : ℕ} (hpos : 0 < depth) (hfit : depth < 2 ^ 31) :
    braceEnd (utf8 (u ++ '}' :: v)) (utf8Len u) depth =
      if depth - 1 = 0 then .ok (utf8Len (u ++ ['}']))
      else braceEnd (utf8 (u ++ ['}'] ++ v)) (utf8Len (u ++ ['}'])) ((depth - 1 : ℕ) : ℤ) := by
  have henc : utf8 (u ++ '}' :: v) = utf8 u ++ byteOf '}' :: utf8 v := utf8_append _ _
  have hshape : u ++ ['}'] ++ v = u ++ '}' :: v := by simp
  have hpred : (depth : ℤ) - 1 = ((depth - 1 : ℕ) : ℤ) := by omega
  rw [hshape, henc, braceEnd, utf8Len, if_pos (by simp), index_append, ok_bind, if_neg (by decide),
    if_pos rfl, hpred, checkedI32_natCast (by omega), ok_bind, utf8Len_append]
  refine if_congr ?_ rfl rfl
  omega

theorem braceEnd_other (u v : Text) {c : Char} (hopen : c ≠ '{') (hclose : c ≠ '}') (depth : ℤ) :
    braceEnd (utf8 (u ++ c :: v)) (utf8Len u) depth =
      braceEnd (utf8 (u ++ [c] ++ v)) (utf8Len (u ++ [c])) depth := by
  have hne {x : Char} (hx : x.toNat < 128) (hcx : c ≠ x) :
      ∀ b ∈ String.utf8EncodeChar c, b ≠ byteOf x := by
    intro b hb
    have hagree : (b == byteOf x) = (c == x) := agrees_byteOf hx c b hb
    rw [beq_false_of_ne hcx] at hagree
    exact ne_of_beq_false hagree
  have hmid : ∀ b ∈ String.utf8EncodeChar c, b ≠ byteOf '{' ∧ b ≠ byteOf '}' :=
    fun b hb => ⟨hne (by decide) hopen b hb, hne (by decide) hclose b hb⟩
  have hskip := braceEnd_skip hmid (utf8 u) (utf8 v) depth
  have hone : utf8 [c] = String.utf8EncodeChar c := List.append_nil _
  rw [utf8_append, utf8_cons, utf8Len, hskip, utf8_append, utf8Len, utf8_append, hone]

/-- **The count of braces**, from a boundary inside a node, ends behind the block that
the count on characters ends with. -/
theorem braceEnd_utf8 (u v : Text) {depth : ℕ} (hpos : 0 < depth)
    (hfit : depth + utf8Len v < 2 ^ 31) :
    braceEnd (utf8 (u ++ v)) (utf8Len u) depth =
      .ok (utf8Len u + utf8Len (braceBlock depth v).1) := by
  induction v generalizing u depth with
  | nil =>
    rw [List.append_nil, braceEnd, utf8Len, if_neg (Nat.lt_irrefl _)]
    rfl
  | cons c v ih =>
    have hsize := c.utf8Size_pos
    rw [utf8Len_cons] at hfit
    -- the rest of the block, from behind this character
    have further {d : ℕ} (hd : 0 < d) (hdfit : d + utf8Len v < 2 ^ 31) :
        braceEnd (utf8 (u ++ [c] ++ v)) (utf8Len (u ++ [c])) d =
          .ok (utf8Len u + utf8Len (c :: (braceBlock d v).1)) := by
      rw [ih (u ++ [c]) hd hdfit, utf8Len_append, utf8Len_cons, utf8Len_cons, utf8Len_nil]
      congr 1
      omega
    rw [braceBlock]
    split_ifs with hopen hclose hlast
    · subst hopen
      rw [braceEnd_open u v depth (by omega), further (by omega) (by omega)]
      rfl
    · subst hclose
      rw [braceEnd_close u v hpos (by omega), if_pos hlast, utf8Len_append]
    · subst hclose
      rw [braceEnd_close u v hpos (by omega), if_neg hlast, further (by omega) (by omega)]
      rfl
    · rw [braceEnd_other u v hopen hclose, further hpos (by omega)]
      rfl

/-- The count from the opening brace of a node on. -/
theorem braceEnd_node (u s : Text) (hfit : utf8Len ('{' :: s) < 2 ^ 31) :
    braceEnd (utf8 (u ++ '{' :: s)) (utf8Len u) 0 =
      .ok (utf8Len (u ++ (braceBlock 0 ('{' :: s)).1)) := by
  have hone : utf8Len ('{' :: s) = 1 + utf8Len s := utf8Len_cons _ _
  have hblock : (braceBlock 0 ('{' :: s)).1 = ['{'] ++ (braceBlock 1 s).1 := rfl
  have hopen := braceEnd_open u s 0 (by omega)
  rw [hblock, ← List.append_assoc, utf8Len_append, ← braceEnd_utf8 _ s Nat.one_pos (by omega)]
  exact hopen

theorem findWord_of_strFind_none {word s : Text} (h : strFind word s = none) :
    findWord word s = none := by
  induction s with
  | nil =>
    rw [strFind] at h
    rw [findWord]
    split_ifs at h ⊢
    rfl
  | cons c s ih =>
    rw [strFind] at h
    split_ifs at h with hhere
    rw [findWord, if_neg hhere, ih (Option.map_eq_none_iff.mp h)]

theorem findWord_of_strFind {word s : Text} {pos : ℕ} (h : strFind word s = some pos) :
    ∃ w t, s = w ++ t ∧ utf8Len w = pos ∧ findWord word s = some t := by
  induction s generalizing pos with
  | nil =>
    rw [strFind] at h
    split_ifs at h with hempty
    cases h
    exact ⟨[], [], rfl, rfl, if_pos hempty⟩
  | cons c s ih =>
    rw [strFind] at h
    split_ifs at h with hhere
    · cases h
      exact ⟨[], c :: s, rfl, rfl, if_pos hhere⟩
    · obtain ⟨pos', hpos, rfl⟩ := Option.map_eq_some_iff.mp h
      obtain ⟨w, t, rfl, rfl, hword⟩ := ih hpos
      refine ⟨c :: w, t, rfl, utf8Len_cons c w, ?_⟩
      rw [findWord, if_neg hhere, hword]

/-- The loop to the opening brace moves over characters. -/
theorem agrees_not_brace : Agrees (· != byteOf '{') (· != '{') := by
  intro c b hb
  have hagree : (b == byteOf '{') = (c == '{') := agrees_byteOf (by decide) c b hb
  show (!(b == byteOf '{')) = !(c == '{')
  rw [hagree]

/-- From the word to the brace behind it, or to the end of the source. -/
theorem skipWhile_brace (u w t : Text) :
    skipWhile (· != byteOf '{') (utf8 (u ++ (w ++ t))) (utf8Len u + utf8Len w) =
      .ok (utf8Len (u ++ w ++ t.takeWhile (· != '{'))) := by
  rw [← List.append_assoc, ← utf8Len_append, skipWhile_utf8 agrees_not_brace, ← utf8Len_append]

theorem outerStep_of_nextBlock_none {v : Text} (h : nextBlock v = none) (u : Text)
    (out : List Range) : outerStep (u ++ v) (utf8Len u) out = .ok none := by
  rw [outerStep, strFrom_append, ok_bind]
  cases hfind : strFind reservedMemory v with
  | none => rfl
  | some pos =>
    obtain ⟨w, t, rfl, rfl, hword⟩ := findWord_of_strFind hfind
    have hdrop : t.dropWhile (· != '{') = [] := by
      simp only [nextBlock, hword, Option.bind_eq_bind, Option.bind_some] at h
      split at h
      · assumption
      · cases h
    have htake : t.takeWhile (· != '{') = t := by
      have hsplit := List.takeWhile_append_dropWhile (p := (· != '{')) (l := t)
      rwa [hdrop, List.append_nil] at hsplit
    dsimp only
    rw [skipWhile_brace, ok_bind, htake, List.append_assoc, length_utf8, if_pos (Nat.le_refl _)]

/-- **One round of the outer loop**, from a boundary on, ends behind the next block. -/
theorem outerStep_of_nextBlock {v block rest : Text} (h : nextBlock v = some (block, rest))
    {u : Text} (hfit : utf8Len (u ++ v) < 2 ^ 31) (out : List Range) :
    ∃ u', u ++ v = u' ++ rest ∧
      outerStep (u ++ v) (utf8Len u) out =
        .ok (some (utf8Len u', out ++ scanRegs none block)) := by
  cases hfind : strFind reservedMemory v with
  | none =>
    rw [nextBlock, findWord_of_strFind_none hfind] at h
    cases h
  | some pos =>
    obtain ⟨w, t, rfl, rfl, hword⟩ := findWord_of_strFind hfind
    have hsplit := List.takeWhile_append_dropWhile (p := (· != '{')) (l := t)
    simp only [nextBlock, hword, Option.bind_eq_bind, Option.bind_some] at h
    cases hdrop : t.dropWhile (· != '{') with
    | nil =>
      rw [hdrop] at h
      cases h
    | cons c s =>
      have hc : c = '{' := by
        have hhead := List.head?_dropWhile_not (· != '{') t
        rw [hdrop] at hhead
        simpa using hhead
      subst hc
      rw [hdrop] at h hsplit
      have hblock : braceBlock 0 ('{' :: s) = (block, rest) := Option.some_inj.mp h
      have hbrace : block ++ rest = '{' :: s := by rw [← append_braceBlock 0 ('{' :: s), hblock]
      -- the source, cut at the opening brace and behind the block
      obtain ⟨x, hx⟩ : ∃ x, u ++ w ++ t.takeWhile (· != '{') = x := ⟨_, rfl⟩
      have hend := braceEnd_node x s
      have hstart := skipWhile_brace u w t
      rw [hblock, ← hbrace] at hend
      rw [← hbrace] at hsplit
      have hshape : u ++ (w ++ t) = x ++ (block ++ rest) := by
        rw [← hx, List.append_assoc, hsplit, List.append_assoc]
      have hpos : 0 < utf8Len (block ++ rest) := by
        rw [hbrace, utf8Len_cons]
        exact Nat.add_pos_left (Char.utf8Size_pos _) _
      rw [hshape, utf8Len_append] at hfit
      refine ⟨x ++ block, by rw [hshape, List.append_assoc], ?_⟩
      rw [outerStep, strFrom_append, ok_bind, hfind]
      dsimp only
      rw [hstart, ok_bind, hx, hshape, length_utf8, if_neg (by rw [utf8Len_append]; omega),
        hend (by omega), ok_bind, min_eq_left (by simp), utf8Len_append, strRange_append, ok_bind]
      have hregs := blockScan_run [] block out
      rw [List.nil_append, utf8Len_nil, List.getLast?_nil] at hregs
      rw [hregs]
      rfl

/-- **The outer loop**, from a boundary on, takes what the scanner takes from the text
that is left. -/
theorem sourceScan_run (u v : Text) (hfit : utf8Len (u ++ v) < 2 ^ 31) (out : List Range) :
    (sourceScan (u ++ v)).run (utf8Len u) out = .ok (out ++ parseReservedRanges v) := by
  induction hn : v.length using Nat.strong_induction_on generalizing u v out with
  | _ n ih =>
  cases hblock : nextBlock v with
  | none =>
    have hstep : (sourceScan (u ++ v)).step (utf8Len u) out = .ok none :=
      outerStep_of_nextBlock_none hblock u out
    rw [Scan.run_of_none hstep, parseReservedRanges_of_none hblock, List.append_nil]
  | some p =>
    obtain ⟨block, rest⟩ := p
    obtain ⟨u', hshape, hstep⟩ := outerStep_of_nextBlock hblock hfit out
    have hlen : rest.length < n := hn ▸ length_nextBlock hblock
    have hstep' : (sourceScan (u ++ v)).step (utf8Len u) out =
        .ok (some (utf8Len u', out ++ scanRegs none block)) := hstep
    rw [Scan.run_of_some hstep', parseReservedRanges_of_some hblock, ← List.append_assoc]
    rw [hshape] at hfit ⊢
    exact ih rest.length hlen u' rest hfit _ rfl

/-- **The scanner is total.**  On every text that is shorter than `2 ^ 31` bytes it ends
without a panic, with the ranges that the scanner on texts takes; and whatever the text
is, a round of either loop that goes on moves the loop's position forward, inside the
text. -/
theorem parseReservedRangesChecked_total (dt : Text) (hfit : utf8Len dt < 2 ^ 31) :
    parseReservedRangesChecked dt = .ok (parseReservedRanges dt) ∧
      (∀ i out i' out', outerStep dt i out = .ok (some (i', out')) → i < i' ∧ i' ≤ utf8Len dt) ∧
      (∀ block k out k' out', innerStep block k out = .ok (some (k', out')) →
        k < k' ∧ k' ≤ utf8Len block) := by
  refine ⟨?_, fun i out i' out' h => outerStep_lt h, fun block k out k' out' h => innerStep_lt h⟩
  exact sourceScan_run [] dt hfit []

/-- A source that ends inside a property, with braces left open and characters of
several bytes. -/
def brokenSource : Text := "é/ \x7b reserved-memory¢ \x7b \x7b €reg = <0x10 2ß0> reg=<1 2> reg = <".toList

theorem brokenSource_scanned :
    utf8Len brokenSource < 2 ^ 31 ∧ parseReservedRangesChecked brokenSource = .ok [⟨1, 2⟩] := by
  have hfit : utf8Len brokenSource < 2 ^ 31 := by decide
  have hnext : nextBlock brokenSource =
      some ("\x7b \x7b €reg = <0x10 2ß0> reg=<1 2> reg = <".toList, []) := by decide
  refine ⟨hfit, (parseReservedRangesChecked_total brokenSource hfit).1.trans ?_⟩
  rw [parseReservedRanges_of_some hnext, parseReservedRanges_of_none rfl]
  decide

end ConfigLint
end WardenSdk
