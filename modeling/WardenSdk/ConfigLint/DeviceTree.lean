import WardenSdk.ConfigLint.Gate

/-!
# The devicetree scanner

`parse_reserved_ranges` takes the `reg` ranges off a devicetree source without
parsing it: it looks for the word `reserved-memory`, goes to the next opening
brace, counts braces until they balance, and looks for `reg` tokens in the stretch
in between.  It works on the raw characters and knows neither comments nor strings.

The positions of the source are kept here as the text that is left from them on.
All the characters it looks for are ASCII, so that its byte positions fall between
characters, and `is_ident_byte` of the byte before a token depends on the character
before it only.  `block` below is the text between the braces, both included.
-/

namespace WardenSdk
namespace ConfigLint

open Lib

def isIdentByte (c : Char) : Bool := c.isAlphanum || c == '_' || c == '-'

def reservedMemory : Text := "reserved-memory".toList

/-- The text from the first occurrence of `word` on. -/
def findWord (word : Text) : Text → Option Text
  | [] => if word.isEmpty then some [] else none
  | c :: s => if word.isPrefixOf (c :: s) then some (c :: s) else findWord word s

/-- The text up to where the braces balance, and the text after it. -/
def braceBlock : ℕ → Text → Text × Text
  | _, [] => ([], [])
  | depth, c :: s =>
    if c = '{' then ((braceBlock (depth + 1) s).map (c :: ·) id)
    else if c = '}' then
      if depth - 1 = 0 then ([c], s) else (braceBlock (depth - 1) s).map (c :: ·) id
    else (braceBlock depth s).map (c :: ·) id

/-- The white space that may stand between `reg` and its equals sign. -/
def isRegSpace (c : Char) : Bool := c == ' ' || c == '\t' || c == '\r' || c == '\n'

/-- The two numbers between the next pair of angle brackets. -/
def readPair (s : Text) : Option Range := do
  let (_, s) ← splitOnce '<' s
  let (inner, _) ← splitOnce '>' s
  match splitWhitespace inner with
  | addr :: size :: _ => return ⟨← parseAddr addr, ← parseAddr size⟩
  | _ => none

/-- The range of a `reg` token, from the character before it and the text after
it. -/
def regRange (before : Option Char) (after : Text) : Option Range :=
  if before.all (!isIdentByte ·) then
    match after.dropWhile isRegSpace with
    | '=' :: s => readPair ('=' :: s)
    | _ => none
  else none

/-- The ranges of the `reg` tokens of a block. -/
def scanRegs (before : Option Char) : Text → List Range
  | [] => []
  | 'r' :: 'e' :: 'g' :: s => (regRange before s).toList ++ scanRegs (some 'g') s
  | c :: s => scanRegs (some c) s

/-- The next stretch that is taken for a `reserved-memory` node, and the text after
it. -/
def nextBlock (dt : Text) : Option (Text × Text) := do
  match (← findWord reservedMemory dt).dropWhile (· != '{') with
  | [] => none
  | s => some (braceBlock 0 s)

theorem findWord_eq_some {word s t : Text} (hne : word ≠ []) (h : findWord word s = some t) :
    ∃ u, s = u ++ t ∧ word <+: t ∧ ¬ word <:+: u := by
  induction s with
  | nil =>
    unfold findWord at h
    split_ifs at h with hempty
    exact absurd (List.isEmpty_iff.mp hempty) hne
  | cons c s ih =>
    unfold findWord at h
    split_ifs at h with hhere
    · cases h
      refine ⟨[], rfl, List.isPrefixOf_iff_prefix.mp hhere, fun hinf => ?_⟩
      exact hne (List.infix_nil.mp hinf)
    · obtain ⟨u, rfl, ht, hu⟩ := ih h
      refine ⟨c :: u, rfl, ht, fun hinf => ?_⟩
      rcases List.infix_cons_iff.mp hinf with hpre | hin
      · refine hhere (List.isPrefixOf_iff_prefix.mpr (hpre.trans ?_))
        exact List.prefix_append (c :: u) t
      · exact hu hin

theorem append_braceBlock (depth : ℕ) (s : Text) :
    (braceBlock depth s).1 ++ (braceBlock depth s).2 = s := by
  induction s generalizing depth with
  | nil => rfl
  | cons c s ih =>
    unfold braceBlock
    split_ifs <;> simp [ih]

theorem braceBlock_cons_ne_nil (depth : ℕ) (c : Char) (s : Text) :
    (braceBlock depth (c :: s)).1 ≠ [] := by
  unfold braceBlock
  split_ifs <;> simp

/-- Where the next block stands: after the first occurrence of the word, from the
first brace on. -/
theorem nextBlock_eq_some {dt block rest : Text} (h : nextBlock dt = some (block, rest)) :
    ∃ u v s, dt = u ++ reservedMemory ++ v ++ '{' :: s ∧ ¬ reservedMemory <:+: u ∧ '{' ∉ v ∧
      braceBlock 0 ('{' :: s) = (block, rest) := by
  unfold nextBlock at h
  cases hword : findWord reservedMemory dt with
  | none => rw [hword] at h; cases h
  | some t =>
    obtain ⟨u, rfl, ⟨after, rfl⟩, hu⟩ := findWord_eq_some (by decide) hword
    rw [hword] at h
    have hall : reservedMemory.all (· != '{') = true := by decide
    have hdrop : (reservedMemory ++ after).dropWhile (· != '{') = after.dropWhile (· != '{') := by
      rw [List.dropWhile_append_of_pos (List.all_eq_true.mp hall)]
    simp only [bind, Option.bind, hdrop] at h
    have hsplit := List.takeWhile_append_dropWhile (p := (· != '{')) (l := after)
    cases hbrace : after.dropWhile (· != '{') with
    | nil => rw [hbrace] at h; cases h
    | cons c s =>
      have hc : c = '{' := by
        have hhead := List.head?_dropWhile_not (· != '{') after
        rw [hbrace] at hhead
        simpa using hhead
      subst hc
      rw [hbrace] at h hsplit
      refine ⟨u, after.takeWhile (· != '{'), s, ?_, hu, ?_, Option.some_inj.mp h⟩
      · rw [List.append_assoc, List.append_assoc, hsplit]
      · intro hmem
        have := List.mem_takeWhile_imp hmem
        simp at this

theorem length_nextBlock {dt block rest : Text} (h : nextBlock dt = some (block, rest)) :
    rest.length < dt.length := by
  obtain ⟨u, v, s, rfl, -, -, hblock⟩ := nextBlock_eq_some h
  have happend := congrArg List.length (append_braceBlock 0 ('{' :: s))
  have hne := List.length_pos_of_ne_nil (braceBlock_cons_ne_nil 0 '{' s)
  rw [hblock] at happend hne
  simp only [List.length_append, List.length_cons] at happend hne ⊢
  omega

def parseReservedRanges (dt : Text) : List Range :=
  match _h : nextBlock dt with
  | none => []
  | some (block, rest) => scanRegs none block ++ parseReservedRanges rest
termination_by dt.length
decreasing_by exact length_nextBlock _h

theorem parseReservedRanges_of_none {dt : Text} (h : nextBlock dt = none) :
    parseReservedRanges dt = [] := by
  rw [parseReservedRanges]
  split
  · rfl
  · rename_i h'
    rw [h] at h'
    cases h'

theorem parseReservedRanges_of_some {dt block rest : Text} (h : nextBlock dt = some (block, rest)) :
    parseReservedRanges dt = scanRegs none block ++ parseReservedRanges rest := by
  rw [parseReservedRanges]
  split
  · rename_i h'
    rw [h] at h'
    cases h'
  · rename_i h'
    rw [h] at h'
    cases h'
    rfl

/-- A character where no token stands. -/
theorem scanRegs_cons_of_not_reg {c : Char} {s : Text} (h : ¬ "reg".toList <+: c :: s)
    (before : Option Char) : scanRegs before (c :: s) = scanRegs (some c) s := by
  rw [scanRegs]
  rintro t rfl rfl
  exact h ⟨t, rfl⟩

/-- Every range comes from a `reg` token of the block, seen with the character
before it. -/
theorem mem_scanRegs {before : Option Char} {block : Text} {r : Range}
    (h : r ∈ scanRegs before block) :
    ∃ b₁ b₂, block = b₁ ++ "reg".toList ++ b₂ ∧ regRange (b₁.getLast?.or before) b₂ = some r := by
  fun_induction scanRegs before block with
  | case1 => cases h
  | case2 before s ih =>
    rcases List.mem_append.mp h with hhere | hlater
    · exact ⟨[], s, rfl, Option.mem_toList.mp hhere⟩
    · obtain ⟨b₁, b₂, rfl, hr⟩ := ih hlater
      refine ⟨"reg".toList ++ b₁, b₂, by simp, ?_⟩
      rw [List.getLast?_append]
      cases hlast : b₁.getLast? <;> simpa [hlast] using hr
  | case3 before c s _ ih =>
    obtain ⟨b₁, b₂, rfl, hr⟩ := ih h
    refine ⟨c :: b₁, b₂, rfl, ?_⟩
    rw [List.getLast?_cons]
    cases hlast : b₁.getLast? <;> simpa [hlast] using hr

theorem readPair_eq_some_iff {s : Text} {r : Range} :
    readPair s = some r ↔ ∃ u inner v addr size more,
      s = u ++ '<' :: (inner ++ '>' :: v) ∧ '<' ∉ u ∧ '>' ∉ inner ∧
      splitWhitespace inner = addr :: size :: more ∧ parseAddr addr = some r.start ∧
      parseAddr size = some r.size := by
  constructor
  · intro h
    simp only [readPair, Option.bind_eq_bind, Option.bind_eq_some_iff, Prod.exists] at h
    obtain ⟨u, t, hu, inner, v, hinner, h⟩ := h
    split at h
    · rename_i addr size more hwords
      simp only [Option.bind_eq_some_iff, Option.pure_def, Option.some_inj] at h
      obtain ⟨a, ha, b, hb, rfl⟩ := h
      obtain ⟨rfl, hlt⟩ := splitOnce_eq_some_iff.mp hu
      obtain ⟨rfl, hgt⟩ := splitOnce_eq_some_iff.mp hinner
      exact ⟨u, inner, v, addr, size, more, rfl, hlt, hgt, hwords, ha, hb⟩
    · cases h
  · rintro ⟨u, inner, v, addr, size, more, rfl, hu, hinner, hwords, ha, hb⟩
    simp only [readPair, splitOnce_eq_some_iff.mpr ⟨rfl, hu⟩, splitOnce_eq_some_iff.mpr ⟨rfl, hinner⟩,
      Option.bind_eq_bind, Option.bind_some, hwords, ha, hb, Option.pure_def]

/-- The search for the bracket may start behind the equals sign. -/
theorem readPair_cons_equals {s : Text} {r : Range} :
    readPair ('=' :: s) = some r ↔ readPair s = some r := by
  rw [readPair_eq_some_iff, readPair_eq_some_iff]
  constructor
  · rintro ⟨u, inner, v, addr, size, more, heq, hlt, hrest⟩
    cases u with
    | nil => cases heq
    | cons c u =>
      obtain ⟨-, rfl⟩ := List.cons.inj heq
      exact ⟨u, inner, v, addr, size, more, rfl, fun h => hlt (List.mem_cons_of_mem _ h), hrest⟩
  · rintro ⟨u, inner, v, addr, size, more, rfl, hlt, hrest⟩
    refine ⟨'=' :: u, inner, v, addr, size, more, rfl, fun h => ?_, hrest⟩
    rcases List.mem_cons.mp h with h | h
    · cases h
    · exact hlt h

/-- **What makes a `reg` token give a range.** -/
theorem regRange_eq_some_iff {before : Option Char} {after : Text} {r : Range} :
    regRange before after = some r ↔ before.all (!isIdentByte ·) = true ∧
      ∃ sp s, after = sp ++ '=' :: s ∧ (∀ c ∈ sp, isRegSpace c = true) ∧
        readPair s = some r := by
  unfold regRange
  split_ifs with hbefore
  swap
  · constructor
    · intro h
      cases h
    · rintro ⟨hbefore', -⟩
      exact absurd hbefore' hbefore
  constructor
  · intro h
    split at h
    · rename_i s hdrop
      refine ⟨hbefore, after.takeWhile isRegSpace, s, ?_, fun c => List.mem_takeWhile_imp, ?_⟩
      · rw [← hdrop, List.takeWhile_append_dropWhile]
      · exact readPair_cons_equals.mp h
    · cases h
  · rintro ⟨-, sp, s, rfl, hsp, hread⟩
    rw [List.dropWhile_append_of_pos hsp, List.dropWhile_cons_of_neg (by decide)]
    exact readPair_cons_equals.mpr hread

/-- What a `reg` token reads does not change with the text behind it. -/
theorem regRange_append {before : Option Char} {s : Text} {r : Range}
    (h : regRange before s = some r) (t : Text) : regRange before (s ++ t) = some r := by
  rw [regRange_eq_some_iff] at h ⊢
  obtain ⟨hbefore, sp, s', rfl, hsp, hread⟩ := h
  refine ⟨hbefore, sp, s' ++ t, by simp, hsp, ?_⟩
  rw [readPair_eq_some_iff] at hread ⊢
  obtain ⟨u, inner, v, addr, size, more, rfl, hrest⟩ := hread
  exact ⟨u, inner, v ++ t, addr, size, more, by simp, hrest⟩

end ConfigLint
end WardenSdk
