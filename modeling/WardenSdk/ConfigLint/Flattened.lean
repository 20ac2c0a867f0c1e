import WardenSdk.ConfigLint.Dts

/-!
# The flattened layout

A devicetree source as `dtc` prints it, given as a tree whose leaves are its tokens
and the white space around them.  Each leaf carries what makes it one: a name has
name characters, a string has no brace and no `reg` token, cells hold numbers.  A
node with one address and one size cell has its range in `reg = <addr size>`.

Printing a tree and scanning the text gives the ranges of its `reg` properties back,
in their order and at any depth, whatever the other properties and the nodes are
called.  The scanner skips only spaces, tabs and line ends between `reg` and the
equals sign, so that a range is lost exactly when other white space stands there
(`parseReservedRanges_text_iff`).

The proof goes through the text once.  A stretch where no token gives a range is
passed over (`scanRegs_stretch`); braces are counted over a whole body at once
(`braceBlock_body`).
-/

namespace WardenSdk
namespace ConfigLint

open Lib

/-! ## Tokens -/

/-- White space between two tokens. -/
structure Blank where
  text : Text
  spaces : ∀ c ∈ text, isWhitespace c = true

structure NodeName where
  text : Text
  nameChars : ∀ c ∈ text, isNameChar c = true

/-- The name of a property other than `reg`.  Before a final `reg` it has none of the
characters that a name may have and `is_ident_byte` does not know. -/
structure PropertyName where
  text : Text
  nameChars : ∀ c ∈ text, isNameChar c = true
  ne_reg : text ≠ "reg".toList
  ends : ∀ u c, text = u ++ c :: "reg".toList → c ∉ ",.+*#?@".toList

theorem isIdentByte_of_isNameChar {c : Char} (h : isNameChar c = true)
    (hc : c ∉ ",.+*#?@".toList) : isIdentByte c = true := by
  by_contra hident
  refine hc ?_
  simp only [isIdentByte, Bool.or_eq_true, beq_iff_eq, not_or] at hident
  obtain ⟨⟨halnum, hunderscore⟩, hhyphen⟩ := hident
  simpa [isNameChar, halnum, hunderscore, hhyphen] using h

/-- A `reg` at the end of a longer name is passed over. -/
theorem PropertyName.isIdentByte_ends (name : PropertyName) {u : Text} {c : Char}
    (h : name.text = u ++ c :: "reg".toList) : isIdentByte c = true :=
  isIdentByte_of_isNameChar (name.nameChars c (by rw [h]; simp)) (name.ends u c h)

/-- The text has `reg` as a token of its own with an equals sign after it. -/
def HasRegToken (s : Text) : Prop :=
  ∃ u sp t, s = u ++ "reg".toList ++ (sp ++ '=' :: t) ∧ u.getLast?.all (!isIdentByte ·) = true ∧
    ∀ c ∈ sp, isRegSpace c = true

/-- What stands between the quotes of a string, escapes included. -/
structure StringText where
  text : Text
  no_brace : '{' ∉ text ∧ '}' ∉ text
  no_token : ¬ HasRegToken text

def isCellChar (c : Char) : Bool :=
  isWhitespace c || (digit 16 c).isSome || c == 'x' || c == 'X'

/-- Numbers, with white space between them. -/
structure CellText where
  text : Text
  cellChars : ∀ c ∈ text, isCellChar c = true

inductive Part where
  | string (s : StringText)
  | cells (s : CellText)
  | bytes (s : CellText)

def Part.text : Part → Text
  | .string s => '"' :: (s.text ++ ['"'])
  | .cells s => '<' :: (s.text ++ ['>'])
  | .bytes s => '[' :: (s.text ++ [']'])

/-- The parts of a value, with commas between them. -/
inductive Value where
  | last (b₁ : Blank) (part : Part) (b₂ : Blank)
  | more (b₁ : Blank) (part : Part) (b₂ : Blank) (rest : Value)

def Value.text : Value → Text
  | .last b₁ part b₂ => b₁.text ++ (part.text ++ b₂.text)
  | .more b₁ part b₂ rest => b₁.text ++ (part.text ++ (b₂.text ++ ',' :: rest.text))

structure Property where
  name : PropertyName
  afterName : Blank
  value : Option Value

def Property.text (p : Property) : Text :=
  p.name.text ++ (p.afterName.text ++ (p.value.elim [] ('=' :: ·.text) ++ [';']))

/-- `reg = <addr size>;` with the white space between its tokens. -/
structure RegProperty where
  beforeEquals : Blank
  afterEquals : Blank
  beforeAddr : Blank
  addr : Numeral 64
  between : Blank
  between_ne_nil : between.text ≠ []
  size : Numeral 64
  afterSize : Blank
  afterBracket : Blank

def RegProperty.inner (r : RegProperty) : Text :=
  r.beforeAddr.text ++ (r.addr.text ++ (r.between.text ++ (r.size.text ++ r.afterSize.text)))

/-- The text from the equals sign on, without it. -/
def RegProperty.value (r : RegProperty) : Text :=
  r.afterEquals.text ++ '<' :: (r.inner ++ '>' :: (r.afterBracket.text ++ [';']))

def RegProperty.text (r : RegProperty) : Text :=
  "reg".toList ++ (r.beforeEquals.text ++ '=' :: r.value)

def RegProperty.range (r : RegProperty) : Range where
  start := .ofNatLT r.addr.value r.addr.value_lt
  size := .ofNatLT r.size.value r.size.value_lt

/-! ## Nodes -/

/-- What stands between the braces of a node. -/
inductive Body where
  | done (b : Blank)
  | property (b : Blank) (p : Property) (rest : Body)
  | reg (b : Blank) (r : RegProperty) (rest : Body)
  | node (b : Blank) (name : NodeName) (b₁ : Blank) (inner : Body) (b₂ : Blank) (rest : Body)

def Body.text : Body → Text
  | .done b => b.text
  | .property b p rest => b.text ++ (p.text ++ rest.text)
  | .reg b r rest => b.text ++ (r.text ++ rest.text)
  | .node b name b₁ inner b₂ rest =>
    b.text ++ (name.text ++ (b₁.text ++ '{' :: (inner.text ++ '}' :: (b₂.text ++ ';' :: rest.text))))

/-- The `reg` properties at any depth, in textual order. -/
def Body.regs : Body → List RegProperty
  | .done _ => []
  | .property _ _ rest => rest.regs
  | .reg _ r rest => r :: rest.regs
  | .node _ _ _ inner _ rest => inner.regs ++ rest.regs

/-- A source with one `reserved-memory` node; the word stands nowhere else outside
that node. -/
structure Source where
  before : Text
  no_word_before : ¬ reservedMemory <:+: before
  gap : Blank
  body : Body
  after : Text
  no_word_after : ¬ reservedMemory <:+: after

def Source.text (src : Source) : Text :=
  src.before ++ (reservedMemory ++ (src.gap.text ++ '{' :: (src.body.text ++ '}' :: src.after)))

/-- The `(addr, size)` pairs of the node and its descendants. -/
def Source.pairs (src : Source) : List Range := src.body.regs.map RegProperty.range

/-! ## Passing over text -/

/-- The range of a token that stands at the front. -/
def tokenAt (before : Option Char) (s : Text) : Option Range :=
  if "reg".toList <+: s then regRange before (s.drop 3) else none

/-- The scanner, one character at a time. -/
theorem scanRegs_cons (before : Option Char) (c : Char) (s : Text) :
    scanRegs before (c :: s) = (tokenAt before (c :: s)).toList ++ scanRegs (some c) s := by
  by_cases h : "reg".toList <+: c :: s
  · obtain ⟨t, ht⟩ := h
    obtain ⟨rfl, rfl⟩ := List.cons.inj ht
    rfl
  · rw [scanRegs_cons_of_not_reg h, tokenAt, if_neg h]
    rfl

/-- **A stretch that gives no range.**  Each `reg` in it gives none, and none begins in
it and ends behind it. -/
theorem scanRegs_stretch {before : Option Char} {t rest : Text}
    (hrest : ∀ c ∈ rest.head?, c ≠ 'e' ∧ c ≠ 'g')
    (h : ∀ u v, t = u ++ "reg".toList ++ v → regRange (u.getLast?.or before) (v ++ rest) = none) :
    scanRegs before (t ++ rest) = scanRegs (t.getLast?.or before) rest := by
  induction t generalizing before with
  | nil => rfl
  | cons c t ih =>
    have htoken : tokenAt before (c :: t ++ rest) = none := by
      refine ite_eq_right_iff.mpr fun hreg => ?_
      -- the three letters all stand in the stretch
      have hall : "reg".toList <+: c :: t := by
        obtain ⟨s, hs⟩ := hreg
        rcases t with _ | ⟨d, _ | ⟨e, t⟩⟩
        · obtain ⟨-, rfl⟩ := List.cons.inj hs
          exact absurd rfl (hrest 'e' rfl).1
        · obtain ⟨-, hs⟩ := List.cons.inj hs
          obtain ⟨-, rfl⟩ := List.cons.inj hs
          exact absurd rfl (hrest 'g' rfl).2
        · refine List.prefix_of_prefix_length_le ⟨s, hs⟩ (List.prefix_append _ rest) ?_
          exact Nat.le_add_left 3 t.length
      obtain ⟨v, hv⟩ := hall
      have hnone := h [] v hv.symm
      rw [← hv]
      exact hnone
    rw [List.cons_append, scanRegs_cons, ← List.cons_append, htoken, Option.toList_none,
      List.nil_append, ih]
    · rw [List.getLast?_cons]
      cases t.getLast? <;> rfl
    · intro u v huv
      have hlater := h (c :: u) v (by rw [huv]; rfl)
      rw [List.getLast?_cons] at hlater
      cases hlast : u.getLast? <;> rw [hlast] at hlater <;> exact hlater

/-- A character that does not begin a token. -/
theorem scanRegs_cons_of_ne {c : Char} (hc : c ≠ 'r') (before : Option Char) (s : Text) :
    scanRegs before (c :: s) = scanRegs (some c) s := by
  refine scanRegs_cons_of_not_reg ?_ before
  rintro ⟨t, ht⟩
  exact hc (List.cons.inj ht).1.symm

/-- Text without an `r`. -/
theorem scanRegs_of_not_mem {t : Text} (ht : 'r' ∉ t) (before : Option Char) (rest : Text) :
    scanRegs before (t ++ rest) = scanRegs (t.getLast?.or before) rest := by
  induction t generalizing before with
  | nil => rfl
  | cons c t ih =>
    obtain ⟨hc, ht⟩ := not_or.mp (mt List.mem_cons.mpr ht)
    rw [List.cons_append, scanRegs_cons_of_ne (Ne.symm hc), ih ht, List.getLast?_cons]
    cases t.getLast? <;> rfl

/-- No token of the text gives a range, whatever stands around it. -/
def Passes (t : Text) : Prop :=
  ∀ before rest, ∃ before', scanRegs before (t ++ rest) = scanRegs before' rest

theorem passes_of_not_mem {t : Text} (ht : 'r' ∉ t) : Passes t :=
  fun before rest => ⟨_, scanRegs_of_not_mem ht before rest⟩

theorem Passes.append {t t' : Text} (h : Passes t) (h' : Passes t') : Passes (t ++ t') := by
  intro before rest
  obtain ⟨before₁, h₁⟩ := h before (t' ++ rest)
  obtain ⟨before₂, h₂⟩ := h' before₁ rest
  exact ⟨before₂, by rw [List.append_assoc, h₁, h₂]⟩

theorem Passes.cons {t : Text} (h : Passes t) {c : Char} (hc : c ≠ 'r') : Passes (c :: t) :=
  (passes_of_not_mem (t := [c]) (by simpa using hc.symm)).append h

theorem regRange_of_ident {c : Char} (hc : isIdentByte c = true) (after : Text) :
    regRange (some c) after = none := by
  refine if_neg ?_
  rw [Option.all_some, hc]
  decide

/-- A token whose equals sign would have to stand before the next mark. -/
theorem regRange_stops {before : Option Char} {b s : Text} {x : Char} (hspace : isRegSpace x = false)
    (hne : x ≠ '=') (h : before.all (!isIdentByte ·) = true →
      ∀ sp t, b = sp ++ '=' :: t → ¬ ∀ c ∈ sp, isRegSpace c = true) :
    regRange before (b ++ x :: s) = none := by
  rw [Option.eq_none_iff_forall_ne_some]
  intro r hr
  obtain ⟨hbefore, sp, t, heq, hsp, -⟩ := regRange_eq_some_iff.mp hr
  rcases List.append_eq_append_iff.mp heq with ⟨a, rfl, ha⟩ | ⟨a, rfl, ha⟩
  · -- the mark is at the equals sign or before it
    cases a with
    | nil => exact hne (List.cons.inj ha).1
    | cons d a =>
      obtain ⟨rfl, -⟩ := List.cons.inj ha
      have hx := hsp x (by simp)
      rw [hspace] at hx
      cases hx
  · cases a with
    | nil => exact hne (List.cons.inj ha).1.symm
    | cons d a =>
      obtain ⟨rfl, -⟩ := List.cons.inj ha
      exact h hbefore sp a rfl hsp

/-! ## Names, values and properties -/

theorem Blank.not_mem (b : Blank) {c : Char} (hc : isWhitespace c = false) : c ∉ b.text := by
  intro hmem
  rw [b.spaces c hmem] at hc
  cases hc

theorem Blank.passes (b : Blank) : Passes b.text :=
  passes_of_not_mem (b.not_mem rfl)

/-- What follows a name does not go on with it. -/
theorem head_append_blank (b : Blank) {c : Char} (hc : isNameChar c = false) (s : Text) :
    ∀ d ∈ (b.text ++ c :: s).head?, d ≠ 'e' ∧ d ≠ 'g' := by
  intro d hd
  cases htext : b.text with
  | nil =>
    rw [htext] at hd
    obtain rfl : c = d := Option.some_inj.mp hd
    constructor <;> rintro rfl <;> exact absurd hc (by decide)
  | cons x t =>
    rw [htext] at hd
    obtain rfl : x = d := Option.some_inj.mp hd
    have hspace := b.spaces x (by rw [htext]; exact List.mem_cons_self)
    constructor <;> rintro rfl <;> exact absurd hspace (by decide)

/-- A name character is neither white space nor an equals sign. -/
theorem not_equals_of_isNameChar {c : Char} (hc : isNameChar c = true) :
    isRegSpace c = false ∧ c ≠ '=' := by
  refine ⟨?_, by rintro rfl; exact absurd hc (by decide)⟩
  rw [← Bool.not_eq_true]
  intro hspace
  simp only [isRegSpace, Bool.or_eq_true, beq_iff_eq] at hspace
  rcases hspace with ((rfl | rfl) | rfl) | rfl <;> exact absurd hc (by decide)

/-- A `reg` inside a name that goes on is no token. -/
theorem regRange_inside_name {before : Option Char} {d : Char} (hd : isNameChar d = true)
    (s : Text) : regRange before (d :: s) = none := by
  obtain ⟨hspace, hne⟩ := not_equals_of_isNameChar hd
  refine regRange_stops (b := []) hspace hne fun _ sp t hnil => ?_
  exact absurd hnil (by simp)

theorem scanRegs_nodeName (name : NodeName) (b : Blank) (before : Option Char) (s : Text) :
    scanRegs before (name.text ++ (b.text ++ '{' :: s)) = scanRegs (some '{') s := by
  have hstretch : scanRegs before (name.text ++ (b.text ++ '{' :: s)) =
      scanRegs (name.text.getLast?.or before) (b.text ++ '{' :: s) := by
    refine scanRegs_stretch (head_append_blank b rfl s) fun u v huv => ?_
    cases v with
    | nil =>
      refine regRange_stops rfl (by decide) fun _ sp t hb => ?_
      exact absurd (by rw [hb]; simp) (b.not_mem (c := '=') rfl)
    | cons d v =>
      exact regRange_inside_name (name.nameChars d (by rw [huv]; simp)) _
  obtain ⟨before', hblank⟩ := b.passes (name.text.getLast?.or before) ('{' :: s)
  rw [hstretch, hblank, scanRegs_cons_of_ne (by decide)]

theorem scanRegs_propertyName (name : PropertyName) (b : Blank) {c : Char}
    (hc : isNameChar c = false) (before : Option Char) (s : Text) :
    scanRegs before (name.text ++ (b.text ++ c :: s)) =
      scanRegs (name.text.getLast?.or before) (b.text ++ c :: s) := by
  refine scanRegs_stretch (head_append_blank b hc s) fun u v huv => ?_
  cases v with
  | nil =>
    rw [List.append_nil] at huv
    rcases List.eq_nil_or_concat u with rfl | ⟨u, d, rfl⟩
    · exact absurd huv name.ne_reg
    · rw [List.concat_eq_append, List.getLast?_concat]
      refine regRange_of_ident (name.isIdentByte_ends (u := u) (c := d) ?_) _
      rw [huv, List.concat_eq_append, List.append_assoc]
      rfl
  | cons d v =>
    exact regRange_inside_name (name.nameChars d (by rw [huv]; simp)) _

theorem StringText.passes (t : StringText) : Passes ('"' :: (t.text ++ ['"'])) := by
  intro before rest
  refine ⟨some '"', ?_⟩
  have hstretch : scanRegs (some '"') (t.text ++ '"' :: rest) =
      scanRegs (t.text.getLast?.or (some '"')) ('"' :: rest) := by
    refine scanRegs_stretch (by simp) fun u v huv => ?_
    refine regRange_stops rfl (by decide) fun hbefore sp v' hv hsp => ?_
    refine t.no_token ⟨u, sp, v', by rw [huv, hv], ?_, hsp⟩
    cases hlast : u.getLast? with
    | none => rfl
    | some d => rw [hlast] at hbefore; exact hbefore
  rw [List.cons_append, scanRegs_cons_of_ne (by decide), List.append_assoc, List.singleton_append,
    hstretch, scanRegs_cons_of_ne (by decide)]

theorem CellText.not_mem (t : CellText) {c : Char} (hc : isCellChar c = false) : c ∉ t.text := by
  intro hmem
  rw [t.cellChars c hmem] at hc
  cases hc

theorem Part.passes (part : Part) : Passes part.text := by
  cases part with
  | string t => exact t.passes
  | cells t =>
    have ht : 'r' ∉ t.text := t.not_mem rfl
    exact passes_of_not_mem (by simp [Part.text, ht])
  | bytes t =>
    have ht : 'r' ∉ t.text := t.not_mem rfl
    exact passes_of_not_mem (by simp [Part.text, ht])

theorem Value.passes (value : Value) : Passes value.text := by
  induction value with
  | last b₁ part b₂ => exact b₁.passes.append (part.passes.append b₂.passes)
  | more b₁ part b₂ rest ih =>
    exact b₁.passes.append (part.passes.append (b₂.passes.append (ih.cons (by decide))))

theorem scanRegs_property (p : Property) (before : Option Char) (rest : Text) :
    scanRegs before (p.text ++ rest) = scanRegs (some ';') rest := by
  -- the name, then the value, then the semicolon
  have hname : scanRegs before (p.text ++ rest) =
      scanRegs (p.name.text.getLast?.or before)
        (p.afterName.text ++ (p.value.elim [] ('=' :: ·.text) ++ ';' :: rest)) := by
    simp only [Property.text, List.append_assoc, List.singleton_append]
    cases p.value with
    | none => exact scanRegs_propertyName p.name p.afterName rfl before rest
    | some v => exact scanRegs_propertyName p.name p.afterName rfl before (v.text ++ ';' :: rest)
  have hvalue : Passes (p.value.elim [] ('=' :: ·.text)) := by
    cases p.value with
    | none => exact passes_of_not_mem List.not_mem_nil
    | some v => exact v.passes.cons (by decide)
  obtain ⟨before', hpasses⟩ := (p.afterName.passes.append hvalue)
    (p.name.text.getLast?.or before) (';' :: rest)
  rw [hname, ← List.append_assoc, hpasses, scanRegs_cons_of_ne (by decide)]

/-! ## The `reg` property -/

theorem Numeral.not_mem_text {bits : ℕ} (n : Numeral bits) {c : Char} (hc : c ≠ '0' ∧ c ≠ 'x' ∧ c ≠ 'X')
    (hdec : digit 10 c = none) (hhex : digit 16 c = none) : c ∉ n.text := by
  intro hmem
  rcases List.mem_append.mp hmem with hmark | hdigit
  · cases hspelling : n.spelling <;> rw [hspelling] at hmark <;> simp [Spelling.mark, hc] at hmark
  · have hsome := n.isSome_digit c hdigit
    cases hspelling : n.spelling <;> rw [hspelling] at hsome <;>
      simp [Spelling.radix, hdec, hhex] at hsome

theorem RegProperty.not_mem_inner (r : RegProperty) {c : Char}
    (h : isWhitespace c = false ∧ (c ≠ '0' ∧ c ≠ 'x' ∧ c ≠ 'X') ∧ digit 10 c = none ∧
      digit 16 c = none) : c ∉ r.inner := by
  obtain ⟨hblank, hc, hdec, hhex⟩ := h
  simp only [RegProperty.inner, List.mem_append, not_or]
  exact ⟨r.beforeAddr.not_mem hblank, Numeral.not_mem_text r.addr hc hdec hhex,
    r.between.not_mem hblank, Numeral.not_mem_text r.size hc hdec hhex, r.afterSize.not_mem hblank⟩

theorem head_blank (b : Blank) (s : Text) (hs : ∀ c ∈ s.head?, isWhitespace c = true) :
    ∀ c ∈ (b.text ++ s).head?, isWhitespace c = true := by
  intro c hc
  cases htext : b.text with
  | nil => exact hs c (by rwa [htext] at hc)
  | cons d t =>
    rw [htext] at hc
    obtain rfl : d = c := Option.some_inj.mp hc
    exact b.spaces d (by rw [htext]; exact List.mem_cons_self)

/-- The two words between the brackets. -/
theorem RegProperty.splitWhitespace_inner (r : RegProperty) :
    splitWhitespace r.inner = [r.addr.text, r.size.text] := by
  have hend : ∀ c ∈ r.afterSize.text.head?, isWhitespace c = true := by
    have := head_blank r.afterSize [] (by simp)
    rwa [List.append_nil] at this
  have hbetween : ∀ c ∈ (r.between.text ++ (r.size.text ++ r.afterSize.text)).head?,
      isWhitespace c = true := by
    intro c hc
    rw [List.head?_append_of_ne_nil _ r.between_ne_nil] at hc
    exact r.between.spaces c (List.mem_of_mem_head? hc)
  have hnil : splitWhitespace r.afterSize.text = [] := by
    have := splitWhitespace_append_left r.afterSize.spaces []
    rwa [List.append_nil] at this
  rw [RegProperty.inner, splitWhitespace_append_left r.beforeAddr.spaces,
    splitWhitespace_word r.addr.text_ne_nil r.addr.not_isWhitespace_text hbetween,
    splitWhitespace_append_left r.between.spaces,
    splitWhitespace_word r.size.text_ne_nil r.size.not_isWhitespace_text hend, hnil]

theorem RegProperty.readPair_value (r : RegProperty) (rest : Text) :
    readPair (r.value ++ rest) = some r.range := by
  refine readPair_eq_some_iff.mpr ⟨r.afterEquals.text, r.inner,
    r.afterBracket.text ++ ';' :: rest, r.addr.text, r.size.text, [], ?_, ?_, ?_, ?_,
    parseAddr_text r.addr, parseAddr_text r.size⟩
  · simp [RegProperty.value]
  · exact r.afterEquals.not_mem rfl
  · exact r.not_mem_inner (by decide)
  · exact r.splitWhitespace_inner

/-- The white space before the equals sign is of the kind that the scanner skips. -/
def RegProperty.plain (r : RegProperty) : Bool := r.beforeEquals.text.all isRegSpace

theorem RegProperty.regRange_eq (r : RegProperty) {before : Option Char}
    (hbefore : before.all (!isIdentByte ·) = true) (rest : Text) :
    regRange before (r.beforeEquals.text ++ '=' :: (r.value ++ rest)) =
      if r.plain then some r.range else none := by
  split_ifs with hplain
  · refine regRange_eq_some_iff.mpr ⟨hbefore, _, _, rfl, ?_, r.readPair_value rest⟩
    exact List.all_eq_true.mp hplain
  · rw [Option.eq_none_iff_forall_ne_some]
    intro range hrange
    obtain ⟨-, sp, t, heq, hsp, -⟩ := regRange_eq_some_iff.mp hrange
    have hblank : '=' ∉ r.beforeEquals.text := r.beforeEquals.not_mem rfl
    have hspace : '=' ∉ sp := fun hmem => absurd (hsp '=' hmem) (by decide)
    have hfirst := (splitOnce_eq_some_iff (v := r.value ++ rest)).mpr ⟨rfl, hblank⟩
    rw [splitOnce_eq_some_iff.mpr ⟨heq, hspace⟩, Option.some_inj, Prod.mk.injEq] at hfirst
    exact hplain (List.all_eq_true.mpr (hfirst.1 ▸ hsp))

theorem scanRegs_reg (r : RegProperty) {before : Option Char}
    (hbefore : before.all (!isIdentByte ·) = true) (rest : Text) :
    scanRegs before (r.text ++ rest) =
      (if r.plain then [r.range] else []) ++ scanRegs (some ';') rest := by
  have hshape : r.text ++ rest =
      'r' :: 'e' :: 'g' :: (r.beforeEquals.text ++ '=' :: (r.value ++ rest)) := by
    simp [RegProperty.text]
  have hr : 'r' ∉ r.beforeEquals.text ++ '=' :: r.value := by
    have hinner : 'r' ∉ r.inner :=
      r.not_mem_inner (by decide)
    have hblank (b : Blank) : 'r' ∉ b.text := b.not_mem rfl
    simp [RegProperty.value, hinner, hblank]
  have hlast : (r.beforeEquals.text ++ '=' :: r.value).getLast? = some ';' := by
    have hconcat : r.beforeEquals.text ++ '=' :: r.value = r.beforeEquals.text ++ '=' ::
        (r.afterEquals.text ++ '<' :: (r.inner ++ '>' :: r.afterBracket.text)) ++ [';'] := by
      simp [RegProperty.value]
    rw [hconcat, List.getLast?_concat]
  have hbehind : scanRegs (some 'g') (r.beforeEquals.text ++ '=' :: (r.value ++ rest)) =
      scanRegs (some ';') rest := by
    have hpass := scanRegs_of_not_mem hr (some 'g') rest
    rwa [hlast, List.append_assoc, List.cons_append] at hpass
  rw [hshape, scanRegs, r.regRange_eq hbefore, hbehind]
  split_ifs <;> rfl

/-! ## The body of a node -/

theorem before_blank (b : Blank) {before : Option Char}
    (hbefore : before.all (!isIdentByte ·) = true) :
    (b.text.getLast?.or before).all (!isIdentByte ·) = true := by
  cases hlast : b.text.getLast? with
  | none => exact hbefore
  | some c =>
    have hc := b.spaces c (List.mem_of_getLast? hlast)
    show (!isIdentByte c) = true
    rw [Bool.not_eq_true', isIdentByte, Bool.or_eq_false_iff, Bool.or_eq_false_iff]
    refine ⟨⟨?_, ?_⟩, ?_⟩
    · rw [← Bool.not_eq_true]
      intro halnum
      rw [isWhitespace_of_isAlphanum halnum] at hc
      cases hc
    · exact beq_false_of_ne (by rintro rfl; exact absurd hc (by decide))
    · exact beq_false_of_ne (by rintro rfl; exact absurd hc (by decide))

theorem scanRegs_blank (b : Blank) (before : Option Char) (s : Text) :
    scanRegs before (b.text ++ s) = scanRegs (b.text.getLast?.or before) s :=
  scanRegs_of_not_mem (b.not_mem rfl) before s

/-- **The ranges of a body**, up to the brace behind it. -/
theorem scanRegs_body (body : Body) {before : Option Char}
    (hbefore : before.all (!isIdentByte ·) = true) (rest : Text) :
    scanRegs before (body.text ++ '}' :: rest) =
      (body.regs.filter RegProperty.plain).map RegProperty.range ++ scanRegs (some '}') rest := by
  induction body generalizing before rest with
  | done b =>
    rw [Body.text, scanRegs_blank, scanRegs_cons_of_ne (by decide)]
    rfl
  | property b p more ih =>
    rw [Body.text, List.append_assoc, List.append_assoc, scanRegs_blank, scanRegs_property,
      ih (by decide), Body.regs]
  | reg b r more ih =>
    rw [Body.text, List.append_assoc, List.append_assoc, scanRegs_blank,
      scanRegs_reg r (before_blank b hbefore), ih (by decide), Body.regs, List.filter_cons]
    split_ifs <;> simp
  | node b name b₁ inner b₂ more ihinner ihmore =>
    have hshape : (Body.node b name b₁ inner b₂ more).text ++ '}' :: rest =
        b.text ++ (name.text ++ (b₁.text ++ '{' ::
          (inner.text ++ '}' :: (b₂.text ++ ';' :: (more.text ++ '}' :: rest))))) := by
      simp [Body.text]
    rw [hshape, scanRegs_blank, scanRegs_nodeName, ihinner (by decide), scanRegs_blank,
      scanRegs_cons_of_ne (by decide), ihmore (by decide), Body.regs, List.filter_append,
      List.map_append, List.append_assoc]

/-! ## Braces -/

theorem braceBlock_of_no_brace {t : Text} (ht : '{' ∉ t ∧ '}' ∉ t) (depth : ℕ) (rest : Text) :
    braceBlock depth (t ++ rest) = (braceBlock depth rest).map (t ++ ·) id := by
  induction t with
  | nil => rfl
  | cons c t ih =>
    simp only [List.mem_cons, not_or] at ht
    obtain ⟨⟨hopen, ht₁⟩, hclose, ht₂⟩ := ht
    rw [List.cons_append, braceBlock, if_neg (Ne.symm hopen), if_neg (Ne.symm hclose),
      ih ⟨ht₁, ht₂⟩]
    rfl

theorem Blank.no_brace (b : Blank) : '{' ∉ b.text ∧ '}' ∉ b.text :=
  ⟨b.not_mem rfl, b.not_mem rfl⟩

theorem no_brace_append {s t : Text} (hs : '{' ∉ s ∧ '}' ∉ s) (ht : '{' ∉ t ∧ '}' ∉ t) :
    '{' ∉ s ++ t ∧ '}' ∉ s ++ t := by
  simp only [List.mem_append, not_or]
  exact ⟨⟨hs.1, ht.1⟩, hs.2, ht.2⟩

theorem no_brace_cons {c : Char} {t : Text} (hc : c ≠ '{' ∧ c ≠ '}') (ht : '{' ∉ t ∧ '}' ∉ t) :
    '{' ∉ c :: t ∧ '}' ∉ c :: t := by
  simp only [List.mem_cons, not_or]
  exact ⟨⟨hc.1.symm, ht.1⟩, hc.2.symm, ht.2⟩

theorem no_brace_of_isNameChar {t : Text} (ht : ∀ c ∈ t, isNameChar c = true) :
    '{' ∉ t ∧ '}' ∉ t :=
  ⟨fun h => absurd (ht _ h) (by decide), fun h => absurd (ht _ h) (by decide)⟩

theorem Part.no_brace (part : Part) : '{' ∉ part.text ∧ '}' ∉ part.text := by
  have hcells (t : CellText) : '{' ∉ t.text ∧ '}' ∉ t.text :=
    ⟨t.not_mem rfl, t.not_mem rfl⟩
  cases part with
  | string t => exact no_brace_cons (by decide) (no_brace_append t.no_brace (by decide))
  | cells t => exact no_brace_cons (by decide) (no_brace_append (hcells t) (by decide))
  | bytes t => exact no_brace_cons (by decide) (no_brace_append (hcells t) (by decide))

theorem Value.no_brace (value : Value) : '{' ∉ value.text ∧ '}' ∉ value.text := by
  induction value with
  | last b₁ part b₂ => exact no_brace_append b₁.no_brace (no_brace_append part.no_brace b₂.no_brace)
  | more b₁ part b₂ rest ih =>
    exact no_brace_append b₁.no_brace (no_brace_append part.no_brace
      (no_brace_append b₂.no_brace (no_brace_cons (by decide) ih)))

theorem Property.no_brace (p : Property) : '{' ∉ p.text ∧ '}' ∉ p.text := by
  refine no_brace_append (no_brace_of_isNameChar p.name.nameChars)
    (no_brace_append p.afterName.no_brace (no_brace_append ?_ (by decide)))
  cases p.value with
  | none => decide
  | some v => exact no_brace_cons (by decide) v.no_brace

theorem RegProperty.no_brace (r : RegProperty) : '{' ∉ r.text ∧ '}' ∉ r.text := by
  have hinner : '{' ∉ r.inner ∧ '}' ∉ r.inner :=
    ⟨r.not_mem_inner (by decide), r.not_mem_inner (by decide)⟩
  refine no_brace_append (by decide) (no_brace_append r.beforeEquals.no_brace ?_)
  refine no_brace_cons (by decide) (no_brace_append r.afterEquals.no_brace ?_)
  refine no_brace_cons (by decide) (no_brace_append hinner ?_)
  exact no_brace_cons (by decide) (no_brace_append r.afterBracket.no_brace (by decide))

/-- **The braces of a body balance**, at any depth inside the node. -/
theorem braceBlock_body (body : Body) {depth : ℕ} (hdepth : depth ≠ 0) (rest : Text) :
    braceBlock depth (body.text ++ rest) = (braceBlock depth rest).map (body.text ++ ·) id := by
  induction body generalizing depth rest with
  | done b => exact braceBlock_of_no_brace b.no_brace depth rest
  | property b p more ih =>
    have hfree := no_brace_append b.no_brace p.no_brace
    rw [Body.text, ← List.append_assoc, List.append_assoc _ _ rest,
      braceBlock_of_no_brace hfree, ih hdepth]
    simp [Prod.map]
  | reg b r more ih =>
    have hfree := no_brace_append b.no_brace r.no_brace
    rw [Body.text, ← List.append_assoc, List.append_assoc _ _ rest,
      braceBlock_of_no_brace hfree, ih hdepth]
    simp [Prod.map]
  | node b name b₁ inner b₂ more ihinner ihmore =>
    have hhead := no_brace_append b.no_brace
      (no_brace_append (no_brace_of_isNameChar name.nameChars) b₁.no_brace)
    have htail : '{' ∉ b₂.text ++ [';'] ∧ '}' ∉ b₂.text ++ [';'] :=
      no_brace_append b₂.no_brace (by decide)
    have hshape : (Body.node b name b₁ inner b₂ more).text ++ rest =
        (b.text ++ (name.text ++ b₁.text)) ++ '{' ::
          (inner.text ++ '}' :: ((b₂.text ++ [';']) ++ (more.text ++ rest))) := by
      simp [Body.text]
    -- one deeper for the child, and back at its closing brace
    have hopen (s : Text) : braceBlock depth ('{' :: s) = (braceBlock (depth + 1) s).map ('{' :: ·) id := by
      rw [braceBlock, if_pos rfl]
    have hclose (s : Text) :
        braceBlock (depth + 1) ('}' :: s) = (braceBlock depth s).map ('}' :: ·) id := by
      rw [braceBlock, if_neg (by decide), if_pos rfl, Nat.add_sub_cancel, if_neg hdepth]
    rw [hshape, braceBlock_of_no_brace hhead, hopen, ihinner (Nat.succ_ne_zero depth), hclose,
      braceBlock_of_no_brace htail, ihmore hdepth]
    simp [Prod.map, Body.text]

/-! ## The source -/

/-- A word that does not overlap itself is found at its first occurrence. -/
theorem findWord_append {word u : Text} (hword : ∀ k < word.length, 0 < k → ¬ word.drop k <+: word)
    (hu : ¬ word <:+: u) (t : Text) : findWord word (u ++ (word ++ t)) = some (word ++ t) := by
  induction u with
  | nil =>
    have hhere : word.isPrefixOf (word ++ t) = true :=
      List.isPrefixOf_iff_prefix.mpr (List.prefix_append _ _)
    cases hcons : word ++ t with
    | nil =>
      obtain ⟨rfl, -⟩ := List.append_eq_nil_iff.mp hcons
      rfl
    | cons c s =>
      rw [hcons] at hhere
      rw [List.nil_append, findWord, if_pos hhere]
  | cons c u ih =>
    have hnot : ¬ word.isPrefixOf (c :: u ++ (word ++ t)) = true := by
      rw [List.isPrefixOf_iff_prefix]
      intro hpre
      by_cases hlen : word.length ≤ (c :: u).length
      · exact hu (List.prefix_of_prefix_length_le hpre (List.prefix_append _ _) hlen).isInfix
      · -- the word would go on inside its own later occurrence
        have hlt : (c :: u).length < word.length := Nat.lt_of_not_le hlen
        refine hword (c :: u).length hlt (Nat.succ_pos _) ?_
        have hdrop := hpre.drop (c :: u).length
        rw [List.drop_left] at hdrop
        refine List.prefix_of_prefix_length_le hdrop (List.prefix_append _ _) ?_
        rw [List.length_drop]
        exact Nat.sub_le _ _
    rw [List.cons_append, findWord, ← List.cons_append, if_neg hnot]
    exact ih fun hin => hu (hin.trans (List.suffix_cons c u).isInfix)

theorem nextBlock_eq_none {s : Text} (hs : ¬ reservedMemory <:+: s) : nextBlock s = none := by
  cases h : nextBlock s with
  | none => rfl
  | some p =>
    obtain ⟨u, v, t, rfl, -⟩ := nextBlock_eq_some h
    exact absurd ⟨u, v ++ '{' :: t, by simp⟩ hs

/-- The block of the node is its body between its braces. -/
theorem nextBlock_text (src : Source) :
    nextBlock src.text = some ('{' :: (src.body.text ++ ['}']), src.after) := by
  have hoverlap : ∀ k < reservedMemory.length, 0 < k →
      ¬ reservedMemory.drop k <+: reservedMemory := by decide
  have hbrace : ∀ c ∈ reservedMemory ++ src.gap.text, (c != '{') = true := by
    intro c hc
    rw [bne_iff_ne]
    rintro rfl
    rcases List.mem_append.mp hc with hword | hgap
    · exact absurd hword (by decide)
    · exact src.gap.no_brace.1 hgap
  have hblock : braceBlock 0 ('{' :: (src.body.text ++ '}' :: src.after)) =
      ('{' :: (src.body.text ++ ['}']), src.after) := by
    have hclose : braceBlock 1 ('}' :: src.after) = (['}'], src.after) := by
      rw [braceBlock, if_neg (by decide), if_pos rfl, if_pos rfl]
    rw [braceBlock, if_pos rfl, braceBlock_body src.body Nat.one_ne_zero, hclose]
    rfl
  rw [nextBlock, Source.text, findWord_append hoverlap src.no_word_before]
  simp only [bind, Option.bind]
  rw [← List.append_assoc, List.dropWhile_append_of_pos hbrace,
    List.dropWhile_cons_of_neg (by decide)]
  exact congrArg some hblock

/-- What the scanner takes from a source. -/
theorem parseReservedRanges_text (src : Source) :
    parseReservedRanges src.text =
      (src.body.regs.filter RegProperty.plain).map RegProperty.range := by
  rw [parseReservedRanges_of_some (nextBlock_text src),
    parseReservedRanges_of_none (nextBlock_eq_none src.no_word_after), List.append_nil,
    scanRegs_cons_of_ne (by decide), scanRegs_body src.body (by decide)]
  exact List.append_nil _

/-- **Printing and scanning gives the ranges back**, all of them and in their order,
if and only if the white space between each `reg` and its equals sign is made of
spaces, tabs and line ends. -/
theorem parseReservedRanges_text_iff (src : Source) :
    parseReservedRanges src.text = src.pairs ↔
      ∀ r ∈ src.body.regs, ∀ c ∈ r.beforeEquals.text, isRegSpace c = true := by
  have hplain (r : RegProperty) :
      r.plain = true ↔ ∀ c ∈ r.beforeEquals.text, isRegSpace c = true := List.all_eq_true
  rw [parseReservedRanges_text, Source.pairs]
  constructor
  · intro h r hr
    have hlen := congrArg List.length h
    rw [List.length_map, List.length_map, List.length_filter_eq_length_iff] at hlen
    exact (hplain r).mp (hlen r hr)
  · intro h
    rw [List.filter_eq_self.mpr fun r hr => (hplain r).mpr (h r hr)]

/-- A reserved node whose `reg` has a form feed before the equals sign. -/
def formFeedSource : Source where
  before := "/ \x7b ".toList
  no_word_before := by decide
  gap := ⟨" ".toList, by simp [isWhitespace]⟩
  body := .node ⟨" ".toList, by simp [isWhitespace]⟩ ⟨"rtos@40000".toList, by simp [isNameChar]⟩
    ⟨" ".toList, by simp [isWhitespace]⟩
    (.reg ⟨[], by simp⟩
      { beforeEquals := ⟨[Char.ofNat 12], by simp [isWhitespace]⟩
        afterEquals := ⟨" ".toList, by simp [isWhitespace]⟩
        beforeAddr := ⟨[], by simp⟩
        addr := ⟨.hex, "40000".toList, by decide, by simp [digit, Spelling.radix], by decide⟩
        between := ⟨" ".toList, by simp [isWhitespace]⟩
        between_ne_nil := by decide
        size := ⟨.hex, "3c000".toList, by decide, by simp [digit, Spelling.radix], by decide⟩
        afterSize := ⟨[], by simp⟩
        afterBracket := ⟨[], by simp⟩ }
      (.done ⟨" ".toList, by simp [isWhitespace]⟩))
    ⟨[], by simp⟩ (.done ⟨" ".toList, by simp [isWhitespace]⟩)
  after := "; \x7d;".toList
  no_word_after := by decide

/-- The form feed is white space, and the range behind it is lost. -/
theorem formFeedSource_loses_range :
    formFeedSource.text = ("/ \x7b reserved-memory \x7b rtos@40000 \x7breg\x0c= " ++
        "<0x40000 0x3c000>; \x7d; \x7d; \x7d;").toList ∧
      parseReservedRanges formFeedSource.text = [] ∧
      formFeedSource.pairs = [⟨0x40000, 0x3c000⟩] := by
  refine ⟨by decide, ?_, rfl⟩
  rw [parseReservedRanges_text]
  rfl

end ConfigLint
end WardenSdk
