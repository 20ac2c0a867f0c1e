import WardenSdk.ConfigLint.Ini

/-!
# The layout of a loader `.ini`

A loader `.ini` as a list of sections, each line with the white space and the comment
it is written with.  What the file declares is said of its sections (`Renders`): one
section `LOADER_OPTION` lists the loaders, and one section `LOADERn_PARAM` gives the
address of loader `n`.  The reader returns what the file declares, in whatever layout
(`parseIniMcuLoads_of_renders`).

The layout is taken off line by line: each line reads as what it is
(`readLine_text`), so that the entries of the text are the entries of the file
(`entries_text`).  The rest is about entries.
-/

namespace WardenSdk
namespace ConfigLint

open Lib

/-! ## Lines -/

/-- White space inside a line. -/
structure Spacing where
  text : Text
  spaces : ∀ c ∈ text, isWhitespace c = true
  one_line : '\n' ∉ text

/-- A comment up to the end of its line, or nothing. -/
structure Remark where
  text : Text
  mark : ∀ c ∈ text.head?, c = '#' ∨ c = ';'
  one_line : '\n' ∉ text

/-- A text without white space at its ends, comment marks and line breaks. -/
structure Phrase where
  text : Text
  trimmed : trim text = text
  no_mark : '#' ∉ text ∧ ';' ∉ text
  one_line : '\n' ∉ text

structure KeyPhrase extends Phrase where
  ne_nil : text ≠ []
  no_equals : '=' ∉ text
  no_bracket : text.head? ≠ some '['

/-- `key=value` with what stands around it. -/
structure PairLine where
  s₁ : Spacing
  key : KeyPhrase
  s₂ : Spacing
  s₃ : Spacing
  value : Phrase
  s₄ : Spacing
  remark : Remark

def PairLine.text (p : PairLine) : Text :=
  (p.s₁.text ++ p.key.text ++ p.s₂.text) ++ '=' :: (p.s₃.text ++ p.value.text ++ p.s₄.text) ++
    p.remark.text

/-- `[name]` with what stands around it. -/
structure HeaderLine where
  s₁ : Spacing
  s₂ : Spacing
  name : Phrase
  s₃ : Spacing
  s₄ : Spacing
  remark : Remark

def HeaderLine.text (h : HeaderLine) : Text :=
  h.s₁.text ++ '[' :: ((h.s₂.text ++ h.name.text ++ h.s₃.text) ++ ']' :: h.s₄.text) ++ h.remark.text

/-- A line that is no header: empty, a key without a value, or a pair. -/
inductive FileLine where
  | blank (s : Spacing) (remark : Remark)
  | bare (s₁ : Spacing) (key : KeyPhrase) (s₂ : Spacing) (remark : Remark)
  | pair (p : PairLine)

def FileLine.text : FileLine → Text
  | .blank s remark => s.text ++ remark.text
  | .bare s₁ key s₂ remark => s₁.text ++ key.text ++ s₂.text ++ remark.text
  | .pair p => p.text

def FileLine.pair? : FileLine → Option PairLine
  | .blank _ _ => none
  | .bare _ _ _ _ => none
  | .pair p => some p

/-! ## Files -/

structure FileSection where
  header : HeaderLine
  lines : List FileLine

namespace FileSection

def name (s : FileSection) : Text := s.header.name.text

def pairs (s : FileSection) : List PairLine := s.lines.filterMap FileLine.pair?

end FileSection

structure IniFile where
  /-- The lines before the first section. -/
  top : List FileLine
  sections : List FileSection

def IniFile.lineTexts (file : IniFile) : List Text :=
  file.top.map FileLine.text ++
    file.sections.flatMap fun s => s.header.text :: s.lines.map FileLine.text

def IniFile.text (file : IniFile) : Text := ['\n'].intercalate file.lineTexts

def loaderKey (n : ℕ) : Text := "LOADER".toList ++ decimal n

def paramSection (n : ℕ) : Text := loaderKey n ++ "_PARAM".toList

def PairLine.isLoader (p : PairLine) : Bool :=
  "LOADER".toList.isPrefixOf (toAsciiUppercase p.key.text)

def PairLine.isLoadAddr (p : PairLine) : Bool := eqIgnoreAsciiCase p.key.text "LOAD_ADDR".toList

def FileSection.isOption (s : FileSection) : Bool := s.name == loaderOption

def FileSection.isParam (n : ℕ) (s : FileSection) : Bool := eqIgnoreAsciiCase s.name (paramSection n)

/-- **What a file declares**: these loaders, in this order, and these addresses. -/
structure Renders (file : IniFile) (loaders : List (ℕ × Text)) (addrs : ℕ → Option UInt64) :
    Prop where
  /-- One section lists the loaders, and its other keys do not begin with `LOADER`. -/
  option : ∃ s, file.sections.filter FileSection.isOption = [s] ∧
    List.Forall₂ (fun p e => eqIgnoreAsciiCase p.key.text (loaderKey e.1) = true ∧
      p.value.text = e.2) (s.pairs.filter PairLine.isLoader) loaders
  /-- One section gives the address of a mapped loader, in one line. -/
  param : ∀ n a, addrs n = some a → ∃ s p, file.sections.filter (FileSection.isParam n) = [s] ∧
    s.pairs.filter PairLine.isLoadAddr = [p] ∧
      ∃ m : Numeral 64, p.value.text = m.text ∧ m.value = a.toNat
  /-- No other section gives an address to a loader. -/
  other : ∀ n, addrs n = none → ∀ s ∈ file.sections, s.isParam n = true →
    s.pairs.filter PairLine.isLoadAddr = []

/-- The loads that the gate has to check: the loaders that are not on the safe list
and have an address. -/
def declaredLoads (loaders : List (ℕ × Text)) (addrs : ℕ → Option UInt64) : List McuLoad :=
  loaders.filterMap fun (n, name) =>
    if normalisedName name ∈ safeLoaders then none
    else (addrs n).map fun a => ⟨loaderKey n, name, a⟩

/-! ## Reading a line -/

/-- The line up to its comment. -/
def beforeRemark (raw : Text) : Text := raw.takeWhile fun c => c != '#' && c != ';'

theorem beforeRemark_append {core : Text} (hcore : '#' ∉ core ∧ ';' ∉ core) (r : Remark) :
    beforeRemark (core ++ r.text) = core := by
  have hsaid : ∀ c ∈ core, (c != '#' && c != ';') = true := by
    intro c hc
    rw [Bool.and_eq_true, bne_iff_ne, bne_iff_ne]
    constructor <;> rintro rfl
    · exact hcore.1 hc
    · exact hcore.2 hc
  have hremark : beforeRemark r.text = [] := by
    cases htext : r.text with
    | nil => rfl
    | cons c t =>
      have hc := r.mark c (by rw [htext]; rfl)
      refine List.takeWhile_cons_of_neg ?_
      rcases hc with rfl | rfl <;> decide
  rw [beforeRemark, List.takeWhile_append_of_pos hsaid, ← beforeRemark, hremark, List.append_nil]

theorem readLine_of_empty {raw : Text} (h : trim (beforeRemark raw) = []) :
    readLine raw = .skip := by
  have hline : trim (raw.takeWhile fun c => c != '#' && c != ';') = [] := h
  unfold readLine
  rw [hline]
  rfl

/-- What a line says that is not empty. -/
theorem readLine_of_said {raw line : Text} (h : trim (beforeRemark raw) = line) (hne : line ≠ []) :
    readLine raw =
      match (stripPrefix "[".toList line).bind (stripSuffix "]".toList) with
      | some name => .header (trim name)
      | none =>
        match splitOnce '=' line with
        | none => .skip
        | some (k, v) => .pair (trim k) (trim v) := by
  have hline : trim (raw.takeWhile fun c => c != '#' && c != ';') = line := h
  unfold readLine
  rw [hline]
  exact if_neg (by simpa using hne)

theorem stripSuffix_append (s t : Text) : stripSuffix t (s ++ t) = some s := by
  rw [stripSuffix, if_pos (List.isSuffixOf_iff_suffix.mpr (List.suffix_append s t)),
    List.length_append, Nat.add_sub_cancel, List.take_left]

theorem Spacing.no_mark (s : Spacing) : '#' ∉ s.text ∧ ';' ∉ s.text :=
  ⟨fun h => absurd (s.spaces _ h) (by decide), fun h => absurd (s.spaces _ h) (by decide)⟩

theorem readLine_blank (s : Spacing) (r : Remark) : readLine (s.text ++ r.text) = .skip := by
  refine readLine_of_empty ?_
  rw [beforeRemark_append s.no_mark, trim_eq_nil s.spaces]

/-- A key is not taken for a header. -/
theorem stripPrefix_key {d : Char} {k : Text} {key : KeyPhrase} (hkey : key.text = d :: k)
    (t : Text) : stripPrefix "[".toList (d :: t) = none := by
  refine if_neg fun h => ?_
  obtain ⟨t', ht'⟩ := List.isPrefixOf_iff_prefix.mp h
  have hbracket := key.no_bracket
  rw [hkey, ← (List.cons.inj ht').1] at hbracket
  exact hbracket rfl

theorem readLine_bare (s₁ : Spacing) (key : KeyPhrase) (s₂ : Spacing) (r : Remark) :
    readLine (s₁.text ++ key.text ++ s₂.text ++ r.text) = .skip := by
  have hcore : '#' ∉ s₁.text ++ key.text ++ s₂.text ∧ ';' ∉ s₁.text ++ key.text ++ s₂.text := by
    simp [s₁.no_mark, s₂.no_mark, key.no_mark]
  have htrim : trim (beforeRemark (s₁.text ++ key.text ++ s₂.text ++ r.text)) = key.text := by
    rw [beforeRemark_append hcore, trim_spaced s₁.spaces s₂.spaces key.trimmed]
  have hheader : stripPrefix "[".toList key.text = none := by
    obtain ⟨d, k, hkey⟩ := List.exists_cons_of_ne_nil key.ne_nil
    rw [hkey]
    exact stripPrefix_key hkey k
  rw [readLine_of_said htrim key.ne_nil, hheader, splitOnce_eq_none_iff.mpr key.no_equals]
  rfl

theorem HeaderLine.readLine_text (h : HeaderLine) : readLine h.text = .header h.name.text := by
  have hcore : '#' ∉ h.s₁.text ++ '[' :: ((h.s₂.text ++ h.name.text ++ h.s₃.text) ++
        ']' :: h.s₄.text) ∧
      ';' ∉ h.s₁.text ++ '[' :: ((h.s₂.text ++ h.name.text ++ h.s₃.text) ++ ']' :: h.s₄.text) := by
    simp [h.s₁.no_mark, h.s₂.no_mark, h.s₃.no_mark, h.s₄.no_mark, h.name.no_mark]
  have htrim : trim (beforeRemark h.text) =
      '[' :: ((h.s₂.text ++ h.name.text ++ h.s₃.text) ++ [']']) := by
    rw [HeaderLine.text, beforeRemark_append hcore, trim_append_cons (by decide),
      rdropWhile_append_cons (by decide), List.dropWhile_eq_nil_iff.mpr h.s₁.spaces,
      List.rdropWhile_eq_nil_iff.mpr h.s₄.spaces]
    rfl
  have hstrip : (stripPrefix "[".toList ('[' :: ((h.s₂.text ++ h.name.text ++ h.s₃.text) ++
      [']']))).bind (stripSuffix "]".toList) = some (h.s₂.text ++ h.name.text ++ h.s₃.text) :=
    stripSuffix_append _ _
  rw [readLine_of_said htrim (by simp), hstrip]
  dsimp only
  rw [trim_spaced h.s₂.spaces h.s₃.spaces h.name.trimmed]

theorem PairLine.readLine_text (p : PairLine) :
    readLine p.text = .pair p.key.text p.value.text := by
  have hcore : '#' ∉ (p.s₁.text ++ p.key.text ++ p.s₂.text) ++
        '=' :: (p.s₃.text ++ p.value.text ++ p.s₄.text) ∧
      ';' ∉ (p.s₁.text ++ p.key.text ++ p.s₂.text) ++
        '=' :: (p.s₃.text ++ p.value.text ++ p.s₄.text) := by
    simp [p.s₁.no_mark, p.s₂.no_mark, p.s₃.no_mark, p.s₄.no_mark, p.key.no_mark, p.value.no_mark]
  obtain ⟨d, k, hkey⟩ := List.exists_cons_of_ne_nil p.key.ne_nil
  have hd : isWhitespace d = false := by
    have htrimmed := p.key.trimmed
    rw [hkey] at htrimmed
    exact not_isWhitespace_of_trim_cons htrimmed
  -- the line begins with the key
  have hleft : (p.s₁.text ++ p.key.text ++ p.s₂.text).dropWhile isWhitespace =
      d :: (k ++ p.s₂.text) := by
    rw [hkey, List.append_assoc, List.cons_append, dropWhile_append_cons hd,
      List.dropWhile_eq_nil_iff.mpr p.s₁.spaces]
    rfl
  have htrim : trim (beforeRemark p.text) = (d :: (k ++ p.s₂.text)) ++
      '=' :: (p.s₃.text ++ p.value.text ++ p.s₄.text).rdropWhile isWhitespace := by
    rw [PairLine.text, beforeRemark_append hcore, trim_append_cons (by decide), hleft]
  have hequals : '=' ∉ d :: (k ++ p.s₂.text) := by
    rw [← List.cons_append, ← hkey, List.mem_append, not_or]
    exact ⟨p.key.no_equals, fun h => absurd (p.s₂.spaces _ h) (by decide)⟩
  rw [readLine_of_said htrim (by simp), List.cons_append, stripPrefix_key hkey, ← List.cons_append, splitOnce_eq_some_iff.mpr ⟨rfl, hequals⟩]
  dsimp only [Option.bind_none]
  rw [← hleft, trim_dropWhile, trim_rdropWhile, trim_spaced p.s₁.spaces p.s₂.spaces p.key.trimmed,
    trim_spaced p.s₃.spaces p.s₄.spaces p.value.trimmed]

/-! ## The entries of the text -/

/-- A line is read without its comment and the white space around it. -/
theorem readLine_congr {raw raw' : Text} (h : trim (beforeRemark raw) = trim (beforeRemark raw')) :
    readLine raw = readLine raw' := by
  have hline : trim (raw.takeWhile fun c => c != '#' && c != ';') =
      trim (raw'.takeWhile fun c => c != '#' && c != ';') := h
  unfold readLine
  rw [hline]

/-- A carriage return at the end of a line says nothing. -/
theorem readLine_strip (l : Text) : readLine ((stripSuffix ['\r'] l).getD l) = readLine l := by
  by_cases h : ['\r'] <:+ l
  swap
  · rw [stripSuffix, if_neg (mt List.isSuffixOf_iff_suffix.mp h)]
    rfl
  obtain ⟨t, rfl⟩ := h
  rw [stripSuffix_append, Option.getD_some]
  refine readLine_congr ?_
  unfold beforeRemark
  rw [List.takeWhile_append]
  split_ifs with hall
  · have hself := (List.takeWhile_prefix (l := t) fun c => c != '#' && c != ';').eq_of_length hall
    have hreturn : (['\r'].takeWhile fun c => c != '#' && c != ';') = ['\r'] := rfl
    rw [hself, hreturn, ← trim_rdropWhile (t ++ ['\r']), List.rdropWhile_concat_pos _ _ _ (by decide),
      trim_rdropWhile]
  · rfl

/-- The entries are those of what the lines say. -/
theorem entriesFrom_congr {ls ls' : List Text} (h : ls.map readLine = ls'.map readLine)
    (sectionName : Text) : entriesFrom sectionName ls = entriesFrom sectionName ls' := by
  induction ls generalizing ls' sectionName with
  | nil =>
    obtain rfl := List.map_eq_nil_iff.mp h.symm
    rfl
  | cons l ls ih =>
    obtain ⟨l', ls', rfl, hl, hls⟩ := List.map_eq_cons_iff.mp h.symm
    rw [entriesFrom, entriesFrom, hl]
    cases readLine l with
    | skip => exact ih hls.symm sectionName
    | header name => exact ih hls.symm name
    | pair k v => exact congrArg _ (ih hls.symm sectionName)

theorem entriesFrom_concat_nil (sectionName : Text) (ls : List Text) :
    entriesFrom sectionName (ls ++ [[]]) = entriesFrom sectionName ls := by
  induction ls generalizing sectionName with
  | nil => rfl
  | cons l ls ih =>
    rw [List.cons_append, entriesFrom, entriesFrom]
    cases readLine l with
    | skip => exact ih sectionName
    | header name => exact ih name
    | pair k v => exact congrArg _ (ih sectionName)

/-- How the lines of a text end does not matter to its entries. -/
theorem entries_eq_splitOn (ini : Text) : entries ini = entriesFrom [] (ini.splitOn '\n') := by
  have hne : ini.splitOn '\n' ≠ [] := List.splitOn_ne_nil _ _
  unfold entries lines
  generalize ini.splitOn '\n' = parts at hne ⊢
  obtain ⟨init, last, rfl⟩ := (List.eq_nil_or_concat' parts).resolve_left hne
  dsimp only
  rw [List.dropLast_concat, List.getLast?_concat, Option.toList_some]
  have hstrip : (init.map fun l => (stripSuffix ['\r'] l).getD l).map readLine =
      init.map readLine := by
    rw [List.map_map]
    exact List.map_congr_left fun l _ => readLine_strip l
  cases last with
  | nil =>
    rw [entriesFrom_concat_nil]
    refine entriesFrom_congr ?_ []
    simpa using hstrip
  | cons c t =>
    refine entriesFrom_congr ?_ []
    rw [List.map_append, List.map_append, hstrip]
    rfl

def entriesOf (name : Text) (ps : List PairLine) : List Entry :=
  ps.map fun p => ⟨name, p.key.text, p.value.text⟩

def IniFile.entries (file : IniFile) : List Entry :=
  entriesOf [] (file.top.filterMap FileLine.pair?) ++
    file.sections.flatMap fun s => entriesOf s.name s.pairs

/-- Lines that are no header give their entries and stay in the section. -/
theorem entriesFrom_lines (sectionName : Text) (ls : List FileLine) (rest : List Text) :
    entriesFrom sectionName (ls.map FileLine.text ++ rest) =
      entriesOf sectionName (ls.filterMap FileLine.pair?) ++ entriesFrom sectionName rest := by
  induction ls with
  | nil => rfl
  | cons l ls ih =>
    rw [List.map_cons, List.cons_append, entriesFrom]
    cases l with
    | blank s r =>
      rw [FileLine.text, readLine_blank]
      exact ih
    | bare s₁ key s₂ r =>
      rw [FileLine.text, readLine_bare]
      exact ih
    | pair p =>
      rw [FileLine.text, p.readLine_text]
      exact congrArg _ ih

theorem entriesFrom_sections (sectionName : Text) (sections : List FileSection) :
    entriesFrom sectionName
        (sections.flatMap fun s => s.header.text :: s.lines.map FileLine.text) =
      sections.flatMap fun s => entriesOf s.name s.pairs := by
  induction sections generalizing sectionName with
  | nil => rfl
  | cons s sections ih =>
    rw [List.flatMap_cons, List.cons_append, entriesFrom, s.header.readLine_text]
    dsimp only
    rw [entriesFrom_lines, ih, List.flatMap_cons]
    rfl

theorem FileLine.one_line (l : FileLine) : '\n' ∉ l.text := by
  cases l with
  | blank s r => simp [FileLine.text, s.one_line, r.one_line]
  | bare s₁ key s₂ r => simp [FileLine.text, s₁.one_line, key.one_line, s₂.one_line, r.one_line]
  | pair p =>
    simp [FileLine.text, PairLine.text, p.s₁.one_line, p.s₂.one_line, p.s₃.one_line, p.s₄.one_line,
      p.key.one_line, p.value.one_line, p.remark.one_line]

theorem HeaderLine.one_line (h : HeaderLine) : '\n' ∉ h.text := by
  simp [HeaderLine.text, h.s₁.one_line, h.s₂.one_line, h.s₃.one_line, h.s₄.one_line,
    h.name.one_line, h.remark.one_line]

theorem IniFile.one_line (file : IniFile) : ∀ l ∈ file.lineTexts, '\n' ∉ l := by
  intro l hl
  rcases List.mem_append.mp hl with htop | hsection
  · obtain ⟨line, -, rfl⟩ := List.mem_map.mp htop
    exact line.one_line
  · obtain ⟨s, -, hs⟩ := List.mem_flatMap.mp hsection
    rcases List.mem_cons.mp hs with rfl | hs
    · exact s.header.one_line
    · obtain ⟨line, -, rfl⟩ := List.mem_map.mp hs
      exact line.one_line

/-- **The entries of the text are the entries of the file.** -/
theorem entries_text (file : IniFile) : ConfigLint.entries file.text = file.entries := by
  have hlines : entriesFrom [] (file.text.splitOn '\n') = entriesFrom [] file.lineTexts := by
    by_cases hnil : file.lineTexts = []
    · rw [IniFile.text, hnil]
      rfl
    · rw [IniFile.text, List.splitOn_intercalate '\n' file.one_line hnil]
  rw [entries_eq_splitOn, hlines, IniFile.lineTexts, entriesFrom_lines, entriesFrom_sections]
  rfl

/-! ## What the reader gathers from a file -/

theorem toAsciiUppercase_decimal (n : ℕ) : toAsciiUppercase (decimal n) = decimal n := by
  refine (List.map_congr_left fun c hc => ?_).trans (List.map_id _)
  have hdigit := Nat.isDigit_of_mem_toDigits (by decide) (by decide) hc
  have hascii : ∀ n < 128, (Char.ofNat n).isDigit = true →
      (Char.ofNat n).toUpper = Char.ofNat n := by decide
  have hupper := hascii c.toNat (toNat_lt_of_isAlphanum (by rw [Char.isAlphanum, hdigit, Bool.or_true]))
  rw [Char.ofNat_toNat] at hupper
  exact hupper hdigit

theorem loaderKey_eq (n : ℕ) : loaderKey n = "LOADER".toList ++ decimal n := rfl

theorem toAsciiUppercase_loaderKey (n : ℕ) : toAsciiUppercase (loaderKey n) = loaderKey n := by
  have hword : toAsciiUppercase "LOADER".toList = "LOADER".toList := by decide
  rw [loaderKey_eq, toAsciiUppercase_append, hword, toAsciiUppercase_decimal]

theorem toAsciiUppercase_paramSection (n : ℕ) :
    toAsciiUppercase (paramSection n) = paramSection n := by
  have hword : toAsciiUppercase "_PARAM".toList = "_PARAM".toList := by decide
  rw [paramSection, toAsciiUppercase_append, hword, toAsciiUppercase_loaderKey]

/-- Two loaders have two sections. -/
theorem paramSection_injective {m n : ℕ} (h : paramSection m = paramSection n) : m = n := by
  have hdigits : decimal m = decimal n := by
    simpa only [paramSection, loaderKey_eq, List.append_cancel_right_eq,
      List.append_cancel_left_eq] using h
  rw [← Nat.ofDigitChars_ten_toDigits (n := m), ← Nat.ofDigitChars_ten_toDigits (n := n)]
  exact congrArg (Nat.ofDigitChars 10 · 0) hdigits

theorem FileSection.isParam_iff {n : ℕ} {s : FileSection} :
    s.isParam n = true ↔ toAsciiUppercase s.name = paramSection n := by
  rw [FileSection.isParam, eqIgnoreAsciiCase_iff, toAsciiUppercase_paramSection]

/-- A flattening keeps the lists of the members that a test picks. -/
theorem flatMap_filter {α β : Type*} (p : α → Bool) (f : α → List β) (l : List α) :
    (l.flatMap fun a => if p a then f a else []) = (l.filter p).flatMap f := by
  induction l with
  | nil => rfl
  | cons a l ih =>
    rw [List.flatMap_cons, ih, List.filter_cons]
    split_ifs <;> simp

/-- What the reader takes for loaders in a section. -/
def loadersOf (ps : List PairLine) : List (Text × Text) :=
  (ps.filter PairLine.isLoader).map fun p => (toAsciiUppercase p.key.text, p.value.text)

/-- What the reader takes for addresses in a section. -/
def addrsOf (key : Text) (ps : List PairLine) : List (Text × UInt64) :=
  (ps.filter PairLine.isLoadAddr).filterMap fun p => (parseAddr p.value.text).map fun a => (key, a)

theorem filterMap_loader? (name : Text) (ps : List PairLine) :
    (entriesOf name ps).filterMap Entry.loader? =
      if name == loaderOption then loadersOf ps else [] := by
  rw [entriesOf, List.filterMap_map]
  split_ifs with h
  · obtain rfl : name = loaderOption := beq_iff_eq.mp h
    rw [loadersOf, ← List.filterMap_eq_map, List.filterMap_filter]
    refine List.filterMap_congr fun p _ => ?_
    simp only [Function.comp_apply, Entry.loader?, PairLine.isLoader, List.isPrefixOf_iff_prefix,
      true_and]
  · refine List.filterMap_eq_nil_iff.mpr fun p _ => ?_
    have hnot : name ≠ loaderOption := fun hname => h (beq_iff_eq.mpr hname)
    simp only [Function.comp_apply, Entry.loader?, hnot, false_and, if_false]

theorem filterMap_loadAddr? (name : Text) (ps : List PairLine) :
    (entriesOf name ps).filterMap Entry.loadAddr? = addrsOf (toAsciiUppercase name) ps := by
  rw [entriesOf, List.filterMap_map, addrsOf, List.filterMap_filter]
  refine List.filterMap_congr fun p _ => ?_
  simp only [Function.comp_apply, Entry.loadAddr?]
  by_cases haddr : eqIgnoreAsciiCase p.key.text "LOAD_ADDR".toList = true
  · rw [if_neg fun hloader => not_loader_of_loadAddr haddr hloader.2, if_pos haddr,
      if_pos (show p.isLoadAddr = true from haddr)]
  · rw [if_neg haddr, ite_self, if_neg (show ¬ p.isLoadAddr = true from haddr)]

/-- All the addresses of a section stand under its name. -/
theorem filter_addrsOf (key key' : Text) (ps : List PairLine) :
    (addrsOf key ps).filter (fun q => q.1 = key') = if key = key' then addrsOf key' ps else [] := by
  have hkey : ∀ q ∈ addrsOf key ps, q.1 = key := by
    intro q hq
    obtain ⟨p, -, hp⟩ := List.mem_filterMap.mp hq
    obtain ⟨a, -, rfl⟩ := Option.map_eq_some_iff.mp hp
    rfl
  split_ifs with h
  · subst h
    exact List.filter_eq_self.mpr fun q hq => decide_eq_true (hkey q hq)
  · refine List.filter_eq_nil_iff.mpr fun q hq hq' => h ?_
    rw [← hkey q hq, of_decide_eq_true hq']

/-- **The loaders of a file** are those of its option section. -/
theorem filterMap_loader?_entries (file : IniFile) :
    file.entries.filterMap Entry.loader? =
      (file.sections.filter FileSection.isOption).flatMap fun s => loadersOf s.pairs := by
  have htop : (entriesOf [] (file.top.filterMap FileLine.pair?)).filterMap Entry.loader? = [] := by
    rw [filterMap_loader?, if_neg (by decide)]
  rw [IniFile.entries, List.filterMap_append, htop, List.nil_append, List.filterMap_flatMap,
    ← flatMap_filter]
  exact List.flatMap_congr fun s _ => filterMap_loader? s.name s.pairs

/-- **The addresses of loader `n`** are those of its section. -/
theorem filter_loadAddr?_entries (file : IniFile) (n : ℕ) :
    (file.entries.filterMap Entry.loadAddr?).filter (fun q => q.1 = paramSection n) =
      (file.sections.filter (FileSection.isParam n)).flatMap fun s =>
        addrsOf (paramSection n) s.pairs := by
  have htop : ((entriesOf [] (file.top.filterMap FileLine.pair?)).filterMap
      Entry.loadAddr?).filter (fun q => q.1 = paramSection n) = [] := by
    rw [filterMap_loadAddr?, filter_addrsOf, if_neg]
    exact fun hnil => List.cons_ne_nil _ _ hnil.symm
  rw [IniFile.entries, List.filterMap_append, List.filter_append, htop, List.nil_append,
    List.filterMap_flatMap, List.filter_flatMap, ← flatMap_filter]
  refine List.flatMap_congr fun s _ => ?_
  rw [filterMap_loadAddr?, filter_addrsOf]
  simp only [FileSection.isParam_iff]

theorem getAddr_eq (l : List (Text × UInt64)) (key : Text) :
    getAddr l key = ((l.filter fun q => q.1 = key).head?).map Prod.snd := by
  rw [getAddr, List.head?_filter]

section Renders

variable {file : IniFile} {loaders : List (ℕ × Text)} {addrs : ℕ → Option UInt64}

theorem Renders.loaders_eq (h : Renders file loaders addrs) :
    file.entries.filterMap Entry.loader? = loaders.map fun e => (loaderKey e.1, e.2) := by
  obtain ⟨s, hs, hlines⟩ := h.option
  rw [filterMap_loader?_entries, hs, List.flatMap_singleton, loadersOf]
  generalize s.pairs.filter PairLine.isLoader = ps at hlines ⊢
  clear h
  induction hlines with
  | nil => rfl
  | @cons p e ps es hp _ ih =>
    obtain ⟨hkey, hvalue⟩ := hp
    rw [eqIgnoreAsciiCase_iff, toAsciiUppercase_loaderKey] at hkey
    rw [List.map_cons, List.map_cons, hkey, hvalue, ih]

theorem Renders.getAddr_eq (h : Renders file loaders addrs) (n : ℕ) :
    getAddr (file.entries.filterMap Entry.loadAddr?).reverse (paramSection n) = addrs n := by
  rw [ConfigLint.getAddr_eq, List.filter_reverse, filter_loadAddr?_entries]
  cases haddr : addrs n with
  | none =>
    have hnil : ((file.sections.filter (FileSection.isParam n)).flatMap fun s =>
        addrsOf (paramSection n) s.pairs) = [] := by
      refine List.flatMap_eq_nil_iff.mpr fun s hs => ?_
      obtain ⟨hmem, hparam⟩ := List.mem_filter.mp hs
      rw [addrsOf, h.other n haddr s hmem hparam]
      rfl
    rw [hnil]
    rfl
  | some a =>
    obtain ⟨s, p, hs, hp, m, hm, hvalue⟩ := h.param n a haddr
    have hread : parseAddr p.value.text = some a := by
      rw [hm, parseAddr_text, Option.some_inj, ← UInt64.toNat_inj]
      exact hvalue
    rw [hs, List.flatMap_singleton, addrsOf, hp, List.filterMap_cons, hread]
    rfl

/-- **The reader depends on what the file declares, not on its layout.** -/
theorem parseIniMcuLoads_of_renders (h : Renders file loaders addrs) :
    parseIniMcuLoads file.text = declaredLoads loaders addrs := by
  rw [parseIniMcuLoads_eq, entries_text, h.loaders_eq, List.filterMap_map, declaredLoads]
  refine List.filterMap_congr fun e _ => ?_
  have haddr := h.getAddr_eq e.1
  simp only [Function.comp_apply, ← paramSection.eq_1, haddr, isKnownSafeLoader, decide_eq_true_eq]

end Renders

theorem spaces_nil : ∀ c ∈ ([] : Text), isWhitespace c = true := List.forall_mem_nil _

theorem spaces_space : ∀ c ∈ " ".toList, isWhitespace c = true := by simp [isWhitespace]

theorem one_line_nil : '\n' ∉ ([] : Text) := List.not_mem_nil

theorem one_line_space : '\n' ∉ " ".toList := by decide

theorem mark_nil : ∀ c ∈ ([] : Text).head?, c = '#' ∨ c = ';' := by simp

def Spacing.tight : Spacing := ⟨[], spaces_nil, one_line_nil⟩

def Spacing.space : Spacing := ⟨" ".toList, spaces_space, one_line_space⟩

def Remark.silent : Remark := ⟨[], mark_nil, one_line_nil⟩

/-- The address comes before the loaders, in decimal and under a section in lower
case, a loader that is known to be safe has an address too, and an unrelated section
has one of its own. -/
def scrambledFile : IniFile where
  top := [.blank .space ⟨"; loader 2".toList, by simp, by decide⟩]
  sections :=
    [{ header := ⟨.tight, .space, ⟨"loader2_Param".toList, by decide, by decide, by decide⟩, .space,
        .tight, .silent⟩
       lines := [.pair ⟨.space, ⟨⟨"Load_Addr".toList, by decide, by decide, by decide⟩, by decide,
        by decide, by decide⟩, .space, .tight, ⟨"262144".toList, by decide, by decide, by decide⟩,
        .tight, ⟨"#0x40000".toList, by simp, by decide⟩⟩] },
     { header := ⟨.tight, .tight, ⟨loaderOption, by decide, by decide, by decide⟩, .tight, .tight,
        .silent⟩
       lines := [.pair ⟨.tight, ⟨⟨"loader1".toList, by decide, by decide, by decide⟩, by decide,
          by decide, by decide⟩, .tight, .space, ⟨"Flash-Data".toList, by decide, by decide,
          by decide⟩, .tight, .silent⟩,
        .blank .tight .silent,
        .pair ⟨.tight, ⟨⟨"Loader2".toList, by decide, by decide, by decide⟩, by decide,
          by decide, by decide⟩, .tight, .tight, ⟨"Rtos".toList, by decide, by decide, by decide⟩,
          .space, .silent⟩] },
     { header := ⟨.tight, .tight, ⟨"LOADER1_PARAM".toList, by decide, by decide, by decide⟩, .tight,
        .tight, .silent⟩
       lines := [.pair ⟨.tight, ⟨⟨"LOAD_ADDR".toList, by decide, by decide, by decide⟩, by decide,
        by decide, by decide⟩, .tight, .tight, ⟨"0x1000".toList, by decide, by decide, by decide⟩,
        .tight, .silent⟩] },
     { header := ⟨.tight, .tight, ⟨"SYSTEM".toList, by decide, by decide, by decide⟩, .tight, .tight,
        .silent⟩
       lines := [.pair ⟨.tight, ⟨⟨"LOAD_ADDR".toList, by decide, by decide, by decide⟩, by decide,
        by decide, by decide⟩, .tight, .tight, ⟨"1".toList, by decide, by decide, by decide⟩,
        .tight, .silent⟩] }]

def scrambledAddrs (n : ℕ) : Option UInt64 :=
  if n = 1 then some 0x1000 else if n = 2 then some 0x40000 else none

theorem scrambledFile_renders :
    Renders scrambledFile [(1, "Flash-Data".toList), (2, "Rtos".toList)] scrambledAddrs where
  option := by
    refine ⟨_, rfl, ?_⟩
    exact .cons ⟨by decide, rfl⟩ (.cons ⟨by decide, rfl⟩ .nil)
  param := by
    intro n a h
    unfold scrambledAddrs at h
    split_ifs at h with hone htwo
    · subst hone
      cases h
      refine ⟨_, _, rfl, rfl, ⟨.hex, "1000".toList, ?_, ?_, ?_⟩, rfl, ?_⟩
      · decide
      · simp [digit, Spelling.radix]
      · decide
      · decide
    · subst htwo
      cases h
      refine ⟨_, _, rfl, rfl, ⟨.decimal, "262144".toList, ?_, ?_, ?_⟩, rfl, ?_⟩
      · decide
      · simp [digit, Spelling.radix]
      · decide
      · decide
  other := by
    intro n h s hs hparam
    unfold scrambledAddrs at h
    split_ifs at h with hone htwo
    have hname {k : ℕ} (hk : s.isParam k = true) : k = n :=
      paramSection_injective ((FileSection.isParam_iff.mp hk).symm.trans
        (FileSection.isParam_iff.mp hparam))
    simp only [scrambledFile, List.mem_cons, List.not_mem_nil, or_false] at hs
    rcases hs with rfl | rfl | rfl | rfl
    · exact absurd (hname (k := 2) rfl).symm htwo
    · rfl
    · exact absurd (hname (k := 1) rfl).symm hone
    · have hsystem : "SYSTEM".toList = 'L' :: ("OADER".toList ++ decimal n ++ "_PARAM".toList) :=
        FileSection.isParam_iff.mp hparam
      exact absurd (List.cons.inj hsystem).1 (by decide)

/-- The loads of such a file. -/
theorem scrambledFile_loads :
    Renders scrambledFile [(1, "Flash-Data".toList), (2, "Rtos".toList)] scrambledAddrs ∧
      parseIniMcuLoads scrambledFile.text = [⟨"LOADER2".toList, "Rtos".toList, 0x40000⟩] := by
  refine ⟨scrambledFile_renders, ?_⟩
  rw [parseIniMcuLoads_of_renders scrambledFile_renders]
  decide

end ConfigLint
end WardenSdk
