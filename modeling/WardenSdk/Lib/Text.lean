import Mathlib

/-!
# Text

A text is its list of characters.  The functions below are the string functions
of the Rust standard library that the modelled crates call, under its names and
with its conventions:

* white space is Unicode `White_Space`, so `trim` and `splitWhitespace` drop a
  no-break space, while the upper and lower case conversions touch ASCII only;
* `lines` ends a line at a line feed, takes one carriage return before it away
  and knows no line after the last line feed;
* `fromStrRadix` accepts one leading plus sign and refuses an empty text, a lone
  sign, a foreign digit and a value that does not fit.
-/

namespace WardenSdk
namespace Lib

abbrev Text := List Char

/-- Membership in a list of texts is decided with it. -/
instance : LawfulBEq Text := inferInstance

/-- `char::is_whitespace`. -/
def isWhitespace (c : Char) : Bool :=
  (9 ≤ c.toNat && c.toNat ≤ 13) || (0x2000 ≤ c.toNat && c.toNat ≤ 0x200A) ||
    c.toNat ∈ [0x20, 0x85, 0xA0, 0x1680, 0x2028, 0x2029, 0x202F, 0x205F, 0x3000]

theorem toNat_lt_of_isAlphanum {c : Char} (h : c.isAlphanum = true) : c.toNat < 128 := by
  simp only [Char.isAlphanum, Char.isAlpha, Char.isUpper, Char.isLower, Char.isDigit,
    Bool.or_eq_true, Bool.and_eq_true, decide_eq_true_eq] at h
  rcases h with (⟨-, h⟩ | ⟨-, h⟩) | ⟨-, h⟩ <;>
    exact Nat.lt_of_le_of_lt (UInt32.le_iff_toNat_le.mp h) (by decide)

theorem isWhitespace_of_isAlphanum {c : Char} (h : c.isAlphanum = true) :
    isWhitespace c = false := by
  have hascii : ∀ n < 128, (Char.ofNat n).isAlphanum = true →
      isWhitespace (Char.ofNat n) = false := by decide
  have hc := hascii c.toNat (toNat_lt_of_isAlphanum h)
  rw [Char.ofNat_toNat] at hc
  exact hc h

def trim (s : Text) : Text := (s.dropWhile isWhitespace).rdropWhile isWhitespace

def splitWhitespace (s : Text) : List Text := (s.splitOnP isWhitespace).filter (!·.isEmpty)

/-- The text before and the text after the first `c`. -/
def splitOnce (c : Char) (s : Text) : Option (Text × Text) :=
  match s.dropWhile (· != c) with
  | [] => none
  | _ :: v => some (s.takeWhile (· != c), v)

def stripPrefix (p s : Text) : Option Text :=
  if p.isPrefixOf s then some (s.drop p.length) else none

def stripSuffix (p s : Text) : Option Text :=
  if p.isSuffixOf s then some (s.take (s.length - p.length)) else none

def lines (s : Text) : List Text :=
  let parts := s.splitOn '\n'
  parts.dropLast.map (fun l => (stripSuffix ['\r'] l).getD l) ++
    (parts.getLast?.toList.filter (!·.isEmpty))

def toAsciiUppercase (s : Text) : Text := s.map Char.toUpper

theorem toAsciiUppercase_append (s t : Text) :
    toAsciiUppercase (s ++ t) = toAsciiUppercase s ++ toAsciiUppercase t := List.map_append

def toAsciiLowercase (s : Text) : Text := s.map Char.toLower

def eqIgnoreAsciiCase (s t : Text) : Bool := toAsciiLowercase s == toAsciiLowercase t

theorem toUpper_toLower (c : Char) : c.toLower.toUpper = c.toUpper := by
  by_cases h : c.toNat < 128
  · have hascii : ∀ n < 128, (Char.ofNat n).toLower.toUpper = (Char.ofNat n).toUpper := by decide
    have hc := hascii c.toNat h
    rwa [Char.ofNat_toNat] at hc
  · have hlower : c.toLower = c := by
      refine dif_neg fun hc => h ?_
      exact Nat.lt_of_le_of_lt (UInt32.le_iff_toNat_le.mp hc.2) (by decide)
    rw [hlower]

/-- Texts that agree up to case agree in upper case. -/
theorem toAsciiUppercase_of_eqIgnoreAsciiCase {s t : Text} (h : eqIgnoreAsciiCase s t = true) :
    toAsciiUppercase s = toAsciiUppercase t := by
  have hupper (u : Text) : toAsciiUppercase (toAsciiLowercase u) = toAsciiUppercase u := by
    rw [toAsciiUppercase, toAsciiLowercase, List.map_map]
    exact List.map_congr_left fun c _ => toUpper_toLower c
  rw [← hupper s, beq_iff_eq.mp h, hupper t]

theorem toLower_toUpper (c : Char) : c.toUpper.toLower = c.toLower := by
  by_cases h : c.toNat < 128
  · have hascii : ∀ n < 128, (Char.ofNat n).toUpper.toLower = (Char.ofNat n).toLower := by decide
    have hc := hascii c.toNat h
    rwa [Char.ofNat_toNat] at hc
  · have hupper : c.toUpper = c := by
      refine dif_neg fun hc => h ?_
      exact Nat.lt_of_le_of_lt (UInt32.le_iff_toNat_le.mp hc.2) (by decide)
    rw [hupper]

theorem eqIgnoreAsciiCase_iff {s t : Text} :
    eqIgnoreAsciiCase s t = true ↔ toAsciiUppercase s = toAsciiUppercase t := by
  refine ⟨toAsciiUppercase_of_eqIgnoreAsciiCase, fun h => ?_⟩
  have hlower (u : Text) : toAsciiLowercase (toAsciiUppercase u) = toAsciiLowercase u := by
    rw [toAsciiUppercase, toAsciiLowercase, List.map_map]
    exact List.map_congr_left fun c _ => toLower_toUpper c
  rw [eqIgnoreAsciiCase, beq_iff_eq, ← hlower s, h, hlower t]

theorem splitOnce_eq_some_iff {c : Char} {s u v : Text} :
    splitOnce c s = some (u, v) ↔ s = u ++ c :: v ∧ c ∉ u := by
  unfold splitOnce
  constructor
  · intro h
    split at h
    · cases h
    · rename_i d v' hdrop
      cases h
      have hd : d = c := by
        have hhead := List.head?_dropWhile_not (· != c) s
        rw [hdrop] at hhead
        simpa using hhead
      refine ⟨?_, fun hmem => ?_⟩
      · rw [← hd, ← hdrop, hd, List.takeWhile_append_dropWhile]
      · simpa using List.mem_takeWhile_imp hmem
  · rintro ⟨rfl, hc⟩
    have hu : ∀ d ∈ u, (d != c) = true := fun d hd => by
      rw [bne_iff_ne]
      rintro rfl
      exact hc hd
    rw [List.dropWhile_append_of_pos hu, List.takeWhile_append_of_pos hu,
      List.dropWhile_cons_of_neg (by simp), List.takeWhile_cons_of_neg (by simp), List.append_nil]

theorem splitOnce_eq_none_iff {c : Char} {s : Text} : splitOnce c s = none ↔ c ∉ s := by
  constructor
  · intro h hc
    obtain ⟨u, v, rfl, hu⟩ := List.eq_append_cons_of_mem hc
    rw [splitOnce_eq_some_iff.mpr ⟨rfl, hu⟩] at h
    cases h
  · intro hc
    cases h : splitOnce c s with
    | none => rfl
    | some p =>
      obtain ⟨rfl, -⟩ := splitOnce_eq_some_iff.mp (h : splitOnce c s = some (p.1, p.2))
      exact absurd (List.mem_append_right _ List.mem_cons_self) hc

theorem splitWhitespace_cons {c : Char} (hc : isWhitespace c = true) (s : Text) :
    splitWhitespace (c :: s) = splitWhitespace s := by
  have hsplit : ([] ++ c :: s).splitOnP isWhitespace = [] :: s.splitOnP isWhitespace :=
    List.splitOnP_append_cons_of_forall_mem (fun _ h => absurd h List.not_mem_nil) c hc s
  rw [List.nil_append] at hsplit
  rw [splitWhitespace, hsplit]
  rfl

theorem splitWhitespace_append_left {sp : Text} (hsp : ∀ c ∈ sp, isWhitespace c = true)
    (s : Text) : splitWhitespace (sp ++ s) = splitWhitespace s := by
  induction sp with
  | nil => rfl
  | cons c sp ih =>
    rw [List.cons_append, splitWhitespace_cons (hsp c List.mem_cons_self),
      ih fun d hd => hsp d (List.mem_cons_of_mem _ hd)]

/-- A word and what follows it. -/
theorem splitWhitespace_word {w t : Text} (hne : w ≠ []) (hw : ∀ c ∈ w, isWhitespace c = false)
    (ht : ∀ c ∈ t.head?, isWhitespace c = true) :
    splitWhitespace (w ++ t) = w :: splitWhitespace t := by
  have hkeep : (!w.isEmpty) = true := by simpa using hne
  cases t with
  | nil =>
    rw [List.append_nil, splitWhitespace, List.splitOnP_eq_singleton hw, List.filter_cons,
      if_pos hkeep]
    rfl
  | cons c t =>
    have hc := ht c rfl
    rw [splitWhitespace_cons hc, splitWhitespace,
      List.splitOnP_append_cons_of_forall_mem hw c hc t, List.filter_cons, if_pos hkeep]
    rfl

/-- **The first word of a text.**  It stands after white space, and more of it or
nothing follows. -/
theorem splitWhitespace_eq_cons {s w : Text} {ws : List Text} (h : splitWhitespace s = w :: ws) :
    ∃ sp t, s = sp ++ (w ++ t) ∧ (∀ c ∈ sp, isWhitespace c = true) ∧ w ≠ [] ∧
      (∀ c ∈ t.head?, isWhitespace c = true) ∧ splitWhitespace t = ws := by
  have hsplit := List.takeWhile_append_dropWhile (p := isWhitespace) (l := s)
  have hsp : ∀ c ∈ s.takeWhile isWhitespace, isWhitespace c = true :=
    fun c hc => List.mem_takeWhile_imp hc
  rw [← hsplit, splitWhitespace_append_left hsp] at h
  set s' := s.dropWhile isWhitespace with hs'
  have hhead : ∀ c ∈ s'.head?, isWhitespace c = false := fun c hc => by
    have hnot := List.head?_dropWhile_not isWhitespace s
    rw [← hs', hc] at hnot
    simpa using hnot
  have hword := List.takeWhile_append_dropWhile (p := (!isWhitespace ·)) (l := s')
  have hne : s'.takeWhile (!isWhitespace ·) ≠ [] := by
    cases hcons : s' with
    | nil => rw [hcons] at h; cases h
    | cons c t =>
      have hc : isWhitespace c = false := hhead c (by rw [hcons]; rfl)
      rw [List.takeWhile_cons_of_pos (by simp [hc])]
      exact List.cons_ne_nil _ _
  have hw : ∀ c ∈ s'.takeWhile (!isWhitespace ·), isWhitespace c = false := fun c hc => by
    simpa using List.mem_takeWhile_imp hc
  have ht : ∀ c ∈ (s'.dropWhile (!isWhitespace ·)).head?, isWhitespace c = true := fun c hc => by
    have hnot := List.head?_dropWhile_not (!isWhitespace ·) s'
    rw [hc] at hnot
    simpa using hnot
  rw [← hword, splitWhitespace_word hne hw ht] at h
  obtain ⟨rfl, rfl⟩ := List.cons.inj h
  exact ⟨_, _, by rw [hword, hsplit], hsp, hne, ht, rfl⟩

/-! ## Trimming -/

theorem trim_of_no_space {s : Text} (hs : ∀ c ∈ s, isWhitespace c = false) : trim s = s := by
  have hdrop : s.dropWhile isWhitespace = s := by
    cases s with
    | nil => rfl
    | cons c s => exact List.dropWhile_cons_of_neg (by rw [hs c List.mem_cons_self]; decide)
  rw [trim, hdrop, List.rdropWhile_eq_self_iff]
  intro hne
  rw [hs _ (List.getLast_mem hne)]
  decide

section Trim

variable {a b : Text} {c : Char}

theorem dropWhile_append_cons (hc : isWhitespace c = false) :
    (a ++ c :: b).dropWhile isWhitespace = a.dropWhile isWhitespace ++ c :: b := by
  rw [List.dropWhile_append, List.dropWhile_cons_of_neg (by rw [hc]; decide)]
  split_ifs with h
  · rw [List.isEmpty_iff.mp h, List.nil_append]
  · rfl

theorem rdropWhile_append_cons (hc : isWhitespace c = false) :
    (a ++ c :: b).rdropWhile isWhitespace = a ++ c :: b.rdropWhile isWhitespace := by
  have hreverse : (a ++ c :: b).reverse = b.reverse ++ c :: a.reverse := by simp
  rw [List.rdropWhile, hreverse, dropWhile_append_cons hc]
  simp [List.rdropWhile]

/-- A character that is no white space keeps what stands on its other side. -/
theorem trim_append_cons (hc : isWhitespace c = false) :
    trim (a ++ c :: b) = a.dropWhile isWhitespace ++ c :: b.rdropWhile isWhitespace := by
  rw [trim, dropWhile_append_cons hc, rdropWhile_append_cons hc]

theorem trim_eq_nil {s : Text} (hs : ∀ c ∈ s, isWhitespace c = true) : trim s = [] := by
  rw [trim, List.dropWhile_eq_nil_iff.mpr hs]
  rfl

theorem eq_append_cons_of_not_space {s : Text} (hs : ¬ ∀ c ∈ s, isWhitespace c = true) :
    ∃ a c b, s = a ++ c :: b ∧ isWhitespace c = false := by
  simp only [not_forall] at hs
  obtain ⟨c, hmem, hc⟩ := hs
  obtain ⟨a, b, rfl⟩ := List.append_of_mem hmem
  exact ⟨a, c, b, rfl, Bool.eq_false_iff.mpr hc⟩

theorem trim_dropWhile (s : Text) : trim (s.dropWhile isWhitespace) = trim s := by
  rw [trim, List.dropWhile_idempotent, trim]

theorem trim_rdropWhile (s : Text) : trim (s.rdropWhile isWhitespace) = trim s := by
  by_cases hs : ∀ c ∈ s, isWhitespace c = true
  · have hnil : s.rdropWhile isWhitespace = [] := List.rdropWhile_eq_nil_iff.mpr hs
    rw [hnil, trim_eq_nil hs]
    rfl
  · obtain ⟨a, c, b, rfl, hc⟩ := eq_append_cons_of_not_space hs
    rw [rdropWhile_append_cons hc, trim_append_cons hc, trim_append_cons hc,
      List.rdropWhile_idempotent]

/-- White space around a text goes, and the text stays when it has none at its ends. -/
theorem trim_spaced {sp s sp' : Text} (hsp : ∀ c ∈ sp, isWhitespace c = true)
    (hsp' : ∀ c ∈ sp', isWhitespace c = true) (hs : trim s = s) : trim (sp ++ s ++ sp') = s := by
  have hback : (s ++ sp').rdropWhile isWhitespace = s.rdropWhile isWhitespace := by
    rw [List.rdropWhile, List.reverse_append, List.dropWhile_append_of_pos, ← List.rdropWhile]
    intro c hc
    exact hsp' c (List.mem_reverse.mp hc)
  rw [← trim_dropWhile, List.append_assoc, List.dropWhile_append_of_pos hsp, trim_dropWhile,
    ← trim_rdropWhile, hback, trim_rdropWhile, hs]

/-- A text without white space at its ends does not begin with any. -/
theorem not_isWhitespace_of_trim_cons {s : Text} (h : trim (c :: s) = c :: s) :
    isWhitespace c = false := by
  rw [← Bool.not_eq_true]
  intro hc
  have hlen := congrArg List.length h
  rw [trim, List.dropWhile_cons_of_pos hc] at hlen
  have h₁ := (List.rdropWhile_prefix isWhitespace (l := s.dropWhile isWhitespace)).length_le
  have h₂ := (List.dropWhile_suffix isWhitespace (l := s)).length_le
  rw [List.length_cons] at hlen
  omega

end Trim

/-! ## Numbers -/

/-- `char::to_digit`. -/
def digit (radix : ℕ) (c : Char) : Option ℕ :=
  let value :=
    if c.isDigit then c.toNat - '0'.toNat
    else if c.isLower then c.toNat - 'a'.toNat + 10
    else if c.isUpper then c.toNat - 'A'.toNat + 10
    else radix
  if value < radix then some value else none

/-- One digit more, unless it is foreign or the value leaves `bits` bits. -/
def pushDigit (bits radix n : ℕ) (c : Char) : Option ℕ := do
  let value := n * radix + (← digit radix c)
  if value < 2 ^ bits then some value else none

def fromDigits (bits radix : ℕ) (s : Text) : Option ℕ :=
  if s.isEmpty then none else s.foldlM (pushDigit bits radix) 0

/-- `from_str_radix` of the unsigned integer type of this many bits. -/
def fromStrRadix (bits radix : ℕ) (s : Text) : Option ℕ :=
  match s with
  | '+' :: digits => fromDigits bits radix digits
  | digits => fromDigits bits radix digits

/-- A number with an optional hexadecimal mark `0x` or `0X`, else decimal. -/
def parsePrefixed (bits : ℕ) (s : Text) : Option ℕ :=
  match (stripPrefix "0x".toList s).orElse fun _ => stripPrefix "0X".toList s with
  | some hex => fromStrRadix bits 16 hex
  | none => fromStrRadix bits 10 s

/-- `format!("{}", n)`. -/
def decimal (n : ℕ) : Text := Nat.toDigits 10 n

/-- `format!("{:#x}", n)`. -/
def hexadecimal (n : ℕ) : Text := "0x".toList ++ Nat.toDigits 16 n

theorem pushDigit_lt {bits radix n m : ℕ} {c : Char} (h : pushDigit bits radix n c = some m) :
    m < 2 ^ bits := by
  unfold pushDigit at h
  cases hd : digit radix c with
  | none => rw [hd] at h; simp at h
  | some d =>
    rw [hd] at h
    simp only [Option.bind_eq_bind, Option.bind_some] at h
    split at h
    · cases h
      assumption
    · cases h

theorem foldlM_pushDigit_lt {bits radix n m : ℕ} {s : Text} (hn : n < 2 ^ bits)
    (h : s.foldlM (pushDigit bits radix) n = some m) : m < 2 ^ bits := by
  induction s generalizing n with
  | nil => cases h; exact hn
  | cons c s ih =>
    rw [List.foldlM_cons] at h
    cases hc : pushDigit bits radix n c with
    | none => rw [hc] at h; cases h
    | some k => exact ih (pushDigit_lt hc) (by rw [hc] at h; exact h)

theorem fromDigits_lt {bits radix n : ℕ} {s : Text} (h : fromDigits bits radix s = some n) :
    n < 2 ^ bits := by
  unfold fromDigits at h
  split at h
  · cases h
  · exact foldlM_pushDigit_lt (Nat.two_pow_pos bits) h

theorem isAlphanum_of_digit {radix d : ℕ} {c : Char} (h : digit radix c = some d) :
    c.isAlphanum = true := by
  by_contra hnot
  simp only [Char.isAlphanum, Char.isAlpha, Bool.or_eq_true, not_or] at hnot
  unfold digit at h
  simp only [hnot.1.1, hnot.1.2, hnot.2, if_false, Bool.false_eq_true, Nat.lt_irrefl] at h
  cases h

theorem isAlphanum_of_foldlM_pushDigit {bits radix n m : ℕ} {s : Text}
    (h : s.foldlM (pushDigit bits radix) n = some m) : ∀ c ∈ s, c.isAlphanum = true := by
  induction s generalizing n with
  | nil => exact fun c hc => absurd hc List.not_mem_nil
  | cons d s ih =>
    rw [List.foldlM_cons] at h
    cases hd : pushDigit bits radix n d with
    | none => rw [hd] at h; cases h
    | some k =>
      rw [hd] at h
      intro c hc
      rcases List.mem_cons.mp hc with rfl | hc
      · cases hdigit : digit radix c with
        | none => rw [pushDigit, hdigit] at hd; cases hd
        | some _ => exact isAlphanum_of_digit hdigit
      · exact ih h c hc

/-- Only digits are read as a number. -/
theorem isAlphanum_of_fromDigits {bits radix n : ℕ} {s : Text}
    (h : fromDigits bits radix s = some n) : s ≠ [] ∧ ∀ c ∈ s, c.isAlphanum = true := by
  unfold fromDigits at h
  split at h
  · cases h
  · rename_i hne
    exact ⟨fun hnil => hne (by rw [hnil]; rfl), isAlphanum_of_foldlM_pushDigit h⟩

/-- A number that is read fits its type. -/
theorem fromStrRadix_lt {bits radix n : ℕ} {s : Text} (h : fromStrRadix bits radix s = some n) :
    n < 2 ^ bits := by
  unfold fromStrRadix at h
  split at h <;> exact fromDigits_lt h

theorem parsePrefixed_lt {bits n : ℕ} {s : Text} (h : parsePrefixed bits s = some n) :
    n < 2 ^ bits := by
  unfold parsePrefixed at h
  split at h <;> exact fromStrRadix_lt h

example : parsePrefixed 16 "0xFFff".toList = some 65535 := by decide
example : parsePrefixed 16 "+65536".toList = none := by decide
example : lines "a\r\n\nb\r".toList = ["a".toList, [], "b\r".toList] := by decide

end Lib
end WardenSdk
