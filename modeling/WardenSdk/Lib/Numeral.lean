import WardenSdk.Lib.Text

/-!
# Numerals

A numeral is written in decimal, or in hexadecimal after `0x` or `0X`, and denotes a
number of a fixed width.  Reading it as a prefixed number gives that number back
(`parsePrefixed_text`).

* `digitsValue`: the number that a text of digits denotes.
* `Numeral`: a numeral with its digits in order and its value in range.
-/

namespace WardenSdk
namespace Lib

/-! ## Digits -/

/-- The number that a text of digits denotes, after the number read so far. -/
def digitsFrom (radix n : ℕ) (s : Text) : ℕ :=
  s.foldl (fun n c => n * radix + (digit radix c).getD 0) n

def digitsValue (radix : ℕ) (s : Text) : ℕ := digitsFrom radix 0 s

theorem le_digitsFrom {radix : ℕ} (hradix : 0 < radix) (n : ℕ) (s : Text) :
    n ≤ digitsFrom radix n s := by
  induction s generalizing n with
  | nil => exact Nat.le_refl n
  | cons c s ih =>
    calc n ≤ n * radix := Nat.le_mul_of_pos_right n hradix
      _ ≤ n * radix + (digit radix c).getD 0 := Nat.le_add_right _ _
      _ ≤ digitsFrom radix n (c :: s) := ih _

/-- Digits are read as long as the number they denote fits. -/
theorem foldlM_pushDigit {bits radix n : ℕ} (hradix : 0 < radix) {s : Text}
    (hs : ∀ c ∈ s, (digit radix c).isSome = true) (hlt : digitsFrom radix n s < 2 ^ bits) :
    s.foldlM (pushDigit bits radix) n = some (digitsFrom radix n s) := by
  induction s generalizing n with
  | nil => rfl
  | cons c s ih =>
    obtain ⟨d, hd⟩ := Option.isSome_iff_exists.mp (hs c List.mem_cons_self)
    have hnext : digitsFrom radix n (c :: s) = digitsFrom radix (n * radix + d) s := by
      rw [digitsFrom, List.foldl_cons, hd]
      rfl
    rw [hnext] at hlt ⊢
    have hfits : n * radix + d < 2 ^ bits := Nat.lt_of_le_of_lt (le_digitsFrom hradix _ s) hlt
    have hpush : pushDigit bits radix n c = some (n * radix + d) := by
      rw [pushDigit, hd]
      exact if_pos hfits
    rw [List.foldlM_cons, hpush]
    exact ih (fun d hd => hs d (List.mem_cons_of_mem _ hd)) hlt

theorem fromDigits_of_digits {bits radix : ℕ} (hradix : 0 < radix) {s : Text} (hne : s ≠ [])
    (hs : ∀ c ∈ s, (digit radix c).isSome = true) (hlt : digitsValue radix s < 2 ^ bits) :
    fromDigits bits radix s = some (digitsValue radix s) := by
  rw [fromDigits, if_neg (by simpa using hne)]
  exact foldlM_pushDigit hradix hs hlt

theorem isAlphanum_of_isSome_digit {radix : ℕ} {c : Char} (h : (digit radix c).isSome = true) :
    c.isAlphanum = true := by
  obtain ⟨d, hd⟩ := Option.isSome_iff_exists.mp h
  exact isAlphanum_of_digit hd

/-! ## Numerals -/

inductive Spelling where
  | decimal
  | hex
  | upperHex
  deriving DecidableEq

def Spelling.radix : Spelling → ℕ
  | .decimal => 10
  | .hex | .upperHex => 16

def Spelling.mark : Spelling → Text
  | .decimal => []
  | .hex => "0x".toList
  | .upperHex => "0X".toList

theorem Spelling.isAlphanum_mark (spelling : Spelling) :
    ∀ c ∈ spelling.mark, c.isAlphanum = true := by
  have hall : spelling.mark.all Char.isAlphanum = true := by cases spelling <;> decide
  exact List.all_eq_true.mp hall

/-- A numeral of a number of this many bits. -/
structure Numeral (bits : ℕ) where
  spelling : Spelling
  digits : Text
  digits_ne_nil : digits ≠ []
  isSome_digit : ∀ c ∈ digits, (digit spelling.radix c).isSome = true
  value_lt : digitsValue spelling.radix digits < 2 ^ bits

namespace Numeral

variable {bits : ℕ}

def text (n : Numeral bits) : Text := n.spelling.mark ++ n.digits

def value (n : Numeral bits) : ℕ := digitsValue n.spelling.radix n.digits

theorem text_ne_nil (n : Numeral bits) : n.text ≠ [] :=
  fun h => n.digits_ne_nil (List.append_eq_nil_iff.mp h).2

theorem isAlphanum_text (n : Numeral bits) : ∀ c ∈ n.text, c.isAlphanum = true := by
  intro c hc
  rcases List.mem_append.mp hc with hmark | hdigit
  · exact n.spelling.isAlphanum_mark c hmark
  · exact isAlphanum_of_isSome_digit (n.isSome_digit c hdigit)

theorem not_isWhitespace_text (n : Numeral bits) : ∀ c ∈ n.text, isWhitespace c = false :=
  fun c hc => isWhitespace_of_isAlphanum (n.isAlphanum_text c hc)

/-- Digits do not begin with a sign. -/
theorem fromStrRadix_digits (n : Numeral bits) :
    fromStrRadix bits n.spelling.radix n.digits = some n.value := by
  have hradix : 0 < n.spelling.radix := by cases n.spelling <;> decide
  unfold fromStrRadix
  split
  · rename_i digits hdigits
    have hplus := isAlphanum_of_isSome_digit
      (n.isSome_digit '+' (by rw [hdigits]; exact List.mem_cons_self))
    exact absurd hplus (by decide)
  · exact fromDigits_of_digits hradix n.digits_ne_nil n.isSome_digit n.value_lt

/-- Decimal digits carry no hexadecimal mark. -/
theorem stripPrefix_decimal {s : Text} (hs : ∀ c ∈ s, (digit 10 c).isSome = true) (x : Char)
    (hx : digit 10 x = none) : stripPrefix ['0', x] s = none := by
  refine if_neg fun h => ?_
  obtain ⟨t, rfl⟩ := List.isPrefixOf_iff_prefix.mp h
  have hmem := hs x (by simp)
  rw [hx] at hmem
  cases hmem

/-- **A numeral is read back.** -/
theorem parsePrefixed_text (n : Numeral bits) : parsePrefixed bits n.text = some n.value := by
  have hread := n.fromStrRadix_digits
  unfold parsePrefixed text
  cases hspelling : n.spelling with
  | decimal =>
    have hdigits := n.isSome_digit
    rw [hspelling] at hread hdigits
    rw [show Spelling.decimal.mark ++ n.digits = n.digits from rfl,
      show "0x".toList = ['0', 'x'] from rfl, show "0X".toList = ['0', 'X'] from rfl,
      stripPrefix_decimal hdigits 'x' rfl, stripPrefix_decimal hdigits 'X' rfl]
    exact hread
  | hex =>
    rw [hspelling] at hread
    exact hread
  | upperHex =>
    rw [hspelling] at hread
    exact hread

end Numeral

end Lib
end WardenSdk
