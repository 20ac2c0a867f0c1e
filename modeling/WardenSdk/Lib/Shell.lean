import WardenSdk.Lib.Numeral

/-!
# The shell

The parameter expansions and the arithmetic of `bash` that the modelled scripts use,
and the ways in which a script under `set -e` ends early.

* The expansions remove from one end of a text up to a character, up to its first or
  its last occurrence; a text without the character is left as it is.
* Word splitting at a separator that is no white space keeps empty fields, but none
  after a separator at the end.
* Arithmetic is on 64-bit signed integers, without a check for overflow; a constant
  with a leading zero is octal.
-/

namespace WardenSdk
namespace Lib

/-- `${s#*c}`. -/
def afterFirst (c : Char) (s : Text) : Text := (splitOnce c s).elim s Prod.snd

/-- `${s##*c}`. -/
def afterLast (c : Char) (s : Text) : Text := s.rtakeWhile (· != c)

/-- `${s%%c*}`. -/
def beforeFirst (c : Char) (s : Text) : Text := s.takeWhile (· != c)

/-- `${s%c*}`. -/
def beforeLast (c : Char) (s : Text) : Text := (splitOnce c s.reverse).elim s (·.2.reverse)

/-- `${s%c}`. -/
def withoutFinal (c : Char) (s : Text) : Text := (stripSuffix [c] s).getD s

/-- The words of an unquoted expansion, where `IFS` is this separator. -/
def fields (sep : Char) (s : Text) : List Text :=
  let parts := s.splitOn sep
  if parts.getLast? = some [] then parts.dropLast else parts

/-- The result of an operation on 64-bit signed integers. -/
def wrap64 (i : ℤ) : ℤ := i.bmod (2 ^ 64)

/-- The value of a text of digits in an arithmetic expansion. -/
def arithmeticConstant (s : Text) : Option ℤ :=
  match s with
  | '0' :: d :: digits =>
    if (d :: digits).all fun c => (digit 8 c).isSome then
      some (wrap64 (digitsValue 8 (d :: digits)))
    else none
  | digits => some (wrap64 (digitsValue 10 digits))

/-- How a script ends early. -/
inductive Abort where
  /-- `echo` to standard error and `exit 1`. -/
  | fatal (msg : Text)
  /-- An arithmetic expansion that is no number. -/
  | arithmetic
  /-- A command that failed. -/
  | command (name : Text)
  deriving DecidableEq

abbrev Script (α : Type*) := Except Abort α

/-- `format` of an integer. -/
def integerText (i : ℤ) : Text := (toString i).toList

example : fields ',' "a,,b,".toList = ["a".toList, [], "b".toList] := by decide
example : arithmeticConstant "010".toList = some 8 := by decide

end Lib
end WardenSdk
