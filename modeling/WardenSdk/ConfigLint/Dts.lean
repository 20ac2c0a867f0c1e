import WardenSdk.ConfigLint.DeviceTree
import WardenSdk.Lib.Run

/-!
# Devicetree source

What a devicetree source says, read character by character as its lexer does.  The
reader knows comments, strings, character literals and path references, the words
of the statement it is in, and the names of the nodes that are open around it.  It
is no part of the gate; it is the meaning that the scanner of `DeviceTree` is held
against.

* A statement ends at a semicolon, a node opens at a brace and is named by the word
  before it, and a property takes its value at an equals sign, where its name is the
  only word of the statement.  Labels and `/include/` do not count as words.
* `WellFormed`: the text is read to its end without a misplaced brace, colon or
  equals sign, and every node is closed.
* `genuinePairs`: the first two cells of each property named `reg` that belongs to
  a node inside a `reserved-memory` node.  Integer suffixes and arithmetic in cells
  are not evaluated.

The pair is read off the source text as it stands, the first two cells of the value.
That is an address and a size where both take one cell, which is what the gate is
written for, and where no `/delete-node/`, no `/delete-property/` and no second
definition of a node takes back or overrides what has been said before.
-/

namespace WardenSdk
namespace ConfigLint

open Lib

/-! ## The reader -/

inductive Mode where
  | code
  /-- After a slash, which may begin a comment. -/
  | slash
  /-- After an ampersand, which may begin a path reference. -/
  | amp
  | path
  | lineComment
  | blockComment
  /-- After an asterisk in a block comment. -/
  | star
  | string
  | stringEscape
  | charLit
  | charEscape
  | bad
  deriving DecidableEq

structure Reader where
  mode : Mode
  /-- The names of the open nodes, innermost first. -/
  stack : List Text
  /-- The words of the statement so far, the latest first, without labels. -/
  words : List Text
  /-- The next name character begins a new word. -/
  gap : Bool
  inValue : Bool
  deriving DecidableEq

/-- Between two statements. -/
def Reader.resting (stack : List Text) : Reader := ⟨.code, stack, [], true, false⟩

/-- The characters of property and node names. -/
def isNameChar (c : Char) : Bool := c.isAlphanum || c ∈ ",._+*#?@-".toList

def Reader.push (σ : Reader) (c : Char) : Reader where
  mode := σ.mode
  stack := σ.stack
  words :=
    match σ.gap, σ.words with
    | false, w :: ws => (w ++ [c]) :: ws
    | _, ws => [c] :: ws
  gap := false
  inValue := σ.inValue

def Reader.toMode (σ : Reader) (mode : Mode) : Reader := { σ with mode, gap := true }

def Reader.openNode (σ : Reader) : Reader :=
  match σ.inValue, σ.words with
  | false, w :: _ => .resting (w :: σ.stack)
  | _, _ => σ.toMode .bad

def Reader.closeNode (σ : Reader) : Reader :=
  match σ.inValue, σ.words, σ.stack with
  | false, [], _ :: stack => .resting stack
  | _, _, _ => σ.toMode .bad

def Reader.label (σ : Reader) : Reader :=
  match σ.inValue, σ.words with
  | true, _ => σ.toMode .code
  | false, _ :: ws => { σ.toMode .code with words := ws }
  | false, [] => σ.toMode .bad

def Reader.equals (σ : Reader) : Reader :=
  match σ.inValue, σ.words with
  | true, _ => σ.toMode .code
  | false, [w] => if w.all isNameChar then { σ.toMode .code with inValue := true } else σ.toMode .bad
  | false, _ => σ.toMode .bad

/-- A string opens; the `/include/` before a file name is no part of the statement. -/
def Reader.quote (σ : Reader) : Reader :=
  match σ.words with
  | w :: ws =>
    if w = "/include/".toList then { σ.toMode .string with words := ws } else σ.toMode .string
  | [] => σ.toMode .string

/-- One character outside comments and literals. -/
def Reader.codeStep (σ : Reader) (c : Char) : Reader :=
  if c = '{' then σ.openNode
  else if c = '}' then σ.closeNode
  else if c = ';' then .resting σ.stack
  else if c = ':' then σ.label
  else if c = '=' then σ.equals
  else if c = '/' then { σ with mode := .slash }
  else if c = '&' then { σ with mode := .amp }
  else if c = '"' then σ.quote
  else if c = '\'' then σ.toMode .charLit
  else if isNameChar c then { σ.push c with mode := .code }
  else σ.toMode .code

def Reader.step (σ : Reader) (c : Char) : Reader :=
  match σ.mode with
  | .code => σ.codeStep c
  | .slash =>
    if c = '*' then σ.toMode .blockComment
    else if c = '/' then σ.toMode .lineComment
    else (σ.push '/').codeStep c
  | .amp =>
    if c = '{' then { (σ.push '&').push c with mode := .path } else (σ.push '&').codeStep c
  | .path =>
    if c = '{' then σ.toMode .bad
    else if c = '}' then (σ.push c).toMode .code
    else σ.push c
  | .lineComment => if c = '\n' then σ.toMode .code else σ
  | .blockComment => if c = '*' then σ.toMode .star else σ
  | .star =>
    if c = '/' then σ.toMode .code else if c = '*' then σ else σ.toMode .blockComment
  | .string =>
    if c = '"' then σ.toMode .code else if c = '\\' then σ.toMode .stringEscape else σ
  | .stringEscape => σ.toMode .string
  | .charLit =>
    if c = '\'' then σ.toMode .code else if c = '\\' then σ.toMode .charEscape else σ
  | .charEscape => σ.toMode .charLit
  | .bad => σ

def read (s : Text) : Reader := run Reader.step (.resting []) s

/-- Read to the end, with every node closed; the last line may be a comment. -/
def WellFormed (dt : Text) : Prop :=
  ((read dt).mode = .code ∨ (read dt).mode = .lineComment) ∧ (read dt).stack = [] ∧
    (read dt).words = [] ∧ (read dt).inValue = false

instance (dt : Text) : Decidable (WellFormed dt) :=
  inferInstanceAs (Decidable ((_ ∨ _) ∧ _ ∧ _ ∧ _))

/-! ## Nodes and properties -/

/-- The name of a `reserved-memory` node, or a reference to one by its path. -/
def isReservedName (name : Text) : Bool :=
  name == reservedMemory || "/reserved-memory\x7d".toList.isSuffixOf name

def Reader.inReserved (σ : Reader) : Bool := σ.stack.any isReservedName

/-- In a node that lies inside reserved memory. -/
def Reader.inReservedChild (σ : Reader) : Bool := σ.stack.tail.any isReservedName

/-- About to read the equals sign of a property named exactly `reg`. -/
def Reader.AtReg (σ : Reader) : Prop :=
  σ.mode = .code ∧ σ.inValue = false ∧ σ.words = ["reg".toList]

instance (σ : Reader) : Decidable σ.AtReg := inferInstanceAs (Decidable (_ ∧ _ ∧ _))

inductive Comment where
  | none
  | line
  | block
  deriving DecidableEq

/-- Skip the accepted characters and the comments between them. -/
def skip (accept : Char → Bool) : Comment → Text → Text
  | _, [] => []
  | .none, '/' :: '*' :: s => skip accept .block s
  | .none, '/' :: '/' :: s => skip accept .line s
  | .none, c :: s => if accept c then skip accept .none s else c :: s
  | .line, c :: s => skip accept (if c = '\n' then .none else .line) s
  | .block, '*' :: '/' :: s => skip accept .none s
  | .block, _ :: s => skip accept .block s

/-- White space, labels and the `/bits/` directive, which may stand before the cells
of a value. -/
def isHeadChar (c : Char) : Bool :=
  isWhitespace c || c.isAlphanum || c == '_' || c == ':' || c == '/'

/-- An integer literal: hexadecimal, octal after a leading zero, or decimal. -/
def literal : Text → Option ℕ
  | '0' :: 'x' :: digits => fromDigits 64 16 digits
  | '0' :: 'X' :: digits => fromDigits 64 16 digits
  | '0' :: d :: digits => fromDigits 64 8 (d :: digits)
  | digits => fromDigits 64 10 digits

/-- The literal in front, and the text after it. -/
def cell (s : Text) : Option (ℕ × Text) :=
  (literal (s.takeWhile Char.isAlphanum)).map fun n => (n, s.dropWhile Char.isAlphanum)

/-- The first two cells of a value. -/
def firstPair (s : Text) : Option (ℕ × ℕ) :=
  match skip isHeadChar .none s with
  | '<' :: s => do
    let (addr, s) ← cell (skip isWhitespace .none s)
    let (size, _) ← cell (skip isWhitespace .none s)
    return (addr, size)
  | _ => none

def genuineFrom (σ : Reader) : Text → List (ℕ × ℕ)
  | [] => []
  | c :: s =>
    (if c = '=' ∧ σ.AtReg ∧ σ.inReservedChild = true then (firstPair s).toList else []) ++
      genuineFrom (σ.step c) s

def genuinePairs (dt : Text) : List (ℕ × ℕ) := genuineFrom (.resting []) dt

/-- The scanner takes no range that the source does not reserve. -/
def NeverInvents (dt : Text) : Prop :=
  ∀ r ∈ parseReservedRanges dt, (r.start.toNat, r.size.toNat) ∈ genuinePairs dt

end ConfigLint
end WardenSdk
