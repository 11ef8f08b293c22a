/-!
A place in a YAML text: what is left to read, and the number of characters, lines and columns
already passed. Behind the end every character reads as the zero character, which no text holds.
-/
namespace BindingRelease.Yaml

/-- Why a text gives no value: it breaks the rules of YAML, or a scalar has an impossible value. -/
inductive YamlError where
  | notYaml
  | badValue
  | badType
  | badIndex
  | badAttribute
  | unknownWord (word : String)
  deriving DecidableEq, Repr

structure Cursor where
  rest : List Char
  index : Nat
  line : Nat
  column : Nat

namespace Cursor

def start (text : List Char) : Cursor := ⟨text, 0, 0, 0⟩

def peek (c : Cursor) (n : Nat) : Char := c.rest[n]?.getD '\x00'

def head (c : Cursor) : Char := c.rest.head?.getD '\x00'

end Cursor

def isBreak (c : Char) : Bool :=
  c == '\n' || c == '\r' || c == '\x85' || c == '\u2028' || c == '\u2029'

def isBreakOrEnd (c : Char) : Bool := c == '\x00' || isBreak c

def isSpaceOrEnd (c : Char) : Bool := c == ' ' || isBreakOrEnd c

def isWhiteOrEnd (c : Char) : Bool := c == '\t' || isSpaceOrEnd c

def isWordChar (c : Char) : Bool :=
  ('0' ≤ c && c ≤ '9') || ('A' ≤ c && c ≤ 'Z') || ('a' ≤ c && c ≤ 'z') || c == '-' || c == '_'

namespace Cursor

/-- Passes one character. A carriage return ends a line unless a line feed follows it; a
byte-order mark takes no column. -/
def step (c : Cursor) : Cursor :=
  match c.rest with
  | [] => c
  | x :: rest =>
    if (isBreak x && x != '\r') || (x == '\r' && rest.head? != some '\n') then
      ⟨rest, c.index + 1, c.line + 1, 0⟩
    else ⟨rest, c.index + 1, c.line, if x == '\uFEFF' then c.column else c.column + 1⟩

def advance : Nat → Cursor → Cursor
  | 0, c => c
  | n + 1, c => advance n c.step

def span (p : Char → Bool) (c : Cursor) : List Char × Cursor :=
  let xs := c.rest.takeWhile p
  (xs, c.advance xs.length)

/-- Passes a line end and returns how it is read: all but the two separators become a line feed. -/
def lineBreak (c : Cursor) : Option (Char × Cursor) :=
  match c.rest with
  | '\r' :: '\n' :: _ => some ('\n', c.advance 2)
  | x :: _ =>
    if x == '\n' || x == '\r' || x == '\x85' then some ('\n', c.step)
    else if x == '\u2028' || x == '\u2029' then some (x, c.step)
    else none
  | [] => none

def atMarker (c : Cursor) : Bool :=
  (c.rest.take 3 == ['-', '-', '-'] || c.rest.take 3 == ['.', '.', '.']) && isWhiteOrEnd (c.peek 3)

def skipComment (c : Cursor) : Cursor :=
  let c := (c.span (· == ' ')).2
  if c.head == '#' then (c.span fun x => !isBreak x).2 else c

def endLine (c : Cursor) : Except YamlError Cursor :=
  let c := c.skipComment
  if isBreakOrEnd c.head then .ok ((c.lineBreak.map (·.2)).getD c) else .error .notYaml

end Cursor
end BindingRelease.Yaml
