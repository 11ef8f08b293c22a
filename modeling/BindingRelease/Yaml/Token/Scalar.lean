import BindingRelease.Text.Digit
import BindingRelease.Yaml.Cursor
/-!
The four written forms of a scalar: plain, in single quotes, in double quotes, and as an indented
block. Line ends inside the first three fold into spaces; a block keeps its lines or folds them.
-/
namespace BindingRelease.Yaml
open Text

def quotedBreaks : Nat → List Char → Cursor → Except YamlError (List Char × Cursor)
  | 0, _, _ => .error .notYaml
  | fuel + 1, seen, c =>
    if c.atMarker then .error .notYaml
    else
      let c := (c.span fun x => x == ' ' || x == '\t').2
      match c.lineBreak with
      | some (x, c) => quotedBreaks fuel (seen ++ [x]) c
      | none => .ok (seen, c)

/-- The text that a line end and the blank lines behind it fold into. -/
def folded (lineEnd : Char) (breaks : List Char) : List Char :=
  (if lineEnd != '\n' then [lineEnd] else if breaks.isEmpty then [' '] else []) ++ breaks

def quotedSpaces (c : Cursor) : Except YamlError (List Char × Cursor) :=
  let (white, c) := c.span fun x => x == ' ' || x == '\t'
  if c.head == '\x00' then .error .notYaml
  else match c.lineBreak with
    | none => .ok (white, c)
    | some (lineEnd, c) => do
      let (breaks, c) ← quotedBreaks (c.rest.length + 1) [] c
      return (folded lineEnd breaks, c)

def simpleEscape? : Char → Option Char
  | '0' => some '\x00'
  | 'a' => some '\x07'
  | 'b' => some '\x08'
  | 't' => some '\t'
  | '\t' => some '\t'
  | 'n' => some '\n'
  | 'v' => some '\x0b'
  | 'f' => some '\x0c'
  | 'r' => some '\r'
  | 'e' => some '\x1b'
  | ' ' => some ' '
  | '"' => some '"'
  | '\\' => some '\\'
  | '/' => some '/'
  | 'N' => some '\x85'
  | '_' => some '\xA0'
  | 'L' => some '\u2028'
  | 'P' => some '\u2029'
  | _ => none

def codeLength? : Char → Option Nat
  | 'x' => some 2
  | 'u' => some 4
  | 'U' => some 8
  | _ => none

def escape (c : Cursor) : Except YamlError (List Char × Cursor) :=
  match simpleEscape? c.head with
  | some x => .ok ([x], c.step)
  | none =>
    match codeLength? c.head with
    | some n =>
      let c := c.step
      let ds := c.rest.take n
      if ds.length < n || !ds.all (fun d => (hexValue? d).isSome) then .error .notYaml
      else
        let code := ds.foldl (fun m d => 16 * m + (hexValue? d).getD 0) 0
        if code > 0x10FFFF then .error .badValue
        else .ok ([Char.ofNat code], c.advance n)
    | none =>
      match c.lineBreak with
      | some (_, c) => quotedBreaks (c.rest.length + 1) [] c
      | none => .error .notYaml

def quotedFrom (double : Bool) : Nat → List Char → Cursor → Except YamlError (List Char × Cursor)
  | 0, _, _ => .error .notYaml
  | fuel + 1, seen, c =>
    let (letters, c) := c.span fun x =>
      !(x == '\'' || x == '"' || x == '\\' || x == ' ' || x == '\t' || isBreak x)
    let seen := seen ++ letters
    let x := c.head
    if !double && x == '\'' && c.peek 1 == '\'' then
      quotedFrom double fuel (seen ++ ['\'']) (c.advance 2)
    else if (double && x == '\'') || (!double && (x == '"' || x == '\\')) then
      quotedFrom double fuel (seen ++ [x]) c.step
    else if double && x == '\\' then do
      let (text, c) ← escape c.step
      quotedFrom double fuel (seen ++ text) c
    else if x == '\'' || x == '"' then .ok (seen, c.step)
    else do
      let (text, c) ← quotedSpaces c
      quotedFrom double fuel (seen ++ text) c

def quoted (c : Cursor) : Except YamlError (String × Cursor) := do
  let (text, c) ← quotedFrom (c.head == '"') (c.rest.length + 1) [] c.step
  return (String.ofList text, c)

def plainBreaks : Nat → List Char → Cursor → Option (List Char) × Cursor
  | 0, seen, c => (some seen, c)
  | fuel + 1, seen, c =>
    if c.head == ' ' then plainBreaks fuel seen c.step
    else match c.lineBreak with
      | some (x, c) => if c.atMarker then (none, c) else plainBreaks fuel (seen ++ [x]) c
      | none => (some seen, c)

def plainSpaces (c : Cursor) : List Char × Bool × Cursor :=
  let (white, c) := c.span (· == ' ')
  match c.lineBreak with
  | none => (white, false, c)
  | some (lineEnd, c) =>
    if c.atMarker then ([], true, c)
    else match plainBreaks (c.rest.length + 1) [] c with
      | (none, c) => ([], true, c)
      | (some breaks, c) => (folded lineEnd breaks, true, c)

/-- The length of a run of plain characters: up to white space, a colon before white space and, in
flow collections, an indicator. -/
def plainRun (inFlow : Bool) : List Char → Nat
  | [] => 0
  | x :: rest =>
    let next := rest.head?.getD '\x00'
    if isWhiteOrEnd x then 0
    else if x == ':' && (isWhiteOrEnd next || (inFlow && [',', '[', ']', '{', '}'].contains next))
    then 0
    else if inFlow && [',', '?', '[', ']', '{', '}'].contains x then 0
    else plainRun inFlow rest + 1

structure PlainScalar where
  text : List Char
  lineEnded : Bool
  cursor : Cursor

def plainFrom (inFlow : Bool) (indent : Int) :
    Nat → List Char → List Char → Bool → Cursor → PlainScalar
  | 0, text, _, ended, c => ⟨text, ended, c⟩
  | fuel + 1, text, spaces, ended, c =>
    let n := if c.head == '#' then 0 else plainRun inFlow c.rest
    if n = 0 then ⟨text, ended, c⟩
    else
      let text := text ++ spaces ++ c.rest.take n
      let (spaces, ended, c) := plainSpaces (c.advance n)
      if spaces.isEmpty || c.head == '#' || (!inFlow && (c.column : Int) < indent) then
        ⟨text, ended, c⟩
      else plainFrom inFlow indent fuel text spaces ended c

def plain (inFlow : Bool) (indent : Int) (c : Cursor) : PlainScalar :=
  plainFrom inFlow indent (c.rest.length + 1) [] [] false c

/-- What a block does with its last line end: `strip` drops it, `clip` keeps one, `keep` keeps
it with the blank lines behind it. -/
inductive Chomping where
  | strip
  | clip
  | keep
  deriving DecidableEq, Repr

def chomping? : Char → Option Chomping
  | '+' => some .keep
  | '-' => some .strip
  | _ => none

def blockIndicators (c : Cursor) : Except YamlError ((Chomping × Option Nat) × Cursor) := do
  let digit? (c : Cursor) : Except YamlError (Option Nat × Cursor) :=
    if isAsciiDigit c.head then
      if c.head == '0' then .error .notYaml else .ok (some (asciiDigitValue c.head), c.step)
    else .ok (none, c)
  let (found, c) ← match chomping? c.head with
    | some ch => do
      let (n, c) ← digit? c.step
      pure ((ch, n), c)
    | none => do
      let (n, c) ← digit? c
      match n, chomping? c.head with
      | some n, some ch => pure ((ch, some n), c.step)
      | n, _ => pure ((Chomping.clip, n), c)
  if isSpaceOrEnd c.head then .ok (found, c) else .error .notYaml

def blockIndentation : Nat → List Char → Nat → Cursor → List Char × Nat × Cursor
  | 0, seen, widest, c => (seen, widest, c)
  | fuel + 1, seen, widest, c =>
    if c.head == ' ' then
      let c := c.step
      blockIndentation fuel seen (max widest c.column) c
    else match c.lineBreak with
      | some (x, c) => blockIndentation fuel (seen ++ [x]) widest c
      | none => (seen, widest, c)

def skipIndent (indent : Nat) (c : Cursor) : Cursor :=
  c.advance ((c.rest.take (indent - c.column)).takeWhile (· == ' ')).length

def blockBreaks (indent : Nat) : Nat → List Char → Cursor → List Char × Cursor
  | 0, seen, c => (seen, c)
  | fuel + 1, seen, c =>
    let c := skipIndent indent c
    match c.lineBreak with
    | some (x, c) => blockBreaks indent fuel (seen ++ [x]) c
    | none => (seen, c)

def blockLines (fold : Bool) (indent : Nat) :
    Nat → List Char → List Char → Cursor → List Char × List Char × List Char × Cursor
  | 0, text, breaks, c => (text, [], breaks, c)
  | fuel + 1, text, breaks, c =>
    let opensBlank := c.head == ' ' || c.head == '\t'
    let (line, c) := c.span fun x => !isBreak x
    let text := text ++ breaks ++ line
    let (lineEnd, c) := match c.lineBreak with
      | some (x, c) => ([x], c)
      | none => ([], c)
    let (breaks, c) := blockBreaks indent (c.rest.length + 1) [] c
    if c.column == indent && c.head != '\x00' then
      let joint :=
        if fold && lineEnd == ['\n'] && !opensBlank && !(c.head == ' ' || c.head == '\t') then
          (if breaks.isEmpty then [' '] else [])
        else lineEnd
      blockLines fold indent fuel (text ++ joint) breaks c
    else (text, lineEnd, breaks, c)

def block (indent : Int) (c : Cursor) : Except YamlError (String × Cursor) := do
  let fold := c.head == '>'
  let ((chomping, increment), c) ← blockIndicators c.step
  let c ← c.endLine
  let least := (max (indent + 1) 1).toNat
  let fuel := c.rest.length + 1
  let (breaks, indent, c) := match increment with
    | none =>
      let (breaks, widest, c) := blockIndentation fuel [] 0 c
      (breaks, max least widest, c)
    | some n =>
      let (breaks, c) := blockBreaks (least + n - 1) fuel [] c
      (breaks, least + n - 1, c)
  let (text, lineEnd, breaks, c) :=
    if c.column == indent && c.head != '\x00' then blockLines fold indent fuel [] breaks c
    else ([], [], breaks, c)
  let tail := match chomping with
    | .strip => []
    | .clip => lineEnd
    | .keep => lineEnd ++ breaks
  return (String.ofList (text ++ tail), c)

end BindingRelease.Yaml
