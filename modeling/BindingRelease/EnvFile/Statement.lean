import BindingRelease.Text.Blank
/-!
Statements of an environment file. A statement names a variable, with `export` before it if one
likes, and may give it a value: in single quotes, in double quotes, or bare to the end of the line.
A line that fits no statement is malformed; it is skipped and reading goes on behind it.
-/
namespace BindingRelease.EnvFile
open Text

inductive Statement where
  | nothing
  | assignment (name : String) (value : Option String)
  | malformed
  deriving DecidableEq, Repr

def isInlineBlank (c : Char) : Bool :=
  isBlank c && c != '\n'

def skipInline (cs : List Char) : List Char :=
  cs.dropWhile isInlineBlank

def restOfLine (cs : List Char) : List Char :=
  (cs.dropWhile (· != '\n')).drop 1

def skipExport (cs : List Char) : List Char :=
  if startsWith "export".toList cs then
    let rest := cs.drop 6
    if (rest.takeWhile isInlineBlank).isEmpty then cs else skipInline rest
  else cs

/-- Reads the name of a variable; none stands before a comment. Here and below a failure carries
the place it was met at. -/
def readName (cs : List Char) : Except (List Char) (Option String × List Char) :=
  match cs with
  | '#' :: _ => .ok (none, cs)
  | '\'' :: r =>
    let name := r.takeWhile (· != '\'')
    match name, r.dropWhile (· != '\'') with
    | _ :: _, _ :: rest => .ok (some (String.ofList name), rest)
    | _, _ => .error cs
  | _ =>
    let isName (c : Char) : Bool := c != '=' && c != '#' && !isBlank c
    let name := cs.takeWhile isName
    if name.isEmpty then .error cs
    else .ok (some (String.ofList name), cs.dropWhile isName)

def readQuoted (quote : Char) : List Char → Option (List Char × List Char)
  | [] => none
  | '\\' :: c :: cs => (readQuoted quote cs).map fun (raw, rest) => ('\\' :: c :: raw, rest)
  | c :: cs =>
    if c = quote then some ([], cs)
    else (readQuoted quote cs).map fun (raw, rest) => (c :: raw, rest)

def singleEscape? : Char → Option Char
  | '\\' => some '\\'
  | '\'' => some '\''
  | _ => none

def doubleEscape? : Char → Option Char
  | '\\' => some '\\'
  | '\'' => some '\''
  | '"' => some '"'
  | 'a' => some '\x07'
  | 'b' => some '\x08'
  | 'f' => some '\x0c'
  | 'n' => some '\n'
  | 'r' => some '\r'
  | 't' => some '\t'
  | 'v' => some '\x0b'
  | _ => none

def unescape (escape? : Char → Option Char) : List Char → List Char
  | [] => []
  | '\\' :: c :: cs =>
    match escape? c with
    | some d => d :: unescape escape? cs
    | none => '\\' :: unescape escape? (c :: cs)
  | c :: cs => c :: unescape escape? cs
termination_by cs => cs.length

/-- Cuts a bare value at the first blank run that a number sign follows. -/
def cutComment : List Char → List Char
  | [] => []
  | c :: cs =>
    if isBlank c && (skipInline cs).head? = some '#' then [] else c :: cutComment cs

def readValue (cs : List Char) : Except (List Char) (String × List Char) :=
  match cs with
  | '\'' :: r =>
    match readQuoted '\'' r with
    | some (raw, rest) => .ok (String.ofList (unescape singleEscape? raw), rest)
    | none => .error cs
  | '"' :: r =>
    match readQuoted '"' r with
    | some (raw, rest) => .ok (String.ofList (unescape doubleEscape? raw), rest)
    | none => .error cs
  | _ =>
    let line := cs.takeWhile (· != '\n')
    .ok (String.ofList (stripEnd (cutComment line)), cs.dropWhile (· != '\n'))

def readAssignment (cs : List Char) : Except (List Char) (Option String × List Char) :=
  match cs with
  | '=' :: r =>
    let v := skipInline r
    if v.length < r.length && v.head? = some '#' then .ok (some "", v)
    else do
      let (value, rest) ← readValue v
      return (some value, rest)
  | _ => .ok (none, cs)

def readEnd (cs : List Char) : Except (List Char) (Unit × List Char) :=
  let afterComment := match skipInline cs with
    | '#' :: r => r.dropWhile (· != '\n')
    | _ => cs
  match skipInline afterComment with
  | [] => .ok ((), [])
  | '\n' :: rest => .ok ((), rest)
  | _ => .error afterComment

def readVariable (cs : List Char) : Except (List Char) (Statement × List Char) := do
  let (name, cs) ← readName (skipExport cs)
  let (value, cs) ← readAssignment (skipInline cs)
  let ((), cs) ← readEnd cs
  return (match name with
    | some n => .assignment n value
    | none => .nothing, cs)

def readStatement (cs : List Char) : Statement × List Char :=
  let body := cs.dropWhile isBlank
  if body.isEmpty then (.nothing, [])
  else match readVariable body with
    | .ok r => r
    | .error place => (.malformed, restOfLine place)

def statementsFrom (line : Nat) (cs : List Char) : List (Nat × Statement) :=
  if cs = [] then []
  else
    let (s, rest) := readStatement cs
    if rest.length < cs.length then
      let read := cs.take (cs.length - rest.length)
      (line, s) :: statementsFrom (line + read.count '\n') rest
    else [(line, s)]
termination_by cs.length

def statements : List Char → List (Nat × Statement)
  | '\uFEFF' :: cs => statementsFrom 1 cs
  | cs => statementsFrom 1 cs

end BindingRelease.EnvFile
