import BindingRelease.Yaml.Scalar
/-!
Writing data as a YAML document in block style: mappings and lists over several lines, texts plain
where reading gives them back, else in single quotes, else in double quotes. Nothing but printable
ASCII is written, and a text that passes the line width goes on in the next line.
-/
namespace BindingRelease.Yaml
open Text

structure Printer where
  line : List Char
  above : List (List Char)
  /-- Whether blank space or the start of a line stands before the next character. -/
  spaced : Bool
  indenting : Bool

namespace Printer

def start : Printer := ⟨[], [], true, true⟩

def width : Nat := 120

def column (p : Printer) : Nat := p.line.length

def put (p : Printer) (cs : List Char) : Printer :=
  { p with line := cs.reverse ++ p.line }

def breakLine (p : Printer) : Printer :=
  ⟨[], p.line.reverse :: p.above, true, true⟩

def sign (p : Printer) (cs : List Char) (needsBlank indenting : Bool) : Printer :=
  let p' := p.put (if p.spaced || !needsBlank then cs else ' ' :: cs)
  { p' with spaced := false, indenting := p.indenting && indenting }

def indentTo (p : Printer) (indent : Nat) : Printer :=
  let p :=
    if !p.indenting || p.column > indent || (p.column == indent && !p.spaced) then p.breakLine
    else p
  if p.column < indent then
    { p.put (List.replicate (indent - p.column) ' ') with spaced := true }
  else p

def inScalar (p : Printer) : Printer :=
  { p with spaced := false, indenting := false }

def text (p : Printer) : String :=
  String.join ((p.above.reverse ++ (if p.line = [] then [] else [p.line.reverse])).map
    fun l => String.ofList l ++ "\n")

end Printer

/-- Which ways of writing a text reading gives back. -/
structure Styles where
  plain : Bool
  singleQuoted : Bool
  multiline : Bool
  deriving DecidableEq, Repr

namespace Styles

def isBreak (c : Char) : Bool :=
  c == '\n' || c == '\u0085' || c == '\u2028' || c == '\u2029'

def isSpace (c : Char) : Bool :=
  c == '\x00' || c == ' ' || c == '\t' || c == '\r' || isBreak c

def beginsSpaced : List Char → Bool
  | [] => true
  | c :: _ => isSpace c

def isLeadingSign (c : Char) (rest : List Char) : Bool :=
  "#,[]\x7b\x7d&*!|>'\"%@\x60".toList.contains c ||
    ((c == '?' || c == ':' || c == '-') && beginsSpaced rest)

def hasInnerSign : Bool → List Char → Bool
  | _, [] => false
  | afterSpace, c :: cs =>
    (c == ':' && beginsSpaced cs) || (c == '#' && afterSpace) || hasInnerSign (isSpace c) cs

def hasSign : List Char → Bool
  | [] => false
  | c :: cs =>
    startsWith "---".toList (c :: cs) || startsWith "...".toList (c :: cs) ||
      isLeadingSign c cs || hasInnerSign (isSpace c) cs

def isSpecial (c : Char) : Bool :=
  !(c == '\n' || (' ' ≤ c && c ≤ '~'))

def hasPair (first second : Char → Bool) : List Char → Bool
  | a :: b :: cs => (first a && second b) || hasPair first second (b :: cs)
  | _ => false

def hasBlankEnd (cs : List Char) : Bool :=
  let isBlankEnd (c : Option Char) : Bool := match c with
    | some c => c == ' ' || isBreak c
    | none => false
  isBlankEnd cs.head? || isBlankEnd cs.getLast?

def ofText (cs : List Char) : Styles :=
  let spaceBreak := hasPair (· == ' ') isBreak cs
  let breakSpace := hasPair isBreak (· == ' ') cs
  let special := cs.any isSpecial
  let multiline := cs.any isBreak
  { plain := !(hasBlankEnd cs || breakSpace || spaceBreak || special || multiline || hasSign cs)
    singleQuoted := !(breakSpace || spaceBreak || special)
    multiline := multiline }

end Styles

namespace Printer

inductive Piece where
  | blanks (n : Nat)
  | breaks (n : Nat)
  | word (cs : List Char)
  deriving DecidableEq, Repr

def addPiece (c : Char) : List Piece → List Piece
  | .blanks n :: ps => if c = ' ' then .blanks (n + 1) :: ps else fresh c (.blanks n :: ps)
  | .breaks n :: ps => if c = '\n' then .breaks (n + 1) :: ps else fresh c (.breaks n :: ps)
  | .word cs :: ps =>
    if c = ' ' || c = '\n' then fresh c (.word cs :: ps) else .word (c :: cs) :: ps
  | [] => fresh c []
where
  fresh (c : Char) (ps : List Piece) : List Piece :=
    if c = ' ' then .blanks 1 :: ps else if c = '\n' then .breaks 1 :: ps else .word [c] :: ps

def pieces (cs : List Char) : List Piece :=
  cs.foldr addPiece []

def breakLines : Nat → Printer → Printer
  | 0, p => p
  | n + 1, p => breakLines n p.breakLine

/-- Writes the pieces of a scalar. A single blank between two words gives way to a line end when
the line is too long; line feeds are doubled, since one of them would read as a blank. -/
def putPieces (indent : Nat) (mayFold : Bool) (quote : List Char → List Char) (first : Bool) :
    List Piece → Printer → Printer
  | [], p => p
  | .word cs :: ps, p => putPieces indent mayFold quote false ps (p.put (quote cs))
  | .blanks n :: ps, p =>
    let folds := n == 1 && p.column > width && mayFold && !first && !ps.isEmpty
    let p := if folds then p.indentTo indent else p.put (List.replicate n ' ')
    putPieces indent mayFold quote false ps p
  | .breaks n :: ps, p =>
    putPieces indent mayFold quote false ps ((breakLines (n + 1) p).indentTo indent)

def putPlain (indent : Nat) (mayFold : Bool) (cs : List Char) (p : Printer) : Printer :=
  let p := if p.spaced then p else p.put [' ']
  let p := putPieces indent mayFold id true (pieces cs) p.inScalar
  p.inScalar

def doubleQuotes (cs : List Char) : List Char :=
  cs.flatMap fun c => if c = '\'' then ['\'', '\''] else [c]

def putSingleQuoted (indent : Nat) (mayFold : Bool) (cs : List Char) (p : Printer) : Printer :=
  (putPieces indent mayFold doubleQuotes true (pieces cs) (p.sign ['\''] true false)).sign
    ['\''] false false

def shortEscapes : List (Char × Char) :=
  [('\x00', '0'), ('\x07', 'a'), ('\x08', 'b'), ('\t', 't'), ('\n', 'n'), ('\x0B', 'v'),
    ('\x0C', 'f'), ('\r', 'r'), ('\x1B', 'e'), ('"', '"'), ('\\', '\\'), ('\u0085', 'N'),
    ('\u00A0', '_'), ('\u2028', 'L'), ('\u2029', 'P')]

def upperHex (width n : Nat) : List Char :=
  (hexText width n).toList.map Char.toUpper

def escape (c : Char) : List Char :=
  match shortEscapes.find? fun e => e.1 = c with
  | some e => ['\\', e.2]
  | none =>
    let n := c.toNat
    if n ≤ 0xFF then '\\' :: 'x' :: upperHex 2 n
    else if n ≤ 0xFFFF then '\\' :: 'u' :: upperHex 4 n
    else '\\' :: 'U' :: upperHex 8 n

def needsEscape (c : Char) : Bool :=
  c == '"' || c == '\\' || !(' ' ≤ c && c ≤ '~')

/-- Ends the line inside double quotes; a blank that begins the next line is guarded. -/
def foldQuoted (indent : Nat) (next : Option Char) (p : Printer) : Printer :=
  let p := ((p.put ['\\']).indentTo indent).inScalar
  if next = some ' ' then p.put ['\\'] else p

def putQuoted (indent : Nat) (mayFold : Bool) : (first : Bool) → (run : List Char) → List Char →
    Printer → Printer
  | _, run, [], p => p.put run.reverse
  | first, run, c :: cs, p =>
    let overlong (column : Nat) : Bool := !first && !cs.isEmpty && mayFold && column > width
    if needsEscape c then
      let p := (p.put run.reverse).put (escape c)
      let p := if overlong (p.column - 1) then p.foldQuoted indent cs.head? else p
      putQuoted indent mayFold false [] cs p
    else if (c = ' ' || run.isEmpty) && overlong (p.column + run.length) then
      putQuoted indent mayFold false [c] cs ((p.put run.reverse).foldQuoted indent (some c))
    else putQuoted indent mayFold false (c :: run) cs p

def putDoubleQuoted (indent : Nat) (mayFold : Bool) (cs : List Char) (p : Printer) : Printer :=
  (putQuoted indent mayFold true [] cs (p.sign ['"'] true false)).sign ['"'] false false

/-- Writes a scalar with a tag, plain if reading gives the tag back. A key is never folded. -/
def putScalar (indent : Nat) (isKey : Bool) (tag text : String) (p : Printer) : Printer :=
  let styles := Styles.ofText text.toList
  if styles.plain && Scalar.impliedTag text == tag then
    p.putPlain indent (!isKey) text.toList
  else if styles.singleQuoted && !(isKey && styles.multiline) then
    p.putSingleQuoted indent (!isKey) text.toList
  else p.putDoubleQuoted indent (!isKey) text.toList

def floatText (x : Float) : String :=
  if x.isNaN then ".nan"
  else if x.isInf then (if x < 0.0 then "-.inf" else ".inf")
  else
    let t := (Decimal.floatText x).toList
    if t.contains '.' then String.ofList t
    else String.ofList (t.flatMap fun c => if c = 'e' then ['.', '0', 'e'] else [c])

def scalarOf : Value → String × String
  | .null => ("null", "null")
  | .bool b => ("bool", if b then "true" else "false")
  | .int i => ("int", integerText i)
  | .float x => ("float", floatText x)
  | v => ("str", v.plain)

def putValue (indent : Nat) (isKey : Bool) (v : Value) (p : Printer) : Printer :=
  p.putScalar indent isKey (standardTag (scalarOf v).1) (scalarOf v).2

def isShortKey (v : Value) : Bool :=
  let (kind, text) := scalarOf v
  kind.length + 2 + text.length < 128 && text ≠ "" && !text.toList.any Styles.isBreak

mutual

/-- Writes a node in a collection at the given indentation. A list that is the value of a key on
the same line is not indented further. -/
def putNode (indent : Nat) (inMapping : Bool) : Value → Printer → Printer
  | .list [], p | .tuple [], p => (p.sign ['['] true false).sign [']'] false false
  | .map [], p => (p.sign ['\x7b'] true false).sign ['\x7d'] false false
  | .list xs, p | .tuple xs, p =>
    putItems (if inMapping && !p.indenting then indent else indent + 2) xs p
  | .map es, p => putEntries (indent + 2) es p
  | v, p => p.putValue (indent + 2) false v

def putItems (indent : Nat) : List Value → Printer → Printer
  | [], p => p
  | x :: xs, p =>
    putItems indent xs (putNode indent false x ((p.indentTo indent).sign ['-'] true true))

def putEntries (indent : Nat) : List (Value × Value) → Printer → Printer
  | [], p => p
  | (k, v) :: es, p =>
    let p := p.indentTo indent
    let p :=
      if isShortKey k then (p.putValue (indent + 2) true k).sign [':'] false false
      else
        (((p.sign ['?'] true true).putValue (indent + 2) false k).indentTo indent).sign [':'] true
          true
    putEntries indent es (putNode indent true v p)

end

end Printer

def print (es : List (Value × Value)) : String :=
  match es with
  | [] => "\x7b\x7d\n"
  | es => (Printer.start.putEntries 0 es).text

end BindingRelease.Yaml
