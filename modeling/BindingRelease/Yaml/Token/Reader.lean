import BindingRelease.Yaml.Token.Scalar
import BindingRelease.Yaml.Token.Tag
/-!
From a YAML text to its tokens. In block collections the indentation opens and closes collections;
a key without question mark is recognised at its colon, and its token is then put in at the place
where the key began. Reading stops at the first fault, which becomes the last token, in the place
of those that were held back.
-/
namespace BindingRelease.Yaml

/-- A place where a key may have begun. -/
structure KeyPlace where
  level : Nat
  tokenNumber : Nat
  required : Bool
  index : Nat
  line : Nat
  column : Nat

/-- No key can have begun at the place: it is on another line, or more than 1024 characters back. -/
def KeyPlace.isStale (k : KeyPlace) (c : Cursor) : Bool :=
  k.line != c.line || c.index - k.index > 1024

structure Lexer where
  cursor : Cursor
  flowLevel : Nat
  indent : Int
  outer : List Int
  mayBeginKey : Bool
  keyPlaces : List KeyPlace
  tokens : Array Token

namespace Lexer

def start (text : List Char) : Lexer :=
  ⟨Cursor.start text, 0, -1, [], true, [], #[]⟩

def emit (l : Lexer) (t : Token) : Lexer := { l with tokens := l.tokens.push t }

/-- Passes spaces, comments and line ends; behind a line end a block key may begin. -/
def skipToToken : Nat → Lexer → Lexer
  | 0, l => l
  | fuel + 1, l =>
    let c := l.cursor.skipComment
    match c.lineBreak with
    | some (_, c) =>
      skipToToken fuel { l with cursor := c, mayBeginKey := l.mayBeginKey || l.flowLevel == 0 }
    | none => { l with cursor := c }

def forgetStale (l : Lexer) : Except YamlError Lexer :=
  if l.keyPlaces.any fun k => k.isStale l.cursor && k.required then .error .notYaml
  else .ok { l with keyPlaces := l.keyPlaces.filter fun k => !k.isStale l.cursor }

def forgetHere (l : Lexer) : Except YamlError Lexer :=
  if l.keyPlaces.any fun k => k.level == l.flowLevel && k.required then .error .notYaml
  else .ok { l with keyPlaces := l.keyPlaces.filter fun k => k.level != l.flowLevel }

def rememberHere (l : Lexer) : Except YamlError Lexer :=
  if l.mayBeginKey then do
    let l ← l.forgetHere
    let k : KeyPlace :=
      { level := l.flowLevel
        tokenNumber := l.tokens.size
        required := l.flowLevel == 0 && l.indent == l.cursor.column
        index := l.cursor.index
        line := l.cursor.line
        column := l.cursor.column }
    return { l with keyPlaces := k :: l.keyPlaces }
  else .ok l

def closeBlocks (column : Int) (l : Lexer) : Lexer :=
  if l.flowLevel != 0 then l
  else
    let rec close : List Int → Int → Array Token → List Int × Int × Array Token
      | [], indent, ts => ([], indent, ts)
      | i :: is, indent, ts =>
        if indent > column then close is i (ts.push .blockEnd) else (i :: is, indent, ts)
    let (outer, indent, tokens) := close l.outer l.indent l.tokens
    { l with outer, indent, tokens }

def openBlock (column : Nat) (t : Token) (place : Nat) (l : Lexer) : Lexer :=
  if l.indent < column then
    { l with
      outer := l.indent :: l.outer
      indent := column
      tokens := l.tokens.insertIdxIfInBounds place t }
  else l

def one (l : Lexer) (t : Token) : Lexer :=
  { l with cursor := l.cursor.step }.emit t

def openFlow (l : Lexer) (t : Token) : Except YamlError Lexer := do
  let l ← l.rememberHere
  return { l with flowLevel := l.flowLevel + 1, mayBeginKey := true }.one t

def closeFlow (l : Lexer) (t : Token) : Except YamlError Lexer := do
  let l ← l.forgetHere
  if l.flowLevel == 0 then throw .notYaml
  return { l with flowLevel := l.flowLevel - 1, mayBeginKey := false }.one t

def blockEntry (l : Lexer) : Except YamlError Lexer := do
  let l ← if l.flowLevel != 0 then pure l
    else if l.mayBeginKey then pure (l.openBlock l.cursor.column .sequenceStart l.tokens.size)
    else throw .notYaml
  let l ← { l with mayBeginKey := true }.forgetHere
  return l.one .entry

def explicitKey (l : Lexer) : Except YamlError Lexer := do
  let l ← if l.flowLevel != 0 then pure l
    else if l.mayBeginKey then pure (l.openBlock l.cursor.column .mappingStart l.tokens.size)
    else throw .notYaml
  let l ← { l with mayBeginKey := l.flowLevel == 0 }.forgetHere
  return l.one .key

def valueSign (l : Lexer) : Except YamlError Lexer := do
  match l.keyPlaces.find? fun k => k.level == l.flowLevel with
  | some k =>
    let l := { l with
      keyPlaces := l.keyPlaces.filter fun k => k.level != l.flowLevel
      tokens := l.tokens.insertIdxIfInBounds k.tokenNumber .key }
    let l := if l.flowLevel == 0 then l.openBlock k.column .mappingStart k.tokenNumber else l
    return { l with mayBeginKey := false }.one .value
  | none =>
    let l ← if l.flowLevel != 0 then pure l
      else if l.mayBeginKey then pure (l.openBlock l.cursor.column .mappingStart l.tokens.size)
      else throw .notYaml
    let l ← { l with mayBeginKey := l.flowLevel == 0 }.forgetHere
    return l.one .value

/-- Reads a token that may be a key of the line it stands on. -/
def keyLike (l : Lexer) (read : Cursor → Except YamlError (Token × Cursor)) :
    Except YamlError Lexer := do
  let l ← l.rememberHere
  let (t, c) ← read l.cursor
  return { l with mayBeginKey := false, cursor := c }.emit t

def marker (l : Lexer) (t : Token) : Except YamlError Lexer := do
  let l ← (l.closeBlocks (-1)).forgetHere
  return { l with mayBeginKey := false, cursor := l.cursor.advance 3 }.emit t

def directiveLine (l : Lexer) : Except YamlError Lexer := do
  let l ← (l.closeBlocks (-1)).forgetHere
  let (t, c) ← directiveToken l.cursor
  return { l with mayBeginKey := false, cursor := c }.emit t

def blockScalar (l : Lexer) : Except YamlError Lexer := do
  let l ← { l with mayBeginKey := true }.forgetHere
  let (text, c) ← block l.indent l.cursor
  return { l with cursor := c }.emit (.scalar text false)

def plainScalar (l : Lexer) : Except YamlError Lexer := do
  let l ← l.rememberHere
  let p := plain (l.flowLevel != 0) (l.indent + 1) l.cursor
  return { l with mayBeginKey := p.lineEnded, cursor := p.cursor }.emit
    (.scalar (String.ofList p.text) true)

def beginsPlain (l : Lexer) : Bool :=
  let x := l.cursor.head
  let next := l.cursor.peek 1
  !(isWhiteOrEnd x || ['-', '?', ':', ',', '[', ']', '{', '}', '#', '&', '*', '!', '|', '>', '\'',
      '"', '%', '@', '`'].contains x) ||
    (!isWhiteOrEnd next && (x == '-' || (l.flowLevel == 0 && (x == '?' || x == ':'))))

def next (l : Lexer) : Except YamlError (Bool × Lexer) := do
  let l ← (l.skipToToken (l.cursor.rest.length + 1)).forgetStale
  let l := l.closeBlocks l.cursor.column
  let x := l.cursor.head
  let followed := isWhiteOrEnd (l.cursor.peek 1)
  let inFlow := l.flowLevel != 0
  let atLineStart := l.cursor.column == 0
  let go (r : Except YamlError Lexer) : Except YamlError (Bool × Lexer) := r.map (false, ·)
  if x == '\x00' then
    let l ← (l.closeBlocks (-1)).forgetHere
    return (true, l.emit .streamEnd)
  else if x == '%' && atLineStart then go l.directiveLine
  else if x == '-' && atLineStart && l.cursor.atMarker then go (l.marker .documentStart)
  else if x == '.' && atLineStart && l.cursor.atMarker then go (l.marker .documentEnd)
  else if x == '[' then go (l.openFlow .flowSequenceStart)
  else if x == '{' then go (l.openFlow .flowMappingStart)
  else if x == ']' then go (l.closeFlow .flowSequenceEnd)
  else if x == '}' then go (l.closeFlow .flowMappingEnd)
  else if x == ',' then do
    let l ← { l with mayBeginKey := true }.forgetHere
    return (false, l.one .flowEntry)
  else if x == '-' && followed then go l.blockEntry
  else if x == '?' && (inFlow || followed) then go l.explicitKey
  else if x == ':' && (inFlow || followed) then go l.valueSign
  else if x == '*' then go (l.keyLike fun c => (nodeName c).map fun (n, c) => (.alias n, c))
  else if x == '&' then go (l.keyLike fun c => (nodeName c).map fun (n, c) => (.anchor n, c))
  else if x == '!' then go (l.keyLike tagToken)
  else if (x == '|' || x == '>') && !inFlow then go l.blockScalar
  else if x == '\'' || x == '"' then
    go (l.keyLike fun c => (quoted c).map fun (s, c) => (.scalar s false, c))
  else if l.beginsPlain then go l.plainScalar
  else throw .notYaml

/-- The number of tokens that are handed on before the next one is read. One that may turn out to
begin a key is held back with all behind it. -/
def handedOn (l : Lexer) : Nat :=
  ((l.keyPlaces.filter fun k => !k.isStale l.cursor).map (·.tokenNumber)).foldl min l.tokens.size

def run : Nat → Lexer → Array Token
  | 0, l => l.tokens.push (.failure .notYaml)
  | fuel + 1, l =>
    match l.next with
    | .error e => (l.tokens.take l.handedOn).push (.failure e)
    | .ok (true, l) => l.tokens
    | .ok (false, l) => run fuel l

end Lexer

def isTextChar (c : Char) : Bool :=
  let n := c.toNat
  n == 9 || n == 10 || n == 13 || (0x20 ≤ n && n ≤ 0x7E) || n == 0x85 ||
    (0xA0 ≤ n && n ≤ 0xFFFD) || n ≥ 0x10000

def tokens (text : List Char) : List Token :=
  if text.all isTextChar then
    let l := Lexer.start text
    let l := if l.cursor.head == '\uFEFF' then { l with cursor := l.cursor.step } else l
    (l.run (text.length + 2)).toList
  else [.failure .notYaml]

end BindingRelease.Yaml
