import BindingRelease.Text.Digit
import BindingRelease.Yaml.Token
/-!
Names, tags and directives of a YAML text.
-/
namespace BindingRelease.Yaml
open Text

def nodeName (c : Cursor) : Except YamlError (String × Cursor) :=
  let (name, c) := c.step.span isWordChar
  let x := c.head
  if name.isEmpty then .error .notYaml
  else if isWhiteOrEnd x || ['?', ':', ',', ']', '}', '%', '@', '`'].contains x then
    .ok (String.ofList name, c)
  else .error .notYaml

def tagHandle (c : Cursor) : Except YamlError (String × Cursor) :=
  if c.head != '!' then .error .notYaml
  else if c.peek 1 == ' ' then .ok ("!", c.step)
  else
    let (word, d) := c.step.span isWordChar
    if d.head != '!' then .error .notYaml
    else .ok (String.ofList ('!' :: word ++ ['!']), d.step)

def isUriChar (c : Char) : Bool :=
  (isWordChar c || [';', '/', '?', ':', '@', '&', '=', '+', '$', ',', '.', '!', '~', '*', '\'',
    '(', ')', '[', ']'].contains c)

def percentBytes : Nat → Cursor → Except YamlError (List UInt8 × Cursor)
  | 0, c => .ok ([], c)
  | fuel + 1, c =>
    if c.head == '%' then
      match hexValue? (c.peek 1), hexValue? (c.peek 2) with
      | some a, some b => do
        let (bs, c) ← percentBytes fuel (c.advance 3)
        return (UInt8.ofNat (16 * a + b) :: bs, c)
      | _, _ => .error .notYaml
    else .ok ([], c)

def uriFrom : Nat → List Char → Cursor → Except YamlError (List Char × Cursor)
  | 0, seen, c => .ok (seen, c)
  | fuel + 1, seen, c =>
    if c.head == '%' then do
      let (bs, c) ← percentBytes (c.rest.length) c
      match String.fromUTF8? (ByteArray.mk bs.toArray) with
      | some s => uriFrom fuel (seen ++ s.toList) c
      | none => throw .notYaml
    else if isUriChar c.head then
      let (xs, c) := c.span isUriChar
      uriFrom fuel (seen ++ xs) c
    else .ok (seen, c)

def tagUri (c : Cursor) : Except YamlError (String × Cursor) := do
  let (text, d) ← uriFrom (c.rest.length + 1) [] c
  if d.index == c.index then throw .notYaml
  return (String.ofList text, d)

/-- Whether the letters up to white space hold a second exclamation mark. -/
def namesHandle (c : Cursor) : Bool :=
  (c.step.rest.takeWhile fun x => !isSpaceOrEnd x).contains '!'

def tagToken (c : Cursor) : Except YamlError (Token × Cursor) := do
  let (t, c) ←
    if c.peek 1 == '<' then do
      let (uri, c) ← tagUri (c.advance 2)
      if c.head != '>' then throw .notYaml
      pure (Token.tag none uri, c.step)
    else if isWhiteOrEnd (c.peek 1) then pure (Token.tag none "!", c.step)
    else do
      let (handle, c) ← if namesHandle c then tagHandle c else pure ("!", c.step)
      let (uri, c) ← tagUri c
      pure (Token.tag (some handle) uri, c)
  if isSpaceOrEnd c.head then return (t, c) else throw .notYaml

def versionNumber (c : Cursor) : Except YamlError (Nat × Cursor) :=
  let (ds, c) := c.span isAsciiDigit
  if ds.isEmpty then .error .notYaml else .ok (natOfDigits ds, c)

def directiveToken (c : Cursor) : Except YamlError (Token × Cursor) := do
  let (name, c) := c.step.span isWordChar
  if name.isEmpty || !isSpaceOrEnd c.head then throw .notYaml
  let (d, c) ←
    if name == "YAML".toList then do
      let (major, c) ← versionNumber (c.span (· == ' ')).2
      if c.head != '.' then throw .notYaml
      let (minor, c) ← versionNumber c.step
      if !isSpaceOrEnd c.head then throw .notYaml
      pure (Directive.version major minor, c)
    else if name == "TAG".toList then do
      let (handle, c) ← tagHandle (c.span (· == ' ')).2
      if c.head != ' ' then throw .notYaml
      let (expansion, c) ← tagUri (c.span (· == ' ')).2
      if !isSpaceOrEnd c.head then throw .notYaml
      pure (Directive.tag handle expansion, c)
    else pure (Directive.other, (c.span fun x => !isBreak x).2)
  return (.directive d, ← c.endLine)

end BindingRelease.Yaml
