import BindingRelease.Decimal.Reading
import BindingRelease.Text.Digit
import BindingRelease.Value
import BindingRelease.Yaml.Cursor
/-!
The types of scalars. A plain scalar without tag takes its type from its text alone: boolean, null,
integer in bases 2, 8, 10, 16 and 60, decimal fraction, date, merge or value sign; any other is a
text. A tag fixes the type, and the text then has to suit it.
-/
namespace BindingRelease.Yaml
open Text

def standardTag (name : String) : String := "tag:yaml.org,2002:" ++ name

namespace Scalar

def unsigned : List Char → Bool × List Char
  | '-' :: r => (true, r)
  | '+' :: r => (false, r)
  | cs => (false, cs)

def isDigits (p : Char → Bool) (cs : List Char) : Bool :=
  !cs.isEmpty && cs.all fun c => p c || c == '_'

def isSixtieth : List Char → Bool
  | [a] => isAsciiDigit a
  | [a, b] => '0' ≤ a && a ≤ '5' && isAsciiDigit b
  | _ => false

def isDecimalRun : List Char → Bool
  | [] => false
  | c :: cs => isAsciiDigit c && cs.all fun c => isAsciiDigit c || c == '_'

def isInteger (text : List Char) : Bool :=
  let cs := (unsigned text).2
  match cs with
  | '0' :: 'b' :: r => isDigits (fun c => c == '0' || c == '1') r
  | '0' :: 'x' :: r => isDigits (fun c => (hexValue? c).isSome) r
  | ['0'] => true
  | '0' :: r => isDigits (fun c => '0' ≤ c && c ≤ '7') r
  | _ =>
    match splitChars ':' cs with
    | whole :: sixtieths => isDecimalRun whole && sixtieths.all isSixtieth
    | [] => false

def isExponent : List Char → Bool
  | [] => true
  | e :: s :: ds =>
    (e == 'e' || e == 'E') && (s == '+' || s == '-') && !ds.isEmpty && ds.all isAsciiDigit
  | _ => false

def isFraction (text : List Char) : Bool :=
  let cs := (unsigned text).2
  let signed := cs.length < text.length
  let fractionOk (r : List Char) : Bool :=
    isExponent (r.dropWhile fun c => isAsciiDigit c || c == '_')
  let words (names : List String) : Bool := names.any fun w => w.toList == cs
  match cs with
  | '.' :: r =>
    words [".inf", ".Inf", ".INF"] ||
      (!signed && (words [".nan", ".NaN", ".NAN"] ||
        ((r.head?.map isAsciiDigit).getD false && fractionOk r)))
  | _ =>
    let whole := cs.takeWhile fun c => isAsciiDigit c || c == '_'
    match cs.drop whole.length with
    | '.' :: r => isDecimalRun whole && fractionOk r
    | ':' :: _ =>
      match splitChars '.' cs with
      | [front, back] =>
        (match splitChars ':' front with
          | first :: sixtieths =>
            isDecimalRun first && !sixtieths.isEmpty && sixtieths.all isSixtieth
          | [] => false) && back.all fun c => isAsciiDigit c || c == '_'
      | _ => false
    | _ => false

structure Stamp where
  year : List Char
  month : List Char
  day : List Char
  time : Option (List Char × List Char × List Char × List Char)
  zone : Option (Bool × List Char × List Char)

def digits? (least most : Nat) (cs : List Char) : Option (List Char × List Char) :=
  let ds := (cs.take most).takeWhile isAsciiDigit
  if ds.length < least then none else some (ds, cs.drop ds.length)

def expect? (x : Char) : List Char → Option (List Char)
  | [] => none
  | c :: cs => if c = x then some cs else none

def zone? (cs : List Char) : Option (Option (Bool × List Char × List Char)) :=
  match cs.dropWhile fun c => c == ' ' || c == '\t' with
  | [] => if cs.isEmpty then some none else none
  | ['Z'] => some (some (false, ['0'], []))
  | s :: r =>
    if s == '+' || s == '-' then do
      let (h, r) ← digits? 1 2 r
      match r with
      | [] => some (some (s == '-', h, []))
      | ':' :: r => do
        let (m, r) ← digits? 2 2 r
        if r.isEmpty then some (some (s == '-', h, m)) else none
      | _ => none
    else none

def stamp? (cs : List Char) : Option Stamp := do
  let (year, r) ← digits? 4 4 cs
  let r ← expect? '-' r
  let (month, r) ← digits? 1 2 r
  let r ← expect? '-' r
  let (day, r) ← digits? 1 2 r
  match r with
  | [] => some ⟨year, month, day, none, none⟩
  | c :: r' => do
    let r ← if c == 'T' || c == 't' then some r'
      else if c == ' ' || c == '\t' then some (r'.dropWhile fun c => c == ' ' || c == '\t')
      else none
    let (hour, r) ← digits? 1 2 r
    let r ← expect? ':' r
    let (minute, r) ← digits? 2 2 r
    let r ← expect? ':' r
    let (second, r) ← digits? 2 2 r
    let (fraction, r) := match r with
      | '.' :: r => (r.takeWhile isAsciiDigit, r.dropWhile isAsciiDigit)
      | _ => ([], r)
    let zone ← zone? r
    some ⟨year, month, day, some (hour, minute, second, fraction), zone⟩

/-- Without a tag the month and the day of a mere date have two digits each. -/
def isStamp (cs : List Char) : Bool :=
  (stamp? cs).any fun p => p.time.isSome || (p.month.length == 2 && p.day.length == 2)

def trueWords : List String :=
  ["yes", "Yes", "YES", "true", "True", "TRUE", "on", "On", "ON"]

def falseWords : List String :=
  ["no", "No", "NO", "false", "False", "FALSE", "off", "Off", "OFF"]

def nullWords : List String := ["", "~", "null", "Null", "NULL"]

/-- The text that counts when the type of a scalar is told by its form: one line feed at the end
does not belong to it, unless there is nothing else. -/
def formOf : List Char → List Char
  | [] => []
  | [c] => [c]
  | c :: cs => c :: if cs = ['\n'] then [] else formOf cs

/-- The tag that the text of a scalar without a tag of its own implies. -/
def impliedTag (s : String) : String :=
  let cs := formOf s.toList
  let s := String.ofList cs
  standardTag <|
    if trueWords.contains s || falseWords.contains s then "bool"
    else if isFraction cs then "float"
    else if isInteger cs then "int"
    else if s == "<<" then "merge"
    else if nullWords.contains s then "null"
    else if isStamp cs then "timestamp"
    else if s == "=" then "value"
    else "str"

def boolean (s : String) : Except YamlError Value :=
  let w := String.ofList (s.toList.map Char.toLower)
  if ["yes", "true", "on"].contains w then .ok (.bool true)
  else if ["no", "false", "off"].contains w then .ok (.bool false)
  else .error (.unknownWord w)

/-- Reads digits of a base, with blanks around them, a sign and the base's own mark before them. -/
def readInBase (base : Nat) (cs : List Char) : Except YamlError Int :=
  let (negative, cs) := unsigned (stripChars cs)
  let mark : Char := if base = 2 then 'b' else if base = 8 then 'o' else 'x'
  let cs := match cs with
    | '0' :: m :: r => if base ≠ 10 && m.toLower = mark then r else cs
    | _ => cs
  match natInBase? base cs with
  | some n => .ok (if negative then -(n : Int) else n)
  | none => .error .badValue

def inSixties (parts : List Int) : Int :=
  parts.foldl (fun n p => 60 * n + p) 0

def integer (s : String) : Except YamlError Value := do
  let cs := s.toList.filter (· != '_')
  if cs.isEmpty then throw .badIndex
  let (negative, cs) := unsigned cs
  let n ← match cs with
    | [] => throw .badIndex
    | ['0'] => pure 0
    | '0' :: 'b' :: r => readInBase 2 r
    | '0' :: 'x' :: r => readInBase 16 r
    | '0' :: _ => readInBase 8 cs
    | _ =>
      if cs.contains ':' then inSixties <$> (splitChars ':' cs).mapM (readInBase 10)
      else readInBase 10 cs
  return .int (if negative then -n else n)

def fraction (s : String) : Except YamlError Value := do
  let cs := (s.toList.filter (· != '_')).map Char.toLower
  if cs.isEmpty then throw .badIndex
  let (negative, cs) := unsigned cs
  let read (cs : List Char) : Except YamlError Float :=
    match Decimal.float? cs with
    | some x => .ok x
    | none => .error .badValue
  if cs == ".inf".toList then return .float (if negative then -(1.0 / 0.0) else 1.0 / 0.0)
  else if cs == ".nan".toList then return .float (0.0 / 0.0)
  else if cs.contains ':' then
    let parts ← (splitChars ':' cs).mapM read
    let total := (parts.reverse.foldl (fun (x, b) p => (x + p * b, b * 60.0)) (0.0, 1.0)).1
    return .float (if negative then -total else total)
  else
    let x ← read cs
    return .float (if negative then -x else x)

def microseconds (ds : List Char) : Nat :=
  let six := (ds ++ ['0', '0', '0', '0', '0', '0']).take 6
  natOfDigits six

def timestamp (s : String) : Except YamlError Value := do
  match stamp? (formOf s.toList) with
  | none => throw .badAttribute
  | some p =>
    match Date.valid? (natOfDigits p.year) (natOfDigits p.month) (natOfDigits p.day) with
    | none => throw .badValue
    | some date =>
      match p.time with
      | none => return .date date
      | some (hour, minute, second, part) =>
        let hour := natOfDigits hour
        let minute := natOfDigits minute
        let second := natOfDigits second
        let zone := p.zone.map fun (negative, h, m) =>
          let minutes : Int := 60 * natOfDigits h + natOfDigits m
          if negative then -minutes else minutes
        if hour > 23 || minute > 59 || second > 59 || (zone.getD 0).natAbs ≥ 1440 then
          throw .badValue
        return .moment ⟨date, hour, minute, second, microseconds part, zone⟩

def base64Value? (c : Char) : Option Nat :=
  let n := c.toNat
  if 'A' ≤ c && c ≤ 'Z' then some (n - 65)
  else if 'a' ≤ c && c ≤ 'z' then some (n - 71)
  else if '0' ≤ c && c ≤ '9' then some (n + 4)
  else if c == '+' then some 62
  else if c == '/' then some 63
  else none

/-- Decodes base 64: `filled` letters of the open group are in, with `left` as the bits not yet
written. Characters outside the alphabet do not count; padding that completes a group ends it. -/
def base64From (filled left pads : Nat) : List Char → Option (List UInt8)
  | [] => if filled = 0 then some [] else none
  | c :: cs =>
    if c == '=' then
      if filled ≥ 2 then
        if filled + pads + 1 ≥ 4 then some [] else base64From filled left (pads + 1) cs
      else base64From filled left pads cs
    else match base64Value? c with
      | none => base64From filled left pads cs
      | some v =>
        match filled with
        | 0 => base64From 1 v 0 cs
        | 1 => (base64From 2 (v % 16) 0 cs).map (UInt8.ofNat (left * 4 + v / 16) :: ·)
        | 2 => (base64From 3 (v % 4) 0 cs).map (UInt8.ofNat (left * 16 + v / 4) :: ·)
        | _ => (base64From 0 0 0 cs).map (UInt8.ofNat (left * 64 + v) :: ·)

def binary (s : String) : Except YamlError Value :=
  if s.toList.any fun c => c.toNat ≥ 128 then .error .notYaml
  else match base64From 0 0 0 s.toList with
    | some bs => .ok (.bytes bs)
    | none => .error .notYaml

/-- The value of a scalar with the given tag. -/
def value (tag s : String) : Except YamlError Value :=
  if tag == standardTag "str" then .ok (.text s)
  else if tag == standardTag "null" then .ok .null
  else if tag == standardTag "bool" then boolean s
  else if tag == standardTag "int" then integer s
  else if tag == standardTag "float" then fraction s
  else if tag == standardTag "timestamp" then timestamp s
  else if tag == standardTag "binary" then binary s
  else .error .notYaml

end Scalar
end BindingRelease.Yaml
