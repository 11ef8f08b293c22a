import BindingRelease.Value
/-!
Reports as JSON: indented by two spaces, with every character outside printable ASCII escaped.
-/
namespace BindingRelease.Value
open Text

def jsonUnit (n : Nat) : String := "\\u" ++ hexText 4 n

/-- An escaped character; beyond the basic plane it takes two units. -/
def jsonEscape (c : Char) : String :=
  let n := c.toNat
  if n < 0x10000 then jsonUnit n
  else jsonUnit (0xD800 + (n - 0x10000) / 0x400) ++ jsonUnit (0xDC00 + (n - 0x10000) % 0x400)

def jsonChar (c : Char) : String :=
  if c = '"' then "\\\""
  else if c = '\\' then "\\\\"
  else if c = '\n' then "\\n"
  else if c = '\r' then "\\r"
  else if c = '\t' then "\\t"
  else if c = '\x08' then "\\b"
  else if c = '\x0C' then "\\f"
  else if ' ' ≤ c && c ≤ '~' then String.singleton c
  else jsonEscape c

def jsonText (s : String) : String :=
  "\"" ++ String.join (s.toList.map jsonChar) ++ "\""

def jsonBlank (indent : Nat) : String :=
  "\n" ++ String.ofList (List.replicate indent ' ')

def jsonBlock (indent : Nat) (opening closing : String) (parts : List String) : String :=
  if parts = [] then opening ++ closing
  else
    let inner := jsonBlank (indent + 2)
    opening ++ inner ++ ("," ++ inner).intercalate parts ++ jsonBlank indent ++ closing

mutual

/-- The JSON of a value; what JSON has no form for is written as its plain text. -/
def jsonAt (indent : Nat) : Value → String
  | null => "null"
  | bool b => if b then "true" else "false"
  | int i => integerText i
  | float x => Decimal.floatText x
  | list xs | tuple xs => jsonBlock indent "[" "]" (jsonItems (indent + 2) xs)
  | map es => jsonBlock indent "\x7b" "\x7d" (jsonFields (indent + 2) es)
  | v => jsonText v.plain

def jsonItems (indent : Nat) : List Value → List String
  | [] => []
  | x :: xs => jsonAt indent x :: jsonItems indent xs

def jsonFields (indent : Nat) : List (Value × Value) → List String
  | [] => []
  | (k, v) :: es => (jsonText k.plain ++ ": " ++ jsonAt indent v) :: jsonFields indent es

end

def json (v : Value) : String := jsonAt 0 v

end BindingRelease.Value
