import BindingRelease.Decimal.Shortest
import BindingRelease.Text.Literal
import BindingRelease.Value.Moment
/-!
Data of no fixed shape: the contents of matrix files, request bodies and reports. A mapping keeps
its entries in the order of their first writing. Besides its data a value has a type name, a truth
and two texts, the literal and the plain one; they differ only for texts, dates and moments.
-/
namespace BindingRelease

inductive Value where
  | null
  | bool (b : Bool)
  | int (i : Int)
  | float (x : Float)
  | text (s : String)
  | bytes (bs : List UInt8)
  | date (d : Date)
  | moment (m : Moment)
  | list (xs : List Value)
  | tuple (xs : List Value)
  | map (entries : List (Value × Value))
  | set (xs : List Value)
  | enclosing (isMap : Bool)
  deriving Inhabited

namespace Value

def typeName : Value → String
  | null => "NoneType"
  | bool _ => "bool"
  | int _ => "int"
  | float _ => "float"
  | text _ => "str"
  | bytes _ => "bytes"
  | date _ => "date"
  | moment _ => "datetime"
  | list _ => "list"
  | tuple _ => "tuple"
  | map _ => "dict"
  | set _ => "set"
  | enclosing isMap => if isMap then "dict" else "list"

/-- Absent, zero and empty values count as false, all others as true. -/
def truthy : Value → Bool
  | null => false
  | bool b => b
  | int i => i != 0
  | float x => x != 0.0
  | text s => s != ""
  | bytes bs => !bs.isEmpty
  | date _ | moment _ | enclosing _ => true
  | list xs | tuple xs | set xs => !xs.isEmpty
  | map es => !es.isEmpty

def braced (parts : List String) : String :=
  "\x7b" ++ ", ".intercalate parts ++ "\x7d"

mutual

def literal : Value → String
  | null => "None"
  | bool b => if b then "True" else "False"
  | int i => Text.integerText i
  | float x => Decimal.floatText x
  | text s => Text.literal s
  | bytes bs => Text.bytesLiteral bs
  | date d => d.literal
  | moment m => m.literal
  | list xs => "[" ++ ", ".intercalate (literals xs) ++ "]"
  | tuple [x] => "(" ++ literal x ++ ",)"
  | tuple xs => "(" ++ ", ".intercalate (literals xs) ++ ")"
  | map es => braced (entryLiterals es)
  | set [] => "set()"
  | set xs => braced (literals xs)
  | enclosing isMap => if isMap then "\x7b...\x7d" else "[...]"

def literals : List Value → List String
  | [] => []
  | x :: xs => literal x :: literals xs

def entryLiterals : List (Value × Value) → List String
  | [] => []
  | (k, v) :: es => (literal k ++ ": " ++ literal v) :: entryLiterals es

end

/-- The plain text of a value: itself for a text, the calendar form for dates and moments. -/
def plain : Value → String
  | text s => s
  | date d => d.text
  | moment m => m.text
  | v => v.literal

/-- Equality of mapping keys: numbers of all kinds compare by their value. -/
def sameKey : Value → Value → Bool
  | null, null => true
  | bool a, bool b => a == b
  | int a, int b => a == b
  | float a, float b => a == b
  | bool a, int b | int b, bool a => b == (if a then 1 else 0)
  | bool a, float b | float b, bool a => b == (if a then 1.0 else 0.0)
  | int a, float b | float b, int a => b == Float.ofInt a
  | text a, text b => a == b
  | bytes a, bytes b => a == b
  | date a, date b => a == b
  | moment a, moment b => a.same b
  | _, _ => false

def isScalar : Value → Bool
  | list _ | map _ | set _ | enclosing _ => false
  | _ => true

/-- Writes one entry: an equal key keeps its place and takes the new value. -/
def insertEntry (k v : Value) : List (Value × Value) → List (Value × Value)
  | [] => [(k, v)]
  | (k', v') :: es => if k'.sameKey k then (k', v) :: es else (k', v') :: insertEntry k v es

def mapOfEntries (es : List (Value × Value)) : List (Value × Value) :=
  es.foldl (fun acc e => insertEntry e.1 e.2 acc) []

def lookup (es : List (Value × Value)) (name : String) : Option Value :=
  es.findSome? fun e => match e.1 with
    | text k => if k = name then some e.2 else none
    | _ => none

def object (fields : List (String × Value)) : Value :=
  map (fields.map fun f => (text f.1, f.2))

def texts (ss : List String) : Value :=
  list (ss.map text)

def ofOption : Option String → Value
  | none => null
  | some s => text s

end Value
end BindingRelease
