import BindingRelease.Path
import BindingRelease.Text.Digit
import BindingRelease.Value
/-!
Checking data against the fields of a record. A check either gives the record's part or a list of
faults, each with its place and kind; the checks of several fields are joined so that the faults
of all of them are kept, in the order of the declared fields, before those of undeclared ones.
-/
namespace BindingRelease

inductive Place where
  | field (name : String)
  | index (n : Int)
  deriving DecidableEq, Repr

inductive FaultKind where
  | missing
  | notText
  | notPath
  | notRecord
  | notList
  | notInteger
  | unreadableInteger
  | fraction
  | integerTooLarge
  | undeclared
  | keyNotText
  | frozen
  deriving DecidableEq, Repr

def FaultKind.code : FaultKind → String
  | missing => "missing"
  | notText => "string_type"
  | notPath => "path_type"
  | notRecord => "model_type"
  | notList => "tuple_type"
  | notInteger => "int_type"
  | unreadableInteger => "int_parsing"
  | fraction => "int_from_float"
  | integerTooLarge => "int_parsing_size"
  | undeclared => "extra_forbidden"
  | keyNotText => "invalid_key"
  | frozen => "frozen_instance"

structure Fault where
  place : List Place
  kind : FaultKind
  deriving DecidableEq, Repr

namespace Fault

def here (kind : FaultKind) : Fault := ⟨[], kind⟩

def within (p : Place) (f : Fault) : Fault := { f with place := p :: f.place }

end Fault

abbrev Checked (α : Type) := Except (List Fault) α

namespace Checked

def both {α β : Type} : Checked α → Checked β → Checked (α × β)
  | .ok a, .ok b => .ok (a, b)
  | .ok _, .error fs => .error fs
  | .error fs, .ok _ => .error fs
  | .error fs, .error gs => .error (fs ++ gs)

def within {α : Type} (p : Place) : Checked α → Checked α
  | .ok a => .ok a
  | .error fs => .error (fs.map (Fault.within p))

def fault {α : Type} (kind : FaultKind) : Checked α :=
  .error [Fault.here kind]

end Checked

namespace Schema
open Text

abbrev Entries := List (Value × Value)

def text : Value → Checked String
  | .text s => .ok s
  | _ => .fault .notText

def path : Value → Checked Path
  | .text s => .ok (Path.ofString s)
  | _ => .fault .notPath

def nullable {α : Type} (check : Value → Checked α) : Value → Checked (Option α)
  | .null => .ok none
  | v => (check v).map some

def digitRun? : Bool → List Char → Option (List Char × List Char)
  | _, [] => none
  | afterDigit, c :: cs =>
    if isAsciiDigit c then
      match digitRun? true cs with
      | some (ds, rest) => some (c :: ds, rest)
      | none => if cs.head? = some '_' then none else some ([c], cs)
    else if c = '_' && afterDigit then digitRun? false cs
    else none

/-- An integer in words of a settings file: a sign, digits, and at most zeros behind a point. -/
def integerText? (cs : List Char) : Option Int :=
  let (negative, body) : Bool × List Char := match cs with
    | '-' :: r => (true, r)
    | '+' :: r => (false, r)
    | _ => (false, cs)
  match digitRun? false body with
  | none => none
  | some (ds, rest) =>
    let tailOk := match rest with
      | [] => true
      | '.' :: zs => !zs.isEmpty && zs.all (· == '0')
      | _ => false
    if tailOk then
      let n : Int := natOfDigits ds
      some (if negative then -n else n)
    else none

def integer : Value → Checked Int
  | .int i => .ok i
  | .bool b => .ok (if b then 1 else 0)
  | .float x =>
    if x.floor != x then .fault .fraction
    else if -9223372036854775808.0 < x && x < 9223372036854775808.0 then .ok x.toInt64.toInt
    else .fault .integerTooLarge
  | .text s =>
    match integerText? (trimPadding s.toList) with
    | some i => .ok i
    | none => .fault .unreadableInteger
  | _ => .fault .notInteger

def required {α : Type} (es : Entries) (name : String) (check : Value → Checked α) : Checked α :=
  match Value.lookup es name with
  | some v => (check v).within (.field name)
  | none => .error [⟨[.field name], .missing⟩]

def withDefault {α : Type} (es : Entries) (name : String) (default : α)
    (check : Value → Checked α) : Checked α :=
  match Value.lookup es name with
  | some v => (check v).within (.field name)
  | none => .ok default

def keyPlace : Value → Place
  | .text s => .field s
  | .int i => .index i
  | .bool b => .index (if b then 1 else 0)
  | v => .field v.literal

def undeclared (declared : List String) (es : Entries) : List Fault :=
  es.filterMap fun e => match e.1 with
    | .text k => if declared.contains k then none else some ⟨[.field k], .undeclared⟩
    | k => some ⟨[keyPlace k], .keyNotText⟩

def onlyDeclared (declared : List String) (es : Entries) : Checked Unit :=
  match undeclared declared es with
  | [] => .ok ()
  | fs => .error fs

def record {α : Type} (declared : List String) (fields : Entries → Checked α) : Value → Checked α
  | .map es => ((fields es).both (onlyDeclared declared es)).map (·.1)
  | _ => .fault .notRecord

def itemsFrom {α : Type} (check : Value → Checked α) : Int → List Value → Checked (List α)
  | _, [] => .ok []
  | n, v :: vs =>
    (((check v).within (.index n)).both (itemsFrom check (n + 1) vs)).map fun p => p.1 :: p.2

def items {α : Type} (check : Value → Checked α) : Value → Checked (List α)
  | .list vs | .tuple vs => itemsFrom check 0 vs
  | _ => .fault .notList

end Schema
end BindingRelease
