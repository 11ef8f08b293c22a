import BindingRelease.Request
import BindingRelease.Yaml.Node
/-!
The value that a YAML text denotes, for whoever answers the tool; the tool itself asks for it.
Entries merged into a mapping come before its own, which override them; of several merged mappings
the later ones win, but of those in one list the earlier. Of several faults the one nearest to the
root counts, and of equally near ones the first. An escape for half a surrogate pair has no text,
and a collection that contains itself is given only as far as showing the whole of it goes.
-/
namespace BindingRelease.Yaml

abbrev Built (α : Type) := Except (Nat × YamlError) α

namespace Built

def fail {α : Type} (depth : Nat) (e : YamlError) : Built α := .error (depth, e)

/-- Joins two parts; the shallower fault counts, the first of two equally deep ones. -/
def both {α β : Type} : Built α → Built β → Built (α × β)
  | .ok a, .ok b => .ok (a, b)
  | .ok _, .error e => .error e
  | .error e, .ok _ => .error e
  | .error e, .error f => .error (if f.1 < e.1 then f else e)

def ofScalar {α : Type} (depth : Nat) : Except YamlError α → Built α
  | .ok a => .ok a
  | .error e => .error (depth, e)

end Built

namespace Node

def tag : Node → String
  | scalar t _ | sequence t _ | mapping t _ => t
  | enclosing isMap => standardTag (if isMap then "map" else "seq")

mutual

/-- The text of a node where a scalar is wanted; a mapping may give it under the value sign. -/
def scalarText? : Node → Option String
  | scalar _ s => some s
  | mapping _ es => valueText? es
  | _ => none

def valueText? : List (Node × Node) → Option String
  | [] => none
  | (k, v) :: es => if k.tag == standardTag "value" then scalarText? v else valueText? es

end

/-- A mapping without the entries whose key is already there under an equal one; a collection
cannot be a key. -/
def mapOf (depth : Nat) (es : List (Value × Value)) : Built (List (Value × Value)) :=
  if es.all fun e => e.1.isScalar then .ok (Value.mapOfEntries es) else Built.fail depth .notYaml

def setOf (depth : Nat) (es : List (Value × Value)) : Built Value :=
  (mapOf depth es).map fun es => .set (es.map (·.1))

def scalarTags : List String :=
  ["str", "null", "bool", "int", "float", "timestamp", "binary"].map standardTag

mutual

def build (depth : Nat) : Node → Built Value
  | scalar t s =>
    if [standardTag "map", standardTag "seq", standardTag "set", standardTag "omap",
        standardTag "pairs"].contains t then Built.fail (depth + 1) .notYaml
    else Built.ofScalar depth (Scalar.value t s)
  | sequence t items =>
    if t == standardTag "seq" then (buildItems (depth + 1) items).map .list
    else if t == standardTag "omap" || t == standardTag "pairs" then
      (buildPairs (depth + 1) items).map .list
    else if t == standardTag "map" || t == standardTag "set" then Built.fail (depth + 1) .notYaml
    else Built.fail depth .notYaml
  | mapping t es =>
    if t == standardTag "map" then do
      let es ← buildEntries (depth + 1) es
      (mapOf (depth + 1) (es.1 ++ es.2)).map .map
    else if t == standardTag "set" then do
      let es ← buildEntries (depth + 1) es
      setOf (depth + 1) (es.1 ++ es.2)
    else if scalarTags.contains t then
      match valueText? es with
      | none => Built.fail depth .notYaml
      | some s =>
        -- A moment is then looked for in the mapping itself, not in the text it gives.
        if t == standardTag "timestamp" then Built.fail depth .badType
        else Built.ofScalar depth (Scalar.value t s)
    else if [standardTag "seq", standardTag "omap", standardTag "pairs"].contains t then
      Built.fail (depth + 1) .notYaml
    else Built.fail depth .notYaml
  | enclosing isMap => .ok (.enclosing isMap)

def buildItems (depth : Nat) : List Node → Built (List Value)
  | [] => .ok []
  | n :: ns => ((build depth n).both (buildItems depth ns)).map fun p => p.1 :: p.2

def buildPairs (depth : Nat) : List Node → Built (List Value)
  | [] => .ok []
  | mapping _ [(k, v)] :: ns =>
    (((build depth k).both (build depth v)).both (buildPairs depth ns)).map
      fun ((k, v), rest) => .tuple [k, v] :: rest
  | _ :: _ => Built.fail depth .notYaml

def buildEntries (depth : Nat) :
    List (Node × Node) → Built (List (Value × Value) × List (Value × Value))
  | [] => .ok ([], [])
  | (k, v) :: es =>
    if k.tag == standardTag "merge" then
      ((mergedEntries depth v).both (buildEntries depth es)).map
        fun (m, merged, own) => (m ++ merged, own)
    else
      let key : Built Value := match k with
        | scalar t s =>
          if t == standardTag "value" then .ok (.text s) else build depth (scalar t s)
        | k => build depth k
      ((key.both (build depth v)).both (buildEntries depth es)).map
        fun ((k, v), merged, own) => (merged, (k, v) :: own)

/-- The entries that a merge sign takes over from its mapping or mappings. -/
def mergedEntries (depth : Nat) : Node → Built (List (Value × Value))
  | mapping _ es => (buildEntries depth es).map fun (merged, own) => merged ++ own
  | sequence _ items => mergedLists depth items
  | enclosing true => .ok []
  | _ => Built.fail depth .notYaml

def mergedLists (depth : Nat) : List Node → Built (List (Value × Value))
  | [] => .ok []
  | mapping _ es :: ns =>
    ((buildEntries depth es).both (mergedLists depth ns)).map
      fun ((merged, own), later) => later ++ (merged ++ own)
  | _ :: _ => Built.fail depth .notYaml

end

end Node

def YamlError.result : YamlError → YamlResult
  | notYaml => .notYaml
  | badValue => .broken .badValue
  | badType => .broken .badType
  | badIndex => .broken .badIndex
  | badAttribute => .broken .badAttribute
  | unknownWord word => .broken (.unknownWord word)

def read (text : List Char) : YamlResult :=
  match NodeReader.document (tokens text) with
  | .error e => e.result
  | .ok none => .document .null
  | .ok (some n) =>
    match n.build 0 with
    | .ok v => .document v
    | .error e => e.2.result

end BindingRelease.Yaml
