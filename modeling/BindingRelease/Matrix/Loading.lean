import BindingRelease.Matrix
import BindingRelease.Step
/-!
Loading a matrix from a file: an include list, or a mapping with one under `include`.
-/
namespace BindingRelease.Matrix

/-- The document of a text. A text that is no YAML is the user's mistake. -/
def documentOf (path : Path) : YamlResult → Except Failure Value
  | .document v => .ok v
  | .notYaml => .error (.configuration (.matrixUnreadable path))
  | .broken c => .error (.crash c)

def includeOf : Value → Option (List Value)
  | .list items => some items
  | .map es => match Value.lookup es "include" with
    | some (.list items) => some items
    | _ => none
  | _ => none

def load (path : Path) : Step Matrix := do
  if ← Step.present path then
    let text ← Step.readText path
    let document ← Step.ofExcept id (documentOf path (← Step.readYaml text))
    match includeOf document with
    | none => Step.fail (.configuration (.matrixWithoutList path))
    | some items =>
      let m ← Step.ofExcept .configuration (ofInclude items)
      Step.note .debug "native_release.matrix"
        ("Loaded " ++ Text.decimalText m.entries.length ++ " matrix entries from " ++
          path.toString)
      pure m
  else Step.fail (.configuration (.matrixMissing path))

def resolve (path : Option Path) : Step Matrix :=
  match path with
  | none => pure builtIn
  | some p => load p

end BindingRelease.Matrix
