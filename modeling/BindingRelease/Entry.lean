import BindingRelease.Schema
/-!
One entry of the release matrix: the runner it builds on, the artifact it makes and the script
that makes it, with at most one argument.
-/
namespace BindingRelease

structure Entry where
  host : String
  artifact : String
  script : String
  argument : Option String
  deriving DecidableEq, Repr

namespace Entry

def givenArgument (e : Entry) : Option String :=
  e.argument.filter (· ≠ "")

def scriptLine (e : Entry) : String :=
  match e.givenArgument with
  | some a => e.script ++ " " ++ a
  | none => e.script

def toWorkflow (e : Entry) : List (String × String) :=
  [("os", e.host), ("artifact_name", e.artifact), ("script", e.scriptLine)]

def declared : List String :=
  ["host_os", "artifact_name", "build_script", "build_script_arg"]

def check : Value → Checked Entry :=
  Schema.record declared fun es =>
    ((Schema.required es "host_os" Schema.text).both
      ((Schema.required es "artifact_name" Schema.text).both
        ((Schema.required es "build_script" Schema.text).both
          (Schema.withDefault es "build_script_arg" none (Schema.nullable Schema.text))))).map
      fun (host, artifact, script, argument) => ⟨host, artifact, script, argument⟩

def toValue (e : Entry) : Value :=
  .object [("host_os", .text e.host), ("artifact_name", .text e.artifact),
    ("build_script", .text e.script), ("build_script_arg", .ofOption e.argument)]

end Entry
end BindingRelease
