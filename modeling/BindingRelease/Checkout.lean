import BindingRelease.Provision
/-!
Getting the sources: those that are there, or a checkout with its submodules.
-/
namespace BindingRelease

inductive Checkout where
  | existing
  | git (url ref : Option String) (submodules : Bool) (program : String)
  deriving DecidableEq, Repr

namespace Checkout

def standardGit : Checkout := .git none none true "git"

def missingWorkspace (workspace : Path) : Failure :=
  .release (.checkout (.workspaceMissing workspace))

/-- Runs one command in a directory, which is made if need be. -/
def runIn (directory : Path) (command : List String) : Step Unit := do
  Step.log ("$ " ++ " ".intercalate command)
  Step.note .debug "native_release.checkout"
    ("Running " ++ (Value.texts command).literal ++ " in " ++ directory.toString)
  Step.makeDirectories directory
  let f ← Step.start ⟨.words command, some directory, none⟩ fun reason =>
    .release (.checkout (.notStarted (command.headD "") reason))
  f.logOutput
  if f.code ≠ 0 then
    Step.fail (.release (.checkout (.failed command f.code (Text.strip f.stderr))))

def cloneCommand (program url : String) (submodules : Bool) (workspace : Path) : List String :=
  [program, "clone"] ++ (if submodules then ["--recurse-submodules"] else []) ++
    [url, workspace.toString]

def submoduleCommand (program : String) : List String :=
  [program, "submodule", "update", "--init", "--recursive"]

def clone (program url : String) (ref : Option String) (submodules : Bool) (workspace : Path) :
    Step Unit := do
  runIn workspace.parent (cloneCommand program url submodules workspace)
  match ref.filter (· ≠ "") with
  | some r => runIn workspace [program, "checkout", r]
  | none => pure ()

def wantsClone (url : Option String) (workspace : Path) : Step (Option String) :=
  match url.filter (· ≠ "") with
  | none => pure none
  | some u => do
    if ← Step.present (workspace / ".git") then pure none else pure (some u)

def acquire (c : Checkout) (workspace : Path) : Step Path :=
  match c with
  | .existing => do
    if ← Step.isDirectory workspace then
      Step.log ("Using existing sources at " ++ workspace.toString ++ ".")
      pure workspace
    else Step.fail (missingWorkspace workspace)
  | .git url ref submodules program => do
    match ← wantsClone url workspace with
    | some u => clone program u ref submodules workspace
    | none =>
      if ← Step.isDirectory workspace then pure ()
      else Step.fail (missingWorkspace workspace)
    if submodules then runIn workspace (submoduleCommand program)
    pure workspace

end Checkout
end BindingRelease
