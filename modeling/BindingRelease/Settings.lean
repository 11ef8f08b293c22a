import BindingRelease.Env
import BindingRelease.Publish.Host
/-!
The settings of a run: where the sources are, what is released, who may write and how many contexts
run at once. The variables of the surrounding platform give them, and overrides come before those.
-/
namespace BindingRelease

structure Settings where
  workspace : Path
  bindingDir : String
  repository : Option String
  ref : Option String
  tokenVariable : String
  api : String
  compilerDir : Option Path
  workers : Option Int
  deriving DecidableEq

namespace Settings

def defaultBindingDir : String := "dart-ffi"

def defaultTokenVariable : String := "GITHUB_TOKEN"

/-- Checks settings; the workspace is the current directory unless it is given, and entries that
are no settings are left aside. -/
def check (cwd : Path) : Value → Checked Settings
  | .map es =>
    ((Schema.withDefault es "workspace_root" cwd Schema.path).both
      ((Schema.withDefault es "binding_dir" defaultBindingDir Schema.text).both
        ((Schema.withDefault es "repository" none (Schema.nullable Schema.text)).both
          ((Schema.withDefault es "ref" none (Schema.nullable Schema.text)).both
            ((Schema.withDefault es "token_env" defaultTokenVariable Schema.text).both
              ((Schema.withDefault es "github_api" ReleaseHost.defaultApi Schema.text).both
                ((Schema.withDefault es "compiler_dir" none (Schema.nullable Schema.path)).both
                  (Schema.withDefault es "max_workers" none
                    (Schema.nullable Schema.integer))))))))).map
      fun (workspace, bindingDir, repository, ref, tokenVariable, api, compilerDir, workers) =>
        ⟨workspace, bindingDir, repository, ref, tokenVariable, api, compilerDir, workers⟩
  | _ => .fault .notRecord

def platformValues (env : Env) : List (String × Value) :=
  let given (variableName field : String) : Option (String × Value) :=
    (env.nonempty? variableName).map fun v => (field, .text v)
  let compilerDir := (env.nonempty? "RUNNER_TEMP").map fun v =>
    ("compiler_dir", Value.text (Path.ofString v / "llvm").toString)
  [given "GITHUB_WORKSPACE" "workspace_root", given "GITHUB_REPOSITORY" "repository",
    given "GITHUB_REF" "ref", given "GITHUB_API_URL" "github_api", compilerDir].reduceOption

/-- Settings from the platform's variables, with overrides; a null override is none. -/
def ofEnv (cwd : Path) (env : Env) (overrides : List (String × Value)) : Checked Settings :=
  let given := overrides.filter fun o => match o.2 with
    | .null => false
    | _ => true
  check cwd (.map (Value.mapOfEntries
    ((platformValues env ++ given).map fun f => (.text f.1, f.2))))

def bindingRoot (s : Settings) : Path :=
  s.workspace / s.bindingDir

def resolvedCompilerDir (s : Settings) : Path :=
  s.compilerDir.getD (s.workspace / "build" / "llvm")

/-- The release that a ref, or else the triggering one, and the token variable name. A dry run
needs no token. -/
def target (s : Settings) (ref : Option String) (env : Env) (needsToken : Bool) :
    Except ConfigurationError Target :=
  match (ref.filter (· ≠ "")).or (s.ref.filter (· ≠ "")) with
  | none => .error .noRef
  | some r =>
    let token := (env.get? s.tokenVariable).getD ""
    if token = "" && needsToken then .error (.tokenNotSet s.tokenVariable)
    else Target.ofRef r token s.repository

def fields (s : Settings) : List (String × Value) :=
  [("workspace_root", .text s.workspace.toString), ("binding_dir", .text s.bindingDir),
    ("repository", .ofOption s.repository), ("ref", .ofOption s.ref),
    ("token_env", .text s.tokenVariable), ("github_api", .text s.api),
    ("compiler_dir", .ofOption (s.compilerDir.map Path.toString)),
    ("max_workers", match s.workers with
      | some n => .int n
      | none => .null)]

def toValue (s : Settings) : Value :=
  .object s.fields

/-- The settings' values after one of them is overwritten, which is not checked; none if there is
no such setting. -/
def assigned (s : Settings) (name : String) (v : Value) : Option Value :=
  if s.fields.any fun f => f.1 = name then
    some (.object (s.fields.map fun f => if f.1 = name then (name, v) else f))
  else none

end Settings
end BindingRelease
