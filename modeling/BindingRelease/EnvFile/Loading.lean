import BindingRelease.EnvFile.Variables
import BindingRelease.Step
/-!
Loading the environment file of a working tree. It may be missing, be a directory, or be switched
off by a variable of the environment; lines that fit no statement are only warned about.
-/
namespace BindingRelease.EnvFile

def warn (line : Nat) : Step Unit :=
  Step.note .warning "dotenv.main"
    ("python-dotenv could not parse statement starting at line " ++ Text.decimalText line)

def warnAll : List Nat → Step Unit
  | [] => pure ()
  | n :: ns => do
    warn n
    warnAll ns

def contentOf (path : Path) : Step (List Char) := do
  if ← Step.isFile path then Step.readText path else pure []

def disabledNote : String :=
  "python-dotenv: .env loading disabled by PYTHON_DOTENV_DISABLED environment variable"

def readStatements (env : Env) (path : Path) : Step (List (Nat × Statement)) := do
  if ← Step.present path then
    Step.note .debug "native_release.settings" ("Loading environment from " ++ path.toString)
    if isYes ((env.get? "PYTHON_DOTENV_DISABLED").getD "") then
      Step.note .debug "dotenv.main" disabledNote
      pure []
    else
      let ss := statements (← contentOf path)
      warnAll (malformedLines ss)
      pure ss
  else pure []

/-- The environment with the variables of a file added, and whether the file names any. A variable
that no process can hold ends the loading; those before it are set. -/
def load (env : Env) (path : Path) : Step (Env × Except Failure Bool) := do
  match ← (readStatements env path).attempt with
  | .error e => pure (env, .error e)
  | .ok ss =>
    let known := valuesOf env ss
    match assign env known with
    | (env', true) => pure (env', .ok !known.isEmpty)
    | (env', false) => pure (env', .error (.crash .badValue))

end BindingRelease.EnvFile
