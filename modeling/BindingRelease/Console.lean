import BindingRelease.Arguments.Command
import BindingRelease.EnvFile.Loading
import BindingRelease.Matrix.Loading
import BindingRelease.Value.Json
/-!
The release tool at the console: what a command writes and how it ends. A configuration error ends
it with status two, an interrupt with 130, and a run with a context that did not succeed with one.
-/
namespace BindingRelease
open Arguments

/-- What a command leaves behind: its output, its message for the user, and its status. -/
structure Ending where
  status : Nat
  output : String
  message : String
  deriving DecidableEq, Repr

namespace Ending

def ok (output : String) : Ending := ⟨0, output, ""⟩

def report (status : Nat) (v : Value) : Ending := ⟨status, v.json ++ "\n", ""⟩

end Ending

namespace Command

structure Place where
  cwd : Path
  env : Env

def selected (matrix : Option String) (artifacts : List String) (host : Option String) :
    Step Matrix := do
  let whole ← Matrix.resolve (matrix.map Path.ofString)
  Step.ofExcept .configuration (whole.select artifacts host)

def listMatrix (matrix : Option String) : Step Ending := do
  let m ← Matrix.resolve (matrix.map Path.ofString)
  pure (.report 0 (.list m.toInclude))

def toolchains (m : Matrix) : Except ConfigurationError (List (Entry × Toolchain)) :=
  m.entries.mapM fun e => (Toolchain.forRelease e).map fun t => (e, t)

def validateMatrix (matrix : Option String) : Step Ending := do
  let m ← Matrix.resolve (matrix.map Path.ofString)
  let _ ← Step.ofExcept .configuration (toolchains m)
  pure (.report 0 (.object [("status", .text "ok"), ("entries", .int m.entries.length),
    ("artifacts", .texts m.artifactNames)]))

def showToolchains (matrix : Option String) (artifacts : List String) : Step Ending := do
  let m ← selected matrix artifacts none
  let pairs ← Step.ofExcept .configuration (toolchains m)
  pure (.report 0 (.list (pairs.map fun (e, t) =>
    .object [("artifact_name", .text e.artifact), ("host_os", .text e.host),
      ("toolchain", t.toValue)])))

def settings (place : Place) (run : RunChoices) (more : List (String × Value)) : Step Settings :=
  let workspace := (run.workspace.filter (· ≠ "")).map fun w =>
    (Path.resolve place.cwd (Path.ofString w)).toString
  let overrides : List (String × Value) :=
    [("workspace_root", .ofOption workspace), ("binding_dir", .text run.bindingDir),
      ("compiler_dir", .ofOption (run.compilerDir.filter (· ≠ ""))),
      ("max_workers", .int run.jobs)] ++ more
  Step.ofExcept (fun faults => .crash (.invalid faults))
    (Settings.ofEnv place.cwd place.env overrides)

def surroundings (place : Place) (run : RunChoices) (s : Settings) (adapter : Adapter) :
    Surroundings where
  collaborators :=
    { adapter := adapter
      language := .rustup
      compiler := ⟨some run.installCommand⟩
      checkout := if run.skipCheckout then .existing else .standardGit }
  settings := s
  env := place.env
  ambient := place.env
  signal := true

def reported (rs : List Report) (v : Value) : Ending :=
  .report (if Report.allOk rs then 0 else 1) v

def runRelease (schedule : List Nat) (place : Place) (run : RunChoices) (c : ReleaseChoices) :
    Step Ending := do
  let s ← settings place run
    [("repository", .ofOption c.repository), ("token_env", .text c.tokenVariable)]
  let m ← selected c.matrix c.artifacts c.host
  if m.entries = [] then Step.fail (.configuration .nothingSelected)
  else
    let adapterName := if c.dryRun then "noop" else c.adapter
    let target ← Step.ofExcept .configuration
      (s.target c.ref place.env (adapterName ≠ "noop"))
    let adapter ← Step.ofExcept .configuration (Adapter.ofName adapterName s.repository s.api)
    let rs ← (surroundings place run s adapter).release schedule m target
    let time ← Step.now
    pure (reported rs (Report.releaseRun target.tag time rs))

def runTests (schedule : List Nat) (place : Place) (run : RunChoices) (hosts : List String) :
    Step Ending := do
  let s ← settings place run []
  let hosts := if hosts = [] then Matrix.testHosts else hosts
  let rs ← (surroundings place run s .dryRun).test schedule hosts verifyCommand
  pure (reported rs (Report.testRun rs))

def renderWorkflow (kind : String) (matrix output : Option String) : Step Ending := do
  let workflow ←
    if kind = "release" then do
      let m ← Matrix.resolve (matrix.map Path.ofString)
      pure (Workflow.release m Workflow.defaultInterpreter Workflow.defaultInstallCommand)
    else pure (Workflow.test Matrix.testHosts Workflow.defaultInterpreter
      Workflow.defaultInstallCommand)
  match output.filter (· ≠ "") with
  | none => pure (.ok (← Workflow.write workflow none))
  | some file => do
    let _ ← Workflow.write workflow (some (Path.ofString file))
    pure (.ok "")

def run (schedule : List Nat) (place : Place) : Command → Step Ending
  | matrixList matrix => listMatrix matrix
  | matrixValidate matrix => validateMatrix matrix
  | toolchainShow matrix artifacts => showToolchains matrix artifacts
  | releaseRun run c => runRelease schedule place run c
  | testRun run hosts => runTests schedule place run hosts
  | workflowRender kind matrix output => renderWorkflow kind matrix output

/-- A failure that is told to the user; a crash other than an interrupt is not. -/
def told : Failure → Except Crash Ending
  | .release (.configuration e) =>
    .ok ⟨2, "", e.message ++ (if e.endsOpen then "" else "\n")⟩
  | .release e => .ok ⟨2, "", e.message ++ "\n"⟩
  | .crash .interrupted => .ok ⟨130, "", "Run cancelled.\n"⟩
  | .crash c => .error c

end Command

/-- The tool's output on both channels, how it ended, and the variables after it. -/
structure Console where
  output : String
  messages : String
  status : Except Crash Nat
  env : Env

namespace Console

def noteLines (level : Level) (notes : List Note) : String :=
  String.join ((notes.filter fun n => level.rank ≤ n.level.rank).map fun n => n.line ++ "\n")

def refused (env : Env) : Refusal → Console
  | .complaint program c =>
    ⟨"", " ".intercalate program ++ ": error: " ++ c.message ++ "\n", .ok 2, env⟩
  | .help program => ⟨"usage: " ++ " ".intercalate program ++ "\n", "", .ok 0, env⟩

def ended (level : Level) (env : Env) (notes : List Note) : Except Crash Ending → Console
  | .ok e => ⟨e.output, noteLines level notes ++ e.message, .ok e.status, env⟩
  | .error c => ⟨"", noteLines level notes, .error c, env⟩

/-- Loads the environment file of the current directory and runs a command. -/
def runCommand (schedule : List Nat) (invoked : Invoked) (cwd : Path) (env : Env) :
    Step (Env × Except Crash Ending) := do
  match ← EnvFile.load env (cwd / ".env") with
  | (env, .error (.crash c)) => pure (env, .error c)
  | (env, .error e) => pure (env, Command.told e)
  | (env, .ok _) =>
    match ← (invoked.command.run schedule ⟨cwd, env⟩).attempt with
    | .ok e => pure (env, .ok e)
    | .error e => pure (env, Command.told e)

def runScheduled (schedule : List Nat) (words : List String) (cwd : Path) (env : Env) :
    Program Console :=
  match Command.read words with
  | .error r => .done (refused env r)
  | .ok invoked =>
    (runCommand schedule invoked cwd env).run.map fun (journal, r) =>
      match r with
      | .ok (env, ending) => ended invoked.level env journal.notes ending
      | .error e => ended invoked.level env journal.notes (Command.told e)

def run (words : List String) (cwd : Path) (env : Env) : Program Console :=
  runScheduled [] words cwd env

end Console
end BindingRelease
