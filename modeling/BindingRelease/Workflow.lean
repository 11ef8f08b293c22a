import BindingRelease.Matrix
import BindingRelease.Settings
import BindingRelease.Step
import BindingRelease.Yaml.Printer
/-!
Workflow files for the continuous-integration service: one job for every matrix entry when a tag is
pushed, and one test job for every host.
-/
namespace BindingRelease.Workflow

def defaultInterpreter : String := "3.11"

def defaultInstallCommand : String := "pip install native-release"

def expression (e : String) : String :=
  "$\x7b\x7b " ++ e ++ " \x7d\x7d"

def checkoutStep : Value :=
  .object [("name", .text "Checkout repository"), ("uses", .text "actions/checkout@v4"),
    ("with", .object [("submodules", .bool true)])]

def interpreterStep (version : String) : Value :=
  .object [("name", .text "Set up Python"), ("uses", .text "actions/setup-python@v5"),
    ("with", .object [("python-version", .text version)])]

def runStep (name command : String) : List (String × Value) :=
  [("name", .text name), ("run", .text command)]

def setupSteps (version installCommand : String) : List Value :=
  [checkoutStep, interpreterStep version,
    .object (runStep "Install release tooling" installCommand)]

def releaseCommand : String :=
  "native-release release run --adapter github --artifact " ++ expression "matrix.artifact_name"

def testCommand : String :=
  "native-release test run --host " ++ expression "matrix.os"

/-- The job's strategy: every job runs to its end whatever happens to the others. -/
def strategy (name : String) (items : List Value) : Value :=
  .object [("fail-fast", .bool false), ("matrix", .object [(name, .list items)])]

def release (m : Matrix) (version installCommand : String) : List (String × Value) :=
  let work := .object (runStep "Build and upload" releaseCommand ++
    [("env", .object
      [(Settings.defaultTokenVariable, .text (expression "secrets.GITHUB_TOKEN"))])])
  let job := .object
    [("name", .text "Build and upload"), ("strategy", strategy "include" m.toInclude),
      ("runs-on", .text (expression "matrix.os")),
      ("steps", .list (setupSteps version installCommand ++ [work]))]
  [("name", .text "Build release binaries"),
    ("on", .object [("push", .object [("tags", .texts ["*"])])]),
    ("jobs", .object [("build_and_upload", job)])]

def test (hosts : List String) (version installCommand : String) : List (String × Value) :=
  let job := .object
    [("runs-on", .text (expression "matrix.os")),
      ("strategy", strategy "os" (hosts.map .text)),
      ("steps", .list (setupSteps version installCommand ++
        [.object (runStep "Test" testCommand)]))]
  [("name", .text "Rust CI"), ("on", .texts ["push", "pull_request"]),
    ("env", .object [("CARGO_TERM_COLOR", .text "always")]),
    ("jobs", .object [("test", job)])]

def document (workflow : List (String × Value)) : String :=
  Yaml.print (workflow.map fun f => (.text f.1, f.2))

def write (workflow : List (String × Value)) (output : Option Path) : Step String := do
  let text := document workflow
  match output with
  | some file => do
    Step.makeDirectories file.parent
    Step.writeFile file text
  | none => pure ()
  pure text

end BindingRelease.Workflow
