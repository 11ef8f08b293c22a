import BindingRelease.Arguments.Reading
import BindingRelease.Run
import BindingRelease.Workflow
/-!
The commands of the release tool and the grammar of its command line.
-/
namespace BindingRelease
open Arguments Text

structure RunChoices where
  workspace : Option String
  bindingDir : String
  compilerDir : Option String
  installCommand : String
  skipCheckout : Bool
  jobs : Int
  deriving DecidableEq, Repr

structure ReleaseChoices where
  matrix : Option String
  ref : Option String
  artifacts : List String
  host : Option String
  adapter : String
  repository : Option String
  tokenVariable : String
  dryRun : Bool
  deriving DecidableEq, Repr

inductive Command where
  | matrixList (matrix : Option String)
  | matrixValidate (matrix : Option String)
  | toolchainShow (matrix : Option String) (artifacts : List String)
  | releaseRun (run : RunChoices) (release : ReleaseChoices)
  | testRun (run : RunChoices) (hosts : List String)
  | workflowRender (kind : String) (matrix output : Option String)
  deriving DecidableEq, Repr

structure Invoked where
  level : Level
  command : Command
  deriving DecidableEq, Repr

namespace Command

def programName : String := "native-release"

def value (name : String) : Switch := ⟨[name], .value, false⟩

def choice (name : String) (allowed : List String) : Switch := ⟨[name], .choice allowed, false⟩

def levels : List Level := [.debug, .info, .warning, .error]

def levelWord (l : Level) : String := String.ofList (l.name.toList.map Char.toLower)

def levelOf (word : String) : Level :=
  (levels.find? fun l => levelWord l = word).getD .warning

def runSwitches : List Switch :=
  [value "--workspace-root", value "--binding-dir", value "--compiler-dir",
    value "--llvm-install-command", ⟨["--skip-checkout"], .flag, false⟩,
    ⟨["--jobs"], .integer, false⟩]

def releaseSwitches : List Switch :=
  [value "--matrix", value "--ref", value "--artifact", value "--host",
    choice "--adapter" ["github", "gh", "noop"], value "--repository", value "--token-env",
    ⟨["--dry-run", "--no-dry-run"], .flag, false⟩]

def grammar : Grammar :=
  .commands [choice "--log-level" (levels.map levelWord)] "command"
    [("matrix", .commands [] "matrix_command"
      [("list", .switches [value "--matrix"]),
        ("validate", .switches [⟨["--matrix"], .value, true⟩])]),
    ("toolchain", .commands [] "toolchain_command"
      [("show", .switches [value "--matrix", value "--artifact"])]),
    ("release", .commands [] "release_command"
      [("run", .switches (runSwitches ++ releaseSwitches))]),
    ("test", .commands [] "test_command"
      [("run", .switches (runSwitches ++ [value "--host"]))]),
    ("workflow", .commands [] "workflow_command"
      [("render", .switches
        [choice "--kind" ["release", "ci"], value "--matrix", value "--output"])])]

def runChoices (p : Parsed) : RunChoices where
  workspace := p.last? "--workspace-root"
  bindingDir := (p.last? "--binding-dir").getD Settings.defaultBindingDir
  compilerDir := p.last? "--compiler-dir"
  installCommand := (p.last? "--llvm-install-command").getD CompilerInstaller.usualTemplate
  skipCheckout := p.has "--skip-checkout"
  jobs := ((p.last? "--jobs").bind fun w => readInteger? w.toList).getD 1

def releaseChoices (p : Parsed) : ReleaseChoices where
  matrix := p.last? "--matrix"
  ref := p.last? "--ref"
  artifacts := p.every "--artifact"
  host := p.last? "--host"
  adapter := (p.last? "--adapter").getD "github"
  repository := p.last? "--repository"
  tokenVariable := (p.last? "--token-env").getD Settings.defaultTokenVariable
  dryRun := p.last? "--dry-run" = some "--dry-run"

/-- The command that was read; the grammar admits no others than these. -/
def ofParsed (p : Parsed) : Option Command :=
  match p.commands with
  | ["matrix", "list"] => some (.matrixList (p.last? "--matrix"))
  | ["matrix", "validate"] => some (.matrixValidate (p.last? "--matrix"))
  | ["toolchain", "show"] => some (.toolchainShow (p.last? "--matrix") (p.every "--artifact"))
  | ["release", "run"] => some (.releaseRun (runChoices p) (releaseChoices p))
  | ["test", "run"] => some (.testRun (runChoices p) (p.every "--host"))
  | ["workflow", "render"] =>
    some (.workflowRender ((p.last? "--kind").getD "release") (p.last? "--matrix")
      (p.last? "--output"))
  | _ => none

def read (words : List String) : Except Refusal Invoked := do
  let p ← readAll programName grammar words
  match ofParsed p with
  | some c => return ⟨levelOf ((p.last? "--log-level").getD "warning"), c⟩
  | none => .error (.help [programName])

end Command
end BindingRelease
