import BindingRelease.Step
import BindingRelease.Toolchain
/-!
Provisioning: installing the language toolchain and, where one is needed, the native compiler, and
finding the directory that holds the compiler afterwards. Each installer returns the variables that
the processes of the same context need.
-/
namespace BindingRelease
open Text

def provisionSource : String := "native_release.provision"

def Finished.logOutput (f : Finished) : Step Unit := do
  if f.stdout ≠ "" then Step.log (strip f.stdout)
  if f.stderr ≠ "" then Step.log (strip f.stderr)

structure LanguageInstaller where
  program : String
  profile : String
  deriving DecidableEq, Repr

namespace LanguageInstaller

def rustup : LanguageInstaller := ⟨"rustup", "minimal"⟩

def command (i : LanguageInstaller) (version : String) : List String :=
  [i.program, "toolchain", "install", version, "--profile", i.profile]

/-- Installs a toolchain and selects it through a variable, so that contexts that share a working
tree do not see each other's choice. -/
def install (i : LanguageInstaller) (version : String) : Step (List (String × String)) := do
  let command := i.command version
  Step.log ("Installing Rust toolchain " ++ version ++ ": " ++ " ".intercalate command)
  Step.note .info provisionSource ("Installing Rust toolchain " ++ version)
  let f ← Step.start ⟨.words command, none, none⟩ fun reason =>
    .release (.provisioning (.languageNotStarted i.program reason))
  f.logOutput
  if f.code ≠ 0 then
    let output := strip (if f.stderr ≠ "" then f.stderr else f.stdout)
    Step.fail (.release (.provisioning (.languageFailed version f.code output)))
  else pure [("RUSTUP_TOOLCHAIN", version)]

end LanguageInstaller

namespace Clang

/-- The file `clang` in a directory of a search list; an empty element is the current directory. -/
def candidate (element : String) : Path :=
  Path.ofString element / "clang"

def searchIn : List String → Step (Option Path)
  | [] => pure none
  | element :: elements => do
    if ← Step.isExecutable (candidate element) then
      pure (some (candidate element).parent)
    else searchIn elements

def search (list : String) : Step (Option Path) :=
  if list = "" then pure none else searchIn (splitAt ':' list)

/-- The directory holding clang: that of the installation before those of the search path. -/
def locate (directory : Path) (searchPath : Option String) : Step (Option Path) := do
  match ← search (directory / "bin").toString with
  | some found => pure (some found)
  | none =>
    match searchPath with
    | none => pure none
    | some list => search list

end Clang

structure CompilerInstaller where
  template : Option String
  deriving DecidableEq, Repr

namespace CompilerInstaller

def usualTemplate : String :=
  "choco install llvm --version \x7bversion\x7d --yes --no-progress " ++
    "--install-arguments=\"/D=\x7bdirectory\x7d\""

def llvm : CompilerInstaller := ⟨some usualTemplate⟩

def render (template version : String) (directory : Path) :
    Except Template.TemplateError String :=
  Template.fill template
    [("version", Shell.quote version), ("directory", directory.toString)]

def runInstallation (template : String) (c : Compiler) (directory : Path) (env : Env) :
    Step Unit := do
  let command ← Step.ofExcept (fun e => .crash (.template e)) (render template c.version directory)
  Step.log ("Installing " ++ c.name ++ " " ++ c.version ++ ": " ++ command)
  Step.note .info provisionSource
    ("Installing " ++ c.name ++ " " ++ c.version ++ " into " ++ directory.toString)
  Step.makeDirectories directory
  let f ← Step.start ⟨.shell command, none, some env⟩ fun reason => .crash (.notStarted reason)
  f.logOutput
  if f.code ≠ 0 then
    Step.fail (.release (.provisioning (.compilerFailed c.name c.version f.code)))

def extendedPath (directory : Path) (old : String) : String :=
  if old = "" then directory.toString else directory.toString ++ ":" ++ old

/-- Installs a compiler into a directory and returns where it is, with the search path for it. -/
def install (i : CompilerInstaller) (c : Compiler) (directory : Path) (env : Env) :
    Step (List (String × String)) := do
  match i.template.filter (· ≠ "") with
  | some template => runInstallation template c directory env
  | none => pure ()
  match ← Clang.locate directory (env.get? "PATH") with
  | none => Step.fail (.release (.provisioning (.clangMissing (directory / "bin") c.name)))
  | some found =>
    Step.log (c.envVar ++ "=" ++ found.toString)
    pure [(c.envVar, found.toString), ("PATH", extendedPath found ((env.get? "PATH").getD ""))]

end CompilerInstaller
end BindingRelease
