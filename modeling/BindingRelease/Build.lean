import BindingRelease.Provision
/-!
Running the build script of an entry, and the verification command of the test pipeline.
-/
namespace BindingRelease
open Text

structure Invocation where
  directory : Path
  script : String
  argument : Option String
  artifact : String
  deriving DecidableEq

namespace Invocation

def ofEntry (e : Entry) (bindingRoot : Path) : Invocation :=
  ⟨bindingRoot, "tools/" ++ e.script, e.argument, e.artifact⟩

def command (i : Invocation) : List String :=
  ["bash", i.script] ++ (i.argument.filter (· ≠ "")).toList

def artifactPath (i : Invocation) : Path :=
  i.directory / i.artifact

def check : Value → Checked Invocation :=
  Schema.record ["working_directory", "script_path", "script_arg", "artifact_name"] fun es =>
    ((Schema.required es "working_directory" Schema.path).both
      ((Schema.required es "script_path" Schema.text).both
        ((Schema.withDefault es "script_arg" none (Schema.nullable Schema.text)).both
          (Schema.required es "artifact_name" Schema.text)))).map
      fun (directory, script, argument, artifact) => ⟨directory, script, argument, artifact⟩

def toValue (i : Invocation) : Value :=
  .object [("working_directory", .text i.directory.toString), ("script_path", .text i.script),
    ("script_arg", .ofOption i.argument), ("artifact_name", .text i.artifact)]

end Invocation

/-- Both outputs of a process without the blanks around them, leaving out what is blank. -/
def Finished.combinedOutput (f : Finished) : String :=
  "\n".intercalate (([f.stdout, f.stderr].map strip).filter (· ≠ ""))

def runCommand (wrap : CommandError → ReleaseError) (command : List String) (directory : Path)
    (env : Env) : Step Finished := do
  if ← Step.isDirectory directory then
    Step.start ⟨.words command, some directory, some env⟩ fun reason =>
      .release (wrap (.notStarted (command.headD "") reason))
  else Step.fail (.release (wrap (.directoryMissing directory)))

def commandLogs (command : List String) (directory : Path) (output : String) : List String :=
  ("$ " ++ " ".intercalate command ++ " (cwd=" ++ directory.toString ++ ")") ::
    (if output = "" then [] else [output])

structure BuildOutcome where
  invocation : Invocation
  code : Int
  artifactPath : Path
  logs : List String

def runBuild (i : Invocation) (env : Env) : Step BuildOutcome := do
  Step.note .info "native_release.build" ("Building " ++ i.artifact)
  let f ← runCommand .build i.command i.directory env
  if f.code ≠ 0 then
    Step.fail (.release (.build (.exited ("Build script " ++ i.script) f.code f.combinedOutput)))
  else pure ⟨i, f.code, i.artifactPath, commandLogs i.command i.directory f.combinedOutput⟩

def verifyCommand : List String := ["cargo", "test", "--verbose"]

def runVerification (workspace : Path) (env : Env) (command : List String) :
    Step (List String) := do
  let f ← runCommand .verification command workspace env
  if f.code ≠ 0 then
    Step.fail (.release (.verification
      (.exited ("Verification command '" ++ " ".intercalate command ++ "'") f.code
        f.combinedOutput)))
  else pure (commandLogs command workspace f.combinedOutput)

end BindingRelease
