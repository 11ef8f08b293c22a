import BindingRelease.Path
import BindingRelease.Schema
import BindingRelease.Shell.Words
import BindingRelease.Text.Template
/-!
What can go wrong. A release error belongs to one context and is reported there; it is given by its
cause, and its wording is one function. A crash is any other failure and ends the whole run.
-/
namespace BindingRelease
open Text

inductive ConfigurationError where
  | invalidEntry (entry : Value) (faults : List Fault)
  | unreadableScript (script : String) (reason : Shell.WordError)
  | scriptShape (script : String)
  | entryIncomplete (entry : Value)
  | duplicateArtifacts (names : List String)
  | unknownArtifact (name : String) (available : List String)
  | itemNotMapping (index : Nat) (typeName : String)
  | matrixMissing (path : Path)
  | matrixUnreadable (path : Path)
  | matrixWithoutList (path : Path)
  | unsupportedHost (label : String)
  | refNotTag (ref : String)
  | emptyTag
  | noRef
  | tokenNotSet (name : String)
  | repositoryNotSet
  | unknownAdapter (name : String)
  | nothingSelected

namespace ConfigurationError

/-- The wording; for an entry or a file that another reader refused it ends where that reader's
own report would begin. -/
def message : ConfigurationError → String
  | invalidEntry entry _ => "Invalid matrix entry " ++ entry.literal ++ ": "
  | unreadableScript script reason =>
    "Matrix script '" ++ script ++ "' cannot be parsed: " ++ reason.message
  | scriptShape script => "Matrix script must be '<script> [arg]' (got '" ++ script ++ "')."
  | entryIncomplete entry =>
    "Matrix entry requires 'os' and 'artifact_name' (got " ++ entry.literal ++ ")."
  | duplicateArtifacts names =>
    "Artifact names must be unique within a release; duplicated: " ++ ", ".intercalate names ++ "."
  | unknownArtifact name available =>
    "Unknown artifact '" ++ name ++ "'. Available artifacts: " ++ ", ".intercalate available ++ "."
  | itemNotMapping index typeName =>
    "Matrix include item " ++ decimalText index ++ " must be a mapping (got " ++ typeName ++ ")."
  | matrixMissing path => "Matrix file not found: " ++ path.toString
  | matrixUnreadable path => "Invalid matrix YAML at " ++ path.toString ++ ": "
  | matrixWithoutList path =>
    "Matrix file " ++ path.toString ++ " must define an 'include' list."
  | unsupportedHost label =>
    "Unsupported host OS '" ++ label ++ "'. Expected windows, linux or macos, " ++
      "or a windows-*, ubuntu-* or macos-* runner label."
  | refNotTag ref => "Release runs must be triggered by a tag ref (got '" ++ ref ++ "')."
  | emptyTag => "Release tag cannot be empty."
  | noRef => "No release ref given; pass --ref or set GITHUB_REF."
  | tokenNotSet name => "Release token environment variable '" ++ name ++ "' is not set."
  | repositoryNotSet =>
    "GitHub adapter requires a repository (owner/name); set GITHUB_REPOSITORY."
  | unknownAdapter name => "Unknown publish adapter '" ++ name ++ "'"
  | nothingSelected => "No matrix entries selected."

/-- Whether the message stops before a report that is not part of it. -/
def endsOpen : ConfigurationError → Bool
  | invalidEntry .. | matrixUnreadable .. => true
  | _ => false

end ConfigurationError

inductive ProvisioningError where
  | languageNotStarted (program reason : String)
  | languageFailed (version : String) (code : Int) (output : String)
  | compilerFailed (name version : String) (code : Int)
  | clangMissing (directory : Path) (name : String)
  deriving DecidableEq

def ProvisioningError.message : ProvisioningError → String
  | languageNotStarted program reason => "Unable to run " ++ program ++ ": " ++ reason
  | languageFailed version code output =>
    "rustup failed to install toolchain " ++ version ++ " (exit " ++ integerText code ++ "): " ++
      output
  | compilerFailed name version code =>
    name ++ " " ++ version ++ " installation failed (exit " ++ integerText code ++ ")."
  | clangMissing directory name =>
    "clang not found in " ++ directory.toString ++ " or on PATH after installing " ++ name ++ "."

inductive CheckoutError where
  | workspaceMissing (workspace : Path)
  | notStarted (program reason : String)
  | failed (command : List String) (code : Int) (output : String)
  deriving DecidableEq

def CheckoutError.message : CheckoutError → String
  | workspaceMissing workspace => "Workspace not found: " ++ workspace.toString
  | notStarted program reason => "Unable to run " ++ program ++ ": " ++ reason
  | failed command code output =>
    " ".intercalate (command.take 3) ++ " failed (exit " ++ integerText code ++ "): " ++ output

inductive CommandError where
  | directoryMissing (directory : Path)
  | notStarted (program reason : String)
  | exited (subject : String) (code : Int) (output : String)
  deriving DecidableEq

namespace CommandError

def message : CommandError → String
  | directoryMissing directory => "Working directory not found: " ++ directory.toString
  | notStarted program reason => "Unable to run " ++ program ++ ": " ++ reason
  | exited subject code _ => subject ++ " exited with status " ++ integerText code ++ "."

def code : CommandError → Option Int
  | exited _ code _ => some code
  | _ => none

def output : CommandError → String
  | exited _ _ output => output
  | _ => ""

end CommandError

inductive PublishError where
  | artifactMissing (file : Path) (asset : String)
  | noUploadAddress (repository tag : String)
  | lookupRefused (repository tag : String) (status : Int) (answer : String)
  | creationRefused (repository tag : String) (status : Int) (answer : String)
  | uploadRefused (asset : String) (status : Int) (answer : String)
  | requestFailed (url reason : String)
  | answerNotJson (reason : String)
  | answerNotObject
  | toolNotStarted (program reason : String)
  | toolFailed (code : Int) (asset : String)
  deriving DecidableEq

def PublishError.message : PublishError → String
  | artifactMissing file asset =>
    "Artifact " ++ file.toString ++ " not found; nothing to upload as " ++ asset ++ "."
  | noUploadAddress repository tag =>
    "Release " ++ repository ++ "@" ++ tag ++ " did not report an upload URL."
  | lookupRefused repository tag status answer =>
    "Release lookup for " ++ repository ++ "@" ++ tag ++ " returned " ++ integerText status ++
      ": " ++ answer
  | creationRefused repository tag status answer =>
    "Release creation for " ++ repository ++ "@" ++ tag ++ " returned " ++ integerText status ++
      ": " ++ answer
  | uploadRefused asset status answer =>
    "Asset upload for " ++ asset ++ " returned " ++ integerText status ++ ": " ++ answer
  | requestFailed url reason => "Request to " ++ url ++ " failed: " ++ reason
  | answerNotJson reason => "Release host returned invalid JSON: " ++ reason
  | answerNotObject => "Release host returned an unexpected payload."
  | toolNotStarted program reason => "Unable to run " ++ program ++ ": " ++ reason
  | toolFailed code asset =>
    "gh release upload exited with status " ++ integerText code ++ " for " ++ asset ++ "."

inductive ReleaseError where
  | configuration (e : ConfigurationError)
  | provisioning (e : ProvisioningError)
  | checkout (e : CheckoutError)
  | build (e : CommandError)
  | verification (e : CommandError)
  | publish (e : PublishError)

namespace ReleaseError

def message : ReleaseError → String
  | configuration e => e.message
  | provisioning e => e.message
  | checkout e => e.message
  | build e | verification e => e.message
  | publish e => e.message

def output : ReleaseError → String
  | build e | verification e => e.output
  | _ => ""

end ReleaseError

inductive FileError where
  | missing (path : Path)
  | alreadyExists (path : Path)
  | notDirectory (path : Path)
  | isDirectory (path : Path)
  | badName
  deriving DecidableEq

def FileError.message : FileError → String
  | missing p => "[Errno 2] No such file or directory: " ++ literal p.toString
  | alreadyExists p => "[Errno 17] File exists: " ++ literal p.toString
  | notDirectory p => "[Errno 20] Not a directory: " ++ literal p.toString
  | isDirectory p => "[Errno 21] Is a directory: " ++ literal p.toString
  | badName => "embedded null byte"

/-- A failure that no context reports; it ends the run. -/
inductive Crash where
  | interrupted
  | template (e : Template.TemplateError)
  | file (e : FileError)
  | refused (reason : String)
  | notUtf8
  | unknownWord (word : String)
  | badValue
  | badType
  | badIndex
  | badAttribute
  | invalid (faults : List Fault)

@[match_pattern]
abbrev Crash.notStarted (reason : String) : Crash := .refused reason

inductive Failure where
  | release (e : ReleaseError)
  | crash (c : Crash)

instance : Coe ReleaseError Failure := ⟨.release⟩
instance : Coe Crash Failure := ⟨.crash⟩

def Failure.configuration (e : ConfigurationError) : Failure :=
  .release (.configuration e)

end BindingRelease
