import BindingRelease.Provision
import BindingRelease.Publish.Host
/-!
Publishing an artifact: with a dry run, through the release host's interface, or with its command
line tool. Only a file that is there is published.
-/
namespace BindingRelease
open Text

structure HostTool where
  repository : Option String
  program : String
  deriving DecidableEq, Repr

inductive Adapter where
  | dryRun
  | host (h : ReleaseHost)
  | tool (t : HostTool)
  deriving DecidableEq, Repr

namespace HostTool

/-- The upload argument. The tool takes the name of an asset from its file; another name goes
behind a number sign and becomes the asset's label. -/
def argument (file : Path) (asset : String) : String :=
  if file.name = asset then file.toString else file.toString ++ "#" ++ asset

def command (t : HostTool) (tag : String) (file : Path) (asset : String) : List String :=
  [t.program, "release", "upload", tag, argument file asset] ++
    (match t.repository.filter (· ≠ "") with
      | some r => ["--repo", r]
      | none => [])

def page (t : HostTool) (tag : String) : Option String :=
  (t.repository.filter (· ≠ "")).map fun r => "https://github.com/" ++ r ++ "/releases/tag/" ++ tag

def upload (t : HostTool) (ambient : Env) (file : Path) (asset : String) (target : Target) :
    Step Upload := do
  Step.log ("Uploading " ++ asset ++ " to release " ++ target.tag ++ " via gh CLI.")
  let f ← Step.start
    ⟨.words (t.command target.tag file asset), none, some (ambient.set "GH_TOKEN" target.token)⟩
    fun reason => .release (.publish (.toolNotStarted t.program reason))
  f.logOutput
  if f.code ≠ 0 then Step.fail (.release (.publish (.toolFailed f.code asset)))
  else pure ⟨file, asset, target.tag, "gh", Upload.succeeded, t.page target.tag⟩

end HostTool

namespace Adapter

def name : Adapter → String
  | dryRun => "noop"
  | host _ => "github"
  | tool _ => "gh"

/-- The adapter with a given name; case does not count, and no name means a dry run. Lower-casing
ASCII letters is enough, since no other letter becomes one of those in the names. -/
def ofName (name : String) (repository : Option String) (api : String) :
    Except ConfigurationError Adapter :=
  let lowered := String.ofList (name.toList.map Char.toLower)
  if lowered = "" || lowered = "noop" || lowered = "none" then .ok .dryRun
  else if lowered = "github" then
    match repository.filter (· ≠ "") with
    | some r => .ok (.host (ReleaseHost.new r api))
    | none => .error .repositoryNotSet
  else if lowered = "gh" then .ok (.tool ⟨repository, "gh"⟩)
  else .error (.unknownAdapter name)

/-- Uploads a file. `ambient` is the environment of the release itself. -/
def upload (a : Adapter) (ambient : Env) (file : Path) (asset : String) (target : Target) :
    Step Upload :=
  match a with
  | .dryRun => do
    Step.log ("NoOp adapter selected; skipping upload of " ++ file.toString ++ " as " ++ asset ++
      "@" ++ target.tag ++ ".")
    pure ⟨file, asset, target.tag, "noop", "skipped", none⟩
  | .host h => h.upload file asset target
  | .tool t => t.upload ambient file asset target

def publish (a : Adapter) (ambient : Env) (file : Path) (asset : String) (target : Target) :
    Step Upload := do
  if ← Step.isFile file then
    Step.note .info "native_release.publish"
      ("Publishing " ++ asset ++ " to " ++ target.tag ++ " via " ++ a.name)
    a.upload ambient file asset target
  else Step.fail (.release (.publish (.artifactMissing file asset)))

end Adapter
end BindingRelease
