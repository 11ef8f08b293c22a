import BindingRelease.Publish.Upload
import BindingRelease.Step
import BindingRelease.Target
import BindingRelease.Text.Percent
/-!
Publishing through the interface of the release host. The release of the tag is looked up, made if
it is not there, and looked up again if somebody else made it in between; then the asset is sent to
the address that the release reports.
-/
namespace BindingRelease
open Text

abbrev Fields := List (Value × Value)

structure ReleaseHost where
  repository : String
  api : String
  timeout : Nat
  deriving DecidableEq, Repr

namespace ReleaseHost

def defaultApi : String := "https://api.github.com"

def withoutTrailingSlashes (cs : List Char) : List Char :=
  (cs.reverse.dropWhile (· == '/')).reverse

def new (repository api : String) : ReleaseHost :=
  ⟨repository, String.ofList (withoutTrailingSlashes api.toList), 60⟩

def failed (e : PublishError) : Failure := .release (.publish e)

def headers (target : Target) : List (String × String) :=
  [("Authorization", "Bearer " ++ target.token), ("Accept", "application/vnd.github+json")]

def send (r : HttpRequest) : Step HttpResponse := do
  match ← Step.send r with
  | .response a => pure a
  | .failed reason => Step.fail (failed (.requestFailed r.url reason))
  | .broken c => Step.fail (.crash c)

def explanation (a : HttpResponse) : String :=
  if a.text ≠ "" then a.text else a.reason

def object (a : HttpResponse) : Step Fields :=
  match a.json with
  | .error reason => Step.fail (failed (.answerNotJson reason))
  | .ok (.map es) => pure es
  | .ok _ => Step.fail (failed .answerNotObject)

def lookupUrl (h : ReleaseHost) (tag : String) : String :=
  h.api ++ "/repos/" ++ h.repository ++ "/releases/tags/" ++ percentEncode tag

def lookupRequest (h : ReleaseHost) (target : Target) : HttpRequest :=
  ⟨.get, h.lookupUrl target.tag, headers target, [], .none, h.timeout⟩

def creationRequest (h : ReleaseHost) (target : Target) : HttpRequest :=
  ⟨.post, h.api ++ "/repos/" ++ h.repository ++ "/releases", headers target, [],
    .json (.object [("tag_name", .text target.tag), ("name", .text target.tag)]), h.timeout⟩

def uploadRequest (h : ReleaseHost) (target : Target) (url asset : String) (content : List UInt8) :
    HttpRequest :=
  ⟨.post, url, headers target ++ [("Content-Type", "application/octet-stream")],
    [("name", asset)], .bytes content, h.timeout⟩

def find (h : ReleaseHost) (target : Target) : Step (Option Fields) := do
  let a ← send (h.lookupRequest target)
  if a.status = 200 then some <$> object a
  else if a.status = 404 then pure none
  else Step.fail (failed (.lookupRefused h.repository target.tag a.status (explanation a)))

/-- The release of the tag, made if need be. Another context may make it between look-up and
creation; the host refuses the creation then, and a second look-up finds it. -/
def ensure (h : ReleaseHost) (target : Target) : Step Fields := do
  match ← h.find target with
  | some release => pure release
  | none =>
    Step.log ("Release " ++ target.tag ++ " not found; creating it.")
    let a ← send (h.creationRequest target)
    let refused : Failure :=
      failed (.creationRefused h.repository target.tag a.status (explanation a))
    if a.status = 201 then object a
    else if a.status = 422 then
      match ← h.find target with
      | some release =>
        Step.log ("Release " ++ target.tag ++ " was created concurrently; reusing it.")
        pure release
      | none => Step.fail refused
    else Step.fail refused

def uploadUrl (release : Fields) : String :=
  let reported := ((Value.lookup release "upload_url").map Value.plain).getD ""
  String.ofList (reported.toList.takeWhile (· != '{'))

/-- The page of an asset: the one reported for it or else that of the release. -/
def assetPage (release asset : Fields) : Value :=
  match Value.lookup asset "browser_download_url" with
  | some v => if v.truthy then v else (Value.lookup release "html_url").getD .null
  | none => (Value.lookup release "html_url").getD .null

def upload (h : ReleaseHost) (file : Path) (asset : String) (target : Target) : Step Upload := do
  let release ← h.ensure target
  let url := uploadUrl release
  if url = "" then Step.fail (failed (.noUploadAddress h.repository target.tag))
  else
    Step.log ("Uploading " ++ file.name ++ " as " ++ asset ++ " to " ++ h.repository ++ "@" ++
      target.tag ++ ".")
    let content ← Step.readFile file
    let a ← send (h.uploadRequest target url asset content)
    if a.status = 201 then
      let answer ← object a
      match Schema.nullable Schema.text (assetPage release answer) with
      | .ok page => pure ⟨file, asset, target.tag, "github", Upload.succeeded, page⟩
      | .error faults => Step.fail (.crash (.invalid (faults.map (Fault.within (.field "url")))))
    else Step.fail (failed (.uploadRefused asset a.status (explanation a)))

end ReleaseHost
end BindingRelease
