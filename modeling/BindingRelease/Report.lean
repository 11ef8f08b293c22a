import BindingRelease.Build
import BindingRelease.Publish.Upload
import BindingRelease.Toolchain
/-!
Reports: what became of one context, and of all contexts of a run. A report is written as plain
data without the parts that are not there.
-/
namespace BindingRelease

/-- The stages a context goes through; reports read from elsewhere may name others. -/
inductive Stage where
  | setup
  | provision
  | checkout
  | build
  | publish
  | test
  | other (name : String)
  deriving DecidableEq, Repr

namespace Stage

def name : Stage → String
  | setup => "setup"
  | provision => "provision"
  | checkout => "checkout"
  | build => "build"
  | publish => "publish"
  | test => "test"
  | other n => n

def ofName (n : String) : Stage :=
  ([setup, provision, checkout, build, publish, test].find? fun s => s.name = n).getD (other n)

end Stage

inductive Status where
  | succeeded
  | failed
  | cancelled
  | other (name : String)
  deriving DecidableEq, Repr

namespace Status

def name : Status → String
  | succeeded => "succeeded"
  | failed => "failed"
  | cancelled => "cancelled"
  | other n => n

def ofName (n : String) : Status :=
  ([succeeded, failed, cancelled].find? fun s => s.name = n).getD (other n)

end Status

structure Report where
  key : String
  host : String
  status : Status
  failedStage : Option Stage
  error : Option String
  toolchain : Option Toolchain
  invocation : Option Invocation
  upload : Option Upload
  logs : List String
  deriving DecidableEq

namespace Report

def ok (r : Report) : Bool := r.status = .succeeded

def failed (r : Report) : Bool := r.status = .failed

def textField (name : String) (text : Option String) : List (String × Value) :=
  match text.filter (· ≠ "") with
  | some s => [(name, .text s)]
  | none => []

def field {α : Type} (name : String) (part : Option α) (value : α → Value) :
    List (String × Value) :=
  match part with
  | some a => [(name, value a)]
  | none => []

def toValue (r : Report) : Value :=
  .object
    ([("key", .text r.key), ("host_os", .text r.host), ("status", .text r.status.name),
      ("logs", .texts r.logs)] ++
      textField "failed_stage" (r.failedStage.map Stage.name) ++
      textField "error" r.error ++
      field "toolchain" r.toolchain Toolchain.toValue ++
      field "command" r.invocation (fun i => .texts i.command) ++
      field "upload" r.upload Upload.toValue)

def allOk (rs : List Report) : Bool := rs.all ok

def keysWhere (p : Report → Bool) (rs : List Report) : List String :=
  (rs.filter p).map key

/-- The assets that were attached to the release; a dry run attaches none. -/
def publishedAssets (rs : List Report) : List String :=
  rs.filterMap fun r => match r.upload with
    | some u => if u.status = Upload.succeeded then some u.asset else none
    | none => none

def releaseRun (tag startedAt : String) (rs : List Report) : Value :=
  .object [("tag", .text tag), ("status", .text (if allOk rs then "ok" else "partial")),
    ("started_at", .text startedAt), ("succeeded", .texts (keysWhere ok rs)),
    ("failed", .texts (keysWhere failed rs)), ("published_assets", .texts (publishedAssets rs)),
    ("contexts", .list (rs.map toValue))]

def testRun (rs : List Report) : Value :=
  .object [("status", .text (if allOk rs then "ok" else "failed")),
    ("failed", .texts (keysWhere failed rs)), ("contexts", .list (rs.map toValue))]

end Report
end BindingRelease
