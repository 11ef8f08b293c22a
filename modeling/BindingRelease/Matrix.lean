import BindingRelease.Entry
import BindingRelease.Error
/-!
The release matrix: entries in order with pairwise distinct artifact names. Built from a list it
either keeps the list or names every artifact that occurs twice; selections of a matrix are
matrices again.
-/
namespace BindingRelease

structure Matrix where
  entries : List Entry
  distinct : (entries.map Entry.artifact).Nodup
  deriving DecidableEq

namespace Entry

/-- Reads an entry as a workflow file lists it; without a script it must be a complete record. -/
def ofMapping (es : Schema.Entries) : Except ConfigurationError Entry :=
  match Value.lookup es "script" with
  | none =>
    match check (.map es) with
    | .ok e => .ok e
    | .error faults => .error (.invalidEntry (.map es) faults)
  | some scriptValue =>
    let script := scriptValue.plain
    match Shell.split script with
    | .error reason => .error (.unreadableScript script reason)
    | .ok words =>
      let named (ws : String × Option String) : Except ConfigurationError Entry :=
        let host := (Value.lookup es "os").or (Value.lookup es "host_os")
        match host, Value.lookup es "artifact_name" with
        | some h, some a =>
          if h.truthy && a.truthy then .ok ⟨h.plain, a.plain, ws.1, ws.2⟩
          else .error (.entryIncomplete (.map es))
        | _, _ => .error (.entryIncomplete (.map es))
      match words with
      | [s] => named (s, none)
      | [s, a] => named (s, some a)
      | _ => .error (.scriptShape script)

end Entry

namespace Matrix

def repeated (names : List String) : List String :=
  (names.eraseDups.filter fun n => names.count n > 1).mergeSort fun a b => decide (a ≤ b)

def ofEntries (es : List Entry) : Except ConfigurationError Matrix :=
  if h : (es.map Entry.artifact).Nodup then .ok ⟨es, h⟩
  else .error (.duplicateArtifacts (repeated (es.map Entry.artifact)))

def artifactNames (m : Matrix) : List String :=
  m.entries.map Entry.artifact

def hosts (m : Matrix) : List String :=
  (m.entries.map Entry.host).eraseDups

def get (m : Matrix) (name : String) : Except ConfigurationError Entry :=
  match m.entries.find? fun e => e.artifact = name with
  | some e => .ok e
  | none => .error (.unknownArtifact name m.artifactNames)

def filter (keep : Entry → Bool) (m : Matrix) : Matrix where
  entries := m.entries.filter keep
  distinct := m.distinct.sublist (List.filter_sublist.map _)

def checkNames (m : Matrix) : List String → Except ConfigurationError Unit
  | [] => .ok ()
  | n :: ns => do
    let _ ← m.get n
    m.checkNames ns

/-- The entries with one of the wanted artifacts and on the wanted host. No names, and an empty or
absent host, want everything. -/
def select (m : Matrix) (artifacts : List String) (host : Option String) :
    Except ConfigurationError Matrix := do
  m.checkNames artifacts
  let byName := if artifacts = [] then m else m.filter fun e => artifacts.contains e.artifact
  match host.filter (· ≠ "") with
  | some h => return byName.filter fun e => e.host == h
  | none => return byName

def toWorkflow (m : Matrix) : List (List (String × String)) :=
  m.entries.map Entry.toWorkflow

def entriesOfInclude : Nat → List Value → Except ConfigurationError (List Entry)
  | _, [] => .ok []
  | n, .map es :: items => do
    let e ← Entry.ofMapping es
    let rest ← entriesOfInclude (n + 1) items
    return e :: rest
  | n, item :: _ => .error (.itemNotMapping n item.typeName)

def ofInclude (items : List Value) : Except ConfigurationError Matrix := do
  ofEntries (← entriesOfInclude 0 items)

def toInclude (m : Matrix) : List Value :=
  m.toWorkflow.map fun fields => .object (fields.map fun f => (f.1, .text f.2))

def toValue (m : Matrix) : Value :=
  .object [("entries", .list (m.entries.map Entry.toValue))]

/-- Checks a matrix given as a record; repeated artifacts are found only when the entries are
records themselves. -/
def check (v : Value) : Checked (Except ConfigurationError Matrix) :=
  (Schema.record ["entries"] (fun es =>
    Schema.withDefault es "entries" [] (Schema.items Entry.check)) v).map ofEntries

def macosLatest : String := "macos-latest"
def macos11 : String := "macos-11"
def ubuntuLatest : String := "ubuntu-latest"
def windowsLatest : String := "windows-latest"

def builtIn : Matrix where
  entries :=
    [⟨macosLatest, "libisar_android_arm64.so", "build_android.sh", none⟩,
     ⟨macosLatest, "libisar_android_armv7.so", "build_android.sh", some "armv7"⟩,
     ⟨macosLatest, "libisar_android_x64.so", "build_android.sh", some "x64"⟩,
     ⟨macosLatest, "libisar_android_x86.so", "build_android.sh", some "x86"⟩,
     ⟨macosLatest, "libisar_ios.a", "build_ios.sh", none⟩,
     ⟨ubuntuLatest, "libisar_linux_x64.so", "build_desktop.sh", none⟩,
     ⟨macos11, "libisar_macos_arm64.dylib", "build_desktop.sh", none⟩,
     ⟨macosLatest, "libisar_macos_x64.dylib", "build_desktop.sh", some "x64"⟩,
     ⟨windowsLatest, "isar_windows_x64.dll", "build_desktop.sh", none⟩]
  distinct := by decide

def testHosts : List String :=
  [macosLatest, ubuntuLatest, windowsLatest]

end Matrix
end BindingRelease
