import BindingRelease.Console
import BindingRelease.Yaml.Reading
import Std.Time
/-!
The release tool as a program. Files, the clock and the variables are those of the system. It
starts no processes and opens no connections: both fail as on a system that cannot do so.
-/
namespace BindingRelease.Main

def succeeds {α : Type} (action : IO α) : IO Bool := do
  try
    let _ ← action
    pure true
  catch _ => pure false

def present (p : Path) : IO Bool :=
  succeeds (IO.FS.realPath p.toString)

/-- Only a directory has a part named by a single dot. -/
def isDirectory (p : Path) : IO Bool :=
  succeeds (IO.FS.realPath (p.toString ++ "/."))

def isFile (p : Path) : IO Bool := do
  return (← present p) && !(← isDirectory p)

def fileError (p : Path) : IO Crash := do
  if ← isDirectory p then return .file (.isDirectory p)
  else if ← present p then return .file (.notDirectory p)
  else return .file (.missing p)

def makeDirectories (p : Path) : IO (Except Crash Unit) := do
  if ← isDirectory p then return .ok ()
  else if ← present p then return .error (.file (.alreadyExists p))
  else if ← succeeds (IO.FS.createDirAll p.toString) then return .ok ()
  else return .error (.file (.notDirectory p))

def readFile (p : Path) : IO (Except Crash (List UInt8)) := do
  try return .ok (← IO.FS.readBinFile p.toString).toList
  catch _ => return .error (← fileError p)

def writeFile (p : Path) (text : String) : IO (Except Crash Unit) := do
  if ← succeeds (IO.FS.writeFile p.toString text) then return .ok ()
  else return .error (← fileError p)

def now : IO String := do
  let time := Std.Time.DateTime.ofTimestamp (← Std.Time.Timestamp.now) .UTC
  return time.format "uuuu-MM-dd'T'HH:mm:ss.SSSSSSxxx"

def unsupported : String := "not supported by this system"

/-- Answers a request; `cancelled` is the cancellation signal. -/
def answer (cancelled : IO.Ref Bool) : (r : Request) → IO r.Answer
  | .start _ => return LaunchResult.notStarted unsupported
  | .send _ => return HttpResult.failed unsupported
  | .exists p => return .ok (← present p)
  | .isDirectory p => return .ok (← isDirectory p)
  | .isFile p => return .ok (← isFile p)
  | .isExecutable p => isFile p
  | .makeDirectories p => makeDirectories p
  | .readFile p => readFile p
  | .writeFile p text => writeFile p text
  | .readYaml text => return Yaml.read text
  | .isCancelled => cancelled.get
  | .cancel => cancelled.set true
  | .now => now

def perform {α : Type} (cancelled : IO.Ref Bool) : Program α → IO α
  | .done a => return a
  | .ask r next => do
    let a ← answer cancelled r
    perform cancelled (next a)

def readVariable (entry : String) : Option (String × String) :=
  match entry.toList.dropWhile (· != '=') with
  | _ :: value => some (String.ofList (entry.toList.takeWhile (· != '=')), String.ofList value)
  | [] => none

def environment : IO Env := do
  let content ← try IO.FS.readFile "/proc/self/environ" catch _ => pure ""
  return ⟨(Text.splitAt '\x00' content).filterMap readVariable⟩

def crashMessage : Crash → String
  | .file e => e.message
  | .template _ => "the install command cannot be filled in"
  | .refused reason => reason
  | .notUtf8 => "a file is not UTF-8"
  | .invalid _ => "a value does not fit its field"
  | _ => "the run failed"

end BindingRelease.Main

open BindingRelease in
def main (args : List String) : IO UInt32 := do
  let cwd := Path.ofString (← IO.FS.realPath ".").toString
  let cancelled ← IO.mkRef false
  let console ← Main.perform cancelled (Console.run args cwd (← Main.environment))
  IO.print console.output
  IO.eprint console.messages
  match console.status with
  | .ok code => return UInt32.ofNat code
  | .error c =>
    IO.eprintln (Main.crashMessage c)
    return 1
