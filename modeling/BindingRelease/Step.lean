import BindingRelease.Program
/-!
Steps: programs that write a log on their way and end with a value or a failure. The log of a step
is kept whether it fails or not. Notes are for the operator's console, log lines for the report of
the context.
-/
namespace BindingRelease

inductive Level where
  | debug
  | info
  | warning
  | error
  deriving DecidableEq, Repr

namespace Level

def rank : Level → Nat
  | debug => 0
  | info => 1
  | warning => 2
  | error => 3

def name : Level → String
  | debug => "DEBUG"
  | info => "INFO"
  | warning => "WARNING"
  | error => "ERROR"

end Level

structure Note where
  level : Level
  source : String
  message : String
  deriving DecidableEq, Repr

def Note.line (n : Note) : String :=
  n.level.name ++ " " ++ n.source ++ ": " ++ n.message

structure Journal where
  logs : List String
  notes : List Note
  deriving DecidableEq, Repr

namespace Journal

def empty : Journal := ⟨[], []⟩

def append (a b : Journal) : Journal := ⟨a.logs ++ b.logs, a.notes ++ b.notes⟩

instance : Append Journal := ⟨append⟩

end Journal

structure Step (α : Type) where
  run : Program (Journal × Except Failure α)

namespace Step

def pure {α : Type} (a : α) : Step α := ⟨.done (.empty, .ok a)⟩

def bind {α β : Type} (s : Step α) (f : α → Step β) : Step β :=
  ⟨s.run.bind fun r => match r with
    | (j, .error e) => .done (j, .error e)
    | (j, .ok a) => (f a).run.map fun t => (j ++ t.1, t.2)⟩

instance : Monad Step where
  pure := pure
  bind := bind

def ask (r : Request) : Step r.Answer :=
  ⟨.ask r fun a => .done (.empty, .ok a)⟩

def fail {α : Type} (e : Failure) : Step α := ⟨.done (.empty, .error e)⟩

def log (line : String) : Step Unit := ⟨.done (⟨[line], []⟩, .ok ())⟩

def logAll (lines : List String) : Step Unit := ⟨.done (⟨lines, []⟩, .ok ())⟩

def note (level : Level) (source message : String) : Step Unit :=
  ⟨.done (⟨[], [⟨level, source, message⟩]⟩, .ok ())⟩

def ofExcept {ε α : Type} (wrap : ε → Failure) : Except ε α → Step α
  | .ok a => pure a
  | .error e => fail (wrap e)

/-- Goes on with the outcome of a step, whether it is a value or a failure. -/
def attempt {α : Type} (s : Step α) : Step (Except Failure α) :=
  ⟨s.run.map fun (j, r) => (j, .ok r)⟩

/-- Takes an answer that may be a crash. -/
def unlessCrash {α : Type} (r : Except Crash α) : Step α :=
  ofExcept .crash r

/-- Starts a process. A system that cannot start it is handled by `onError`. -/
def start (p : Launch) (onError : String → Failure) : Step Finished := do
  let r : LaunchResult ← ask (.start p)
  match r with
  | .finished f => pure f
  | .notStarted reason => fail (onError reason)
  | .broken c => fail (.crash c)

def send (r : HttpRequest) : Step HttpResult := ask (.send r)

def present (p : Path) : Step Bool := do
  let r : Except Crash Bool ← ask (.exists p)
  unlessCrash r

def isDirectory (p : Path) : Step Bool := do
  let r : Except Crash Bool ← ask (.isDirectory p)
  unlessCrash r

def isFile (p : Path) : Step Bool := do
  let r : Except Crash Bool ← ask (.isFile p)
  unlessCrash r

def isExecutable (p : Path) : Step Bool := ask (.isExecutable p)

def isCancelled : Step Bool := ask .isCancelled

def now : Step String := ask .now

def makeDirectories (p : Path) : Step Unit := do
  let r : Except Crash Unit ← ask (.makeDirectories p)
  unlessCrash r

def readFile (p : Path) : Step (List UInt8) := do
  let r : Except Crash (List UInt8) ← ask (.readFile p)
  unlessCrash r

/-- Reads a file that must be UTF-8, with unified line ends. -/
def readText (p : Path) : Step (List Char) := do
  match String.fromUTF8? ⟨(← readFile p).toArray⟩ with
  | some s => pure (Text.unifyLineEnds s.toList)
  | none => fail (.crash .notUtf8)

def readYaml (text : List Char) : Step YamlResult := ask (.readYaml text)

def writeFile (p : Path) (text : String) : Step Unit := do
  let r : Except Crash Unit ← ask (.writeFile p text)
  unlessCrash r

end Step
end BindingRelease
