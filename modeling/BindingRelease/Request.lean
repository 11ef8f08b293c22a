import BindingRelease.Env
import BindingRelease.Error
/-!
What a release asks of its surroundings: to start processes, to send requests to the release host,
to look at files and change them, to read YAML, and to look at the cancellation signal or set it.
Each request fixes the type of its answer. An answer may be a crash: what the surroundings raise
where no step expects it, as a name that is too long, output that is no text, a zero byte in a word
or an interrupt.
-/
namespace BindingRelease

inductive CommandLine where
  | shell (line : String)
  | words (argv : List String)
  deriving DecidableEq, Repr

def CommandLine.text : CommandLine → String
  | shell line => line
  | words argv => " ".intercalate argv

/-- A process to start. Without directory or environment it inherits those of the release. -/
structure Launch where
  command : CommandLine
  directory : Option Path
  env : Option Env
  deriving DecidableEq

structure Finished where
  code : Int
  stdout : String
  stderr : String
  deriving DecidableEq, Repr

inductive LaunchResult where
  | finished (f : Finished)
  | notStarted (reason : String)
  | broken (c : Crash)

inductive Method where
  | get
  | post
  deriving DecidableEq, Repr

inductive Body where
  | none
  | json (v : Value)
  | bytes (bs : List UInt8)

structure HttpRequest where
  method : Method
  url : String
  headers : List (String × String)
  params : List (String × String)
  body : Body
  timeout : Nat

structure HttpResponse where
  status : Int
  text : String
  reason : String
  json : Except String Value

inductive HttpResult where
  | response (r : HttpResponse)
  | failed (reason : String)
  | broken (c : Crash)

/-- What the YAML reader makes of a text: its one document, which is null for a text without one,
the reader's own error, or whatever else it raises. The texts of a document are whole, as all texts
are here. A collection that contains itself is given as far as showing a part of it goes, with
`Value.enclosing` where that ends. -/
inductive YamlResult where
  | document (v : Value)
  | notYaml
  | broken (c : Crash)

inductive Request where
  | start (p : Launch)
  | send (r : HttpRequest)
  | exists (path : Path)
  | isDirectory (path : Path)
  | isFile (path : Path)
  | isExecutable (path : Path)
  | makeDirectories (path : Path)
  | readFile (path : Path)
  | writeFile (path : Path) (text : String)
  | readYaml (text : List Char)
  | isCancelled
  | cancel
  | now

def Request.Answer : Request → Type
  | start _ => LaunchResult
  | send _ => HttpResult
  | «exists» _ => Except Crash Bool
  | isDirectory _ => Except Crash Bool
  | isFile _ => Except Crash Bool
  | isExecutable _ => Bool
  | makeDirectories _ => Except Crash Unit
  | readFile _ => Except Crash (List UInt8)
  | writeFile _ _ => Except Crash Unit
  | readYaml _ => YamlResult
  | isCancelled => Bool
  | cancel => Unit
  | now => String

end BindingRelease
