import BindingRelease.Env
import BindingRelease.EnvFile.Statement
/-!
Loading an environment file. References `${NAME}` and `${NAME:-default}` in values are replaced,
where the environment wins over earlier lines of the file; the last of equal names counts; a
variable that is set already keeps its value.
-/
namespace BindingRelease.EnvFile
open Text

inductive Piece where
  | plain (c : Char)
  | reference (name : String) (fallback : Option String)
  deriving DecidableEq, Repr

def readReference (cs : List Char) : Option (Piece × List Char) :=
  let isName (c : Char) : Bool := c != '}' && c != ':'
  let name := String.ofList (cs.takeWhile isName)
  match cs.dropWhile isName with
  | '}' :: rest => some (.reference name none, rest)
  | ':' :: '-' :: r =>
    match r.dropWhile (· != '}') with
    | _ :: rest => some (.reference name (some (String.ofList (r.takeWhile (· != '}')))), rest)
    | [] => none
  | _ => none

def pieces (cs : List Char) : List Piece :=
  match cs with
  | [] => []
  | '$' :: '{' :: r =>
    match readReference r with
    | some (p, rest) =>
      if rest.length < r.length then p :: pieces rest else [p]
    | none => .plain '$' :: pieces ('{' :: r)
  | c :: r => .plain c :: pieces r
termination_by cs.length

abbrev Known := List (String × Option String)

def Known.put (name : String) (value : Option String) : Known → Known
  | [] => [(name, value)]
  | e :: es => if e.1 = name then (name, value) :: es else e :: Known.put name value es

def Piece.text (env : Env) (known : Known) : Piece → String
  | .plain c => String.singleton c
  | .reference name fallback =>
    match env.get? name with
    | some v => v
    | none => match known.find? fun e => e.1 = name with
      | some (_, v) => v.getD ""
      | none => fallback.getD ""

def expand (env : Env) (known : Known) (value : String) : String :=
  String.join ((pieces value.toList).map (Piece.text env known))

def valuesOf (env : Env) (ss : List (Nat × Statement)) : Known :=
  ss.foldl (fun known s => match s.2 with
    | .assignment name value => Known.put name (value.map (expand env known)) known
    | _ => known) []

def malformedLines (ss : List (Nat × Statement)) : List Nat :=
  ss.filterMap fun s => if s.2 = .malformed then some s.1 else none

def canSet (name value : String) : Bool :=
  !name.toList.contains '=' && !name.toList.contains '\x00' && !value.toList.contains '\x00'

/-- Sets the variables that are not set yet, in order, up to one that cannot be set. The flag tells
whether all went well. -/
def assign (env : Env) : Known → Env × Bool
  | [] => (env, true)
  | (name, value) :: rest =>
    match value with
    | none => assign env rest
    | some v =>
      if env.contains name then assign env rest
      else if canSet name v then assign (env.set name v) rest
      else (env, false)

/-- Values that switch loading off; case does not matter, and the long s is an s. -/
def isYes (value : String) : Bool :=
  let folded := value.toList.map fun c => if c = '\u017F' then 's' else c.toLower
  ["1", "true", "t", "yes", "y"].any fun w => w.toList = folded

end BindingRelease.EnvFile
