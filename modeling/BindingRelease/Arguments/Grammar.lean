import BindingRelease.Text.Digit
import BindingRelease.Text.Literal
/-!
The grammar of a command line: switches, and commands that bring switches or commands of their own.
Words are sorted into switches and plain words before anything is read. A long switch may be cut
short to what no other one begins with, and its argument may follow behind an equals sign.
-/
namespace BindingRelease.Arguments
open Text

inductive Kind where
  | value
  | choice (allowed : List String)
  | integer
  | flag
  | help
  deriving DecidableEq, Repr

def Kind.takesArgument : Kind → Bool
  | value | choice _ | integer => true
  | flag | help => false

structure Switch where
  names : List String
  kind : Kind
  required : Bool
  deriving DecidableEq, Repr

namespace Switch

def name (s : Switch) : String := s.names.headD ""

def title (s : Switch) : String := "/".intercalate s.names

def help : Switch := ⟨["-h", "--help"], .help, false⟩

end Switch

inductive Grammar where
  | switches (ss : List Switch)
  | commands (ss : List Switch) (title : String) (parts : List (String × Grammar))

inductive Argument where
  | none
  | equals (text : String)
  | glued (text : String)
  deriving DecidableEq, Repr

/-- What a word stands for among the switches of one grammar. -/
inductive Role where
  | plain
  | separator
  | known (s : Switch) (name : String) (argument : Argument)
  | unknown
  deriving DecidableEq, Repr

structure Word where
  text : String
  role : Role
  deriving DecidableEq, Repr

inductive Complaint where
  | missing (titles : List String)
  | invalidChoice (title word : String) (allowed : List String)
  | noArgument (title : String)
  | notInteger (title word : String)
  | unwantedArgument (title word : String)
  | ambiguous (word : String) (names : List String)
  | unrecognized (words : List String)
  deriving DecidableEq, Repr

def Complaint.message : Complaint → String
  | missing titles => "the following arguments are required: " ++ ", ".intercalate titles
  | invalidChoice title word allowed =>
    "argument " ++ title ++ ": invalid choice: " ++ literal word ++ " (choose from " ++
      ", ".intercalate (allowed.map literal) ++ ")"
  | noArgument title => "argument " ++ title ++ ": expected one argument"
  | notInteger title word => "argument " ++ title ++ ": invalid int value: " ++ literal word
  | unwantedArgument title word =>
    "argument " ++ title ++ ": ignored explicit argument " ++ literal word
  | ambiguous word names =>
    "ambiguous option: " ++ word ++ " could match " ++ ", ".intercalate names
  | unrecognized words => "unrecognized arguments: " ++ " ".intercalate words

/-- A number with a minus sign, which is no switch. One line end behind it does not count. -/
def isNegativeNumber (cs : List Char) : Bool :=
  let isDigit (c : Char) : Bool := (digitValue? c).isSome
  let body := if cs.getLast? = some '\n' then cs.dropLast else cs
  match body with
  | '-' :: ds =>
    match ds.dropWhile isDigit with
    | [] => !ds.isEmpty
    | '.' :: fs => !fs.isEmpty && fs.all isDigit
    | _ => false
  | _ => false

def atEquals (cs : List Char) : List Char × Argument :=
  match cs.dropWhile (· != '=') with
  | [] => (cs, .none)
  | _ :: rest => (cs.takeWhile (· != '='), .equals (String.ofList rest))

/-- The switch names that a word may mean although it is none of them. -/
def candidates (names : List (String × Switch)) (cs : List Char) :
    List (String × Switch × Argument) :=
  match cs with
  | '-' :: '-' :: _ =>
    let (start, argument) := atEquals cs
    (names.filter fun n => startsWith start n.1.toList).map fun n => (n.1, n.2, argument)
  | _ =>
    names.filterMap fun n =>
      if n.1.toList = cs.take 2 then some (n.1, n.2, .glued (String.ofList (cs.drop 2)))
      else if startsWith cs n.1.toList then some (n.1, n.2, .none)
      else none

/-- A word that begins like a switch but is not exactly one. -/
def inexactRole (names : List (String × Switch)) (cs : List Char) : Except Complaint Role :=
  match candidates names cs with
  | [(name, s, argument)] => .ok (.known s name argument)
  | [] => .ok (if isNegativeNumber cs || cs.contains ' ' then .plain else .unknown)
  | many => .error (.ambiguous (String.ofList cs) (many.map (·.1)))

def role (names : List (String × Switch)) (word : String) : Except Complaint Role :=
  let find (name : List Char) := names.find? fun n => n.1.toList = name
  let cs := word.toList
  if cs.head? ≠ some '-' || cs.length = 1 then .ok .plain
  else match find cs with
    | some (name, s) => .ok (.known s name .none)
    | none =>
      let (start, argument) := atEquals cs
      match find start with
      | some (name, s) => .ok (.known s name argument)
      | none => inexactRole names cs

def sort (names : List (String × Switch)) : List String → Except Complaint (List Word)
  | [] => .ok []
  | "--" :: words => .ok (⟨"--", .separator⟩ :: words.map fun w => ⟨w, .plain⟩)
  | word :: words => do
    let r ← role names word
    let rest ← sort names words
    return ⟨word, r⟩ :: rest

def namesOf (ss : List Switch) : List (String × Switch) :=
  (Switch.help :: ss).flatMap fun s => s.names.map fun n => (n, s)

end BindingRelease.Arguments
