import BindingRelease.Arguments.Grammar
/-!
Reading a command line by its grammar, word by word from the left. Each command reads what stands
behind it; words that nobody takes are collected, and are a fault once everything else is read.
-/
namespace BindingRelease.Arguments
open Text

structure Given where
  name : String
  word : String
  deriving DecidableEq, Repr

inductive Refusal where
  | complaint (program : List String) (c : Complaint)
  | help (program : List String)
  deriving DecidableEq, Repr

structure Level where
  given : List Given
  untaken : List String
  rest : List Word
  deriving DecidableEq, Repr

namespace Level

def give (s : Switch) (word : String) (l : Level) : Level :=
  { l with given := ⟨s.name, word⟩ :: l.given }

def leave (word : String) (l : Level) : Level :=
  { l with untaken := word :: l.untaken }

end Level

def checkArgument (program : List String) (s : Switch) (word : String) : Except Refusal Unit :=
  match s.kind with
  | .choice allowed =>
    if allowed.contains word then .ok ()
    else .error (.complaint program (.invalidChoice s.title word allowed))
  | .integer =>
    if (readInteger? word.toList).isSome then .ok ()
    else .error (.complaint program (.notInteger s.title word))
  | _ => .ok ()

/-- What is wrong with the letters behind a short switch without argument. The only short switch
asks for help, once or many times; other letters are left aside. -/
def unwantedLetters : List Char → Option String
  | 'h' :: '=' :: word => some (String.ofList word)
  | 'h' :: cs => if cs = [] then none else unwantedLetters cs
  | '-' :: cs => some (String.ofList ('-' :: cs))
  | _ => none

def checkBare (program : List String) (s : Switch) (argument : Argument) : Except Refusal Unit :=
  let unwanted (word : String) : Except Refusal Unit :=
    .error (.complaint program (.unwantedArgument s.title word))
  match argument with
  | .none => if s.kind = .help then .error (.help program) else .ok ()
  | .equals word => unwanted word
  | .glued letters =>
    match unwantedLetters letters.toList with
    | some word => unwanted word
    | none => .error (.help program)

/-- Reads switches; where a command may follow, up to the first plain word. -/
def readLevel (program : List String) (hasCommands : Bool) : List Word → Except Refusal Level
  | [] => .ok ⟨[], [], []⟩
  | w :: ws => match w.role with
    | .unknown => return (← readLevel program hasCommands ws).leave w.text
    | .plain =>
      if hasCommands then .ok ⟨[], [], w :: ws⟩
      else return (← readLevel program hasCommands ws).leave w.text
    | .separator =>
      if hasCommands && !ws.isEmpty then .ok ⟨[], [], w :: ws⟩
      else return (← readLevel program hasCommands ws).leave w.text
    | .known s name argument =>
      if s.kind.takesArgument then
        match argument, ws with
        | .equals word, ws | .glued word, ws => do
          checkArgument program s word
          return (← readLevel program hasCommands ws).give s word
        | .none, ⟨word, .plain⟩ :: ws => do
          checkArgument program s word
          return (← readLevel program hasCommands ws).give s word
        | .none, _ => .error (.complaint program (.noArgument s.title))
      else do
        checkBare program s argument
        return (← readLevel program hasCommands ws).give s name

structure Parsed where
  commands : List String
  given : List Given
  untaken : List String
  deriving DecidableEq, Repr

def sortWords (program : List String) (ss : List Switch) (words : List String) :
    Except Refusal (List Word) :=
  (sort (namesOf ss) words).mapError (.complaint program)

def notGiven (ss : List Switch) (given : List Given) : List String :=
  (ss.filter fun s => s.required && !(given.any fun g => g.name = s.name)).map Switch.title

mutual

def read (program : List String) : Grammar → List String → Except Refusal Parsed
  | .switches ss, words => do
    let l ← readLevel program false (← sortWords program ss words)
    let missing := notGiven ss l.given
    if missing = [] then return ⟨[], l.given, l.untaken⟩
    else .error (.complaint program (.missing missing))
  | .commands ss title parts, words => do
    let l ← readLevel program true (← sortWords program ss words)
    match l.rest with
    | [] => .error (.complaint program (.missing (notGiven ss l.given ++ [title])))
    | command :: rest => do
      let p ← readCommand program title (parts.map (·.1)) command.text (rest.map Word.text) parts
      return ⟨command.text :: p.commands, l.given ++ p.given, l.untaken ++ p.untaken⟩

def readCommand (program : List String) (title : String) (names : List String) (command : String)
    (words : List String) : List (String × Grammar) → Except Refusal Parsed
  | [] => .error (.complaint program (.invalidChoice title command names))
  | (name, g) :: parts =>
    if name = command then read (program ++ [name]) g words
    else readCommand program title names command words parts

end

def readAll (program : String) (g : Grammar) (words : List String) : Except Refusal Parsed := do
  let p ← read [program] g words
  if p.untaken = [] then return p
  else .error (.complaint [program] (.unrecognized p.untaken))

namespace Parsed

def last? (p : Parsed) (name : String) : Option String :=
  (p.given.reverse.find? fun g => g.name = name).map Given.word

def every (p : Parsed) (name : String) : List String :=
  (p.given.filter fun g => g.name = name).map Given.word

def has (p : Parsed) (name : String) : Bool :=
  p.given.any fun g => g.name = name

end Parsed
end BindingRelease.Arguments
