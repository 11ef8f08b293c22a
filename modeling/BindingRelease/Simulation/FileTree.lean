import BindingRelease.Error
/-!
A tree of files and directories, without links. Places are absolute and given by their names from
the root on; a path is followed name by name, where `..` leads back up, and every name but the last
must be a directory.
-/
namespace BindingRelease.Simulation

inductive Item where
  | directory
  | file (content : List UInt8) (executable : Bool)
  deriving DecidableEq

abbrev Location := List String

structure FileTree where
  items : List (Location × Item)

namespace FileTree

def empty : FileTree := ⟨[]⟩

def get? (t : FileTree) (l : Location) : Option Item :=
  if l = [] then some .directory else (t.items.find? fun i => i.1 = l).map (·.2)

def set (t : FileTree) (l : Location) (item : Item) : FileTree :=
  if t.items.any fun i => i.1 = l then
    ⟨t.items.map fun i => if i.1 = l then (l, item) else i⟩
  else ⟨t.items ++ [(l, item)]⟩

def addParents (t : FileTree) (above : Location) : List String → FileTree
  | [] | [_] => t
  | name :: names =>
    let l := above ++ [name]
    (if (t.get? l).isSome then t else t.set l .directory).addParents l names

def put (t : FileTree) (l : Location) (item : Item) : FileTree :=
  (t.addParents [] l).set l item

inductive Trouble where
  | missing
  | notDirectory
  | badName
  deriving DecidableEq, Repr

def Trouble.error (p : Path) : Trouble → FileError
  | missing => .missing p
  | notDirectory => .notDirectory p
  | badName => .badName

def follow (t : FileTree) (l : Location) : List String → Except Trouble (Location × Item)
  | [] => match t.get? l with
    | some item => .ok (l, item)
    | none => .error .missing
  | name :: names => match t.get? l with
    | some .directory =>
      if name = ".." then t.follow l.dropLast names else t.follow (l ++ [name]) names
    | some (.file ..) => .error .notDirectory
    | none => .error .missing

def namesOf (cwd p : Path) : List String := (cwd / p).parts

def hasBadName (p : Path) : Bool :=
  p.parts.any fun n => n.toList.contains '\x00'

def find (t : FileTree) (cwd p : Path) : Except Trouble (Location × Item) :=
  if hasBadName p then .error .badName else t.follow [] (namesOf cwd p)

def isDirectory (t : FileTree) (cwd p : Path) : Bool :=
  match t.find cwd p with
  | .ok (_, .directory) => true
  | _ => false

def isFile (t : FileTree) (cwd p : Path) : Bool :=
  match t.find cwd p with
  | .ok (_, .file ..) => true
  | _ => false

def isExecutable (t : FileTree) (cwd p : Path) : Bool :=
  match t.find cwd p with
  | .ok (_, .file _ executable) => executable
  | _ => false

def isPresent (t : FileTree) (cwd p : Path) : Bool :=
  (t.find cwd p).toOption.isSome

/-- Where a new item of the given path would be; it fails when one is there. -/
def newLocation (t : FileTree) (cwd p : Path) : Except FileError Location := do
  if hasBadName p then throw .badName
  let names := namesOf cwd p
  match ← (t.follow [] names.dropLast).mapError (Trouble.error p) with
  | (l, .directory) =>
    match names.getLast? with
    | none | some ".." => throw (.alreadyExists p)
    | some name =>
      if (t.get? (l ++ [name])).isSome then throw (.alreadyExists p) else return l ++ [name]
  | (_, .file ..) => throw (.notDirectory p)

def makeDirectory (t : FileTree) (cwd p : Path) : Except FileError FileTree :=
  (t.newLocation cwd p).map fun l => t.set l .directory

def forgive (t : FileTree) (cwd p : Path) : Except FileError FileTree →
    FileTree × Except FileError Unit
  | .ok t => (t, .ok ())
  | .error e => (t, if t.isDirectory cwd p then .ok () else .error e)

/-- Makes a directory and those above it that are missing; these stay even if it fails later. -/
def makeDirectories (t : FileTree) (cwd p : Path) : FileTree × Except FileError Unit :=
  match t.makeDirectory cwd p with
  | .error (.missing q) =>
    if p.parts = [] then (t, .error (.missing q))
    else match makeDirectories t cwd p.parent with
      | (t, .error e) => (t, .error e)
      | (t, .ok ()) => t.forgive cwd p (t.makeDirectory cwd p)
  | r => t.forgive cwd p r
termination_by p.parts.length
decreasing_by
  have : p.parts.length ≠ 0 := by simpa using ‹¬p.parts = []›
  simp [Path.parent]
  omega

def readFile (t : FileTree) (cwd p : Path) : Except FileError (List UInt8) :=
  match t.find cwd p with
  | .ok (_, .file content _) => .ok content
  | .ok (_, .directory) => .error (.isDirectory p)
  | .error e => .error (e.error p)

def writeFile (t : FileTree) (cwd p : Path) (content : List UInt8) : Except FileError FileTree :=
  match t.find cwd p with
  | .ok (l, .file _ executable) => .ok (t.set l (.file content executable))
  | .ok (_, .directory) => .error (.isDirectory p)
  | .error .missing => (t.newLocation cwd p).map fun l => t.set l (.file content false)
  | .error e => .error (e.error p)

def changes (before after : FileTree) (under : Location) : List (Location × Item) :=
  (after.items.filter fun i =>
    under.isPrefixOf i.1 && i.1 ≠ under && before.get? i.1 ≠ some i.2).map fun i =>
      (i.1.drop under.length, i.2)

end FileTree
end BindingRelease.Simulation
