import BindingRelease.Yaml.Scalar
import BindingRelease.Yaml.Token.Reader
/-!
From tokens to the node tree of the one document a text may hold. An alias stands for the node its
anchor named before; inside that node itself it only records that the reference exists.
-/
namespace BindingRelease.Yaml

inductive Node where
  | scalar (tag text : String)
  | sequence (tag : String) (items : List Node)
  | mapping (tag : String) (entries : List (Node × Node))
  | enclosing (isMap : Bool)
  deriving Inhabited

structure NodeReader where
  rest : List Token
  anchors : List (String × Node)
  handles : List (String × String)

abbrev NodeM (α : Type) := StateT NodeReader (Except YamlError) α

namespace NodeReader

def peek : NodeM Token := do
  match (← get).rest with
  | .failure e :: _ => throw e
  | t :: _ => return t
  | [] => throw .notYaml

def drop : NodeM Unit := modify fun r => { r with rest := r.rest.drop 1 }

def accept (t : Token) : NodeM Bool := do
  if (← peek) = t then
    drop
    return true
  else return false

def expect (t : Token) : NodeM Unit := do
  if !(← accept t) then throw .notYaml

def isOneOf (ts : List Token) : NodeM Bool := do
  return ts.contains (← peek)

def emptyNode : Node := .scalar (standardTag "null") ""

def properties : NodeM (Option String × Option (Option String × String)) := do
  let anchor? : NodeM (Option String) := do
    match ← peek with
    | .anchor n => drop; return some n
    | _ => return none
  let tag? : NodeM (Option (Option String × String)) := do
    match ← peek with
    | .tag h s => drop; return some (h, s)
    | _ => return none
  match ← anchor? with
  | some a => return (some a, ← tag?)
  | none =>
    match ← tag? with
    | some t => return (← anchor?, some t)
    | none => return (none, none)

def expandTag : Option (Option String × String) → NodeM (Option String)
  | none => return none
  | some (none, suffix) => return some suffix
  | some (some handle, suffix) => do
    match (← get).handles.find? fun h => h.1 = handle with
    | some h => return some (h.2 ++ suffix)
    | none => throw .notYaml

def nameNode (anchor : Option String) (n : Node) : NodeM Unit :=
  match anchor with
  | none => return
  | some a => modify fun r => { r with anchors := (a, n) :: r.anchors }

/-- A tag that is absent or a bare exclamation mark leaves the type to the node. -/
def collectionTag (tag : Option String) (implied : String) : String :=
  match tag with
  | none => standardTag implied
  | some t => if t == "!" then standardTag implied else t

def scalarTag (tag : Option String) (text : String) (plain : Bool) : String :=
  match tag with
  | none => if plain then Scalar.impliedTag text else standardTag "str"
  | some t => if t == "!" then Scalar.impliedTag text else t

mutual

/-- Reads a node. `inBlock` admits block collections; `bareEntries` a sequence without
indentation of its own, as it may stand under a key. -/
def node (fuel : Nat) (inBlock bareEntries : Bool) : NodeM Node :=
  match fuel with
  | 0 => throw .notYaml
  | fuel + 1 => do
    match ← peek with
    | .alias name =>
      drop
      match (← get).anchors.find? fun a => a.1 = name with
      | some a => return a.2
      | none => throw .notYaml
    | _ =>
      let (anchor, tag) ← properties
      let tag ← expandTag tag
      let next ← peek
      if let some a := anchor then
        if (← get).anchors.any fun b => b.1 = a then throw .notYaml
      let sequence (items : NodeM (List Node)) : NodeM Node := do
        nameNode anchor (.enclosing false)
        let n := Node.sequence (collectionTag tag "seq") (← items)
        nameNode anchor n
        return n
      let mapping (entries : NodeM (List (Node × Node))) : NodeM Node := do
        nameNode anchor (.enclosing true)
        let n := Node.mapping (collectionTag tag "map") (← entries)
        nameNode anchor n
        return n
      match next with
      | .entry =>
        if bareEntries then sequence (bareItems fuel)
        else if anchor.isSome || tag.isSome then
          let n := Node.scalar (scalarTag tag "" true) ""
          nameNode anchor n
          return n
        else throw .notYaml
      | .scalar text plain =>
        drop
        let n := Node.scalar (scalarTag tag text plain) text
        nameNode anchor n
        return n
      | .flowSequenceStart => sequence (do drop; flowItems fuel true)
      | .flowMappingStart => mapping (do drop; flowEntries fuel true)
      | t =>
        if inBlock && t = .sequenceStart then sequence (do drop; blockItems fuel)
        else if inBlock && t = .mappingStart then mapping (do drop; blockEntries fuel)
        else if anchor.isSome || tag.isSome then
          let n := Node.scalar (scalarTag tag "" true) ""
          nameNode anchor n
          return n
        else throw .notYaml

def nodeOrEmpty (fuel : Nat) (ends : List Token) (inBlock bareEntries : Bool) : NodeM Node :=
  match fuel with
  | 0 => throw .notYaml
  | fuel + 1 => do
    if ← isOneOf ends then return emptyNode else node fuel inBlock bareEntries

def blockItems (fuel : Nat) : NodeM (List Node) :=
  match fuel with
  | 0 => throw .notYaml
  | fuel + 1 => do
    if ← accept .entry then
      let n ← nodeOrEmpty fuel [.entry, .blockEnd] true false
      return n :: (← blockItems fuel)
    else
      expect .blockEnd
      return []

def bareItems (fuel : Nat) : NodeM (List Node) :=
  match fuel with
  | 0 => throw .notYaml
  | fuel + 1 => do
    if ← accept .entry then
      let n ← nodeOrEmpty fuel [.entry, .key, .value, .blockEnd] true false
      return n :: (← bareItems fuel)
    else return []

def blockEntries (fuel : Nat) : NodeM (List (Node × Node)) :=
  match fuel with
  | 0 => throw .notYaml
  | fuel + 1 => do
    if ← accept .key then
      let k ← nodeOrEmpty fuel [.key, .value, .blockEnd] true true
      let v ← if ← accept .value then nodeOrEmpty fuel [.key, .value, .blockEnd] true true
        else pure emptyNode
      return (k, v) :: (← blockEntries fuel)
    else
      expect .blockEnd
      return []

def flowItems (fuel : Nat) (first : Bool) : NodeM (List Node) :=
  match fuel with
  | 0 => throw .notYaml
  | fuel + 1 => do
    if ← accept .flowSequenceEnd then return []
    if !first then expect .flowEntry
    if ← accept .key then
      let k ← nodeOrEmpty fuel [.value, .flowEntry, .flowSequenceEnd] false false
      let v ← if ← accept .value then
          nodeOrEmpty fuel [.flowEntry, .flowSequenceEnd] false false
        else pure emptyNode
      return .mapping (standardTag "map") [(k, v)] :: (← flowItems fuel false)
    else if ← accept .flowSequenceEnd then return []
    else
      let n ← node fuel false false
      return n :: (← flowItems fuel false)

def flowEntries (fuel : Nat) (first : Bool) : NodeM (List (Node × Node)) :=
  match fuel with
  | 0 => throw .notYaml
  | fuel + 1 => do
    if ← accept .flowMappingEnd then return []
    if !first then expect .flowEntry
    if ← accept .key then
      let k ← nodeOrEmpty fuel [.value, .flowEntry, .flowMappingEnd] false false
      let v ← if ← accept .value then
          nodeOrEmpty fuel [.flowEntry, .flowMappingEnd] false false
        else pure emptyNode
      return (k, v) :: (← flowEntries fuel false)
    else if ← accept .flowMappingEnd then return []
    else
      let k ← node fuel false false
      return (k, emptyNode) :: (← flowEntries fuel false)

end

def isDirective : Token → Bool
  | .directive _ => true
  | _ => false

/-- Reads the directives of a document: at most one version, of major number 1, and distinct
tag handles. -/
def directives (versionSeen : Bool) (handles : List (String × String)) :
    List Token → Except YamlError (List (String × String) × List Token)
  | .directive (.version major _) :: ts =>
    if versionSeen || major != 1 then .error .notYaml else directives true handles ts
  | .directive (.tag h e) :: ts =>
    if handles.any fun x => x.1 = h then .error .notYaml
    else directives versionSeen (handles ++ [(h, e)]) ts
  | .directive .other :: ts => directives versionSeen handles ts
  | ts => .ok (handles, ts)

def usualHandles : List (String × String) := [("!", "!"), ("!!", standardTag "")]

def finish : List Token → Except YamlError Unit
  | .documentEnd :: ts => finish ts
  | .streamEnd :: _ => .ok ()
  | .failure e :: _ => .error e
  | _ => .error .notYaml

def content (ts : List Token) (handles : List (String × String)) (explicit : Bool) :
    Except YamlError Node := do
  let fuel := 8 * (ts.length + 1)
  let read : NodeM Node := do
    let t ← peek
    let ends := [Token.documentStart, .documentEnd, .streamEnd]
    if explicit && (isDirective t || ends.contains t) then return emptyNode
    else node fuel true false
  let (n, r) ← read.run ⟨ts, [], handles⟩
  finish r.rest
  return n

def document (ts : List Token) : Except YamlError (Option Node) :=
  match ts with
  | .streamEnd :: _ => .ok none
  | .failure e :: _ => .error e
  | t :: _ =>
    if isDirective t || t = .documentStart then do
      let (handles, rest) ← directives false [] ts
      match rest with
      | .documentStart :: rest =>
        let usual := usualHandles.filter fun u => !handles.any fun h => h.1 = u.1
        some <$> content rest (handles ++ usual) true
      | .failure e :: _ => throw e
      | _ => throw .notYaml
    else some <$> content ts usualHandles false
  | [] => .error .notYaml

end NodeReader
end BindingRelease.Yaml
