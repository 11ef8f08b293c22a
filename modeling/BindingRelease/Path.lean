import BindingRelease.Text.Blank
/-!
Slash-separated paths in their pure form. A path is relative or starts at the root, written with
one slash or with exactly two; its parts are never empty and never a single dot, while `..` stays.
Joining an absolute path on the right replaces the left side.
-/
namespace BindingRelease
open Text

inductive Anchor where
  | relative
  | root
  | doubleRoot
  deriving DecidableEq, Repr

namespace Path

/-- A part of a path: a nonempty name without slash, other than the single dot. -/
def IsPart (part : List Char) : Prop :=
  part ≠ [] ∧ part ≠ ['.'] ∧ '/' ∉ part

instance (part : List Char) : Decidable (IsPart part) := by
  unfold IsPart; infer_instance

end Path

structure Path where
  anchor : Anchor
  parts : List String
  clean : ∀ p ∈ parts, Path.IsPart p.toList
  deriving DecidableEq

namespace Path

def anchorOf : List Char → Anchor
  | '/' :: '/' :: '/' :: _ => .root
  | '/' :: '/' :: _ => .doubleRoot
  | '/' :: _ => .root
  | _ => .relative

/-- The path a text denotes: repeated slashes and single dots collapse, trailing slashes go. -/
def ofString (s : String) : Path where
  anchor := anchorOf s.toList
  parts := (Text.splitAt '/' s).filter fun p => decide (IsPart p.toList)
  clean := by intro p hp; simpa using (List.mem_filter.mp hp).2

def anchorText : Anchor → String
  | .relative => ""
  | .root => "/"
  | .doubleRoot => "//"

def toString (p : Path) : String :=
  if p.anchor = .relative ∧ p.parts = [] then "."
  else anchorText p.anchor ++ "/".intercalate p.parts

instance : ToString Path := ⟨toString⟩

def append (p q : Path) : Path :=
  if q.anchor = .relative then
    { anchor := p.anchor
      parts := p.parts ++ q.parts
      clean := by
        intro x hx
        rcases List.mem_append.mp hx with h | h
        · exact p.clean x h
        · exact q.clean x h }
  else q

instance : HDiv Path Path Path := ⟨append⟩
instance : HDiv Path String Path := ⟨fun p s => append p (ofString s)⟩

def name (p : Path) : String :=
  p.parts.getLast?.getD ""

def parent (p : Path) : Path where
  anchor := p.anchor
  parts := p.parts.dropLast
  clean := fun x hx => p.clean x (List.dropLast_subset _ hx)

def isAbsolute (p : Path) : Bool :=
  p.anchor ≠ .relative

/-- Resolves `..` by dropping the part before it, as in a tree without links. -/
def upResolved : List String → List String → List String
  | kept, [] => kept.reverse
  | kept, p :: ps => if p = ".." then upResolved (kept.drop 1) ps else upResolved (p :: kept) ps

def resolve (cwd p : Path) : Path :=
  let full := cwd / p
  { anchor := .root
    parts := (upResolved [] full.parts).filter fun x => decide (IsPart x.toList)
    clean := by intro x hx; simpa using (List.mem_filter.mp hx).2 }

end Path
end BindingRelease
