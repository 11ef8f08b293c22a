import BindingRelease.Text.Digit
import BindingRelease.Text.Literal
/-!
Templates with named fields. A doubled brace writes one brace; a field in braces names a text, may
pick single characters from it, may ask for its literal, and may end with a layout (fill,
alignment, width, longest length). A layout may hold fields itself, one level deep.
-/
namespace BindingRelease.Text.Template

inductive TemplateError where
  | unknownField (name : String)
  | positionalField
  | indexPastEnd
  | keyNotNumeric
  | noSuchAttribute
  | malformed
  deriving DecidableEq, Repr

inductive Conversion where
  | keep
  | literal
  | ascii

def Conversion.apply : Conversion → String → String
  | keep, s => s
  | literal, s => Text.literal s
  | ascii, s => asciiLiteral s

structure Field where
  name : List Char
  conversion : Option Char
  layout : List Char

def sizeLimit : Nat := 9223372036854775808

def readLayout : Nat → List Char → List Char → Option (List Char × List Char)
  | _, _, [] => none
  | depth, seen, c :: cs =>
    if c = '{' then readLayout (depth + 1) (c :: seen) cs
    else if c = '}' then
      match depth with
      | 0 => some (seen.reverse, cs)
      | d + 1 => readLayout d (c :: seen) cs
    else readLayout depth (c :: seen) cs

def readTail (name : List Char) (delimiter : Char) (cs : List Char) :
    Option (Field × List Char) :=
  if delimiter = '}' then some (⟨name, none, []⟩, cs)
  else if delimiter = ':' then
    (readLayout 0 [] cs).map fun (layout, rest) => (⟨name, none, layout⟩, rest)
  else match cs with
    | c :: '}' :: rest => some (⟨name, some c, []⟩, rest)
    | c :: ':' :: rest =>
      (readLayout 0 [] rest).map fun (layout, rest) => (⟨name, some c, layout⟩, rest)
    | _ => none

/-- Reads a field after its opening brace. Inside square brackets any character but the closing
bracket belongs to the name. -/
def readField (inBrackets : Bool) (seen : List Char) : List Char → Option (Field × List Char)
  | [] => none
  | c :: cs =>
    if inBrackets then readField (c != ']') (c :: seen) cs
    else if c = '{' then none
    else if c = '[' then readField true (c :: seen) cs
    else if c = '}' || c = ':' || c = '!' then readTail seen.reverse c cs
    else readField false (c :: seen) cs

theorem readLayout_length {d : Nat} {seen cs layout rest : List Char}
    (h : readLayout d seen cs = some (layout, rest)) : rest.length < cs.length := by
  induction cs generalizing d seen with
  | nil => simp [readLayout] at h
  | cons c cs ih =>
    simp only [readLayout] at h
    split at h
    · exact Nat.lt_succ_of_lt (ih h)
    · split at h
      · cases d with
        | zero => simp at h; simp [h.2]
        | succ d => exact Nat.lt_succ_of_lt (ih h)
      · exact Nat.lt_succ_of_lt (ih h)

theorem readTail_length {name cs rest : List Char} {c : Char} {f : Field}
    (h : readTail name c cs = some (f, rest)) : rest.length ≤ cs.length := by
  unfold readTail at h
  split at h
  · simp at h; simp [h.2]
  · split at h
    · obtain ⟨⟨layout, r⟩, hl, he⟩ := Option.map_eq_some_iff.mp h
      simp at he
      exact he.2 ▸ Nat.le_of_lt (readLayout_length hl)
    · split at h
      · simp at h; simp [← h.2]; omega
      · rename_i r
        obtain ⟨⟨layout, r'⟩, hl, he⟩ := Option.map_eq_some_iff.mp h
        simp at he
        have := readLayout_length hl
        simp [← he.2]; omega
      · simp at h

theorem readField_length {b : Bool} {seen cs rest : List Char} {f : Field}
    (h : readField b seen cs = some (f, rest)) : rest.length < cs.length := by
  induction cs generalizing b seen with
  | nil => simp [readField] at h
  | cons c cs ih =>
    simp only [readField] at h
    split at h
    · exact Nat.lt_succ_of_lt (ih h)
    · split at h
      · simp at h
      · split at h
        · exact Nat.lt_succ_of_lt (ih h)
        · split at h
          · exact Nat.lt_succ_of_le (readTail_length h)
          · exact Nat.lt_succ_of_lt (ih h)

def selectChar (key : List Char) (s : String) : Except TemplateError String :=
  if key.isEmpty then .error .malformed
  else match key.mapM digitValue? with
    | none => .error .keyNotNumeric
    | some ds =>
      let index := ds.foldl (fun n d => 10 * n + d) 0
      if index ≥ sizeLimit then .error .malformed
      else match s.toList[index]? with
        | some c => .ok (String.singleton c)
        | none => .error .indexPastEnd

def select : Nat → List Char → String → Except TemplateError String
  | _, [], s => .ok s
  | 0, _, _ => .error .malformed
  | fuel + 1, c :: cs, s =>
    if c = '[' then
      let key := cs.takeWhile (· != ']')
      match cs.dropWhile (· != ']') with
      | [] => .error .malformed
      | _ :: rest => do select fuel rest (← selectChar key s)
    else if c = '.' then
      if (cs.takeWhile fun c => c != '.' && c != '[').isEmpty then .error .malformed
      else .error .noSuchAttribute
    else .error .malformed

def resolve (texts : List (String × String)) (name : List Char) : Except TemplateError String :=
  let first := name.takeWhile fun c => c != '.' && c != '['
  let rest := name.dropWhile fun c => c != '.' && c != '['
  match first.mapM digitValue? with
  | some ds =>
    if ds.foldl (fun n d => 10 * n + d) 0 ≥ sizeLimit then .error .malformed
    else .error .positionalField
  | none =>
    match texts.find? fun t => t.1 = String.ofList first with
    | none => .error (.unknownField (String.ofList first))
    | some t => select rest.length rest t.2

def conversion? : Option Char → Except TemplateError Conversion
  | none => .ok .keep
  | some 's' => .ok .keep
  | some 'r' => .ok .literal
  | some 'a' => .ok .ascii
  | some _ => .error .malformed

inductive Align where
  | left
  | right
  | center

def Align.ofChar? : Char → Option Align
  | '<' => some .left
  | '>' => some .right
  | '^' => some .center
  | _ => none

def digitRun (cs : List Char) : Option Nat × List Char :=
  let ds := cs.takeWhile fun c => (digitValue? c).isSome
  if ds.isEmpty then (none, cs)
  else
    (some (ds.foldl (fun n c => 10 * n + (digitValue? c).getD 0) 0), cs.drop ds.length)

def pad (fill : Char) (align : Align) (width : Nat) (cs : List Char) : List Char :=
  let missing := width - cs.length
  match align with
  | .left => cs ++ List.replicate missing fill
  | .right => List.replicate missing fill ++ cs
  | .center =>
    List.replicate (missing / 2) fill ++ cs ++ List.replicate (missing - missing / 2) fill

/-- Lays a text out. The layout is: fill and alignment, a zero that sets the fill, width, a point
and the longest length, and the letter `s`; each may be missing. -/
def layOut (layout : List Char) (s : String) : Except TemplateError String :=
  let (fill, align, rest) : Option Char × Option Align × List Char := match layout with
    | f :: a :: r =>
      match Align.ofChar? a with
      | some al => (some f, some al, r)
      | none => match Align.ofChar? f with
        | some al => (none, some al, a :: r)
        | none => (none, none, layout)
    | [f] => match Align.ofChar? f with
      | some al => (none, some al, [])
      | none => (none, none, layout)
    | [] => (none, none, [])
  let (fill, rest) : Option Char × List Char := match fill, rest with
    | none, '0' :: r => (some '0', r)
    | _, _ => (fill, rest)
  let (width, rest) := digitRun rest
  let (longest, rest) : Option (Option Nat) × List Char := match rest with
    | '.' :: r => let (n, r) := digitRun r; (n.map some, r)
    | _ => (some none, rest)
  match longest with
  | none => .error .malformed
  | some longest =>
    if (width.getD 0).max (longest.getD 0) ≥ sizeLimit then .error .malformed
    else if rest = [] || rest = ['s'] then
      let cs := match longest with
        | some n => s.toList.take n
        | none => s.toList
      .ok (String.ofList (pad (fill.getD ' ') (align.getD .left) (width.getD 0) cs))
    else .error .malformed

/-- Fills a template; `depth` bounds how deep fields may stand inside layouts. -/
def fillFrom (texts : List (String × String)) (depth : Nat) (cs : List Char) :
    Except TemplateError String :=
  match cs with
  | [] => .ok ""
  | c :: rest =>
    if c = '{' then
      match hr : rest with
      | '{' :: rest' => do return "\x7b" ++ (← fillFrom texts depth rest')
      | _ =>
        match h : readField false [] rest with
        | none => .error .malformed
        | some (field, rest') => do
          let found ← resolve texts field.name
          let shown := (← conversion? field.conversion).apply found
          let layout ←
            if field.layout.contains '{' then
              match depth with
              | 0 => .error .malformed
              | d + 1 => fillFrom texts d field.layout
            else pure (String.ofList field.layout)
          let done ← if layout = "" then pure shown else layOut layout.toList shown
          have := hr ▸ readField_length h
          return done ++ (← fillFrom texts depth rest')
    else if c = '}' then
      match rest with
      | '}' :: rest' => do return "\x7d" ++ (← fillFrom texts depth rest')
      | _ => .error .malformed
    else do return String.singleton c ++ (← fillFrom texts depth rest)
termination_by (depth, cs.length)

def fill (template : String) (texts : List (String × String)) : Except TemplateError String :=
  fillFrom texts 1 template.toList

end BindingRelease.Text.Template
