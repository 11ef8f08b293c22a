import BindingRelease.Proofs.Selection
import BindingRelease.Proofs.Words
import Mathlib.Data.List.Forall2
/-!
The include list of a matrix, written and read again. An entry comes back as it was when its host
and its artifact are named and its script and its argument are bare words; a script line of any
other entry is read as other words, if it is read at all.
-/
namespace BindingRelease
variable {e e' : Entry} {m : Matrix}

namespace Entry

/-- A text that a script line can carry as one of its words: not empty, and without a space, a tab,
a carriage return, a line feed, a quote of either kind or a backslash. -/
def IsPart (s : String) : Prop := Shell.IsBareWord s.toList

/-- What an entry must have to be written as an include item. -/
structure Writable (e : Entry) : Prop where
  host : e.host ≠ ""
  artifact : e.artifact ≠ ""
  script : IsPart e.script
  argument : ∀ a ∈ e.argument, IsPart a

instance (s : String) : Decidable (IsPart s) :=
  inferInstanceAs (Decidable (Shell.IsBareWord s.toList))

instance (e : Entry) : Decidable e.Writable :=
  decidable_of_iff
    (e.host ≠ "" ∧ e.artifact ≠ "" ∧ IsPart e.script ∧ ∀ a ∈ e.argument, IsPart a)
    ⟨fun ⟨h₁, h₂, h₃, h₄⟩ => ⟨h₁, h₂, h₃, h₄⟩, fun ⟨h₁, h₂, h₃, h₄⟩ => ⟨h₁, h₂, h₃, h₄⟩⟩

def item (e : Entry) : Schema.Entries :=
  e.toWorkflow.map fun f => (.text f.1, .text f.2)

/-- An item of an entry is read as an entry just when the entry is named and its script line has
one word or two; these are then the script and the argument. -/
theorem ofMapping_item : ofMapping e.item = .ok e' ↔
    e.host ≠ "" ∧ e.artifact ≠ "" ∧ e.host = e'.host ∧ e.artifact = e'.artifact ∧
      Shell.split e.scriptLine = .ok (e'.script :: e'.argument.toList) := by
  obtain ⟨host, artifact, script, argument⟩ := e'
  have hscript : Value.lookup e.item "script" = some (.text e.scriptLine) := by
    simp [item, toWorkflow, Value.lookup]
  have hos : Value.lookup e.item "os" = some (.text e.host) := by
    simp [item, toWorkflow, Value.lookup]
  have hname : Value.lookup e.item "artifact_name" = some (.text e.artifact) := by
    simp [item, toWorkflow, Value.lookup]
  have hplain : ∀ s, (Value.text s).plain = s := fun _ => rfl
  have htruthy : ∀ s, (Value.text s).truthy = (s != "") := fun _ => rfl
  simp only [ofMapping, hscript, hos, hname, hplain]
  cases Shell.split e.scriptLine with
  | error reason => simp
  | ok words =>
    match words with
    | [] | _ :: _ :: _ :: _ => cases argument <;> simp
    | [s] | [s, a] =>
      by_cases hhost : e.host = ""
      · simp [htruthy, hhost]
      · by_cases hartifact : e.artifact = ""
        · simp [htruthy, hartifact]
        · cases argument <;> simp [hplain, htruthy, hhost, hartifact]

theorem scriptLine_of_none (h : e.argument = none) : e.scriptLine = e.script := by
  simp [scriptLine, givenArgument, h]

theorem scriptLine_of_empty (h : e.argument = some "") : e.scriptLine = e.script := by
  simp [scriptLine, givenArgument, h, Option.filter]

theorem scriptLine_of_some {a : String} (h : e.argument = some a) (ha : a ≠ "") :
    e.scriptLine = e.script ++ " " ++ a := by
  simp [scriptLine, givenArgument, h, Option.filter, ha]

theorem split_scriptLine : Shell.split e.scriptLine = .ok (e.script :: e.argument.toList) ↔
    IsPart e.script ∧ ∀ a ∈ e.argument, IsPart a := by
  rw [Shell.split_eq_ok]
  cases hargument : e.argument with
  | none => simp [scriptLine_of_none hargument, IsPart, Shell.words_eq_self]
  | some a =>
    by_cases ha : a = ""
    · subst ha
      simp [scriptLine_of_empty hargument, IsPart, Shell.words_ne_empty_behind, Shell.IsBareWord]
    · have hne : a.toList ≠ [] := by simpa using ha
      simpa [scriptLine_of_some hargument ha, IsPart] using Shell.words_eq_pair hne

theorem ofMapping_item_self : ofMapping e.item = .ok e ↔ e.Writable := by
  rw [ofMapping_item, split_scriptLine]
  constructor
  · rintro ⟨hhost, hartifact, -, -, hscript, hargument⟩
    exact ⟨hhost, hartifact, hscript, hargument⟩
  · rintro ⟨hhost, hartifact, hscript, hargument⟩
    exact ⟨hhost, hartifact, rfl, rfl, hscript, hargument⟩

end Entry

namespace Matrix

theorem toInclude_eq (m : Matrix) : m.toInclude = m.entries.map fun e => .map e.item := by
  simp [toInclude, toWorkflow, Value.object, Entry.item]

theorem entriesOfInclude_items {n : Nat} {es es' : List Entry} :
    entriesOfInclude n (es.map fun e => .map e.item) = .ok es' ↔
      List.Forall₂ (fun e e' => Entry.ofMapping e.item = .ok e') es es' := by
  induction es generalizing n es' with
  | nil => simp [entriesOfInclude, eq_comm]
  | cons e es ih =>
    rw [List.map_cons, entriesOfInclude, List.forall₂_cons_left_iff]
    constructor
    · intro h
      simp only [bind_eq_ok] at h
      obtain ⟨e', he', rest, hrest, heq⟩ := h
      cases heq
      exact ⟨e', rest, he', ih.mp hrest, rfl⟩
    · rintro ⟨e', rest, he', hrest, rfl⟩
      rw [he', ih.mpr hrest]
      rfl

theorem ofEntries_eq_ok {es : List Entry} : ofEntries es = .ok m ↔ es = m.entries := by
  unfold ofEntries
  split
  · rename_i hd
    exact ⟨fun h => by cases h; rfl, fun h => congrArg Except.ok (ext_entries h)⟩
  · rename_i hd
    constructor
    · intro h
      cases h
    · rintro rfl
      exact absurd m.distinct hd

/-- The include list of a matrix is read as the matrix just when every entry can be written. Else
it is an error, or it is another matrix. -/
theorem ofInclude_toInclude (m : Matrix) :
    (ofInclude m.toInclude = .ok m ↔ ∀ e ∈ m.entries, e.Writable) ∧
    ((∃ e ∈ m.entries, ¬ e.Writable) →
      (∃ fault, ofInclude m.toInclude = .error fault) ∨
        ∃ m', ofInclude m.toInclude = .ok m' ∧ m' ≠ m) := by
  have hself : ofInclude m.toInclude = .ok m ↔ ∀ e ∈ m.entries, e.Writable := by
    rw [ofInclude, toInclude_eq, bind_eq_ok]
    calc (∃ es, entriesOfInclude 0 (m.entries.map fun e => .map e.item) = .ok es ∧
          ofEntries es = .ok m)
        ↔ entriesOfInclude 0 (m.entries.map fun e => .map e.item) = .ok m.entries := by
          simp [ofEntries_eq_ok]
      _ ↔ ∀ e ∈ m.entries, Entry.ofMapping e.item = .ok e := by
          rw [entriesOfInclude_items, List.forall₂_same]
      _ ↔ ∀ e ∈ m.entries, e.Writable := by
          simp only [Entry.ofMapping_item_self]
  refine ⟨hself, fun ⟨e, he, hno⟩ => ?_⟩
  cases hread : ofInclude m.toInclude with
  | error fault => exact .inl ⟨fault, rfl⟩
  | ok m' =>
    refine .inr ⟨m', rfl, ?_⟩
    rintro rfl
    exact hno (hself.mp hread e he)

example : ∀ e ∈ builtIn.entries, e.Writable := by decide +kernel

end Matrix
end BindingRelease
