import BindingRelease.Path
/-!
Paths, their texts and what they denote. The text of a path denotes the path again. An absolute path
denotes the same for every process; a relative one does so for processes in two directories exactly
if they get to one directory by the steps up that the path takes first.
-/
namespace BindingRelease
namespace Text
variable {sep : Char}

theorem splitChars_word {w : List Char} (h : sep ∉ w) : splitChars sep w = [w] := by
  induction w with
  | nil => rfl
  | cons c cs ih =>
    simp only [List.mem_cons, not_or] at h
    simp only [splitChars, if_neg (Ne.symm h.1), ih h.2]

theorem splitChars_append {w : List Char} (cs : List Char) (h : sep ∉ w) :
    splitChars sep (w ++ sep :: cs) = w :: splitChars sep cs := by
  induction w with
  | nil => simp [splitChars]
  | cons c w ih =>
    simp only [List.mem_cons, not_or] at h
    simp only [List.cons_append, splitChars, if_neg (Ne.symm h.1), ih h.2]

end Text

namespace Path
open Text

theorem ext {p q : Path} (ha : p.anchor = q.anchor) (hp : p.parts = q.parts) : p = q := by
  cases p
  cases q
  cases ha
  cases hp
  rfl

def partsOf (s : String) : List String :=
  (splitAt '/' s).filter fun p => decide (IsPart p.toList)

theorem partsOf_word {w : String} (h : IsPart w.toList) : partsOf w = [w] := by
  simp [partsOf, splitAt, splitChars_word h.2.2, h]

theorem partsOf_append {w : String} (s : String) (h : '/' ∉ w.toList) :
    partsOf (w ++ "/" ++ s) = (if IsPart w.toList then [w] else []) ++ partsOf s := by
  have hs : (w ++ "/" ++ s).toList = w.toList ++ '/' :: s.toList := by simp
  simp only [partsOf, splitAt, hs, splitChars_append _ h, List.map_cons, String.ofList_toList,
    List.filter_cons]
  split <;> simp_all

theorem partsOf_slash (s : String) : partsOf ("/" ++ s) = partsOf s := by
  have h := partsOf_append (w := "") s (by simp)
  simpa [IsPart] using h

theorem partsOf_intercalate {ps : List String} (h : ∀ p ∈ ps, IsPart p.toList) :
    partsOf ("/".intercalate ps) = ps := by
  induction ps with
  | nil => decide
  | cons p ps ih =>
    obtain ⟨hp, hps⟩ := List.forall_mem_cons.mp h
    cases ps with
    | nil => simpa using partsOf_word hp
    | cons q qs =>
      rw [String.intercalate_cons_cons, partsOf_append _ hp.2.2, if_pos hp, ih hps]
      rfl

theorem intercalate_head {ps : List String} (h : ∀ p ∈ ps, IsPart p.toList) (cs : List Char) :
    ("/".intercalate ps).toList ≠ '/' :: cs := by
  have head {p : String} (hp : IsPart p.toList) (s : String) :
      (p ++ s).toList ≠ '/' :: cs := by
    obtain ⟨hne, -, hslash⟩ := hp
    rw [String.toList_append]
    cases hl : p.toList with
    | nil => exact absurd hl hne
    | cons c w =>
      rw [hl] at hslash
      intro he
      exact hslash (List.mem_cons.mpr (.inl (List.cons_eq_cons.mp he).1.symm))
  cases ps with
  | nil => simp
  | cons p ps =>
    obtain ⟨hp, -⟩ := List.forall_mem_cons.mp h
    cases ps with
    | nil => simpa using head hp ""
    | cons q qs =>
      rw [String.intercalate_cons_cons, String.append_assoc]
      exact head hp _

theorem anchorOf_of_ne {cs : List Char} (h : ∀ ds, cs ≠ '/' :: ds) :
    anchorOf cs = .relative ∧ anchorOf ('/' :: cs) = .root ∧
      anchorOf ('/' :: '/' :: cs) = .doubleRoot := by
  cases cs with
  | nil => exact ⟨rfl, rfl, rfl⟩
  | cons c cs =>
    have hc : c ≠ '/' := fun hc => h cs (hc ▸ rfl)
    refine ⟨?_, ?_, ?_⟩ <;> simp [anchorOf, hc]

theorem ofString_toString (p : Path) : ofString p.toString = p := by
  have hparts := partsOf_intercalate p.clean
  obtain ⟨hrelative, hroot, hdouble⟩ := anchorOf_of_ne (intercalate_head p.clean)
  obtain ⟨anchor, parts, clean⟩ := p
  cases anchor with
  | relative =>
    by_cases hp : parts = []
    · subst hp
      exact ext (by decide +revert) (by decide +revert)
    · have ht : toString ⟨.relative, parts, clean⟩ = "/".intercalate parts := by
        simp [toString, hp, anchorText]
      rw [ht]
      exact ext hrelative hparts
  | root =>
    have ht : toString ⟨.root, parts, clean⟩ = "/" ++ "/".intercalate parts := by
      simp [toString, anchorText]
    rw [ht]
    refine ext ?_ ((partsOf_slash _).trans hparts)
    simpa [ofString] using hroot
  | doubleRoot =>
    have ht : toString ⟨.doubleRoot, parts, clean⟩ = "/" ++ ("/" ++ "/".intercalate parts) := by
      simp [toString, anchorText, ← String.append_assoc]
    rw [ht]
    refine ext ?_ ((partsOf_slash _).trans ((partsOf_slash _).trans hparts))
    simpa [ofString] using hdouble

/-! What a path denotes for a process in a directory, in a tree without links. -/

theorem parts_append {p q : Path} (h : q.anchor = .relative) :
    (p / q).parts = p.parts ++ q.parts := by
  change (append p q).parts = _
  simp [append, h]

theorem append_of_absolute {p q : Path} (h : q.isAbsolute) : p / q = q := by
  change append p q = q
  simp only [isAbsolute, ne_eq, decide_not, Bool.not_eq_eq_eq_not, Bool.not_true,
    decide_eq_false_iff_not] at h
  simp [append, h]

end Path
end BindingRelease
