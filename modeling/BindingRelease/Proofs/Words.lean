import BindingRelease.Shell.Words
/-!
The words of a text, and its letters. Bare words in front of a text are its first words. A text is
one word or all its words are shorter than it; and where the words and one letter between
neighbours make up the whole length of a text, its marks part the words and do nothing else.
-/
namespace BindingRelease

theorem bind_eq_ok {ε α β : Type} {x : Except ε α} {f : α → Except ε β} {b : β} :
    (x >>= f) = .ok b ↔ ∃ a, x = .ok a ∧ f a = .ok b := by
  cases x with
  | error e => simp [Bind.bind, Except.bind]
  | ok a => simp [Bind.bind, Except.bind]

namespace Shell
variable {cs text : List Char} {ws : List (List Char)}

def Place.letters : Place → List Char
  | between => []
  | bare w | single w | double w => w

def Whole (text : List Char) (ws : List (List Char)) : Prop :=
  ws = [text] ∨ ∀ w ∈ ws, w.length < text.length

theorem Whole.shorter {n : Nat} (h : Whole text ws) (hn : text.length < n) :
    ∀ w ∈ ws, w.length < n := by
  intro w hw
  rcases h with rfl | h
  · rwa [List.mem_singleton.mp hw]
  · exact Nat.lt_trans (h w hw) hn

theorem wordsFrom_whole {p : Place} (h : wordsFrom p cs = .ok ws) : Whole (p.letters ++ cs) ws := by
  fun_induction wordsFrom p cs generalizing ws
  case case1 =>
    cases h
    exact .inr (by simp)
  case case2 w =>
    cases h
    exact .inl (by simp [Place.letters])
  case case3 | case4 | case8 | case14 | case20 => cases h
  case case11 w c cs _ ih =>
    -- A separator behind an open word.
    cases hr : wordsFrom .between cs with
    | error e =>
      rw [hr] at h
      cases h
    | ok rest =>
      rw [hr] at h
      cases h
      have hrest : ∀ v ∈ rest, v.length < (w ++ c :: cs).length :=
        (ih hr).shorter (by simp [Place.letters]; omega)
      exact .inr (List.forall_mem_cons.mpr ⟨by simp [Place.letters], hrest⟩)
  case case10 | case16 | case18 | case22 | case23 =>
    rename_i ih
    simpa [Place.letters] using ih h
  case case5 | case6 | case7 | case9 | case12 | case13 | case15 | case17 | case19 | case21 =>
    rename_i ih
    exact .inr ((ih h).shorter (by simp [Place.letters]))

theorem split_eq_ok {s : String} {vs : List String} :
    split s = .ok vs ↔ words s.toList = .ok (vs.map String.toList) := by
  unfold split
  cases words s.toList with
  | error e => simp [Except.map]
  | ok ws =>
    simp only [Except.map, Except.ok.injEq]
    constructor
    · rintro rfl
      simp [Function.comp_def]
    · rintro rfl
      simp [Function.comp_def]

theorem split_whole {s : String} {vs : List String} (h : split s = .ok vs) :
    vs = [s] ∨ ∀ v ∈ vs, v.length < s.length := by
  rcases wordsFrom_whole (split_eq_ok.mp h) with hone | hs
  · exact .inl ((List.map_inj_right fun _ _ => String.toList_inj.mp).mp hone)
  · exact .inr fun v hv => hs v.toList (List.mem_map_of_mem hv)

/-- The characters that the reader takes for more than themselves outside quotes. -/
def isMark (c : Char) : Bool :=
  [' ', '\t', '\r', '\n', '\'', '"', '\\'].contains c

theorem isMark_eq_false {c : Char} :
    isMark c = false ↔ isSeparator c = false ∧ c ≠ '\'' ∧ c ≠ '"' ∧ c ≠ '\\' := by
  simp [isMark, isSeparator, and_assoc]

theorem isMark_of_isSeparator {c : Char} (h : isSeparator c) : isMark c := by
  simp only [isSeparator, Bool.or_eq_true, beq_iff_eq] at h
  rcases h with ((rfl | rfl) | rfl) | rfl <;> decide

/-- A word that is read as it stands. -/
def IsBareWord (w : List Char) : Prop := w ≠ [] ∧ ∀ c ∈ w, isMark c = false

instance (w : List Char) : Decidable (IsBareWord w) :=
  decidable_of_iff (w ≠ [] ∧ w.all (!isMark ·)) (by simp [IsBareWord])

theorem wordsFrom_bare_append {w v : List Char} (hv : ∀ c ∈ v, isMark c = false) :
    wordsFrom (.bare w) (v ++ cs) = wordsFrom (.bare (w ++ v)) cs := by
  induction v generalizing w with
  | nil => simp
  | cons c v ih =>
    obtain ⟨hc, hv⟩ := List.forall_mem_cons.mp hv
    obtain ⟨hs, h₁, h₂, h₃⟩ := isMark_eq_false.mp hc
    rw [List.cons_append, wordsFrom.eq_def]
    simp [hs, h₁, h₂, h₃, ih hv]

theorem words_bare_append {v : List Char} (hv : IsBareWord v) :
    words (v ++ cs) = wordsFrom (.bare v) cs := by
  obtain ⟨hne, hv⟩ := hv
  cases v with
  | nil => exact absurd rfl hne
  | cons c v =>
    obtain ⟨hc, hv⟩ := List.forall_mem_cons.mp hv
    obtain ⟨hs, h₁, h₂, h₃⟩ := isMark_eq_false.mp hc
    rw [words, List.cons_append, wordsFrom.eq_def]
    simp [hs, h₁, h₂, h₃, wordsFrom_bare_append hv]

theorem words_bare {v : List Char} (hv : IsBareWord v) : words v = .ok [v] := by
  have h : words (v ++ []) = wordsFrom (.bare v) [] := words_bare_append hv
  simpa [wordsFrom] using h

theorem words_bare_space {v : List Char} (hv : IsBareWord v) :
    words (v ++ ' ' :: cs) = (words cs).map (v :: ·) := by
  rw [words_bare_append hv, wordsFrom.eq_def]
  exact if_pos (by decide)

def IsPlainWord (w : List Char) : Prop := w ≠ [] ∧ w.all isPlain

instance (w : List Char) : Decidable (IsPlainWord w) :=
  inferInstanceAs (Decidable (_ ∧ _))

theorem isMark_of_isPlain {c : Char} (h : isPlain c) : isMark c = false := by
  refine Bool.eq_false_iff.mpr fun hm => ?_
  simp only [isMark, List.contains_iff_mem, List.mem_cons, List.not_mem_nil, or_false] at hm
  rcases hm with rfl | rfl | rfl | rfl | rfl | rfl | rfl <;> exact absurd h (by decide)

theorem IsPlainWord.bare {w : List Char} (h : IsPlainWord w) : IsBareWord w :=
  ⟨h.1, fun c hc => isMark_of_isPlain (List.all_eq_true.mp h.2 c hc)⟩

theorem words_sentence {vs : List (List Char)} (hvs : ∀ v ∈ vs, IsPlainWord v) :
    words (vs.flatMap (· ++ [' ']) ++ cs) = (words cs).map (vs ++ ·) := by
  induction vs with
  | nil => cases h : words cs <;> simp [h, Except.map]
  | cons v vs ih =>
    have hv := hvs v (by simp)
    have hrest := ih fun u hu => hvs u (List.mem_cons_of_mem v hu)
    calc words ((v :: vs).flatMap (· ++ [' ']) ++ cs)
        = words (v ++ ' ' :: (vs.flatMap (· ++ [' ']) ++ cs)) := by simp
      _ = (words (vs.flatMap (· ++ [' ']) ++ cs)).map (v :: ·) := words_bare_space hv.bare
      _ = (words cs).map (v :: vs ++ ·) := by
          rw [hrest]
          cases words cs <;> rfl

def extent : List (List Char) → Nat
  | [] => 0
  | w :: ws => w.length + 1 + extent ws

theorem extent_cons (w : List Char) : extent (w :: ws) = w.length + 1 + extent ws := rfl

theorem extent_single (w : List Char) : extent [w] = w.length + 1 := by
  simp [extent]

theorem extent_pair (v w : List Char) : extent [v, w] = v.length + w.length + 2 := by
  rw [extent_cons, extent_single]
  omega

def Place.quoted : Place → Bool
  | between | bare _ => false
  | single _ | double _ => true

/-- The words fit into the text, and when they fill it then each mark in it parts two words. -/
structure Fits (p : Place) (cs : List Char) (ws : List (List Char)) : Prop where
  bound : extent ws ≤ p.letters.length + cs.length + 1
  filled : extent ws = p.letters.length + cs.length + 1 →
    p.quoted = false ∧ cs.countP isMark + 1 = ws.length

theorem Fits.of_lt {p : Place} (h : extent ws < p.letters.length + cs.length + 1) : Fits p cs ws :=
  ⟨Nat.le_of_lt h, fun heq => absurd heq (Nat.ne_of_lt h)⟩

theorem Fits.quoted {p q : Place} {ds : List Char} (h : Fits q ds ws) (hq : q.quoted = true)
    (hlen : q.letters.length + ds.length = p.letters.length + cs.length) : Fits p cs ws := by
  refine ⟨hlen ▸ h.bound, fun heq => ?_⟩
  have hno : q.quoted = false := (h.filled (by omega)).1
  rw [hq] at hno
  cases hno

theorem wordsFrom_fits {p : Place} (h : wordsFrom p cs = .ok ws) : Fits p cs ws := by
  fun_induction wordsFrom p cs generalizing ws
  case case1 =>
    cases h
    exact .of_lt (by simp [extent])
  case case2 w =>
    cases h
    exact ⟨by simp [extent, Place.letters], fun _ => ⟨rfl, rfl⟩⟩
  case case3 | case4 | case8 | case14 | case20 => cases h
  case case11 w c cs hs ih =>
    -- A separator behind an open word takes the letter that stands behind the word.
    cases hr : wordsFrom .between cs with
    | error e =>
      rw [hr] at h
      cases h
    | ok rest =>
      rw [hr] at h
      cases h
      have hrest := (ih hr).bound
      simp only [Place.letters, List.length_nil] at hrest
      refine ⟨?_, fun heq => ⟨rfl, ?_⟩⟩
      · simp only [extent_cons, Place.letters, List.length_cons]
        omega
      · simp only [extent_cons, Place.letters, List.length_cons] at heq
        have hfull := (ih hr).filled (by simp only [Place.letters, List.length_nil]; omega)
        simp only [List.countP_cons_of_pos (isMark_of_isSeparator hs), List.length_cons]
        omega
  case case10 c cs hs h₁ h₂ h₃ ih | case16 w c cs hs h₁ h₂ h₃ ih =>
    -- A letter of its own.
    have hc : isMark c = false := isMark_eq_false.mpr ⟨by simpa using hs, h₁, h₂, h₃⟩
    have hfits := ih h
    refine ⟨?_, fun heq => ⟨rfl, ?_⟩⟩
    · have hbound := hfits.bound
      simp [Place.letters] at hbound ⊢
      omega
    · have hfull := hfits.filled (by simp [Place.letters] at heq ⊢; omega)
      rw [List.countP_cons_of_neg (by simp [hc])]
      exact hfull.2
  case case18 | case22 | case23 =>
    rename_i ih
    exact (ih h).quoted rfl (by simp [Place.letters]; omega)
  case case5 | case6 | case7 | case9 | case12 | case13 | case15 | case17 | case19 | case21 =>
    rename_i ih
    refine .of_lt (Nat.lt_of_le_of_lt (ih h).bound ?_)
    simp [Place.letters] <;> omega

theorem words_fits (h : words cs = .ok ws) :
    extent ws ≤ cs.length + 1 ∧ (extent ws = cs.length + 1 → cs.countP isMark + 1 = ws.length) := by
  obtain ⟨hbound, hfilled⟩ := wordsFrom_fits h
  simp only [Place.letters, List.length_nil, Nat.zero_add] at hbound hfilled
  exact ⟨hbound, fun heq => (hfilled heq).2⟩

theorem words_ne_empty_behind : words cs ≠ .ok [cs, []] := by
  intro h
  have hbound := (words_fits h).1
  rw [extent_pair, List.length_nil] at hbound
  omega

/-- A text is its own only word just when it is a bare word. -/
theorem words_eq_self : words cs = .ok [cs] ↔ IsBareWord cs := by
  refine ⟨fun h => ?_, words_bare⟩
  have hfull := (words_fits h).2 (extent_single cs)
  refine ⟨?_, fun c hc => ?_⟩
  · rintro rfl
    cases h
  · have hno : cs.countP isMark = 0 := by simpa using hfull
    simpa using List.countP_eq_zero.mp hno c hc

/-- Two texts with a space between them are its two words just when both are bare words. -/
theorem words_eq_pair {v w : List Char} (hw : w ≠ []) :
    words (v ++ ' ' :: w) = .ok [v, w] ↔ IsBareWord v ∧ IsBareWord w := by
  constructor
  · intro h
    have hfull := (words_fits h).2 (by
      rw [extent_pair, List.length_append, List.length_cons]
      omega)
    rw [List.countP_append, List.countP_cons_of_pos (by decide)] at hfull
    simp only [List.length_cons, List.length_nil] at hfull
    have hv : v.countP isMark = 0 := by omega
    have hno : w.countP isMark = 0 := by omega
    refine ⟨⟨?_, fun c hc => ?_⟩, hw, fun c hc => ?_⟩
    · rintro rfl
      -- The space is skipped, and the text behind it is too short for both words.
      have hskip : words (' ' :: w) = words w := by
        unfold words
        rw [wordsFrom.eq_def]
        exact if_pos (by decide)
      have hbound := (words_fits (hskip.symm.trans h)).1
      rw [extent_pair, List.length_nil] at hbound
      omega
    · simpa using List.countP_eq_zero.mp hv c hc
    · simpa using List.countP_eq_zero.mp hno c hc
  · rintro ⟨hv, hw⟩
    rw [words_bare_space hv, words_bare hw]
    rfl

end Shell
end BindingRelease
