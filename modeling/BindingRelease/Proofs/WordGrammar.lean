import BindingRelease.Proofs.Words
/-!
The grammar of shell words. A word is made of letters, of parts in single or in double quotes and of
backslashes that guard a letter; a sentence has separators between its words and maybe around them.
The reader takes exactly the sentences, and gives the letters that their words mean. Quoting writes
any text as a word that means it; pasted between double quotes a text means itself only sometimes.
-/
namespace BindingRelease.Shell

/-- What stands between double quotes, and the letters that it means. -/
inductive Quoted : List Char → List Char → Prop
  | nil : Quoted [] []
  | letter {c t v} (hq : c ≠ '"') (hb : c ≠ '\\') (h : Quoted t v) : Quoted (c :: t) (c :: v)
  | guarded {c t v} (hc : c = '"' ∨ c = '\\') (h : Quoted t v) : Quoted ('\\' :: c :: t) (c :: v)
  | kept {c t v} (hq : c ≠ '"') (hb : c ≠ '\\') (h : Quoted t v) :
      Quoted ('\\' :: c :: t) ('\\' :: c :: v)

/-- A part of a word, and the letters that it means. -/
inductive Piece : List Char → List Char → Prop
  | letter {c} (h : isMark c = false) : Piece [c] [c]
  | single {t} (h : '\'' ∉ t) : Piece ('\'' :: (t ++ ['\''])) t
  | double {t v} (h : Quoted t v) : Piece ('"' :: (t ++ ['"'])) v
  | guarded (c) : Piece ['\\', c] [c]

inductive Pieces : List Char → List Char → Prop
  | nil : Pieces [] []
  | cons {t v t' v'} (h : Piece t v) (hs : Pieces t' v') : Pieces (t ++ t') (v ++ v')

/-- A word and what it means. It may mean no letters at all, but it is written with some. -/
def Word (t v : List Char) : Prop := t ≠ [] ∧ Pieces t v

def Gap (g : List Char) : Prop := ∀ c ∈ g, isSeparator c

/-- Words with separators between them. -/
inductive Sentence : List Char → List (List Char) → Prop
  | blank {g} (hg : Gap g) : Sentence g []
  | word {g t v rest ws} (hg : Gap g) (hw : Word t v) (hr : ∀ c ∈ rest.head?, isSeparator c)
      (h : Sentence rest ws) : Sentence (g ++ t ++ rest) (v :: ws)

variable {c : Char} {cs t t' v v' w : List Char} {ws : List (List Char)}

theorem Quoted.length_le (h : Quoted t v) : v.length ≤ t.length := by
  induction h with
  | nil => exact Nat.le_refl 0
  | letter _ _ _ ih | guarded _ _ ih | kept _ _ _ ih =>
    simp only [List.length_cons]
    omega

theorem Piece.ne_nil (h : Piece t v) : t ≠ [] := by
  cases h <;> simp

theorem Piece.word (h : Piece t v) : Word t v :=
  ⟨h.ne_nil, by simpa using Pieces.cons h .nil⟩

theorem Word.first (h : Word t v) : ∃ u x t' v', t = u ++ t' ∧ v = x ++ v' ∧ Piece u x ∧
    Pieces t' v' := by
  obtain ⟨hne, hp⟩ := h
  cases hp with
  | nil => exact absurd rfl hne
  | cons h hs => exact ⟨_, _, _, _, rfl, rfl, h, hs⟩

/-! The reader on what the grammar has. -/

theorem wordsFrom_quoted (h : Quoted t v) :
    wordsFrom (.double w) (t ++ cs) = wordsFrom (.double (w ++ v)) cs := by
  induction h generalizing w with
  | nil => simp
  | letter hq hb _ ih =>
    rw [List.cons_append, wordsFrom.eq_def]
    simp [hq, hb, ih]
  | guarded hc _ ih =>
    rw [List.cons_append, List.cons_append, wordsFrom.eq_def]
    simp [hc, ih]
  | kept hq hb _ ih =>
    rw [List.cons_append, List.cons_append, wordsFrom.eq_def]
    simp [hq, hb, ih]

theorem wordsFrom_single (h : '\'' ∉ t) :
    wordsFrom (.single w) (t ++ cs) = wordsFrom (.single (w ++ t)) cs := by
  induction t generalizing w with
  | nil => simp
  | cons c t ih =>
    obtain ⟨hc, ht⟩ := by simpa only [List.mem_cons, not_or] using h
    rw [List.cons_append, wordsFrom.eq_def]
    simp [Ne.symm hc, ih ht]

theorem wordsFrom_letter {p : Place} (hp : p.quoted = false) (h : isMark c = false) :
    wordsFrom p (c :: cs) = wordsFrom (.bare (p.letters ++ [c])) cs := by
  obtain ⟨hs, h₁, h₂, h₃⟩ := isMark_eq_false.mp h
  cases p with
  | between | bare =>
    rw [wordsFrom.eq_def]
    simp [hs, h₁, h₂, h₃, Place.letters]
  | single | double => cases hp

theorem wordsFrom_quote {p : Place} (hp : p.quoted = false) :
    wordsFrom p ('\'' :: cs) = wordsFrom (.single p.letters) cs := by
  cases p with
  | between | bare => exact wordsFrom.eq_def ..
  | single | double => cases hp

theorem wordsFrom_doubleQuote {p : Place} (hp : p.quoted = false) :
    wordsFrom p ('"' :: cs) = wordsFrom (.double p.letters) cs := by
  cases p with
  | between | bare => exact wordsFrom.eq_def ..
  | single | double => cases hp

theorem wordsFrom_backslash {p : Place} (hp : p.quoted = false) :
    wordsFrom p ('\\' :: c :: cs) = wordsFrom (.bare (p.letters ++ [c])) cs := by
  cases p with
  | between | bare => rfl
  | single | double => cases hp

theorem wordsFrom_closingQuote : wordsFrom (.double w) ('"' :: cs) = wordsFrom (.bare w) cs :=
  wordsFrom.eq_def ..

theorem wordsFrom_piece {p : Place} (hp : p.quoted = false) (h : Piece t v) :
    wordsFrom p (t ++ cs) = wordsFrom (.bare (p.letters ++ v)) cs := by
  cases h with
  | letter hc => exact wordsFrom_letter hp hc
  | single hq =>
    calc wordsFrom p ('\'' :: (v ++ ['\'']) ++ cs)
        = wordsFrom (.single p.letters) (v ++ '\'' :: cs) := by simp [wordsFrom_quote hp]
      _ = wordsFrom (.single (p.letters ++ v)) ('\'' :: cs) := wordsFrom_single hq
      _ = wordsFrom (.bare (p.letters ++ v)) cs := by rw [wordsFrom, if_pos rfl]
  | @double t v hq =>
    calc wordsFrom p ('"' :: (t ++ ['"']) ++ cs)
        = wordsFrom (.double p.letters) (t ++ '"' :: cs) := by simp [wordsFrom_doubleQuote hp]
      _ = wordsFrom (.double (p.letters ++ v)) ('"' :: cs) := wordsFrom_quoted hq
      _ = wordsFrom (.bare (p.letters ++ v)) cs := wordsFrom_closingQuote
  | guarded c => exact wordsFrom_backslash hp

theorem wordsFrom_pieces (h : Pieces t v) :
    wordsFrom (.bare w) (t ++ cs) = wordsFrom (.bare (w ++ v)) cs := by
  induction h generalizing w with
  | nil => simp
  | cons h _ ih =>
    rw [List.append_assoc, wordsFrom_piece rfl h, ih]
    simp [Place.letters]

theorem words_word (h : Word t v) : words (t ++ cs) = wordsFrom (.bare v) cs := by
  obtain ⟨u, x, t', v', rfl, rfl, hfirst, hrest⟩ := h.first
  rw [words, List.append_assoc, wordsFrom_piece rfl hfirst, wordsFrom_pieces hrest]
  simp [Place.letters]

theorem words_word_separator (h : Word t v) (hc : isSeparator c) :
    words (t ++ c :: cs) = (words cs).map (v :: ·) := by
  rw [words_word h, wordsFrom.eq_def]
  exact if_pos hc

theorem words_gap {g : List Char} (h : Gap g) : words (g ++ cs) = words cs := by
  induction g with
  | nil => rfl
  | cons c g ih =>
    obtain ⟨hc, hg⟩ := List.forall_mem_cons.mp h
    calc words (c :: g ++ cs)
        = words (g ++ cs) := by
          rw [List.cons_append, words, wordsFrom.eq_def]
          exact if_pos hc
      _ = words cs := ih hg

theorem words_of_sentence (h : Sentence cs ws) : words cs = .ok ws := by
  induction h with
  | @blank g hg =>
    rw [← List.append_nil g, words_gap hg]
    rfl
  | @word g t v rest ws hg hw hr h ih =>
    rw [List.append_assoc, words_gap hg]
    cases rest with
    | nil =>
      cases ih
      rw [words_word hw, wordsFrom]
    | cons c rest =>
      have hc : isSeparator c := hr c rfl
      have hskip : words (c :: rest) = words rest := words_gap (g := [c]) (by simpa [Gap] using hc)
      rw [words_word_separator hw hc, ← hskip, ih, Except.map]

/-! What the reader takes. -/

/-- What may follow an open word with the letters `w`. -/
def Completes (w cs : List Char) (ws : List (List Char)) : Prop :=
  ∃ t v rest vs, cs = t ++ rest ∧ Pieces t v ∧ (∀ c ∈ rest.head?, isSeparator c) ∧
    Sentence rest vs ∧ ws = (w ++ v) :: vs

def Follows : Place → List Char → List (List Char) → Prop
  | .between, cs, ws => Sentence cs ws
  | .bare w, cs, ws => Completes w cs ws
  | .single w, cs, ws => ∃ t rest, cs = t ++ '\'' :: rest ∧ '\'' ∉ t ∧ Completes (w ++ t) rest ws
  | .double w, cs, ws =>
    ∃ t v rest, cs = t ++ '"' :: rest ∧ Quoted t v ∧ Completes (w ++ v) rest ws

theorem Sentence.gap (hc : isSeparator c) (h : Sentence cs ws) : Sentence (c :: cs) ws := by
  cases h with
  | blank hg => exact .blank (List.forall_mem_cons.mpr ⟨hc, hg⟩)
  | word hg hw hr h => exact .word (List.forall_mem_cons.mpr ⟨hc, hg⟩) hw hr h

theorem Follows.behind {p : Place} (hp : p.quoted = false) (h : Piece t v)
    (hc : Follows (.bare (p.letters ++ v)) cs ws) : Follows p (t ++ cs) ws := by
  obtain ⟨u, x, rest, vs, rfl, hs, hr, hrest, rfl⟩ := hc
  cases p with
  | between =>
    have hw : Word (t ++ u) (v ++ x) := ⟨by simp [h.ne_nil], .cons h hs⟩
    simpa [Place.letters, Follows] using Sentence.word (g := []) (by simp [Gap]) hw hr hrest
  | bare w =>
    exact ⟨t ++ u, v ++ x, rest, vs, by simp, .cons h hs, hr, hrest, by simp [Place.letters]⟩
  | single | double => cases hp

theorem Follows.single {p : Place} (hp : p.quoted = false) (h : Follows (.single p.letters) cs ws) :
    Follows p ('\'' :: cs) ws := by
  obtain ⟨t, rest, rfl, ht, hc⟩ := h
  simpa using Follows.behind hp (.single ht) hc

theorem Follows.double {p : Place} (hp : p.quoted = false) (h : Follows (.double p.letters) cs ws) :
    Follows p ('"' :: cs) ws := by
  obtain ⟨t, v, rest, rfl, ht, hc⟩ := h
  simpa using Follows.behind hp (.double ht) hc

theorem Follows.quoted (ht : ∀ {u x}, Quoted u x → Quoted (t ++ u) (v ++ x))
    (h : Follows (.double (w ++ v)) cs ws) : Follows (.double w) (t ++ cs) ws := by
  obtain ⟨u, x, rest, rfl, hu, hc⟩ := h
  exact ⟨t ++ u, v ++ x, rest, by simp, ht hu, by simpa using hc⟩

theorem Completes.nil (h : ws = [w]) : Completes w [] ws :=
  ⟨[], [], [], [], rfl, .nil, by simp, .blank (by simp [Gap]), by simp [h]⟩

theorem follows_of_wordsFrom {p : Place} (h : wordsFrom p cs = .ok ws) : Follows p cs ws := by
  fun_induction wordsFrom p cs generalizing ws
  case case1 =>
    cases h
    exact .blank (by simp [Gap])
  case case2 w =>
    cases h
    exact .nil rfl
  case case3 | case4 | case8 | case14 | case20 => cases h
  case case5 c cs hs ih => exact (ih h).gap hs
  case case11 w c cs hs ih =>
    cases hr : wordsFrom .between cs with
    | error e =>
      rw [hr] at h
      cases h
    | ok vs =>
      rw [hr] at h
      cases h
      exact ⟨[], [], c :: cs, vs, rfl, .nil, by simpa using hs, (ih hr).gap hs, by simp⟩
  case case6 ih | case12 ih => exact (ih h).single rfl
  case case7 ih | case13 ih => exact (ih h).double rfl
  case case9 c cs _ _ _ ih | case15 w c cs _ _ _ ih =>
    exact Follows.behind rfl (.guarded c) (ih h)
  case case10 c cs hs h₁ h₂ h₃ ih | case16 w c cs hs h₁ h₂ h₃ ih =>
    have hc : isMark c = false := isMark_eq_false.mpr ⟨by simpa using hs, h₁, h₂, h₃⟩
    exact Follows.behind rfl (.letter hc) (ih h)
  case case17 w cs ih => exact ⟨[], cs, rfl, by simp, by simpa [Follows] using ih h⟩
  case case19 w cs ih => exact ⟨[], [], cs, rfl, .nil, by simpa [Follows] using ih h⟩
  case case18 w c cs hc ih =>
    obtain ⟨t, rest, rfl, ht, hrest⟩ := ih h
    exact ⟨c :: t, rest, rfl, by simp [ht, Ne.symm hc], by simpa using hrest⟩
  case case21 w c cs hc _ ih =>
    have hc : c = '"' ∨ c = '\\' := by simpa using hc
    exact (ih h).quoted (t := ['\\', c]) (.guarded hc)
  case case22 w c cs hc _ ih =>
    obtain ⟨hq, hb⟩ : c ≠ '"' ∧ c ≠ '\\' := by simpa using hc
    exact (ih h).quoted (t := ['\\', c]) (.kept hq hb)
  case case23 w c cs hq hb ih => exact (ih h).quoted (t := [c]) (.letter hq hb)

/-- The reader takes the sentences of the grammar and no other texts. -/
theorem words_eq_ok : words cs = .ok ws ↔ Sentence cs ws :=
  ⟨follows_of_wordsFrom, words_of_sentence⟩

/-! Quoting. -/

theorem pieces_plain (h : ∀ c ∈ cs, isPlain c) : Pieces cs cs := by
  induction cs with
  | nil => exact .nil
  | cons c cs ih =>
    obtain ⟨hc, hcs⟩ := List.forall_mem_cons.mp h
    exact .cons (.letter (isMark_of_isPlain hc)) (ih hcs)

theorem quoted_plain (h : ∀ c ∈ cs, isPlain c) : Quoted cs cs := by
  induction cs with
  | nil => exact .nil
  | cons c cs ih =>
    obtain ⟨hc, hcs⟩ := List.forall_mem_cons.mp h
    obtain ⟨-, -, hq, hb⟩ := isMark_eq_false.mp (isMark_of_isPlain hc)
    exact .letter hq hb (ih hcs)

theorem pieces_quotedLetters (ht : '\'' ∉ t) (v : List Char) :
    Pieces ('\'' :: (t ++ quotedLetters v ++ ['\''])) (t ++ v) := by
  induction v generalizing t with
  | nil =>
    have h : Pieces ('\'' :: (t ++ ['\''])) t := (Piece.single ht).word.2
    simpa [quotedLetters] using h
  | cons c v ih =>
    by_cases hc : c = '\''
    · subst hc
      -- Close, a single quote in double quotes, and open again.
      have hquote : Quoted ['\''] ['\''] := .letter (by decide) (by decide) .nil
      have h := Pieces.cons (.single ht) (.cons (.double hquote) (ih (t := []) (by simp)))
      simpa [quotedLetters] using h
    · have h := ih (t := t ++ [c]) (by simp [ht, Ne.symm hc])
      simpa [quotedLetters, hc] using h

theorem word_quoteChars (v : List Char) : Word (quoteChars v) v := by
  unfold quoteChars
  split
  · rename_i hv
    subst hv
    exact (Piece.single (t := []) (by simp)).word
  · rename_i hv
    split
    · rename_i hplain
      exact ⟨hv, pieces_plain (List.all_eq_true.mp hplain)⟩
    · exact ⟨by simp, by simpa using pieces_quotedLetters (t := []) (by simp) v⟩

/-- A text that means itself between double quotes. -/
structure KeptByQuotes (t : List Char) : Prop where
  unquoted : '"' ∉ t
  unpaired : ¬ ['\\', '\\'] <:+: t
  ended : t.getLast? ≠ some '\\'

theorem KeptByQuotes.tail (h : KeptByQuotes (c :: t)) : KeptByQuotes t where
  unquoted := fun hq => h.unquoted (List.mem_cons_of_mem c hq)
  unpaired := fun hp => h.unpaired (List.infix_cons hp)
  ended := fun he => h.ended (by rw [List.getLast?_cons, he, Option.getD_some])

theorem KeptByQuotes.quoted : {t : List Char} → KeptByQuotes t → Quoted t t
  | [], _ => .nil
  | c :: t, h => by
    have hq : c ≠ '"' := fun hc => h.unquoted (by simp [hc])
    by_cases hb : c = '\\'
    · subst hb
      cases t with
      | nil => exact absurd rfl h.ended
      | cons d t =>
        have hd : d ≠ '"' := fun hd => h.unquoted (by simp [hd])
        have hd' : d ≠ '\\' := by
          rintro rfl
          exact h.unpaired (List.prefix_append ['\\', '\\'] t).isInfix
        exact .kept hd hd' h.tail.tail.quoted
    · exact .letter hq hb h.tail.quoted

theorem KeptByQuotes.cons (hq : c ≠ '"') (hb : c ≠ '\\') (h : KeptByQuotes t) :
    KeptByQuotes (c :: t) where
  unquoted := by simp [h.unquoted, Ne.symm hq]
  unpaired := by
    rw [List.infix_cons_iff]
    rintro (hi | hi)
    · exact hb (List.cons_prefix_cons.mp hi).1.symm
    · exact h.unpaired hi
  ended := by
    rw [List.getLast?_cons]
    cases hl : t.getLast? with
    | none => simpa using hb
    | some d => simpa [hl] using h.ended

theorem KeptByQuotes.backslash (hb : c ≠ '\\') (h : KeptByQuotes (c :: t)) :
    KeptByQuotes ('\\' :: c :: t) where
  unquoted := by simpa using h.unquoted
  unpaired := by
    rw [List.infix_cons_iff]
    rintro (hi | hi)
    · exact hb (List.cons_prefix_cons.mp (List.cons_prefix_cons.mp hi).2).1.symm
    · exact h.unpaired hi
  ended := by
    rw [List.getLast?_cons_cons]
    exact h.ended

theorem Quoted.kept_self (h : Quoted t v) (hv : v = t) : KeptByQuotes t := by
  induction h with
  | nil => exact ⟨by simp, by simp, by simp⟩
  | letter hq hb _ ih => exact (ih (List.cons.inj hv).2).cons hq hb
  | guarded hc h =>
    -- The backslash is lost, so what is meant is shorter.
    have hlen := congrArg List.length hv
    have hle := h.length_le
    simp only [List.length_cons] at hlen
    omega
  | kept hq hb _ ih =>
    exact ((ih (List.cons.inj (List.cons.inj hv).2).2).cons hq hb).backslash hb

/-- Between double quotes at the end of a line a text is read as it stands just if the quotes keep
it: whatever else is read for what it means takes a letter away. -/
theorem wordsFrom_double_eq_self :
    wordsFrom (.double w) (t ++ ['"']) = .ok [w ++ t] ↔ KeptByQuotes t := by
  constructor
  · intro h
    obtain ⟨u, v, rest, ht, hu, -⟩ := follows_of_wordsFrom h
    have hrest : wordsFrom (.bare (w ++ v)) rest = .ok [w ++ t] := by
      rw [← h, ht, wordsFrom_quoted hu, wordsFrom_closingQuote]
    rcases List.eq_nil_or_concat rest with rfl | ⟨rest, x, rfl⟩
    · -- The quotes end where the line does.
      obtain ⟨rfl, -⟩ := List.append_inj' ht rfl
      have hv : w ++ v = w ++ t := (List.cons.inj (Except.ok.inj hrest)).1
      exact hu.kept_self (List.append_cancel_left hv)
    · -- They end before, and there is no letter left to lose for the quote at the end.
      rw [List.concat_eq_append] at ht hrest
      rw [← List.cons_append, ← List.append_assoc] at ht
      obtain ⟨rfl, hx⟩ := List.append_inj' ht rfl
      cases hx
      obtain ⟨hbound, hfilled⟩ := wordsFrom_fits hrest
      have hle := hu.length_le
      simp only [extent_single, Place.letters, List.length_append, List.length_cons,
        List.length_nil] at hbound hfilled
      have hmarks := (hfilled (by omega)).2
      simp [isMark] at hmarks
  · intro h
    rw [wordsFrom_quoted h.quoted, wordsFrom_closingQuote, wordsFrom]

end BindingRelease.Shell
