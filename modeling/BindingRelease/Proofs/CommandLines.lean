import BindingRelease.Arguments.Command
import BindingRelease.Proofs.Words
/-!
Command lines, from their words to the command that is read. No switch is given more letters than
the words hold. So a long argument can only be a word of its own.
-/
namespace BindingRelease

namespace Arguments
open Text
variable {names : List (String × Switch)} {program : List String}

def Argument.length : Argument → Nat
  | none => 0
  | equals text | glued text => text.length

/-- A word that stands for a switch names one of the grammar, and holds its argument. -/
def Word.Fits (names : List (String × Switch)) (w : Word) : Prop :=
  ∀ s name argument, w.role = .known s name argument →
    (name, s) ∈ names ∧ argument.length ≤ w.text.length

theorem atEquals_length (cs : List Char) : (atEquals cs).2.length ≤ cs.length := by
  unfold atEquals
  split
  · simp [Argument.length]
  · rename_i rest h
    have hle := (List.dropWhile_sublist (· != '=') (l := cs)).length_le
    rw [h] at hle
    simp only [Argument.length, String.length_ofList]
    simp only [List.length_cons] at hle
    omega

theorem candidates_fits {cs : List Char} {name : String} {s : Switch} {argument : Argument}
    (h : (name, s, argument) ∈ candidates names cs) :
    (name, s) ∈ names ∧ argument.length ≤ cs.length := by
  unfold candidates at h
  split at h
  · rename_i rest
    obtain ⟨n, hn, he⟩ := List.mem_map.mp h
    cases he
    exact ⟨(List.mem_filter.mp hn).1, atEquals_length _⟩
  · obtain ⟨n, hn, he⟩ := List.mem_filterMap.mp h
    split at he
    · cases he
      exact ⟨hn, by simp [Argument.length]⟩
    · split at he
      · cases he
        exact ⟨hn, by simp [Argument.length]⟩
      · cases he

theorem role_fits {word : String} {r : Role} (h : role names word = .ok r) :
    (Word.mk word r).Fits names := by
  rintro s name argument rfl
  simp only [role] at h
  split at h
  · cases h
  · split at h
    · rename_i found hf
      cases h
      exact ⟨List.mem_of_find?_eq_some hf, Nat.zero_le _⟩
    · split at h
      · rename_i found hf
        cases h
        exact ⟨List.mem_of_find?_eq_some hf, atEquals_length _⟩
      · unfold inexactRole at h
        split at h
        · rename_i hc
          cases h
          exact candidates_fits (by rw [hc]; exact List.mem_singleton.mpr rfl)
        · split at h <;> cases h
        · cases h

theorem role_plain {word : String} (h : word.toList.head? ≠ some '-') :
    role names word = .ok .plain := by
  simp [role, h]

theorem sort_cons {word : String} (words : List String) (hne : word ≠ "--") :
    sort names (word :: words) = (do
      let r ← role names word
      let rest ← sort names words
      return ⟨word, r⟩ :: rest) :=
  sort.eq_3 _ _ _ hne

theorem ne_separator {word : String} (h : word.toList.head? ≠ some '-') : word ≠ "--" := by
  rintro rfl
  exact h (by decide +kernel)

theorem sort_plain {word : String} (h : word.toList.head? ≠ some '-') :
    sort names [word] = .ok [⟨word, .plain⟩] := by
  rw [sort_cons [] (ne_separator h), role_plain h]
  rfl

theorem sort_fits {words : List String} {sorted : List Word} (h : sort names words = .ok sorted) :
    ∀ w ∈ sorted, w.Fits names := by
  fun_induction sort names words generalizing sorted with
  | case1 => 
    cases h
    simp
  | case2 words =>
    cases h
    rintro w hw s name argument hr
    rcases List.mem_cons.mp hw with rfl | hw
    · cases hr
    · obtain ⟨u, -, rfl⟩ := List.mem_map.mp hw
      cases hr
  | case3 word words _ ih =>
    simp only [bind_eq_ok] at h
    obtain ⟨r, hr, rest, hrest, he⟩ := h
    cases he
    exact List.forall_mem_cons.mpr ⟨role_fits hr, ih hrest⟩

theorem sort_texts {words : List String} {sorted : List Word} (h : sort names words = .ok sorted) :
    sorted.map Word.text = words := by
  fun_induction sort names words generalizing sorted with
  | case1 =>
    cases h
    rfl
  | case2 words =>
    cases h
    simp [Function.comp_def]
  | case3 word words _ ih =>
    simp only [bind_eq_ok] at h
    obtain ⟨r, -, rest, hrest, he⟩ := h
    cases he
    simp [ih hrest]

theorem sortWords_eq_ok {ss : List Switch} {words : List String} {sorted : List Word} :
    sortWords program ss words = .ok sorted ↔ sort (namesOf ss) words = .ok sorted := by
  unfold sortWords
  cases sort (namesOf ss) words with
  | error c => constructor <;> intro h <;> cases h
  | ok ws =>
    constructor
    · intro h
      cases h
      rfl
    · intro h
      cases h
      rfl

theorem sort_append {us vs : List String} (hus : "--" ∉ us) :
    sort names (us ++ vs) = (do
      let a ← sort names us
      let b ← sort names vs
      return a ++ b) := by
  induction us with
  | nil =>
    rw [sort]
    cases h : sort names vs <;> simp [h] <;> rfl
  | cons u us ih =>
    simp only [List.mem_cons, not_or] at hus
    have hu : u ≠ "--" := fun h => hus.1 h.symm
    rw [List.cons_append, sort_cons _ hu, sort_cons _ hu, ih hus.2]
    cases role names u with
    | error e => rfl
    | ok r =>
      cases sort names us with
      | error e => rfl
      | ok a => cases sort names vs <;> rfl

/-- The switch was given in one of the words, and its argument is no longer than a word. -/
def Given.From (names : List (String × Switch)) (ws : List Word) (g : Given) : Prop :=
  ∃ name s, (name, s) ∈ names ∧ g.name = s.name ∧
    (s.kind.takesArgument → ∃ w ∈ ws, g.word.length ≤ w.text.length)

theorem Given.From.mono {us ws : List Word} {g : Given} (h : g.From names us) (hs : us ⊆ ws) :
    g.From names ws := by
  obtain ⟨name, s, hmem, hname, hlen⟩ := h
  refine ⟨name, s, hmem, hname, fun ht => ?_⟩
  obtain ⟨w, hw, hle⟩ := hlen ht
  exact ⟨w, hs hw, hle⟩

theorem readLevel_given {hasCommands : Bool} {ws : List Word} {l : Level}
    (h : readLevel program hasCommands ws = .ok l) (hf : ∀ w ∈ ws, w.Fits names) :
    ∀ g ∈ l.given, g.From names ws := by
  fun_induction readLevel program hasCommands ws generalizing l
  case case1 | case3 | case5 =>
    cases h
    simp
  case case10 => cases h
  case case2 | case4 | case6 =>
    rename_i ih
    obtain ⟨l', hl', he⟩ := bind_eq_ok.mp h
    cases he
    intro g hg
    exact (ih hl' (List.forall_mem_cons.mp hf).2 g hg).mono (List.subset_cons_self ..)
  case case7 | case8 =>
    -- The argument stands in the word of the switch.
    rename_i hr ih
    simp only [bind_eq_ok] at h
    obtain ⟨-, -, l', hl', he⟩ := h
    cases he
    obtain ⟨hw, hws⟩ := List.forall_mem_cons.mp hf
    obtain ⟨hmem, hlen⟩ := hw _ _ _ hr
    refine List.forall_mem_cons.mpr ⟨?_, fun g hg => ?_⟩
    · exact ⟨_, _, hmem, rfl, fun _ => ⟨_, List.mem_cons_self, hlen⟩⟩
    · exact (ih hl' hws g hg).mono (List.subset_cons_self ..)
  case case9 w s name _ word ws hr ih =>
    -- The argument is the next word.
    simp only [bind_eq_ok] at h
    obtain ⟨-, -, l', hl', he⟩ := h
    cases he
    obtain ⟨hw, hv, hws⟩ := by simpa only [List.forall_mem_cons] using hf
    refine List.forall_mem_cons.mpr ⟨?_, fun g hg => ?_⟩
    · exact ⟨_, _, (hw _ _ _ hr).1, rfl, fun _ => ⟨⟨word, .plain⟩, by simp, Nat.le_refl _⟩⟩
    · exact (ih hl' hws g hg).mono fun u hu => by simp [hu]
  case case11 hr hs ih =>
    simp only [bind_eq_ok] at h
    obtain ⟨-, -, l', hl', he⟩ := h
    cases he
    obtain ⟨hw, hws⟩ := List.forall_mem_cons.mp hf
    refine List.forall_mem_cons.mpr ⟨?_, fun g hg => ?_⟩
    · exact ⟨_, _, (hw _ _ _ hr).1, rfl, fun ht => absurd ht hs⟩
    · exact (ih hl' hws g hg).mono (List.subset_cons_self ..)

/-- A plain word where a command is due is the command; the words behind it are only sorted, and
left to what the command brings. -/
theorem read_commands {ss : List Switch} {title command : String} {words : List String}
    {parts : List (String × Grammar)} (hc : command.toList.head? ≠ some '-') :
    read program (.commands ss title parts) (command :: words) = (do
      let _ ← sortWords program ss words
      let p ← readCommand program title (parts.map (·.1)) command words parts
      return ⟨command :: p.commands, p.given, p.untaken⟩) := by
  rw [read, sortWords, sort_cons _ (ne_separator hc), role_plain hc, sortWords]
  cases hs : sort (namesOf ss) words with
  | error c => rfl
  | ok sorted =>
    rw [← sort_texts hs]
    rfl

end Arguments
end BindingRelease
