import BindingRelease.Proofs.WordGrammar
import BindingRelease.Provision
/-!
The usual command that installs a compiler. The version is quoted into it as one word, and the
directory is pasted between double quotes.
-/
namespace BindingRelease

namespace Text.Template
variable {texts : List (String × String)} {depth : Nat} {pre name cs : List Char} {found : String}

def isBrace (c : Char) : Bool := ['{', '}'].contains c

def endsName (c : Char) : Bool := ['{', '}', '[', ':', '!'].contains c

theorem fillFrom_letters (h : pre.all (!isBrace ·)) :
    fillFrom texts depth (pre ++ cs) =
      (fillFrom texts depth cs).map (String.ofList pre ++ ·) := by
  induction pre with
  | nil => cases h : fillFrom texts depth cs <;> simp [h, Except.map]
  | cons c pre ih =>
    obtain ⟨hc, hpre⟩ := by simpa [isBrace] using h
    rw [List.cons_append, fillFrom.eq_def]
    simp only [hc, if_false, ih (by simpa [isBrace] using hpre)]
    cases fillFrom texts depth cs with
    | error e => rfl
    | ok s => simp [Except.map, bind, Except.bind, pure, Except.pure, String.append_assoc]

theorem readField_name (h : name.all (!endsName ·)) (seen cs : List Char) :
    readField false seen (name ++ '}' :: cs) = some (⟨seen.reverse ++ name, none, []⟩, cs) := by
  induction name generalizing seen with
  | nil => simp [readField, readTail]
  | cons c name ih =>
    obtain ⟨hc, hname⟩ := by simpa [endsName] using h
    simp [readField, hc, ih (by simpa [endsName] using hname)]

theorem fillFrom_field (h : name.all (!endsName ·))
    (hfound : resolve texts name = .ok found) :
    fillFrom texts depth ('{' :: (name ++ '}' :: cs)) =
      (fillFrom texts depth cs).map (found ++ ·) := by
  have hread := readField_name h [] cs
  rw [fillFrom.eq_def]
  simp only [if_true]
  split
  · rename_i rest' hr
    cases name with
    | nil => cases hr
    | cons c name =>
      cases hr
      exact absurd h (by simp [endsName])
  · rw [hread]
    simp only [List.reverse_nil, List.nil_append, hfound, conversion?, Conversion.apply]
    cases fillFrom texts depth cs with
    | error e => rfl
    | ok s => rfl

end Text.Template

namespace CompilerInstaller
open Text

theorem render_usualTemplate (version : String) (directory : Path) :
    render usualTemplate version directory =
      .ok ("choco install llvm --version " ++ Shell.quote version ++
        " --yes --no-progress --install-arguments=\"/D=" ++ directory.toString ++ "\"") := by
  have htemplate : usualTemplate.toList =
      "choco install llvm --version ".toList ++ '{' :: ("version".toList ++ '}' ::
        (" --yes --no-progress --install-arguments=\"/D=".toList ++
          '{' :: ("directory".toList ++ '}' :: ("\"".toList ++ [])))) := by decide +kernel
  rw [render, Template.fill, htemplate,
    Template.fillFrom_letters (by decide +kernel),
    Template.fillFrom_field (by decide +kernel) (by rfl),
    Template.fillFrom_letters (by decide +kernel),
    Template.fillFrom_field (by decide +kernel) (by rfl),
    Template.fillFrom_letters (by decide +kernel), Template.fillFrom]
  simp only [Except.map, String.ofList_toList, String.append_assoc, String.append_empty]

def commandWords : List (List Char) :=
  ["choco", "install", "llvm", "--version"].map String.toList

def optionWords : List (List Char) :=
  ["--yes", "--no-progress"].map String.toList

def usualLetters (version directory : List Char) : List Char :=
  commandWords.flatMap (· ++ [' ']) ++ (Shell.quoteChars version ++ ' ' ::
    (optionWords.flatMap (· ++ [' ']) ++
      ("--install-arguments=".toList ++ '"' :: ("/D=".toList ++ (directory ++ ['"'])))))

theorem words_usualLetters (v d : List Char) :
    Shell.words (usualLetters v d) =
      (Shell.wordsFrom (.double "--install-arguments=/D=".toList) (d ++ ['"'])).map
        (commandWords ++ v :: optionWords ++ ·) := by
  have hswitch : Shell.Quoted "/D=".toList "/D=".toList := Shell.quoted_plain (by simp; decide)
  have hopen : (Shell.Place.bare "--install-arguments=".toList).letters ++ "/D=".toList =
      "--install-arguments=/D=".toList := by decide +kernel
  rw [usualLetters, Shell.words_sentence (by decide +kernel),
    Shell.words_word_separator (Shell.word_quoteChars v) (by decide +kernel),
    Shell.words_sentence (by decide +kernel), Shell.words_bare_append (by decide +kernel),
    Shell.wordsFrom_doubleQuote rfl, Shell.wordsFrom_quoted hswitch, hopen]
  cases Shell.wordsFrom (.double "--install-arguments=/D=".toList) (d ++ ['"']) with
  | error e => rfl
  | ok ws => simp [Except.map]

theorem usualCommand_letters (version : String) (directory : Path) :
    ("choco install llvm --version " ++ Shell.quote version ++
      " --yes --no-progress --install-arguments=\"/D=" ++ directory.toString ++ "\"").toList =
        usualLetters version.toList directory.toString.toList := by
  simp [usualLetters, commandWords, optionWords, Shell.quote]

/-- The usual command is read as its eight words, whatever the version is, just if the directory
means itself between double quotes. -/
theorem usualCommand_words (version : String) (directory : Path) :
    ∃ command, render usualTemplate version directory = .ok command ∧
      (Shell.split command = .ok ["choco", "install", "llvm", "--version", version, "--yes",
          "--no-progress", "--install-arguments=/D=" ++ directory.toString] ↔
        Shell.KeptByQuotes directory.toString.toList) := by
  refine ⟨_, render_usualTemplate version directory, ?_⟩
  have hwords : ["choco", "install", "llvm", "--version", version, "--yes", "--no-progress",
      "--install-arguments=/D=" ++ directory.toString].map String.toList =
        commandWords ++ version.toList :: optionWords ++
          ["--install-arguments=/D=".toList ++ directory.toString.toList] := by
    simp [commandWords, optionWords]
  rw [Shell.split_eq_ok, usualCommand_letters, words_usualLetters, hwords,
    ← Shell.wordsFrom_double_eq_self (w := "--install-arguments=/D=".toList)]
  cases Shell.wordsFrom (.double "--install-arguments=/D=".toList)
      (directory.toString.toList ++ ['"']) with
  | error e => simp [Except.map]
  | ok ws => simp [Except.map]

end CompilerInstaller
end BindingRelease
