import BindingRelease.Proofs.Steps
/-!
The runs of the installers. The language installer is one process; that of the compiler is a command
in a shell, where there is one, and a search for clang, which only looks at files and finds the
first place that has one.
-/
namespace BindingRelease
open Trace
open Step hiding pure bind
variable {α : Type} {t : Trace} {j : Journal}

namespace LanguageInstaller

def launch (i : LanguageInstaller) (version : String) : Launch :=
  ⟨.words (i.command version), none, none⟩

theorem install_runs {i : LanguageInstaller} {version : String}
    {r : Except Failure (List (String × String))} (h₀ : (i.install version).Runs t j r) :
    ∃ x, t = [⟨.start (i.launch version), x⟩] ∧
      j = ⟨("Installing Rust toolchain " ++ version ++ ": " ++
          " ".intercalate (i.command version)) :: x.outputLines,
        [⟨.info, provisionSource, "Installing Rust toolchain " ++ version⟩]⟩ ∧
      r = x.outcome (fun _ => [("RUSTUP_TOOLCHAIN", version)])
        (fun f => .release (.provisioning (.languageFailed version f.code
          (Text.strip (if f.stderr ≠ "" then f.stderr else f.stdout)))))
        (fun reason => .release (.provisioning (.languageNotStarted i.program reason))) := by
  obtain ⟨j₁, rfl, h₁⟩ := runs_log_bind.mp h₀
  obtain ⟨j₂, rfl, h₂⟩ := runs_note_bind.mp h₁
  obtain ⟨x, rfl, rfl, hr⟩ := runs_checked h₂
  exact ⟨x, rfl, rfl, hr⟩

end LanguageInstaller

namespace CompilerInstaller

def launch (line : String) (env : Env) : Launch := ⟨.shell line, none, some env⟩

def announcement (c : Compiler) (line : String) (directory : Path) : Journal :=
  ⟨["Installing " ++ c.name ++ " " ++ c.version ++ ": " ++ line],
    [⟨.info, provisionSource,
      "Installing " ++ c.name ++ " " ++ c.version ++ " into " ++ directory.toString⟩]⟩

theorem runInstallation_runs {template : String} {c : Compiler} {directory : Path} {env : Env}
    {r : Except Failure Unit} (h₀ : (runInstallation template c directory env).Runs t j r) :
    (∃ e, render template c.version directory = .error e ∧ t = [] ∧ j = .empty ∧
      r = .error (.crash (.template e))) ∨
    ∃ line, render template c.version directory = .ok line ∧
      ((∃ e, t = [⟨.makeDirectories directory, Except.error e⟩] ∧
          j = announcement c line directory ∧ r = .error (.crash e)) ∨
        ∃ x, t = [⟨.makeDirectories directory, Except.ok ()⟩, ⟨.start (launch line env), x⟩] ∧
          j = announcement c line directory ++ ⟨x.outputLines, []⟩ ∧
          r = x.outcome (fun _ => ())
            (fun f => .release (.provisioning (.compilerFailed c.name c.version f.code)))
            (fun reason => .crash (.notStarted reason))) := by
  unfold runInstallation at h₀
  cases hl : render template c.version directory with
  | error e =>
    rw [hl] at h₀
    obtain ⟨rfl, rfl, rfl⟩ := runs_fail_bind.mp h₀
    exact .inl ⟨e, rfl, rfl, rfl, rfl⟩
  | ok line =>
    rw [hl] at h₀
    have h₁ := runs_pure_bind.mp h₀
    obtain ⟨j₁, rfl, h₂⟩ := runs_log_bind.mp h₁
    obtain ⟨j₂, rfl, h₃⟩ := runs_note_bind.mp h₂
    refine .inr ⟨line, rfl, ?_⟩
    rcases runs_makeDirectories_bind h₃ with ⟨e, rfl, rfl, rfl⟩ | ⟨t', rfl, h₄⟩
    · exact .inl ⟨e, rfl, rfl, rfl⟩
    · obtain ⟨x, rfl, rfl, hr⟩ := runs_checked h₄
      exact .inr ⟨x, rfl, rfl, hr⟩

end CompilerInstaller

namespace Clang

def probe (place : String) (there : Bool) : Event := ⟨.isExecutable (candidate place), there⟩

def listed (list : String) : List String :=
  if list = "" then [] else Text.splitAt ':' list

def places (directory : Path) (searchPath : Option String) : List String :=
  listed (directory / "bin").toString ++ listed (searchPath.getD "")

/-- A search goes along the places up to the first that holds an executable clang. -/
inductive Finds : List String → Trace → Option Path → Prop
  | nowhere : Finds [] [] none
  | here (place : String) (more : List String) :
      Finds (place :: more) [probe place true] (some (.ofString place))
  | further {place more t found} (h : Finds more t found) :
      Finds (place :: more) (probe place false :: t) found

namespace Finds
variable {ps qs : List String} {u : Trace} {found : Option Path}

theorem surveys (h : Finds ps t found) : t.Surveys := by
  induction h with
  | nowhere => exact surveys_nil
  | here place => exact surveys_cons.mpr ⟨⟨rfl, rfl⟩, surveys_nil⟩
  | further _ ih => exact surveys_cons.mpr ⟨⟨rfl, rfl⟩, ih⟩

theorem widen (h : Finds ps t found) {d : Path} (hd : found = some d) (qs : List String) :
    Finds (ps ++ qs) t found := by
  induction h with
  | nowhere => cases hd
  | here place more => exact .here place (more ++ qs)
  | further _ ih => exact .further (ih hd)

theorem append {found' : Option Path} (h : Finds ps t found) (hn : found = none)
    (h' : Finds qs u found') : Finds (ps ++ qs) (t ++ u) found' := by
  induction h with
  | nowhere => exact h'
  | here => cases hn
  | further _ ih => exact .further (ih hn)

theorem place {d : Path} (h : Finds ps t found) (hd : found = some d) :
    ∃ p ∈ ps, d = .ofString p ∧ probe p true ∈ t := by
  induction h with
  | nowhere => cases hd
  | here p more =>
    cases hd
    exact ⟨p, by simp, rfl, by simp⟩
  | further _ ih =>
    obtain ⟨p, hp, hpd, ht⟩ := ih hd
    exact ⟨p, List.mem_cons_of_mem _ hp, hpd, List.mem_cons_of_mem _ ht⟩

end Finds

theorem parent_candidate (place : String) : (candidate place).parent = .ofString place := by
  have hclang : (Path.ofString "clang").parts = ["clang"] := by decide +kernel
  have hparts : (candidate place).parent.parts = (Path.ofString place).parts := by
    change ((Path.ofString place).parts ++ (Path.ofString "clang").parts).dropLast = _
    rw [hclang, List.dropLast_concat]
  have hanchor : (candidate place).parent.anchor = (Path.ofString place).anchor := rfl
  generalize (candidate place).parent = p at hparts hanchor
  cases p
  cases hparts
  cases hanchor
  rfl

theorem searchIn_finds {elements : List String} {r : Except Failure (Option Path)}
    (h₀ : (searchIn elements).Runs t j r) :
    j = .empty ∧ ∃ found, r = .ok found ∧ Finds elements t found := by
  induction elements generalizing t with
  | nil =>
    obtain ⟨rfl, rfl, rfl⟩ := runs_pure.mp h₀
    exact ⟨rfl, none, rfl, .nowhere⟩
  | cons element elements ih =>
    obtain ⟨b, t', rfl, h₁⟩ := runs_isExecutable_bind.mp h₀
    cases b with
    | true =>
      obtain ⟨rfl, rfl, rfl⟩ := runs_pure.mp h₁
      exact ⟨rfl, _, rfl, parent_candidate element ▸ .here element elements⟩
    | false =>
      obtain ⟨hj, found, hr, hf⟩ := ih h₁
      exact ⟨hj, found, hr, .further hf⟩

theorem search_finds {list : String} {r : Except Failure (Option Path)}
    (h₀ : (search list).Runs t j r) :
    j = .empty ∧ ∃ found, r = .ok found ∧ Finds (listed list) t found := by
  unfold search at h₀
  unfold listed
  split at h₀
  · obtain ⟨rfl, rfl, rfl⟩ := runs_pure.mp h₀
    simpa [*] using Finds.nowhere
  · simpa [*] using searchIn_finds h₀

theorem locate_finds {directory : Path} {searchPath : Option String}
    {r : Except Failure (Option Path)} (h₀ : (locate directory searchPath).Runs t j r) :
    j = .empty ∧ ∃ found, r = .ok found ∧ Finds (places directory searchPath) t found := by
  rcases runs_bind.mp h₀ with ⟨e, rfl, h₁⟩ | ⟨t₁, t₂, j₁, j₂, found, rfl, rfl, h₁, h₂⟩
  · obtain ⟨-, found, he, -⟩ := search_finds h₁
    cases he
  · obtain ⟨rfl, _, ⟨⟩, hf⟩ := search_finds h₁
    cases found with
    | some found =>
      obtain ⟨rfl, rfl, rfl⟩ := runs_pure.mp h₂
      exact ⟨rfl, _, rfl, by simpa [places] using hf.widen rfl _⟩
    | none =>
      cases searchPath with
      | none =>
        obtain ⟨rfl, rfl, rfl⟩ := runs_pure.mp h₂
        exact ⟨rfl, _, rfl, hf.append rfl .nowhere⟩
      | some list =>
        obtain ⟨rfl, found, rfl, hf'⟩ := search_finds h₂
        exact ⟨rfl, found, rfl, hf.append rfl hf'⟩

theorem runs_locate_bind {directory : Path} {searchPath : Option String}
    {k : Option Path → Step α} {r : Except Failure α}
    (h₀ : (locate directory searchPath >>= k).Runs t j r) :
    ∃ t₁ t₂ found, t = t₁ ++ t₂ ∧ Finds (places directory searchPath) t₁ found ∧
      (k found).Runs t₂ j r := by
  rcases runs_bind.mp h₀ with ⟨e, rfl, h₁⟩ | ⟨t₁, t₂, j₁, j₂, found, rfl, rfl, h₁, h₂⟩
  · obtain ⟨-, _, he, -⟩ := locate_finds h₁
    cases he
  · obtain ⟨rfl, _, ⟨⟩, hf⟩ := locate_finds h₁
    exact ⟨t₁, t₂, found, rfl, hf, h₂⟩

end Clang

namespace CompilerInstaller

def searchOutcome (c : Compiler) (directory : Path) (env : Env) :
    Option Path → Except Failure (List (String × String))
  | none => .error (.release (.provisioning (.clangMissing (directory / "bin") c.name)))
  | some found =>
    .ok [(c.envVar, found.toString), ("PATH", extendedPath found ((env.get? "PATH").getD ""))]

/-- The runs of an installer: its command, where it has one, and then the search for clang. -/
inductive Installs (i : CompilerInstaller) (c : Compiler) (directory : Path) (env : Env) :
    Trace → Except Failure (List (String × String)) → Prop
  | failed {template t j e} (ht : i.template.filter (· ≠ "") = some template)
      (h : (runInstallation template c directory env).Runs t j (.error e)) :
      Installs i c directory env t (.error e)
  | installed {template t j u found} (ht : i.template.filter (· ≠ "") = some template)
      (h : (runInstallation template c directory env).Runs t j (.ok ()))
      (hl : Clang.Finds (Clang.places directory (env.get? "PATH")) u found) :
      Installs i c directory env (t ++ u) (searchOutcome c directory env found)
  | present {u found} (ht : i.template.filter (· ≠ "") = none)
      (hl : Clang.Finds (Clang.places directory (env.get? "PATH")) u found) :
      Installs i c directory env u (searchOutcome c directory env found)

theorem install_runs {i : CompilerInstaller} {c : Compiler} {directory : Path} {env : Env}
    {r : Except Failure (List (String × String))} (h₀ : (i.install c directory env).Runs t j r) :
    i.Installs c directory env t r := by
  unfold install at h₀
  cases ht : i.template.filter (· ≠ "") with
  | none =>
    rw [ht] at h₀
    obtain ⟨t₁, t₂, found, rfl, hl, h₁⟩ := Clang.runs_locate_bind h₀
    cases found with
    | none =>
      obtain ⟨rfl, -, rfl⟩ := runs_fail.mp h₁
      have hi : i.Installs c directory env t₁ (searchOutcome c directory env none) := .present ht hl
      simpa [searchOutcome] using hi
    | some found =>
      obtain ⟨j₁, rfl, h₂⟩ := runs_log_bind.mp h₁
      obtain ⟨rfl, -, rfl⟩ := runs_pure.mp h₂
      have hi : i.Installs c directory env t₁ (searchOutcome c directory env (some found)) :=
        .present ht hl
      simpa [searchOutcome] using hi
  | some template =>
    rw [ht] at h₀
    rcases runs_bind.mp h₀ with ⟨e, rfl, h₁⟩ | ⟨t₁, t₂, j₁, j₂, ⟨⟩, rfl, rfl, h₁, h₂⟩
    · exact .failed ht h₁
    obtain ⟨t₃, t₄, found, rfl, hl, h₃⟩ := Clang.runs_locate_bind h₂
    cases found with
    | none =>
      obtain ⟨rfl, -, rfl⟩ := runs_fail.mp h₃
      have hi : i.Installs c directory env (t₁ ++ t₃) (searchOutcome c directory env none) :=
        .installed ht h₁ hl
      simpa [searchOutcome] using hi
    | some found =>
      obtain ⟨j₄, rfl, h₄⟩ := runs_log_bind.mp h₃
      obtain ⟨rfl, -, rfl⟩ := runs_pure.mp h₄
      have hi : i.Installs c directory env (t₁ ++ t₃)
          (searchOutcome c directory env (some found)) := .installed ht h₁ hl
      simpa [searchOutcome] using hi

end CompilerInstaller
end BindingRelease
