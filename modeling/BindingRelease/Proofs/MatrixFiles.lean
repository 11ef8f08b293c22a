import BindingRelease.Proofs.ConsoleSettings
import BindingRelease.Proofs.Endings
import BindingRelease.Simulation.World
/-!
Matrix files. Loading a path comes to a matrix with distinct artifacts, to a configuration error or
to a crash, and what is found at the path decides. The tool tells the user the errors, and only
them: a directory, bytes that are no UTF-8 and a text on which the YAML reader fails in a way of its
own end it with a crash.
-/
namespace BindingRelease
variable {α β : Type}

namespace Matrix
open Step

def textOf (bytes : List UInt8) : Option (List Char) :=
  (String.fromUTF8? ⟨bytes.toArray⟩).map fun s => Text.unifyLineEnds s.toList

/-- What loading finds at a path, up to the first thing that ends it: whether something is there,
its bytes, their text and what the text is as YAML. -/
inductive Found where
  | unseen (c : Crash)
  | nothing
  | unreadable (c : Crash)
  | undecodable (bytes : List UInt8) (h : textOf bytes = none)
  | file (bytes : List UInt8) (text : List Char) (h : textOf bytes = some text)
      (content : YamlResult)

end Matrix

theorem Step.runs_readText_bind {path : Path} {t : Trace} {j : Journal} {k : List Char → Step β}
    {r : Except Failure β} (h₀ : (readText path >>= k).Runs t j r) :
    (∃ c, t = [⟨.readFile path, Except.error c⟩] ∧ j = .empty ∧ r = .error (.crash c)) ∨
      ∃ bytes u, t = ⟨.readFile path, Except.ok bytes⟩ :: u ∧
        ((Matrix.textOf bytes = none ∧ u = [] ∧ j = .empty ∧ r = .error (.crash .notUtf8)) ∨
          ∃ text, Matrix.textOf bytes = some text ∧ (k text).Runs u j r) := by
  rcases runs_bind.mp h₀ with ⟨e, rfl, h⟩ | ⟨t₁, t₂, j₁, j₂, text, rfl, rfl, h, hk⟩
  · rcases runs_readFile_bind h with ⟨c, rfl, rfl, he⟩ | ⟨bytes, u, rfl, h₁⟩
    · cases he
      exact .inl ⟨c, rfl, rfl, rfl⟩
    · refine .inr ⟨bytes, u, rfl, .inl ?_⟩
      cases hs : String.fromUTF8? ⟨bytes.toArray⟩ with
      | some s =>
        rw [hs] at h₁
        obtain ⟨-, -, he⟩ := runs_pure.mp h₁
        cases he
      | none =>
        rw [hs] at h₁
        obtain ⟨rfl, rfl, he⟩ := runs_fail.mp h₁
        cases he
        exact ⟨by simp only [Matrix.textOf, hs, Option.map_none], rfl, rfl, rfl⟩
  · rcases runs_readFile_bind h with ⟨c, -, -, he⟩ | ⟨bytes, u, rfl, h₁⟩
    · cases he
    · refine .inr ⟨bytes, t₂, ?_⟩
      cases hs : String.fromUTF8? ⟨bytes.toArray⟩ with
      | some s =>
        rw [hs] at h₁
        obtain ⟨rfl, rfl, he⟩ := runs_pure.mp h₁
        cases he
        exact ⟨rfl, .inr ⟨_, by simp only [Matrix.textOf, hs, Option.map_some], hk⟩⟩
      | none =>
        rw [hs] at h₁
        obtain ⟨-, -, he⟩ := runs_fail.mp h₁
        cases he

namespace Matrix
open Step

def ofDocument (path : Path) (document : Value) : Except ConfigurationError Matrix :=
  match includeOf document with
  | none => .error (.matrixWithoutList path)
  | some items => ofInclude items

namespace Found

def trace (path : Path) : Found → Trace
  | unseen c => [⟨.exists path, Except.error c⟩]
  | nothing => [⟨.exists path, Except.ok false⟩]
  | unreadable c => [⟨.exists path, Except.ok true⟩, ⟨.readFile path, Except.error c⟩]
  | undecodable bytes _ => [⟨.exists path, Except.ok true⟩, ⟨.readFile path, Except.ok bytes⟩]
  | file bytes text _ content =>
    [⟨.exists path, Except.ok true⟩, ⟨.readFile path, Except.ok bytes⟩, ⟨.readYaml text, content⟩]

def matrix (path : Path) : Found → Except Failure Matrix
  | unseen c | unreadable c | file _ _ _ (.broken c) => .error (.crash c)
  | nothing => .error (.configuration (.matrixMissing path))
  | undecodable _ _ => .error (.crash .notUtf8)
  | file _ _ _ .notYaml => .error (.configuration (.matrixUnreadable path))
  | file _ _ _ (.document v) => (ofDocument path v).mapError .configuration

def answer (f : Found) : (r : Request) → r.Answer
  | .exists _ => match f with
    | unseen c => Except.error c
    | nothing => Except.ok false
    | _ => Except.ok true
  | .readFile p => match f with
    | unreadable c => Except.error c
    | undecodable bytes _ | file bytes _ _ _ => Except.ok bytes
    | _ => Except.error (.file (.missing p))
  | .readYaml _ => match f with
    | file _ _ _ content => content
    | _ => YamlResult.notYaml
  | r => Surroundings.obliging r

/-- Asks about the path, or about the text that is found there. -/
inductive Concerns (path : Path) : Found → Request → Prop
  | exists {f : Found} : Concerns path f (.exists path)
  | bytes {f : Found} : Concerns path f (.readFile path)
  | text {bytes : List UInt8} {text : List Char} {h : textOf bytes = some text}
      {content : YamlResult} : Concerns path (.file bytes text h content) (.readYaml text)

def ofBytes (reader : List Char → YamlResult) (bytes : List UInt8) : Found :=
  match h : textOf bytes with
  | none => .undecodable bytes h
  | some text => .file bytes text h (reader text)

/-- What no error is made of. -/
inductive Crashes : Found → Crash → Prop
  | unseen (c : Crash) : Crashes (.unseen c) c
  | unreadable (c : Crash) : Crashes (.unreadable c) c
  | undecodable {bytes : List UInt8} (h : textOf bytes = none) :
      Crashes (.undecodable bytes h) .notUtf8
  | broken {bytes : List UInt8} {text : List Char} (h : textOf bytes = some text) (c : Crash) :
      Crashes (.file bytes text h (.broken c)) c

end Found

variable {path : Path} {t : Trace} {j : Journal}

namespace Found
variable {f : Found}

theorem ofBytes_cases (reader : List Char → YamlResult) (bytes : List UInt8) :
    (∃ h, ofBytes reader bytes = .undecodable bytes h) ∨
      ∃ text h, ofBytes reader bytes = .file bytes text h (reader text) := by
  unfold ofBytes
  split
  · next h => exact .inl ⟨h, rfl⟩
  · next text h => exact .inr ⟨text, h, rfl⟩

theorem Crashes.matrix {c : Crash} (h : f.Crashes c) : f.matrix path = .error (.crash c) := by
  cases h <;> rfl

end Found

theorem document_runs {v : Value} {r : Except Failure Matrix}
    (h₀ : (match includeOf v with
      | none => fail (.configuration (.matrixWithoutList path))
      | some items => do
        let m ← ofExcept Failure.configuration (ofInclude items)
        note .debug "native_release.matrix" ("Loaded " ++ Text.decimalText m.entries.length ++
          " matrix entries from " ++ path.toString)
        Pure.pure m : Step Matrix).Runs t j r) :
    t = [] ∧ r = (ofDocument path v).mapError .configuration ∧ ∀ e, r = .error e → j = .empty := by
  unfold ofDocument
  cases hi : includeOf v with
  | none =>
    rw [hi] at h₀
    obtain ⟨rfl, rfl, rfl⟩ := runs_fail.mp h₀
    exact ⟨rfl, rfl, fun _ _ => rfl⟩
  | some items =>
    rw [hi] at h₀
    rcases runs_ofExcept_bind h₀ with ⟨x, ho, rfl, rfl, rfl⟩ | ⟨m, ho, h₁⟩
    · exact ⟨rfl, by simp only [ho, Except.mapError], fun _ _ => rfl⟩
    · obtain ⟨i, -, h₂⟩ := runs_note_bind.mp h₁
      obtain ⟨rfl, -, rfl⟩ := runs_pure.mp h₂
      exact ⟨rfl, by simp only [ho, Except.mapError], nofun⟩

/-- Loading asks about the path and its text alone, and what is found there decides. A matrix alone
is noted. -/
theorem load_runs {r : Except Failure Matrix} (h₀ : (load path).Runs t j r) :
    ∃ f : Found, t = f.trace path ∧ r = f.matrix path ∧ ∀ e, r = .error e → j = .empty := by
  rcases runs_present_bind h₀ with ⟨c, rfl, rfl, rfl⟩ | ⟨there, u, rfl, h₁⟩
  · exact ⟨.unseen c, rfl, rfl, fun _ _ => rfl⟩
  cases there with
  | false =>
    obtain ⟨rfl, rfl, rfl⟩ := runs_fail.mp h₁
    exact ⟨.nothing, rfl, rfl, fun _ _ => rfl⟩
  | true =>
    rcases runs_readText_bind h₁ with
      ⟨c, rfl, rfl, rfl⟩ | ⟨bytes, u, rfl, ⟨ht, rfl, rfl, rfl⟩ | ⟨text, ht, h₂⟩⟩
    · exact ⟨.unreadable c, rfl, rfl, fun _ _ => rfl⟩
    · exact ⟨.undecodable bytes ht, rfl, rfl, fun _ _ => rfl⟩
    obtain ⟨content, v, rfl, h₃⟩ := runs_readYaml_bind.mp h₂
    refine ⟨.file bytes text ht content, ?_⟩
    cases content with
    | broken c =>
      obtain ⟨rfl, rfl, rfl⟩ := runs_fail_bind.mp h₃
      exact ⟨rfl, rfl, fun _ _ => rfl⟩
    | notYaml =>
      obtain ⟨rfl, rfl, rfl⟩ := runs_fail_bind.mp h₃
      exact ⟨rfl, rfl, fun _ _ => rfl⟩
    | document v =>
      obtain ⟨rfl, rfl, hj⟩ := document_runs (runs_pure_bind.mp h₃)
      exact ⟨rfl, rfl, hj⟩

/-- The answers about the path and its text tell what was found. -/
theorem Found.eq_of_answers {f g : Found}
    (h : ∀ ev ∈ g.trace path, f.Concerns path ev.1 → ev.2 = f.answer ev.1) : g = f := by
  have hexists {x : Except Crash Bool} (hx : ⟨.exists path, x⟩ ∈ g.trace path) :
      x = f.answer (.exists path) := h _ hx .exists
  have hread {x : Except Crash (List UInt8)} (hx : ⟨.readFile path, x⟩ ∈ g.trace path) :
      x = f.answer (.readFile path) := h _ hx .bytes
  cases g with
  | unseen c =>
    cases f <;> cases hexists (x := .error c) (by simp [trace])
    rfl
  | nothing =>
    cases f <;> cases hexists (x := .ok false) (by simp [trace])
    rfl
  | unreadable c =>
    cases f <;> cases hexists (x := .ok true) (by simp [trace]) <;>
      cases hread (x := .error c) (by simp [trace])
    rfl
  | undecodable bytes hb =>
    have hthere := hexists (x := .ok true) (by simp [trace])
    have hbytes := hread (x := .ok bytes) (by simp [trace])
    cases f with
    | undecodable bytes' hb' =>
      cases hbytes
      rfl
    | file bytes' text ht content =>
      cases hbytes
      cases hb.symm.trans ht
    | unreadable c => cases hbytes
    | unseen | nothing => cases hthere
  | file bytes text ht content =>
    have hthere := hexists (x := .ok true) (by simp [trace])
    have hbytes := hread (x := .ok bytes) (by simp [trace])
    cases f with
    | undecodable bytes' hb' =>
      cases hbytes
      cases hb'.symm.trans ht
    | file bytes' text' ht' content' =>
      cases hbytes
      cases ht.symm.trans ht'
      have hcontent : content = content' := h ⟨.readYaml text, content⟩ (by simp [trace]) .text
      rw [hcontent]
    | unreadable c => cases hbytes
    | unseen | nothing => cases hthere

theorem exists_load_runs (path : Path) (f : Found) :
    ∃ j, (load path).Runs (f.trace path) j (f.matrix path) := by
  obtain ⟨t, o, h₀, hx⟩ := Program.exists_answered f.answer (load path).run
  obtain ⟨g, rfl, hr, -⟩ := load_runs h₀
  obtain rfl := Found.eq_of_answers fun ev hev _ => hx ev hev
  exact ⟨o.1, hr ▸ h₀⟩

end Matrix

/-- The step loads the matrix of a path before anything else, and fails as the loading does. -/
def Step.Opens (path : Path) (s : Step α) : Prop :=
  ∀ t j r, s.Runs t j r → ∃ (f : Matrix.Found) (u : Trace), t = f.trace path ++ u ∧
    ∀ e, f.matrix path = .error e → u = [] ∧ j = .empty ∧ r = .error e

namespace Step
variable {path : Path}

theorem load_opens : (Matrix.load path).Opens path := by
  intro t j r h₀
  obtain ⟨f, rfl, rfl, hj⟩ := Matrix.load_runs h₀
  exact ⟨f, [], by simp, fun e he => ⟨rfl, hj e he, he⟩⟩

theorem Opens.bind {s : Step α} {k : α → Step β} (hs : s.Opens path) : (s >>= k).Opens path := by
  intro t j r h₀
  rcases runs_bind.mp h₀ with ⟨e, rfl, h⟩ | ⟨t₁, t₂, j₁, j₂, a, rfl, rfl, h, hk⟩
  · obtain ⟨f, u, ht, hf⟩ := hs _ _ _ h
    refine ⟨f, u, ht, fun e' he => ?_⟩
    obtain ⟨hu, hj, hr⟩ := hf e' he
    cases hr
    exact ⟨hu, hj, rfl⟩
  · obtain ⟨f, u, rfl, hf⟩ := hs _ _ _ h
    refine ⟨f, u ++ t₂, by simp, fun e' he => ?_⟩
    obtain ⟨-, -, hr⟩ := hf e' he
    cases hr

end Step

namespace Command
open Step

def matrixFile : Command → Option String
  | matrixList matrix | matrixValidate matrix | toolchainShow matrix _ => matrix
  | releaseRun _ c => c.matrix
  | testRun .. => none
  | workflowRender kind matrix _ => if kind = "release" then matrix else none

variable {place : Place} {schedule : List Nat} {file : String}

theorem selected_opens {artifacts : List String} {host : Option String} :
    (selected (some file) artifacts host).Opens (Path.ofString file) :=
  load_opens.bind

theorem run_opens {c : Command} (hfile : c.matrixFile = some file) :
    (c.run schedule place).Opens (Path.ofString file) := by
  cases c with
  | matrixList matrix =>
    cases hfile
    exact load_opens.bind
  | matrixValidate matrix =>
    cases hfile
    exact load_opens.bind
  | toolchainShow matrix artifacts =>
    cases hfile
    exact selected_opens.bind
  | releaseRun run c =>
    obtain ⟨matrix, ref, artifacts, host, adapter, repository, tokenVariable, dryRun⟩ := c
    cases hfile
    intro t j r h₀
    obtain ⟨s, hs⟩ := @exists_releaseSettings place run
      ⟨some file, ref, artifacts, host, adapter, repository, tokenVariable, dryRun⟩
    change (runRelease schedule place run _).Runs t j r at h₀
    unfold runRelease at h₀
    rw [hs] at h₀
    exact selected_opens.bind _ _ _ (runs_pure_bind.mp h₀)
  | testRun run hosts => cases hfile
  | workflowRender kind matrix output =>
    by_cases hk : kind = "release"
    · obtain rfl : matrix = some file := by simpa [matrixFile, hk] using hfile
      intro t j r h₀
      change (renderWorkflow kind (some file) output).Runs t j r at h₀
      unfold renderWorkflow at h₀
      rw [if_pos hk] at h₀
      exact load_opens.bind _ _ _ h₀
    · simp [matrixFile, hk] at hfile

end Command

namespace Matrix

end Matrix

namespace Console
open Step
variable {schedule : List Nat} {words : List String} {cwd : Path} {env : Env} {t : Trace}
  {c : Console} {invoked : Invoked} {file : String}

/-- How the tool ends with a command that reads the matrix file of a path. An interrupt alone is a
crash that is told. -/
inductive Opens (invoked : Invoked) (cwd : Path) (env : Env) (path : Path) : Trace → Console → Prop
  | unstarted {t : Trace} {j : Journal} {env' : Env} {x : Crash}
      (hl : (EnvFile.load env (cwd / ".env")).Runs t j (.ok (env', .error (.crash x)))) :
      Opens invoked cwd env path t ⟨"", noteLines invoked.level j.notes, .error x, env'⟩
  | loaded {u v : Trace} {j : Journal} {env' : Env} {b : Bool} {f : Matrix.Found} {m : Matrix}
      {c : Console} (hl : (EnvFile.load env (cwd / ".env")).Runs u j (.ok (env', .ok b)))
      (hf : f.matrix path = .ok m) : Opens invoked cwd env path (u ++ (f.trace path ++ v)) c
  | told {u : Trace} {j : Journal} {env' : Env} {b : Bool} {f : Matrix.Found}
      {e : ConfigurationError}
      (hl : (EnvFile.load env (cwd / ".env")).Runs u j (.ok (env', .ok b)))
      (hf : f.matrix path = .error (.configuration e)) :
      Opens invoked cwd env path (u ++ f.trace path)
        ⟨"", noteLines invoked.level j.notes ++ (e.message ++ if e.endsOpen then "" else "\n"),
          .ok 2, env'⟩
  | interrupted {u : Trace} {j : Journal} {env' : Env} {b : Bool} {f : Matrix.Found}
      (hl : (EnvFile.load env (cwd / ".env")).Runs u j (.ok (env', .ok b)))
      (hf : f.Crashes .interrupted) :
      Opens invoked cwd env path (u ++ f.trace path)
        ⟨"", noteLines invoked.level j.notes ++ "Run cancelled.\n", .ok 130, env'⟩
  | crashed {u : Trace} {j : Journal} {env' : Env} {b : Bool} {f : Matrix.Found} {x : Crash}
      (hl : (EnvFile.load env (cwd / ".env")).Runs u j (.ok (env', .ok b)))
      (hf : f.Crashes x) (hx : x ≠ .interrupted) :
      Opens invoked cwd env path (u ++ f.trace path)
        ⟨"", noteLines invoked.level j.notes, .error x, env'⟩

end Console
end BindingRelease
