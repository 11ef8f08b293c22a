import BindingRelease.Proofs.Steps
/-!
The runs of a checkout. Whether there is a clone decides which commands are run; they are run in a
row, each in its directory, up to the first that fails.
-/
namespace BindingRelease
open Trace
open Step hiding pure bind
variable {t : Trace} {j : Journal}

namespace Checkout

def launch (directory : Path) (command : List String) : Launch :=
  ⟨.words command, some directory, none⟩

def runInJournal (directory : Path) (command : List String) : Journal :=
  ⟨["$ " ++ " ".intercalate command], [⟨.debug, "native_release.checkout",
    "Running " ++ (Value.texts command).literal ++ " in " ++ directory.toString⟩]⟩

theorem runIn_runs {directory : Path} {command : List String} {r : Except Failure Unit}
    (h₀ : (runIn directory command).Runs t j r) :
    (∃ e, t = [⟨.makeDirectories directory, Except.error e⟩] ∧
        j = runInJournal directory command ∧ r = .error (.crash e)) ∨
      ∃ x, t = [⟨.makeDirectories directory, Except.ok ()⟩,
          ⟨.start (launch directory command), x⟩] ∧
        j = runInJournal directory command ++ ⟨x.outputLines, []⟩ ∧
        r = x.outcome (fun _ => ())
          (fun f => .release (.checkout (.failed command f.code (Text.strip f.stderr))))
          (fun reason => .release (.checkout (.notStarted (command.headD "") reason))) := by
  obtain ⟨j₁, rfl, h₁⟩ := runs_log_bind.mp h₀
  obtain ⟨j₂, rfl, h₂⟩ := runs_note_bind.mp h₁
  rcases runs_makeDirectories_bind h₂ with ⟨e, rfl, rfl, rfl⟩ | ⟨t', rfl, h₃⟩
  · exact .inl ⟨e, rfl, rfl, rfl⟩
  · obtain ⟨x, rfl, rfl, hr⟩ := runs_checked h₃
    exact .inr ⟨x, rfl, rfl, hr⟩

/-- The runs of commands in a row, up to the first that fails. -/
inductive Executes : List (Path × List String) → Trace → Except Failure Unit → Prop
  | done : Executes [] [] (.ok ())
  | failed {d c cs t j e} (h : (runIn d c).Runs t j (.error e)) :
      Executes ((d, c) :: cs) t (.error e)
  | next {d c cs t j u r} (h : (runIn d c).Runs t j (.ok ())) (hs : Executes cs u r) :
      Executes ((d, c) :: cs) (t ++ u) r

theorem Executes.single {d : Path} {c : List String} {r : Except Failure Unit}
    (h : (runIn d c).Runs t j r) : Executes [(d, c)] t r := by
  cases r with
  | error e => exact .failed h
  | ok =>
    rw [← List.append_nil t]
    exact .next h .done

theorem Executes.append {cs ds : List (Path × List String)} {u : Trace} {r : Except Failure Unit}
    {r' : Except Failure Unit} (h : Executes cs t r) (hr : r = .ok ()) (hs : Executes ds u r') :
    Executes (cs ++ ds) (t ++ u) r' := by
  induction h with
  | done => exact hs
  | failed h => cases hr
  | next h _ ih =>
    rw [List.append_assoc]
    exact .next h (ih hr)

theorem Executes.halt {cs : List (Path × List String)} {r : Except Failure Unit} {e : Failure}
    (h : Executes cs t r) (hr : r = .error e) (ds : List (Path × List String)) :
    Executes (cs ++ ds) t (.error e) := by
  induction h with
  | done => cases hr
  | failed h =>
    cases hr
    exact .failed h
  | next h _ ih => exact .next h (ih hr)

def cloneCommands (program url : String) (ref : Option String) (submodules : Bool)
    (workspace : Path) : List (Path × List String) :=
  (workspace.parent, cloneCommand program url submodules workspace) ::
    (match ref.filter (· ≠ "") with
      | some r => [(workspace, [program, "checkout", r])]
      | none => [])

/-- The commands of a checkout, each with its directory; `fresh` says that there is no clone. -/
def commands (workspace : Path) (fresh : Bool) : Checkout → List (Path × List String)
  | .existing => []
  | .git url ref submodules program =>
    (match url.filter (· ≠ "") with
      | some u => if fresh then cloneCommands program u ref submodules workspace else []
      | none => []) ++
    if submodules then [(workspace, submoduleCommand program)] else []

theorem commands_git_false (url ref : Option String) (submodules : Bool) (program : String)
    (workspace : Path) : (git url ref submodules program).commands workspace false =
      if submodules then [(workspace, submoduleCommand program)] else [] := by
  simp only [commands]
  cases url.filter (· ≠ "") <;> rfl

theorem commands_git_true {url : Option String} {u : String} (ref : Option String)
    (submodules : Bool) (program : String) (workspace : Path) (hu : url.filter (· ≠ "") = some u) :
    (git url ref submodules program).commands workspace true =
      cloneCommands program u ref submodules workspace ++
        if submodules then [(workspace, submoduleCommand program)] else [] := by
  simp only [commands, hu, if_true]

theorem clone_runs {program url : String} {ref : Option String} {submodules : Bool}
    {workspace : Path} {r : Except Failure Unit}
    (h₀ : (clone program url ref submodules workspace).Runs t j r) :
    Executes (cloneCommands program url ref submodules workspace) t r := by
  rcases runs_bind.mp h₀ with ⟨e, rfl, h₁⟩ | ⟨t₁, t₂, j₁, j₂, _, rfl, rfl, h₁, h₂⟩
  · exact .failed h₁
  · refine .next h₁ ?_
    cases hr : ref.filter (· ≠ "") with
    | some r =>
      rw [hr] at h₂
      exact .single h₂
    | none =>
      rw [hr] at h₂
      obtain ⟨rfl, -, rfl⟩ := runs_pure.mp h₂
      exact .done

/-- The runs of a checkout: it looks whether there is a clone and a workspace, and then runs its
commands. -/
inductive Acquires (c : Checkout) (workspace : Path) : Trace → Except Failure Path → Prop
  | unseen {t : Trace} {ev : Event} {x : Crash} (ht : t.Surveys) (hev : ev.1.surveys)
      (hx : escape ev = some x) : Acquires c workspace (t ++ [ev]) (.error (.crash x))
  | missing {t : Trace} (ht : t.Surveys) :
      Acquires c workspace t (.error (missingWorkspace workspace))
  | executed {t u : Trace} {r} (fresh : Bool) (ht : t.Surveys)
      (hf : fresh = true → ⟨.exists (workspace / ".git"), Except.ok false⟩ ∈ t)
      (h : Executes (c.commands workspace fresh) u r) :
      Acquires c workspace (t ++ u) (r.map fun _ => workspace)

theorem wantsClone_runs {url : Option String} {workspace : Path}
    {r : Except Failure (Option String)} (h₀ : (wantsClone url workspace).Runs t j r) :
    (∃ x, t = [⟨.exists (workspace / ".git"), Except.error x⟩] ∧ r = .error (.crash x)) ∨
      t.Surveys ∧ (r = .ok none ∨ ∃ u, url.filter (· ≠ "") = some u ∧ r = .ok (some u) ∧
        ⟨.exists (workspace / ".git"), Except.ok false⟩ ∈ t) := by
  unfold wantsClone at h₀
  cases hu : url.filter (· ≠ "") with
  | none =>
    rw [hu] at h₀
    obtain ⟨rfl, -, rfl⟩ := runs_pure.mp h₀
    exact .inr ⟨surveys_nil, .inl rfl⟩
  | some u =>
    rw [hu] at h₀
    rcases runs_present_bind h₀ with ⟨x, rfl, -, rfl⟩ | ⟨b, t', rfl, h₁⟩
    · exact .inl ⟨x, rfl, rfl⟩
    have looked (b : Bool) : Surveys [⟨.exists (workspace / ".git"), Except.ok b⟩] :=
      surveys_cons.mpr ⟨⟨rfl, rfl⟩, surveys_nil⟩
    cases b with
    | true =>
      obtain ⟨rfl, -, rfl⟩ := runs_pure.mp h₁
      exact .inr ⟨looked true, .inl rfl⟩
    | false =>
      obtain ⟨rfl, -, rfl⟩ := runs_pure.mp h₁
      exact .inr ⟨looked false, .inr ⟨u, rfl, rfl, by simp⟩⟩

theorem submodules_runs {program : String} {submodules : Bool} {workspace : Path}
    {r : Except Failure Path}
    (h₀ : (if submodules then runIn workspace (submoduleCommand program) >>= fun _ => pure workspace
      else pure workspace : Step Path).Runs t j r) :
    ∃ r', r = r'.map (fun _ => workspace) ∧
      Executes (if submodules then [(workspace, submoduleCommand program)] else []) t r' := by
  cases submodules with
  | false =>
    obtain ⟨rfl, -, rfl⟩ := runs_pure.mp h₀
    exact ⟨.ok (), rfl, .done⟩
  | true =>
    rcases runs_bind.mp h₀ with ⟨e, rfl, h₁⟩ | ⟨t₁, t₂, j₁, j₂, _, rfl, rfl, h₁, h₂⟩
    · exact ⟨.error e, rfl, .single h₁⟩
    · obtain ⟨rfl, -, rfl⟩ := runs_pure.mp h₂
      exact ⟨.ok (), rfl, by simpa using Executes.single h₁⟩

theorem acquire_runs {c : Checkout} {workspace : Path} {r : Except Failure Path}
    (h₀ : (c.acquire workspace).Runs t j r) : c.Acquires workspace t r := by
  cases c with
  | existing =>
    rcases runs_isDirectory_bind h₀ with ⟨x, rfl, -, rfl⟩ | ⟨b, t', rfl, h₁⟩
    · exact .unseen surveys_nil rfl rfl
    have ht : Surveys [⟨.isDirectory workspace, Except.ok b⟩] :=
      surveys_cons.mpr ⟨⟨rfl, rfl⟩, surveys_nil⟩
    cases b with
    | false =>
      obtain ⟨rfl, -, rfl⟩ := runs_fail.mp h₁
      exact .missing ht
    | true =>
      obtain ⟨j₁, rfl, h₂⟩ := runs_log_bind.mp h₁
      obtain ⟨rfl, -, rfl⟩ := runs_pure.mp h₂
      have hs : Executes (existing.commands workspace false) [] (.ok ()) := .done
      simpa [Except.map] using Acquires.executed false ht (by simp) hs
  | git url ref submodules program =>
    rcases runs_bind.mp h₀ with ⟨e, rfl, h₁⟩ | ⟨t₁, t₂, j₁, j₂, wanted, rfl, rfl, h₁, h₂⟩
    · rcases wantsClone_runs h₁ with ⟨x, rfl, he⟩ | ⟨-, he | ⟨_, -, he, -⟩⟩
      · cases he
        exact .unseen surveys_nil rfl rfl
      · cases he
      · cases he
    obtain ⟨ht, hw⟩ := (wantsClone_runs h₁).resolve_left (by simp)
    cases wanted with
    | none =>
      rcases runs_isDirectory_bind h₂ with ⟨x, rfl, -, rfl⟩ | ⟨b, t₃, rfl, h₃⟩
      · exact .unseen ht rfl rfl
      have ht' : Surveys (t₁ ++ [⟨.isDirectory workspace, Except.ok b⟩]) :=
        surveys_append.mpr ⟨ht, surveys_cons.mpr ⟨⟨rfl, rfl⟩, surveys_nil⟩⟩
      cases b with
      | false =>
        obtain ⟨rfl, -, rfl⟩ := runs_fail_bind.mp h₃
        exact .missing ht'
      | true =>
        obtain ⟨r', rfl, hs⟩ := submodules_runs h₃
        rw [← commands_git_false url ref] at hs
        simpa using Acquires.executed false ht' (by simp) hs
    | some u =>
      obtain ⟨hu, hf⟩ : url.filter (· ≠ "") = some u ∧
          ⟨.exists (workspace / ".git"), Except.ok false⟩ ∈ t₁ := by
        rcases hw with he | ⟨u', hu, he, hf⟩
        · cases he
        · cases he
          exact ⟨hu, hf⟩
      rcases runs_bind.mp h₂ with ⟨e, rfl, h₃⟩ | ⟨t₃, t₄, j₃, j₄, _, rfl, rfl, h₃, h₄⟩
      · have hs := (clone_runs h₃).halt rfl
          (if submodules then [(workspace, submoduleCommand program)] else [])
        rw [← commands_git_true ref submodules program workspace hu] at hs
        exact .executed true ht (fun _ => hf) hs
      · obtain ⟨r', rfl, hs⟩ := submodules_runs h₄
        have hs := (clone_runs h₃).append rfl hs
        rw [← commands_git_true ref submodules program workspace hu] at hs
        exact .executed true ht (fun _ => hf) hs

theorem acquire_returns {c : Checkout} {workspace w : Path}
    (h₀ : (c.acquire workspace).Runs t j (.ok w)) : w = workspace := by
  generalize hr : (Except.ok w : Except Failure Path) = r at h₀
  cases acquire_runs h₀ with
  | unseen => cases hr
  | missing => cases hr
  | @executed _ _ r fresh =>
    cases r with
    | error e => cases hr
    | ok =>
      cases hr
      rfl

end Checkout
end BindingRelease
