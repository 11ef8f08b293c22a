import BindingRelease.Proofs.Environments
import BindingRelease.Proofs.MatrixFiles
import BindingRelease.Proofs.Reports
/-!
What is validated and shown is what runs. The toolchain that the tool shows for an entry is the one
that a context of this entry records and installs. An entry whose toolchain cannot be told is
neither valid nor shown, and its contexts fail at the setup.
-/
namespace BindingRelease
open Trace Context
variable {t u : Trace} {j : Journal}

def Launch.InShell (p : Launch) : Prop := ∃ line, p.command = .shell line

namespace Trace

def Uncancelled (t : Trace) : Prop := ⟨.isCancelled, true⟩ ∉ t

def Shellless (t : Trace) : Prop := ∀ p ∈ t.launches, ¬ p.InShell

theorem shellless_of_launches (h : t.launches = []) : t.Shellless := by
  simp [Shellless, h]

theorem shellless_append : (t ++ u).Shellless ↔ t.Shellless ∧ u.Shellless := by
  simp [Shellless, launches_append, or_imp, forall_and]

theorem shellless_entry (signal : Bool) : (entry signal).Shellless :=
  shellless_of_launches (launches_entry signal)

end Trace

namespace Surroundings
variable {s : Surroundings} {template : String} {tc : Toolchain}

/-- The processes install the native compiler of a toolchain: with one command for a shell, before
anything else, if the toolchain has a compiler, and with none otherwise. -/
def InstallsCompiler (s : Surroundings) (template : String) (tc : Toolchain) (ps : List Launch) :
    Prop :=
  match tc.compiler with
  | none => ∀ p ∈ ps, ¬ p.InShell
  | some c => ∃ line rest,
      CompilerInstaller.render template c.version s.settings.resolvedCompilerDir = .ok line ∧
      ps = CompilerInstaller.launch line s.env :: rest ∧ ∀ p ∈ rest, ¬ p.InShell

theorem InstallsCompiler.append (h : s.InstallsCompiler template tc t.launches)
    (hu : u.Shellless) : s.InstallsCompiler template tc (t ++ u).launches := by
  rw [launches_append]
  unfold InstallsCompiler at h ⊢
  split at h
  · exact List.forall_mem_append.mpr ⟨h, hu⟩
  · obtain ⟨line, rest, hl, ht, hr⟩ := h
    exact ⟨line, rest ++ u.launches, hl, by rw [ht, List.cons_append],
      List.forall_mem_append.mpr ⟨hr, hu⟩⟩

theorem install_shellless {i : LanguageInstaller} {version : String}
    {r : Except Failure (List (String × String))} (h₀ : (i.install version).Runs t j r) :
    t.Shellless := by
  rintro p hp ⟨line, hl⟩
  rw [LanguageInstaller.install_launches h₀, List.mem_singleton] at hp
  subst hp
  cases hl

theorem acquire_shellless {c : Checkout} {workspace : Path} {r : Except Failure Path}
    (h₀ : (c.acquire workspace).Runs t j r) : t.Shellless := by
  rintro p hp ⟨line, hl⟩
  obtain ⟨fresh, ha⟩ := Checkout.acquire_along h₀
  obtain ⟨x, -, rfl⟩ := List.mem_map.mp (ha.order.subset hp)
  cases hl

theorem buildStep_shellless {i : Invocation} {env : Env} {r : Except Failure Path}
    (h₀ : (buildStep i env).Runs t j r) : t.Shellless := by
  rintro p hp ⟨line, hl⟩
  rw [List.mem_singleton.mp ((buildStep_along h₀).order.subset hp)] at hl
  cases hl

theorem publish_shellless {a : Adapter} {ambient : Env} {file : Path} {asset : String}
    {target : Target} {r : Except Failure Upload}
    (h₀ : (a.publish ambient file asset target).Runs t j r) : t.Shellless := by
  rintro p hp ⟨line, hl⟩
  obtain ⟨tool, rfl⟩ := Adapter.mem_launches ((Adapter.publish_launches h₀).subset hp)
  cases hl

theorem install_installs {i : CompilerInstaller} {c : Compiler} {directory : Path} {env : Env}
    {r : Except Failure (List (String × String))}
    (ht : i.template.filter (· ≠ "") = some template)
    (h₀ : (i.install c directory env).Runs t j r) :
    (∃ x, r = .error (.crash x)) ∨
      ∃ line, CompilerInstaller.render template c.version directory = .ok line ∧
        t.launches = [CompilerInstaller.launch line env] := by
  have ran {t : Trace} {j : Journal} {r : Except Failure Unit}
      (h : (CompilerInstaller.runInstallation template c directory env).Runs t j r) :
      (∃ x, r = .error (.crash x)) ∨
        ∃ line, CompilerInstaller.render template c.version directory = .ok line ∧
          t.launches = [CompilerInstaller.launch line env] := by
    rcases CompilerInstaller.runInstallation_runs h with
      ⟨e, -, -, -, rfl⟩ | ⟨line, hl, ⟨e, -, -, rfl⟩ | ⟨x, rfl, -⟩⟩
    · exact .inl ⟨_, rfl⟩
    · exact .inl ⟨_, rfl⟩
    · exact .inr ⟨line, hl, rfl⟩
  cases CompilerInstaller.install_runs h₀ with
  | failed ht' h =>
    obtain rfl := Option.some.inj (ht.symm.trans ht')
    rcases ran h with ⟨x, hx⟩ | h
    · cases hx
      exact .inl ⟨x, rfl⟩
    · exact .inr h
  | installed ht' h hl =>
    obtain rfl := Option.some.inj (ht.symm.trans ht')
    rcases ran h with ⟨x, hx⟩ | ⟨line, hline, hlaunches⟩
    · cases hx
    · refine .inr ⟨line, hline, ?_⟩
      rw [launches_append, hlaunches, launches_of_surveys hl.surveys, List.append_nil]
  | present ht' =>
    rw [ht] at ht'
    cases ht'

theorem provision_installs (ht : s.collaborators.compiler.template.filter (· ≠ "") = some template)
    {r : Except Failure Env} (h₀ : (s.provision tc).Runs t j r) :
    (∃ x, r = .error (.crash x)) ∨ s.InstallsCompiler template tc t.launches := by
  unfold InstallsCompiler
  cases provision_runs h₀ with
  | plain hc hl =>
    rw [hc]
    exact .inr (install_shellless hl)
  | uncompiled hc hi =>
    rw [hc]
    rcases install_installs ht hi with ⟨x, hx⟩ | ⟨line, hline, hlaunches⟩
    · cases hx
      exact .inl ⟨x, rfl⟩
    · exact .inr ⟨line, [], hline, hlaunches, nofun⟩
  | compiled hc hi hl =>
    rw [hc]
    rcases install_installs ht hi with ⟨x, hx⟩ | ⟨line, hline, hlaunches⟩
    · cases hx
    · refine .inr ⟨line, _, hline, ?_, install_shellless hl⟩
      rw [launches_append, hlaunches]
      rfl

theorem shellless_of_stops {α : Type} {st : Stage} {step : Step α} {stop : Stop}
    (h₀ : Stops s.signal st step t j stop)
    (hp : ∀ u k e, step.Runs u k (.error e) → u.Shellless) : t.Shellless := by
  cases h₀ with
  | cancelled => exact shellless_of_launches rfl
  | failed h => exact shellless_append.mpr ⟨shellless_entry _, hp _ _ _ h⟩

theorem shellless_of_passes {α : Type} {step : Step α} {a : α}
    (h₀ : Passes s.signal step t j a)
    (hp : ∀ u k, step.Runs u k (.ok a) → u.Shellless) : t.Shellless := by
  obtain ⟨u, rfl, h⟩ := h₀
  exact shellless_append.mpr ⟨shellless_entry _, hp _ _ h⟩

theorem prepares_installs {f : Findings} {r : Except Stop (Path × Env)}
    (ht : s.collaborators.compiler.template.filter (· ≠ "") = some template)
    (h₀ : s.Prepares (.ok tc) t j f r) :
    (∃ st, r = .error (.cancelled st) ∧ t.launches = [] ∧ ¬ t.Uncancelled ∧
        (st = .setup ∧ f.toolchain = none ∨ st = .provision ∧ f.toolchain = some tc)) ∨
      (∃ x, r = .error (.crashed x)) ∨
      f.toolchain = some tc ∧ s.InstallsCompiler template tc t.launches := by
  -- What is provisioned behind the looks of the setup and of the provisioning itself.
  have provisioned {u : Trace} (h : s.InstallsCompiler template tc u.launches) :
      s.InstallsCompiler template tc (entry s.signal ++ (entry s.signal ++ u)).launches := by
    simpa only [launches_append, launches_entry, List.nil_append] using h
  cases h₀ with
  | setup h =>
    cases h with
    | cancelled => exact .inl ⟨.setup, rfl, rfl, by simp [Uncancelled, refusal], .inl ⟨rfl, rfl⟩⟩
    | failed h =>
      obtain ⟨-, -, he⟩ := Step.runs_pure.mp h
      cases he
  | provision htc h =>
    cases htc
    cases h with
    | cancelled =>
      refine .inl ⟨.provision, rfl, ?_, by simp [Uncancelled, refusal], .inr ⟨rfl, rfl⟩⟩
      rw [launches_append, launches_entry]
      rfl
    | failed h =>
      rcases provision_installs ht h with ⟨x, hx⟩ | h
      · cases hx
        exact .inr (.inl ⟨x, rfl⟩)
      · exact .inr (.inr ⟨rfl, provisioned h⟩)
  | checkout htc h hc =>
    cases htc
    obtain ⟨v, rfl, hv⟩ := h
    rcases provision_installs ht hv with ⟨x, hx⟩ | h
    · cases hx
    · rw [← List.append_assoc]
      exact .inr (.inr ⟨rfl, (provisioned h).append
        (shellless_of_stops hc fun _ _ _ => acquire_shellless)⟩)
  | ready htc h hc =>
    cases htc
    obtain ⟨v, rfl, hv⟩ := h
    rcases provision_installs ht hv with ⟨x, hx⟩ | h
    · cases hx
    · rw [← List.append_assoc]
      exact .inr (.inr ⟨rfl, (provisioned h).append
        (shellless_of_passes hc fun _ _ => acquire_shellless)⟩)

/-- The context runs with a toolchain: it records it, installs its compiler and, of the language,
no other version than the one it names. -/
structure RunsWith (s : Surroundings) (template : String) (tc : Toolchain) (t : Trace)
    (r : Report) : Prop where
  recorded : r.toolchain = some tc
  compiler : s.InstallsCompiler template tc t.launches
  language : ∀ version, s.collaborators.language.launch version ∈ t.launches →
    version = tc.language

structure Unstarted (tc : Toolchain) (t : Trace) (r : Report) : Prop where
  status : r.status = .cancelled
  launches : t.launches = []
  cancelled : ¬ t.Uncancelled
  recorded : r.failedStage = some .setup ∧ r.toolchain = none ∨
    r.failedStage = some .provision ∧ r.toolchain = some tc

theorem releaseContext_language {e : Entry} {target : Target} {o : Outcome}
    (htc : Toolchain.forRelease e = .ok tc) (h₀ : (s.releaseContext target e).Runs t o) :
    ∀ version, s.collaborators.language.launch version ∈ t.launches → version = tc.language := by
  intro version hv
  rcases (releaseContext_supplies h₀).mem_cases hv with
    ⟨line, h⟩ | h | ⟨directory, command, h⟩ | ⟨env, h, -⟩ | h
  · cases h
  · rw [(forRelease_compiler htc).1]
    simpa [LanguageInstaller.launch, LanguageInstaller.command] using h
  · cases congrArg Launch.directory h
  · cases congrArg Launch.directory h
  · obtain ⟨tool, h⟩ := Adapter.mem_launches h
    cases congrArg Launch.env h

theorem releaseContext_runsWith {e : Entry} {target : Target} {notes : List Note} {r : Report}
    (ht : s.collaborators.compiler.template.filter (· ≠ "") = some template)
    (htc : Toolchain.forRelease e = .ok tc)
    (h₀ : (s.releaseContext target e).Runs t (notes, .ok r)) :
    s.RunsWith template tc t r ∨ Unstarted tc t r := by
  have hlanguage := releaseContext_language htc h₀
  obtain ⟨j, f, x, hr, ho⟩ := runs_finish h₀
  have hreport : (Context.report e.artifact e.host j.logs f x).2 = .ok r :=
    (congrArg Prod.snd ho).symm
  have hto := Report.takesOver_report hreport
  have installs {u : Trace} {i : Journal} {g : Findings} {a : Path × Env}
      (h : s.Prepares (Toolchain.forRelease e) u i g (.ok a)) :
      g.toolchain = some tc ∧ s.InstallsCompiler template tc u.launches := by
    rw [htc] at h
    rcases prepares_installs ht h with ⟨_, he, -⟩ | ⟨_, he⟩ | h
    · cases he
    · cases he
    · exact h
  -- What is found later adds to the toolchain.
  have recorded {f g : Findings} (hto : r.toolchain = (f ++ g).toolchain)
      (hf : f.toolchain = some tc) : r.toolchain = some tc := by
    rw [hto, Findings.toolchain_append, hf, Option.some_or]
  cases releaseStages_runs hr with
  | unprepared h =>
    rw [htc] at h
    rcases prepares_installs ht h with ⟨st, he, hl, hc, hst⟩ | ⟨x, he⟩ | ⟨hf, hi⟩
    · cases he
      cases hreport
      refine .inr ⟨rfl, hl, hc, ?_⟩
      rcases hst with ⟨rfl, hf⟩ | ⟨rfl, hf⟩
      · exact .inl ⟨rfl, hf⟩
      · exact .inr ⟨rfl, hf⟩
    · cases he
      cases hreport
    · exact .inl ⟨hto.toolchain.trans hf, hi, hlanguage⟩
  | buildCancelled h hs =>
    obtain ⟨hf, hi⟩ := installs h
    exact .inl ⟨hto.toolchain.trans hf, hi.append (shellless_of_launches rfl), hlanguage⟩
  | buildFailed h hb =>
    obtain ⟨hf, hi⟩ := installs h
    refine .inl ⟨recorded hto.toolchain hf, hi.append ?_, hlanguage⟩
    exact shellless_append.mpr ⟨shellless_entry _, buildStep_shellless hb⟩
  | unpublished h hb hp =>
    obtain ⟨hf, hi⟩ := installs h
    refine .inl ⟨recorded hto.toolchain hf, hi.append ?_, hlanguage⟩
    exact shellless_append.mpr ⟨shellless_entry _, shellless_append.mpr
      ⟨buildStep_shellless hb, shellless_of_stops hp fun _ _ _ => publish_shellless⟩⟩
  | published h hb hp =>
    obtain ⟨hf, hi⟩ := installs h
    refine .inl ⟨recorded hto.toolchain hf, hi.append ?_, hlanguage⟩
    exact shellless_append.mpr ⟨shellless_entry _, shellless_append.mpr
      ⟨buildStep_shellless hb, shellless_of_passes hp fun _ _ => publish_shellless⟩⟩

theorem prepares_unsupported {err : ConfigurationError} {f : Findings}
    {r : Except Stop (Path × Env)} (h₀ : s.Prepares (.error err) t j f r) (hu : t.Uncancelled) :
    r = .error (.failed .setup (.configuration err)) := by
  cases h₀ with
  | setup h =>
    cases h with
    | cancelled => exact absurd List.mem_cons_self hu
    | failed h =>
      obtain ⟨-, -, he⟩ := Step.runs_fail.mp h
      cases he
      rfl
  | provision htc => cases htc
  | checkout htc => cases htc
  | ready htc => cases htc

theorem exists_unsupported {e : Entry} {err : ConfigurationError}
    (he : Toolchain.forRelease e = .error err) (target : Target) :
    ∃ t notes r, (s.releaseContext target e).Runs t (notes, .ok r) ∧ t.Uncancelled ∧
      r.failedStage = some .setup := by
  obtain ⟨t, o, h₀, hx⟩ := Program.exists_answered obliging (s.releaseContext target e)
  have hu : t.Uncancelled := by
    intro hev
    cases hx _ hev
  obtain ⟨j, f, x, hr, rfl⟩ := runs_finish h₀
  have unprepared {u : Trace} {i : Journal} {g : Findings} {a : Path × Env} (hp : u <+: t)
      (h : s.Prepares (Toolchain.forRelease e) u i g (.ok a)) : False := by
    rw [he] at h
    cases prepares_unsupported h fun hev => hu (hp.subset hev)
  cases releaseStages_runs hr with
  | unprepared h =>
    rw [he] at h
    cases prepares_unsupported h hu
    exact ⟨_, _, _, h₀, hu, rfl⟩
  | buildCancelled h => exact (unprepared (List.prefix_append _ _) h).elim
  | buildFailed h => exact (unprepared (List.prefix_append _ _) h).elim
  | unpublished h => exact (unprepared (List.prefix_append _ _) h).elim
  | published h => exact (unprepared (List.prefix_append _ _) h).elim

end Surroundings

namespace Command

def Supported (m : Matrix) : Prop := ∀ e ∈ m.entries, ∃ tc, Toolchain.forRelease e = .ok tc

theorem toolchains_eq {m : Matrix} {pairs : List (Entry × Toolchain)}
    (h : toolchains m = .ok pairs) :
    pairs.map Prod.fst = m.entries ∧ ∀ p ∈ pairs, Toolchain.forRelease p.1 = .ok p.2 := by
  unfold toolchains at h
  generalize m.entries = es at h
  induction es generalizing pairs with
  | nil =>
    cases h
    exact ⟨rfl, nofun⟩
  | cons e es ih =>
    rw [List.mapM_cons] at h
    cases he : Toolchain.forRelease e with
    | error err =>
      rw [he] at h
      cases h
    | ok tc =>
      cases hes : es.mapM fun e => (Toolchain.forRelease e).map fun t => (e, t) with
      | error err =>
        rw [he, hes] at h
        cases h
      | ok rest =>
        rw [he, hes] at h
        cases h
        obtain ⟨hfst, hrest⟩ := ih hes
        exact ⟨by rw [List.map_cons, hfst], List.forall_mem_cons.mpr ⟨he, hrest⟩⟩

theorem supported_iff {m : Matrix} : Supported m ↔ ∃ pairs, toolchains m = .ok pairs := by
  constructor
  · unfold Supported toolchains
    intro h
    generalize m.entries = es at h ⊢
    induction es with
    | nil => exact ⟨[], rfl⟩
    | cons e es ih =>
      obtain ⟨⟨tc, he⟩, hes⟩ := List.forall_mem_cons.mp h
      obtain ⟨rest, hrest⟩ := ih hes
      refine ⟨(e, tc) :: rest, ?_⟩
      rw [List.mapM_cons, he, hrest]
      rfl
  · rintro ⟨pairs, h⟩ e he
    obtain ⟨hfst, hall⟩ := toolchains_eq h
    rw [← hfst] at he
    obtain ⟨p, hp, rfl⟩ := List.mem_map.mp he
    exact ⟨p.2, hall p hp⟩

def shownRow (p : Entry × Toolchain) : Value :=
  .object [("artifact_name", .text p.1.artifact), ("host_os", .text p.1.host),
    ("toolchain", p.2.toValue)]

variable {file : String} {m : Matrix} {i : Journal} {r : Except Failure Ending}

theorem validateMatrix_runs (hm : (Matrix.load (Path.ofString file)).Runs t i (.ok m))
    (h₀ : (validateMatrix (some file)).Runs (t ++ u) j r) :
    (∃ e, toolchains m = .error e ∧ r = .error (.configuration e)) ∨
      ∃ pairs v, toolchains m = .ok pairs ∧ r = .ok (.report 0 v) := by
  obtain ⟨j', h₁⟩ := Step.runs_bind_of_runs hm h₀
  rcases Step.runs_ofExcept_bind h₁ with ⟨e, he, -, -, rfl⟩ | ⟨pairs, hp, h₂⟩
  · exact .inl ⟨e, he, rfl⟩
  · obtain ⟨-, -, rfl⟩ := Step.runs_pure.mp h₂
    exact .inr ⟨pairs, _, hp, rfl⟩

theorem showToolchains_runs (hm : (Matrix.load (Path.ofString file)).Runs t i (.ok m))
    (h₀ : (showToolchains (some file) []).Runs (t ++ u) j r) :
    (∃ e, toolchains m = .error e ∧ r = .error (.configuration e)) ∨
      ∃ pairs, toolchains m = .ok pairs ∧ r = .ok (.report 0 (.list (pairs.map shownRow))) := by
  have hselected : (selected (some file) [] none).Runs t (i ++ .empty) (.ok m) := by
    refine Step.runs_bind.mpr (.inr ⟨t, [], i, .empty, m, by simp, rfl, hm, ?_⟩)
    exact Step.runs_pure.mpr ⟨rfl, rfl, rfl⟩
  obtain ⟨j', h₁⟩ := Step.runs_bind_of_runs hselected h₀
  rcases Step.runs_ofExcept_bind h₁ with ⟨e, he, -, -, rfl⟩ | ⟨pairs, hp, h₂⟩
  · exact .inl ⟨e, he, rfl⟩
  · obtain ⟨-, -, rfl⟩ := Step.runs_pure.mp h₂
    exact .inr ⟨pairs, hp, rfl⟩

end Command

namespace Console
open Command
variable {c : Console} {file : String} {f : Matrix.Found} {m : Matrix}

/-- Whenever the trace has a question about the path of a matrix or its text, this is found
there. -/
def Shows (f : Matrix.Found) (path : Path) (t : Trace) : Prop :=
  ∀ ev ∈ t, f.Concerns path ev.1 → ev.2 = f.answer ev.1

/-- The tool runs a command with a matrix file along the trace, and neither its words nor the
environment file end it before that. -/
structure Undertakes (command : Command) (file : String) (f : Matrix.Found) (t : Trace)
    (c : Console) : Prop where
  runs : ∃ schedule words level cwd env, Command.read words = .ok ⟨level, command⟩ ∧
    (runScheduled schedule words cwd env).Runs t c ∧
    ∃ u i env' b, u <+: t ∧ (EnvFile.load env (cwd / ".env")).Runs u i (.ok (env', .ok b))
  names : command.matrixFile = some file
  finds : Shows f (Path.ofString file) t

theorem Undertakes.of_returns {schedule : List Nat} {words : List String} {level : Level}
    {command : Command} {cwd : Path} {env : Env} {n : Nat}
    (hread : Command.read words = .ok ⟨level, command⟩)
    (h₀ : (runScheduled schedule words cwd env).Runs t c) (hc : c.status = .ok n)
    (hfile : command.matrixFile = some file) (hf : Shows f (Path.ofString file) t) :
    Undertakes command file f t c := by
  refine ⟨⟨schedule, words, level, cwd, env, hread, h₀, ?_⟩, hfile, hf⟩
  unfold runScheduled at h₀
  rw [hread] at h₀
  obtain ⟨⟨journal, r⟩, rfl, h⟩ := Program.runs_map.mp h₀
  rcases runCommand_runs h with
    ⟨env', x, -, -, rfl⟩ | ⟨env', b, u, i, v, k, x, rfl, -, -, hl, -, -⟩
  · cases hc
  · exact ⟨u, i, env', b, List.prefix_append u v, hl⟩

theorem Undertakes.loads {command : Command} (h : Undertakes command file f t c) :
    ∃ schedule place w k x level notes, (command.run schedule place).Runs
        (f.trace (Path.ofString file) ++ w) k x ∧
      c = ended level place.env notes (concluded x) := by
  obtain ⟨⟨schedule, words, level, cwd, env, hread, h₀, u', i', env₀, b₀, ⟨v', rfl⟩, hload⟩,
    hfile, hf⟩ := h
  unfold runScheduled at h₀
  rw [hread] at h₀
  obtain ⟨⟨journal, r⟩, rfl, h⟩ := Program.runs_map.mp h₀
  rcases runCommand_runs h with
    ⟨env', x, -, hl, rfl⟩ | ⟨env', b, u, i, v, k, x, ht, -, -, -, hx, rfl⟩
  · cases (Program.runs_append hload hl).2
  · rw [ht] at hf
    obtain ⟨g, w, rfl, -⟩ := run_opens hfile _ _ _ hx
    obtain rfl := Matrix.Found.eq_of_answers fun ev hev =>
      hf ev (List.mem_append_right u (List.mem_append_left w hev))
    exact ⟨schedule, ⟨cwd, env'⟩, w, k, x, level, journal.notes, hx, rfl⟩

theorem validate_status (hm : f.matrix (Path.ofString file) = .ok m)
    (h₀ : Undertakes (.matrixValidate (some file)) file f t c) :
    (∃ e, toolchains m = .error e ∧ c.status = .ok 2) ∨
      ∃ pairs, toolchains m = .ok pairs ∧ c.status = .ok 0 := by
  obtain ⟨schedule, place, w, k, x, level, notes, hx, rfl⟩ := h₀.loads
  obtain ⟨i, hload⟩ := Matrix.exists_load_runs (Path.ofString file) f
  rw [hm] at hload
  rcases validateMatrix_runs hload hx with ⟨e, he, rfl⟩ | ⟨pairs, v, hp, rfl⟩
  · exact .inl ⟨e, he, rfl⟩
  · exact .inr ⟨pairs, hp, rfl⟩

theorem show_status (hm : f.matrix (Path.ofString file) = .ok m)
    (h₀ : Undertakes (.toolchainShow (some file) []) file f t c) :
    (∃ e, toolchains m = .error e ∧ c.status = .ok 2) ∨
      ∃ pairs, toolchains m = .ok pairs ∧ c.status = .ok 0 ∧
        c.output = (Value.list (pairs.map shownRow)).json ++ "\n" := by
  obtain ⟨schedule, place, w, k, x, level, notes, hx, rfl⟩ := h₀.loads
  obtain ⟨i, hload⟩ := Matrix.exists_load_runs (Path.ofString file) f
  rw [hm] at hload
  rcases showToolchains_runs hload hx with ⟨e, he, rfl⟩ | ⟨pairs, hp, rfl⟩
  · exact .inl ⟨e, he, rfl⟩
  · exact .inr ⟨pairs, hp, rfl, rfl⟩

end Console

namespace Surroundings
variable {s : Surroundings} {template : String}

/-- The contexts of a matrix fail at the setup just where a toolchain cannot be told. -/
theorem supported_iff_setup {m : Matrix} (target : Target)
    (ht : s.collaborators.compiler.template.filter (· ≠ "") = some template) :
    Command.Supported m ↔ ∀ e ∈ m.entries, ∀ t notes r,
      (s.releaseContext target e).Runs t (notes, .ok r) → t.Uncancelled →
      r.failedStage ≠ some .setup := by
  constructor
  · intro h e he t notes r hr hu
    obtain ⟨tc, htc⟩ := h e he
    rcases releaseContext_runsWith ht htc hr with hw | hn
    · refine (releaseContext_report hr rfl).toCoherent.toolchain.mp ?_
      rw [hw.recorded]
      rfl
    · exact absurd hu hn.cancelled
  · intro h e he
    cases htc : Toolchain.forRelease e with
    | ok tc => exact ⟨tc, rfl⟩
    | error err =>
      obtain ⟨t, notes, r, hr, hu, hs⟩ := exists_unsupported (s := s) htc target
      exact absurd hs (h e he t notes r hr hu)

end Surroundings

namespace Console
open Command Surroundings

/-- The validation of a matrix ends with the status of showing its toolchains. This is zero just
where no context that is not cancelled fails at the setup. Then each context records the toolchain
that is shown for its entry, installs the compiler in it, if there is one, before anything else, and
no other, and installs no other language toolchain; only one that is cancelled at once does
nothing. -/
theorem shown_toolchains_are_run {file : String} {f : Matrix.Found} {m : Matrix} {t u : Trace}
    {c d : Console} {s : Surroundings} {template : String}
    (hm : f.matrix (Path.ofString file) = .ok m)
    (hc : Undertakes (.matrixValidate (some file)) file f t c)
    (hd : Undertakes (.toolchainShow (some file) []) file f u d)
    (htemplate : s.collaborators.compiler.template = some template) (hne : template ≠ "")
    (target : Target) :
    c.status = d.status ∧ (d.status = .ok 0 ∨ d.status = .ok 2) ∧
    (d.status = .ok 0 ↔ ∀ e ∈ m.entries, ∀ own notes r,
      (s.releaseContext target e).Runs own (notes, .ok r) → own.Uncancelled →
      r.failedStage ≠ some .setup) ∧
    (d.status = .ok 0 → ∃ pairs : List (Entry × Toolchain), pairs.map Prod.fst = m.entries ∧
      d.output = (Value.list (pairs.map shownRow)).json ++ "\n" ∧
      ∀ p ∈ pairs, ∀ own notes r, (s.releaseContext target p.1).Runs own (notes, .ok r) →
        (own.Uncancelled → s.RunsWith template p.2 own r) ∧
        (s.RunsWith template p.2 own r ∨ Unstarted p.2 own r)) := by
  have hfilter : s.collaborators.compiler.template.filter (· ≠ "") = some template := by
    simp [htemplate, Option.filter, hne]
  have hsetup := supported_iff_setup (m := m) target hfilter
  rcases validate_status hm hc with ⟨e, he, hv⟩ | ⟨pairs, hp, hv⟩ <;>
    rcases show_status hm hd with ⟨e', he', hw⟩ | ⟨pairs', hp', hw, hout⟩
  · have hno : ¬ Supported m := by
      rw [supported_iff, he]
      simp
    rw [hv, hw, ← hsetup]
    exact ⟨rfl, .inr rfl, by simp [hno], nofun⟩
  · cases he.symm.trans hp'
  · cases hp.symm.trans he'
  · cases hp.symm.trans hp'
    rw [hv, hw, ← hsetup]
    obtain ⟨hfst, hall⟩ := toolchains_eq hp
    refine ⟨rfl, .inl rfl, iff_of_true rfl (supported_iff.mpr ⟨pairs, hp⟩), fun _ =>
      ⟨pairs, hfst, hout, fun p hmem own notes r hr => ?_⟩⟩
    have hruns := releaseContext_runsWith hfilter (hall p hmem) hr
    exact ⟨fun hun => hruns.resolve_right fun hn => hn.cancelled hun, hruns⟩

def onlyFile (path : Path) (bytes : List UInt8) : (r : Request) → r.Answer
  | .exists p => Except.ok (decide (p = path))
  | .readFile _ => Except.ok bytes
  | .readYaml text => Yaml.read text
  | r => obliging r

theorem onlyFile_shows {α : Type} (p : Program α) (path : Path) (bytes : List UInt8) :
    Shows (.ofBytes Yaml.read bytes) path
      (p.trace (fun q (_ : Unit) => (onlyFile path bytes q, ())) ()) := by
  rintro ⟨q, x⟩ hev hq
  refine (Program.mem_trace hev).elim fun _ hx => hx.trans ?_
  have hthere : onlyFile path bytes (.exists path) = Except.ok true :=
    congrArg Except.ok (decide_eq_true (p := path = path) rfl)
  obtain ⟨ht, hf⟩ | ⟨text, ht, hf⟩ := Matrix.Found.ofBytes_cases Yaml.read bytes
  · rw [hf] at hq ⊢
    cases hq with
    | «exists» => exact hthere
    | bytes => rfl
  · rw [hf] at hq ⊢
    cases hq with
    | «exists» => exact hthere
    | bytes | text => rfl

def pinnedMatrix : Matrix := ⟨[⟨"windows", "libisar_ios.a", "b.sh", none⟩], by decide⟩

def pinnedFile : List UInt8 :=
  "- \x7bos: windows, artifact_name: libisar_ios.a, script: b.sh\x7d".toUTF8.toList

theorem pinnedMatrix_is_shown_and_run :
    let s := dryRun (Path.ofString "/work") true
    ∃ t u c d, Undertakes (.matrixValidate (some "matrix.yml")) "matrix.yml"
        (.ofBytes Yaml.read pinnedFile) t c ∧
      Undertakes (.toolchainShow (some "matrix.yml") []) "matrix.yml"
        (.ofBytes Yaml.read pinnedFile) u d ∧
      c.status = .ok 0 ∧ d.status = .ok 0 ∧
      ∃ pairs : List (Entry × Toolchain), pairs.map Prod.fst = pinnedMatrix.entries ∧
        d.output = (Value.list (pairs.map shownRow)).json ++ "\n" ∧
        ∀ p ∈ pairs, ∀ own notes r,
          (s.releaseContext ⟨"v1", "", none⟩ p.1).Runs own (notes, .ok r) → own.Uncancelled →
          r.failedStage ≠ some .setup ∧ s.RunsWith CompilerInstaller.usualTemplate p.2 own r := by
  intro s
  let path := Path.ofString "matrix.yml"
  let cwd := Path.ofString "/work"
  let answer (q : Request) (_ : Unit) : q.Answer × Unit := (onlyFile path pinnedFile q, ())
  have undertakes {words : List String} {command : Command} (hread : ∃ i, Command.read words =
        .ok i ∧ i.command = command) (hfile : command.matrixFile = some "matrix.yml")
      (hok : ((runScheduled [] words cwd .empty).runWith answer ()).1.status.toOption.map id =
        some 0) :
      ∃ t c, Undertakes command "matrix.yml" (.ofBytes Yaml.read pinnedFile) t c ∧
        c.status = .ok 0 := by
    obtain ⟨⟨level, _⟩, hi, rfl⟩ := hread
    obtain ⟨n, hn, rfl⟩ := exists_of_toOption hok
    have hrun := Program.runs_trace answer (runScheduled [] words cwd .empty) ()
    exact ⟨_, _, .of_returns hi hrun hn hfile (onlyFile_shows _ path pinnedFile), hn⟩
  obtain ⟨m, hm, rfl⟩ : ∃ m, Matrix.Found.matrix path (.ofBytes Yaml.read pinnedFile) = .ok m ∧
      m = pinnedMatrix := exists_of_toOption (by decide +kernel)
  have hvalidate : ∃ i, Command.read ["matrix", "validate", "--matrix", "matrix.yml"] = .ok i ∧
      i.command = .matrixValidate (some "matrix.yml") := exists_of_toOption (by decide +kernel)
  have hshow : ∃ i, Command.read ["toolchain", "show", "--matrix", "matrix.yml"] = .ok i ∧
      i.command = .toolchainShow (some "matrix.yml") [] := exists_of_toOption (by decide +kernel)
  obtain ⟨t, c, hc, hcok⟩ := undertakes hvalidate rfl (by decide +kernel)
  obtain ⟨u, d, hd, hdok⟩ := undertakes hshow rfl (by decide +kernel)
  obtain ⟨-, -, hsetup, hruns⟩ := shown_toolchains_are_run (s := s) hm hc hd rfl (by decide)
    ⟨"v1", "", none⟩
  obtain ⟨pairs, hfst, hout, hall⟩ := hruns hdok
  refine ⟨t, u, c, d, hc, hd, hcok, hdok, pairs, hfst, hout, fun p hp own notes r hr hun => ?_⟩
  have hentry : p.1 ∈ pinnedMatrix.entries := hfst ▸ List.mem_map_of_mem hp
  exact ⟨hsetup.mp hdok p.1 hentry own notes r hr hun, (hall p hp own notes r hr).1 hun⟩

end Console
end BindingRelease
