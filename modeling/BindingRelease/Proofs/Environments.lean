import BindingRelease.Proofs.Endings
import BindingRelease.Proofs.Rehearsals
/-!
The environments of processes. Whatever the contexts of a run provision, each sees only its own: the
build or the verification of a context gets the base environment with the variables that this
context has set, and every other process the environment that was there before the run. The
processes of a context follow a plan, in which the build or the verification has one place.
-/
namespace BindingRelease
open Trace Context
variable {t u : Trace} {j : Journal}

namespace Env

theorem get?_set (e : Env) (name value other : String) :
    (e.set name value).get? other = if other = name then some value else e.get? other := by
  by_cases h : other = name
  · rw [if_pos h, h, get?_set_self]
  · rw [if_neg h, get?_set_of_ne e value h]

end Env

namespace Trace

theorem mem_launches {p : Launch} : p ∈ t.launches ↔ ∃ x, ⟨.start p, x⟩ ∈ t := by
  simp only [launches, List.mem_filterMap]
  constructor
  · rintro ⟨⟨r, x⟩, hev, hp⟩
    cases r with
    | start q =>
      cases hp
      exact ⟨x, hev⟩
    | _ => cases hp
  · rintro ⟨x, hev⟩
    exact ⟨_, hev, rfl⟩

theorem launches_of_looking (h : ∀ ev ∈ t, ev.1.surveys) : t.launches = [] := by
  refine List.eq_nil_iff_forall_not_mem.mpr fun p hp => ?_
  obtain ⟨x, hx⟩ := mem_launches.mp hp
  cases h _ hx

theorem launches_of_surveys (h : t.Surveys) : t.launches = [] :=
  launches_of_looking fun ev hev => (h ev hev).1

theorem launches_entry (signal : Bool) : (entry signal).launches = [] := by
  cases signal <;> rfl

/-- A part of a run starts the first processes of a plan, and all of them if it is through. -/
structure Along (plan : List Launch) (t : Trace) (through : Prop) : Prop where
  order : t.launches <+: plan
  complete : through → t.launches = plan

namespace Along
variable {ps qs : List Launch} {through through' : Prop}

theorem of_eq (h : t.launches = ps) : Along ps t through :=
  ⟨h ▸ List.prefix_refl _, fun _ => h⟩

theorem stuck (h : t.launches = []) (plan : List Launch) : Along plan t False :=
  ⟨h ▸ List.nil_prefix, False.elim⟩

theorem append (h : Along ps t through) (ht : through) (h' : Along qs u through') :
    Along (ps ++ qs) (t ++ u) through' where
  order := by
    rw [launches_append, h.complete ht]
    exact (List.prefix_append_right_inj ps).mpr h'.order
  complete ht' := by rw [launches_append, h.complete ht, h'.complete ht']

theorem halt (h : Along ps t through) (qs : List Launch) : Along (ps ++ qs) t False :=
  ⟨h.order.trans (List.prefix_append ps qs), False.elim⟩

theorem congr (h : Along ps t through) (ht : through' → through) : Along ps t through' :=
  ⟨h.order, fun h' => h.complete (ht h')⟩

theorem enter {signal : Bool} (h : Along ps t through) : Along ps (entry signal ++ t) through :=
  append (of_eq (launches_entry signal)) trivial h

end Along
end Trace

namespace LanguageInstaller

theorem install_launches {i : LanguageInstaller} {version : String}
    {r : Except Failure (List (String × String))} (h₀ : (i.install version).Runs t j r) :
    t.launches = [i.launch version] := by
  obtain ⟨x, rfl, -⟩ := install_runs h₀
  rfl

theorem update_install {i : LanguageInstaller} {version : String} {base env : Env}
    {r : Except Failure (List (String × String))} (h₀ : (i.install version).Runs t j r)
    (hr : Except.ok env = r.map base.update) : env = base.set "RUSTUP_TOOLCHAIN" version := by
  obtain ⟨x, -, -, hx⟩ := install_runs h₀
  cases r with
  | error e => cases hr
  | ok vars =>
    obtain ⟨f, -, -, rfl⟩ := LaunchResult.outcome_eq_ok.mp hx.symm
    exact Except.ok.inj hr

end LanguageInstaller

namespace CompilerInstaller

def launches (i : CompilerInstaller) (c : Compiler) (directory : Path) (env : Env) : List Launch :=
  match i.template.filter (· ≠ "") with
  | none => []
  | some template =>
    match render template c.version directory with
    | .ok line => [launch line env]
    | .error _ => []

theorem runInstallation_along {template : String} {c : Compiler} {directory : Path} {env : Env}
    {r : Except Failure Unit} (h₀ : (runInstallation template c directory env).Runs t j r) :
    Along (match render template c.version directory with
      | .ok line => [launch line env]
      | .error _ => []) t (∃ a, r = .ok a) := by
  rcases runInstallation_runs h₀ with
    ⟨e, he, rfl, -, rfl⟩ | ⟨line, hl, ⟨e, rfl, -, rfl⟩ | ⟨x, rfl, -⟩⟩
  · exact (Along.stuck rfl _).congr (by simp)
  · exact (Along.stuck rfl _).congr (by simp)
  · rw [hl]
    exact .of_eq rfl

theorem install_along {i : CompilerInstaller} {c : Compiler} {directory : Path} {env : Env}
    {r : Except Failure (List (String × String))} (h₀ : (i.install c directory env).Runs t j r) :
    Along (i.launches c directory env) t (∃ a, r = .ok a) := by
  unfold launches
  cases install_runs h₀ with
  | failed ht h =>
    rw [ht]
    exact (runInstallation_along h).congr (by simp)
  | installed ht h hl =>
    rw [ht]
    simpa using (runInstallation_along h).append ⟨_, rfl⟩ (.of_eq (launches_of_surveys hl.surveys))
  | present ht hl =>
    rw [ht]
    exact .of_eq (launches_of_surveys hl.surveys)

theorem install_found {i : CompilerInstaller} {c : Compiler} {directory : Path} {env : Env}
    {vars : List (String × String)} (h₀ : (i.install c directory env).Runs t j (.ok vars)) :
    ∃ u found, u <:+ t ∧ Clang.Finds (Clang.places directory (env.get? "PATH")) u (some found) ∧
      vars = [(c.envVar, found.toString),
        ("PATH", extendedPath found ((env.get? "PATH").getD ""))] := by
  have given {found : Option Path} (h : searchOutcome c directory env found = .ok vars) :
      ∃ d, found = some d ∧ vars = [(c.envVar, d.toString),
        ("PATH", extendedPath d ((env.get? "PATH").getD ""))] := by
    cases found with
    | none => cases h
    | some d => exact ⟨d, rfl, (Except.ok.inj h).symm⟩
  generalize hr : (Except.ok vars : Except Failure _) = r at h₀
  cases install_runs h₀ with
  | failed => cases hr
  | @installed _ _ _ u found _ _ hl =>
    obtain ⟨d, rfl, hv⟩ := given hr.symm
    exact ⟨u, d, List.suffix_append _ _, hl, hv⟩
  | @present u found _ hl =>
    obtain ⟨d, rfl, hv⟩ := given hr.symm
    exact ⟨_, d, List.suffix_refl _, hl, hv⟩

end CompilerInstaller

namespace Checkout

def launches (c : Checkout) (workspace : Path) (fresh : Bool) : List Launch :=
  (c.commands workspace fresh).map fun x => launch x.1 x.2

theorem runIn_along {directory : Path} {command : List String} {r : Except Failure Unit}
    (h₀ : (runIn directory command).Runs t j r) :
    Along [launch directory command] t (∃ a, r = .ok a) := by
  rcases runIn_runs h₀ with ⟨e, rfl, -, rfl⟩ | ⟨x, rfl, -⟩
  · exact (Along.stuck rfl _).congr (by simp)
  · exact .of_eq rfl

theorem executes_along {cs : List (Path × List String)} {r : Except Failure Unit}
    (h₀ : Executes cs t r) :
    Along (cs.map fun x => launch x.1 x.2) t (∃ a, r = .ok a) := by
  induction h₀ with
  | done => exact .of_eq rfl
  | failed h => exact ((runIn_along h).halt _).congr (by simp)
  | next h _ ih => exact (runIn_along h).append ⟨_, rfl⟩ ih

theorem acquire_along {c : Checkout} {workspace : Path} {r : Except Failure Path}
    (h₀ : (c.acquire workspace).Runs t j r) :
    ∃ fresh, Along (c.launches workspace fresh) t (∃ a, r = .ok a) := by
  cases acquire_runs h₀ with
  | @unseen t ev x ht hev hx =>
    have hlooking : ∀ e ∈ t ++ [ev], e.1.surveys :=
      List.forall_mem_append.mpr ⟨fun e he => (ht e he).1, by simpa using hev⟩
    exact ⟨false, (Along.stuck (launches_of_looking hlooking) _).congr (by simp)⟩
  | missing ht =>
    exact ⟨false, (Along.stuck (launches_of_surveys ht) _).congr (by simp [missingWorkspace])⟩
  | executed fresh ht _ h =>
    exact ⟨fresh, Along.append (.of_eq (launches_of_surveys ht)) trivial
      ((executes_along h).congr exists_ok_of_map)⟩

end Checkout

namespace Adapter

def launches (a : Adapter) (ambient : Env) (file : Path) (asset : String) (target : Target) :
    List Launch :=
  match a with
  | .tool hostTool => [hostTool.launch ambient file asset target]
  | _ => []

theorem publish_launches {a : Adapter} {ambient : Env} {file : Path} {asset : String}
    {target : Target} {r : Except Failure Upload}
    (h₀ : (a.publish ambient file asset target).Runs t j r) :
    t.launches <+: a.launches ambient file asset target := by
  rcases publish_runs h₀ with ⟨seen, -, rfl, -⟩ | ⟨u, k, rfl, hu⟩
  · exact List.nil_prefix
  have hcons : Trace.launches (⟨.isFile file, Except.ok true⟩ :: u) = Trace.launches u := rfl
  rw [hcons]
  cases a with
  | dryRun =>
    obtain ⟨i, rfl, h⟩ := Step.runs_log_bind.mp hu
    obtain ⟨rfl, -⟩ := Step.runs_pure.mp h
    exact List.nil_prefix
  | host h =>
    rw [launches_of_requests (ReleaseHost.upload_runs hu).requests]
    exact List.nil_prefix
  | tool tool =>
    obtain ⟨x, rfl, -⟩ := HostTool.upload_runs hu
    exact List.prefix_refl _

theorem mem_launches {a : Adapter} {ambient : Env} {file : Path} {asset : String}
    {target : Target} {p : Launch} (hp : p ∈ a.launches ambient file asset target) :
    ∃ hostTool : HostTool, p = hostTool.launch ambient file asset target := by
  cases a with
  | tool hostTool => exact ⟨hostTool, List.mem_singleton.mp hp⟩
  | _ => cases hp

end Adapter

namespace Surroundings
variable {s : Surroundings}

def searchPathBehind (s : Surroundings) (directory : Path) : String :=
  match s.env.nonempty? "PATH" with
  | none => directory.toString
  | some old => directory.toString ++ ":" ++ old

/-- The variables of a build or a verification: those of the base environment, but for the language
toolchain and, where clang is handed on, its directory. -/
def provisioned (s : Surroundings) (language : String) (clang : Option Path) (name : String) :
    Option String :=
  if name = "RUSTUP_TOOLCHAIN" then some language
  else match clang with
    | none => s.env.get? name
    | some directory =>
      if name = Compiler.clangVariable then some directory.toString
      else if name = "PATH" then some (s.searchPathBehind directory)
      else s.env.get? name

/-- The context has itself seen an executable clang in the directory, and none in the places that
come before it. -/
def SeesClang (s : Surroundings) (own : Trace) (directory : Path) : Prop :=
  ∃ u, u <:+: own ∧
    Clang.Finds (Clang.places s.settings.resolvedCompilerDir (s.env.get? "PATH")) u (some directory)

/-- An environment that shows what its own context has provisioned and nothing else; the directory
of clang is handed on for hosts of the windows family and for no others. -/
def Isolated (s : Surroundings) (host language : String) (own : Trace) (env : Env) : Prop :=
  ∃ clang : Option Path, (clang.isSome ↔ HostFamily.ofLabel? host = some .windows) ∧
    (∀ directory, clang = some directory → s.SeesClang own directory) ∧
    ∀ name, env.get? name = s.provisioned language clang name

def provisioning (s : Surroundings) (host version language : String) : List Launch :=
  (if HostFamily.ofLabel? host = some .windows then
    s.collaborators.compiler.launches (.llvm version) s.settings.resolvedCompilerDir s.env
  else []) ++
  [s.collaborators.language.launch language]

/-- The processes of a context before its build or verification. They see the base environment, or
that of the release, as it is. -/
def preparing (s : Surroundings) (host version language : String) (fresh : Bool) : List Launch :=
  s.provisioning host version language ++
    s.collaborators.checkout.launches s.settings.workspace fresh

/-- The processes of a context. `work` is the build or the verification: it comes right behind the
preparation, and always gets an environment of this context's own. Some of `more` may follow. -/
inductive Supplies (s : Surroundings) (host version language : String) (work : Env → Launch)
    (more : List Launch) (own : Trace) : Prop
  | unworked (fresh : Bool) (h : own.launches <+: s.preparing host version language fresh)
  | worked (fresh : Bool) (env : Env) (after : List Launch)
      (h : own.launches = s.preparing host version language fresh ++ work env :: after)
      (he : s.Isolated host language own env) (ha : after <+: more)

def buildWith (s : Surroundings) (e : Entry) (env : Env) : Launch :=
  commandLaunch (s.buildOf e).command (s.buildOf e).directory env

def SuppliesRelease (s : Surroundings) (target : Target) (e : Entry) (own : Trace) : Prop :=
  s.Supplies e.host Compiler.releaseVersion (Toolchain.languageFor e.artifact) (s.buildWith e)
    (s.collaborators.adapter.launches s.ambient (s.buildOf e).artifactPath e.artifact target) own

def SuppliesTest (s : Surroundings) (command : List String) (host : String) (own : Trace) : Prop :=
  s.Supplies host Compiler.testVersion "nightly" (commandLaunch command s.settings.workspace) [] own

theorem SeesClang.mono {own own' : Trace} {directory : Path} (h : s.SeesClang own directory)
    (ho : own <:+: own') : s.SeesClang own' directory := by
  obtain ⟨u, hu, hf⟩ := h
  exact ⟨u, hu.trans ho, hf⟩

theorem Isolated.mono {host language : String} {own own' : Trace} {env : Env}
    (h : s.Isolated host language own env) (ho : own <:+: own') :
    s.Isolated host language own' env := by
  obtain ⟨clang, hw, hs, hv⟩ := h
  exact ⟨clang, hw, fun d hd => (hs d hd).mono ho, hv⟩

theorem extendedPath_eq (s : Surroundings) (directory : Path) :
    CompilerInstaller.extendedPath directory ((s.env.get? "PATH").getD "") =
      s.searchPathBehind directory := by
  unfold CompilerInstaller.extendedPath searchPathBehind Env.nonempty?
  cases s.env.get? "PATH" with
  | none => rfl
  | some old => by_cases ho : old = "" <;> simp [ho, Option.filter]

theorem provision_along {tc : Toolchain} {host version : String}
    (hc : tc.compiler =
      if HostFamily.ofLabel? host = some .windows then some (.llvm version) else none)
    {r : Except Failure Env} (h₀ : (s.provision tc).Runs t j r) :
    Along (s.provisioning host version tc.language) t (∃ a, r = .ok a) := by
  have installed {v : Trace} {k : Journal} {r : Except Failure (List (String × String))}
      (h : (s.collaborators.language.install tc.language).Runs v k r) :
      Along [s.collaborators.language.launch tc.language] v (∃ a, r = .ok a) :=
    .of_eq (LanguageInstaller.install_launches h)
  unfold provisioning
  by_cases hw : HostFamily.ofLabel? host = some .windows
  · rw [if_pos hw] at hc ⊢
    cases provision_runs h₀ with
    | plain hn => cases hc.symm.trans hn
    | uncompiled hs hi =>
      cases hc.symm.trans hs
      exact ((CompilerInstaller.install_along hi).halt _).congr (by simp)
    | compiled hs hi hl =>
      cases hc.symm.trans hs
      exact (CompilerInstaller.install_along hi).append ⟨_, rfl⟩
        ((installed hl).congr exists_ok_of_map)
  · rw [if_neg hw] at hc ⊢
    cases provision_runs h₀ with
    | plain hn hl => exact (installed hl).congr exists_ok_of_map
    | uncompiled hs => cases hc.symm.trans hs
    | compiled hs => cases hc.symm.trans hs

theorem provision_isolated {tc : Toolchain} {host version : String}
    (hc : tc.compiler =
      if HostFamily.ofLabel? host = some .windows then some (.llvm version) else none)
    {env : Env} (h₀ : (s.provision tc).Runs t j (.ok env)) :
    s.Isolated host tc.language t env := by
  generalize hr : (Except.ok env : Except Failure Env) = r at h₀
  cases provision_runs h₀ with
  | plain hn hl =>
    obtain rfl := LanguageInstaller.update_install hl hr
    refine ⟨none, ?_, by simp, fun name => ?_⟩
    · rw [hn] at hc
      split at hc
      · cases hc
      · simp [*]
    · rw [Env.get?_set]
      rfl
  | uncompiled => cases hr
  | @compiled t u _ _ c vars _ hs hi hl =>
    obtain rfl := LanguageInstaller.update_install hl hr
    obtain ⟨v, d, hv, hf, rfl⟩ := CompilerInstaller.install_found hi
    rw [hs] at hc
    split at hc
    · next hw =>
      cases hc
      refine ⟨some d, by simp [hw], ?_, fun name => ?_⟩
      · rintro _ ⟨⟩
        exact ⟨v, hv.isInfix.trans (List.prefix_append t u).isInfix, hf⟩
      · simp only [Env.get?_set, Env.update, List.foldl_cons, List.foldl_nil, provisioned,
          extendedPath_eq]
        grind [Compiler.llvm, Compiler.clangVariable]
    · cases hc

theorem stops_along {α : Type} {st : Stage} {step : Step α} {stop : Stop} {plan : List Launch}
    (h₀ : Stops s.signal st step t j stop)
    (hp : ∀ u e, step.Runs u j (.error e) → Along plan u False) : Along plan t False := by
  cases h₀ with
  | cancelled => exact .stuck rfl plan
  | failed h => exact (hp _ _ h).enter

theorem passes_along {α : Type} {step : Step α} {a : α} {plan : List Launch}
    (h₀ : Passes s.signal step t j a)
    (hp : ∀ u, step.Runs u j (.ok a) → Along plan u True) : Along plan t True := by
  obtain ⟨u, rfl, h⟩ := h₀
  exact (hp u h).enter

/-- A preparation goes along its plan, and is through with it when it gives an environment. -/
theorem prepares_along {toolchain : Except ConfigurationError Toolchain}
    {host version language : String}
    (htc : ∀ tc, toolchain = .ok tc → tc.language = language ∧ tc.compiler =
      if HostFamily.ofLabel? host = some .windows then some (.llvm version) else none)
    {f : Findings} {r : Except Stop (Path × Env)} (h₀ : s.Prepares toolchain t j f r) :
    ∃ fresh, Along (s.preparing host version language fresh) t (∃ a, r = .ok a) := by
  have provided {tc : Toolchain} {t : Trace} {j : Journal} {r : Except Failure Env}
      (hok : toolchain = .ok tc) (h : (s.provision tc).Runs t j r) :
      Along (s.provisioning host version language) t (∃ a, r = .ok a) := by
    obtain ⟨rfl, hc⟩ := htc tc hok
    exact provision_along hc h
  have passed {tc : Toolchain} {t : Trace} {j : Journal} {env : Env} (hok : toolchain = .ok tc)
      (h : Passes s.signal (s.provision tc) t j env) :
      Along (s.provisioning host version language) t True :=
    passes_along h fun u hu => (provided hok hu).congr fun _ => ⟨_, rfl⟩
  cases h₀ with
  | setup h =>
    refine ⟨false, (stops_along h fun u e hu => .stuck ?_ _).congr (by simp)⟩
    cases toolchain with
    | error _ =>
      obtain ⟨rfl, -⟩ := Step.runs_fail.mp hu
      rfl
    | ok _ =>
      obtain ⟨rfl, -⟩ := Step.runs_pure.mp hu
      rfl
  | provision hok h =>
    have hp := stops_along h fun u e hu => (provided hok hu).congr False.elim
    exact ⟨false, ((hp.halt _).congr (by simp)).enter⟩
  | checkout hok h hc =>
    cases hc with
    | cancelled =>
      have hp := (passed hok h).append trivial (.stuck (t := refusal) rfl
        (s.collaborators.checkout.launches s.settings.workspace false))
      exact ⟨false, (hp.congr (by simp)).enter⟩
    | failed hc =>
      obtain ⟨fresh, ha⟩ := Checkout.acquire_along hc
      exact ⟨fresh, (((passed hok h).append trivial ha.enter).congr (by simp)).enter⟩
  | ready hok h hc =>
    obtain ⟨v, rfl, hv⟩ := hc
    obtain ⟨fresh, ha⟩ := Checkout.acquire_along hv
    exact ⟨fresh, (((passed hok h).append trivial ha.enter).congr fun _ => ⟨_, rfl⟩).enter⟩

theorem prepares_isolated {toolchain : Except ConfigurationError Toolchain}
    {host version language : String}
    (htc : ∀ tc, toolchain = .ok tc → tc.language = language ∧ tc.compiler =
      if HostFamily.ofLabel? host = some .windows then some (.llvm version) else none)
    {f : Findings} {workspace : Path} {env : Env}
    (h₀ : s.Prepares toolchain t j f (.ok (workspace, env))) : s.Isolated host language t env := by
  cases h₀ with
  | @ready tc t _ _ u _ _ hok h hc =>
    obtain ⟨v, rfl, hv⟩ := h
    obtain ⟨rfl, hcompiler⟩ := htc tc hok
    refine (provision_isolated hcompiler hv).mono ?_
    exact ⟨entry s.signal ++ entry s.signal, u, by simp⟩

theorem buildStep_along {i : Invocation} {env : Env} {r : Except Failure Path}
    (h₀ : (buildStep i env).Runs t j r) :
    Along [commandLaunch i.command i.directory env] t (∃ a, r = .ok a) := by
  rcases buildStep_runs h₀ with ⟨seen, -, rfl, rfl⟩ | ⟨x, rfl, -⟩
  · exact (Along.stuck rfl _).congr (by simp)
  · exact .of_eq rfl

theorem runVerification_along {workspace : Path} {env : Env} {command : List String}
    {r : Except Failure (List String)} (h₀ : (runVerification workspace env command).Runs t j r) :
    Along [commandLaunch command workspace env] t (∃ a, r = .ok a) := by
  obtain ⟨-, ⟨seen, -, rfl, rfl⟩ | ⟨x, rfl, -⟩⟩ := runVerification_runs h₀
  · exact (Along.stuck rfl _).congr (by simp)
  · exact .of_eq rfl

theorem Supplies.of_prepared {toolchain : Except ConfigurationError Toolchain}
    {host version language : String} {work : Env → Launch} {more : List Launch}
    (htc : ∀ tc, toolchain = .ok tc → tc.language = language ∧ tc.compiler =
      if HostFamily.ofLabel? host = some .windows then some (.llvm version) else none)
    {f : Findings} {workspace : Path} {env : Env}
    (h₀ : s.Prepares toolchain t j f (.ok (workspace, env)))
    (hu : u.launches <+: work env :: more) :
    s.Supplies host version language work more (t ++ u) := by
  obtain ⟨fresh, ha⟩ := prepares_along htc h₀
  have ht := ha.complete ⟨_, rfl⟩
  rcases List.prefix_cons_iff.mp hu with hu | ⟨after, hu, hafter⟩
  · have hown : (t ++ u).launches = s.preparing host version language fresh := by
      rw [launches_append, ht, hu, List.append_nil]
    exact .unworked fresh (hown ▸ List.prefix_refl _)
  · refine .worked fresh env after ?_ ((prepares_isolated htc h₀).mono ?_) hafter
    · rw [launches_append, ht, hu]
    · exact (List.prefix_append t u).isInfix

theorem releaseContext_supplies {target : Target} {e : Entry} {o : Outcome}
    (h₀ : (s.releaseContext target e).Runs t o) : s.SuppliesRelease target e t := by
  obtain ⟨j, f, r, hr, -⟩ := runs_finish h₀
  have htc (tc : Toolchain) (h : Toolchain.forRelease e = .ok tc) := forRelease_compiler h
  have publishing {v : Trace} {l : Journal} {r : Except Failure Upload}
      (h : (s.collaborators.adapter.publish s.ambient (s.buildOf e).artifactPath e.artifact
        target).Runs v l r) :
      Along (s.collaborators.adapter.launches s.ambient (s.buildOf e).artifactPath e.artifact
        target) v False :=
    ⟨Adapter.publish_launches h, False.elim⟩
  cases releaseStages_runs hr with
  | unprepared h =>
    obtain ⟨fresh, ha⟩ := prepares_along htc h
    exact .unworked fresh ha.order
  | buildCancelled h => exact .of_prepared htc h List.nil_prefix
  | buildFailed h hb =>
    obtain rfl := prepares_returns h
    exact .of_prepared htc h ((buildStep_along hb).enter.halt _).order
  | @unpublished t j f _ env u k artifact v l stop h hb hp =>
    obtain rfl := prepares_returns h
    obtain ⟨rfl, -⟩ := buildStep_built hb
    have hv := stops_along hp fun _ _ => publishing
    exact .of_prepared htc h ((buildStep_along hb).append ⟨_, rfl⟩ hv).enter.order
  | published h hb hp =>
    obtain rfl := prepares_returns h
    obtain ⟨rfl, -⟩ := buildStep_built hb
    obtain ⟨v, rfl, hv⟩ := hp
    have hpublished := publishing hv
    exact .of_prepared htc h ((buildStep_along hb).append ⟨_, rfl⟩ hpublished.enter).enter.order

theorem mem_preparing {host version language : String} {fresh : Bool} {p : Launch}
    (hp : p ∈ s.preparing host version language fresh) :
    (∃ line, p = CompilerInstaller.launch line s.env) ∨
      p = s.collaborators.language.launch language ∨
      ∃ directory command, p = Checkout.launch directory command := by
  unfold preparing provisioning CompilerInstaller.launches Checkout.launches at hp
  rcases List.mem_append.mp hp with hp | hp
  · rcases List.mem_append.mp hp with hp | hp
    · refine .inl ?_
      split at hp
      · split at hp
        · cases hp
        · split at hp
          · exact ⟨_, List.mem_singleton.mp hp⟩
          · cases hp
      · cases hp
    · exact .inr (.inl (List.mem_singleton.mp hp))
  · obtain ⟨x, -, rfl⟩ := List.mem_map.mp hp
    exact .inr (.inr ⟨x.1, x.2, rfl⟩)

theorem Supplies.mem_cases {host version language : String} {work : Env → Launch}
    {more : List Launch} {own : Trace} (h₀ : s.Supplies host version language work more own)
    {p : Launch} (hp : p ∈ own.launches) :
    (∃ line, p = CompilerInstaller.launch line s.env) ∨
      p = s.collaborators.language.launch language ∨
      (∃ directory command, p = Checkout.launch directory command) ∨
      (∃ env, p = work env ∧ s.Isolated host language own env) ∨ p ∈ more := by
  have prepared {fresh : Bool} (hp : p ∈ s.preparing host version language fresh) :
      (∃ line, p = CompilerInstaller.launch line s.env) ∨
        p = s.collaborators.language.launch language ∨
        (∃ directory command, p = Checkout.launch directory command) ∨
        (∃ env, p = work env ∧ s.Isolated host language own env) ∨ p ∈ more :=
    (mem_preparing hp).imp_right (.imp_right .inl)
  cases h₀ with
  | unworked fresh h => exact prepared (h.subset hp)
  | worked fresh env after h he ha =>
    rw [h, List.mem_append, List.mem_cons] at hp
    rcases hp with hp | rfl | hp
    · exact prepared hp
    · exact .inr (.inr (.inr (.inl ⟨env, rfl, he⟩)))
    · exact .inr (.inr (.inr (.inr (ha.subset hp))))

theorem testContext_supplies {command : List String} {host : String} {o : Outcome}
    (h₀ : (s.testContext command host).Runs t o) : s.SuppliesTest command host t := by
  obtain ⟨j, f, r, hr, -⟩ := runs_finish h₀
  have htc (tc : Toolchain) (h : Toolchain.forTest host = .ok tc) := forTest_compiler h
  cases testStages_runs hr with
  | unprepared h =>
    obtain ⟨fresh, ha⟩ := prepares_along htc h
    exact .unworked fresh ha.order
  | unverified h hv =>
    obtain rfl := prepares_returns h
    refine .of_prepared htc h (stops_along hv fun u e hu => ?_).order
    exact (runVerification_along hu).congr False.elim
  | verified h hv =>
    obtain rfl := prepares_returns h
    obtain ⟨v, rfl, hv⟩ := hv
    exact .of_prepared htc h (runVerification_along hv).enter.order

end Surroundings

theorem Outcome.watch_unstarted {signal : Bool} {os : List Outcome}
    (h : (watch signal os).Runs t ()) : t.launches = [] := by
  refine List.eq_nil_iff_forall_not_mem.mpr fun p hp => ?_
  obtain ⟨x, hx⟩ := mem_launches.mp hp
  cases watch_asks h _ hx

/-- Every process of the trace is one of a context's, and `P` holds of the share of each context
with nothing but its item. -/
def Apart {α : Type} (signal : Bool) (items : List α) (context : α → Program Outcome)
    (P : α → Trace → Prop) (t : Trace) : Prop :=
  ∃ (l : Tagged) (os : List Outcome), l.map Prod.snd = t ∧
    Pool.Interleaves (Outcome.watch signal) (items.map context) l os ∧
    (∀ p x, (none, ⟨.start p, x⟩) ∉ l) ∧
    ∀ (k : Nat) a, items[k]? = some a → P a (l.share k)

theorem fanOut_apart {signal : Bool} {wish : Option Int} {schedule : List Nat} {α : Type}
    {items : List α} {context : α → Program Outcome} {P : α → Trace → Prop}
    (hP : ∀ a t o, (context a).Runs t o → P a t)
    {r : Except Failure (List Report)}
    (h₀ : (fanOut signal wish schedule (items.map context)).Runs t j r) :
    Apart signal items context P t := by
  obtain ⟨l, os, rfl, hi, -, -⟩ := fanOut_runs h₀
  refine ⟨l, os, rfl, hi, fun p x hev => ?_, fun k a hk => ?_⟩
  · obtain ⟨os', u, hu, hmem⟩ := hi.collector _ hev
    have hp := mem_launches.mpr ⟨x, hmem⟩
    rw [Outcome.watch_unstarted hu] at hp
    cases hp
  · obtain ⟨o, -, hr⟩ := hi.each k (context a) (by simp [hk])
    exact hP a _ o hr

namespace Console
open Command
variable {schedule : List Nat} {words : List String} {cwd : Path} {env : Env} {c : Console}
  {invoked : Invoked}

/-- The variables after the tool are those that the environment file has left, and the command, if
it is run, is run with them. -/
def LeavesEnv (command : Command) (cwd : Path) (env : Env) (t : Trace) (c : Console) : Prop :=
  ∃ u v i x, t = u ++ v ∧ (EnvFile.load env (cwd / ".env")).Runs u i (.ok (c.env, x)) ∧
    (v = [] ∨ ∃ y, Ends ⟨cwd, c.env⟩ command v y)

theorem runScheduled_env (hread : Command.read words = .ok invoked)
    (h₀ : (runScheduled schedule words cwd env).Runs t c) :
    LeavesEnv invoked.command cwd env t c := by
  have kept {level : Level} {env' : Env} {notes : List Note} (y : Except Crash Ending) :
      (ended level env' notes y).env = env' := by cases y <;> rfl
  unfold runScheduled at h₀
  rw [hread] at h₀
  obtain ⟨⟨journal, r⟩, rfl, hrun⟩ := Program.runs_map.mp h₀
  have hrun : (runCommand schedule invoked cwd env).Runs t journal r := hrun
  rcases EnvFile.load_only.bind_runs hrun with
    ⟨e, rfl, he, -⟩ | ⟨u, v, i, k, ⟨env', x⟩, rfl, -, hl, h₁⟩
  · cases he
  refine ⟨u, v, i, x, rfl, ?_⟩
  cases x with
  | error e =>
    -- The command is not run.
    cases e <;>
    · obtain ⟨rfl, -, rfl⟩ := Step.runs_pure.mp h₁
      rw [kept]
      exact ⟨hl, .inl rfl⟩
  | ok b =>
    rcases Step.runs_bind.mp h₁ with ⟨e, rfl, h⟩ | ⟨v₁, v₂, k₁, k₂, x, rfl, rfl, h, h₂⟩
    · obtain ⟨x, he, -⟩ := Step.runs_attempt.mp h
      cases he
    · obtain ⟨y, ⟨⟩, h⟩ := Step.runs_attempt.mp h
      cases x <;>
      · obtain ⟨rfl, -, rfl⟩ := Step.runs_pure.mp h₂
        rw [kept, List.append_nil]
        exact ⟨hl, .inr ⟨_, run_ends h⟩⟩

end Console

namespace Surroundings

/-- Contexts do not see each other's variables. In every run, on every schedule and with every base
environment, a build or a verification gets the base environment with the toolchain of its own
context, and on windows with the directory where this context has found clang; all other processes
get the environment from before the run, and the tool leaves its variables as its command found
them. -/
theorem contexts_keep_their_environments (s : Surroundings) (schedule : List Nat) :
    (∀ m target t j r, (s.release schedule m target).Runs t j r →
      Apart s.signal m.entries (s.releaseContext target) (s.SuppliesRelease target) t) ∧
    (∀ hosts command t j r, (s.test schedule hosts command).Runs t j r →
      Apart s.signal hosts (s.testContext command) (s.SuppliesTest command) t) ∧
    ∀ words invoked cwd env t c, Command.read words = .ok invoked →
      (Console.runScheduled schedule words cwd env).Runs t c →
      Console.LeavesEnv invoked.command cwd env t c := by
  refine ⟨fun m target t j r h => ?_, fun hosts command t j r h => ?_, ?_⟩
  · obtain ⟨j', -, h⟩ := Step.runs_note_bind.mp h
    exact fanOut_apart (fun _ _ _ => releaseContext_supplies) h
  · exact fanOut_apart (fun _ _ _ => testContext_supplies) h
  · intro words invoked cwd env t c hread h
    exact Console.runScheduled_env hread h

/-- A dry run with a base environment that has all the variables already, and with clang there. -/
def sharedBase : Surroundings :=
  { dryRun (Path.ofString "/work") true with
    collaborators := ⟨.dryRun, .rustup, ⟨none⟩, .existing⟩
    env := ⟨[("RUSTUP_TOOLCHAIN", "1.40"), ("LIBCLANG_PATH", "/old"), ("PATH", "/usr/bin"),
      ("HOME", "/root")]⟩ }

def sharedMatrix : Matrix :=
  ⟨[⟨"windows-latest", "lib.dll", "build.sh", none⟩, ⟨"ubuntu-latest", "libisar_ios.a", "build.sh",
    none⟩], by decide⟩

def shownIn (t : Trace) (command : List String) (directory : Path) : List (List (Option String)) :=
  t.launches.filterMap fun p =>
    if p.command = .words command ∧ p.directory = some directory then
      p.env.map fun e => ["RUSTUP_TOOLCHAIN", "LIBCLANG_PATH", "PATH", "HOME"].map e.get?
    else none

theorem sharedBase_environments :
    let released := sharedBase.release [1, 0, 1] sharedMatrix ⟨"v1", "", none⟩
    let tested := sharedBase.test [0] ["windows-2022", "macos-14"] verifyCommand
    let words := ["test", "run", "--host", "windows-latest", "--llvm-install-command", ""]
    let tool := Console.runScheduled [0] words (Path.ofString "/work") sharedBase.env
    let build := Path.ofString "/work/dart-ffi"
    (∃ t j r, released.Runs t j r ∧
      Apart true sharedMatrix.entries (sharedBase.releaseContext ⟨"v1", "", none⟩)
        (sharedBase.SuppliesRelease ⟨"v1", "", none⟩) t ∧
      shownIn t ["bash", "tools/build.sh"] build =
        [[some "stable", some "/work/build/llvm/bin", some "/work/build/llvm/bin:/usr/bin",
            some "/root"],
          [some "1.55.0", some "/old", some "/usr/bin", some "/root"]]) ∧
    (∃ t j r, tested.Runs t j r ∧
      Apart true ["windows-2022", "macos-14"] (sharedBase.testContext verifyCommand)
        (sharedBase.SuppliesTest verifyCommand) t ∧
      shownIn t verifyCommand (Path.ofString "/work") =
        [[some "nightly", some "/work/build/llvm/bin", some "/work/build/llvm/bin:/usr/bin",
            some "/root"],
          [some "nightly", some "/old", some "/usr/bin", some "/root"]]) ∧
    ∃ t c command, tool.Runs t c ∧
      Console.LeavesEnv command (Path.ofString "/work") sharedBase.env t c ∧
      c.env = sharedBase.env := by
  intro released tested words tool build
  let answer (r : Request) (_ : Unit) : r.Answer × Unit := (obliging r, ())
  have hreleased := Step.runs_trace answer released ()
  have htested := Step.runs_trace answer tested ()
  have htool := Program.runs_trace answer tool ()
  obtain ⟨i, hi, -⟩ : ∃ i, Command.read words = .ok i ∧ i.level = .warning :=
    exists_of_toOption (by decide +kernel)
  have hall := sharedBase.contexts_keep_their_environments
  refine ⟨⟨_, _, _, hreleased, (hall [1, 0, 1]).1 _ _ _ _ _ hreleased, ?_⟩,
    ⟨_, _, _, htested, (hall [0]).2.1 _ _ _ _ _ htested, ?_⟩,
    _, _, i.command, htool, (hall [0]).2.2 _ i _ _ _ _ hi htool, ?_⟩
  · decide +kernel
  · decide +kernel
  · decide +kernel

end Surroundings
end BindingRelease
