import BindingRelease.Proofs.Calls
import BindingRelease.Simulation.World
/-!
The order of a context's calls. Which processes a context may start, and in which order, is a plan
that depends on its entry and the settings alone, but for the checkout, which clones only what is
not there. Every run makes a first part of the plan, each call in its own stage; what the publisher
asks comes only after a build that ended with zero and a look that found the artifact.
-/
namespace BindingRelease
open Trace Context
variable {t u : Trace} {j : Journal} {n : Nat}

namespace CompilerInstaller

def calls (i : CompilerInstaller) (c : Compiler) (directory : Path) : List Call :=
  match i.template.filter (· ≠ "") with
  | none => []
  | some template =>
    match render template c.version directory with
    | .ok line => [.process (.shell line) none]
    | .error _ => []

end CompilerInstaller

namespace Checkout

def calls (c : Checkout) (workspace : Path) (fresh : Bool) : List Call :=
  (c.commands workspace fresh).map fun x => .process (.words x.2) (some x.1)

end Checkout

/-- How many looks at the signal a context has made when it is in a stage. -/
def Stage.position : Stage → Nat
  | .setup => 1
  | .provision => 2
  | .checkout => 3
  | .build | .test => 4
  | .publish => 5
  | .other _ => 0

namespace Surroundings

/-- The calls of one stage; without a signal there are no looks. -/
def inStage (s : Surroundings) (st : Stage) (cs : List Call) : List (Nat × Call) :=
  stamped (s.signal.toNat * st.position) cs

def provisionCalls (s : Surroundings) (host version language : String) : List Call :=
  (if HostFamily.ofLabel? host = some .windows then
    s.collaborators.compiler.calls (.llvm version) s.settings.resolvedCompilerDir
  else []) ++
  [.process (.words (s.collaborators.language.command language)) none]

def preparationPlan (s : Surroundings) (host version language : String) (fresh : Bool) :
    List (Nat × Call) :=
  s.inStage .provision (s.provisionCalls host version language) ++
    s.inStage .checkout (s.collaborators.checkout.calls s.settings.workspace fresh)

def buildCall (s : Surroundings) (e : Entry) : Call :=
  .process (.words (["bash", "tools/" ++ e.script] ++ (e.argument.filter (· ≠ "")).toList))
    (some (s.settings.workspace / s.settings.bindingDir))

/-- What a release context calls before it publishes. -/
def releasePlan (s : Surroundings) (e : Entry) (fresh : Bool) : List (Nat × Call) :=
  s.preparationPlan e.host Compiler.releaseVersion (Toolchain.languageFor e.artifact) fresh ++
    s.inStage .build [s.buildCall e]

def testPlan (s : Surroundings) (host : String) (command : List String) (fresh : Bool) :
    List (Nat × Call) :=
  s.preparationPlan host Compiler.testVersion "nightly" fresh ++
    s.inStage .test [.process (.words command) (some s.settings.workspace)]

/-- A release context that has called all of its plan, whose build ended with zero, that found the
artifact, and in which now only the publisher calls. -/
structure HandsOver (s : Surroundings) (e : Entry) (target : Target) (fresh : Bool) (t u : Trace) :
    Prop where
  planned : staged 0 t = s.releasePlan e fresh
  own : ∃ k r, (s.uploadOf e target).Runs u k r
  stage : staged 0 (t ++ u) = s.releasePlan e fresh ++ s.inStage .publish (calls u)
  built : ∃ env f, ⟨.start (commandLaunch (s.buildOf e).command (s.buildOf e).directory env),
    LaunchResult.finished f⟩ ∈ t ∧ f.code = 0
  found : ⟨.isFile (s.buildOf e).artifactPath, Except.ok true⟩ ∈ t

/-- What a release context calls and when, up to the end of its trace. -/
structure KeepsOrder (s : Surroundings) (e : Entry) (target : Target) (t : Trace) : Prop where
  gated : t.Gated
  order : ∃ fresh, staged 0 t <+: s.releasePlan e fresh ∨
    ∃ t₁ u, t = t₁ ++ u ∧ s.HandsOver e target fresh t₁ u

end Surroundings

namespace LanguageInstaller

theorem install_keeps {i : LanguageInstaller} {version : String}
    {r : Except Failure (List (String × String))} (h : (i.install version).Runs t j r) :
    Keeps n n (stamped n [.process (.words (i.command version)) none]) t (∃ a, r = .ok a) := by
  obtain ⟨x, rfl, -, rfl⟩ := install_runs h
  exact .process (by rfl) _

end LanguageInstaller

namespace CompilerInstaller

theorem runInstallation_keeps {template : String} {c : Compiler} {directory : Path} {env : Env}
    {r : Except Failure Unit} (h : (runInstallation template c directory env).Runs t j r) :
    Keeps n n (stamped n (match render template c.version directory with
      | .ok line => [.process (.shell line) none]
      | .error _ => [])) t (∃ a, r = .ok a) := by
  rcases runInstallation_runs h with ⟨e, he, rfl, -, rfl⟩ |
    ⟨line, hl, ⟨e, rfl, -, rfl⟩ | ⟨x, rfl, -, rfl⟩⟩
  · exact (Keeps.stuck _).congr (by simp)
  · exact .aside rfl rfl trivial ((Keeps.stuck _).congr (by simp))
  · rw [hl]
    exact .aside rfl rfl trivial (.process (by rfl) _)

theorem install_keeps {i : CompilerInstaller} {c : Compiler} {directory : Path} {env : Env}
    {r : Except Failure (List (String × String))} (h₀ : (i.install c directory env).Runs t j r) :
    Keeps n n (stamped n (i.calls c directory)) t (∃ a, r = .ok a) := by
  unfold calls
  cases install_runs h₀ with
  | failed ht h₁ =>
    rw [ht]
    exact (runInstallation_keeps h₁).congr (by simp)
  | installed ht h₁ hl =>
    rw [ht]
    simpa using (runInstallation_keeps h₁).append ⟨_, rfl⟩ (Keeps.of_surveys hl.surveys)
  | present ht hl =>
    rw [ht]
    exact Keeps.of_surveys hl.surveys

end CompilerInstaller

namespace Checkout

theorem runIn_keeps {directory : Path} {command : List String} {r : Except Failure Unit}
    (h₀ : (runIn directory command).Runs t j r) :
    Keeps n n (stamped n [.process (.words command) (some directory)]) t (∃ a, r = .ok a) := by
  rcases runIn_runs h₀ with ⟨e, rfl, -, rfl⟩ | ⟨x, rfl, -, rfl⟩
  · exact .aside rfl rfl trivial ((Keeps.stuck _).congr (by simp))
  · exact .aside rfl rfl trivial (.process (by rfl) _)

theorem executes_keeps {cs : List (Path × List String)} {r : Except Failure Unit}
    (h₀ : Executes cs t r) :
    Keeps n n (stamped n (cs.map fun x => .process (.words x.2) (some x.1))) t
      (∃ a, r = .ok a) := by
  induction h₀ with
  | done => exact .nil
  | failed h => exact ((runIn_keeps h).halt _ _).congr (by simp)
  | next h _ ih => exact (runIn_keeps h).append ⟨_, rfl⟩ ih

theorem acquire_keeps {c : Checkout} {workspace : Path} {r : Except Failure Path}
    (h₀ : (c.acquire workspace).Runs t j r) :
    ∃ fresh, Keeps n n (stamped n (c.calls workspace fresh)) t (∃ a, r = .ok a) := by
  have unserved {looked : Trace} {e : Failure} (hlooked : ∀ ev ∈ looked, ev.1.surveys) :
      Keeps n n (stamped n (c.calls workspace false)) looked
        (∃ a, (.error e : Except Failure Path) = .ok a) := by
    have hk : Keeps n n [] looked True := .of_looks hlooked
    exact (hk.halt _ _).congr (by simp)
  cases acquire_runs h₀ with
  | unseen ht hev =>
    exact ⟨false, unserved (List.forall_mem_append.mpr
      ⟨fun ev h => (ht ev h).1, List.forall_mem_singleton.mpr hev⟩)⟩
  | missing ht => exact ⟨false, unserved fun ev h => (ht ev h).1⟩
  | executed fresh ht hf hs =>
    exact ⟨fresh, (Keeps.of_surveys ht).append trivial
      ((executes_keeps hs).congr exists_ok_of_map)⟩

end Checkout

namespace Surroundings
variable {s : Surroundings}

theorem buildStep_keeps {i : Invocation} {env : Env} {r : Except Failure Path}
    (h₀ : (buildStep i env).Runs t j r) :
    Keeps n n (stamped n [.process (.words i.command) (some i.directory)]) t
      (∃ a, r = .ok a) := by
  rcases buildStep_runs h₀ with ⟨seen, -, rfl, rfl⟩ | ⟨x, rfl, rfl⟩
  · exact .aside rfl rfl trivial ((Keeps.stuck _).congr (by simp))
  · exact .aside rfl rfl trivial (.process (by rfl) _)

theorem runVerification_keeps {workspace : Path} {env : Env} {command : List String}
    {r : Except Failure (List String)} (h₀ : (runVerification workspace env command).Runs t j r) :
    Keeps n n (stamped n [.process (.words command) (some workspace)]) t (∃ a, r = .ok a) := by
  obtain ⟨-, ⟨seen, -, rfl, rfl⟩ | ⟨x, rfl, rfl⟩⟩ := runVerification_runs h₀
  · exact .aside rfl rfl trivial ((Keeps.stuck _).congr (by simp))
  · exact .aside rfl rfl trivial (.process (by rfl) _)

theorem forHost_compiler {host version : String} {c : Option Compiler}
    (h : Compiler.forHost host version = .ok c) :
    c = if HostFamily.ofLabel? host = some .windows then some (.llvm version) else none := by
  unfold Compiler.forHost HostFamily.ofLabel at h
  cases hf : HostFamily.ofLabel? host with
  | none =>
    rw [hf] at h
    cases h
  | some f =>
    rw [hf] at h
    cases h
    cases f <;> rfl

theorem provision_keeps {tc : Toolchain} {host version : String}
    (hc : tc.compiler =
      if HostFamily.ofLabel? host = some .windows then some (.llvm version) else none)
    {r : Except Failure Env} (h₀ : (s.provision tc).Runs t j r) :
    Keeps n n (stamped n (s.provisionCalls host version tc.language)) t (∃ a, r = .ok a) := by
  unfold provisionCalls
  rw [stamped_append]
  by_cases hw : HostFamily.ofLabel? host = some .windows
  · rw [if_pos hw] at hc ⊢
    cases provision_runs h₀ with
    | plain hn =>
      rw [hc] at hn
      cases hn
    | uncompiled hs hi =>
      rw [hc] at hs
      cases hs
      exact ((CompilerInstaller.install_keeps hi).halt _ _).congr (by simp)
    | compiled hs hi hl =>
      rw [hc] at hs
      cases hs
      exact (CompilerInstaller.install_keeps hi).append ⟨_, rfl⟩
        ((LanguageInstaller.install_keeps hl).congr exists_ok_of_map)
  · rw [if_neg hw] at hc ⊢
    cases provision_runs h₀ with
    | plain hn hl => exact (LanguageInstaller.install_keeps hl).congr exists_ok_of_map
    | uncompiled hs hi =>
      rw [hc] at hs
      cases hs
    | compiled hs hi hl =>
      rw [hc] at hs
      cases hs

theorem forRelease_compiler {e : Entry} {tc : Toolchain} (h : Toolchain.forRelease e = .ok tc) :
    tc.language = Toolchain.languageFor e.artifact ∧ tc.compiler =
      if HostFamily.ofLabel? e.host = some .windows then some (.llvm Compiler.releaseVersion)
      else none := by
  unfold Toolchain.forRelease at h
  cases hf : Compiler.forHost e.host Compiler.releaseVersion with
  | error _ =>
    rw [hf] at h
    cases h
  | ok c =>
    rw [hf] at h
    cases h
    exact ⟨rfl, forHost_compiler hf⟩

theorem forTest_compiler {host : String} {tc : Toolchain} (h : Toolchain.forTest host = .ok tc) :
    tc.language = "nightly" ∧ tc.compiler =
      if HostFamily.ofLabel? host = some .windows then some (.llvm Compiler.testVersion)
      else none := by
  unfold Toolchain.forTest at h
  cases hf : Compiler.forHost host Compiler.testVersion with
  | error _ =>
    rw [hf] at h
    cases h
  | ok c =>
    rw [hf] at h
    cases h
    exact ⟨rfl, forHost_compiler hf⟩

theorem stops_keeps {α : Type} {st : Stage} {step : Step α} {stop : Stop} {m : Nat}
    {plan : List (Nat × Call)} (h : Stops s.signal st step t j stop)
    (hk : ∀ u e, step.Runs u j (.error e) → Keeps (n + s.signal.toNat) m plan u False) :
    Keeps n m plan t False := by
  cases h with
  | cancelled => exact .refusal _
  | failed h => exact (hk _ _ h).enter

theorem passes_keeps {α : Type} {step : Step α} {a : α} {m : Nat} {plan : List (Nat × Call)}
    (h : Passes s.signal step t j a)
    (hk : ∀ u, step.Runs u j (.ok a) → Keeps (n + s.signal.toNat) m plan u True) :
    Keeps n m plan t True := by
  obtain ⟨u, rfl, h⟩ := h
  exact (hk u h).enter

theorem setup_keeps (s : Surroundings) :
    Keeps 0 (s.signal.toNat * Stage.position .setup) [] (entry s.signal) True := by
  have h : Keeps 0 (s.signal.toNat * Stage.position .setup) [] (entry s.signal ++ []) True :=
    Keeps.nil.enter
  rwa [List.append_nil] at h

theorem prepares_keeps {toolchain : Except ConfigurationError Toolchain}
    {host version language : String}
    (htc : ∀ tc, toolchain = .ok tc → tc.language = language ∧ tc.compiler =
      if HostFamily.ofLabel? host = some .windows then some (.llvm version) else none)
    {f : Findings} {r : Except Stop (Path × Env)} (h₀ : s.Prepares toolchain t j f r) :
    ∃ fresh, Keeps 0 (s.signal.toNat * Stage.position .checkout)
      (s.preparationPlan host version language fresh) t (∃ a, r = .ok a) := by
  have provided {tc : Toolchain} {t : Trace} {j : Journal} {env : Env} (hok : toolchain = .ok tc)
      (hp : Passes s.signal (s.provision tc) t j env) :
      Keeps 0 (s.signal.toNat * Stage.position .provision)
        (s.inStage .provision (s.provisionCalls host version language)) (entry s.signal ++ t)
        True := by
    obtain ⟨rfl, hc⟩ := htc tc hok
    have hk : Keeps (s.signal.toNat * Stage.position .setup)
        (s.signal.toNat * Stage.position .provision)
        (s.inStage .provision (s.provisionCalls host version tc.language)) t True := by
      refine passes_keeps hp fun u hu => ?_
      have hu := provision_keeps (n := s.signal.toNat * Stage.position .provision) hc hu
      exact hu.congr fun _ => ⟨_, rfl⟩
    have hall := s.setup_keeps.append trivial hk
    rwa [List.nil_append] at hall
  cases h₀ with
  | setup h =>
    refine ⟨false, (stops_keeps h ?_).congr (by simp)⟩
    intro u e hu
    cases htc : toolchain with
    | error _ =>
      rw [htc] at hu
      obtain ⟨rfl, -, -⟩ := Step.runs_fail.mp hu
      exact .stuck _
    | ok _ =>
      rw [htc] at hu
      obtain ⟨-, -, he⟩ := Step.runs_pure.mp hu
      cases he
  | @provision tc t j stop hok h =>
    obtain ⟨rfl, hc⟩ := htc tc hok
    have hk : Keeps (s.signal.toNat * Stage.position .setup)
        (s.signal.toNat * Stage.position .checkout)
        (s.preparationPlan host version tc.language false) t False := by
      refine stops_keeps h fun u e hu => ?_
      have hu := provision_keeps (n := s.signal.toNat * Stage.position .provision) hc hu
      exact hu.halt _ _
    have hall := s.setup_keeps.append trivial hk
    rw [List.nil_append] at hall
    exact ⟨false, hall.congr (by simp)⟩
  | @checkout tc t j env u k stop hok hp h =>
    rw [← List.append_assoc]
    cases h with
    | cancelled => exact ⟨false, ((provided hok hp).cancelled trivial _ _).congr (by simp)⟩
    | failed h =>
      obtain ⟨fresh, hf⟩ := Checkout.acquire_keeps h
      exact ⟨fresh, ((provided hok hp).append trivial hf.enter).congr (by simp)⟩
  | @ready tc t j env u k workspace hok hp hc =>
    rw [← List.append_assoc]
    obtain ⟨v, rfl, hv⟩ := hc
    obtain ⟨fresh, hf⟩ := Checkout.acquire_keeps hv
    refine ⟨fresh, ((provided hok hp).append trivial hf.enter).congr fun _ => ⟨_, rfl⟩⟩

theorem isLook_of_requests {ev : Event} (h : ReleaseHost.requests ev.1) : isLook ev = false := by
  obtain ⟨q, x⟩ := ev
  cases q <;> first | rfl | cases h

theorem clear_of_requests {ev : Event} (h : ReleaseHost.requests ev.1) : Clear ev := by
  obtain ⟨q, x⟩ := ev
  cases q <;> trivial

theorem upload_keeps {a : Adapter} {ambient : Env} {file : Path} {asset : String} {target : Target}
    {r : Except Failure Upload} (h₀ : (a.upload ambient file asset target).Runs t j r) :
    looks t = 0 ∧ Keeps n n (stamped n (calls t)) t (∃ a, r = .ok a) := by
  cases a with
  | dryRun =>
    obtain ⟨j₁, rfl, h₁⟩ := Step.runs_log_bind.mp h₀
    obtain ⟨rfl, -, -⟩ := Step.runs_pure.mp h₁
    exact ⟨rfl, .nil⟩
  | tool tool =>
    obtain ⟨x, rfl, rfl⟩ := HostTool.upload_runs h₀
    exact ⟨rfl, .process (by rfl) _⟩
  | host h =>
    have hreq := (ReleaseHost.upload_runs h₀).requests
    have hl : looks t = 0 :=
      List.countP_eq_zero.mpr fun ev hev => by simp [isLook_of_requests (hreq ev hev)]
    exact ⟨hl, .of_clear hl fun ev hev => clear_of_requests (hreq ev hev)⟩

theorem preparation_keeps {e : Entry} {f : Findings} {r : Except Stop (Path × Env)}
    (h₀ : s.Prepares (Toolchain.forRelease e) t j f r) :
    ∃ fresh, Keeps 0 (s.signal.toNat * Stage.position .checkout)
      (s.preparationPlan e.host Compiler.releaseVersion (Toolchain.languageFor e.artifact) fresh)
      t (∃ a, r = .ok a) :=
  prepares_keeps (fun _ => forRelease_compiler) h₀

theorem building_keeps {e : Entry} {f : Findings} {env : Env} {k : Journal}
    {r : Except Failure Path}
    (h : s.Prepares (Toolchain.forRelease e) t j f (.ok (s.settings.workspace, env)))
    (hb : (buildStep (s.buildOf e) env).Runs u k r) :
    ∃ fresh, Keeps 0 (s.signal.toNat * Stage.position .build) (s.releasePlan e fresh)
      (t ++ (entry s.signal ++ u)) (∃ a, r = .ok a) := by
  obtain ⟨fresh, hk⟩ := preparation_keeps h
  exact ⟨fresh, hk.append ⟨_, rfl⟩ (buildStep_keeps hb).enter⟩

theorem endsEarly_keeps {e : Entry} {stop : Stop} (h₀ : s.EndsEarly e t stop) :
    ∃ fresh, Keeps 0 0 (s.releasePlan e fresh) t False := by
  cases h₀ with
  | unprepared h =>
    obtain ⟨fresh, hk⟩ := preparation_keeps h
    exact ⟨fresh, hk.halt _ 0⟩
  | buildCancelled h =>
    obtain ⟨fresh, hk⟩ := preparation_keeps h
    exact ⟨fresh, hk.cancelled ⟨_, rfl⟩ _ 0⟩
  | buildFailed h hb =>
    obtain ⟨fresh, hk⟩ := building_keeps h hb
    exact ⟨fresh, hk.unfinished 0⟩
  | publishCancelled h hb =>
    obtain ⟨fresh, hk⟩ := building_keeps h hb
    have hk := hk.cancelled ⟨_, rfl⟩ [] 0
    rw [List.append_nil] at hk
    exact ⟨fresh, hk⟩
  | @unfound _ _ _ _ _ _ seen h hb =>
    obtain ⟨fresh, hk⟩ := building_keeps h hb
    have hf : Keeps (s.signal.toNat * Stage.position .build) 0 []
        (entry s.signal ++ [⟨.isFile (s.buildOf e).artifactPath, seen⟩]) False :=
      Keeps.enter (.aside rfl rfl trivial (.stuck _))
    have hk := hk.append ⟨_, rfl⟩ hf
    rw [List.append_nil] at hk
    exact ⟨fresh, hk⟩

theorem reaches_keeps {e : Entry} (h₀ : s.Reaches e t) :
    ∃ fresh, Keeps 0 (s.signal.toNat * Stage.position .publish) (s.releasePlan e fresh) t True := by
  cases h₀ with
  | found h hb =>
    obtain ⟨fresh, hk⟩ := building_keeps h hb
    have hf : Keeps (s.signal.toNat * Stage.position .build)
        (s.signal.toNat * Stage.position .publish) []
        (entry s.signal ++ [⟨.isFile (s.buildOf e).artifactPath, Except.ok true⟩]) True :=
      Keeps.enter (.aside rfl rfl trivial .nil)
    have hk := hk.append ⟨_, rfl⟩ hf
    rw [List.append_nil] at hk
    exact ⟨fresh, hk⟩

theorem provisionCalls_processes (host version language : String) :
    ∀ c ∈ s.provisionCalls host version language, c.isProcess := by
  intro c hc
  cases List.mem_append.mp hc with
  | inl h =>
    split at h
    · unfold CompilerInstaller.calls at h
      split at h
      · cases h
      · split at h
        · cases List.mem_singleton.mp h
          rfl
        · cases h
    · cases h
  | inr h =>
    cases List.mem_singleton.mp h
    rfl

theorem releasePlan_processes (e : Entry) (fresh : Bool) :
    ∀ x ∈ s.releasePlan e fresh, x.2.isProcess := by
  intro x hx
  cases List.mem_append.mp hx with
  | inl h =>
    rcases List.mem_append.mp h with h | h
    · exact provisionCalls_processes _ _ _ _ (snd_mem_of_mem_stamped h)
    · obtain ⟨y, -, hy⟩ := List.mem_map.mp (snd_mem_of_mem_stamped h)
      rw [← hy]
      rfl
  | inr h =>
    rw [List.mem_singleton.mp (snd_mem_of_mem_stamped h)]
    rfl

theorem endsEarly_unsent {e : Entry} {stop : Stop} (h₀ : s.EndsEarly e t stop) :
    ∀ ev ∈ t, ∀ q, ev.1 ≠ .send q := by
  obtain ⟨fresh, hk⟩ := endsEarly_keeps h₀
  exact hk.unsent (releasePlan_processes e fresh)

theorem reaches_unsent {e : Entry} (h₀ : s.Reaches e t) : ∀ ev ∈ t, ∀ q, ev.1 ≠ .send q := by
  obtain ⟨fresh, hk⟩ := reaches_keeps h₀
  exact hk.unsent (releasePlan_processes e fresh)

theorem releases_order {e : Entry} {target : Target} {f : Findings} {r : Except Stop Unit}
    (h₀ : s.Releases e target t j f r) : s.KeepsOrder e target t := by
  rcases releases_cases h₀ with ⟨stop, -, h⟩ | ⟨t₁, u, k, x, rfl, h, hu, -⟩
  · obtain ⟨fresh, hk⟩ := endsEarly_keeps h
    exact ⟨hk.gated, fresh, .inl hk.order⟩
  · obtain ⟨fresh, hk⟩ := reaches_keeps h
    obtain ⟨hl, hown⟩ := upload_keeps hu
    obtain ⟨hplan, hm, -⟩ := hk.complete trivial
    refine ⟨(hk.append trivial hown).gated, fresh, .inr ⟨t₁, u, rfl, hplan, ⟨k, x, hu⟩, ?_,
      h.build_succeeded, h.artifact_found⟩⟩
    rw [staged_append, hplan, hm, staged_eq_of_looks hl]
    rfl

theorem tests_order {host : String} {command : List String} {f : Findings}
    {r : Except Stop Unit} (h₀ : s.Tests host command t j f r) :
    t.Gated ∧ ∃ fresh, staged 0 t <+: s.testPlan host command fresh := by
  have preparation {t : Trace} {j : Journal} {f : Findings} {r : Except Stop (Path × Env)}
      (h : s.Prepares (Toolchain.forTest host) t j f r) :=
    prepares_keeps (fun tc => forTest_compiler) h
  cases h₀ with
  | unprepared h =>
    obtain ⟨fresh, hk⟩ := preparation h
    have hk := hk.halt (s.inStage .test [.process (.words command) (some s.settings.workspace)]) 0
    exact ⟨hk.gated, fresh, hk.order⟩
  | unverified h hv =>
    obtain ⟨fresh, hk⟩ := preparation h
    obtain rfl := prepares_returns h
    have hk := hk.append ⟨_, rfl⟩
      (stops_keeps hv fun u e hu => (runVerification_keeps hu).congr False.elim)
    exact ⟨hk.gated, fresh, hk.order⟩
  | verified h hv =>
    obtain ⟨fresh, hk⟩ := preparation h
    obtain rfl := prepares_returns h
    have hk := hk.append ⟨_, rfl⟩
      (passes_keeps hv fun u hu => (runVerification_keeps hu).congr fun _ => ⟨_, rfl⟩)
    exact ⟨hk.gated, fresh, hk.order⟩

/-- Whatever is answered, and whenever the run is cancelled: a context makes the calls of its plan
in order and in their stages, none after a process that failed or a look that found the run
cancelled, and only a release context whose build ended with zero and whose artifact is there
lets its publisher ask for anything. -/
theorem contexts_keep_order (s : Surroundings) :
    (∀ target e t o, (s.releaseContext target e).Runs t o → s.KeepsOrder e target t) ∧
    ∀ command host t o, (s.testContext command host).Runs t o →
      t.Gated ∧ ∃ fresh, staged 0 t <+: s.testPlan host command fresh := by
  constructor
  · intro target e t o h
    obtain ⟨j, f, r, h, -⟩ := runs_finish h
    exact releases_order (releaseStages_runs h)
  · intro command host t o h
    obtain ⟨j, f, r, h, -⟩ := runs_finish h
    exact tests_order (testStages_runs h)

open Simulation in
theorem dryRun_keeps_order :
    let s := dryRun (Path.ofString "/work") true
    let e : Entry := ⟨"ubuntu-latest", "lib.so", "build.sh", none⟩
    let target : Target := ⟨"v1", "", none⟩
    let w : World := ⟨Path.ofString "/work", "", FileTree.empty.put ["work", "dart-ffi", "lib.so"]
      (.file [] false), [], [], false, [], []⟩
    s.KeepsOrder e target ((s.releaseContext target e).trace World.answer w) ∧
    Gated ((s.testContext verifyCommand "windows-2022").trace World.answer w) ∧
    ∃ fresh, staged 0 ((s.testContext verifyCommand "windows-2022").trace World.answer w) <+:
      s.testPlan "windows-2022" verifyCommand fresh := by
  intro s e target w
  exact ⟨s.contexts_keep_order.1 target e _ _ (Program.runs_trace _ _ w),
    s.contexts_keep_order.2 verifyCommand "windows-2022" _ _ (Program.runs_trace _ _ w)⟩

end Surroundings
end BindingRelease
