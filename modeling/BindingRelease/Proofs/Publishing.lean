import BindingRelease.Proofs.HostUploads
/-!
The two ways of a release context: it ends before anything is published, or its artifact is built
and found and the adapter uploads it.
-/
namespace BindingRelease
open Context
variable {s : Surroundings} {t u : Trace} {j k : Journal} {f : Findings}

namespace Surroundings

def buildOf (s : Surroundings) (e : Entry) : Invocation :=
  s.invocation e s.settings.workspace

theorem prepares_returns {toolchain : Except ConfigurationError Toolchain}
    {workspace : Path} {env : Env} (h₀ : s.Prepares toolchain t j f (.ok (workspace, env))) :
    workspace = s.settings.workspace := by
  cases h₀ with
  | ready hok hp hc =>
    obtain ⟨v, rfl, hv⟩ := hc
    exact Checkout.acquire_returns hv

theorem prepares_found {toolchain : Except ConfigurationError Toolchain}
    {r : Except Stop (Path × Env)} (h₀ : s.Prepares toolchain t j f r) : f.upload = none := by
  cases h₀ <;> rfl

theorem buildStep_built {i : Invocation} {env : Env} {artifact : Path}
    (h₀ : (buildStep i env).Runs t j (.ok artifact)) :
    artifact = i.artifactPath ∧ ∃ f : Finished, f.code = 0 ∧
      ⟨.start (commandLaunch i.command i.directory env), LaunchResult.finished f⟩ ∈ t := by
  rcases buildStep_runs h₀ with ⟨_, -, -, he⟩ | ⟨x, rfl, hx⟩
  · cases he
  · obtain ⟨f, rfl, hf, rfl⟩ := LaunchResult.outcome_eq_ok.mp hx.symm
    exact ⟨rfl, f, hf, by simp⟩

/-- The trace of a context whose artifact is built and found. -/
inductive Reaches (s : Surroundings) (e : Entry) : Trace → Prop
  | found {t u : Trace} {j k f env}
      (h : s.Prepares (Toolchain.forRelease e) t j f (.ok (s.settings.workspace, env)))
      (hb : (buildStep (s.buildOf e) env).Runs u k (.ok (s.buildOf e).artifactPath)) :
      Reaches s e (t ++ (entry s.signal ++ u) ++
        (entry s.signal ++ [⟨.isFile (s.buildOf e).artifactPath, Except.ok true⟩]))

theorem Reaches.build_succeeded {e : Entry} (h₀ : s.Reaches e t) :
    ∃ env f, ⟨.start (commandLaunch (s.buildOf e).command (s.buildOf e).directory env),
      LaunchResult.finished f⟩ ∈ t ∧ f.code = 0 := by
  cases h₀ with
  | found h hb =>
    obtain ⟨-, f, hf, hm⟩ := buildStep_built hb
    exact ⟨_, f, List.mem_append_left _ (List.mem_append_right _ (List.mem_append_right _ hm)), hf⟩

theorem Reaches.artifact_found {e : Entry} (h₀ : s.Reaches e t) :
    ⟨.isFile (s.buildOf e).artifactPath, Except.ok true⟩ ∈ t := by
  cases h₀ with
  | found => simp

/-- The runs of a context that ends before its artifact is found. -/
inductive EndsEarly (s : Surroundings) (e : Entry) : Trace → Stop → Prop
  | unprepared {t : Trace} {j f stop}
      (h : s.Prepares (Toolchain.forRelease e) t j f (.error stop)) : EndsEarly s e t stop
  | buildCancelled {t : Trace} {j f env}
      (h : s.Prepares (Toolchain.forRelease e) t j f (.ok (s.settings.workspace, env)))
      (hs : s.signal = true) : EndsEarly s e (t ++ refusal) (.cancelled .build)
  | buildFailed {t u : Trace} {j k f env err}
      (h : s.Prepares (Toolchain.forRelease e) t j f (.ok (s.settings.workspace, env)))
      (hb : (buildStep (s.buildOf e) env).Runs u k (.error err)) :
      EndsEarly s e (t ++ (entry s.signal ++ u)) (stopOf .build err)
  | publishCancelled {t u : Trace} {j k f env}
      (h : s.Prepares (Toolchain.forRelease e) t j f (.ok (s.settings.workspace, env)))
      (hb : (buildStep (s.buildOf e) env).Runs u k (.ok (s.buildOf e).artifactPath))
      (hs : s.signal = true) :
      EndsEarly s e (t ++ (entry s.signal ++ u) ++ refusal) (.cancelled .publish)
  | unfound {t u : Trace} {j k f env seen}
      (h : s.Prepares (Toolchain.forRelease e) t j f (.ok (s.settings.workspace, env)))
      (hb : (buildStep (s.buildOf e) env).Runs u k (.ok (s.buildOf e).artifactPath))
      (hs : seen ≠ .ok true) :
      EndsEarly s e (t ++ (entry s.signal ++ u) ++
          (entry s.signal ++ [⟨.isFile (s.buildOf e).artifactPath, seen⟩]))
        (stopOf .publish
          (lacking (.publish (.artifactMissing (s.buildOf e).artifactPath e.artifact)) seen))

def uploadOf (s : Surroundings) (e : Entry) (target : Target) : Step Upload :=
  s.collaborators.adapter.upload s.ambient (s.buildOf e).artifactPath e.artifact target

/-- How a context ends with its upload. -/
inductive EndsWith : Except Failure Upload → Findings → Except Stop Unit → Prop
  | failed {f err} : EndsWith (.error err) f (.error (stopOf .publish err))
  | uploaded {f : Findings} {upload} (hf : f.upload = some upload) :
      EndsWith (.ok upload) f (.ok ())

theorem releases_cases {e : Entry} {target : Target} {r : Except Stop Unit}
    (h₀ : s.Releases e target t j f r) :
    (∃ stop, r = .error stop ∧ s.EndsEarly e t stop) ∨
      ∃ t₁ u k x, t = t₁ ++ u ∧ s.Reaches e t₁ ∧ (s.uploadOf e target).Runs u k x ∧
        EndsWith x f r := by
  cases h₀ with
  | unprepared h => exact .inl ⟨_, rfl, .unprepared h⟩
  | buildCancelled h hs =>
    obtain rfl := prepares_returns h
    exact .inl ⟨_, rfl, .buildCancelled h hs⟩
  | buildFailed h hb =>
    obtain rfl := prepares_returns h
    exact .inl ⟨_, rfl, .buildFailed h hb⟩
  | @unpublished t j f workspace env u k artifact v l stop h hb hp =>
    obtain rfl := prepares_returns h
    obtain ⟨rfl, -⟩ := buildStep_built hb
    have ht : t ++ (entry s.signal ++ (u ++ v)) = t ++ (entry s.signal ++ u) ++ v := by simp
    rw [ht]
    cases hp with
    | cancelled hs => exact .inl ⟨_, rfl, .publishCancelled h hb hs⟩
    | failed hp =>
      rcases Adapter.publish_runs hp with ⟨seen, hs, rfl, he⟩ | ⟨w, l, rfl, hu⟩
      · cases he
        exact .inl ⟨_, rfl, .unfound h hb hs⟩
      · exact .inr ⟨_, w, l, _, by simp [buildOf], .found h hb, hu, .failed⟩
  | @published t j f workspace env u k artifact v l upload h hb hp =>
    obtain rfl := prepares_returns h
    obtain ⟨rfl, -⟩ := buildStep_built hb
    obtain ⟨v, rfl, hp⟩ := hp
    rcases Adapter.publish_runs hp with ⟨_, -, -, he⟩ | ⟨w, l, rfl, hu⟩
    · cases he
    · refine .inr ⟨_, w, l, _, by simp [buildOf], .found h hb, hu, .uploaded ?_⟩
      change f.upload.or (some upload) = some upload
      rw [prepares_found h]
      rfl

end Surroundings
end BindingRelease
