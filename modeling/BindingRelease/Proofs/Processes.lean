import BindingRelease.Proofs.Checkouts
import BindingRelease.Proofs.Installers
/-!
The runs of the other steps that start processes: the build, the verification, the provisioning and
the upload with the host's tool. Trace and outcome are given in full.
-/
namespace BindingRelease
open Trace
open Step hiding pure bind
variable {α : Type} {t : Trace} {j : Journal}

def commandLaunch (command : List String) (directory : Path) (env : Env) : Launch :=
  ⟨.words command, some directory, some env⟩

theorem runCommand_started {wrap : CommandError → ReleaseError} {command : List String}
    {directory : Path} {env : Env} {r : Except Failure Finished}
    (h₀ : (runCommand wrap command directory env).Runs t j r) :
    j = .empty ∧
      ((∃ seen, seen ≠ .ok true ∧ t = [⟨.isDirectory directory, seen⟩] ∧
          r = .error (lacking (wrap (.directoryMissing directory)) seen)) ∨
        ∃ x, t = [⟨.isDirectory directory, Except.ok true⟩,
            ⟨.start (commandLaunch command directory env), x⟩] ∧
          ((∃ f, x = .finished f ∧ r = .ok f) ∨
            (∃ reason, x = .notStarted reason ∧
              r = .error (.release (wrap (.notStarted (command.headD "") reason)))) ∨
            ∃ c, x = .broken c ∧ r = .error (.crash c))) := by
  rcases runs_isDirectory_bind h₀ with ⟨c, rfl, rfl, rfl⟩ | ⟨b, t', rfl, h₁⟩
  · exact ⟨rfl, .inl ⟨.error c, nofun, rfl, rfl⟩⟩
  cases b with
  | false =>
    obtain ⟨rfl, rfl, rfl⟩ := runs_fail.mp h₁
    exact ⟨rfl, .inl ⟨.ok false, nofun, rfl, rfl⟩⟩
  | true =>
    obtain ⟨rfl, ⟨f, rfl, rfl⟩ | ⟨reason, rfl, rfl⟩ | ⟨c, rfl, rfl⟩⟩ := runs_start h₁
    · exact ⟨rfl, .inr ⟨_, rfl, .inl ⟨f, rfl, rfl⟩⟩⟩
    · exact ⟨rfl, .inr ⟨_, rfl, .inr (.inl ⟨reason, rfl, rfl⟩)⟩⟩
    · exact ⟨rfl, .inr ⟨_, rfl, .inr (.inr ⟨c, rfl, rfl⟩)⟩⟩

theorem runCommand_runs {wrap : CommandError → ReleaseError} {command : List String}
    {directory : Path} {env : Env} {refuse : Finished → Failure} {accept : Finished → α}
    {r : Except Failure α}
    (h₀ : (do
      let f ← runCommand wrap command directory env
      if f.code ≠ 0 then fail (refuse f) else Pure.pure (accept f) : Step α).Runs t j r) :
    j = .empty ∧
      ((∃ seen, seen ≠ .ok true ∧ t = [⟨.isDirectory directory, seen⟩] ∧
          r = .error (lacking (wrap (.directoryMissing directory)) seen)) ∨
        ∃ x, t = [⟨.isDirectory directory, Except.ok true⟩,
            ⟨.start (commandLaunch command directory env), x⟩] ∧
          r = x.outcome accept refuse
            (fun reason => .release (wrap (.notStarted (command.headD "") reason)))) := by
  rcases runs_bind.mp h₀ with ⟨e, rfl, h₁⟩ | ⟨t₁, t₂, j₁, j₂, f, rfl, rfl, h₁, h₂⟩
  · obtain ⟨rfl, ⟨seen, hs, rfl, he⟩ | ⟨x, rfl, hx⟩⟩ := runCommand_started h₁
    · cases he
      exact ⟨rfl, .inl ⟨seen, hs, rfl, rfl⟩⟩
    refine ⟨rfl, .inr ⟨x, rfl, ?_⟩⟩
    rcases hx with ⟨f, -, he⟩ | ⟨reason, rfl, he⟩ | ⟨c, rfl, he⟩
    · cases he
    · cases he
      rfl
    · cases he
      rfl
  · obtain ⟨rfl, ⟨_, -, -, he⟩ | ⟨x, rfl, hx⟩⟩ := runCommand_started h₁
    · cases he
    obtain rfl : x = .finished f := by
      rcases hx with ⟨g, rfl, he⟩ | ⟨_, -, he⟩ | ⟨_, -, he⟩ <;> cases he
      rfl
    by_cases hz : f.code = 0
    · rw [if_neg (by simpa using hz)] at h₂
      obtain ⟨rfl, rfl, rfl⟩ := runs_pure.mp h₂
      exact ⟨rfl, .inr ⟨.finished f, rfl, by simp [LaunchResult.outcome, hz]⟩⟩
    · rw [if_pos (by simpa using hz)] at h₂
      obtain ⟨rfl, rfl, rfl⟩ := runs_fail.mp h₂
      exact ⟨rfl, .inr ⟨.finished f, rfl, by simp [LaunchResult.outcome, hz]⟩⟩

namespace Surroundings

theorem buildStep_runs {i : Invocation} {env : Env} {r : Except Failure Path}
    (h₀ : (buildStep i env).Runs t j r) :
    (∃ seen, seen ≠ .ok true ∧ t = [⟨.isDirectory i.directory, seen⟩] ∧
        r = .error (lacking (.build (.directoryMissing i.directory)) seen)) ∨
      ∃ x, t = [⟨.isDirectory i.directory, Except.ok true⟩,
          ⟨.start (commandLaunch i.command i.directory env), x⟩] ∧
        r = x.outcome (fun _ => i.artifactPath)
          (fun f => .release (.build (.exited ("Build script " ++ i.script) f.code
            f.combinedOutput)))
          (fun reason => .release (.build (.notStarted (i.command.headD "") reason))) := by
  rcases runs_bind.mp h₀ with ⟨e, rfl, h₁⟩ | ⟨t₁, t₂, j₁, j₂, o, rfl, rfl, h₁, h₂⟩
  · obtain ⟨j', rfl, h₂⟩ := runs_note_bind.mp h₁
    obtain ⟨rfl, ⟨seen, hs, rfl, he⟩ | ⟨x, rfl, hx⟩⟩ := runCommand_runs h₂
    · cases he
      exact .inl ⟨seen, hs, rfl, rfl⟩
    · refine .inr ⟨x, rfl, ?_⟩
      cases x with
      | finished f =>
        by_cases hf : f.code = 0
        · simp [LaunchResult.outcome, hf] at hx
        · simpa [LaunchResult.outcome, hf] using hx
      | notStarted reason => simpa [LaunchResult.outcome] using hx
      | broken c => simpa [LaunchResult.outcome] using hx
  · obtain ⟨j', rfl, h₃⟩ := runs_note_bind.mp h₁
    obtain ⟨j'', rfl, h₄⟩ := runs_logAll_bind.mp h₂
    obtain ⟨rfl, rfl, rfl⟩ := runs_pure.mp h₄
    obtain ⟨rfl, ⟨_, -, -, he⟩ | ⟨x, rfl, hx⟩⟩ := runCommand_runs h₃
    · cases he
    · obtain ⟨f, rfl, hf, rfl⟩ := LaunchResult.outcome_eq_ok.mp hx.symm
      exact .inr ⟨.finished f, rfl, by simp [LaunchResult.outcome, hf]⟩

end Surroundings

theorem runVerification_runs {workspace : Path} {env : Env} {command : List String}
    {r : Except Failure (List String)} (h₀ : (runVerification workspace env command).Runs t j r) :
    j = .empty ∧
      ((∃ seen, seen ≠ .ok true ∧ t = [⟨.isDirectory workspace, seen⟩] ∧
          r = .error (lacking (.verification (.directoryMissing workspace)) seen)) ∨
        ∃ x, t = [⟨.isDirectory workspace, Except.ok true⟩,
            ⟨.start (commandLaunch command workspace env), x⟩] ∧
          r = x.outcome (fun f => commandLogs command workspace f.combinedOutput)
            (fun f => .release (.verification
              (.exited ("Verification command '" ++ " ".intercalate command ++ "'") f.code
                f.combinedOutput)))
            (fun reason => .release (.verification (.notStarted (command.headD "") reason)))) :=
  runCommand_runs h₀

namespace Surroundings

/-- The runs of the provisioning: the compiler, where one is needed, and then the language. -/
inductive Provisions (s : Surroundings) (tc : Toolchain) : Trace → Except Failure Env → Prop
  | plain {t : Trace} {j r} (hc : tc.compiler = none)
      (hl : (s.collaborators.language.install tc.language).Runs t j r) :
      Provisions s tc t (r.map s.env.update)
  | uncompiled {t : Trace} {j c e} (hc : tc.compiler = some c)
      (hi : (s.collaborators.compiler.install c s.settings.resolvedCompilerDir s.env).Runs t j
        (.error e)) :
      Provisions s tc t (.error e)
  | compiled {t u : Trace} {j k c vars r} (hc : tc.compiler = some c)
      (hi : (s.collaborators.compiler.install c s.settings.resolvedCompilerDir s.env).Runs t j
        (.ok vars))
      (hl : (s.collaborators.language.install tc.language).Runs u k r) :
      Provisions s tc (t ++ u) (r.map (s.env.update vars).update)

theorem language_bind_runs {i : LanguageInstaller} {version : String} {env : Env}
    {r : Except Failure Env}
    (h₀ : (i.install version >>= fun vars => Pure.pure (env.update vars)).Runs t j r) :
    ∃ r', r = r'.map env.update ∧ (i.install version).Runs t j r' := by
  rcases runs_bind.mp h₀ with ⟨e, rfl, h₁⟩ | ⟨t₁, t₂, j₁, j₂, vars, rfl, rfl, h₁, h₂⟩
  · exact ⟨_, rfl, h₁⟩
  · obtain ⟨rfl, rfl, rfl⟩ := runs_pure.mp h₂
    exact ⟨.ok vars, rfl, by simpa using h₁⟩

theorem provision_runs {s : Surroundings} {tc : Toolchain} {r : Except Failure Env}
    (h₀ : (s.provision tc).Runs t j r) : s.Provisions tc t r := by
  unfold provision at h₀
  cases hc : tc.compiler with
  | none =>
    rw [hc] at h₀
    obtain ⟨r', rfl, h₁⟩ := language_bind_runs (runs_pure_bind.mp h₀)
    exact .plain hc h₁
  | some c =>
    rw [hc] at h₀
    rcases runs_bind.mp h₀ with ⟨e, rfl, h₁⟩ | ⟨t₁, t₂, j₁, j₂, vars, rfl, rfl, h₁, h₂⟩
    · exact .uncompiled hc h₁
    · obtain ⟨r', rfl, h₃⟩ := language_bind_runs (runs_pure_bind.mp h₂)
      exact .compiled hc h₁ h₃

end Surroundings

namespace HostTool

def launch (tool : HostTool) (ambient : Env) (file : Path) (asset : String) (target : Target) :
    Launch :=
  ⟨.words (tool.command target.tag file asset), none,
    some (ambient.set "GH_TOKEN" target.token)⟩

theorem upload_runs {tool : HostTool} {ambient : Env} {file : Path} {asset : String}
    {target : Target} {r : Except Failure Upload}
    (h₀ : (tool.upload ambient file asset target).Runs t j r) :
    ∃ x, t = [⟨.start (tool.launch ambient file asset target), x⟩] ∧
      r = x.outcome
        (fun _ => ⟨file, asset, target.tag, "gh", Upload.succeeded, tool.page target.tag⟩)
        (fun f => .release (.publish (.toolFailed f.code asset)))
        (fun reason => .release (.publish (.toolNotStarted tool.program reason))) := by
  obtain ⟨j₁, rfl, h₁⟩ := runs_log_bind.mp h₀
  obtain ⟨x, rfl, -, hr⟩ := runs_checked h₁
  exact ⟨x, rfl, hr⟩

end HostTool
end BindingRelease
