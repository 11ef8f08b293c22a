import BindingRelease.Pipeline
import BindingRelease.Proofs.Trace
/-!
Stages along a trace. A stage asks for the signal, if there is one, and then goes through the
requests of its step; a context is a prefix of its stages, of which only the last may stop it. The
main statements list every way in which a release context and a test context can run.
-/
namespace BindingRelease
variable {α β : Type}

namespace Context
variable {t : Trace} {j : Journal} {f : Findings}

/-- The context asks the requests of the trace, writes the journal, finds the findings and ends
with the outcome. -/
def Runs (c : Context α) (t : Trace) (j : Journal) (f : Findings) (r : Except Stop α) : Prop :=
  c.run.Runs t (j, f, r)

theorem runs_pure {a : α} {r : Except Stop α} :
    (Pure.pure a : Context α).Runs t j f r ↔ t = [] ∧ j = .empty ∧ f = .none ∧ r = .ok a := by
  simp [Runs, Pure.pure, Context.pure, Program.runs_done]

theorem runs_stop {s : Stop} {r : Except Stop α} :
    (stop s : Context α).Runs t j f r ↔ t = [] ∧ j = .empty ∧ f = .none ∧ r = .error s := by
  simp [Runs, stop, Program.runs_done]

theorem runs_found {g : Findings} {r : Except Stop Unit} :
    (found g).Runs t j f r ↔ t = [] ∧ j = .empty ∧ f = g ∧ r = .ok () := by
  simp [Runs, found, Program.runs_done]

theorem runs_bind {c : Context α} {k : α → Context β} {r : Except Stop β} :
    (c >>= k).Runs t j f r ↔
      (∃ s, r = .error s ∧ c.Runs t j f (.error s)) ∨
      ∃ t₁ t₂ j₁ j₂ f₁ f₂ a, t = t₁ ++ t₂ ∧ j = j₁ ++ j₂ ∧ f = f₁ ++ f₂ ∧
        c.Runs t₁ j₁ f₁ (.ok a) ∧ (k a).Runs t₂ j₂ f₂ r := by
  simp only [Runs, Bind.bind, Context.bind, Program.runs_bind]
  constructor
  · rintro ⟨t₁, t₂, ⟨j₁, f₁, s | a⟩, rfl, h₁, h₂⟩
    · obtain ⟨rfl, h⟩ := h₂
      cases h
      exact .inl ⟨s, rfl, by simpa using h₁⟩
    · obtain ⟨⟨j₂, f₂, r'⟩, h, h₃⟩ := Program.runs_map.mp h₂
      cases h
      exact .inr ⟨t₁, t₂, j₁, j₂, f₁, f₂, a, rfl, rfl, rfl, h₁, h₃⟩
  · rintro (⟨s, rfl, h⟩ | ⟨t₁, t₂, j₁, j₂, f₁, f₂, a, rfl, rfl, rfl, h₁, h₂⟩)
    · exact ⟨t, [], (j, f, .error s), by simp, h, rfl, rfl⟩
    · exact ⟨t₁, t₂, (j₁, f₁, .ok a), rfl, h₁, Program.runs_map.mpr ⟨(j₂, f₂, r), rfl, h₂⟩⟩

theorem runs_within {st : Stage} {s : Step α} {r : Except Stop α} :
    (within st s).Runs t j f r ↔
      f = .none ∧ ∃ r', s.Runs t j r' ∧ r = r'.mapError (stopOf st) := by
  simp only [Runs, within, Program.runs_map, Step.Runs]
  constructor
  · rintro ⟨⟨j', e | a⟩, h, hs⟩
    · cases h
      exact ⟨rfl, .error e, hs, rfl⟩
    · cases h
      exact ⟨rfl, .ok a, hs, rfl⟩
  · rintro ⟨rfl, e | a, hs, rfl⟩
    · exact ⟨(j, .error e), rfl, hs⟩
    · exact ⟨(j, .ok a), rfl, hs⟩

def entry (signal : Bool) : Trace :=
  if signal then [⟨.isCancelled, false⟩] else []

def refusal : Trace := [⟨.isCancelled, true⟩]

theorem runs_enter {signal : Bool} {st : Stage} {r : Except Stop Unit} :
    (enter signal st).Runs t j f r ↔ j = .empty ∧ f = .none ∧
      ((signal = true ∧ t = refusal ∧ r = .error (.cancelled st)) ∨
        (t = entry signal ∧ r = .ok ())) := by
  cases signal with
  | false => simp [enter, runs_pure, entry, and_left_comm]
  | true =>
    simp only [enter, if_true, runs_bind, runs_within]
    constructor
    · rintro (⟨s, rfl, rfl, r', hr, he⟩ |
        ⟨t₁, t₂, j₁, j₂, f₁, f₂, a, rfl, rfl, rfl, ⟨rfl, r', hr, he⟩, h⟩)
      · obtain ⟨x, -, -, rfl⟩ := Step.runs_ask.mp hr
        cases he
      · obtain ⟨x, rfl, rfl, rfl⟩ := Step.runs_ask.mp hr
        cases he
        cases a with
        | false =>
          obtain ⟨rfl, rfl, rfl, rfl⟩ := runs_pure.mp h
          exact ⟨rfl, rfl, .inr ⟨rfl, rfl⟩⟩
        | true =>
          obtain ⟨rfl, rfl, rfl, rfl⟩ := runs_stop.mp h
          exact ⟨rfl, rfl, .inl ⟨trivial, rfl, rfl⟩⟩
    · have asks (b : Bool) : Step.isCancelled.Runs [⟨.isCancelled, b⟩] .empty (.ok b) :=
        Step.runs_ask.mpr ⟨b, rfl, rfl, rfl⟩
      rintro ⟨rfl, rfl, ⟨-, rfl, rfl⟩ | ⟨rfl, rfl⟩⟩
      · exact .inr ⟨_, [], .empty, .empty, .none, .none, true, rfl, rfl, rfl,
          ⟨rfl, _, asks true, rfl⟩, runs_stop.mpr ⟨rfl, rfl, rfl, rfl⟩⟩
      · exact .inr ⟨_, [], .empty, .empty, .none, .none, false, rfl, rfl, rfl,
          ⟨rfl, _, asks false, rfl⟩, runs_pure.mpr ⟨rfl, rfl, rfl, rfl⟩⟩

end Context

namespace Findings

@[simp] theorem none_append (f : Findings) : none ++ f = f := rfl

@[simp] theorem invocation_append_upload (i : Invocation) (u : Upload) :
    (⟨.none, some i, .none⟩ : Findings) ++ ⟨.none, .none, some u⟩ = ⟨.none, some i, some u⟩ := rfl

@[simp] theorem append_none (f : Findings) : f ++ none = f := by
  obtain ⟨a, b, c⟩ := f
  change Findings.mk (a.or .none) (b.or .none) (c.or .none) = _
  simp

end Findings

open Context

def Passes (signal : Bool) (s : Step α) (t : Trace) (j : Journal) (a : α) : Prop :=
  ∃ t', t = entry signal ++ t' ∧ s.Runs t' j (.ok a)

/-- A stage is not entered, or its step fails. -/
inductive Stops (signal : Bool) (st : Stage) (s : Step α) : Trace → Journal → Stop → Prop
  | cancelled (h : signal = true) : Stops signal st s refusal .empty (.cancelled st)
  | failed {t : Trace} {j : Journal} {e : Failure} (h : s.Runs t j (.error e)) :
      Stops signal st s (entry signal ++ t) j (stopOf st e)

theorem mapError_stopOf_ok {st : Stage} {a : α} :
    (Except.ok a : Except Failure α).mapError (stopOf st) = .ok a := rfl

theorem runs_stage {signal : Bool} {st : Stage} {s : Step α} {t : Trace} {j : Journal}
    {f : Findings} {r : Except Stop α} (hr : (stage signal st s).Runs t j f r) :
    f = .none ∧ ((∃ a, r = .ok a ∧ Passes signal s t j a) ∨
      ∃ stop, r = .error stop ∧ Stops signal st s t j stop) := by
  rcases runs_bind.mp hr with ⟨stop, rfl, h⟩ |
    ⟨t₁, t₂, j₁, j₂, f₁, f₂, ⟨⟩, rfl, rfl, rfl, h₁, h₂⟩
  · obtain ⟨rfl, rfl, ⟨hs, rfl, he⟩ | ⟨-, he⟩⟩ := runs_enter.mp h
    · cases he
      exact ⟨rfl, .inr ⟨_, rfl, .cancelled hs⟩⟩
    · cases he
  · obtain ⟨rfl, rfl, ⟨-, -, he⟩ | ⟨rfl, -⟩⟩ := runs_enter.mp h₁
    · cases he
    · obtain ⟨rfl, e | a, h₃, rfl⟩ := runs_within.mp h₂
      · exact ⟨rfl, .inr ⟨_, rfl, .failed h₃⟩⟩
      · exact ⟨rfl, .inl ⟨a, rfl, t₂, rfl, h₃⟩⟩

theorem runs_stage_bind {signal : Bool} {st : Stage} {s : Step α} {k : α → Context β} {t : Trace}
    {j : Journal} {f : Findings} {r : Except Stop β} (hr : (stage signal st s >>= k).Runs t j f r) :
    (∃ stop, r = .error stop ∧ f = .none ∧ Stops signal st s t j stop) ∨
      ∃ t₁ t₂ j₁ j₂ a, t = t₁ ++ t₂ ∧ j = j₁ ++ j₂ ∧ Passes signal s t₁ j₁ a ∧
        (k a).Runs t₂ j₂ f r := by
  rcases runs_bind.mp hr with ⟨stop, rfl, h⟩ | ⟨t₁, t₂, j₁, j₂, f₁, f₂, a, rfl, rfl, rfl, h, hk⟩
  · obtain ⟨rfl, ⟨_, he, -⟩ | ⟨_, he, hs⟩⟩ := runs_stage h
    · cases he
    · cases he
      exact .inl ⟨_, rfl, rfl, hs⟩
  · obtain ⟨rfl, ⟨_, he, hs⟩ | ⟨_, he, -⟩⟩ := runs_stage h
    · cases he
      exact .inr ⟨t₁, t₂, j₁, j₂, a, rfl, rfl, hs, hk⟩
    · cases he

theorem runs_found_bind {g : Findings} {k : Unit → Context β} {t : Trace} {j : Journal}
    {f : Findings} {r : Except Stop β} (hr : (found g >>= k).Runs t j f r) :
    ∃ f', f = g ++ f' ∧ (k ()).Runs t j f' r := by
  rcases runs_bind.mp hr with ⟨stop, rfl, h⟩ | ⟨t₁, t₂, j₁, j₂, f₁, f₂, ⟨⟩, rfl, rfl, rfl, h, hk⟩
  · obtain ⟨-, -, -, he⟩ := runs_found.mp h
    cases he
  · obtain ⟨rfl, rfl, rfl, -⟩ := runs_found.mp h
    exact ⟨f₂, rfl, hk⟩

theorem runs_within_bind {st : Stage} {s : Step α} {k : α → Context β} {t : Trace} {j : Journal}
    {f : Findings} {r : Except Stop β} (hr : (within st s >>= k).Runs t j f r) :
    (∃ e, r = .error (stopOf st e) ∧ f = .none ∧ s.Runs t j (.error e)) ∨
      ∃ t₁ t₂ j₁ j₂ a, t = t₁ ++ t₂ ∧ j = j₁ ++ j₂ ∧ s.Runs t₁ j₁ (.ok a) ∧
        (k a).Runs t₂ j₂ f r := by
  rcases runs_bind.mp hr with ⟨stop, rfl, h⟩ | ⟨t₁, t₂, j₁, j₂, f₁, f₂, a, rfl, rfl, rfl, h, hk⟩
  · obtain ⟨rfl, e | a, hs, he⟩ := runs_within.mp h
    · cases he
      exact .inl ⟨e, rfl, rfl, hs⟩
    · cases he
  · obtain ⟨rfl, e | a, hs, he⟩ := runs_within.mp h
    · cases he
    · cases he
      exact .inr ⟨t₁, t₂, j₁, j₂, a, rfl, rfl, hs, hk⟩

namespace Surroundings

def buildStep (i : Invocation) (env : Env) : Step Path := do
  let outcome ← runBuild i env
  Step.logAll outcome.logs
  pure outcome.artifactPath

def invocation (s : Surroundings) (e : Entry) (workspace : Path) : Invocation :=
  Invocation.ofEntry e (workspace / s.settings.bindingDir)

def dryRun (workspace : Path) (signal : Bool) : Surroundings :=
  ⟨.standard, ⟨workspace, Settings.defaultBindingDir, none, none, Settings.defaultTokenVariable,
    ReleaseHost.defaultApi, none, none⟩, .empty, .empty, signal⟩

/-- The stages before a build or a verification. -/
inductive Prepares (s : Surroundings) (toolchain : Except ConfigurationError Toolchain) :
    Trace → Journal → Findings → Except Stop (Path × Env) → Prop
  | setup {t j stop} (h : Stops s.signal .setup (Step.ofExcept .configuration toolchain) t j stop) :
      Prepares s toolchain t j .none (.error stop)
  | provision {tc t j stop} (htc : toolchain = .ok tc)
      (h : Stops s.signal .provision (s.provision tc) t j stop) :
      Prepares s toolchain (entry s.signal ++ t) j ⟨some tc, none, none⟩ (.error stop)
  | checkout {tc t j env u k stop} (htc : toolchain = .ok tc)
      (h : Passes s.signal (s.provision tc) t j env)
      (hc : Stops s.signal .checkout (s.collaborators.checkout.acquire s.settings.workspace) u k
        stop) :
      Prepares s toolchain (entry s.signal ++ (t ++ u)) (j ++ k) ⟨some tc, none, none⟩
        (.error stop)
  | ready {tc t j env u k workspace} (htc : toolchain = .ok tc)
      (h : Passes s.signal (s.provision tc) t j env)
      (hc : Passes s.signal (s.collaborators.checkout.acquire s.settings.workspace) u k
        workspace) :
      Prepares s toolchain (entry s.signal ++ (t ++ u)) (j ++ k) ⟨some tc, none, none⟩
        (.ok (workspace, env))

/-- The runs of a release context. -/
inductive Releases (s : Surroundings) (e : Entry) (target : Target) :
    Trace → Journal → Findings → Except Stop Unit → Prop
  | unprepared {t j f stop} (h : s.Prepares (Toolchain.forRelease e) t j f (.error stop)) :
      Releases s e target t j f (.error stop)
  | buildCancelled {t j f workspace env}
      (h : s.Prepares (Toolchain.forRelease e) t j f (.ok (workspace, env)))
      (hs : s.signal = true) :
      Releases s e target (t ++ refusal) j f (.error (.cancelled .build))
  | buildFailed {t j f workspace env u k err}
      (h : s.Prepares (Toolchain.forRelease e) t j f (.ok (workspace, env)))
      (hb : (buildStep (s.invocation e workspace) env).Runs u k (.error err)) :
      Releases s e target (t ++ (entry s.signal ++ u)) (j ++ k)
        (f ++ ⟨none, some (s.invocation e workspace), none⟩) (.error (stopOf .build err))
  | unpublished {t j f workspace env u k artifact v l stop}
      (h : s.Prepares (Toolchain.forRelease e) t j f (.ok (workspace, env)))
      (hb : (buildStep (s.invocation e workspace) env).Runs u k (.ok artifact))
      (hp : Stops s.signal .publish
        (s.collaborators.adapter.publish s.ambient artifact e.artifact target) v l stop) :
      Releases s e target (t ++ (entry s.signal ++ (u ++ v))) (j ++ (k ++ l))
        (f ++ ⟨none, some (s.invocation e workspace), none⟩) (.error stop)
  | published {t j f workspace env u k artifact v l upload}
      (h : s.Prepares (Toolchain.forRelease e) t j f (.ok (workspace, env)))
      (hb : (buildStep (s.invocation e workspace) env).Runs u k (.ok artifact))
      (hp : Passes s.signal
        (s.collaborators.adapter.publish s.ambient artifact e.artifact target) v l upload) :
      Releases s e target (t ++ (entry s.signal ++ (u ++ v)))
        (j ++ (k ++ (l ++ ⟨[], [⟨.info, Context.source,
          "[" ++ e.artifact ++ "] published to " ++ target.tag⟩]⟩)))
        (f ++ ⟨none, some (s.invocation e workspace), some upload⟩) (.ok ())

/-- The runs of a test context. -/
inductive Tests (s : Surroundings) (host : String) (command : List String) :
    Trace → Journal → Findings → Except Stop Unit → Prop
  | unprepared {t j f stop} (h : s.Prepares (Toolchain.forTest host) t j f (.error stop)) :
      Tests s host command t j f (.error stop)
  | unverified {t j f workspace env u k stop}
      (h : s.Prepares (Toolchain.forTest host) t j f (.ok (workspace, env)))
      (hv : Stops s.signal .test (runVerification workspace env command) u k stop) :
      Tests s host command (t ++ u) (j ++ k) f (.error stop)
  | verified {t j f workspace env u k logs}
      (h : s.Prepares (Toolchain.forTest host) t j f (.ok (workspace, env)))
      (hv : Passes s.signal (runVerification workspace env command) u k logs) :
      Tests s host command (t ++ u) (j ++ (k ++ ⟨logs, []⟩)) f (.ok ())

variable {s : Surroundings} {t : Trace} {j : Journal} {f : Findings}

theorem runs_setup {toolchain : Except ConfigurationError Toolchain} {tc : Toolchain}
    (h : Passes s.signal (Step.ofExcept .configuration toolchain) t j tc) :
    t = entry s.signal ∧ j = .empty ∧ toolchain = .ok tc := by
  obtain ⟨u, rfl, h⟩ := h
  cases toolchain with
  | error e =>
    obtain ⟨-, -, he⟩ := Step.runs_fail.mp h
    cases he
  | ok a =>
    obtain ⟨rfl, rfl, he⟩ := Step.runs_pure.mp h
    cases he
    exact ⟨by simp, rfl, rfl⟩

theorem prepare_runs {toolchain : Except ConfigurationError Toolchain}
    {r : Except Stop (Path × Env)} (h₀ : (s.prepare toolchain).Runs t j f r) :
    s.Prepares toolchain t j f r := by
  rcases runs_stage_bind h₀ with ⟨stop, rfl, rfl, h⟩ | ⟨t₁, t₂, j₁, j₂, tc, rfl, rfl, hs, h₁⟩
  · exact .setup h
  obtain ⟨rfl, rfl, htc⟩ := runs_setup hs
  obtain ⟨f₁, rfl, h₂⟩ := runs_found_bind h₁
  rcases runs_stage_bind h₂ with ⟨stop, rfl, rfl, h⟩ | ⟨t₃, t₄, j₃, j₄, env, rfl, rfl, hp, h₃⟩
  · exact .provision htc h
  rcases runs_stage_bind h₃ with ⟨stop, rfl, rfl, h⟩ | ⟨t₅, t₆, j₅, j₆, ws, rfl, rfl, hc, h₄⟩
  · simpa using Prepares.checkout htc hp h
  obtain ⟨rfl, rfl, rfl, rfl⟩ := runs_pure.mp h₄
  simpa using Prepares.ready htc hp hc

theorem releaseStages_runs {e : Entry} {target : Target} {r : Except Stop Unit}
    (h₀ : (s.releaseStages e target).Runs t j f r) : s.Releases e target t j f r := by
  rcases runs_bind.mp h₀ with ⟨stop, rfl, h⟩ |
    ⟨t₁, t₂, j₁, j₂, f₁, f₂, ⟨ws, env⟩, rfl, rfl, rfl, hp, h₁⟩
  · exact .unprepared (prepare_runs h)
  have hp := prepare_runs hp
  rcases runs_bind.mp h₁ with ⟨stop, rfl, h⟩ | ⟨_, t₃, _, j₃, _, f₃, ⟨⟩, rfl, rfl, rfl, he, h₂⟩
  · obtain ⟨rfl, rfl, ⟨hs, rfl, he⟩ | ⟨-, he⟩⟩ := runs_enter.mp h
    · cases he
      simpa using Releases.buildCancelled hp hs
    · cases he
  obtain ⟨rfl, rfl, ⟨-, -, he⟩ | ⟨rfl, -⟩⟩ := runs_enter.mp he
  · cases he
  obtain ⟨f₄, rfl, h₃⟩ := runs_found_bind h₂
  rcases runs_within_bind h₃ with ⟨e, rfl, rfl, h⟩ | ⟨u, t₄, k, j₄, artifact, rfl, rfl, hb, h₄⟩
  · simpa [invocation] using Releases.buildFailed hp h
  rcases runs_stage_bind h₄ with ⟨stop, rfl, rfl, h⟩ | ⟨v, t₅, l, j₅, upload, rfl, rfl, hu, h₅⟩
  · simpa [invocation] using Releases.unpublished hp hb h
  obtain ⟨f₅, rfl, h₆⟩ := runs_found_bind h₅
  obtain ⟨rfl, r', hn, rfl⟩ := runs_within.mp h₆
  obtain ⟨rfl, rfl, rfl⟩ := Step.runs_note.mp hn
  simpa [invocation, mapError_stopOf_ok] using Releases.published hp hb hu

theorem testStages_runs {host : String} {command : List String} {r : Except Stop Unit}
    (h₀ : (s.testStages host command).Runs t j f r) : s.Tests host command t j f r := by
  rcases runs_bind.mp h₀ with ⟨stop, rfl, h⟩ |
    ⟨t₁, t₂, j₁, j₂, f₁, f₂, ⟨ws, env⟩, rfl, rfl, rfl, hp, h₁⟩
  · exact .unprepared (prepare_runs h)
  have hp := prepare_runs hp
  rcases runs_stage_bind h₁ with ⟨stop, rfl, rfl, h⟩ | ⟨u, t₃, k, j₃, logs, rfl, rfl, hv, h₂⟩
  · simpa using Tests.unverified hp h
  obtain ⟨rfl, r', hl, rfl⟩ := runs_within.mp h₂
  obtain ⟨rfl, rfl, rfl⟩ := Step.runs_logAll.mp hl
  simpa [mapError_stopOf_ok] using Tests.verified hp hv

end Surroundings

theorem runs_finish {key host : String} {c : Context Unit} {t : Trace}
    {o : List Note × Except Crash Report} (h₀ : (finish key host c).Runs t o) :
    ∃ j f r, c.Runs t j f r ∧
      o = (j.notes ++ (report key host j.logs f r).1, (report key host j.logs f r).2) := by
  obtain ⟨⟨j, f, r⟩, rfl, h⟩ := Program.runs_map.mp h₀
  exact ⟨j, f, r, h, rfl⟩

end BindingRelease
