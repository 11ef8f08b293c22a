import BindingRelease.Proofs.FanOut
import BindingRelease.Proofs.Publishing
import BindingRelease.Simulation.World
/-!
Reports and what they leave out. A context writes its report from what it found before it stopped,
and it may stop in many places. Wherever that is, the parts of the report that are there fit the
status and the stage it names.
-/
namespace BindingRelease
open Context
variable {t u : Trace} {j k : Journal} {f : Findings}

namespace Findings

@[simp] theorem toolchain_append (f g : Findings) :
    (f ++ g).toolchain = f.toolchain.or g.toolchain := rfl

@[simp] theorem invocation_append (f g : Findings) :
    (f ++ g).invocation = f.invocation.or g.invocation := rfl

@[simp] theorem upload_append (f g : Findings) : (f ++ g).upload = f.upload.or g.upload := rfl

end Findings

structure Upload.Names (u : Upload) (file : Path) (asset tag : String) : Prop where
  file : u.file = file
  asset : u.asset = asset
  tag : u.tag = tag

/-- A context that stopped in a stage or before it, or crashed there. -/
inductive Stop.At (st : Stage) : Stop → Prop
  | cancelled : Stop.At st (.cancelled st)
  | failed (e : ReleaseError) : Stop.At st (.failed st e)
  | crashed (c : Crash) : Stop.At st (.crashed c)

theorem Stop.at_stopOf (st : Stage) (e : Failure) : (stopOf st e).At st := by
  cases e with
  | release e => exact .failed e
  | crash c => exact .crashed c

theorem Stops.at {α : Type} {signal : Bool} {st : Stage} {s : Step α} {stop : Stop}
    (h : Stops signal st s t j stop) : stop.At st := by
  cases h with
  | cancelled => exact .cancelled
  | failed => exact Stop.at_stopOf st _

namespace Stage

def ofRelease : List Stage := [.setup, .provision, .checkout, .build, .publish]

def ofTest : List Stage := [.setup, .provision, .checkout, .test]

end Stage

namespace Report

/-- The parts of a report that depend on each other, in either pipeline. -/
structure Coherent (r : Report) : Prop where
  status : r.status ∈ [Status.succeeded, .failed, .cancelled]
  stage : r.status = .succeeded ↔ r.failedStage = none
  error : r.error.isSome ↔ r.status = .failed
  toolchain : r.toolchain.isSome ↔ r.failedStage ≠ some .setup

structure TakesOver (key host : String) (f : Findings) (r : Report) : Prop where
  key : r.key = key
  host : r.host = host
  toolchain : r.toolchain = f.toolchain
  invocation : r.invocation = f.invocation
  upload : r.upload = f.upload

structure StoppedAt (st : Stage) (r : Report) : Prop where
  stage : r.failedStage = some st
  ending : (r.status = .cancelled ∧ r.error = none) ∨ (r.status = .failed ∧ r.error.isSome)

theorem takesOver_report {key host : String} {logs : List String} {x : Except Stop Unit}
    {r : Report} (hr : (Context.report key host logs f x).2 = .ok r) : r.TakesOver key host f := by
  obtain (st | ⟨st, err⟩ | c) | _ := x
  · cases hr
    exact ⟨rfl, rfl, rfl, rfl, rfl⟩
  · cases hr
    exact ⟨rfl, rfl, rfl, rfl, rfl⟩
  · cases hr
  · cases hr
    exact ⟨rfl, rfl, rfl, rfl, rfl⟩

theorem stoppedAt_report {key host : String} {logs : List String} {stop : Stop} {st : Stage}
    {r : Report} (hs : stop.At st)
    (hr : (Context.report key host logs f (.error stop)).2 = .ok r) : r.StoppedAt st := by
  cases hs with
  | cancelled =>
    cases hr
    exact ⟨rfl, .inl ⟨rfl, rfl⟩⟩
  | failed e =>
    cases hr
    exact ⟨rfl, .inr ⟨rfl, rfl⟩⟩
  | crashed c => cases hr

theorem StoppedAt.coherent {st : Stage} {r : Report} (h : r.StoppedAt st)
    (htc : r.toolchain.isSome ↔ st ≠ .setup) : r.Coherent := by
  have hsetup : r.toolchain.isSome ↔ r.failedStage ≠ some .setup := by
    rw [htc, h.stage, ne_eq, ne_eq, Option.some.injEq]
  obtain ⟨hs, he⟩ | ⟨hs, he⟩ := h.ending
  · exact ⟨by simp [hs], by simp [hs, h.stage], by simp [hs, he], hsetup⟩
  · exact ⟨by simp [hs], by simp [hs, h.stage], by simp [hs, he], hsetup⟩

theorem coherent_report {key host : String} {logs : List String} {r : Report}
    (hf : f.toolchain.isSome) (hr : (Context.report key host logs f (.ok ())).2 = .ok r) :
    r.status = .succeeded ∧ r.failedStage = none ∧ r.Coherent := by
  cases hr
  exact ⟨rfl, rfl, by simp, by simp, by simp, by simpa using hf⟩

end Report

namespace ReleaseHost

theorem attachmentOutcome_record {file : Path} {asset : String} {target : Target}
    {release : Fields} {q : HttpRequest} {x : HttpResult} {u : Upload}
    (h : attachmentOutcome file asset target release q x = .ok u) :
    u.Names file asset target.tag ∧ u.status = Upload.succeeded := by
  cases x with
  | failed | broken => cases h
  | response a =>
    simp only [attachmentOutcome] at h
    split at h
    · cases hf : fieldsOf a with
      | error e =>
        rw [hf] at h
        cases h
      | ok answer =>
        rw [hf] at h
        simp only [Except.bind, attachmentRecord] at h
        split at h
        · cases h
          exact ⟨⟨rfl, rfl, rfl⟩, rfl⟩
        · cases h
    · cases h

end ReleaseHost

namespace Adapter

theorem upload_record {a : Adapter} {ambient : Env} {file : Path} {asset : String}
    {target : Target} {x : Upload} (h₀ : (a.upload ambient file asset target).Runs t j (.ok x)) :
    x.Names file asset target.tag ∧ (x.status = Upload.succeeded ↔ a ≠ .dryRun) := by
  cases a with
  | dryRun =>
    obtain ⟨j₁, rfl, h₁⟩ := Step.runs_log_bind.mp h₀
    obtain ⟨-, -, he⟩ := Step.runs_pure.mp h₁
    cases he
    exact ⟨⟨rfl, rfl, rfl⟩, by simp [Upload.succeeded]⟩
  | tool tool =>
    obtain ⟨y, -, hy⟩ := HostTool.upload_runs h₀
    obtain ⟨f, -, -, rfl⟩ := LaunchResult.outcome_eq_ok.mp hy.symm
    exact ⟨⟨rfl, rfl, rfl⟩, iff_of_true rfl nofun⟩
  | host h =>
    generalize hr : (Except.ok x : Except Failure Upload) = r at h₀
    cases ReleaseHost.upload_runs h₀ with
    | unreached | unaddressed | unreadable => cases hr
    | sent =>
      obtain ⟨hnames, hstatus⟩ := ReleaseHost.attachmentOutcome_record hr.symm
      exact ⟨hnames, iff_of_true hstatus nofun⟩

theorem publish_record {a : Adapter} {ambient : Env} {file : Path} {asset : String}
    {target : Target} {x : Upload} (h₀ : (a.publish ambient file asset target).Runs t j (.ok x)) :
    x.Names file asset target.tag ∧ (x.status = Upload.succeeded ↔ a ≠ .dryRun) := by
  rcases publish_runs h₀ with ⟨_, -, -, he⟩ | ⟨u, k, -, hu⟩
  · cases he
  · exact upload_record hu

end Adapter

namespace Surroundings
variable {s : Surroundings}

/-- The report of an entry's context: what is there says how far the context came. -/
structure ReleaseReport (s : Surroundings) (e : Entry) (target : Target) (r : Report) : Prop
    extends r.Coherent where
  key : r.key = e.artifact
  host : r.host = e.host
  stages : ∀ st, r.failedStage = some st → st ∈ Stage.ofRelease
  uploaded : r.status = .succeeded ↔ r.upload.isSome
  invoked : r.invocation.isSome ↔ r.status = .succeeded ∨ r.failedStage = some .publish ∨
    (r.status = .failed ∧ r.failedStage = some .build)
  named : ∀ u, r.upload = some u →
    ∃ i, r.invocation = some i ∧ u.Names i.artifactPath r.key target.tag
  ofEntry : (∀ tc, r.toolchain = some tc → Toolchain.forRelease e = .ok tc) ∧
    ∀ i, r.invocation = some i → i = s.buildOf e

structure TestReport (label : String) (r : Report) : Prop extends r.Coherent where
  key : r.key = label
  host : r.host = label
  stages : ∀ st, r.failedStage = some st → st ∈ Stage.ofTest
  invocation : r.invocation = none
  upload : r.upload = none
  ofHost : ∀ tc, r.toolchain = some tc → Toolchain.forTest label = .ok tc

theorem prepares_findings {toolchain : Except ConfigurationError Toolchain}
    {r : Except Stop (Path × Env)} (h₀ : s.Prepares toolchain t j f r) :
    (∃ stop, r = .error stop ∧ stop.At .setup ∧ f = .none) ∨
      ∃ tc, toolchain = .ok tc ∧ f = ⟨some tc, none, none⟩ ∧
        ∀ stop, r = .error stop → ∃ st ∈ [Stage.provision, .checkout], stop.At st := by
  cases h₀ with
  | setup h => exact .inl ⟨_, rfl, h.at, rfl⟩
  | provision htc h =>
    refine .inr ⟨_, htc, rfl, fun stop he => ⟨.provision, by simp, ?_⟩⟩
    cases he
    exact h.at
  | checkout htc h hc =>
    refine .inr ⟨_, htc, rfl, fun stop he => ⟨.checkout, by simp, ?_⟩⟩
    cases he
    exact hc.at
  | ready htc h hc => exact .inr ⟨_, htc, rfl, by simp⟩

theorem prepared_findings {toolchain : Except ConfigurationError Toolchain} {a : Path × Env}
    (h₀ : s.Prepares toolchain t j f (.ok a)) :
    ∃ tc, toolchain = .ok tc ∧ f = ⟨some tc, none, none⟩ := by
  obtain ⟨stop, he, -⟩ | ⟨tc, htc, hf, -⟩ := prepares_findings h₀
  · cases he
  · exact ⟨tc, htc, hf⟩

theorem releaseReport_of_stoppedAt {e : Entry} {target : Target} {r : Report} {st : Stage}
    (h : r.StoppedAt st) (hr : r.TakesOver e.artifact e.host f) (hst : st ∈ Stage.ofRelease)
    (hu : f.upload = none) (htc : f.toolchain.isSome ↔ st ≠ .setup)
    (hi : f.invocation.isSome ↔ st = .publish ∨ (r.status = .failed ∧ st = .build))
    (hof : (∀ tc, f.toolchain = some tc → Toolchain.forRelease e = .ok tc) ∧
      ∀ i, f.invocation = some i → i = s.buildOf e) : s.ReleaseReport e target r := by
  have hn : r.upload = none := hr.upload.trans hu
  have hs : r.status ≠ .succeeded := by
    obtain ⟨hs, -⟩ | ⟨hs, -⟩ := h.ending <;> simp [hs]
  refine ⟨h.coherent (by rw [hr.toolchain, htc]), hr.key, hr.host, ?_, ?_, ?_, ?_, ?_⟩
  · intro st' hst'
    rw [h.stage, Option.some.injEq] at hst'
    exact hst' ▸ hst
  · simp [hs, hn]
  · simp [hs, hr.invocation, hi, h.stage]
  · simp [hn]
  · rwa [hr.toolchain, hr.invocation]

theorem testReport_of_stoppedAt {label : String} {r : Report} {st : Stage}
    (h : r.StoppedAt st) (hr : r.TakesOver label label f) (hst : st ∈ Stage.ofTest)
    (hi : f.invocation = none) (hu : f.upload = none) (htc : f.toolchain.isSome ↔ st ≠ .setup)
    (hof : ∀ tc, f.toolchain = some tc → Toolchain.forTest label = .ok tc) :
    TestReport label r := by
  refine ⟨h.coherent (by rw [hr.toolchain, htc]), hr.key, hr.host, ?_, hr.invocation.trans hi,
    hr.upload.trans hu, by rwa [hr.toolchain]⟩
  intro st' hst'
  rw [h.stage, Option.some.injEq] at hst'
  exact hst' ▸ hst

theorem releases_report {e : Entry} {target : Target} {x : Except Stop Unit} {logs : List String}
    {r : Report} (h₀ : s.Releases e target t j f x)
    (hr : (report e.artifact e.host logs f x).2 = .ok r) : s.ReleaseReport e target r := by
  have hto := Report.takesOver_report hr
  cases h₀ with
  | unprepared h =>
    obtain ⟨_, he, hat, rfl⟩ | ⟨tc, htc, rfl, hat⟩ := prepares_findings h
    · cases he
      exact releaseReport_of_stoppedAt (Report.stoppedAt_report hat hr) hto
        (by simp [Stage.ofRelease]) rfl (by simp [Findings.none]) (by simp [Findings.none])
        (by simp [Findings.none])
    · have early : ∀ st ∈ [Stage.provision, .checkout],
          st ∈ Stage.ofRelease ∧ st ≠ .setup ∧ st ≠ .build ∧ st ≠ .publish := by decide
      obtain ⟨st, hst, hat⟩ := hat _ rfl
      have hne := early st hst
      exact releaseReport_of_stoppedAt (Report.stoppedAt_report hat hr) hto hne.1 rfl
        (by simp [hne]) (by simp [hne]) (by simp [htc])
  | buildCancelled h hs =>
    obtain ⟨tc, htc, rfl⟩ := prepared_findings h
    have hst := Report.stoppedAt_report .cancelled hr
    have hc : r.status ≠ .failed := by
      cases hr
      simp
    exact releaseReport_of_stoppedAt hst hto (by simp [Stage.ofRelease]) rfl (by simp)
      (by simp [hc]) (by simp [htc])
  | @buildFailed t j f ws env u k err h hb =>
    obtain ⟨tc, htc, rfl⟩ := prepared_findings h
    obtain rfl := prepares_returns h
    have hst := Report.stoppedAt_report (Stop.at_stopOf .build err) hr
    have hc : r.status = .failed := by
      cases err with
      | release e =>
        cases hr
        rfl
      | crash c => cases hr
    exact releaseReport_of_stoppedAt hst hto (by simp [Stage.ofRelease]) rfl (by simp)
      (by simp [hc]) (by simp [htc, buildOf])
  | unpublished h hb hp =>
    obtain ⟨tc, htc, rfl⟩ := prepared_findings h
    obtain rfl := prepares_returns h
    exact releaseReport_of_stoppedAt (Report.stoppedAt_report hp.at hr) hto
      (by simp [Stage.ofRelease]) rfl (by simp) (by simp) (by simp [htc, buildOf])
  | published h hb hp =>
    obtain ⟨tc, htc, rfl⟩ := prepared_findings h
    obtain rfl := prepares_returns h
    obtain ⟨rfl, -⟩ := buildStep_built hb
    obtain ⟨v, -, hp⟩ := hp
    obtain ⟨hs, hn, hc⟩ := Report.coherent_report (by simp) hr
    have hi := hto.invocation
    have hu := hto.upload
    simp only [Findings.invocation_append, Findings.upload_append, Option.none_or] at hi hu
    refine ⟨hc, hto.key, hto.host, by simp [hn], by simp [hs, hu], by simp [hs, hi], ?_, ?_⟩
    · intro u hu'
      rw [hu, Option.some.injEq] at hu'
      subst hu'
      refine ⟨_, hi, ?_⟩
      rw [hto.key]
      exact (Adapter.publish_record hp).1
    · rw [hto.toolchain, hi]
      simp [htc, buildOf]

theorem releaseContext_report {e : Entry} {target : Target} {o : Outcome} {r : Report}
    (h₀ : (s.releaseContext target e).Runs t o) (hr : o.2 = .ok r) :
    s.ReleaseReport e target r := by
  obtain ⟨j, f, x, h, rfl⟩ := runs_finish h₀
  exact releases_report (releaseStages_runs h) hr

theorem testContext_report {label : String} {command : List String} {o : Outcome} {r : Report}
    (h₀ : (s.testContext command label).Runs t o) (hr : o.2 = .ok r) : TestReport label r := by
  obtain ⟨j, f, x, h, rfl⟩ := runs_finish h₀
  have hto := Report.takesOver_report hr
  cases testStages_runs h with
  | unprepared h' =>
    obtain ⟨_, he, hat, rfl⟩ | ⟨tc, htc, rfl, hat⟩ := prepares_findings h'
    · cases he
      exact testReport_of_stoppedAt (Report.stoppedAt_report hat hr) hto (by simp [Stage.ofTest])
        rfl rfl (by simp [Findings.none]) (by simp [Findings.none])
    · have early : ∀ st ∈ [Stage.provision, .checkout], st ∈ Stage.ofTest ∧ st ≠ .setup := by
        decide
      obtain ⟨st, hst, hat⟩ := hat _ rfl
      have hne := early st hst
      exact testReport_of_stoppedAt (Report.stoppedAt_report hat hr) hto hne.1 rfl rfl
        (by simp [hne]) (by simp [htc])
  | unverified h' hv =>
    obtain ⟨tc, htc, rfl⟩ := prepared_findings h'
    exact testReport_of_stoppedAt (Report.stoppedAt_report hv.at hr) hto (by simp [Stage.ofTest])
      rfl rfl (by simp) (by simp [htc])
  | verified h' hv =>
    obtain ⟨tc, htc, rfl⟩ := prepared_findings h'
    obtain ⟨-, hn, hc⟩ := Report.coherent_report (by simp) hr
    exact ⟨hc, hto.key, hto.host, by simp [hn], hto.invocation, hto.upload,
      by simp [hto.toolchain, htc]⟩

theorem fanOut_reports {signal : Bool} {wish : Option Int} {schedule : List Nat}
    {contexts : List (Program Outcome)} {rs : List Report}
    (h₀ : (fanOut signal wish schedule contexts).Runs t j (.ok rs)) :
    rs.length = contexts.length ∧ ∀ (k : Nat) c, contexts[k]? = some c →
      ∃ r u o, rs[k]? = some r ∧ c.Runs u o ∧ o.2 = .ok r := by
  obtain ⟨l, os, -, hi, -, hv⟩ := fanOut_runs h₀
  obtain ⟨hlen, hrs⟩ := Outcome.reports_of_verdict hv.symm
  refine ⟨hlen.trans hi.length, fun k c hk => ?_⟩
  obtain ⟨o, ho, hr⟩ := hi.each k c hk
  obtain ⟨r, hrk, hok⟩ := hrs k o ho
  exact ⟨r, _, o, hrk, hr, hok⟩

/-- Whatever is answered, whatever fails and whenever the run is cancelled: the reports of a run
that returns are complete up to the point where each context stopped, and no further. -/
theorem reports_are_faithful (s : Surroundings) (schedule : List Nat) :
    (∀ m target t j rs, (s.release schedule m target).Runs t j (.ok rs) →
      rs.length = m.entries.length ∧ ∀ (k : Nat) e, m.entries[k]? = some e →
        ∃ r, rs[k]? = some r ∧ s.ReleaseReport e target r) ∧
    ∀ hosts command t j rs, (s.test schedule hosts command).Runs t j (.ok rs) →
      rs.length = hosts.length ∧ ∀ (k : Nat) label, hosts[k]? = some label →
        ∃ r, rs[k]? = some r ∧ TestReport label r := by
  constructor
  · intro m target t j rs h₀
    obtain ⟨j₁, -, h₁⟩ := Step.runs_note_bind.mp h₀
    obtain ⟨hlen, hrs⟩ := fanOut_reports h₁
    refine ⟨by simpa using hlen, fun k e hk => ?_⟩
    obtain ⟨r, u, o, hrk, hr, ho⟩ := hrs k (s.releaseContext target e) (by simp [hk])
    exact ⟨r, hrk, releaseContext_report hr ho⟩
  · intro hosts command t j rs h₀
    obtain ⟨hlen, hrs⟩ := fanOut_reports h₀
    refine ⟨by simpa using hlen, fun k label hk => ?_⟩
    obtain ⟨r, u, o, hrk, hr, ho⟩ := hrs k (s.testContext command label) (by simp [hk])
    exact ⟨r, hrk, testContext_report hr ho⟩

def brokenMatrix : Matrix :=
  ⟨[⟨"ubuntu-latest", "lib.so", "build.sh", none⟩, ⟨"ubuntu-latest", "lib.a", "broken.sh", none⟩,
    ⟨"macos-14", "lib.dylib", "build.sh", none⟩], by decide⟩

open Simulation in
def brokenWorld : World :=
  { cwd := Path.ofString "/work", clock := "",
    tree := FileTree.empty.put ["work", "dart-ffi", "lib.so"] (.file [] false),
    rules := [{
      applies := fun p => p.command = .words ["bash", "tools/broken.sh"], once := true,
      cancels := true, interrupts := false, startFailure := none, writes := [],
      result := ⟨1, "", "no compiler"⟩ }],
    answers := [], cancelled := false, started := [], sent := [] }

open Simulation in
/-- One context succeeds, one fails in its build and one is cancelled before its setup. -/
theorem brokenRun_is_faithful :
    let s := dryRun (Path.ofString "/work") true
    let target : Target := ⟨"v1", "", none⟩
    let ends (rs : List Report) := rs.map fun r => (r.status, r.failedStage)
    (∃ t j rs, (s.release [] brokenMatrix target).Runs t j (.ok rs) ∧
      ends rs = [(.succeeded, none), (.failed, some .build), (.cancelled, some .setup)] ∧
      rs.length = brokenMatrix.entries.length ∧
      ∀ (k : Nat) e, brokenMatrix.entries[k]? = some e →
        ∃ r, rs[k]? = some r ∧ s.ReleaseReport e target r) ∧
    ∃ t j rs, (s.test [] ["linux", "solaris"] verifyCommand).Runs t j (.ok rs) ∧
      ends rs = [(.succeeded, none), (.failed, some .setup)] ∧
      rs.length = 2 ∧ ∀ (k : Nat) label, ["linux", "solaris"][k]? = some label →
        ∃ r, rs[k]? = some r ∧ TestReport label r := by
  intro s target ends
  constructor
  · obtain ⟨t, j, rs, h, hends⟩ : ∃ t j rs, (s.release [] brokenMatrix target).Runs t j (.ok rs) ∧
        ends rs = [(.succeeded, none), (.failed, some .build), (.cancelled, some .setup)] :=
      Step.exists_runs World.answer brokenWorld (by decide +kernel)
    exact ⟨t, j, rs, h, hends, (s.reports_are_faithful []).1 _ _ _ _ _ h⟩
  · obtain ⟨t, j, rs, h, hends⟩ : ∃ t j rs,
        (s.test [] ["linux", "solaris"] verifyCommand).Runs t j (.ok rs) ∧
        ends rs = [(.succeeded, none), (.failed, some .setup)] :=
      Step.exists_runs World.answer brokenWorld (by decide +kernel)
    exact ⟨t, j, rs, h, hends, (s.reports_are_faithful []).2 _ _ _ _ _ h⟩

end Surroundings
end BindingRelease
