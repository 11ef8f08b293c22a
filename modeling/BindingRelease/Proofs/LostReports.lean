import BindingRelease.Proofs.Escapes
import BindingRelease.Proofs.FanOut
import BindingRelease.Proofs.StageOrder
/-!
Reports that are lost. A context that crashes takes the reports of all contexts with it, so a run
gives its reports just if no context crashes; and a context crashes just by an answer that is a
crash, a template or a page.
-/
namespace BindingRelease
open Trace Context
variable {α : Type} {t u : Trace} {j : Journal}

namespace Surroundings
variable {s : Surroundings}

def Unfillable (s : Surroundings) (tc : Toolchain) (e : Text.Template.TemplateError) : Prop :=
  ∃ c, tc.compiler = some c ∧
    s.collaborators.compiler.Unfillable c s.settings.resolvedCompilerDir e

theorem Unfillable.unique {tc : Toolchain} {e e' : Text.Template.TemplateError}
    (h : s.Unfillable tc e) (h' : s.Unfillable tc e') : e = e' := by
  obtain ⟨c, hc, template, ht, hr⟩ := h
  obtain ⟨c', hc', template', ht', hr'⟩ := h'
  rw [hc] at hc'
  cases hc'
  rw [ht] at ht'
  cases ht'
  rw [hr] at hr'
  cases hr'
  rfl

def Untemplated (s : Surroundings) (e : Entry) (t : Trace) (c : Crash) : Prop :=
  ∃ tc err, Toolchain.forRelease e = .ok tc ∧ s.Unfillable tc err ∧
    t = entry s.signal ++ entry s.signal ∧ c = .template err

/-- The context uploads to a release host, and the page it gets is no text. -/
def Mispaged (s : Surroundings) (e : Entry) (target : Target) (t : Trace) (c : Crash) : Prop :=
  ∃ host, s.collaborators.adapter = .host host ∧
    host.Mispaged (s.buildOf e).artifactPath e.artifact target t c

/-- How the context of an entry crashes: by an answer, by a template that cannot be filled, or by
a page that is no text. -/
inductive Escapes (s : Surroundings) (e : Entry) (target : Target) (t : Trace) : Crash → Prop
  | answer {ev c} (h : ev ∈ t) (hc : escape ev = some c) : Escapes s e target t c
  | template {c} (h : s.Untemplated e t c) : Escapes s e target t c
  | page {c} (h : s.Mispaged e target t c) : Escapes s e target t c

theorem Mispaged.append {e : Entry} {target : Target} {c : Crash} (t : Trace)
    (h : s.Mispaged e target u c) : s.Mispaged e target (t ++ u) c := by
  obtain ⟨host, ha, before, q, a, release, content, x, rfl, hm⟩ := h
  exact ⟨host, ha, t ++ before, q, a, release, content, x, by simp, hm⟩

theorem Mispaged.sends {e : Entry} {target : Target} {c : Crash}
    (h : s.Mispaged e target t c) : ∃ ev ∈ t, ∃ q, ev.1 = .send q := by
  obtain ⟨host, ha, before, q, a, release, content, x, rfl, -⟩ := h
  exact ⟨⟨.send q, HttpResult.response a⟩, by simp, q, rfl⟩

end Surroundings

namespace Report

inductive Tells (r : Report) : Except Stop Unit → Prop
  | succeeded (h : r.status = .succeeded) (hs : r.failedStage = none) : Tells r (.ok ())
  | cancelled {st : Stage} (h : r.status = .cancelled) (hs : r.failedStage = some st) :
      Tells r (.error (.cancelled st))
  | failed {st : Stage} {err : ReleaseError} (h : r.status = .failed)
      (hs : r.failedStage = some st) (he : r.error = some err.message) :
      Tells r (.error (.failed st err))

end Report

namespace Surroundings
variable {s : Surroundings}

/-- The report of an entry's context, which ran along a trace. -/
structure Recorded (s : Surroundings) (e : Entry) (target : Target) (t : Trace) (r : Report) :
    Prop where
  key : r.key = e.artifact
  host : r.host = e.host
  ends : ∃ j f x, (s.releaseStages e target).Runs t j f x ∧ r.Tells x

/-- A run made of the runs of its contexts, each along its share. It has the reports of all of them
in the order of the matrix just if no context crashes, and otherwise it ends with a crash that is
one of theirs. -/
structure Accounts (s : Surroundings) (m : Matrix) (target : Target) (l : Tagged)
    (r : Except Failure (List Report)) : Prop where
  shares : ∀ (k : Nat) e, m.entries[k]? = some e →
    ∃ o, (s.releaseContext target e).Runs (l.share k) o
  reported : (∃ rs, r = .ok rs ∧ rs.length = m.entries.length ∧
      ∀ (k : Nat) e, m.entries[k]? = some e →
        ∃ report, rs[k]? = some report ∧ s.Recorded e target (l.share k) report) ↔
    ∀ (k : Nat) e c, m.entries[k]? = some e → ¬ s.Escapes e target (l.share k) c
  lost : ∀ err, r = .error err → ∃ (k : Nat) (e : Entry) (c : Crash), err = .crash c ∧
    m.entries[k]? = some e ∧ s.Escapes e target (l.share k) c

/-- Everything is there and every process succeeds. The host knows the release and takes every
asset; the page it reports is a number unless the asset is `lib.so`. -/
def oddPages : (r : Request) → r.Answer
  | .send q => HttpResult.response (match q.method with
    | .get => ⟨200, "", "OK", .ok (.map [(.text "upload_url", .text "https://uploads")])⟩
    | .post => ⟨201, "", "Created", .ok (.map (if ("name", "lib.so") ∈ q.params then []
      else [(.text "browser_download_url", .int 7)]))⟩)
  | r => obliging r

end Surroundings
end BindingRelease
