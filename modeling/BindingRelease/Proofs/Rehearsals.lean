import BindingRelease.Proofs.OneByOne
import BindingRelease.Proofs.Reports
import BindingRelease.Proofs.StageOrder
/-!
Dry runs as rehearsals. A run that publishes through the interface of the release host does what a
dry run does, context by context; where a context of the dry run has published nothing it does just
the same, and where it has left out its upload the other one goes on with requests to the host and
looks at the artifact. These change nothing that a later context could see.
-/
namespace BindingRelease
open Context
variable {α β σ η : Type}

def Trace.launches (t : Trace) : List Launch :=
  t.filterMap fun ev => match ev.1 with
    | .start p => some p
    | _ => none

theorem Trace.launches_append (t u : Trace) : (t ++ u).launches = t.launches ++ u.launches :=
  List.filterMap_append

theorem Trace.launches_of_requests {t : Trace} (h : ∀ ev ∈ t, ReleaseHost.requests ev.1) :
    t.launches = [] := by
  refine List.filterMap_eq_nil_iff.mpr fun ev hev => ?_
  obtain ⟨r, x⟩ := ev
  cases r with
  | start p => cases h _ hev
  | _ => rfl

namespace Program

/-- A site with a release host beside it: the host answers what is sent, out of a memory of its own,
and the site answers everything else. What the host answers does not change the site. -/
def beside (site : (r : Request) → σ → r.Answer × σ)
    (host : HttpRequest → σ × η → HttpResult × η) : (r : Request) → σ × η → r.Answer × (σ × η)
  | .send q, w => ((host q w).1, w.1, (host q w).2)
  | r, w => ((site r w.1).1, (site r w.1).2, w.2)

variable {site : (r : Request) → σ → r.Answer × σ} {host : HttpRequest → σ × η → HttpResult × η}

theorem beside_of_ne {r : Request} (h : ∀ q, r ≠ .send q) (w : σ) (k : η) :
    beside site host r (w, k) = ((site r w).1, (site r w).2, k) := by
  cases r with
  | send q => exact absurd rfl (h q)
  | _ => rfl

theorem site_of_requests (reading : ∀ p w, (site (.readFile p) w).2 = w) {p : Program α} {w : σ}
    {k : η} (h : ∀ ev ∈ p.trace (beside site host) (w, k), ReleaseHost.requests ev.1) :
    (p.runWith (beside site host) (w, k)).2.1 = w := by
  induction p generalizing w k with
  | done a => rfl
  | ask r next ih =>
    rw [trace] at h
    obtain ⟨hr, hnext⟩ := List.forall_mem_cons.mp h
    have hstep : (beside site host r (w, k)).2.1 = w := by
      cases r with
      | send q => rfl
      | readFile p => exact reading p w
      | _ => cases hr
    rw [runWith]
    generalize beside site host r (w, k) = x at *
    obtain ⟨x, v, l⟩ := x
    obtain rfl : v = w := hstep
    exact ih _ hnext

/-- The second program does what the first one does, or goes on where the first one is done, with
requests to the release host and looks at files, to an end that has to do with the first one's. -/
inductive Extends (more : α → α → Prop) : Program α → Program α → Prop
  | done (a : α) : Extends more (.done a) (.done a)
  | ask {r : Request} {next next' : r.Answer → Program α}
      (hn : ∀ x, Extends more (next x) (next' x)) : Extends more (.ask r next) (.ask r next')
  | further {a : α} {q : Program α}
      (h : ∀ t b, q.Runs t b → (∀ ev ∈ t, ReleaseHost.requests ev.1) ∧ more a b) :
      Extends more (.done a) q

namespace Extends
variable {more : α → α → Prop} {more' : β → β → Prop} {p q : Program α}

theorem refl (p : Program α) : Extends more p p := by
  induction p with
  | done a => exact .done a
  | ask r next ih => exact .ask ih

theorem behind {f f' : α → Program β} (p : Program α) (hf : ∀ a, Extends more' (f a) (f' a)) :
    Extends more' (p.bind f) (p.bind f') := by
  induction p with
  | done a => exact hf a
  | ask r next ih => exact .ask ih

theorem map (h : Extends more p q) (g : α → β) (hg : ∀ a b, more a b → more' (g a) (g b)) :
    Extends more' (p.map g) (q.map g) := by
  induction h with
  | done a => exact .done (g a)
  | ask _ ih => exact .ask ih
  | further h =>
    refine .further fun t y hr => ?_
    obtain ⟨b, rfl, hb⟩ := runs_map.mp hr
    obtain ⟨hreq, hm⟩ := h t b hb
    exact ⟨hreq, hg _ b hm⟩

theorem runs (h : Extends more p q) (host : HttpRequest → σ × η → HttpResult × η)
    (reading : ∀ p w, (site (.readFile p) w).2 = w) (w : σ) (k : η)
    (hunsent : ∀ ev ∈ p.trace site w, ∀ x, ev.1 ≠ .send x) :
    ∃ u, q.trace (beside site host) (w, k) = p.trace site w ++ u ∧
      (∀ ev ∈ u, ReleaseHost.requests ev.1) ∧
      (q.runWith (beside site host) (w, k)).2.1 = (p.runWith site w).2 ∧
      ((u = [] ∧ (q.runWith (beside site host) (w, k)).1 = (p.runWith site w).1) ∨
        more (p.runWith site w).1 (q.runWith (beside site host) (w, k)).1) := by
  induction h generalizing w k with
  | done a => exact ⟨[], rfl, by simp, rfl, .inl ⟨rfl, rfl⟩⟩
  | @ask r next next' _ ih =>
    rw [trace] at hunsent
    obtain ⟨hr, hnext⟩ := List.forall_mem_cons.mp hunsent
    simp only [trace, runWith, beside_of_ne hr]
    obtain ⟨u, ht, hu, hw, hend⟩ := ih (site r w).1 (site r w).2 k hnext
    exact ⟨u, by rw [ht]; rfl, hu, hw, hend⟩
  | @further a q h =>
    obtain ⟨hreq, hm⟩ := h _ _ (runs_trace (beside site host) q (w, k))
    exact ⟨_, rfl, hreq, site_of_requests reading hreq, .inr hm⟩

end Extends
end Program
open Program (Extends beside)

namespace Context

/-- A context that has left out its upload, and one that may have failed in it; they found the same
before. -/
structure Departs (x y : Journal × Findings × Except Stop α) : Prop where
  through : ∃ a, x.2.2 = .ok a
  toolchain : y.2.1.toolchain = x.2.1.toolchain
  invocation : y.2.1.invocation = x.2.1.invocation
  ending : (∃ a, y.2.2 = .ok a) ∨ ∃ e, y.2.2 = .error (stopOf .publish e)

theorem extends_behind {c : Context α} {f f' : α → Context β}
    (hf : ∀ a, Extends Departs (f a).run (f' a).run) :
    Extends Departs (c >>= f).run (c >>= f').run := by
  refine .behind c.run fun r => ?_
  obtain ⟨j, g, e | a⟩ := r
  · exact .done _
  · refine (hf a).map _ fun x y h => ?_
    exact ⟨h.through, by simp [h.toolchain], by simp [h.invocation], h.ending⟩

def close (j : Journal) (g : α → Findings) (b : β) (x : Journal × Findings × Except Stop α) :
    Journal × Findings × Except Stop β :=
  (x.1 ++ x.2.2.toOption.elim .empty fun _ => j, x.2.1 ++ x.2.2.toOption.elim .none g,
    x.2.2.map fun _ => b)

section Close
variable {j : Journal} {g : α → Findings} {b : β}

theorem bind_close {c : Context α} {k : α → Context β}
    (hk : ∀ a, (k a).run = .done (j, g a, .ok b)) : (c >>= k).run = c.run.map (close j g b) := by
  refine congrArg c.run.bind (funext fun r => ?_)
  obtain ⟨i, f, stop | a⟩ := r
  · simp [close, Except.toOption, Except.map]
  · simp only [hk]
    rfl

theorem close_found (hg : ∀ a, (g a).toolchain = none ∧ (g a).invocation = none)
    (x : Journal × Findings × Except Stop α) :
    (close j g b x).2.1.toolchain = x.2.1.toolchain ∧
      (close j g b x).2.1.invocation = x.2.1.invocation := by
  obtain ⟨i, f, stop | a⟩ := x
  · simp [close, Except.toOption]
  · simp [close, Except.toOption, hg a]

theorem Departs.close {x y : Journal × Findings × Except Stop α} (h : Departs x y)
    (hg : ∀ a, (g a).toolchain = none ∧ (g a).invocation = none) :
    Departs (close j g b x) (close j g b y) where
  through := by
    obtain ⟨a, ha⟩ := h.through
    exact ⟨b, by simp [Context.close, ha, Except.map]⟩
  toolchain := (close_found hg y).1.trans (h.toolchain.trans (close_found hg x).1.symm)
  invocation := (close_found hg y).2.trans (h.invocation.trans (close_found hg x).2.symm)
  ending := by
    rcases h.ending with ⟨a, ha⟩ | ⟨e, he⟩
    · exact .inl ⟨b, by simp [Context.close, ha, Except.map]⟩
    · exact .inr ⟨e, by simp [Context.close, he, Except.map]⟩

theorem extends_then {c c' : Context α} {k : α → Context β}
    (hk : ∀ a, (k a).run = .done (j, g a, .ok b))
    (hg : ∀ a, (g a).toolchain = none ∧ (g a).invocation = none)
    (h : Extends Departs c.run c'.run) : Extends Departs (c >>= k).run (c' >>= k).run := by
  rw [bind_close hk, bind_close hk]
  exact h.map _ fun x y hxy => hxy.close hg

end Close

theorem extends_within {s s' : Step α} (h : Extends (fun x _ => ∃ a, x.2 = .ok a) s.run s'.run) :
    Extends Departs (within .publish s).run (within .publish s').run := by
  refine h.map _ fun x y hx => ?_
  obtain ⟨j, e | a⟩ := x
  · obtain ⟨a, ha⟩ := hx
    cases ha
  · obtain ⟨j', e | a'⟩ := y
    · exact ⟨⟨a, rfl⟩, rfl, rfl, .inr ⟨e, rfl⟩⟩
    · exact ⟨⟨a, rfl⟩, rfl, rfl, .inl ⟨a', rfl⟩⟩

end Context

theorem Adapter.publish_extends (h : ReleaseHost) (ambient : Env) (file : Path) (asset : String)
    (target : Target) :
    Extends (fun x _ => ∃ a, x.2 = .ok a) (Adapter.dryRun.publish ambient file asset target).run
      ((Adapter.host h).publish ambient file asset target).run := by
  refine .ask fun seen => ?_
  obtain c | found := seen
  · exact .refl _
  cases found with
  | false => exact .refl _
  | true =>
    refine .further fun t b hr => ⟨?_, _, rfl⟩
    obtain ⟨⟨j, r⟩, -, hr⟩ := Program.runs_map.mp hr
    have hr : (Step.note .info "native_release.publish" _ >>= fun _ =>
        h.upload file asset target).Runs t j r := hr
    obtain ⟨i, -, hu⟩ := Step.runs_note_bind.mp hr
    exact (ReleaseHost.upload_runs hu).requests

def Outcome.Departs (x y : Outcome) : Prop :=
  ∃ d, x.2 = .ok d ∧ d.status = .succeeded ∧ ∀ r, y.2 = .ok r →
    r.toolchain = d.toolchain ∧ r.invocation = d.invocation ∧
      (r.status = .succeeded ∨ (r.status = .failed ∧ r.failedStage = some .publish))

theorem Context.extends_finish {c c' : Context Unit} (h : Extends Departs c.run c'.run)
    (key host : String) :
    Extends Outcome.Departs (finish key host c) (finish key host c') := by
  refine h.map _ fun x y hxy => ?_
  obtain ⟨j, f, r⟩ := x
  obtain ⟨j', f', r'⟩ := y
  obtain ⟨⟨⟨⟩, ha⟩, htoolchain, hinvocation, hend⟩ := hxy
  obtain rfl : r = .ok () := ha
  refine ⟨_, rfl, rfl, fun d hd => ?_⟩
  rcases hend with ⟨⟨⟩, he⟩ | ⟨e, he⟩
  · obtain rfl : r' = .ok () := he
    cases hd
    exact ⟨htoolchain, hinvocation, .inl rfl⟩
  · obtain rfl : r' = .error (stopOf .publish e) := he
    cases e with
    | release e =>
      cases hd
      exact ⟨htoolchain, hinvocation, .inr ⟨rfl, rfl⟩⟩
    | crash c => cases hd

namespace Surroundings

def publishing (s : Surroundings) (a : Adapter) : Surroundings :=
  { s with collaborators := { s.collaborators with adapter := a } }

variable (s : Surroundings) (h : ReleaseHost) (target : Target)

theorem releaseContext_extends (e : Entry) :
    Extends Outcome.Departs ((s.publishing .dryRun).releaseContext target e)
      ((s.publishing (.host h)).releaseContext target e) := by
  refine extends_finish ?_ e.artifact e.host
  -- Up to the upload the adapter is not used, so both contexts are the same program there.
  refine extends_behind fun ⟨workspace, env⟩ => extends_behind fun _ => extends_behind fun _ =>
    extends_behind fun artifact => ?_
  refine extends_then (fun _ => rfl) (fun _ => ⟨rfl, rfl⟩) ?_
  exact extends_behind fun _ =>
    extends_within (Adapter.publish_extends h s.ambient artifact e.artifact target)

variable {s target} in
theorem dryRun_unsent {e : Entry} {t : Trace} {o : Outcome}
    (h₀ : ((s.publishing .dryRun).releaseContext target e).Runs t o) :
    ∀ ev ∈ t, ∀ q, ev.1 ≠ .send q := by
  obtain ⟨j, f, r, hr, -⟩ := runs_finish h₀
  rcases releases_cases (releaseStages_runs hr) with ⟨stop, -, he⟩ | ⟨t₁, u, k, x, rfl, he, hu, -⟩
  · exact endsEarly_unsent he
  · obtain ⟨i, -, hu⟩ := Step.runs_log_bind.mp hu
    obtain ⟨rfl, -, -⟩ := Step.runs_pure.mp hu
    rw [List.append_nil]
    exact reaches_unsent he

end Surroundings

def Report.EndsBeforePublish (r : Report) : Prop :=
  (r.status = .failed ∧ r.failedStage ≠ some .publish) ∨ r.status = .cancelled

/-- A context of a dry run and the same context of a run that publishes: what both have asked, what
only the second one asked behind that, and their reports. -/
structure Rehearsal where
  entry : Entry
  asked : Trace
  further : Trace
  foretold : Report
  report : Report

/-- The dry run has foretold the context. Where it has not come to its end it has even foretold the
report as a whole, and nothing is sent to the host. -/
structure Rehearsal.Faithful (s : Surroundings) (h : ReleaseHost) (target : Target)
    (c : Rehearsal) : Prop where
  dry : ∃ notes, ((s.publishing .dryRun).releaseContext target c.entry).Runs c.asked
    (notes, .ok c.foretold)
  real : ∃ notes, ((s.publishing (.host h)).releaseContext target c.entry).Runs
    (c.asked ++ c.further) (notes, .ok c.report)
  requests : ∀ ev ∈ c.further, ReleaseHost.requests ev.1
  toolchain : c.report.toolchain = c.foretold.toolchain
  invocation : c.report.invocation = c.foretold.invocation
  early : c.foretold.EndsBeforePublish ↔ c.report.EndsBeforePublish
  unchanged : c.foretold.status ≠ .succeeded → c.report = c.foretold
  unsent : c.foretold.status ≠ .succeeded → ∀ ev ∈ c.asked ++ c.further, ∀ q, ev.1 ≠ .send q

theorem Rehearsal.launches_eq {cs : List Rehearsal}
    (h : ∀ c ∈ cs, ∀ ev ∈ c.further, ReleaseHost.requests ev.1) :
    Trace.launches (cs.flatMap fun c => c.asked ++ c.further) =
      Trace.launches (cs.flatMap Rehearsal.asked) := by
  induction cs with
  | nil => rfl
  | cons c cs ih =>
    obtain ⟨hc, hcs⟩ := List.forall_mem_cons.mp h
    simp only [List.flatMap_cons, Trace.launches_append, Trace.launches_of_requests hc,
      List.append_nil, ih hcs]

theorem Outcome.reports_of_verdict_eq {os : List Outcome} {rs : List Report}
    (h : verdict os = .ok rs) : reports os = rs := by
  simpa [verdict, firstCrash_of_verdict h] using h

namespace Surroundings
variable (s : Surroundings) (h : ReleaseHost) (target : Target)
  (site : (r : Request) → σ → r.Answer × σ) (host : HttpRequest → σ × η → HttpResult × η)

theorem context_rehearsed (reading : ∀ p w, (site (.readFile p) w).2 = w) {e : Entry} {w : σ}
    {k : η} {notes notes' : List Note} {d r : Report}
    (hd : (((s.publishing .dryRun).releaseContext target e).runWith site w).1 = (notes, .ok d))
    (hr : (((s.publishing (.host h)).releaseContext target e).runWith (beside site host) (w, k)).1 =
      (notes', .ok r)) :
    ∃ c : Rehearsal, c.entry = e ∧ c.foretold = d ∧ c.report = r ∧
      ((s.publishing .dryRun).releaseContext target e).trace site w = c.asked ∧
      ((s.publishing (.host h)).releaseContext target e).trace (beside site host) (w, k) =
        c.asked ++ c.further ∧
      (((s.publishing (.host h)).releaseContext target e).runWith (beside site host) (w, k)).2.1 =
        (((s.publishing .dryRun).releaseContext target e).runWith site w).2 ∧
      c.Faithful s h target := by
  have hext := s.releaseContext_extends h target e
  have hdrun := Program.runs_trace site ((s.publishing .dryRun).releaseContext target e) w
  have hrrun := Program.runs_trace (beside site host)
    ((s.publishing (.host h)).releaseContext target e) (w, k)
  have hunsent := dryRun_unsent hdrun
  obtain ⟨u, ht, hu, hw, hend⟩ := hext.runs host reading w k hunsent
  rw [hd] at hdrun hend
  rw [hr, ht] at hrrun
  rw [hr] at hend
  refine ⟨⟨e, _, u, d, r⟩, rfl, rfl, rfl, rfl, ht, hw, ?_⟩
  -- Either both contexts ended alike, or the dry one has left out its upload.
  rcases hend with ⟨rfl, heq⟩ | ⟨d', hd', hs, hafter⟩
  · obtain rfl : r = d := by simpa using (Prod.mk.inj heq).2
    exact ⟨⟨_, hdrun⟩, ⟨_, hrrun⟩, hu, rfl, rfl, Iff.rfl, fun _ => rfl,
      fun _ ev hev => hunsent ev (by simpa using hev)⟩
  · obtain rfl : d = d' := by simpa using hd'
    obtain ⟨htoolchain, hinvocation, hstatus⟩ := hafter r rfl
    refine ⟨⟨_, hdrun⟩, ⟨_, hrrun⟩, hu, htoolchain, hinvocation, ?_, absurd hs, absurd hs⟩
    rcases hstatus with hr | ⟨hr, hst⟩
    · simp [Report.EndsBeforePublish, hs, hr]
    · simp [Report.EndsBeforePublish, hs, hr, hst]

theorem contexts_rehearsed (reading : ∀ p w, (site (.readFile p) w).2 = w) {es : List Entry}
    {ts us : List Trace} {os ps : List Outcome} {w w' : σ} {k : η} {w'' : σ × η}
    (hdry : InTurn (es.map ((s.publishing .dryRun).releaseContext target)) ts os)
    (hreal : InTurn (es.map ((s.publishing (.host h)).releaseContext target)) us ps)
    (hdrylead : Trace.Leads (Program.Answered site) w ts.flatten w')
    (hreallead : Trace.Leads (Program.Answered (beside site host)) (w, k) us.flatten w'')
    (hos : Outcome.firstCrash os = none) (hps : Outcome.firstCrash ps = none) :
    ∃ cs : List Rehearsal, cs.map Rehearsal.entry = es ∧
      cs.map Rehearsal.foretold = Outcome.reports os ∧
      cs.map Rehearsal.report = Outcome.reports ps ∧
      ts.flatten = cs.flatMap Rehearsal.asked ∧
      us.flatten = cs.flatMap (fun c => c.asked ++ c.further) ∧
      ∀ c ∈ cs, c.Faithful s h target := by
  -- Along the entries: where the first contexts end, the site is the same for both runs again.
  induction es generalizing ts us os ps w k with
  | nil =>
    cases hdry
    cases hreal
    exact ⟨[], by simp [Outcome.reports]⟩
  | cons e es ih =>
    cases hdry with
    | @cons _ _ t ts o os hd hds =>
    cases hreal with
    | @cons _ _ u us p ps hr hrs =>
    obtain ⟨v, hdlead, hdslead⟩ := Trace.leads_append.mp hdrylead
    obtain ⟨x, hrlead, hrslead⟩ := Trace.leads_append.mp hreallead
    obtain ⟨rfl, hdrun⟩ := hd.unique hdlead
    obtain ⟨rfl, hrrun⟩ := hr.unique hrlead
    obtain ⟨notes, c | d⟩ := o
    · cases hos
    obtain ⟨notes', c | r⟩ := p
    · cases hps
    obtain ⟨c, rfl, rfl, rfl, hasked, hall, hsite, hc⟩ :=
      s.context_rehearsed h target site host reading (by rw [hdrun]) (by rw [hrrun])
    rw [hdrun, hrrun] at hsite
    obtain ⟨v', k'⟩ := x
    obtain rfl : v' = v := hsite
    obtain ⟨cs, rfl, hos, hps, hts, hus, hcs⟩ := ih hds hrs hdslead hrslead hos hps
    refine ⟨c :: cs, rfl, ?_, ?_, ?_, ?_, List.forall_mem_cons.mpr ⟨hc, hcs⟩⟩
    · simpa [Outcome.reports, Except.toOption] using hos
    · simpa [Outcome.reports, Except.toOption] using hps
    · rw [List.flatten_cons, List.flatMap_cons, hasked, hts]
    · rw [List.flatten_cons, List.flatMap_cons, hall, hus]

/-- Two runs of the contexts of a matrix: they start the same processes in the same order, and each
context of the first one has foretold that of the second. -/
structure Foretold (m : Matrix) (dry : Trace) (ds : List Report) (real : Trace) (rs : List Report) :
    Prop where
  launches : real.launches = dry.launches
  contexts : ∃ cs : List Rehearsal, cs.map Rehearsal.entry = m.entries ∧
    cs.map Rehearsal.foretold = ds ∧ cs.map Rehearsal.report = rs ∧
    dry = cs.flatMap Rehearsal.asked ∧ real = cs.flatMap (fun c => c.asked ++ c.further) ∧
    ∀ c ∈ cs, c.Faithful s h target

theorem releases_foretold (reading : ∀ p w, (site (.readFile p) w).2 = w) {m : Matrix}
    (hone : Pool.workersFor s.settings.workers m.entries.length = 1) {schedule schedule' : List Nat}
    {w w' : σ} {k : η} {w'' : σ × η} {dry real : Trace} {j j' : Journal} {ds rs : List Report}
    (hdry : ((s.publishing .dryRun).release schedule m target).Runs dry j (.ok ds))
    (hreal : ((s.publishing (.host h)).release schedule' m target).Runs real j' (.ok rs))
    (hdrylead : Trace.Leads (Program.Answered site) w dry w')
    (hreallead : Trace.Leads (Program.Answered (beside site host)) (w, k) real w'') :
    s.Foretold h target m dry ds real rs := by
  obtain ⟨_, -, hdry⟩ := Step.runs_note_bind.mp hdry
  obtain ⟨_, -, hreal⟩ := Step.runs_note_bind.mp hreal
  obtain ⟨ts, os, rfl, hdry, hos⟩ := fanOut_inTurn (by simpa [publishing] using hone) hdry
  obtain ⟨us, ps, rfl, hreal, hps⟩ := fanOut_inTurn (by simpa [publishing] using hone) hreal
  obtain ⟨cs, hes, hds, hrs, hasked, hall, hcs⟩ := s.contexts_rehearsed h target site host reading
    hdry hreal hdrylead hreallead (Outcome.firstCrash_of_verdict hos)
    (Outcome.firstCrash_of_verdict hps)
  rw [Outcome.reports_of_verdict_eq hos] at hds
  rw [Outcome.reports_of_verdict_eq hps] at hrs
  refine ⟨?_, cs, hes, hds, hrs, hasked, hall, hcs⟩
  rw [hasked, hall, Rehearsal.launches_eq fun c hc => (hcs c hc).requests]

/-- A dry run foretells the run that publishes when each runs one context after the other: the site,
its files and its processes are the same for both, whatever the host answers. -/
theorem dryRun_foretells (reading : ∀ p w, (site (.readFile p) w).2 = w) (m : Matrix)
    (hone : Pool.workersFor s.settings.workers m.entries.length = 1) (schedule schedule' : List Nat)
    (w : σ) (k : η) {ds rs : List Report}
    (hd : (((s.publishing .dryRun).release schedule m target).run.runWith site w).1.2 = .ok ds)
    (hr : (((s.publishing (.host h)).release schedule' m target).run.runWith
      (beside site host) (w, k)).1.2 = .ok rs) :
    s.Foretold h target m (((s.publishing .dryRun).release schedule m target).run.trace site w) ds
      (((s.publishing (.host h)).release schedule' m target).run.trace (beside site host) (w, k))
      rs := by
  have hdry := Step.runs_trace site ((s.publishing .dryRun).release schedule m target) w
  have hreal := Step.runs_trace (beside site host)
    ((s.publishing (.host h)).release schedule' m target) (w, k)
  rw [hd] at hdry
  rw [hr] at hreal
  exact s.releases_foretold h target site host reading hone hdry hreal
    (Program.leads_trace site _ w) (Program.leads_trace (beside site host) _ (w, k))

def scripted (_ : HttpRequest) (w : σ × List HttpResult) : HttpResult × List HttpResult :=
  match w.2 with
  | [] => (.failed "unreachable", [])
  | x :: xs => (x, xs)

open Simulation in
/-- The first context of the dry run ends, the second fails in its build and the third is cancelled;
with a host that has no answers the first one fails too, and the others are the same. -/
theorem brokenRun_foretold :
    let s : Surroundings := { dryRun (Path.ofString "/work") true with
      settings := { (dryRun (Path.ofString "/work") true).settings with workers := some 1 } }
    let h := ReleaseHost.new "owner/bindings" "https://host"
    let target : Target := ⟨"v1", "", none⟩
    let ends (rs : List Report) := rs.map fun r => (r.status, r.failedStage)
    ∃ dry ds real rs, s.Foretold h target brokenMatrix dry ds real rs ∧
      ends ds = [(.succeeded, none), (.failed, some .build), (.cancelled, some .setup)] ∧
      ends rs = [(.failed, some .publish), (.failed, some .build), (.cancelled, some .setup)] := by
  intro s h target ends
  obtain ⟨ds, hds, hdends⟩ : ∃ ds,
      (((s.publishing .dryRun).release [1] brokenMatrix target).run.runWith
        World.answer brokenWorld).1.2 = .ok ds ∧
      ends ds = [(.succeeded, none), (.failed, some .build), (.cancelled, some .setup)] :=
    exists_of_toOption (by decide +kernel)
  obtain ⟨rs, hrs, hrends⟩ : ∃ rs,
      (((s.publishing (.host h)).release [0, 2] brokenMatrix target).run.runWith
        (beside World.answer scripted) (brokenWorld, [])).1.2 = .ok rs ∧
      ends rs = [(.failed, some .publish), (.failed, some .build), (.cancelled, some .setup)] :=
    exists_of_toOption (by decide +kernel)
  have hone : Pool.workersFor s.settings.workers brokenMatrix.entries.length = 1 := by
    decide +kernel
  have hreading (p : Path) (w : World) : (World.answer (.readFile p) w).2 = w := rfl
  have hfore := s.dryRun_foretells h target World.answer scripted hreading brokenMatrix hone
    [1] [0, 2] brokenWorld [] hds hrs
  exact ⟨_, ds, _, rs, hfore, hdends, hrends⟩

end Surroundings
end BindingRelease
