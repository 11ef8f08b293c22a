import BindingRelease.Proofs.FanOut
import BindingRelease.Proofs.StageOrder
import BindingRelease.Proofs.TruthfulHost
/-!
The race of the contexts of one run for one release. All of them look for the release, and those
that do not find it try to make it; only one of them can. On a truthful host every context whose
artifact is found publishes it nevertheless, in every interleaving, and the release is made at most
once.
-/
namespace BindingRelease
open Trace ReleaseHost
variable {σ : Type} {s : Surroundings} {h : ReleaseHost} {target : Target} {e : Entry}
  {answer : (r : Request) → σ → r.Answer × σ} {view : σ → Shelf} {address : String → Prop}
  {w w' : σ} {t : Trace} {o : Outcome} {m : Matrix} {l : Tagged} {os : List Outcome}

def Outcome.Publishes (o : Outcome) (e : Entry) (target : Target) : Prop :=
  ∃ r u, o.2 = .ok r ∧ r.status = .succeeded ∧ r.upload = some u ∧
    u.asset = e.artifact ∧ u.tag = target.tag ∧ u.status = Upload.succeeded

theorem answers_of_leads (hl : Leads (Program.Answered answer) w t w') : Answers answer t := by
  induction t generalizing w with
  | nil =>
    intro ev hev
    cases hev
  | cons ev t ih =>
    obtain ⟨n, hs, ht⟩ := hl
    intro ev' hev
    rcases List.mem_cons.mp hev with rfl | hev
    · exact ⟨w, hs.1⟩
    · exact ih ht ev' hev

theorem Matrix.artifact_ne {j k : Nat} {e e' : Entry} (hj : m.entries[j]? = some e)
    (hk : m.entries[k]? = some e') (hne : j ≠ k) : e.artifact ≠ e'.artifact := by
  intro he
  have hlt : j < (m.entries.map Entry.artifact).length := by
    simpa using (List.getElem?_eq_some_iff.mp hj).1
  refine hne ((List.getElem?_inj hlt m.distinct).mp ?_)
  simp [hj, hk, he]

namespace Surroundings

/-- How a race ends. Every context published its artifact, unless it ended before that was found
and has sent nothing.
If there was a release it was not made again; else it was made once if anything was published, and
is still not there if not. Every published asset is on the release once, and those of other names
are as they were. -/
structure RaceSettles (s : Surroundings) (m : Matrix) (target : Target) (l : Tagged)
    (os : List Outcome) (before after : Shelf) : Prop where
  each : ∀ (k : Nat) e, m.entries[k]? = some e → ∃ o, os[k]? = some o ∧
    (s.releaseContext target e).Runs (l.share k) o ∧
    (o.Publishes e target ∨
      ((∃ stop, s.EndsEarly e (l.share k) stop) ∧ ∀ ev ∈ l.share k, ∀ q, ev.1 ≠ .send q))
  made : (∃ (k : Nat) (e : Entry) (o : Outcome), m.entries[k]? = some e ∧ os[k]? = some o ∧
      o.Publishes e target) →
    after.released = true ∧
      after.creations = if before.released then before.creations else before.creations + 1
  kept : (∀ (k : Nat) e o, m.entries[k]? = some e → os[k]? = some o → ¬ o.Publishes e target) →
    after = before
  attached : ∀ (k : Nat) e o, m.entries[k]? = some e → os[k]? = some o → o.Publishes e target →
    after.assets.count e.artifact = 1
  others : ∀ name, (∀ (k : Nat) e o, m.entries[k]? = some e → os[k]? = some o →
      o.Publishes e target → e.artifact ≠ name) →
    after.assets.count name = before.assets.count name

theorem releaseContext_asks (hw : Truthful h target answer view address)
    (ha : s.collaborators.adapter = .host h) (h₀ : (s.releaseContext target e).Runs t o)
    (hans : Answers answer t) : ∀ ev ∈ t, Asks h target address e.artifact ev := by
  obtain ⟨j, f, r, hr, -⟩ := runs_finish h₀
  rcases releases_cases (releaseStages_runs hr) with ⟨stop, -, hs⟩ | ⟨t, u, k, x, rfl, hs, hu, -⟩
  · exact fun ev hev => .aside (endsEarly_unsent hs ev hev)
  · unfold uploadOf at hu
    rw [ha] at hu
    have hu := hw.uploads_asks (upload_runs hu) fun ev hev => hans ev (List.mem_append_right _ hev)
    intro ev hev
    cases List.mem_append.mp hev with
    | inl h' => exact .aside (reaches_unsent hs ev h')
    | inr h' => exact hu ev h'

theorem not_publishes_of_stop {key host : String} {logs : List String} {f : Findings} {stop : Stop}
    {notes : List Note} :
    ¬ Outcome.Publishes (notes, (Context.report key host logs f (.error stop)).2) e target := by
  rintro ⟨r, u, ho, hr, -⟩
  cases stop with
  | cancelled st =>
    cases ho
    cases hr
  | failed st err =>
    cases ho
    cases hr
  | crashed c => cases ho

/-- One context among others, on a truthful host. -/
theorem releaseContext_beside (hw : Truthful h target answer view address)
    (ha : s.collaborators.adapter = .host h) (h₀ : (s.releaseContext target e).Runs t o)
    (hans : Answers answer t) (hl : Leads (Beside answer view e.artifact) w t w')
    (hread : ∀ n, ∃ content, (answer (.readFile (s.buildOf e).artifactPath) n).1 = .ok content)
    (hnew : (view w).assets.count e.artifact = 0) :
    (¬ o.Publishes e target ∧ ∃ stop, s.EndsEarly e t stop) ∨
      (o.Publishes e target ∧ (view w').released = true ∧
        (view w').assets.count e.artifact = 1) := by
  obtain ⟨j, f, r, hr, rfl⟩ := runs_finish h₀
  rcases releases_cases (releaseStages_runs hr) with
    ⟨stop, rfl, hs⟩ | ⟨t, u, k, x, rfl, hs, hu, hx⟩
  · exact .inl ⟨not_publishes_of_stop, stop, hs⟩
  · unfold uploadOf at hu
    rw [ha] at hu
    obtain ⟨n, hl₁, hl₂⟩ := leads_append.mp hl
    have hn : Shelf.Rely e.artifact (view w) (view n) :=
      hl₁.ends (fun a b => Shelf.Rely e.artifact (view a) (view b)) (fun _ => .refl _ _)
        (fun _ _ _ hab hbc => hab.trans hbc)
        fun ev hev a b hs' => hw.aside_beside hs' (reaches_unsent hs ev hev)
    obtain ⟨hrel, hcount, page, rfl⟩ := hw.uploads_beside (upload_runs hu)
      (fun ev hev => hans ev (List.mem_append_right _ hev)) hl₂ hread (hn.count.trans hnew)
    cases hx with
    | uploaded hf => exact .inr ⟨⟨_, _, rfl, rfl, hf, rfl, rfl, rfl⟩, hrel, hcount⟩

end Surroundings

/-- The contexts of a run in some interleaving, which publish to a truthful host that has none of
their assets; the artifacts can be read. -/
structure Race (s : Surroundings) (h : ReleaseHost) (m : Matrix) (target : Target)
    (answer : (r : Request) → σ → r.Answer × σ) (view : σ → Shelf) (address : String → Prop)
    (l : Tagged) (os : List Outcome) (w w' : σ) : Prop where
  truthful : Truthful h target answer view address
  adapter : s.collaborators.adapter = .host h
  interleaves : Pool.Interleaves (Outcome.watch s.signal)
    (m.entries.map (s.releaseContext target)) l os
  leads : Leads (Program.Answered answer) w (l.map Prod.snd) w'
  fresh : ∀ e ∈ m.entries, e.artifact ∉ (view w).assets
  readable : ∀ e ∈ m.entries, ∀ n,
    ∃ content, (answer (.readFile (s.buildOf e).artifactPath) n).1 = .ok content

namespace Race
variable {k : Nat}

theorem answers_share (hr : Race s h m target answer view address l os w w') (k : Nat) :
    Answers answer (l.share k) := fun ev hev =>
  answers_of_leads hr.leads ev (List.mem_map.mpr ⟨_, Tagged.mem_share.mp hev, rfl⟩)

theorem runs_share (hr : Race s h m target answer view address l os w w')
    (hk : m.entries[k]? = some e) :
    ∃ o, os[k]? = some o ∧ (s.releaseContext target e).Runs (l.share k) o :=
  hr.interleaves.each k _ (by simp [hk])

theorem asked (hr : Race s h m target answer view address l os w w') {i : Option Nat} {ev : Event}
    (hev : (i, ev) ∈ l) :
    (∀ q, ev.1 ≠ .send q) ∨ ∃ k e, i = some k ∧ m.entries[k]? = some e ∧
      Asks h target address e.artifact ev := by
  cases i with
  | none =>
    left
    obtain ⟨os, u, hu, hm⟩ := hr.interleaves.collector ev hev
    unfold Outcome.watch at hu
    split at hu
    · cases hs : s.signal with
      | false =>
        rw [hs] at hu
        obtain ⟨rfl, -⟩ := hu
        cases hm
      | true =>
        rw [hs] at hu
        obtain ⟨x, t', rfl, rfl, -⟩ := hu
        cases List.mem_singleton.mp hm
        exact nofun
    · obtain ⟨rfl, -⟩ := hu
      cases hm
  | some k =>
    right
    have hlt : k < m.entries.length := by simpa using hr.interleaves.known k ev hev
    have hk := List.getElem?_eq_getElem hlt
    obtain ⟨o, -, ho⟩ := hr.runs_share hk
    exact ⟨k, _, rfl, hk, Surroundings.releaseContext_asks hr.truthful hr.adapter ho
      (hr.answers_share k) ev (Tagged.mem_share.mpr hev)⟩

theorem aside (hr : Race s h m target answer view address l os w w') {ev : Event} {a b : σ}
    (hn : ∀ q, ev.1 ≠ .send q) (hs : Program.Answered answer a ev b) : view b = view a := by
  obtain ⟨-, rfl⟩ := hs
  exact hr.truthful.aside _ a hn

/-- What the other contexts do in between is what an uploader relies on. -/
theorem share_leads (hr : Race s h m target answer view address l os w w')
    (hk : m.entries[k]? = some e) :
    ∃ n, Leads (Beside answer view e.artifact) w (l.share k) n ∧
      Shelf.Rely e.artifact (view n) (view w') := by
  refine hr.leads.share (fun _ => .refl _ _) (fun _ _ _ hab hbc => hab.trans hbc) ?_
  intro i ev hev hi a b hs
  rcases hr.asked hev with hn | ⟨k', e', rfl, hk', ha⟩
  · rw [hr.aside hn hs]
    exact .refl _ _
  · have hne : k ≠ k' := fun he => hi (by rw [he])
    exact hr.truthful.rely_of_asks (Matrix.artifact_ne hk hk' hne) ha hs

theorem context (hr : Race s h m target answer view address l os w w')
    (hk : m.entries[k]? = some e) (ho : os[k]? = some o) :
    (¬ o.Publishes e target ∧ ∃ stop, s.EndsEarly e (l.share k) stop) ∨
      (o.Publishes e target ∧ (view w').released = true ∧
        (view w').assets.count e.artifact = 1) := by
  obtain ⟨o', ho', hruns⟩ := hr.runs_share hk
  rw [ho] at ho'
  cases ho'
  obtain ⟨n, hn, hrest⟩ := hr.share_leads hk
  have he := List.mem_of_getElem? hk
  rcases Surroundings.releaseContext_beside hr.truthful hr.adapter hruns (hr.answers_share k) hn
    (hr.readable e he) (List.count_eq_zero.mpr (hr.fresh e he)) with hs | ⟨hp, hrel, hcount⟩
  · exact .inl hs
  · exact .inr ⟨hp, hrest.released hrel, hrest.count.trans hcount⟩

theorem published (hr : Race s h m target answer view address l os w w')
    (hk : m.entries[k]? = some e) (ho : os[k]? = some o) (hp : o.Publishes e target) :
    (view w').released = true ∧ (view w').assets.count e.artifact = 1 := by
  rcases hr.context hk ho with ⟨hn, -⟩ | ⟨-, h'⟩
  · exact absurd hp hn
  · exact h'

theorem unsent (hr : Race s h m target answer view address l os w w')
    (hk : m.entries[k]? = some e) (hn : ∀ o, os[k]? = some o → ¬ o.Publishes e target)
    {ev : Event} (hev : (some k, ev) ∈ l) : ∀ q, ev.1 ≠ .send q := by
  obtain ⟨o, ho, -⟩ := hr.runs_share hk
  rcases hr.context hk ho with ⟨-, stop, hs⟩ | ⟨hp, -⟩
  · exact Surroundings.endsEarly_unsent hs ev (Tagged.mem_share.mpr hev)
  · exact absurd hp (hn o ho)

theorem balance (hr : Race s h m target answer view address l os w w') :
    (view w').creations + (view w).released.toNat =
      (view w).creations + (view w').released.toNat := by
  refine hr.leads.tagged_ends (fun a b => (view b).creations + (view a).released.toNat =
    (view a).creations + (view b).released.toNat) (fun _ => rfl) ?_ ?_
  · intro a b c hab hbc
    omega
  · intro i ev hev a b hs
    rcases hr.asked hev with hn | ⟨k, e, -, -, ha⟩
    · rw [hr.aside hn hs]
    · exact hr.truthful.balance_of_asks ha hs

theorem settles (hr : Race s h m target answer view address l os w w') :
    s.RaceSettles m target l os (view w) (view w') := by
  refine ⟨?_, ?_, ?_, ?_, ?_⟩
  · intro k e hk
    obtain ⟨o, ho, hruns⟩ := hr.runs_share hk
    rcases hr.context hk ho with ⟨-, stop, hs⟩ | ⟨hp, -⟩
    · exact ⟨o, ho, hruns, .inr ⟨⟨stop, hs⟩, Surroundings.endsEarly_unsent hs⟩⟩
    · exact ⟨o, ho, hruns, .inl hp⟩
  · rintro ⟨k, e, o, hk, ho, hp⟩
    have hrel := (hr.published hk ho hp).1
    have hb := hr.balance
    rw [hrel] at hb
    refine ⟨hrel, ?_⟩
    cases hv : (view w).released with
    | true => simpa [hv] using hb
    | false => simpa [hv] using hb
  · intro hn
    refine hr.leads.tagged_ends (fun a b => view b = view a) (fun _ => rfl)
      (fun _ _ _ hab hbc => hbc.trans hab) ?_
    intro i ev hev a b hs
    rcases hr.asked hev with hq | ⟨k, e, rfl, hk, -⟩
    · exact hr.aside hq hs
    · exact hr.aside (hr.unsent hk (fun o ho => hn k e o hk ho) hev) hs
  · exact fun k e o hk ho hp => (hr.published hk ho hp).2
  · intro name hn
    refine hr.leads.tagged_ends
      (fun a b => (view b).assets.count name = (view a).assets.count name) (fun _ => rfl)
      (fun _ _ _ hab hbc => hbc.trans hab) ?_
    intro i ev hev a b hs
    rcases hr.asked hev with hq | ⟨k, e, rfl, hk, ha⟩
    · rw [hr.aside hq hs]
    · by_cases he : e.artifact = name
      · rw [hr.aside (hr.unsent hk (fun o ho hp => hn k e o hk ho hp he) hev) hs]
      · exact (hr.truthful.rely_of_asks (Ne.symm he) ha hs).count

end Race

namespace Surroundings

/-- Whatever the schedule and the number of workers, and whether or not there is a release: every
context of a run that finds its artifact ends with the record of the attached asset, and the
release is made once if it was not there and never if it was. -/
theorem release_race_settles (s : Surroundings) {h : ReleaseHost}
    (ha : s.collaborators.adapter = .host h) (schedule : List Nat) (m : Matrix) (target : Target)
    {answer : (r : Request) → σ → r.Answer × σ} {view : σ → Shelf} {address : String → Prop}
    (hw : Truthful h target answer view address) (w : σ)
    (fresh : ∀ e ∈ m.entries, e.artifact ∉ (view w).assets)
    (readable : ∀ e ∈ m.entries, ∀ n,
      ∃ content, (answer (.readFile (s.buildOf e).artifactPath) n).1 = .ok content) :
    let run := (s.release schedule m target).run
    ∃ (l : Tagged) (os : List Outcome), l.map Prod.snd = run.trace answer w ∧
      (run.runWith answer w).1.2 = Outcome.verdict os ∧
      s.RaceSettles m target l os (view w) (view (run.runWith answer w).2) := by
  intro run
  have h₀ : (s.release schedule m target).Runs _ _ _ := Program.runs_trace answer run w
  obtain ⟨j, -, h₁⟩ := Step.runs_note_bind.mp h₀
  obtain ⟨l, os, hl, hi, -, hv⟩ := fanOut_runs h₁
  have hleads : Leads (Program.Answered answer) w (l.map Prod.snd) (run.runWith answer w).2 :=
    hl ▸ Program.leads_trace answer run w
  have race : Race s h m target answer view address l os w (run.runWith answer w).2 :=
    ⟨hw, ha, hi, hleads, fresh, readable⟩
  exact ⟨l, os, hl, hv, race.settles⟩

end Surroundings

namespace Shelf

/-- A host that is its shelf. Everything but the host is obliging. -/
def respond : (r : Request) → Shelf → r.Answer × Shelf
  | .send q, w =>
    let release := Value.object [("upload_url", .text "https://uploads\x7b?name\x7d")]
    match q.method, q.params with
    | .get, _ =>
      (HttpResult.response
        (if w.released then ⟨200, "", "OK", .ok release⟩ else ⟨404, "", "Not Found", .error ""⟩), w)
    | .post, [] =>
      if w.released then (HttpResult.response ⟨422, "", "Unprocessable", .error ""⟩, w)
      else (HttpResult.response ⟨201, "", "Created", .ok release⟩,
        { w with released := true, creations := w.creations + 1 })
    | .post, (_, asset) :: _ =>
      if w.released = true ∧ asset ∉ w.assets then
        (HttpResult.response ⟨201, "", "Created", .ok (.object [])⟩,
          { w with assets := asset :: w.assets })
      else (HttpResult.response ⟨422, "", "Unprocessable", .error ""⟩, w)
  | r, w => (Surroundings.obliging r, w)

theorem respond_truthful (h : ReleaseHost) (target : Target) :
    Truthful h target respond (fun w => w) (· = "https://uploads") := by
  have addresses : Addresses (· = "https://uploads")
      [(.text "upload_url", .text "https://uploads\x7b?name\x7d")] :=
    ⟨⟨_, rfl, by decide, by decide⟩, nofun⟩
  refine ⟨?_, ?_, ?_, ?_⟩
  · rintro ⟨released, assets, creations⟩
    cases released with
    | false => exact ⟨_, rfl, rfl, rfl⟩
    | true => exact ⟨_, rfl, rfl, rfl, _, rfl, addresses⟩
  · rintro ⟨released, assets, creations⟩
    cases released with
    | false => exact ⟨_, rfl, ⟨rfl, _, rfl, addresses⟩, rfl⟩
    | true => exact ⟨_, rfl, rfl, rfl⟩
  · intro url asset content w hu
    simp only [respond, uploadRequest]
    by_cases hc : w.released = true ∧ asset ∉ w.assets
    · rw [if_pos hc]
      exact ⟨_, rfl, by rw [if_pos hc]; exact ⟨⟨rfl, _, rfl, nofun⟩, rfl⟩⟩
    · rw [if_neg hc]
      exact ⟨_, rfl, by rw [if_neg hc]; exact ⟨fun _ => rfl, rfl⟩⟩
  · intro r w hr
    cases r <;> first | rfl | exact absurd rfl (hr _)

end Shelf

namespace Surroundings

theorem absentRelease_race_settles :
    let host := ReleaseHost.new "owner/bindings" "https://host"
    let s : Surroundings := { dryRun (Path.ofString "/work") true with
      collaborators := { Collaborators.standard with adapter := .host host } }
    let target : Target := ⟨"v1", "", none⟩
    let schedule := [0, 1, 2, 0, 1, 2, 0, 1, 2]
    let w : Shelf := ⟨false, [], 0⟩
    ((s.release schedule mixedMatrix target).run.runWith Shelf.respond w).2 =
      ⟨true, ["lib.dylib", "lib.so"], 1⟩ ∧
    (∀ e ∈ mixedMatrix.entries, e.artifact ∉ w.assets) ∧
    let run := (s.release schedule mixedMatrix target).run
    ∃ (l : Tagged) (os : List Outcome), l.map Prod.snd = run.trace Shelf.respond w ∧
      (run.runWith Shelf.respond w).1.2 = Outcome.verdict os ∧
      s.RaceSettles mixedMatrix target l os w (run.runWith Shelf.respond w).2 := by
  intro host s target schedule w
  have fresh : ∀ e ∈ mixedMatrix.entries, e.artifact ∉ w.assets := by decide
  have readable : ∀ e ∈ mixedMatrix.entries, ∀ n, ∃ content,
      (Shelf.respond (.readFile (s.buildOf e).artifactPath) n).1 = .ok content :=
    fun e he n => ⟨[], rfl⟩
  have race := s.release_race_settles rfl schedule mixedMatrix target
    (Shelf.respond_truthful host target) w fresh readable
  exact ⟨by decide +kernel, fresh, race⟩

end Surroundings
end BindingRelease
