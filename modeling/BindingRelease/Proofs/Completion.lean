import BindingRelease.Proofs.Reports
import BindingRelease.Proofs.Selection
import Mathlib.Data.List.Nodup
import Mathlib.Data.List.Perm.Subperm
/-!
A release that is completed by a second run. What was published, and what failed, are artifacts of
the matrix in its order, and no artifact is both; so a run over the failed ones publishes nothing
again, and when it succeeds, and nothing was cancelled, all artifacts are published.
-/
namespace BindingRelease
open Context Report
variable {s : Surroundings} {t : Trace} {j : Journal} {rs : List Report} {m : Matrix}
  {target : Target} {schedule : List Nat}

namespace Matrix

theorem select_names {names : List String} (hne : names ≠ [])
    (hs : names.Sublist m.artifactNames) :
    ∃ m', m.select names none = .ok m' ∧ m'.artifactNames = names := by
  have hcheck : m.checkNames names = .ok () := by
    rw [checkNames_eq, List.find?_eq_none.mpr fun n hn => by simpa using hs.subset hn]
  refine ⟨m.filter (wanted names none), by rw [select_eq, hcheck]; rfl, ?_⟩
  have hwanted : m.entries.filter (wanted names none) =
      m.entries.filter fun e => names.contains e.artifact :=
    List.filter_congr fun e _ => by simp [wanted, hne]
  have hfilter : (m.filter (wanted names none)).artifactNames =
      m.artifactNames.filter (names.contains ·) := by
    simp [artifactNames, filter, hwanted, List.filter_map, Function.comp_def]
  have hkept : names.Sublist (m.artifactNames.filter (names.contains ·)) := by
    have h := hs.filter (names.contains ·)
    rwa [List.filter_eq_self.mpr (by simp)] at h
  have hlen : (m.artifactNames.filter (names.contains ·)).length ≤ names.length := by
    refine (List.subperm_of_subset (m.distinct.filter _) fun n hn => ?_).length_le
    simpa using (List.mem_filter.mp hn).2
  rw [hfilter, ← hkept.eq_of_length_le hlen]

end Matrix

namespace Report

theorem map_key_of_forall₂ {es : List Entry}
    (h : List.Forall₂ (fun e r => r.key = e.artifact) es rs) :
    rs.map key = es.map Entry.artifact := by
  induction h with
  | nil => rfl
  | cons hk _ ih => rw [List.map_cons, List.map_cons, hk, ih]

theorem forall_of_forall₂ {es : List Entry} {Q : Report → Prop}
    (h : List.Forall₂ (fun _ r => Q r) es rs) : ∀ r ∈ rs, Q r := by
  induction h with
  | nil => simp
  | cons hq _ ih => exact List.forall_mem_cons.mpr ⟨hq, ih⟩

theorem keysWhere_sublist (p : Report → Bool) (rs : List Report) :
    (keysWhere p rs).Sublist (rs.map key) :=
  List.filter_sublist.map key

theorem mem_keysWhere {p : Report → Bool} {k : String} :
    k ∈ keysWhere p rs ↔ ∃ r ∈ rs, p r ∧ r.key = k := by
  simp [keysWhere, and_assoc]

theorem keysWhere_disjoint (hd : (rs.map key).Nodup) {p q : Report → Bool}
    (h : ∀ r ∈ rs, p r → ¬ q r) : (keysWhere p rs).Disjoint (keysWhere q rs) := by
  intro k hp hq
  obtain ⟨r, hr, hs, hk⟩ := mem_keysWhere.mp hp
  obtain ⟨r', hr', hs', hk'⟩ := mem_keysWhere.mp hq
  obtain rfl := List.inj_on_of_nodup_map hd hr hr' (hk.trans hk'.symm)
  exact h r hr hs hs'

theorem keysWhere_append_perm {p q : Report → Bool} (h : ∀ r ∈ rs, p r → ¬ q r) :
    (keysWhere p rs ++ keysWhere q rs).Perm (keysWhere (fun r => p r || q r) rs) := by
  have hp : (rs.filter fun r => p r || q r).filter p = rs.filter p := by
    rw [List.filter_filter]
    exact List.filter_congr fun r _ => by cases p r <;> simp
  have hq : ((rs.filter fun r => p r || q r).filter fun r => !p r) = rs.filter q := by
    rw [List.filter_filter]
    refine List.filter_congr fun r hr => ?_
    cases hpr : p r with
    | false => simp
    | true => simp [h r hr hpr]
  rw [keysWhere, keysWhere, ← hp, ← hq, ← List.map_append]
  exact (List.filter_append_perm p _).map key

theorem keysWhere_of_forall {p : Report → Bool} (h : ∀ r ∈ rs, p r) :
    keysWhere p rs = rs.map key := by
  rw [keysWhere, List.filter_eq_self.mpr h]

theorem not_failed_of_ok {r : Report} (h : r.ok) : ¬ r.failed := by
  have hs : r.status = .succeeded := of_decide_eq_true h
  simp [failed, hs]

theorem ok_or_failed (hd : (rs.map key).Nodup) {k : String} (hok : k ∈ keysWhere ok rs) :
    k ∉ keysWhere failed rs :=
  fun hf => keysWhere_disjoint hd (fun _ _ => not_failed_of_ok) hok hf

/-- The upload of a report, if there is one, is that of its key and belongs to a context that came
to its end. -/
def OwnsUpload (r : Report) : Prop :=
  ∀ u, r.upload = some u → u.asset = r.key ∧ r.status = .succeeded

theorem status_of_stop {key host : String} {logs : List String} {f : Findings} {stop : Stop}
    {r : Report} (hr : (Context.report key host logs f (.error stop)).2 = .ok r) :
    r.status ≠ .succeeded := by
  cases stop with
  | cancelled | failed =>
    cases hr
    simp
  | crashed => cases hr

/-- A report of a context that came to its end has an upload that was attached. -/
def Attached (r : Report) : Prop :=
  r.status = .succeeded → ∃ u, r.upload = some u ∧ u.status = Upload.succeeded

theorem publishedAssets_subset (h : ∀ r ∈ rs, r.OwnsUpload) :
    publishedAssets rs ⊆ keysWhere ok rs := by
  intro a ha
  obtain ⟨r, hr, hu⟩ := List.mem_filterMap.mp ha
  cases hup : r.upload with
  | none => simp [hup] at hu
  | some u =>
    obtain ⟨hasset, hs⟩ := h r hr u hup
    have ha : u.asset = a := by
      simp only [hup, Option.ite_none_right_eq_some, Option.some.injEq] at hu
      exact hu.2
    exact mem_keysWhere.mpr ⟨r, hr, decide_eq_true hs, hasset ▸ ha⟩

theorem publishedAssets_eq (h : ∀ r ∈ rs, r.OwnsUpload ∧ r.Attached) :
    publishedAssets rs = keysWhere ok rs := by
  induction rs with
  | nil => rfl
  | cons r rs ih =>
    obtain ⟨⟨hu, ha⟩, hrs⟩ := List.forall_mem_cons.mp h
    have ih := ih hrs
    unfold publishedAssets keysWhere at ih ⊢
    by_cases hs : r.status = .succeeded
    · obtain ⟨u, hup, hst⟩ := ha hs
      obtain ⟨hasset, -⟩ := hu u hup
      rw [List.filterMap_cons_some (b := u.asset) (by simp [hup, hst]),
        List.filter_cons_of_pos (by simpa [ok] using hs), List.map_cons, ih, hasset]
    · have hup : r.upload = none :=
        Option.eq_none_iff_forall_ne_some.mpr fun u hup => hs (hu u hup).2
      rw [List.filterMap_cons_none (by simp [hup]),
        List.filter_cons_of_neg (by simpa [ok] using hs), ih]

theorem keysWhere_ok_of_allOk (h : allOk rs) : keysWhere ok rs = rs.map key :=
  keysWhere_of_forall (List.all_eq_true.mp h)

theorem keys_perm (h : ∀ r ∈ rs, r.status = .succeeded ∨ r.status = .failed) :
    (keysWhere ok rs ++ keysWhere failed rs).Perm (rs.map key) := by
  have heither : ∀ r ∈ rs, (ok r || failed r) := by simpa [ok, failed] using h
  rw [← keysWhere_of_forall heither]
  exact keysWhere_append_perm fun _ _ => not_failed_of_ok

end Report

namespace Surroundings

theorem release_each {P : Entry → Report → Prop}
    (hP : ∀ e t o r, (s.releaseContext target e).Runs t o → o.2 = .ok r → P e r)
    (h₀ : (s.release schedule m target).Runs t j (.ok rs)) : List.Forall₂ P m.entries rs := by
  obtain ⟨_, -, h₁⟩ := Step.runs_note_bind.mp h₀
  obtain ⟨hlen, hrs⟩ := fanOut_reports h₁
  rw [List.length_map] at hlen
  refine List.forall₂_iff_get.mpr ⟨hlen.symm, fun k he hr => ?_⟩
  obtain ⟨r, u, o, hrk, hrun, ho⟩ := hrs k (s.releaseContext target (m.entries.get ⟨k, he⟩))
    (by simp [he])
  have hget : rs.get ⟨k, hr⟩ = r := by simpa [hr] using hrk
  rw [hget]
  exact hP _ _ _ _ hrun ho

theorem releaseContext_uploads {e : Entry} {o : Outcome} {r : Report}
    (h₀ : (s.releaseContext target e).Runs t o) (hr : o.2 = .ok r) (hs : r.status = .succeeded) :
    ∃ u, r.upload = some u ∧
      (u.status = Upload.succeeded ↔ s.collaborators.adapter ≠ .dryRun) := by
  obtain ⟨j, f, x, h, rfl⟩ := runs_finish h₀
  have hto := Report.takesOver_report hr
  cases releaseStages_runs h with
  | @published t j f _ _ _ _ _ _ _ u hp hb hpub =>
    obtain ⟨v, -, hpub⟩ := hpub
    refine ⟨u, ?_, (Adapter.publish_record hpub).2⟩
    rw [hto.upload, Findings.upload_append, prepares_found hp, Option.none_or]
  | _ => exact absurd hs (Report.status_of_stop hr)

theorem releaseContext_attached (ha : s.collaborators.adapter ≠ .dryRun) {e : Entry} {o : Outcome}
    {r : Report} (h₀ : (s.releaseContext target e).Runs t o) (hr : o.2 = .ok r) : r.Attached := by
  intro hs
  obtain ⟨u, hu, hst⟩ := releaseContext_uploads h₀ hr hs
  exact ⟨u, hu, hst.mpr ha⟩

theorem ReleaseReport.ownsUpload {e : Entry} {r : Report} (h : s.ReleaseReport e target r) :
    r.OwnsUpload := by
  intro u hu
  obtain ⟨i, -, hnames⟩ := h.named u hu
  exact ⟨hnames.asset, h.uploaded.mpr (by simp [hu])⟩

/-- What a run publishes are artifacts of contexts that came to their end, and all of these unless
it is a dry run. -/
theorem release_published (h₀ : (s.release schedule m target).Runs t j (.ok rs)) :
    rs.map key = m.artifactNames ∧ publishedAssets rs ⊆ keysWhere ok rs ∧
      (s.collaborators.adapter ≠ .dryRun → publishedAssets rs = keysWhere ok rs) := by
  have hreports : List.Forall₂ (s.ReleaseReport · target ·) m.entries rs :=
    release_each (fun _ _ _ _ => releaseContext_report) h₀
  have howns : ∀ r ∈ rs, r.OwnsUpload :=
    forall_of_forall₂ (hreports.imp fun _ _ h => h.ownsUpload)
  refine ⟨map_key_of_forall₂ (hreports.imp fun _ _ h => h.key), publishedAssets_subset howns, ?_⟩
  intro ha
  have hattached : ∀ r ∈ rs, r.Attached :=
    forall_of_forall₂ (release_each (fun _ _ _ _ => releaseContext_attached ha) h₀)
  exact publishedAssets_eq fun r hr => ⟨howns r hr, hattached r hr⟩

theorem release_ended (h₀ : (s.release schedule m target).Runs t j (.ok rs)) :
    ∀ r ∈ rs, r.status ≠ .cancelled → r.status = .succeeded ∨ r.status = .failed := by
  have hreports : List.Forall₂ (s.ReleaseReport · target ·) m.entries rs :=
    release_each (fun _ _ _ _ => releaseContext_report) h₀
  intro r hr hc
  have hst := forall_of_forall₂ (hreports.imp fun _ _ h => h.status) r hr
  simpa [hc] using hst

/-- The failed artifacts of a run can be selected, in the order of the matrix. A second run over
them publishes none that the first one has published; and if none was cancelled in the first one and
all succeed in the second, then together they have published every artifact once. -/
theorem rerun_completes (ha : s.collaborators.adapter ≠ .dryRun)
    (h₀ : (s.release schedule m target).Runs t j (.ok rs)) (hf : ∃ r ∈ rs, r.failed) :
    ∃ m', m.select (keysWhere failed rs) none = .ok m' ∧
      m'.artifactNames = keysWhere failed rs ∧ (keysWhere failed rs).Sublist m.artifactNames ∧
      ∀ (s' : Surroundings) schedule' target' t' j' rs',
        (s'.release schedule' m' target').Runs t' j' (.ok rs') →
        (∀ a ∈ publishedAssets rs', a ∉ publishedAssets rs) ∧
        ((∀ r ∈ rs, r.status ≠ .cancelled) → s'.collaborators.adapter ≠ .dryRun → allOk rs' →
          (publishedAssets rs ++ publishedAssets rs').Perm m.artifactNames ∧
          (publishedAssets rs ++ publishedAssets rs').Nodup) := by
  obtain ⟨hkeys, hsub, heq⟩ := release_published h₀
  have hd : (rs.map key).Nodup := hkeys ▸ m.distinct
  have hne : keysWhere failed rs ≠ [] := by
    obtain ⟨r, hr, hs⟩ := hf
    exact List.ne_nil_of_mem (mem_keysWhere.mpr ⟨r, hr, hs, rfl⟩)
  have hsublist : (keysWhere failed rs).Sublist m.artifactNames :=
    hkeys ▸ keysWhere_sublist failed rs
  obtain ⟨m', hselect, hnames⟩ := Matrix.select_names hne hsublist
  refine ⟨m', hselect, hnames, hsublist, fun s' schedule' target' t' j' rs' h₁ => ?_⟩
  obtain ⟨hkeys', hsub', heq'⟩ := release_published h₁
  constructor
  · intro a ha' ha
    have hmem : a ∈ rs'.map key := (keysWhere_sublist ok rs').subset (hsub' ha')
    rw [hkeys', hnames] at hmem
    exact ok_or_failed hd (hsub ha) hmem
  · intro hc ha' hok
    have hperm : (publishedAssets rs ++ publishedAssets rs').Perm m.artifactNames := by
      rw [heq ha, heq' ha', keysWhere_ok_of_allOk hok, hkeys', hnames, ← hkeys]
      exact keys_perm fun r hr => release_ended h₀ r hr (hc r hr)
    exact ⟨hperm, hperm.nodup_iff.mpr m.distinct⟩

open Simulation in
/-- The tool publishes two artifacts in the first run, where one build fails, and that one in the
second run. -/
theorem brokenRun_completed :
    let s : Surroundings := { dryRun (Path.ofString "/work") true with
      collaborators := { Collaborators.standard with adapter := .tool ⟨none, "gh"⟩ } }
    let target : Target := ⟨"v1", "", none⟩
    ∃ t j rs t' j' rs' m', (s.release [1] brokenMatrix target).Runs t j (.ok rs) ∧
      keysWhere failed rs = ["lib.a"] ∧ publishedAssets rs = ["lib.so", "lib.dylib"] ∧
      brokenMatrix.select (keysWhere failed rs) none = .ok m' ∧ m'.artifactNames = ["lib.a"] ∧
      (s.release [] m' target).Runs t' j' (.ok rs') ∧
      (∀ a ∈ publishedAssets rs', a ∉ publishedAssets rs) ∧
      (publishedAssets rs ++ publishedAssets rs').Perm brokenMatrix.artifactNames ∧
      (publishedAssets rs ++ publishedAssets rs').Nodup := by
  intro s target
  have ha : s.collaborators.adapter ≠ .dryRun := by decide
  let built (w : World) (name : String) : World :=
    { w with tree := w.tree.put ["work", "dart-ffi", name] (.file [] false) }
  let first : World := { built brokenWorld "lib.dylib" with
    rules := brokenWorld.rules.map fun r => { r with cancels := false } }
  let second : World := { built brokenWorld "lib.a" with rules := [] }
  obtain ⟨t, j, rs, h, hends⟩ : ∃ t j rs, (s.release [1] brokenMatrix target).Runs t j (.ok rs) ∧
      (rs.map Report.status, keysWhere failed rs, publishedAssets rs) =
        ([.succeeded, .failed, .succeeded], ["lib.a"], ["lib.so", "lib.dylib"]) :=
    Step.exists_runs World.answer first (by decide +kernel)
  simp only [Prod.mk.injEq] at hends
  obtain ⟨hstatus, hfailed, hpublished⟩ := hends
  have hf : ∃ r ∈ rs, r.failed := by
    obtain ⟨r, hr, hs, -⟩ := mem_keysWhere.mp (hfailed ▸ List.mem_singleton.mpr rfl)
    exact ⟨r, hr, hs⟩
  have hc : ∀ r ∈ rs, r.status ≠ .cancelled := by
    have hall : ∀ st ∈ rs.map Report.status, st ≠ .cancelled := by
      rw [hstatus]
      decide
    exact fun r hr => hall _ (List.mem_map_of_mem hr)
  obtain ⟨m', hselect, hnames, -, hsecond⟩ := rerun_completes ha h hf
  -- The matrix of the second run is the one with the broken entry alone.
  let e : Entry := ⟨"ubuntu-latest", "lib.a", "broken.sh", none⟩
  obtain ⟨m, hm, hentries⟩ : ∃ m, brokenMatrix.select [e.artifact] none = .ok m ∧ m.entries = [e] :=
    Matrix.select_name (by decide)
  let single : Matrix := ⟨[e], by decide⟩
  obtain rfl : m = m' := Except.ok.inj (hm.symm.trans (hfailed ▸ hselect))
  obtain rfl : m = single := Matrix.ext_entries hentries
  obtain ⟨t', j', rs', h', hok⟩ : ∃ t' j' rs', (s.release [] single target).Runs t' j' (.ok rs') ∧
      allOk rs' = true :=
    Step.exists_runs World.answer second (by decide +kernel)
  obtain ⟨hnew, hall⟩ := hsecond s [] target t' j' rs' h'
  obtain ⟨hperm, hnodup⟩ := hall hc ha hok
  exact ⟨t, j, rs, t', j', rs', _, h, hfailed, hpublished, hselect, rfl, h', hnew, hperm, hnodup⟩

end Surroundings
end BindingRelease
