import BindingRelease.Proofs.Completion
import BindingRelease.Proofs.Endings
/-!
What a release run sums up. Its lists and its verdict come from separate looks at the reports; here
they are shown to agree. Every artifact of the matrix has succeeded, failed or been cancelled, what
is published goes by the first of these, and the status of the report and that of the tool both say
whether all artifacts are among them.
-/
namespace BindingRelease
open Context Report
variable {s : Surroundings} {t : Trace} {j : Journal} {rs : List Report} {m : Matrix}
  {target : Target} {schedule : List Nat}

namespace Report

def cancelled (r : Report) : Bool := r.status = .cancelled

/-- The lists of a run agree with each other and with its matrix, and so do its verdicts. -/
structure AddsUp (m : Matrix) (adapter : Adapter) (rs : List Report) : Prop where
  disjoint : [keysWhere ok rs, keysWhere failed rs, keysWhere cancelled rs].Pairwise List.Disjoint
  ordered : ∀ kind ∈ [ok, failed, cancelled], (keysWhere kind rs).Sublist m.artifactNames
  complete : (keysWhere ok rs ++ keysWhere failed rs ++ keysWhere cancelled rs).Perm
    m.artifactNames
  published : publishedAssets rs = if adapter = .dryRun then [] else keysWhere ok rs
  verdict : allOk rs ↔ keysWhere ok rs = m.artifactNames
  document : ∀ tag time, releaseRun tag time rs = .object
    [("tag", .text tag),
      ("status", .text (if keysWhere ok rs = m.artifactNames then "ok" else "partial")),
      ("started_at", .text time), ("succeeded", .texts (keysWhere ok rs)),
      ("failed", .texts (keysWhere failed rs)),
      ("published_assets", .texts (if adapter = .dryRun then [] else keysWhere ok rs)),
      ("contexts", .list (rs.map toValue))]

theorem not_cancelled_of_ok {r : Report} (h : r.ok) : ¬ r.cancelled := by
  have hs : r.status = .succeeded := of_decide_eq_true h
  simp [cancelled, hs]

theorem not_cancelled_of_failed {r : Report} (h : r.failed) : ¬ r.cancelled := by
  have hs : r.status = .failed := of_decide_eq_true h
  simp [cancelled, hs]

theorem keysWhere_apart (hd : (rs.map key).Nodup) :
    [keysWhere ok rs, keysWhere failed rs, keysWhere cancelled rs].Pairwise List.Disjoint := by
  have hfailed := keysWhere_disjoint hd fun r _ => not_failed_of_ok (r := r)
  have hcancelled := keysWhere_disjoint hd fun r _ => not_cancelled_of_ok (r := r)
  have hended := keysWhere_disjoint hd fun r _ => not_cancelled_of_failed (r := r)
  simp [hfailed, hcancelled, hended]

theorem keysWhere_together
    (h : ∀ r ∈ rs, r.status ∈ [Status.succeeded, .failed, .cancelled]) :
    (keysWhere ok rs ++ keysWhere failed rs ++ keysWhere cancelled rs).Perm (rs.map key) := by
  have hended : ∀ r ∈ rs, r.ok → ¬ r.failed := fun _ _ => not_failed_of_ok
  have hnone : ∀ r ∈ rs, (r.ok || r.failed) → ¬ r.cancelled := by
    intro r _ hr
    rcases Bool.or_eq_true_iff.mp hr with hok | hfailed
    · exact not_cancelled_of_ok hok
    · exact not_cancelled_of_failed hfailed
  have hall : ∀ r ∈ rs, ((r.ok || r.failed) || r.cancelled) := by
    intro r hr
    simpa [ok, failed, cancelled, or_assoc] using h r hr
  calc
    List.Perm _ (keysWhere (fun r => r.ok || r.failed) rs ++ keysWhere cancelled rs) :=
      (keysWhere_append_perm hended).append_right _
    List.Perm _ (keysWhere (fun r => (r.ok || r.failed) || r.cancelled) rs) :=
      keysWhere_append_perm hnone
    _ = rs.map key := keysWhere_of_forall hall

theorem allOk_iff : allOk rs ↔ keysWhere ok rs = rs.map key := by
  constructor
  · exact keysWhere_ok_of_allOk
  · intro h
    have hlen : (rs.filter ok).length = rs.length := by
      simpa [keysWhere] using congrArg List.length h
    exact List.all_eq_true.mpr (List.length_filter_eq_length_iff.mp hlen)

theorem publishedAssets_eq_nil
    (h : ∀ r ∈ rs, ∀ u, r.upload = some u → u.status ≠ Upload.succeeded) :
    publishedAssets rs = [] := by
  refine List.filterMap_eq_nil_iff.mpr fun r hr => ?_
  cases hu : r.upload with
  | none => rfl
  | some u => simp [h r hr u hu]

theorem AddsUp.status {adapter : Adapter} (h : AddsUp m adapter rs) (v : Value) :
    (Command.reported rs v).status = if keysWhere ok rs = m.artifactNames then 0 else 1 := by
  simp only [Command.reported, Ending.report, h.verdict]

end Report

namespace Surroundings

theorem dryRun_publishes_nothing (ha : s.collaborators.adapter = .dryRun)
    (h₀ : (s.release schedule m target).Runs t j (.ok rs)) : publishedAssets rs = [] := by
  have hreports : List.Forall₂ (fun _ r => ∀ u, r.upload = some u → u.status ≠ Upload.succeeded)
      m.entries rs := by
    refine release_each (fun e u o r hrun hr v hv hst => ?_) h₀
    have howns := (releaseContext_report hrun hr).ownsUpload v hv
    obtain ⟨v', hv', hadapter⟩ := releaseContext_uploads hrun hr howns.2
    obtain rfl : v = v' := Option.some.inj (hv.symm.trans hv')
    exact hadapter.mp hst ha
  exact publishedAssets_eq_nil (forall_of_forall₂ hreports)

theorem release_addsUp (h₀ : (s.release schedule m target).Runs t j (.ok rs)) :
    AddsUp m s.collaborators.adapter rs := by
  obtain ⟨hkeys, -, heq⟩ := release_published h₀
  have hreports : List.Forall₂ (s.ReleaseReport · target ·) m.entries rs :=
    release_each (fun _ _ _ _ => releaseContext_report) h₀
  have hstatus : ∀ r ∈ rs, r.status ∈ [Status.succeeded, .failed, .cancelled] :=
    forall_of_forall₂ (hreports.imp fun _ _ h => h.status)
  have hpublished : publishedAssets rs =
      if s.collaborators.adapter = .dryRun then [] else keysWhere ok rs := by
    by_cases ha : s.collaborators.adapter = .dryRun
    · rw [if_pos ha, dryRun_publishes_nothing ha h₀]
    · rw [if_neg ha, heq ha]
  have hverdict : allOk rs ↔ keysWhere ok rs = m.artifactNames := hkeys ▸ allOk_iff
  refine ⟨keysWhere_apart (hkeys ▸ m.distinct), fun kind _ => ?_, ?_, hpublished, hverdict, ?_⟩
  · exact hkeys ▸ keysWhere_sublist kind rs
  · exact hkeys ▸ keysWhere_together hstatus
  · intro tag time
    simp only [releaseRun, hverdict, hpublished]

end Surroundings

namespace Console
open Step Command
variable {run : RunChoices} {c : ReleaseChoices} {cwd : Path} {env : Env} {con : Console}

/-- The status says neither that all artifacts succeeded nor that some did not. -/
def NoVerdict (con : Console) : Prop := con.status ≠ .ok 0 ∧ con.status ≠ .ok 1

/-- How a release command ends: refused while the tool only looked at files, by a context that
crashed, or with reports that add up. Only then has it a verdict. -/
inductive SumsUp (schedule : List Nat) (run : RunChoices) (c : ReleaseChoices) (cwd : Path)
    (t : Trace) (con : Console) : Prop
  | refused (ht : t.Inspects) (hn : con.NoVerdict)
  | crashed {env' s m target adapter u v j e}
      (hc : Assembles ⟨cwd, env'⟩ run c s m target adapter) (ht : t = u ++ v)
      (h : ((surroundings ⟨cwd, env'⟩ run s adapter).release schedule m target).Runs v j (.error e))
      (hn : con.NoVerdict)
  | returned {env' s m target adapter u v j rs time}
      (hc : Assembles ⟨cwd, env'⟩ run c s m target adapter)
      (ht : t = u ++ (v ++ [⟨.now, time⟩]))
      (h : ((surroundings ⟨cwd, env'⟩ run s adapter).release schedule m target).Runs v j (.ok rs))
      (adds : AddsUp m adapter rs)
      (output : con.output = (releaseRun target.tag time rs).json ++ "\n")
      (status : con.status = .ok (if keysWhere ok rs = m.artifactNames then 0 else 1))

theorem told_noVerdict (level : Level) (notes : List Note) (e : Failure) :
    (ended level env notes (told e)).NoVerdict := by
  rw [NoVerdict, ended_status]
  cases e with
  | release e => cases e <;> simp [told, Except.map]
  | crash x => cases x <;> simp [told, Except.map]

theorem sumsUp_of_run {level : Level} {notes : List Note} {env' : Env} {u v : Trace}
    {x : Except Failure Ending} (hu : u.Inspects)
    (h₀ : (runRelease schedule ⟨cwd, env'⟩ run c).Runs v j x) :
    SumsUp schedule run c cwd (u ++ v) (ended level env' notes (concluded x)) := by
  rcases runRelease_runs h₀ with
    ⟨e, rfl, -, hv⟩ | ⟨s, m, target, adapter, u', v, k, hc, rfl, -, h₁⟩
  · exact .refused (Trace.inspects_append.mpr ⟨hu, hv⟩) (told_noVerdict level notes e)
  rcases runs_bind.mp h₁ with ⟨e, rfl, h⟩ | ⟨v, w, j, _, rs, rfl, -, h, h₂⟩
  · exact .crashed hc (List.append_assoc ..).symm h (told_noVerdict level notes e)
  obtain ⟨time, w, rfl, h₃⟩ := runs_ask_bind.mp h₂
  obtain ⟨rfl, -, rfl⟩ := runs_pure.mp h₃
  have hadds : AddsUp m adapter rs := Surroundings.release_addsUp h
  refine .returned (u := u ++ u') hc (List.append_assoc ..).symm h hadds rfl ?_
  rw [ended_status]
  exact congrArg Except.ok (hadds.status _)

/-- The lists and verdicts of every release run agree, whatever mix of successes, failures and
cancellations it has. A release command prints the report of such a run and ends with zero if all
artifacts succeeded and with one if not; otherwise its status is neither. -/
theorem release_runs_add_up (schedule : List Nat) :
    (∀ (s : Surroundings) m target t j rs,
      (s.release schedule m target).Runs t j (.ok rs) → AddsUp m s.collaborators.adapter rs) ∧
    ∀ words invoked run c cwd env t con,
      Command.read words = .ok invoked → invoked.command = .releaseRun run c →
        (runScheduled schedule words cwd env).Runs t con → SumsUp schedule run c cwd t con := by
  refine ⟨fun s m target t j rs => Surroundings.release_addsUp, ?_⟩
  intro words invoked run c cwd env t con hread hcommand h₀
  unfold runScheduled at h₀
  rw [hread] at h₀
  obtain ⟨⟨journal, r⟩, rfl, h⟩ := Program.runs_map.mp h₀
  rcases runCommand_runs h with
    ⟨env', x, ht, -, rfl⟩ | ⟨env', b, u, i, v, k, x, rfl, -, hu, -, hx, rfl⟩
  · exact .refused ht ⟨nofun, nofun⟩
  · rw [hcommand] at hx
    exact sumsUp_of_run hu hx

open Simulation in
/-- One artifact is published, one fails and one is cancelled. At the console nothing is built. -/
theorem brokenRun_adds_up :
    let cwd := Path.ofString "/work"
    let s : Surroundings := { Surroundings.dryRun cwd true with
      collaborators := { Collaborators.standard with adapter := .tool ⟨none, "gh"⟩ } }
    let words := ["release", "run", "--dry-run", "--ref", "v1", "--host", "ubuntu-latest"]
    (∃ t j rs, (s.release [] Surroundings.brokenMatrix ⟨"v1", "", none⟩).Runs t j (.ok rs) ∧
      [keysWhere ok rs, keysWhere failed rs, keysWhere cancelled rs] =
        [["lib.so"], ["lib.a"], ["lib.dylib"]] ∧
      AddsUp Surroundings.brokenMatrix s.collaborators.adapter rs) ∧
    ∃ run c t con, (runScheduled [1] words cwd .empty).Runs t con ∧ con.status = .ok 1 ∧
      SumsUp [1] run c cwd t con := by
  intro cwd s words
  let answer (r : Request) (_ : Unit) : r.Answer × Unit := match r with
    | .isFile _ => (.ok false, ())
    | r => (Surroundings.obliging r, ())
  constructor
  · obtain ⟨t, j, rs, h, hkeys⟩ :
        ∃ t j rs, (s.release [] Surroundings.brokenMatrix ⟨"v1", "", none⟩).Runs t j (.ok rs) ∧
          [keysWhere ok rs, keysWhere failed rs, keysWhere cancelled rs] =
            [["lib.so"], ["lib.a"], ["lib.dylib"]] :=
      Step.exists_runs World.answer Surroundings.brokenWorld (by decide +kernel)
    exact ⟨t, j, rs, h, hkeys, (release_runs_add_up []).1 s _ _ t j rs h⟩
  · let releases (i : Invoked) : Bool := match i.command with
      | .releaseRun _ _ => true
      | _ => false
    obtain ⟨i, hread, hcommand⟩ : ∃ i, Command.read words = .ok i ∧ releases i = true :=
      exists_of_toOption (by decide +kernel)
    have h₀ : (runScheduled [1] words cwd .empty).Runs _ _ := Program.runs_trace answer _ ()
    obtain ⟨n, hstatus, rfl⟩ :
        ∃ n, ((runScheduled [1] words cwd .empty).runWith answer ()).1.status = .ok n ∧ n = 1 :=
      exists_of_toOption (by decide +kernel)
    cases hi : i.command with
    | releaseRun run c =>
      exact ⟨run, c, _, _, h₀, hstatus,
        (release_runs_add_up [1]).2 words i run c cwd .empty _ _ hread hi h₀⟩
    | _ => simp [releases, hi] at hcommand

end Console
end BindingRelease
