import BindingRelease.Proofs.Interleaving
import BindingRelease.Proofs.Processes
import BindingRelease.Run
/-!
Runs and their contexts. A run gives the reports of its contexts in their order unless one of them
crashes. Where an answer depends on its request alone, every report is the one its context gives
when it runs alone, whatever the schedule and the number of workers.
-/
namespace BindingRelease
open Step
variable {σ : Type} {t : Trace} {j : Journal}

namespace Outcome

/-- What a run makes of the outcomes of its contexts. -/
def verdict (os : List Outcome) : Except Failure (List Report) :=
  match firstCrash os with
  | some c => .error (.crash c)
  | none => .ok (reports os)

theorem firstCrash_eq_none {os : List Outcome} :
    firstCrash os = none ↔ ∀ o ∈ os, ∀ c, o.2 ≠ .error c := by
  induction os with
  | nil => simp [firstCrash]
  | cons o os ih =>
    obtain ⟨notes, c | r⟩ := o
    · simp only [firstCrash, reduceCtorEq, false_iff]
      intro h
      exact h _ (List.mem_cons_self) c rfl
    · simp [firstCrash, ih]

theorem reports_of_firstCrash_eq_none {os : List Outcome} (h : firstCrash os = none) :
    (reports os).map Except.ok = os.map Prod.snd := by
  induction os with
  | nil => rfl
  | cons o os ih =>
    obtain ⟨notes, c | r⟩ := o
    · cases h
    · simpa [reports, Except.toOption] using ih h

theorem exists_reports {os : List Outcome}
    (h : ∀ (k : Nat) o, os[k]? = some o → ∀ c, o.2 ≠ .error c) :
    ∃ rs, verdict os = .ok rs ∧ rs.length = os.length ∧
      ∀ (k : Nat) o, os[k]? = some o → ∃ r, rs[k]? = some r ∧ o.2 = .ok r := by
  have hn : firstCrash os = none := by
    refine firstCrash_eq_none.mpr fun o ho => ?_
    obtain ⟨k, hk⟩ := List.getElem?_of_mem ho
    exact h k o hk
  have hmap := reports_of_firstCrash_eq_none hn
  refine ⟨reports os, by simp [verdict, hn], ?_, ?_⟩
  · have hlen := congrArg List.length hmap
    simpa using hlen
  · intro k o ho
    have hk := congrArg (·[k]?) hmap
    simp only [List.getElem?_map, ho, Option.map_some, Option.map_eq_some_iff] at hk
    obtain ⟨r, hr, hok⟩ := hk
    exact ⟨r, hr, hok.symm⟩

theorem firstCrash_of_verdict {os : List Outcome} {rs : List Report} (h : verdict os = .ok rs) :
    firstCrash os = none := by
  unfold verdict at h
  split at h
  · cases h
  · assumption

theorem reports_of_verdict {os : List Outcome} {rs : List Report} (h : verdict os = .ok rs) :
    rs.length = os.length ∧
      ∀ (k : Nat) o, os[k]? = some o → ∃ r, rs[k]? = some r ∧ o.2 = .ok r := by
  have hn := firstCrash_eq_none.mp (firstCrash_of_verdict h)
  obtain ⟨rs', hv, hlen, hrs⟩ := exists_reports fun k o ho => hn o (List.mem_of_getElem? ho)
  rw [h, Except.ok.injEq] at hv
  subst hv
  exact ⟨hlen, hrs⟩

end Outcome

/-- The trace of a run is made of the traces of its contexts, and its outcome of theirs. A single
worker runs the contexts one after the other. -/
theorem fanOut_shares {signal : Bool} {wish : Option Int} {schedule : List Nat}
    {contexts : List (Program Outcome)} {r : Except Failure (List Report)}
    (h₀ : (fanOut signal wish schedule contexts).Runs t j r) :
    ∃ (l : Tagged) (os : List Outcome), l.map Prod.snd = t ∧
      Pool.Interleaves (Outcome.watch signal) contexts l os ∧ j = ⟨[], os.flatMap (·.1)⟩ ∧
      r = Outcome.verdict os ∧ (Pool.workersFor wish contexts.length = 1 → l.Serial) := by
  obtain ⟨os, ho, h₁⟩ := Program.runs_map.mp h₀
  obtain ⟨l, hl, hi, hs⟩ := Pool.run_runs h₁
  cases ho
  exact ⟨l, os, hl, hi, rfl, rfl, hs⟩

theorem fanOut_runs {signal : Bool} {wish : Option Int} {schedule : List Nat}
    {contexts : List (Program Outcome)} {r : Except Failure (List Report)}
    (h₀ : (fanOut signal wish schedule contexts).Runs t j r) :
    ∃ (l : Tagged) (os : List Outcome), l.map Prod.snd = t ∧
      Pool.Interleaves (Outcome.watch signal) contexts l os ∧ j = ⟨[], os.flatMap (·.1)⟩ ∧
      r = Outcome.verdict os := by
  obtain ⟨l, os, hl, hi, hj, hr, -⟩ := fanOut_shares h₀
  exact ⟨l, os, hl, hi, hj, hr⟩

theorem Outcome.watch_asks {signal : Bool} {os : List Outcome} (h : (watch signal os).Runs t ()) :
    ∀ ev ∈ t, ev.1 = .cancel := by
  unfold watch at h
  split at h
  · cases signal with
    | false =>
      obtain ⟨rfl, -⟩ := h
      simp
    | true =>
      obtain ⟨x, _, rfl, rfl, -⟩ := h
      simp
  · obtain ⟨rfl, -⟩ := h
    simp

theorem fanOut_asks {signal : Bool} {wish : Option Int} {schedule : List Nat}
    {contexts : List (Program Outcome)} {r : Except Failure (List Report)} {E : Request → Prop}
    (hcancel : E .cancel) (hcontext : ∀ p ∈ contexts, ∀ t o, p.Runs t o → ∀ ev ∈ t, E ev.1)
    (h₀ : (fanOut signal wish schedule contexts).Runs t j r) : ∀ ev ∈ t, E ev.1 := by
  obtain ⟨l, os, rfl, hi, -, -⟩ := fanOut_runs h₀
  intro ev hev
  obtain ⟨⟨owner, ev⟩, hmem, rfl⟩ := List.mem_map.mp hev
  cases owner with
  | none =>
    obtain ⟨os', u, hu, hmem'⟩ := hi.collector ev hmem
    rw [Outcome.watch_asks hu ev hmem']
    exact hcancel
  | some k =>
    have hk : k < contexts.length := hi.known k ev hmem
    obtain ⟨o, -, hrun⟩ := hi.each k _ (List.getElem?_eq_getElem hk)
    exact hcontext _ (List.getElem_mem hk) _ o hrun ev (Tagged.mem_share.mpr hmem)

theorem fanOut_nil (signal : Bool) (wish : Option Int) (schedule : List Nat) :
    fanOut signal wish schedule [] = Pure.pure [] := by
  have hf (n : Nat) :
      Pool.follow (Outcome.watch signal) n schedule ([] : List (Slot Outcome)) = .done [] := by
    induction schedule with
    | nil => rfl
    | cons i schedule ih =>
      have hr : Pool.refill n ([] : List (Slot Outcome)) = [] := by
        unfold Pool.refill Pool.fill
        split <;> simp_all
      simp [Pool.follow, hr, Pool.advance, Program.bind, ih]
  unfold fanOut Pool.run
  rw [List.map_nil, hf]
  rfl

namespace Pool

theorem workersFor_bounds (wish : Option Int) {programs : Nat} (h : 0 < programs) :
    1 ≤ workersFor wish programs ∧ workersFor wish programs ≤ programs := by
  unfold workersFor
  cases wish with
  | none =>
    dsimp only
    omega
  | some w =>
    dsimp only
    by_cases hw : w = 0
    · rw [if_pos hw]
      omega
    · rw [if_neg hw]
      omega

end Pool

namespace Program
variable {α : Type} {answer : (r : Request) → σ → r.Answer × σ} {f : (r : Request) → r.Answer}

theorem runs_unique (hf : ∀ r w, (answer r w).1 = f r) {p : Program α} {t : Trace} {a : α}
    (h₀ : p.Runs t a) (ht : ∀ ev ∈ t, ev.2 = f ev.1) (w : σ) : (p.runWith answer w).1 = a := by
  induction p generalizing t w with
  | done b =>
    obtain ⟨rfl, rfl⟩ := h₀
    rfl
  | ask r next ih =>
    obtain ⟨x, t', rfl, h₁⟩ := h₀
    have hx : x = f r := ht ⟨r, x⟩ (by simp)
    rw [runWith, hf, ← hx]
    exact ih x h₁ (fun ev hev => ht ev (List.mem_cons_of_mem _ hev)) _

end Program

section Alone
variable {answer : (r : Request) → σ → r.Answer × σ} {f : (r : Request) → r.Answer}

/-- The run gives one report for each context, in their order: the one that the context gives when
it runs alone. -/
def GivesEachAlone (answer : (r : Request) → σ → r.Answer × σ) (run : Step (List Report))
    (contexts : List (Program Outcome)) : Prop :=
  ∀ w, ∃ rs, (run.run.runWith answer w).1.2 = .ok rs ∧ rs.length = contexts.length ∧
    ∀ (k : Nat) c, contexts[k]? = some c →
      ∃ r, rs[k]? = some r ∧ ∀ w', (c.runWith answer w').1.2 = .ok r

theorem fanOut_each_alone (hf : ∀ r w, (answer r w).1 = f r) {signal : Bool} {wish : Option Int}
    {schedule : List Nat} {contexts : List (Program Outcome)}
    (hc : ∀ c ∈ contexts, ∀ w x, (c.runWith answer w).1.2 ≠ .error x)
    {r : Except Failure (List Report)} (w : σ)
    (h₀ : (fanOut signal wish schedule contexts).Runs t j r) (ht : ∀ ev ∈ t, ev.2 = f ev.1) :
    ∃ rs, r = .ok rs ∧ rs.length = contexts.length ∧
      ∀ (k : Nat) c, contexts[k]? = some c →
        ∃ r, rs[k]? = some r ∧ ∀ w', (c.runWith answer w').1.2 = .ok r := by
  obtain ⟨l, os, rfl, hi, -, rfl⟩ := fanOut_runs h₀
  have alone {k : Nat} {c : Program Outcome} {o : Outcome} (hr : c.Runs (l.share k) o) (w' : σ) :
      (c.runWith answer w').1 = o := by
    refine Program.runs_unique hf hr (fun ev hev => ?_) w'
    exact ht ev (List.mem_map.mpr ⟨_, Tagged.mem_share.mp hev, rfl⟩)
  have uncrashed (k : Nat) (o : Outcome) (ho : os[k]? = some o) : ∀ x, o.2 ≠ .error x := by
    intro x hx
    obtain ⟨c, hk, hr⟩ := hi.program ho
    exact hc c (List.mem_of_getElem? hk) w x (by rw [alone hr, hx])
  obtain ⟨rs, hv, hlen, hrs⟩ := Outcome.exists_reports uncrashed
  refine ⟨rs, hv, hlen.trans hi.length, ?_⟩
  intro k c hk
  obtain ⟨o, ho, hr⟩ := hi.each k c hk
  obtain ⟨r, hrk, hok⟩ := hrs k o ho
  exact ⟨r, hrk, fun w' => by rw [alone hr, hok]⟩

namespace Surroundings

/-- Where answers depend on their requests alone and no context crashes by itself, runs of any
schedule and any number of workers are their contexts one by one. There are as many workers as
contexts at most and one at least, and where there are no contexts nothing is asked. -/
theorem runs_each_alone (hf : ∀ r w, (answer r w).1 = f r) (s : Surroundings)
    (schedule : List Nat) :
    (∀ m target,
      (∀ e ∈ m.entries, ∀ w x, ((s.releaseContext target e).runWith answer w).1.2 ≠ .error x) →
      GivesEachAlone answer (s.release schedule m target)
        (m.entries.map (s.releaseContext target))) ∧
    (∀ hosts command,
      (∀ host ∈ hosts, ∀ w x, ((s.testContext command host).runWith answer w).1.2 ≠ .error x) →
      GivesEachAlone answer (s.test schedule hosts command) (hosts.map (s.testContext command))) ∧
    (∀ contexts, 0 < contexts → 1 ≤ Pool.workersFor s.settings.workers contexts ∧
      Pool.workersFor s.settings.workers contexts ≤ contexts) ∧
    fanOut s.signal s.settings.workers schedule [] = Pure.pure [] := by
  have answered {α : Type} (p : Program α) (w : σ) : ∀ ev ∈ p.trace answer w, ev.2 = f ev.1 := by
    intro ev hev
    obtain ⟨w', hw⟩ := Program.mem_trace hev
    rw [hw, hf]
  refine ⟨?_, ?_, fun n hn => Pool.workersFor_bounds _ hn, fanOut_nil _ _ _⟩
  · intro m target hc w
    have h₀ : (s.release schedule m target).Runs _ _ _ := Program.runs_trace answer _ w
    obtain ⟨j, -, h₁⟩ := runs_note_bind.mp h₀
    exact fanOut_each_alone hf (by simpa using hc) w h₁ (answered _ w)
  · intro hosts command hc w
    have h₀ : (s.test schedule hosts command).Runs _ _ _ := Program.runs_trace answer _ w
    exact fanOut_each_alone hf (by simpa using hc) w h₀ (answered _ w)

def obliging : (r : Request) → r.Answer
  | .start _ => LaunchResult.finished ⟨0, "", ""⟩
  | .send _ => HttpResult.failed "unreachable"
  | .exists _ | .isDirectory _ | .isFile _ => Except.ok true
  | .isExecutable _ => true
  | .makeDirectories _ | .writeFile _ _ => Except.ok ()
  | .readFile _ => Except.ok []
  | .readYaml _ => YamlResult.document .null
  | .isCancelled => false
  | .cancel => ()
  | .now => ""

def mixedMatrix : Matrix :=
  ⟨[⟨"ubuntu-latest", "lib.so", "build.sh", none⟩, ⟨"solaris", "lib.a", "build.sh", none⟩,
    ⟨"macos-14", "lib.dylib", "build.sh", none⟩], by decide⟩

theorem mixedMatrix_each_alone :
    let s := dryRun (Path.ofString "/work") true
    let answer := fun r (_ : Unit) => (obliging r, ())
    GivesEachAlone answer (s.release [0, 2, 1, 2, 0] mixedMatrix ⟨"v1", "", none⟩)
      (mixedMatrix.entries.map (s.releaseContext ⟨"v1", "", none⟩)) ∧
    GivesEachAlone answer (s.test [1, 1, 0] ["linux", "solaris"] verifyCommand)
      (["linux", "solaris"].map (s.testContext verifyCommand)) ∧
    (1 ≤ Pool.workersFor s.settings.workers 3 ∧ Pool.workersFor s.settings.workers 3 ≤ 3) ∧
    fanOut s.signal s.settings.workers [0] [] = Pure.pure [] := by
  intro s answer
  have hf : ∀ r w, (answer r w).1 = obliging r := fun _ _ => rfl
  have releases : ∀ e ∈ mixedMatrix.entries,
      ((s.releaseContext ⟨"v1", "", none⟩ e).runWith answer ()).1.2.isOk := by decide +kernel
  have tests : ∀ host ∈ ["linux", "solaris"],
      ((s.testContext verifyCommand host).runWith answer ()).1.2.isOk := by decide +kernel
  refine ⟨(runs_each_alone hf s _).1 _ _ ?_, (runs_each_alone hf s _).2.1 _ _ ?_,
    (runs_each_alone hf s [0]).2.2.1 3 (by decide), (runs_each_alone hf s [0]).2.2.2⟩
  · rintro e he ⟨⟩ x h
    have hok := releases e he
    generalize (s.releaseContext ⟨"v1", "", none⟩ e).runWith answer () = o at h hok
    rw [h] at hok
    cases hok
  · rintro host he ⟨⟩ x h
    have hok := tests host he
    generalize (s.testContext verifyCommand host).runWith answer () = o at h hok
    rw [h] at hok
    cases hok

end Surroundings
end Alone
end BindingRelease
