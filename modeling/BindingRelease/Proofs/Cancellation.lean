import BindingRelease.Proofs.Reports
import BindingRelease.Proofs.StageOrder
/-!
Cancelled runs. A context looks at the signal before each of its stages and nowhere else, so its
trace is a row of stages. Once every look finds the run cancelled, the context goes on to the end of
the stage it is in and begins no other; with a single worker the contexts behind it do not begin
at all.
-/
namespace BindingRelease
open Trace Context
variable {t u before after : Trace} {j : Journal}

namespace Trace

def isEntry : Event → Bool
  | ⟨.isCancelled, cancelled⟩ => !cancelled
  | _ => false

def entered (t : Trace) : Nat := t.countP isEntry

/-- The run is cancelled all along the trace. -/
def Cancelled (t : Trace) : Prop := ∀ b : Bool, ⟨.isCancelled, b⟩ ∈ t → b = true

theorem looks_of_looking (h : ∀ ev ∈ t, ev.1.surveys) : looks t = 0 := by
  refine List.countP_eq_zero.mpr fun ⟨q, x⟩ hev => ?_
  have hq : q.surveys := h _ hev
  have hl : isLook ⟨q, x⟩ = false := by
    cases q <;> first | rfl | cases hq
  simp [hl]

theorem looks_of_surveys (h : t.Surveys) : looks t = 0 :=
  looks_of_looking fun ev hev => (h ev hev).1

theorem entered_append (t u : Trace) : entered (t ++ u) = entered t + entered u :=
  List.countP_append

theorem entered_of_looks (h : looks t = 0) : entered t = 0 := by
  have hle : entered t ≤ looks t := by
    refine List.countP_mono_left fun ⟨q, x⟩ _ hq => ?_
    cases q <;> first | rfl | cases hq
  omega

theorem cancelled_of_entered (h : entered t = 0) : t.Cancelled := by
  intro b hb
  have hn := List.countP_eq_zero.mp h _ hb
  cases b with
  | false => exact absurd rfl hn
  | true => rfl

theorem entered_entry (t : Trace) : entered (entry true ++ t) = entered t + 1 := by
  rw [entered_append, Nat.add_comm]
  rfl

theorem looks_entry (t : Trace) : looks (entry true ++ t) = looks t + 1 := by
  rw [looks_append, Nat.add_comm]
  rfl

theorem Leads.cancelled {σ : Type} {answer : (r : Request) → σ → r.Answer × σ}
    {signalled : σ → Bool} (hlook : ∀ w, (answer .isCancelled w).1 = signalled w)
    (hkeep : ∀ r w, signalled w = true → signalled (answer r w).2 = true) {w w' : σ}
    (h : Leads (Program.Answered answer) w t w') (hw : signalled w = true) : t.Cancelled := by
  induction t generalizing w with
  | nil =>
    intro b hb
    cases hb
  | cons ev t ih =>
    obtain ⟨m, ⟨hx, rfl⟩, ht⟩ := h
    intro b hb
    cases List.mem_cons.mp hb with
    | inl he =>
      subst he
      exact (hx.trans (hlook w)).trans hw
    | inr hb => exact ih ht (hkeep ev.1 w hw) b hb

theorem Cancelled.of_append_right (h : (t ++ u).Cancelled) : u.Cancelled :=
  fun b hb => h b (List.mem_append_right t hb)

end Trace

/-! The steps of the stages do not look at the signal. -/

namespace Checkout

theorem runIn_looks {directory : Path} {command : List String} {r : Except Failure Unit}
    (h₀ : (runIn directory command).Runs t j r) : looks t = 0 := by
  rcases runIn_runs h₀ with ⟨e, rfl, -⟩ | ⟨x, rfl, -⟩
  · rfl
  · rfl

theorem executes_looks {cs : List (Path × List String)} {r : Except Failure Unit}
    (h₀ : Executes cs t r) : looks t = 0 := by
  induction h₀ with
  | done => rfl
  | failed h => exact runIn_looks h
  | next h _ ih => rw [looks_append, runIn_looks h, ih]

theorem acquire_looks {c : Checkout} {workspace : Path} {r : Except Failure Path}
    (h₀ : (c.acquire workspace).Runs t j r) : looks t = 0 := by
  cases acquire_runs h₀ with
  | unseen ht hev => rw [looks_append, looks_of_surveys ht, looks_of_looking (by simpa using hev)]
  | missing ht => exact looks_of_surveys ht
  | executed fresh ht _ h => rw [looks_append, looks_of_surveys ht, executes_looks h]

end Checkout

theorem LanguageInstaller.install_looks {i : LanguageInstaller} {version : String}
    {r : Except Failure (List (String × String))} (h₀ : (i.install version).Runs t j r) :
    looks t = 0 := by
  obtain ⟨x, rfl, -⟩ := install_runs h₀
  rfl

namespace CompilerInstaller

theorem runInstallation_looks {template : String} {c : Compiler} {directory : Path} {env : Env}
    {r : Except Failure Unit} (h₀ : (runInstallation template c directory env).Runs t j r) :
    looks t = 0 := by
  rcases runInstallation_runs h₀ with ⟨e, -, rfl, -⟩ | ⟨line, -, ⟨e, rfl, -⟩ | ⟨x, rfl, -⟩⟩
  · rfl
  · rfl
  · rfl

theorem install_looks {i : CompilerInstaller} {c : Compiler} {directory : Path} {env : Env}
    {r : Except Failure (List (String × String))} (h₀ : (i.install c directory env).Runs t j r) :
    looks t = 0 := by
  cases install_runs h₀ with
  | failed _ h => exact runInstallation_looks h
  | installed _ h hl => rw [looks_append, runInstallation_looks h, looks_of_surveys hl.surveys]
  | present _ hl => exact looks_of_surveys hl.surveys

end CompilerInstaller

theorem runVerification_looks {workspace : Path} {env : Env} {command : List String}
    {r : Except Failure (List String)} (h₀ : (runVerification workspace env command).Runs t j r) :
    looks t = 0 := by
  obtain ⟨-, ⟨seen, -, rfl, -⟩ | ⟨x, rfl, -⟩⟩ := runVerification_runs h₀
  · rfl
  · rfl

theorem Adapter.publish_looks {a : Adapter} {ambient : Env} {file : Path} {asset : String}
    {target : Target} {r : Except Failure Upload}
    (h₀ : (a.publish ambient file asset target).Runs t j r) : looks t = 0 := by
  rcases publish_runs h₀ with ⟨seen, -, rfl, -⟩ | ⟨u, k, rfl, hu⟩
  · rfl
  · have hl := (Surroundings.upload_keeps (n := 0) hu).1
    simpa [looks, isLook] using hl

namespace Surroundings
variable {s : Surroundings}

theorem provision_looks {tc : Toolchain} {r : Except Failure Env}
    (h₀ : (s.provision tc).Runs t j r) : looks t = 0 := by
  cases provision_runs h₀ with
  | plain _ hl => exact LanguageInstaller.install_looks hl
  | uncompiled _ hi => exact CompilerInstaller.install_looks hi
  | compiled _ hi hl =>
    rw [looks_append, CompilerInstaller.install_looks hi, LanguageInstaller.install_looks hl]

theorem buildStep_looks {i : Invocation} {env : Env} {r : Except Failure Path}
    (h₀ : (buildStep i env).Runs t j r) : looks t = 0 := by
  rcases buildStep_runs h₀ with ⟨seen, -, rfl, -⟩ | ⟨x, rfl, -⟩
  · rfl
  · rfl

end Surroundings

/-- What a context asks once the run is cancelled, with its traces before and after: it goes on in
the stage it is in, if it is in one, and the next look at the signal ends it. -/
structure Ceases (before after : Trace) : Prop where
  asks : ∃ u, looks u = 0 ∧ (after = u ∨ after = u ++ refusal) ∧ (entered before = 0 → u = [])
  looked : after ≠ [] → looks before = entered before

/-- What it means for one context that the run is cancelled between the two parts of its trace.
Its calls belong to a stage that it had entered; a context that had ended keeps its outcome, and
one that had not entered its last stage is cancelled before its next one, unless it fails in the
one it is in. -/
structure Halts (stages : List Stage) (c : Program Outcome) (before after : Trace) (o : Outcome) :
    Prop extends Ceases before after where
  calls : ∀ x ∈ staged (looks before) after,
    ∃ st ∈ stages.take (entered before), x.1 = st.position
  ended : ∀ o', c.Runs before o' → after = [] ∧ o = o'
  reported : ∀ r, o.2 = .ok r → entered before < stages.length → r.upload = none ∧
    ((r.status = .cancelled ∧ r.failedStage = stages[entered before]?) ∨
      (r.status = .failed ∧ 0 < entered before ∧
        r.failedStage = stages[entered before - 1]?))
  unbegun : entered before = 0 → Trace.calls after = [] ∧ ∀ r, o.2 = .ok r →
    r.status = .cancelled ∧ r.failedStage = some .setup ∧ r.toolchain = none

/-- The run of a context as a row of stages. Each begins with a look that lets the context go on,
and does not look again. -/
inductive Passage : List Stage → Trace → Except Stop Unit → Prop
  | done : Passage [] [] (.ok ())
  | refused {st sts} : Passage (st :: sts) refusal (.error (.cancelled st))
  | failed {st sts u e} (hu : looks u = 0) :
      Passage (st :: sts) (entry true ++ u) (.error (stopOf st e))
  | passed {st sts u t r} (hu : looks u = 0) (h : Passage sts t r) :
      Passage (st :: sts) (entry true ++ (u ++ t)) r

namespace Passage
variable {sts rest : List Stage} {r : Except Stop Unit}

theorem halt {stop : Stop} (h : Passage sts t (.error stop)) (rest : List Stage) :
    Passage (sts ++ rest) t (.error stop) := by
  generalize hr : (Except.error stop : Except Stop Unit) = r at h
  induction h with
  | done => cases hr
  | refused => exact .refused
  | failed hu => exact .failed hu
  | passed hu _ ih => exact .passed hu (ih hr)

theorem append (h : Passage sts t (.ok ())) (hu : Passage rest u r) :
    Passage (sts ++ rest) (t ++ u) r := by
  generalize hr : (Except.ok () : Except Stop Unit) = r' at h
  induction h with
  | done => exact hu
  | refused | failed => cases hr
  | passed hl _ ih =>
    rw [List.append_assoc, List.append_assoc]
    exact .passed hl (ih hr)

variable {α : Type} {st : Stage} {step : Step α}

theorem of_stops {stop : Stop} (h : Stops true st step t j stop)
    (hl : ∀ u j r, step.Runs u j r → looks u = 0) : Passage [st] t (.error stop) := by
  cases h with
  | cancelled => exact .refused
  | failed h => exact .failed (hl _ _ _ h)

theorem of_passes {a : α} (h : Passes true step t j a)
    (hl : ∀ u j r, step.Runs u j r → looks u = 0) : Passage [st] t (.ok ()) := by
  obtain ⟨u, rfl, hu⟩ := h
  have hp : Passage [st] (entry true ++ (u ++ [])) (.ok ()) := .passed (hl _ _ _ hu) .done
  rwa [List.append_nil] at hp

/-- Where a context ends that had entered `n` of its stages when the run was cancelled. -/
inductive EndsAfter (sts : List Stage) (n : Nat) : Except Stop Unit → Prop
  | cancelled {st : Stage} (h : sts[n]? = some st) : EndsAfter sts n (.error (.cancelled st))
  | failed {m : Nat} {st : Stage} {e : Failure} (hn : n = m + 1) (h : sts[m]? = some st) :
      EndsAfter sts n (.error (stopOf st e))

theorem EndsAfter.cons {n : Nat} (h : EndsAfter sts n r) (st : Stage) :
    EndsAfter (st :: sts) (n + 1) r := by
  cases h with
  | cancelled h => exact .cancelled h
  | failed hn h => exact .failed (by rw [hn]) h

theorem entered_le (h : Passage sts t r) : entered t ≤ sts.length := by
  induction h with
  | done => exact Nat.le_refl _
  | refused => exact Nat.zero_le _
  | failed hu =>
    rw [entered_entry, entered_of_looks hu, List.length_cons]
    omega
  | passed hu _ ih =>
    rw [entered_entry, entered_append, entered_of_looks hu, List.length_cons]
    omega

theorem entry_before (h : before ++ after = entry true ++ t) (hc : after.Cancelled) :
    ∃ b, before = entry true ++ b ∧ b ++ after = t := by
  cases before with
  | nil =>
    obtain rfl : after = entry true ++ t := h
    cases hc false (by simp [entry])
  | cons ev before =>
    obtain ⟨rfl, he⟩ := List.cons.inj h
    exact ⟨before, rfl, he⟩

/-- Once the run is cancelled, a context begins no other stage: it ends before the next one, unless
it fails in the one it is in or is through with its last. -/
theorem ceases (h : Passage sts (before ++ after) r) (hc : after.Cancelled) :
    Ceases before after ∧ (entered before < sts.length → EndsAfter sts (entered before) r) := by
  generalize ht : before ++ after = t at h
  induction h generalizing before after with
  | done =>
    obtain ⟨rfl, rfl⟩ := List.append_eq_nil_iff.mp ht
    exact ⟨⟨⟨[], rfl, .inl rfl, fun _ => rfl⟩, by simp⟩, by simp [entered]⟩
  | refused =>
    cases before with
    | nil =>
      obtain rfl : after = refusal := ht
      exact ⟨⟨⟨[], rfl, .inr rfl, fun _ => rfl⟩, fun _ => rfl⟩, fun _ => .cancelled rfl⟩
    | cons ev before =>
      obtain ⟨rfl, he⟩ := List.cons.inj ht
      obtain ⟨rfl, rfl⟩ := List.append_eq_nil_iff.mp he
      exact ⟨⟨⟨[], rfl, .inl rfl, fun _ => rfl⟩, by simp⟩, fun _ => .cancelled rfl⟩
  | failed hu =>
    obtain ⟨b, rfl, rfl⟩ := entry_before ht hc
    rw [looks_append, Nat.add_eq_zero_iff] at hu
    obtain ⟨hb, ha⟩ := hu
    have he : entered (entry true ++ b) = 1 := by rw [entered_entry, entered_of_looks hb]
    have hl : looks (entry true ++ b) = 1 := by rw [looks_entry, hb]
    rw [he]
    exact ⟨⟨⟨after, ha, .inl rfl, by simp [he]⟩, fun _ => hl.trans he.symm⟩,
      fun _ => .failed rfl rfl⟩
  | @passed st sts u t r hu h ih =>
    obtain ⟨b, rfl, hut⟩ := entry_before ht hc
    rcases List.append_eq_append_iff.mp hut with ⟨w, rfl, rfl⟩ | ⟨w, rfl, rfl⟩
    -- cancelled within this stage: of the others there is a look at most
    · rw [looks_append, Nat.add_eq_zero_iff] at hu
      obtain ⟨hb, hw⟩ := hu
      obtain ⟨⟨⟨v, -, hv, hnil⟩, -⟩, hends⟩ := ih hc.of_append_right (List.nil_append t)
      obtain rfl := hnil rfl
      refine ⟨⟨⟨w, hw, ?_, by simp [entered_entry]⟩, ?_⟩, ?_⟩
      · obtain rfl | rfl := hv
        · exact .inl (List.append_nil w)
        · exact .inr rfl
      · intro _
        rw [entered_entry, looks_entry, entered_of_looks hb, hb]
      · intro hlt
        rw [entered_entry, entered_of_looks hb] at hlt ⊢
        exact (hends (Nat.lt_of_succ_lt_succ hlt)).cons st
    · obtain ⟨⟨⟨v, hv, hav, hnil⟩, hl⟩, hends⟩ := ih hc rfl
      have hel : entered (entry true ++ (u ++ w)) = entered w + 1 := by
        rw [entered_entry, entered_append, entered_of_looks hu, Nat.zero_add]
      refine ⟨⟨⟨v, hv, hav, by simp [hel]⟩, ?_⟩, ?_⟩
      · intro hne
        rw [hel, looks_entry, looks_append, hu, Nat.zero_add, hl hne]
      · intro hlt
        rw [hel] at hlt ⊢
        exact (hends (Nat.lt_of_succ_lt_succ hlt)).cons st

theorem EndsAfter.report {n : Nat} {key host : String} {logs : List String} {f : Findings}
    {rep : Report} (h : EndsAfter sts n r)
    (hr : (Context.report key host logs f r).2 = .ok rep) :
    (rep.status = .cancelled ∧ rep.failedStage = sts[n]?) ∨
      (rep.status = .failed ∧ 0 < n ∧ rep.failedStage = sts[n - 1]?) := by
  cases h with
  | cancelled h =>
    cases hr
    exact .inl ⟨rfl, h.symm⟩
  | @failed m st e hn h =>
    subst hn
    cases e with
    | release e =>
      cases hr
      exact .inr ⟨rfl, Nat.succ_pos m, h.symm⟩
    | crash c => cases hr

/-- The calls after the cancellation are those of the stage that was entered last. -/
theorem calls_of_ceases (hat : sts.map Stage.position = List.range' 1 sts.length)
    (hle : entered before ≤ sts.length) (h : Ceases before after) :
    ∀ x ∈ staged (looks before) after, ∃ st ∈ sts.take (entered before), x.1 = st.position := by
  obtain ⟨u, hu, hau, hnil⟩ := h.asks
  have hstaged : staged (looks before) after = stamped (looks before) (calls u) := by
    obtain rfl | rfl := hau
    · exact staged_eq_of_looks hu
    · rw [staged_append, staged_eq_of_looks hu]
      exact List.append_nil _
  intro x hx
  rw [hstaged] at hx
  obtain ⟨c, hc, rfl⟩ := List.mem_map.mp hx
  have hune : u ≠ [] := by
    rintro rfl
    cases hc
  have hane : after ≠ [] := by
    rintro rfl
    obtain he | he := hau
    · exact hune he.symm
    · exact hune (List.append_eq_nil_iff.mp he.symm).1
  obtain ⟨m, hm⟩ := Nat.exists_eq_succ_of_ne_zero fun he => hune (hnil he)
  have hlt : m < sts.length := by omega
  have hpos : (sts.map Stage.position)[m]? = some (m + 1) := by
    rw [hat, List.getElem?_range' hlt]
    simp [Nat.add_comm]
  rw [List.getElem?_map, Option.map_eq_some_iff] at hpos
  obtain ⟨st, hst, hp⟩ := hpos
  refine ⟨st, ?_, ?_⟩
  · rw [hm]
    exact List.mem_of_getElem? ((List.getElem?_take_of_lt (Nat.lt_succ_self m)).trans hst)
  · rw [hp, h.looked hane, hm]

theorem halts {key host : String} {c : Context Unit} {o : Outcome}
    (h : ∀ t j f r, c.Runs t j f r → Passage sts t r) (hc : after.Cancelled)
    (hat : sts.map Stage.position = List.range' 1 sts.length) (hfirst : sts[0]? = some .setup)
    (hr : (finish key host c).Runs (before ++ after) o)
    (hrep : ∀ rep, o.2 = .ok rep → rep.Coherent ∧ (rep.upload.isSome → rep.status = .succeeded)) :
    Halts sts (finish key host c) before after o := by
  obtain ⟨j, f, r, hrun, rfl⟩ := runs_finish hr
  have h := h _ _ _ _ hrun
  obtain ⟨hceases, hends⟩ := h.ceases hc
  have hle : entered before ≤ sts.length := by
    have := h.entered_le
    rw [entered_append] at this
    omega
  refine ⟨hceases, calls_of_ceases hat hle hceases, fun o' ho' => Program.runs_append ho' hr,
    ?_, ?_⟩
  · intro rep hok hlt
    have hst := (hends hlt).report hok
    have hne : rep.status ≠ .succeeded := by
      obtain ⟨hs, -⟩ | ⟨hs, -⟩ := hst <;> simp [hs]
    have hup : rep.upload = none := by
      cases hu : rep.upload with
      | none => rfl
      | some u => exact absurd ((hrep rep hok).2 (by simp [hu])) hne
    exact ⟨hup, hst⟩
  · intro hz
    obtain ⟨u, hu, hau, hnil⟩ := hceases.asks
    obtain rfl := hnil hz
    refine ⟨?_, ?_⟩
    · obtain rfl | rfl := hau <;> rfl
    · intro rep hok
      have hlt : entered before < sts.length := by
        rw [hz]
        exact (List.getElem?_eq_some_iff.mp hfirst).1
      have hst := (hends hlt).report hok
      rw [hz] at hst
      obtain ⟨hs, hf⟩ | ⟨-, hpos, -⟩ := hst
      · rw [hfirst] at hf
        refine ⟨hs, hf, ?_⟩
        have htc := (hrep rep hok).1.toolchain
        simpa [hf] using htc
      · cases hpos

end Passage

namespace Surroundings
variable {s : Surroundings} {f : Findings}

theorem ofExcept_looks {α : Type} {toolchain : Except ConfigurationError α}
    {r : Except Failure α} (h₀ : (Step.ofExcept .configuration toolchain).Runs t j r) :
    looks t = 0 := by
  cases toolchain with
  | error e =>
    obtain ⟨rfl, -⟩ := Step.runs_fail.mp h₀
    rfl
  | ok a =>
    obtain ⟨rfl, -⟩ := Step.runs_pure.mp h₀
    rfl

theorem prepares_passage (hs : s.signal = true) {toolchain : Except ConfigurationError Toolchain}
    {r : Except Stop (Path × Env)} (h₀ : s.Prepares toolchain t j f r) :
    Passage [.setup, .provision, .checkout] t (r.map fun _ => ()) := by
  have setup : Passage [.setup] (entry s.signal) (.ok ()) := by
    have hp : Passage [.setup] (entry true ++ ([] ++ [])) (.ok ()) := .passed rfl .done
    rwa [hs]
  have provision {tc : Toolchain} {t : Trace} {j : Journal} {env : Env}
      (h : Passes s.signal (s.provision tc) t j env) : Passage [.provision] t (.ok ()) := by
    rw [hs] at h
    exact .of_passes h fun _ _ _ h => provision_looks h
  cases h₀ with
  | setup h =>
    rw [hs] at h
    exact (Passage.of_stops h fun _ _ _ h => ofExcept_looks h).halt [.provision, .checkout]
  | provision htc h =>
    rw [hs] at h
    have hp := Passage.of_stops h fun _ _ _ h => provision_looks h
    exact setup.append (hp.halt [.checkout])
  | checkout htc h hc =>
    rw [hs] at hc
    have hc := Passage.of_stops hc fun _ _ _ h => Checkout.acquire_looks h
    exact setup.append ((provision h).append hc)
  | ready htc h hc =>
    rw [hs] at hc
    have hc : Passage [.checkout] _ _ :=
      Passage.of_passes hc fun _ _ _ h => Checkout.acquire_looks h
    exact setup.append ((provision h).append hc)

theorem releases_passage (hs : s.signal = true) {e : Entry} {target : Target}
    {r : Except Stop Unit} (h₀ : s.Releases e target t j f r) : Passage Stage.ofRelease t r := by
  cases h₀ with
  | unprepared h => exact (prepares_passage hs h).halt [.build, .publish]
  | buildCancelled h =>
    have hb : Passage [.build, .publish] refusal (.error (.cancelled .build)) := .refused
    exact (prepares_passage hs h).append hb
  | buildFailed h hb =>
    rw [hs]
    exact (prepares_passage hs h).append (.failed (buildStep_looks hb))
  | unpublished h hb hp =>
    rw [hs] at hp ⊢
    have hp := Passage.of_stops hp fun _ _ _ h => Adapter.publish_looks h
    exact (prepares_passage hs h).append (.passed (buildStep_looks hb) hp)
  | published h hb hp =>
    rw [hs] at hp ⊢
    have hp : Passage [.publish] _ _ := Passage.of_passes hp fun _ _ _ h => Adapter.publish_looks h
    exact (prepares_passage hs h).append (.passed (buildStep_looks hb) hp)

theorem tests_passage (hs : s.signal = true) {host : String} {command : List String}
    {r : Except Stop Unit} (h₀ : s.Tests host command t j f r) : Passage Stage.ofTest t r := by
  cases h₀ with
  | unprepared h => exact (prepares_passage hs h).halt [.test]
  | unverified h hv =>
    rw [hs] at hv
    have hv := Passage.of_stops hv fun _ _ _ h => runVerification_looks h
    exact (prepares_passage hs h).append hv
  | verified h hv =>
    rw [hs] at hv
    have hv : Passage [.test] _ _ := Passage.of_passes hv fun _ _ _ h => runVerification_looks h
    exact (prepares_passage hs h).append hv

theorem releaseContext_halts (hs : s.signal = true) {e : Entry} {target : Target} {o : Outcome}
    (h₀ : (s.releaseContext target e).Runs (before ++ after) o) (hc : after.Cancelled) :
    Halts Stage.ofRelease (s.releaseContext target e) before after o := by
  refine Passage.halts (fun t j f r h => releases_passage hs (releaseStages_runs h)) hc (by decide)
    rfl h₀ fun r hr => ?_
  have hrep := releaseContext_report h₀ hr
  exact ⟨hrep.toCoherent, hrep.uploaded.mpr⟩

theorem testContext_halts (hs : s.signal = true) {label : String} {command : List String}
    {o : Outcome} (h₀ : (s.testContext command label).Runs (before ++ after) o)
    (hc : after.Cancelled) :
    Halts Stage.ofTest (s.testContext command label) before after o := by
  refine Passage.halts (fun t j f r h => tests_passage hs (testStages_runs h)) hc (by decide)
    rfl h₀ fun r hr => ?_
  have hrep := testContext_report h₀ hr
  exact ⟨hrep.toCoherent, by simp [hrep.upload]⟩

end Surroundings
/-- What it means for a run that it is cancelled, with the number of the context that asked beside
each event. Every context halts, and the run has the report of each. With a single worker nothing
is asked for the contexts behind the one that was running. -/
structure RunHalts (stages : List Stage) (wish : Option Int) (contexts : List (Program Outcome))
    (l : Tagged) (x : Except Failure (List Report)) : Prop where
  each : ∀ before after, l = before ++ after → Cancelled (after.map Prod.snd) →
    ∀ (k : Nat) c, contexts[k]? = some c → ∃ o, c.Runs (l.share k) o ∧
      (∀ rs, x = .ok rs → ∃ r, rs[k]? = some r ∧ o.2 = .ok r) ∧
      Halts stages c (Tagged.share k before) (Tagged.share k after) o
  serial : Pool.workersFor wish contexts.length = 1 →
    ∀ before i ev after, l = before ++ (some i, ev) :: after → Cancelled (after.map Prod.snd) →
    ∀ k, i < k → k < contexts.length → calls (l.share k) = [] ∧
      ∀ rs, x = .ok rs → ∃ r, rs[k]? = some r ∧ r.status = .cancelled ∧
        r.failedStage = some .setup ∧ r.toolchain = none

theorem Trace.Cancelled.share {l : Tagged} (h : Cancelled (l.map Prod.snd)) (k : Nat) :
    Cancelled (l.share k) := by
  intro b hb
  exact h b (List.mem_map.mpr ⟨_, Tagged.mem_share.mp hb, rfl⟩)

theorem Trace.Cancelled.untagged {l : Tagged} {n : Nat} (h : Cancelled (t.drop n))
    (hl : l.map Prod.snd = t) : Cancelled ((l.drop n).map Prod.snd) := by
  rwa [List.map_drop, hl]

theorem Tagged.Serial.share_eq_nil {l m : Tagged} {i k : Nat} {ev : Event}
    (h : (l ++ (some i, ev) :: m).Serial) (hk : i < k) : (l ++ [(some i, ev)]).share k = [] := by
  obtain ⟨-, -, hlm⟩ := List.pairwise_append.mp h
  refine Tagged.share_eq_nil fun e he => ?_
  cases List.mem_append.mp he with
  | inl he =>
    have hle := hlm _ he (some i, ev) (by simp) k i rfl rfl
    omega
  | inr he =>
    cases List.mem_singleton.mp he
    omega

theorem fanOut_halts {stages : List Stage} {signal : Bool} {wish : Option Int}
    {schedule : List Nat} {contexts : List (Program Outcome)} {x : Except Failure (List Report)}
    (h₀ : (fanOut signal wish schedule contexts).Runs t j x)
    (hc : ∀ c ∈ contexts, ∀ before after o, c.Runs (before ++ after) o → after.Cancelled →
      Halts stages c before after o) :
    ∃ l : Tagged, l.map Prod.snd = t ∧ RunHalts stages wish contexts l x := by
  obtain ⟨l, os, hl, hi, -, hx, hserial⟩ := fanOut_shares h₀
  have each : ∀ before after, l = before ++ after → Cancelled (after.map Prod.snd) →
      ∀ (k : Nat) c, contexts[k]? = some c → ∃ o, c.Runs (l.share k) o ∧
        (∀ rs, x = .ok rs → ∃ r, rs[k]? = some r ∧ o.2 = .ok r) ∧
        Halts stages c (Tagged.share k before) (Tagged.share k after) o := by
    intro before after hsplit hcancel k c hk
    obtain ⟨o, ho, hr⟩ := hi.each k c hk
    refine ⟨o, hr, ?_, ?_⟩
    · rintro rs rfl
      exact (Outcome.reports_of_verdict hx.symm).2 k o ho
    · rw [hsplit, Tagged.share_append] at hr
      exact hc c (List.mem_of_getElem? hk) _ _ o hr (hcancel.share k)
  refine ⟨l, hl, each, ?_⟩
  intro hw before i ev after hsplit hcancel k hk hlt
  have hnil := (hsplit ▸ hserial hw).share_eq_nil hk
  have hsplit' : l = (before ++ [(some i, ev)]) ++ after := by simp [hsplit]
  obtain ⟨o, -, hreport, hh⟩ := each _ after hsplit' hcancel k _ (List.getElem?_eq_getElem hlt)
  rw [hnil] at hh
  obtain ⟨hcalls, hunbegun⟩ := hh.unbegun rfl
  refine ⟨?_, ?_⟩
  · rw [hsplit', Tagged.share_append, hnil]
    exact hcalls
  · intro rs hrs
    obtain ⟨r, hr, hok⟩ := hreport rs hrs
    exact ⟨r, hr, hunbegun r hok⟩

namespace Surroundings

/-- Wherever a run is cancelled, before it or at any point of any of its contexts, whatever the
schedule and the number of workers: no context begins another stage, and none that had not entered
its last one publishes. -/
theorem cancellation_is_safe {s : Surroundings} (hs : s.signal = true) (schedule : List Nat) :
    (∀ m target t j x, (s.release schedule m target).Runs t j x →
      ∃ l : Tagged, l.map Prod.snd = t ∧ RunHalts Stage.ofRelease s.settings.workers
        (m.entries.map (s.releaseContext target)) l x) ∧
    ∀ hosts command t j x, (s.test schedule hosts command).Runs t j x →
      ∃ l : Tagged, l.map Prod.snd = t ∧ RunHalts Stage.ofTest s.settings.workers
        (hosts.map (s.testContext command)) l x := by
  constructor
  · intro m target t j x h₀
    obtain ⟨j₁, -, h₁⟩ := Step.runs_note_bind.mp h₀
    refine fanOut_halts h₁ fun c hmem before after o hr hc => ?_
    obtain ⟨e, -, rfl⟩ := List.mem_map.mp hmem
    exact releaseContext_halts hs hr hc
  · intro hosts command t j x h₀
    refine fanOut_halts h₀ fun c hmem before after o hr hc => ?_
    obtain ⟨label, -, rfl⟩ := List.mem_map.mp hmem
    exact testContext_halts hs hr hc

open Simulation in
theorem world_stays_cancelled (r : Request) (w : World) (h : w.cancelled = true) :
    (World.answer r w).2.cancelled = true := by
  cases r with
  | start p =>
    simp only [World.answer, World.start]
    split
    · exact h
    · split
      · simp [h]
      · split <;> simp [h]
  | send q =>
    simp only [World.answer, World.send]
    split <;> simp [h]
  | writeFile p text =>
    simp only [World.answer, World.writeFile]
    split <;> simp [h]
  | cancel => rfl
  | _ => exact h

open Simulation in
/-- A run that is cancelled while a build runs that then fails, and one that is cancelled before it
begins, each with one worker. -/
theorem brokenRun_halts :
    let s : Surroundings := { dryRun (Path.ofString "/work") true with
      settings := { (dryRun (Path.ofString "/work") true).settings with workers := some 1 } }
    let target : Target := ⟨"v1", "", none⟩
    let release := s.release [] brokenMatrix target
    let test := s.test [1, 0] ["linux", "windows-2022"] verifyCommand
    let w : World := { brokenWorld with cancelled := true }
    (∃ l : Tagged, l.map Prod.snd = release.run.trace World.answer brokenWorld ∧
      Cancelled ((l.drop 18).map Prod.snd) ∧ RunHalts Stage.ofRelease (some 1)
        (brokenMatrix.entries.map (s.releaseContext target)) l
        (release.run.runWith World.answer brokenWorld).1.2) ∧
    ∃ l : Tagged, l.map Prod.snd = test.run.trace World.answer w ∧
      Cancelled ((l.drop 0).map Prod.snd) ∧ RunHalts Stage.ofTest (some 1)
        (["linux", "windows-2022"].map (s.testContext verifyCommand)) l
        (test.run.runWith World.answer w).1.2 := by
  intro s target release test w
  constructor
  · have hc : Cancelled ((release.run.trace World.answer brokenWorld).drop 18) :=
      cancelled_of_entered (by decide +kernel)
    obtain ⟨l, hl, hh⟩ := (cancellation_is_safe (s := s) rfl []).1 brokenMatrix target _ _ _
      (Step.runs_trace World.answer release brokenWorld)
    exact ⟨l, hl, hc.untagged hl, hh⟩
  · have hc : Cancelled ((test.run.trace World.answer w).drop 0) :=
      (Program.leads_trace World.answer test.run w).cancelled (fun _ => rfl)
        world_stays_cancelled rfl
    obtain ⟨l, hl, hh⟩ := (cancellation_is_safe (s := s) rfl [1, 0]).2 ["linux", "windows-2022"]
      verifyCommand _ _ _ (Step.runs_trace World.answer test w)
    exact ⟨l, hl, hc.untagged hl, hh⟩

end Surroundings
end BindingRelease
