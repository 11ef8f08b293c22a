import BindingRelease.Console
import BindingRelease.Proofs.Calls
import BindingRelease.Proofs.FanOut
/-!
How a command ends. Whatever the user can have got wrong is found while the tool only looks at files
and reads them, so a refusal leaves everything as it was. Once a context has begun there are no
refusals any more: a configuration error is then a part of the report.
-/
namespace BindingRelease
variable {α β : Type}

/-- Leaves the world as it is: looks at what there is at a path, or reads a file or a text. -/
def Request.inspects : Request → Bool
  | readFile _ | readYaml _ => true
  | q => q.surveys

namespace Trace

def Inspects (t : Trace) : Prop := ∀ ev ∈ t, ev.1.inspects

/-- A context has begun. It looks at the signal before anything else, and only contexts look. -/
def Begun (t : Trace) : Prop := ∃ ev ∈ t, isLook ev

instance {t : Trace} : Decidable t.Begun := inferInstanceAs (Decidable (∃ ev ∈ t, isLook ev))

variable {t u : Trace}

theorem inspects_nil : Inspects [] := by
  simp [Inspects]

theorem inspects_append : (t ++ u).Inspects ↔ t.Inspects ∧ u.Inspects := by
  simp [Inspects, or_imp, forall_and]

theorem begun_append : (t ++ u).Begun ↔ t.Begun ∨ u.Begun := by
  simp [Begun, or_and_right, exists_or]

theorem Begun.mono (h : t.Begun) (hu : t ⊆ u) : u.Begun := by
  obtain ⟨ev, hev, hl⟩ := h
  exact ⟨ev, hu hev, hl⟩

theorem isLook_iff {ev : Event} : isLook ev ↔ ev.1 = .isCancelled := by
  obtain ⟨q, x⟩ := ev
  cases q <;> simp [isLook]

theorem Inspects.not_begun (h : t.Inspects) : ¬ t.Begun := by
  rintro ⟨ev, hev, hl⟩
  have hi := h ev hev
  rw [isLook_iff.mp hl] at hi
  cases hi

end Trace

namespace Failure

def IsCrash : Failure → Prop
  | crash _ => True
  | release _ => False

/-- What can go wrong before the first context: no release error but those of the configuration. -/
def Early : Failure → Prop
  | release (.configuration _) | crash _ => True
  | release _ => False

theorem IsCrash.early {e : Failure} (h : e.IsCrash) : e.Early := by
  cases e with
  | release e => cases h
  | crash c => trivial

end Failure

namespace Step
variable {E E' : Request → Prop} {P P' : Failure → Prop} {Q Q' : α → Prop} {R : β → Prop}
  {s : Step α} {t : Trace} {j : Journal}

/-- Every run of the step asks, fails and gives only what is said here. -/
structure Only (E : Request → Prop) (P : Failure → Prop) (Q : α → Prop) (s : Step α) : Prop where
  asks : ∀ {t j r}, s.Runs t j r → ∀ ev ∈ t, E ev.1
  fails : ∀ {t j e}, s.Runs t j (.error e) → P e
  gives : ∀ {t j a}, s.Runs t j (.ok a) → Q a

namespace Only

theorem done {i : Journal} {r : Except Failure α} (hP : ∀ e, r = .error e → P e)
    (hQ : ∀ a, r = .ok a → Q a) : (⟨.done (i, r)⟩ : Step α).Only E P Q where
  asks h₀ := by
    obtain ⟨rfl, -⟩ := Program.runs_done.mp h₀
    simp
  fails h₀ := by
    obtain ⟨-, h⟩ := Program.runs_done.mp h₀
    exact hP _ (Prod.mk.inj h).2.symm
  gives h₀ := by
    obtain ⟨-, h⟩ := Program.runs_done.mp h₀
    exact hQ _ (Prod.mk.inj h).2.symm

theorem pure {a : α} (h : Q a) : (Pure.pure a : Step α).Only E P Q :=
  done nofun fun _ ha => Except.ok.inj ha ▸ h

theorem fail {e : Failure} (h : P e) : (Step.fail e : Step α).Only E P Q :=
  done (fun _ he => Except.error.inj he ▸ h) nofun

theorem note {l : Level} {source message : String} :
    (Step.note l source message).Only E P fun _ => True :=
  done nofun fun _ _ => trivial

theorem ask {q : Request} (h : E q) : (Step.ask q).Only E P fun _ => True where
  asks h₀ := by
    obtain ⟨x, rfl, -, -⟩ := runs_ask.mp h₀
    simpa using h
  fails h₀ := by
    obtain ⟨x, -, -, he⟩ := runs_ask.mp h₀
    cases he
  gives _ := trivial

theorem bind {f : α → Step β} (hs : s.Only E P Q) (hf : ∀ a, Q a → (f a).Only E P R) :
    (s >>= f).Only E P R where
  asks h₀ := by
    rcases runs_bind.mp h₀ with ⟨e, -, h⟩ | ⟨t₁, t₂, j₁, j₂, a, rfl, -, h₁, h₂⟩
    · exact hs.asks h
    · exact List.forall_mem_append.mpr ⟨hs.asks h₁, (hf a (hs.gives h₁)).asks h₂⟩
  fails h₀ := by
    rcases runs_bind.mp h₀ with ⟨e, he, h⟩ | ⟨t₁, t₂, j₁, j₂, a, -, -, h₁, h₂⟩
    · cases he
      exact hs.fails h
    · exact (hf a (hs.gives h₁)).fails h₂
  gives h₀ := by
    rcases runs_bind.mp h₀ with ⟨e, he, h⟩ | ⟨t₁, t₂, j₁, j₂, a, -, -, h₁, h₂⟩
    · cases he
    · exact (hf a (hs.gives h₁)).gives h₂

theorem mono (hs : s.Only E P Q) (hE : ∀ q, E q → E' q) (hP : ∀ e, P e → P' e)
    (hQ : ∀ a, Q a → Q' a) : s.Only E' P' Q' where
  asks h₀ ev hev := hE _ (hs.asks h₀ ev hev)
  fails h₀ := hP _ (hs.fails h₀)
  gives h₀ := hQ _ (hs.gives h₀)

theorem ofExcept {ε : Type} {wrap : ε → Failure} {x : Except ε α} (h : ∀ e, P (wrap e)) :
    (Step.ofExcept wrap x).Only E P fun _ => True := by
  cases x with
  | error e => exact fail (h e)
  | ok a => exact pure trivial

end Only

theorem runs_attempt {r : Except Failure (Except Failure α)} :
    s.attempt.Runs t j r ↔ ∃ x, r = .ok x ∧ s.Runs t j x := by
  simp only [Runs, attempt, Program.runs_map]
  constructor
  · rintro ⟨⟨i, x⟩, h, hs⟩
    cases h
    exact ⟨x, rfl, hs⟩
  · rintro ⟨x, rfl, hs⟩
    exact ⟨(j, x), rfl, hs⟩

theorem Only.attempt (hs : s.Only E P Q) :
    s.attempt.Only E (fun _ => False) fun x =>
      (∀ e, x = .error e → P e) ∧ ∀ a, x = .ok a → Q a where
  asks h₀ := by
    obtain ⟨x, -, h⟩ := runs_attempt.mp h₀
    exact hs.asks h
  fails h₀ := by
    obtain ⟨x, he, -⟩ := runs_attempt.mp h₀
    cases he
  gives h₀ := by
    obtain ⟨x, hx, h⟩ := runs_attempt.mp h₀
    cases hx
    exact ⟨fun e he => hs.fails (he ▸ h), fun a ha => hs.gives (ha ▸ h)⟩

theorem Only.bind_runs {f : α → Step β} {r : Except Failure β} (hs : s.Only E P Q)
    (h₀ : (s >>= f).Runs t j r) :
    (∃ e, r = .error e ∧ P e ∧ ∀ ev ∈ t, E ev.1) ∨
      ∃ t₁ t₂ j₁ j₂ a, t = t₁ ++ t₂ ∧ (∀ ev ∈ t₁, E ev.1) ∧ s.Runs t₁ j₁ (.ok a) ∧
        (f a).Runs t₂ j₂ r := by
  rcases runs_bind.mp h₀ with ⟨e, rfl, h⟩ | ⟨t₁, t₂, j₁, j₂, a, rfl, -, h₁, h₂⟩
  · exact .inl ⟨e, rfl, hs.fails h, hs.asks h⟩
  · exact .inr ⟨t₁, t₂, j₁, j₂, a, rfl, hs.asks h₁, h₁, h₂⟩

theorem runs_ofExcept_bind {ε : Type} {wrap : ε → Failure} {x : Except ε α} {k : α → Step β}
    {r : Except Failure β} (h₀ : (ofExcept wrap x >>= k).Runs t j r) :
    (∃ e, x = .error e ∧ t = [] ∧ j = .empty ∧ r = .error (wrap e)) ∨
      ∃ a, x = .ok a ∧ (k a).Runs t j r := by
  cases x with
  | error e => exact .inl ⟨e, rfl, runs_fail_bind.mp h₀⟩
  | ok a => exact .inr ⟨a, rfl, runs_pure_bind.mp h₀⟩

theorem present_only {p : Path} : (present p).Only (·.inspects) Failure.IsCrash fun _ => True :=
  .bind (Only.ask (q := .exists p) rfl) fun _ _ => .ofExcept fun _ => trivial

theorem isFile_only {p : Path} : (isFile p).Only (·.inspects) Failure.IsCrash fun _ => True :=
  .bind (Only.ask (q := .isFile p) rfl) fun _ _ => .ofExcept fun _ => trivial

theorem readFile_only {p : Path} :
    (readFile p).Only (·.inspects) Failure.IsCrash fun _ => True :=
  .bind (Only.ask (q := .readFile p) rfl) fun _ _ => .ofExcept fun _ => trivial

theorem makeDirectories_only {p : Path} :
    (makeDirectories p).Only (· ≠ .isCancelled) Failure.IsCrash fun _ => True :=
  .bind (Only.ask (q := .makeDirectories p) nofun) fun _ _ => .ofExcept fun _ => trivial

theorem writeFile_only {p : Path} {text : String} :
    (writeFile p text).Only (· ≠ .isCancelled) Failure.IsCrash fun _ => True :=
  .bind (Only.ask (q := .writeFile p text) nofun) fun _ _ => .ofExcept fun _ => trivial

theorem readText_only {p : Path} :
    (readText p).Only (·.inspects) Failure.IsCrash fun _ => True := by
  refine .bind readFile_only fun bs _ => ?_
  split
  · exact .pure trivial
  · exact .fail trivial

end Step

namespace EnvFile
open Step

theorem warnAll_only {E : Request → Prop} {P : Failure → Prop} (lines : List Nat) :
    (warnAll lines).Only E P fun _ => True := by
  induction lines with
  | nil => exact .pure trivial
  | cons n ns ih => exact .bind .note fun _ _ => ih

theorem contentOf_only {path : Path} :
    (contentOf path).Only (·.inspects) Failure.IsCrash fun _ => True := by
  refine .bind isFile_only fun plain _ => ?_
  split
  · exact readText_only
  · exact .pure trivial

theorem readStatements_only {env : Env} {path : Path} :
    (readStatements env path).Only (·.inspects) Failure.IsCrash fun _ => True := by
  refine .bind present_only fun there _ => ?_
  split
  · refine .bind .note fun _ _ => ?_
    split
    · exact .bind .note fun _ _ => .pure trivial
    · exact .bind contentOf_only fun text _ => .bind (warnAll_only _) fun _ _ => .pure trivial
  · exact .pure trivial

theorem load_only {env : Env} {path : Path} :
    (load env path).Only (·.inspects) (fun _ => False) fun x =>
      ∀ e, x.2 = .error e → e.IsCrash := by
  refine .bind readStatements_only.attempt fun x hx => ?_
  cases x with
  | error e =>
    exact .pure fun e' he => by
      cases he
      exact hx.1 e rfl
  | ok ss =>
    dsimp only
    split
    · exact .pure fun e he => by cases he
    · exact .pure fun e he => by
        cases he
        trivial

end EnvFile

namespace Matrix
open Step

theorem documentOf_only {path : Path} {x : YamlResult} :
    (ofExcept id (documentOf path x)).Only (·.inspects) Failure.Early fun _ => True := by
  cases x with
  | document v => exact .pure trivial
  | notYaml => exact .fail trivial
  | broken c => exact .fail trivial

theorem load_only {path : Path} : (load path).Only (·.inspects) Failure.Early fun _ => True := by
  have early {α : Type} {s : Step α} (hs : s.Only (·.inspects) Failure.IsCrash fun _ => True) :
      s.Only (·.inspects) Failure.Early fun _ => True :=
    hs.mono (fun _ h => h) (fun _ h => h.early) fun _ h => h
  refine .bind (early present_only) fun there _ => ?_
  split
  · refine .bind (early readText_only) fun text _ => ?_
    refine .bind (.ask (q := .readYaml text) rfl) fun x _ => ?_
    refine .bind documentOf_only fun document _ => ?_
    split
    · exact .fail trivial
    · exact .bind (.ofExcept fun _ => trivial) fun m _ => .bind .note fun _ _ => .pure trivial
  · exact .fail trivial

theorem resolve_only {path : Option Path} :
    (resolve path).Only (·.inspects) Failure.Early fun _ => True := by
  cases path with
  | none => exact .pure trivial
  | some p => exact load_only

end Matrix

namespace Workflow
open Step

theorem write_only {workflow : List (String × Value)} {output : Option Path} :
    (write workflow output).Only (· ≠ .isCancelled) Failure.IsCrash fun _ => True := by
  cases output with
  | none => exact .pure trivial
  | some file =>
    exact .bind makeDirectories_only fun _ _ => .bind writeFile_only fun _ _ => .pure trivial

end Workflow

namespace Command
open Step
variable {place : Place} {schedule : List Nat} {t : Trace} {j : Journal}

theorem selected_only {matrix : Option String} {artifacts : List String} {host : Option String} :
    (selected matrix artifacts host).Only (·.inspects) Failure.Early fun _ => True :=
  .bind Matrix.resolve_only fun _ _ => .ofExcept fun _ => trivial

theorem listMatrix_only {matrix : Option String} :
    (listMatrix matrix).Only (·.inspects) Failure.Early (·.status = 0) :=
  .bind Matrix.resolve_only fun _ _ => .pure rfl

theorem validateMatrix_only {matrix : Option String} :
    (validateMatrix matrix).Only (·.inspects) Failure.Early (·.status = 0) :=
  .bind Matrix.resolve_only fun _ _ => .bind (.ofExcept fun _ => trivial) fun _ _ => .pure rfl

theorem showToolchains_only {matrix : Option String} {artifacts : List String} :
    (showToolchains matrix artifacts).Only (·.inspects) Failure.Early (·.status = 0) :=
  .bind selected_only fun _ _ => .bind (.ofExcept fun _ => trivial) fun _ _ => .pure rfl

/-- The contexts that a command runs, and what it prints of their reports at a given time. -/
inductive Starts (place : Place) :
    Command → List (Program Outcome) → (String → List Report → Value) → Prop
  | release (run : RunChoices) (c : ReleaseChoices) (s : Settings) (target : Target)
      (adapter : Adapter) {m : Matrix}
      (hm : ∃ t j, (selected c.matrix c.artifacts c.host).Runs t j (.ok m)) :
      Starts place (.releaseRun run c)
        (m.entries.map ((surroundings place run s adapter).releaseContext target))
        (Report.releaseRun target.tag)
  | test (run : RunChoices) (hosts : List String) (s : Settings) :
      Starts place (.testRun run hosts)
        ((if hosts = [] then Matrix.testHosts else hosts).map
          ((surroundings place run s .dryRun).testContext verifyCommand))
        fun _ => Report.testRun

/-- How a command ends: before anything is done, without contexts, or with those that it ran. -/
inductive Ends (place : Place) (c : Command) : Trace → Except Failure Ending → Prop
  | early {t : Trace} {e : Failure} (ht : t.Inspects) (he : e.Early) : Ends place c t (.error e)
  | crashed {t : Trace} {e : Failure} (ht : ¬ t.Begun) (he : e.IsCrash) : Ends place c t (.error e)
  | shown {t : Trace} {o : Ending} (ht : ¬ t.Begun) (ho : o.status = 0) : Ends place c t (.ok o)
  | ran {contexts : List (Program Outcome)} {value : String → List Report → Value} {l : Tagged}
      {os : List Outcome} {u : Trace} (v : Trace) (time : String)
      (hc : c.Starts place contexts value) (hu : u.Inspects)
      (hi : Pool.Interleaves (Outcome.watch true) contexts l os) :
      Ends place c (u ++ l.map Prod.snd ++ v)
        ((Outcome.verdict os).map fun rs => reported rs (value time rs))

theorem Ends.of_only {c : Command} {s : Step Ending} {r : Except Failure Ending}
    (hs : s.Only (·.inspects) Failure.Early (·.status = 0)) (h₀ : s.Runs t j r) :
    Ends place c t r := by
  have ht : t.Inspects := hs.asks h₀
  cases r with
  | error e => exact .early ht (hs.fails h₀)
  | ok o => exact .shown ht.not_begun (hs.gives h₀)

theorem Ends.of_contexts {c : Command} {contexts : List (Program Outcome)}
    {value : String → List Report → Value} {run : Step (List Report)}
    {k : List Report → Step Ending} {u : Trace} {r : Except Failure Ending}
    (hc : c.Starts place contexts value) (hu : u.Inspects)
    (hrun : ∀ {t j x}, run.Runs t j x → ∃ (l : Tagged) (os : List Outcome), l.map Prod.snd = t ∧
      Pool.Interleaves (Outcome.watch true) contexts l os ∧ x = Outcome.verdict os)
    (hk : ∀ {rs t j r}, (k rs).Runs t j r → ∃ time, r = .ok (reported rs (value time rs)))
    (h₀ : (run >>= k).Runs t j r) : Ends place c (u ++ t) r := by
  rcases runs_bind.mp h₀ with ⟨e, rfl, h⟩ | ⟨t₁, t₂, j₁, j₂, rs, rfl, rfl, h, hrs⟩
  · obtain ⟨l, os, rfl, hi, hx⟩ := hrun h
    simpa [← hx, Except.map] using Ends.ran [] "" hc hu hi
  · obtain ⟨l, os, rfl, hi, hx⟩ := hrun h
    obtain ⟨time, rfl⟩ := hk hrs
    simpa [← hx, Except.map] using Ends.ran t₂ time hc hu hi

theorem Starts.begun {c : Command} {contexts : List (Program Outcome)}
    {value : String → List Report → Value} (hc : c.Starts place contexts value)
    {p : Program Outcome} (hp : p ∈ contexts) {o : Outcome} (h₀ : p.Runs t o) : t.Begun := by
  have asks {k : Bool → Program Outcome} (h : (Program.ask .isCancelled k).Runs t o) : t.Begun := by
    obtain ⟨x, t', rfl, -⟩ := Program.runs_ask.mp h
    exact ⟨_, List.mem_cons_self, rfl⟩
  cases hc with
  | release =>
    obtain ⟨e, -, rfl⟩ := List.mem_map.mp hp
    exact asks h₀
  | test =>
    obtain ⟨host, -, rfl⟩ := List.mem_map.mp hp
    exact asks h₀

def adapterName (c : ReleaseChoices) : String := if c.dryRun then "noop" else c.adapter

/-- What a release command makes of its switches, its files and the variables. -/
structure Assembles (place : Place) (run : RunChoices) (c : ReleaseChoices) (s : Settings)
    (m : Matrix) (target : Target) (adapter : Adapter) : Prop where
  settings : (settings place run [("repository", .ofOption c.repository),
    ("token_env", .text c.tokenVariable)]).Runs [] .empty (.ok s)
  matrix : ∃ t j, (selected c.matrix c.artifacts c.host).Runs t j (.ok m)
  target : s.target c.ref place.env (adapterName c ≠ "noop") = .ok target
  adapter : Adapter.ofName (adapterName c) s.repository s.api = .ok adapter

theorem runRelease_runs {run : RunChoices} {c : ReleaseChoices} {r : Except Failure Ending}
    (h₀ : (runRelease schedule place run c).Runs t j r) :
    (∃ e, r = .error e ∧ e.Early ∧ t.Inspects) ∨
      ∃ s m target adapter u v k, Assembles place run c s m target adapter ∧ t = u ++ v ∧
        u.Inspects ∧
        (do
          let rs ← (surroundings place run s adapter).release schedule m target
          let time ← now
          Pure.pure (reported rs (Report.releaseRun target.tag time rs)) :
          Step Ending).Runs v k r := by
  rcases runs_ofExcept_bind h₀ with ⟨e, -, rfl, -, rfl⟩ | ⟨s, hs, h₁⟩
  · exact .inl ⟨_, rfl, trivial, Trace.inspects_nil⟩
  rcases selected_only.bind_runs h₁ with ⟨e, rfl, he, ht⟩ | ⟨u, v, i, k, m, rfl, hu, hm, h₂⟩
  · exact .inl ⟨e, rfl, he, ht⟩
  have refused : (u ++ []).Inspects := Trace.inspects_append.mpr ⟨hu, Trace.inspects_nil⟩
  split at h₂
  · obtain ⟨rfl, -, rfl⟩ := runs_fail.mp h₂
    exact .inl ⟨_, rfl, trivial, refused⟩
  rcases runs_ofExcept_bind h₂ with ⟨e, -, rfl, -, rfl⟩ | ⟨target, ht, h₃⟩
  · exact .inl ⟨_, rfl, trivial, refused⟩
  rcases runs_ofExcept_bind h₃ with ⟨e, -, rfl, -, rfl⟩ | ⟨adapter, ha, h₄⟩
  · exact .inl ⟨_, rfl, trivial, refused⟩
  refine .inr ⟨s, m, target, adapter, u, v, k, ⟨?_, ⟨u, i, hm⟩, ht, ha⟩, rfl, hu, h₄⟩
  dsimp only [settings]
  rw [hs]
  exact runs_pure.mpr ⟨rfl, rfl, rfl⟩

theorem runRelease_ends {run : RunChoices} {c : ReleaseChoices} {r : Except Failure Ending}
    (h₀ : (runRelease schedule place run c).Runs t j r) :
    Ends place (.releaseRun run c) t r := by
  rcases runRelease_runs h₀ with
    ⟨e, rfl, he, ht⟩ | ⟨s, m, target, adapter, u, v, k, hc, rfl, hu, h⟩
  · exact .early ht he
  refine .of_contexts (.release run c s target adapter hc.matrix) hu (fun h => ?_) (fun h => ?_) h
  · obtain ⟨_, -, h⟩ := runs_note_bind.mp h
    obtain ⟨l, os, hl, hi, -, hx⟩ := fanOut_runs h
    exact ⟨l, os, hl, hi, hx⟩
  · obtain ⟨time, _, -, h⟩ := runs_ask_bind.mp h
    exact ⟨time, (runs_pure.mp h).2.2⟩

theorem runTests_ends {run : RunChoices} {hosts : List String} {r : Except Failure Ending}
    (h₀ : (runTests schedule place run hosts).Runs t j r) :
    Ends place (.testRun run hosts) t r := by
  rcases runs_ofExcept_bind h₀ with ⟨e, -, rfl, -, rfl⟩ | ⟨s, -, h₁⟩
  · exact .early Trace.inspects_nil trivial
  dsimp only at h₁
  refine .of_contexts (.test run hosts s) Trace.inspects_nil (fun h => ?_) (fun h => ?_) h₁
  · obtain ⟨l, os, hl, hi, -, hx⟩ := fanOut_runs h
    exact ⟨l, os, hl, hi, hx⟩
  · exact ⟨"", (runs_pure.mp h).2.2⟩

theorem Ends.of_written {c : Command} {s : Step Ending} {u : Trace} {r : Except Failure Ending}
    (hs : s.Only (· ≠ .isCancelled) Failure.IsCrash (·.status = 0)) (hu : u.Inspects)
    (h₀ : s.Runs t j r) : Ends place c (u ++ t) r := by
  have hn : ¬ (u ++ t).Begun := by
    intro hb
    rcases Trace.begun_append.mp hb with hb | ⟨ev, hev, hl⟩
    · exact hu.not_begun hb
    · exact hs.asks h₀ ev hev (Trace.isLook_iff.mp hl)
  cases r with
  | error e => exact .crashed hn (hs.fails h₀)
  | ok o => exact .shown hn (hs.gives h₀)

theorem renderWorkflow_ends {kind : String} {matrix output : Option String}
    {r : Except Failure Ending} (h₀ : (renderWorkflow kind matrix output).Runs t j r) :
    Ends place (.workflowRender kind matrix output) t r := by
  unfold renderWorkflow at h₀
  dsimp only at h₀
  -- Only the workflow of a release reads a matrix; what follows is the same for both.
  split at h₀
  · rcases Matrix.resolve_only.bind_runs h₀ with ⟨e, rfl, he, ht⟩ | ⟨u, v, i, k, m, rfl, hu, -, h₁⟩
    · exact .early ht he
    · refine .of_written ?_ hu (runs_pure_bind.mp h₁)
      split <;> exact .bind Workflow.write_only fun _ _ => .pure rfl
  · refine .of_written ?_ Trace.inspects_nil (runs_pure_bind.mp h₀)
    split <;> exact .bind Workflow.write_only fun _ _ => .pure rfl

theorem run_ends {c : Command} {r : Except Failure Ending}
    (h₀ : (c.run schedule place).Runs t j r) : Ends place c t r := by
  cases c with
  | matrixList matrix => exact .of_only listMatrix_only h₀
  | matrixValidate matrix => exact .of_only validateMatrix_only h₀
  | toolchainShow matrix artifacts => exact .of_only showToolchains_only h₀
  | releaseRun run c => exact runRelease_ends h₀
  | testRun run hosts => exact runTests_ends h₀
  | workflowRender kind matrix output => exact renderWorkflow_ends h₀

end Command

namespace Console
open Step Command
variable {schedule : List Nat} {words : List String} {cwd : Path} {env : Env} {t : Trace}
  {j : Journal} {c : Console} {invoked : Invoked}

def concluded : Except Failure Ending → Except Crash Ending
  | .ok e => .ok e
  | .error e => told e

theorem runCommand_runs {r : Except Failure (Env × Except Crash Ending)}
    (h₀ : (runCommand schedule invoked cwd env).Runs t j r) :
    (∃ env' x, t.Inspects ∧ (EnvFile.load env (cwd / ".env")).Runs t j
        (.ok (env', .error (.crash x))) ∧ r = .ok (env', .error x)) ∨
      ∃ env' b u i v k x, t = u ++ v ∧ j = i ++ k ∧ u.Inspects ∧
        (EnvFile.load env (cwd / ".env")).Runs u i (.ok (env', .ok b)) ∧
        (invoked.command.run schedule ⟨cwd, env'⟩).Runs v k x ∧
        r = .ok (env', concluded x) := by
  -- The environment file may be unreadable; that is a crash, and no command is run.
  rcases runs_bind.mp h₀ with ⟨e, rfl, h⟩ | ⟨u, v, i, k, ⟨env', e | b⟩, rfl, rfl, hl, h₁⟩
  · cases EnvFile.load_only.fails h
  · have he := EnvFile.load_only.gives hl e rfl
    cases e with
    | release e => cases he
    | crash x =>
      obtain ⟨rfl, rfl, rfl⟩ := runs_pure.mp h₁
      rw [List.append_nil, Journal.append_empty]
      exact .inl ⟨env', x, EnvFile.load_only.asks hl, hl, rfl⟩
  · refine .inr ?_
    have hu : u.Inspects := EnvFile.load_only.asks hl
    rcases runs_bind.mp h₁ with ⟨e, rfl, h⟩ | ⟨v₁, v₂, k₁, k₂, x, rfl, rfl, h, h₂⟩
    · obtain ⟨x, he, -⟩ := runs_attempt.mp h
      cases he
    · obtain ⟨x, hx, h⟩ := runs_attempt.mp h
      cases hx
      cases x with
      | error e =>
        obtain ⟨rfl, rfl, rfl⟩ := runs_pure.mp h₂
        exact ⟨env', b, u, i, v₁, k₁, .error e, by simp, by simp, hu, hl, h, rfl⟩
      | ok o =>
        obtain ⟨rfl, rfl, rfl⟩ := runs_pure.mp h₂
        exact ⟨env', b, u, i, v₁, k₁, .ok o, by simp, by simp, hu, hl, h, rfl⟩

theorem ended_status {level : Level} {notes : List Note} {x : Except Crash Ending} :
    (ended level env notes x).status = x.map Ending.status := by
  cases x <;> rfl

theorem told_crash (x : Crash) : (told (.crash x)).map Ending.status ≠ .ok 2 := by
  cases x <;> simp [told, Except.map]

/-- The command ended with a configuration error. Only its message was written, and nothing was
done but to look at files and to read them. -/
structure Refused (schedule : List Nat) (command : Command) (cwd : Path) (env : Env) (t : Trace)
    (c : Console) : Prop where
  output : c.output = ""
  inspects : t.Inspects
  error : ∃ u v i j env' b e before, t = u ++ v ∧
    (EnvFile.load env (cwd / ".env")).Runs u i (.ok (env', .ok b)) ∧
    (command.run schedule ⟨cwd, env'⟩).Runs v j (.error (.configuration e)) ∧
    c.messages = before ++ e.message ++ (if e.endsOpen then "" else "\n")

/-- The command ran contexts, and every one of them began. Unless one crashed, the report of all of
them is the output and the status says whether all succeeded. -/
structure Reported (command : Command) (cwd : Path) (t : Trace) (c : Console) : Prop where
  status : c.status ≠ .ok 2
  report : ∃ env' contexts value l os u v, command.Starts ⟨cwd, env'⟩ contexts value ∧
    t = u ++ l.map Prod.snd ++ v ∧ u.Inspects ∧
    Pool.Interleaves (Outcome.watch true) contexts l os ∧
    (∀ k < contexts.length, (l.share k).Begun) ∧
    ((∀ o ∈ os, ∀ x, o.2 ≠ .error x) →
      (∃ time, c.output = (value time (Outcome.reports os)).json ++ "\n") ∧
      c.status = .ok (if Report.allOk (Outcome.reports os) then 0 else 1))

theorem concluded_verdict {os : List Outcome} {value : List Report → Value} :
    (concluded ((Outcome.verdict os).map fun rs => reported rs (value rs))).map Ending.status ≠
      .ok 2 := by
  unfold Outcome.verdict
  split
  · exact told_crash _
  · simp only [concluded, reported, Ending.report, Except.map]
    split <;> simp

section Commands
variable {level : Level} {notes : List Note} {u v : Trace} {env' : Env} {i k : Journal} {b : Bool}
  {x : Except Failure Ending}

theorem refused_of_early {e : Failure} (he : e.Early) (hu : u.Inspects) (hv : v.Inspects)
    (hl : (EnvFile.load env (cwd / ".env")).Runs u i (.ok (env', .ok b)))
    (hx : (invoked.command.run schedule ⟨cwd, env'⟩).Runs v k (.error e))
    (hs : (ended level env' notes (told e)).status = .ok 2) :
    Refused schedule invoked.command cwd env (u ++ v) (ended level env' notes (told e)) := by
  rw [ended_status] at hs
  cases e with
  | crash e => exact absurd hs (told_crash e)
  | release e =>
    cases e with
    | configuration e =>
      refine ⟨rfl, Trace.inspects_append.mpr ⟨hu, hv⟩, u, v, i, k, env', b, e,
        noteLines level notes, rfl, hl, hx, ?_⟩
      exact (String.append_assoc ..).symm
    | _ => cases he

theorem reported_of_contexts {contexts : List (Program Outcome)}
    {value : String → List Report → Value} {l : Tagged} {os : List Outcome} {w : Trace}
    {time : String} (hc : invoked.command.Starts ⟨cwd, env'⟩ contexts value) (hu : u.Inspects)
    (hv : v.Inspects) (hi : Pool.Interleaves (Outcome.watch true) contexts l os) :
    Reported invoked.command cwd (u ++ (v ++ l.map Prod.snd ++ w)) (ended level env' notes
      (concluded ((Outcome.verdict os).map fun rs => reported rs (value time rs)))) := by
  refine ⟨?_, env', contexts, value, l, os, u ++ v, w, hc, by simp,
    Trace.inspects_append.mpr ⟨hu, hv⟩, hi, fun k hk => ?_, fun hno => ?_⟩
  · rw [ended_status]
    exact concluded_verdict
  · obtain ⟨o, -, hr⟩ := hi.each k contexts[k] (List.getElem?_eq_getElem hk)
    exact hc.begun (List.getElem_mem hk) hr
  · have hverdict : Outcome.verdict os = .ok (Outcome.reports os) := by
      simp [Outcome.verdict, Outcome.firstCrash_eq_none.mpr hno]
    rw [hverdict]
    exact ⟨⟨time, rfl⟩, rfl⟩

theorem ended_of_run (hu : u.Inspects)
    (hl : (EnvFile.load env (cwd / ".env")).Runs u i (.ok (env', .ok b)))
    (hx : (invoked.command.run schedule ⟨cwd, env'⟩).Runs v k x)
    (hc : c = ended level env' notes (concluded x)) :
    (c.status = .ok 2 → Refused schedule invoked.command cwd env (u ++ v) c) ∧
      ((u ++ v).Begun → Reported invoked.command cwd (u ++ v) c) := by
  have idle (hv : ¬ v.Begun) : ¬ (u ++ v).Begun := fun hb =>
    (Trace.begun_append.mp hb).elim hu.not_begun hv
  subst hc
  cases run_ends hx with
  | early hv he =>
    exact ⟨refused_of_early he hu hv hl hx, fun hb => absurd hb (idle hv.not_begun)⟩
  | @crashed _ e hv he =>
    refine ⟨fun hs => ?_, fun hb => absurd hb (idle hv)⟩
    rw [ended_status] at hs
    cases e with
    | crash e => exact absurd hs (told_crash e)
    | release e => cases he
  | @shown _ o hv ho =>
    refine ⟨fun hs => ?_, fun hb => absurd hb (idle hv)⟩
    rw [ended_status] at hs
    cases ho.symm.trans (Except.ok.inj hs)
  | ran w time hst hv hi =>
    refine ⟨fun hs => absurd hs ?_, fun _ => reported_of_contexts hst hu hv hi⟩
    rw [ended_status]
    exact concluded_verdict

end Commands

/-- A configuration error that ends the tool has no effect: it is the last thing on the channel for
messages, nothing is written to the output, no process is started, no request is sent and no file is
changed. Once a context has begun there is none; unless a context crashes, the report is printed. -/
theorem configuration_errors_are_early (hread : Command.read words = .ok invoked)
    (h₀ : (runScheduled schedule words cwd env).Runs t c) :
    (c.status = .ok 2 → Refused schedule invoked.command cwd env t c) ∧
      (t.Begun → Reported invoked.command cwd t c) := by
  unfold runScheduled at h₀
  rw [hread] at h₀
  obtain ⟨⟨journal, r⟩, rfl, h⟩ := Program.runs_map.mp h₀
  rcases runCommand_runs h with
    ⟨env', x, ht, -, rfl⟩ | ⟨env', b, u, i, v, k, x, rfl, -, hu, hl, hx, rfl⟩
  · exact ⟨nofun, fun hb => absurd hb ht.not_begun⟩
  · exact ended_of_run hu hl hx rfl

/-- A release without a ref is refused, and a test on a host that is not supported is reported. -/
theorem missingRef_refused_unknownHost_reported :
    let cwd := Path.ofString "/work"
    let refused := run ["release", "run", "--dry-run"] cwd .empty
    let tested := run ["test", "run", "--host", "solaris"] cwd .empty
    (∃ t c command, refused.Runs t c ∧ c.status = .ok 2 ∧ Refused [] command cwd .empty t c) ∧
      ∃ t c command, tested.Runs t c ∧ t.Begun ∧ Reported command cwd t c := by
  intro cwd refused tested
  let answer (r : Request) (_ : Unit) : r.Answer × Unit := (Surroundings.obliging r, ())
  have hrefused : refused.Runs _ _ := Program.runs_trace answer refused ()
  have htested : tested.Runs _ _ := Program.runs_trace answer tested ()
  constructor
  · obtain ⟨i, hi, -⟩ : ∃ i, Command.read ["release", "run", "--dry-run"] = .ok i ∧
        i.level = .warning := exists_of_toOption (by decide +kernel)
    obtain ⟨n, hn, rfl⟩ : ∃ n, (refused.runWith answer ()).1.status = .ok n ∧ n = 2 :=
      exists_of_toOption (by decide +kernel)
    exact ⟨_, _, i.command, hrefused, hn, (configuration_errors_are_early hi hrefused).1 hn⟩
  · obtain ⟨i, hi, -⟩ : ∃ i, Command.read ["test", "run", "--host", "solaris"] = .ok i ∧
        i.level = .warning := exists_of_toOption (by decide +kernel)
    have hbegun : (tested.trace answer ()).Begun := by decide +kernel
    exact ⟨_, _, i.command, htested, hbegun, (configuration_errors_are_early hi htested).2 hbegun⟩

end Console
end BindingRelease
