import BindingRelease.Proofs.Stages
/-!
One request of a step and what comes after it. An answer may be a crash, which ends the step; a
process counts only if it ended with zero. Every statement says how a run splits at the request, so
that no proof about a longer step opens it again.
-/
namespace BindingRelease
variable {α β : Type}

def LaunchResult.escape (command : CommandLine) : LaunchResult → Option Crash
  | finished _ => none
  | notStarted reason => match command with
    | .shell _ => some (.notStarted reason)
    | .words _ => none
  | broken c => some c

def HttpResult.escape : HttpResult → Option Crash
  | broken c => some c
  | _ => none

def YamlResult.escape : YamlResult → Option Crash
  | broken c => some c
  | _ => none

def crashOf : Except Crash α → Option Crash
  | .error c => some c
  | .ok _ => none

/-- The crash that an answer is, whichever step gets it. -/
def escape : Event → Option Crash
  | ⟨.start p, x⟩ => LaunchResult.escape p.command x
  | ⟨.send _, x⟩ => HttpResult.escape x
  | ⟨.exists _, x⟩ => crashOf x
  | ⟨.isDirectory _, x⟩ => crashOf x
  | ⟨.isFile _, x⟩ => crashOf x
  | ⟨.makeDirectories _, x⟩ => crashOf x
  | ⟨.readFile _, x⟩ => crashOf x
  | ⟨.writeFile _ _, x⟩ => crashOf x
  | ⟨.readYaml _, x⟩ => YamlResult.escape x
  | _ => none

def Request.surveys : Request → Bool
  | «exists» _ | isDirectory _ | isFile _ | isExecutable _ => true
  | _ => false

namespace Trace

def Surveys (t : Trace) : Prop := ∀ ev ∈ t, ev.1.surveys ∧ escape ev = none

theorem surveys_nil : Surveys [] := by
  simp [Surveys]

theorem surveys_cons {ev : Event} {t : Trace} :
    Surveys (ev :: t) ↔ (ev.1.surveys ∧ escape ev = none) ∧ Surveys t := by
  simp [Surveys]

theorem surveys_append {t u : Trace} : Surveys (t ++ u) ↔ Surveys t ∧ Surveys u :=
  List.forall_mem_append

end Trace

namespace LaunchResult

def outcome (accept : Finished → α) (refuse : Finished → Failure) (onError : String → Failure) :
    LaunchResult → Except Failure α
  | finished f => if f.code ≠ 0 then .error (refuse f) else .ok (accept f)
  | notStarted reason => .error (onError reason)
  | broken c => .error (.crash c)

def outputLines : LaunchResult → List String
  | finished f => ([f.stdout, f.stderr].filter (· ≠ "")).map Text.strip
  | _ => []

def Succeeded (x : LaunchResult) : Prop := ∃ f, x = finished f ∧ f.code = 0

variable {accept : Finished → α} {refuse : Finished → Failure} {onError : String → Failure}

theorem outcome_eq_ok {x : LaunchResult} {a : α} :
    x.outcome accept refuse onError = .ok a ↔ ∃ f, x = finished f ∧ f.code = 0 ∧ a = accept f := by
  cases x with
  | finished f =>
    by_cases hf : f.code = 0
    · simp [outcome, hf, eq_comm]
    · simp [outcome, hf]
  | notStarted reason => simp [outcome]
  | broken c => simp [outcome]

theorem Succeeded.of_outcome {x : LaunchResult} {a : α}
    (h : x.outcome accept refuse onError = .ok a) : x.Succeeded := by
  obtain ⟨f, hx, hf, -⟩ := outcome_eq_ok.mp h
  exact ⟨f, hx, hf⟩

end LaunchResult

def lacking (missing : ReleaseError) : Except Crash Bool → Failure
  | .error c => .crash c
  | .ok _ => .release missing

theorem exists_ok_of_map {r : Except Failure α} {f : α → β} (h : ∃ b, r.map f = .ok b) :
    ∃ a, r = .ok a := by
  obtain ⟨b, hb⟩ := h
  cases r with
  | error e => cases hb
  | ok a => exact ⟨a, rfl⟩

namespace Step
variable {t : Trace} {j : Journal}

theorem runs_pure_bind {a : α} {k : α → Step β} {r : Except Failure β} :
    ((Pure.pure a : Step α) >>= k).Runs t j r ↔ (k a).Runs t j r := by
  simp only [runs_bind, runs_pure]
  constructor
  · rintro (⟨e, -, -, -, he⟩ | ⟨t₁, t₂, j₁, j₂, b, rfl, rfl, ⟨rfl, rfl, hb⟩, h⟩)
    · cases he
    · cases hb
      exact h
  · intro h
    exact .inr ⟨[], t, .empty, j, a, rfl, rfl, ⟨rfl, rfl, rfl⟩, h⟩

theorem runs_bind_pure {s : Step α} {r : Except Failure α} (h : s.Runs t j r) :
    (s >>= Pure.pure).Runs t j r := by
  cases r with
  | error e => exact runs_bind.mpr (.inl ⟨e, rfl, h⟩)
  | ok a =>
    have hend : (Pure.pure a : Step α).Runs [] .empty (.ok a) := runs_pure.mpr ⟨rfl, rfl, rfl⟩
    exact runs_bind.mpr (.inr ⟨t, [], j, .empty, a, by simp, by simp, h, hend⟩)

theorem runs_fail_bind {e : Failure} {k : α → Step β} {r : Except Failure β} :
    ((fail e : Step α) >>= k).Runs t j r ↔ t = [] ∧ j = .empty ∧ r = .error e := by
  simp only [runs_bind, runs_fail]
  constructor
  · rintro (⟨e', rfl, rfl, rfl, he⟩ | ⟨t₁, t₂, j₁, j₂, b, rfl, rfl, ⟨rfl, rfl, hb⟩, h⟩)
    · cases he
      exact ⟨rfl, rfl, rfl⟩
    · cases hb
  · rintro ⟨rfl, rfl, rfl⟩
    exact .inl ⟨e, rfl, rfl, rfl, rfl⟩

theorem runs_ask_bind {q : Request} {k : q.Answer → Step β} {r : Except Failure β} :
    (ask q >>= k).Runs t j r ↔ ∃ x t', t = ⟨q, x⟩ :: t' ∧ (k x).Runs t' j r := by
  simp only [runs_bind, runs_ask]
  constructor
  · rintro (⟨e, -, x, -, -, he⟩ | ⟨t₁, t₂, j₁, j₂, b, rfl, rfl, ⟨x, rfl, rfl, hb⟩, h⟩)
    · cases he
    · cases hb
      exact ⟨b, t₂, rfl, h⟩
  · rintro ⟨x, t', rfl, h⟩
    exact .inr ⟨[⟨q, x⟩], t', .empty, j, x, rfl, rfl, ⟨x, rfl, rfl, rfl⟩, h⟩

theorem runs_isExecutable_bind {p : Path} {k : Bool → Step β} {r : Except Failure β} :
    (isExecutable p >>= k).Runs t j r ↔
      ∃ b t', t = ⟨.isExecutable p, b⟩ :: t' ∧ (k b).Runs t' j r :=
  runs_ask_bind

/-- A request whose answer may be a crash, and what is done with any other answer. -/
theorem runs_unlessCrash_bind {γ : Type} (q : Request) (read : q.Answer → Except Crash γ)
    (answer : Except Crash γ → q.Answer) (ha : ∀ x, x = answer (read x)) {s : Step γ}
    (hs : s = ask q >>= fun x => unlessCrash (read x)) {k : γ → Step β} {r : Except Failure β}
    (h : (s >>= k).Runs t j r) :
    (∃ c, t = [⟨q, answer (.error c)⟩] ∧ j = .empty ∧ r = .error (.crash c)) ∨
      ∃ a t', t = ⟨q, answer (.ok a)⟩ :: t' ∧ (k a).Runs t' j r := by
  subst hs
  rcases runs_bind.mp h with ⟨e, rfl, hs⟩ | ⟨t₁, t₂, j₁, j₂, a, rfl, rfl, hs, hk⟩
  · obtain ⟨x, t', rfl, hx⟩ := runs_ask_bind.mp hs
    cases hr : read x with
    | error c =>
      rw [hr] at hx
      obtain ⟨rfl, rfl, he⟩ := runs_fail.mp hx
      cases he
      exact .inl ⟨c, by rw [ha x, hr], rfl, rfl⟩
    | ok a =>
      rw [hr] at hx
      obtain ⟨-, -, he⟩ := runs_pure.mp hx
      cases he
  · obtain ⟨x, t', rfl, hx⟩ := runs_ask_bind.mp hs
    cases hr : read x with
    | error c =>
      rw [hr] at hx
      obtain ⟨-, -, he⟩ := runs_fail.mp hx
      cases he
    | ok a' =>
      rw [hr] at hx
      obtain ⟨rfl, rfl, he⟩ := runs_pure.mp hx
      cases he
      exact .inr ⟨a, t₂, by rw [ha x, hr]; rfl, hk⟩

theorem runs_present_bind {p : Path} {k : Bool → Step β} {r : Except Failure β}
    (h : (present p >>= k).Runs t j r) :
    (∃ c, t = [⟨.exists p, Except.error c⟩] ∧ j = .empty ∧ r = .error (.crash c)) ∨
      ∃ b t', t = ⟨.exists p, Except.ok b⟩ :: t' ∧ (k b).Runs t' j r :=
  runs_unlessCrash_bind (.exists p) id id (fun _ => rfl) rfl h

theorem runs_isDirectory_bind {p : Path} {k : Bool → Step β} {r : Except Failure β}
    (h : (isDirectory p >>= k).Runs t j r) :
    (∃ c, t = [⟨.isDirectory p, Except.error c⟩] ∧ j = .empty ∧ r = .error (.crash c)) ∨
      ∃ b t', t = ⟨.isDirectory p, Except.ok b⟩ :: t' ∧ (k b).Runs t' j r :=
  runs_unlessCrash_bind (.isDirectory p) id id (fun _ => rfl) rfl h

theorem runs_isFile_bind {p : Path} {k : Bool → Step β} {r : Except Failure β}
    (h : (isFile p >>= k).Runs t j r) :
    (∃ c, t = [⟨.isFile p, Except.error c⟩] ∧ j = .empty ∧ r = .error (.crash c)) ∨
      ∃ b t', t = ⟨.isFile p, Except.ok b⟩ :: t' ∧ (k b).Runs t' j r :=
  runs_unlessCrash_bind (.isFile p) id id (fun _ => rfl) rfl h

theorem runs_makeDirectories_bind {p : Path} {k : Unit → Step β} {r : Except Failure β}
    (h : (makeDirectories p >>= k).Runs t j r) :
    (∃ c, t = [⟨.makeDirectories p, Except.error c⟩] ∧ j = .empty ∧ r = .error (.crash c)) ∨
      ∃ t', t = ⟨.makeDirectories p, Except.ok ()⟩ :: t' ∧ (k ()).Runs t' j r := by
  rcases runs_unlessCrash_bind (.makeDirectories p) id id (fun _ => rfl) rfl h with
    hc | ⟨⟨⟩, t', ht, hk⟩
  · exact .inl hc
  · exact .inr ⟨t', ht, hk⟩

theorem runs_readFile_bind {p : Path} {k : List UInt8 → Step β} {r : Except Failure β}
    (h : (readFile p >>= k).Runs t j r) :
    (∃ c, t = [⟨.readFile p, Except.error c⟩] ∧ j = .empty ∧ r = .error (.crash c)) ∨
      ∃ bs t', t = ⟨.readFile p, Except.ok bs⟩ :: t' ∧ (k bs).Runs t' j r :=
  runs_unlessCrash_bind (.readFile p) id id (fun _ => rfl) rfl h

theorem runs_readYaml_bind {text : List Char} {k : YamlResult → Step β} {r : Except Failure β} :
    (readYaml text >>= k).Runs t j r ↔ ∃ x t', t = ⟨.readYaml text, x⟩ :: t' ∧ (k x).Runs t' j r :=
  runs_ask_bind

theorem runs_write_bind {i : Journal} {k : Unit → Step β} {r : Except Failure β} :
    ((⟨.done (i, .ok ())⟩ : Step Unit) >>= k).Runs t j r ↔
      ∃ j', j = i ++ j' ∧ (k ()).Runs t j' r := by
  rw [runs_bind]
  constructor
  · rintro (⟨e, -, -, he⟩ | ⟨t₁, t₂, j₁, j₂, ⟨⟩, rfl, rfl, ⟨rfl, hb⟩, h⟩)
    · cases he
    · cases hb
      exact ⟨j₂, rfl, h⟩
  · rintro ⟨j', rfl, h⟩
    exact .inr ⟨[], t, i, j', (), rfl, rfl, ⟨rfl, rfl⟩, h⟩

theorem runs_log_bind {line : String} {k : Unit → Step β} {r : Except Failure β} :
    (log line >>= k).Runs t j r ↔ ∃ j', j = ⟨[line], []⟩ ++ j' ∧ (k ()).Runs t j' r :=
  runs_write_bind

theorem runs_logAll_bind {lines : List String} {k : Unit → Step β} {r : Except Failure β} :
    (logAll lines >>= k).Runs t j r ↔ ∃ j', j = ⟨lines, []⟩ ++ j' ∧ (k ()).Runs t j' r :=
  runs_write_bind

theorem runs_note_bind {l : Level} {source message : String} {k : Unit → Step β}
    {r : Except Failure β} :
    (note l source message >>= k).Runs t j r ↔
      ∃ j', j = ⟨[], [⟨l, source, message⟩]⟩ ++ j' ∧ (k ()).Runs t j' r :=
  runs_write_bind

theorem runs_start {p : Launch} {onError : String → Failure} {r : Except Failure Finished}
    (h : (start p onError).Runs t j r) :
    j = .empty ∧ ((∃ f, t = [⟨.start p, LaunchResult.finished f⟩] ∧ r = .ok f) ∨
      (∃ reason, t = [⟨.start p, LaunchResult.notStarted reason⟩] ∧ r = .error (onError reason)) ∨
      (∃ c, t = [⟨.start p, LaunchResult.broken c⟩] ∧ r = .error (.crash c))) := by
  obtain ⟨x, t', rfl, hx⟩ := runs_ask_bind.mp h
  cases x with
  | finished f =>
    obtain ⟨rfl, rfl, rfl⟩ := runs_pure.mp hx
    exact ⟨rfl, .inl ⟨f, rfl, rfl⟩⟩
  | notStarted reason =>
    obtain ⟨rfl, rfl, rfl⟩ := runs_fail.mp hx
    exact ⟨rfl, .inr (.inl ⟨reason, rfl, rfl⟩)⟩
  | broken c =>
    obtain ⟨rfl, rfl, rfl⟩ := runs_fail.mp hx
    exact ⟨rfl, .inr (.inr ⟨c, rfl, rfl⟩)⟩

theorem runs_start_bind {p : Launch} {onError : String → Failure} {k : Finished → Step β}
    {r : Except Failure β} (h : (start p onError >>= k).Runs t j r) :
    (∃ f t', t = ⟨.start p, LaunchResult.finished f⟩ :: t' ∧ (k f).Runs t' j r) ∨
    (∃ reason, t = [⟨.start p, LaunchResult.notStarted reason⟩] ∧ j = .empty ∧
      r = .error (onError reason)) ∨
    (∃ c, t = [⟨.start p, LaunchResult.broken c⟩] ∧ j = .empty ∧ r = .error (.crash c)) := by
  rcases runs_bind.mp h with ⟨e, rfl, hs⟩ | ⟨t₁, t₂, j₁, j₂, f, rfl, rfl, hs, hk⟩
  · obtain ⟨rfl, ⟨f, -, he⟩ | ⟨reason, rfl, he⟩ | ⟨c, rfl, he⟩⟩ := runs_start hs
    · cases he
    · cases he
      exact .inr (.inl ⟨reason, rfl, rfl, rfl⟩)
    · cases he
      exact .inr (.inr ⟨c, rfl, rfl, rfl⟩)
  · obtain ⟨rfl, ⟨g, rfl, he⟩ | ⟨reason, -, he⟩ | ⟨c, -, he⟩⟩ := runs_start hs
    · cases he
      exact .inl ⟨f, t₂, rfl, hk⟩
    · cases he
    · cases he

theorem logOutput_eq (f : Finished) :
    f.logOutput = ⟨.done (⟨(LaunchResult.finished f).outputLines, []⟩, .ok ())⟩ := by
  unfold Finished.logOutput
  by_cases ho : f.stdout = "" <;> by_cases he : f.stderr = "" <;>
    simp [ho, he, LaunchResult.outputLines] <;> rfl

theorem runs_logOutput_bind {f : Finished} {k : Unit → Step β} {r : Except Failure β} :
    (f.logOutput >>= k).Runs t j r ↔
      ∃ j', j = ⟨(LaunchResult.finished f).outputLines, []⟩ ++ j' ∧ (k ()).Runs t j' r := by
  rw [logOutput_eq]
  exact runs_write_bind

theorem runs_checked {p : Launch} {accept : Finished → α} {refuse : Finished → Failure}
    {onError : String → Failure} {r : Except Failure α}
    (h : (do
      let f ← start p onError
      f.logOutput
      if f.code ≠ 0 then fail (refuse f) else Pure.pure (accept f) : Step α).Runs t j r) :
    ∃ x, t = [⟨.start p, x⟩] ∧ j = ⟨x.outputLines, []⟩ ∧ r = x.outcome accept refuse onError := by
  rcases runs_start_bind h with ⟨f, t', rfl, hf⟩ | ⟨reason, rfl, rfl, rfl⟩ | ⟨c, rfl, rfl, rfl⟩
  · obtain ⟨j', rfl, hc⟩ := runs_logOutput_bind.mp hf
    refine ⟨.finished f, ?_⟩
    by_cases hz : f.code = 0
    · rw [if_neg (by simpa using hz)] at hc
      obtain ⟨rfl, rfl, rfl⟩ := runs_pure.mp hc
      simp [LaunchResult.outcome, hz]
    · rw [if_pos (by simpa using hz)] at hc
      obtain ⟨rfl, rfl, rfl⟩ := runs_fail.mp hc
      simp [LaunchResult.outcome, hz]
  · exact ⟨.notStarted reason, rfl, rfl, rfl⟩
  · exact ⟨.broken c, rfl, rfl, rfl⟩

end Step
end BindingRelease
