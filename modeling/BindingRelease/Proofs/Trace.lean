import BindingRelease.Context
/-!
Traces: the requests of a run with the answers they got. A program, a step or a context runs along
a trace when it asks exactly these requests in this order. Answers are arbitrary here, so a
statement about every trace is one about all surroundings; those of given surroundings are one of
the traces.
-/
namespace BindingRelease
variable {α β σ : Type}

/-- A request with its answer. -/
abbrev Event := (r : Request) × r.Answer

abbrev Trace := List Event

namespace Program

/-- The program asks the requests of the trace and, given their answers, ends with the value. -/
def Runs : Program α → Trace → α → Prop
  | done a, t, b => t = [] ∧ b = a
  | ask r next, t, b => ∃ x t', t = ⟨r, x⟩ :: t' ∧ (next x).Runs t' b

theorem runs_done {a b : α} {t : Trace} : (done a).Runs t b ↔ t = [] ∧ b = a := Iff.rfl

theorem runs_ask {r : Request} {next : r.Answer → Program α} {t : Trace} {b : α} :
    (ask r next).Runs t b ↔ ∃ x t', t = ⟨r, x⟩ :: t' ∧ (next x).Runs t' b := Iff.rfl

theorem runs_bind {p : Program α} {f : α → Program β} {t : Trace} {b : β} :
    (p.bind f).Runs t b ↔ ∃ t₁ t₂ a, t = t₁ ++ t₂ ∧ p.Runs t₁ a ∧ (f a).Runs t₂ b := by
  induction p generalizing t with
  | done a =>
    constructor
    · intro h
      exact ⟨[], t, a, rfl, ⟨rfl, rfl⟩, h⟩
    · rintro ⟨t₁, t₂, a', rfl, ⟨rfl, rfl⟩, h⟩
      exact h
  | ask r next ih =>
    constructor
    · rintro ⟨x, t', rfl, h⟩
      obtain ⟨t₁, t₂, a, rfl, h₁, h₂⟩ := (ih x).mp h
      exact ⟨⟨r, x⟩ :: t₁, t₂, a, rfl, ⟨x, t₁, rfl, h₁⟩, h₂⟩
    · rintro ⟨t₁, t₂, a, rfl, ⟨x, t', rfl, h₁⟩, h₂⟩
      exact ⟨x, t' ++ t₂, rfl, (ih x).mpr ⟨t', t₂, a, rfl, h₁, h₂⟩⟩

theorem runs_map {p : Program α} {f : α → β} {t : Trace} {b : β} :
    (p.map f).Runs t b ↔ ∃ a, b = f a ∧ p.Runs t a := by
  simp only [map, runs_bind, runs_done]
  constructor
  · rintro ⟨t₁, t₂, a, rfl, h, rfl, rfl⟩
    exact ⟨a, rfl, by simpa using h⟩
  · rintro ⟨a, rfl, h⟩
    exact ⟨t, [], a, by simp, h, rfl, rfl⟩

theorem runs_append {p : Program α} {t u : Trace} {a b : α} (h : p.Runs t a)
    (h' : p.Runs (t ++ u) b) : u = [] ∧ b = a := by
  induction p generalizing t with
  | done c =>
    obtain ⟨rfl, rfl⟩ := h
    obtain ⟨hu, rfl⟩ := h'
    exact ⟨hu, rfl⟩
  | ask r next ih =>
    obtain ⟨x, t', rfl, h₁⟩ := h
    obtain ⟨y, t'', he, h₂⟩ := h'
    cases he
    exact ih x h₁ h₂

theorem runs_parts {p : Program α} {t t' u u' : Trace} {a a' : α}
    (h : p.Runs t a) (h' : p.Runs t' a') (ht : t ++ u = t' ++ u') : t = t' ∧ u = u' ∧ a = a' := by
  rcases List.append_eq_append_iff.mp ht with ⟨v, rfl, rfl⟩ | ⟨v, rfl, rfl⟩
  · obtain ⟨rfl, rfl⟩ := runs_append h h'
    simp
  · obtain ⟨rfl, rfl⟩ := runs_append h' h
    simp

def trace (answer : (r : Request) → σ → r.Answer × σ) : Program α → σ → Trace
  | done _, _ => []
  | ask r next, s => ⟨r, (answer r s).1⟩ :: (next (answer r s).1).trace answer (answer r s).2

theorem runs_trace (answer : (r : Request) → σ → r.Answer × σ) (p : Program α) (s : σ) :
    p.Runs (p.trace answer s) (p.runWith answer s).1 := by
  induction p generalizing s with
  | done a => exact ⟨rfl, rfl⟩
  | ask r next ih => exact ⟨_, _, rfl, ih _ _⟩

end Program

namespace Trace

/-- A chain of transitions, one for each event. -/
def Leads (step : σ → Event → σ → Prop) : σ → Trace → σ → Prop
  | s, [], s' => s' = s
  | s, ev :: t, s' => ∃ m, step s ev m ∧ Leads step m t s'

variable {step : σ → Event → σ → Prop}

theorem leads_append {s s' : σ} {t u : Trace} :
    Leads step s (t ++ u) s' ↔ ∃ m, Leads step s t m ∧ Leads step m u s' := by
  induction t generalizing s with
  | nil => simp [Leads]
  | cons ev t ih =>
    constructor
    · rintro ⟨m, h, hr⟩
      obtain ⟨n, h₁, h₂⟩ := ih.mp hr
      exact ⟨n, ⟨m, h, h₁⟩, h₂⟩
    · rintro ⟨n, ⟨m, h, h₁⟩, h₂⟩
      exact ⟨m, h, ih.mpr ⟨n, h₁, h₂⟩⟩

theorem Leads.ends {s s' : σ} {t : Trace} (h : Leads step s t s') (rel : σ → σ → Prop)
    (refl : ∀ s, rel s s) (trans : ∀ a b c, rel a b → rel b c → rel a c)
    (each : ∀ ev ∈ t, ∀ a b, step a ev b → rel a b) : rel s s' := by
  induction t generalizing s with
  | nil =>
    cases h
    exact refl s'
  | cons ev t ih =>
    obtain ⟨m, hm, ht⟩ := h
    exact trans _ _ _ (each ev (by simp) _ _ hm)
      (ih ht fun e he => each e (List.mem_cons_of_mem ev he))

end Trace

namespace Program

/-- A state answers an event and changes by it. -/
def Answered (answer : (r : Request) → σ → r.Answer × σ) (s : σ) (ev : Event) (s' : σ) : Prop :=
  ev.2 = (answer ev.1 s).1 ∧ s' = (answer ev.1 s).2

theorem leads_trace (answer : (r : Request) → σ → r.Answer × σ) (p : Program α) (s : σ) :
    Trace.Leads (Answered answer) s (p.trace answer s) (p.runWith answer s).2 := by
  induction p generalizing s with
  | done a => rfl
  | ask r next ih => exact ⟨_, ⟨rfl, rfl⟩, ih _ _⟩

theorem mem_trace {answer : (r : Request) → σ → r.Answer × σ} {p : Program α} {s : σ} {ev : Event}
    (h : ev ∈ p.trace answer s) : ∃ s', ev.2 = (answer ev.1 s').1 := by
  induction p generalizing s with
  | done a => cases h
  | ask r next ih =>
    cases h with
    | head => exact ⟨s, rfl⟩
    | tail _ h => exact ih _ h

theorem exists_answered (answer : (r : Request) → r.Answer) (p : Program α) :
    ∃ t a, p.Runs t a ∧ ∀ ev ∈ t, ev.2 = answer ev.1 := by
  let answered (r : Request) (_ : Unit) : r.Answer × Unit := (answer r, ())
  exact ⟨_, _, runs_trace answered p (), fun ev hev => (mem_trace hev).elim fun _ h => h⟩

end Program

theorem exists_of_toOption {ε : Type} {x : Except ε α} {g : α → β} {b : β}
    (h : x.toOption.map g = some b) : ∃ a, x = .ok a ∧ g a = b := by
  cases x with
  | error e => cases h
  | ok a => exact ⟨a, rfl, Option.some.inj h⟩

theorem Program.exists_runs {γ ε : Type} (answer : (r : Request) → σ → r.Answer × σ)
    {p : Program (γ × Except ε α)} (w : σ) {g : α → β} {b : β}
    (h : (p.runWith answer w).1.2.toOption.map g = some b) :
    ∃ c a, p.Runs (p.trace answer w) (c, .ok a) ∧ g a = b := by
  have h₀ := runs_trace answer p w
  generalize p.runWith answer w = o at h h₀
  obtain ⟨⟨c, e | a⟩, w'⟩ := o
  · cases h
  · exact ⟨c, a, h₀, Option.some.inj h⟩

namespace Journal

@[simp] theorem empty_append (j : Journal) : empty ++ j = j := rfl

@[simp] theorem append_empty (j : Journal) : j ++ empty = j := by
  cases j with
  | mk logs notes =>
    change Journal.mk (logs ++ []) (notes ++ []) = _
    simp only [List.append_nil]

@[simp] theorem logs_append (i j : Journal) : (i ++ j).logs = i.logs ++ j.logs := rfl

@[simp] theorem notes_append (i j : Journal) : (i ++ j).notes = i.notes ++ j.notes := rfl

end Journal

namespace Step
variable {t : Trace} {j : Journal}

/-- The step asks the requests of the trace, writes the journal and has the outcome. -/
def Runs (s : Step α) (t : Trace) (j : Journal) (r : Except Failure α) : Prop :=
  s.run.Runs t (j, r)

theorem runs_pure {a : α} {r : Except Failure α} :
    (Pure.pure a : Step α).Runs t j r ↔ t = [] ∧ j = .empty ∧ r = .ok a := by
  simp [Runs, Pure.pure, Step.pure, Program.runs_done]

theorem runs_fail {e : Failure} {r : Except Failure α} :
    (fail e : Step α).Runs t j r ↔ t = [] ∧ j = .empty ∧ r = .error e := by
  simp [Runs, fail, Program.runs_done]

theorem runs_logAll {lines : List String} {r : Except Failure Unit} :
    (logAll lines).Runs t j r ↔ t = [] ∧ j = ⟨lines, []⟩ ∧ r = .ok () := by
  simp [Runs, logAll, Program.runs_done]

theorem runs_note {l : Level} {source message : String} {r : Except Failure Unit} :
    (note l source message).Runs t j r ↔
      t = [] ∧ j = ⟨[], [⟨l, source, message⟩]⟩ ∧ r = .ok () := by
  simp [Runs, note, Program.runs_done]

theorem runs_ask {q : Request} {r : Except Failure q.Answer} :
    (ask q).Runs t j r ↔ ∃ x, t = [⟨q, x⟩] ∧ j = .empty ∧ r = .ok x := by
  simp only [Runs, ask, Program.runs_ask, Program.runs_done, Prod.mk.injEq]
  constructor
  · rintro ⟨x, t', rfl, rfl, rfl, rfl⟩
    exact ⟨x, rfl, rfl, rfl⟩
  · rintro ⟨x, rfl, rfl, rfl⟩
    exact ⟨x, [], rfl, rfl, rfl, rfl⟩

theorem runs_bind {s : Step α} {f : α → Step β} {r : Except Failure β} :
    (s >>= f).Runs t j r ↔
      (∃ e, r = .error e ∧ s.Runs t j (.error e)) ∨
      ∃ t₁ t₂ j₁ j₂ a, t = t₁ ++ t₂ ∧ j = j₁ ++ j₂ ∧ s.Runs t₁ j₁ (.ok a) ∧
        (f a).Runs t₂ j₂ r := by
  simp only [Runs, Bind.bind, Step.bind, Program.runs_bind]
  constructor
  · rintro ⟨t₁, t₂, ⟨j₁, e | a⟩, rfl, h₁, h₂⟩
    · obtain ⟨rfl, h⟩ := h₂
      cases h
      exact .inl ⟨e, rfl, by simpa using h₁⟩
    · obtain ⟨⟨j₂, r'⟩, h, h₃⟩ := Program.runs_map.mp h₂
      cases h
      exact .inr ⟨t₁, t₂, j₁, j₂, a, rfl, rfl, h₁, h₃⟩
  · rintro (⟨e, rfl, h⟩ | ⟨t₁, t₂, j₁, j₂, a, rfl, rfl, h₁, h₂⟩)
    · exact ⟨t, [], (j, .error e), by simp, h, rfl, rfl⟩
    · exact ⟨t₁, t₂, (j₁, .ok a), rfl, h₁, Program.runs_map.mpr ⟨(j₂, r), rfl, h₂⟩⟩

theorem runs_bind_of_runs {p : Step α} {k : α → Step β} {i : Journal} {a : α}
    {u : Trace} {r : Except Failure β} (h : p.Runs t i (.ok a)) (h₀ : (p >>= k).Runs (t ++ u) j r) :
    ∃ j', (k a).Runs u j' r := by
  rcases runs_bind.mp h₀ with ⟨e, -, h'⟩ | ⟨t₁, t₂, j₁, j₂, b, ht, -, h', hk⟩
  · obtain ⟨-, he⟩ := Program.runs_append h h'
    cases he
  · obtain ⟨rfl, rfl, he⟩ := Program.runs_parts h h' ht
    cases he
    exact ⟨j₂, hk⟩

theorem runs_trace (answer : (r : Request) → σ → r.Answer × σ) (s : Step α) (w : σ) :
    s.Runs (s.run.trace answer w) (s.run.runWith answer w).1.1 (s.run.runWith answer w).1.2 :=
  Program.runs_trace answer s.run w

theorem exists_runs (answer : (r : Request) → σ → r.Answer × σ) {s : Step α} (w : σ) {g : α → β}
    {b : β} (h : (s.run.runWith answer w).1.2.toOption.map g = some b) :
    ∃ t j a, s.Runs t j (.ok a) ∧ g a = b := by
  have h₀ := runs_trace answer s w
  generalize s.run.runWith answer w = o at h h₀
  obtain ⟨⟨j, e | a⟩, w'⟩ := o
  · cases h
  · exact ⟨_, j, a, h₀, Option.some.inj h⟩

end Step
end BindingRelease
