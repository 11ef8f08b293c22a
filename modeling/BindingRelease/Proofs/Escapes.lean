import BindingRelease.Proofs.HostUploads
/-!
What a step does not record. Most failures are release errors, which end in a report; the others are
crashes. The statements say for every step which answers are crashes. Two steps crash by something
else: the install command if its template cannot be filled, and the upload if the page it gets is
no text.
-/
namespace BindingRelease
open Trace Context
variable {α β : Type} {t u : Trace} {j : Journal}

/-- No answer is a crash. -/
def Trace.Quiet (t : Trace) : Prop := ∀ ev ∈ t, escape ev = none

namespace Trace

theorem quiet_nil : Quiet [] := by
  simp [Quiet]

theorem quiet_cons {ev : Event} (h : escape ev = none) (ht : t.Quiet) : Quiet (ev :: t) := by
  intro ev' hev
  cases List.mem_cons.mp hev with
  | inl he => rw [he, h]
  | inr hev => exact ht ev' hev

theorem quiet_single {ev : Event} (h : escape ev = none) : Quiet [ev] :=
  quiet_cons h quiet_nil

theorem quiet_append (ht : t.Quiet) (hu : u.Quiet) : Quiet (t ++ u) := by
  intro ev hev
  cases List.mem_append.mp hev with
  | inl h => exact ht ev h
  | inr h => exact hu ev h

theorem Quiet.not_escape (h : t.Quiet) (c : Crash) : ¬ ∃ ev ∈ t, escape ev = some c := by
  rintro ⟨ev, hev, hc⟩
  rw [h ev hev] at hc
  cases hc

end Trace

/-- A part of a run crashes by its answers, and only by them. -/
def Escaping (t : Trace) (r : Except Failure α) : Prop :=
  ∀ c, r = .error (.crash c) ↔ ∃ ev ∈ t, escape ev = some c

namespace Escaping

theorem quiet_of_ok {a : α} (h : Escaping t (.ok a : Except Failure α)) : t.Quiet := by
  intro ev hev
  cases hc : escape ev with
  | none => rfl
  | some c => cases (h c).mpr ⟨ev, hev, hc⟩

theorem quiet {r : Except Failure α} (ht : t.Quiet) (hr : ∀ c, r ≠ .error (.crash c)) :
    Escaping t r := by
  intro c
  exact iff_of_false (hr c) (ht.not_escape c)

theorem append {r : Except Failure β} (ht : t.Quiet) (h : Escaping u r) :
    Escaping (t ++ u) r := by
  intro c
  rw [h c]
  constructor
  · rintro ⟨ev, hev, hc⟩
    exact ⟨ev, List.mem_append_right _ hev, hc⟩
  · rintro ⟨ev, hev, hc⟩
    cases List.mem_append.mp hev with
    | inl h =>
      rw [ht ev h] at hc
      cases hc
    | inr h => exact ⟨ev, h, hc⟩

theorem cons {ev : Event} {r : Except Failure β} (he : escape ev = none) (h : Escaping u r) :
    Escaping (ev :: u) r :=
  append (quiet_single he) h

theorem single {ev : Event} {r : Except Failure α}
    (h : ∀ c, r = .error (.crash c) ↔ escape ev = some c) : Escaping [ev] r := by
  intro c
  simp [h c]

theorem map {r : Except Failure α} (f : α → β) (h : Escaping t r) : Escaping t (r.map f) := by
  intro c
  rw [← h c]
  cases r with
  | error e => simp [Except.map]
  | ok a => simp [Except.map]

theorem error {e : Failure} (h : Escaping t (.error e : Except Failure α)) :
    Escaping t (.error e : Except Failure β) := by
  intro c
  rw [← h c]
  simp

theorem process {p : Launch} {argv : List String} (hp : p.command = .words argv)
    {accept : Finished → α} {refuse : Finished → ReleaseError} {onError : String → ReleaseError}
    (x : LaunchResult) :
    Escaping [⟨.start p, x⟩]
      (x.outcome accept (fun f => .release (refuse f)) fun s => .release (onError s)) := by
  refine single fun c => ?_
  simp only [escape, hp]
  cases x with
  | finished f => by_cases hf : f.code = 0 <;> simp [LaunchResult.outcome, LaunchResult.escape, hf]
  | notStarted reason => simp [LaunchResult.outcome, LaunchResult.escape]
  | broken c => simp [LaunchResult.outcome, LaunchResult.escape, eq_comm]

theorem lacking {q : Request} {x : Except Crash Bool} {y : q.Answer} {missing : ReleaseError}
    (hy : escape ⟨q, y⟩ = crashOf x) :
    Escaping [⟨q, y⟩] (.error (BindingRelease.lacking missing x) : Except Failure α) := by
  refine single fun c => ?_
  cases x <;> simp [BindingRelease.lacking, hy, crashOf]

theorem shell {p : Launch} {line : String} (hp : p.command = .shell line)
    {accept : Finished → α} {refuse : Finished → ReleaseError} (x : LaunchResult) :
    Escaping [⟨.start p, x⟩]
      (x.outcome accept (fun f => .release (refuse f)) fun s => .crash (.notStarted s)) := by
  refine single fun c => ?_
  simp only [escape, hp]
  cases x with
  | finished f => by_cases hf : f.code = 0 <;> simp [LaunchResult.outcome, LaunchResult.escape, hf]
  | notStarted reason => simp [LaunchResult.outcome, LaunchResult.escape, eq_comm]
  | broken c => simp [LaunchResult.outcome, LaunchResult.escape, eq_comm]

end Escaping

namespace CompilerInstaller

def Unfillable (i : CompilerInstaller) (c : Compiler) (directory : Path)
    (e : Text.Template.TemplateError) : Prop :=
  ∃ template, i.template.filter (· ≠ "") = some template ∧
    render template c.version directory = .error e

end CompilerInstaller

namespace Checkout

end Checkout

namespace ReleaseHost

theorem fieldsOf_ne_crash (a : HttpResponse) (c : Crash) : fieldsOf a ≠ .error (.crash c) := by
  intro hf
  obtain ⟨reason, he⟩ := fieldsOf_eq_error hf
  cases he

theorem lookup_escapes (h : ReleaseHost) (target : Target) (x : HttpResult) :
    Escaping [⟨.send (h.lookupRequest target), x⟩] (h.lookupOutcome target x) := by
  refine .single fun c => ?_
  change _ ↔ x.escape = some c
  constructor
  · intro hx
    rcases lookupOutcome_eq_error hx with ⟨reason, he, -⟩ | ⟨c', rfl, he⟩
    · cases he
    · cases he
      rfl
  · intro hx
    cases x <;> cases hx
    rfl

theorem unanswered_escapes {q : HttpRequest} {x : HttpResult} {e : Failure}
    (hx : unanswered q x = some e) :
    Escaping [⟨.send q, x⟩] (.error e : Except Failure α) := by
  refine .single fun c => ?_
  cases x <;> cases hx <;> simp [escape, HttpResult.escape, failed]

theorem response_quiet (q : HttpRequest) (a : HttpResponse) :
    Quiet [⟨.send q, HttpResult.response a⟩] :=
  quiet_single rfl

theorem Ensures.escapes {h : ReleaseHost} {target : Target} {r : Except Failure Fields}
    (h₀ : h.Ensures target t r) : Escaping t r := by
  have found {x : HttpResult} {known : Option Fields} (hx : h.lookupOutcome target x = .ok known) :
      Quiet [⟨.send (h.lookupRequest target), x⟩] :=
    (hx ▸ lookup_escapes h target x).quiet_of_ok
  have lost {x : HttpResult} {e : Failure} (hx : h.lookupOutcome target x = .error e) :
      Escaping [⟨.send (h.lookupRequest target), x⟩] (.error e : Except Failure Fields) :=
    (hx ▸ lookup_escapes h target x).error
  cases h₀ with
  | unknown hx => exact lost hx
  | known hx => exact .quiet (found hx) nofun
  | unanswered hx hy => exact .append (found hx) (unanswered_escapes hy)
  | created hx ha =>
    exact .quiet (quiet_append (found hx) (response_quiet _ _)) (fieldsOf_ne_crash _)
  | refused hx h₁ h₂ =>
    exact .quiet (quiet_append (found hx) (response_quiet _ _)) (by simp [creationRefusal, failed])
  | lost hx ha hy =>
    exact .append (quiet_append (found hx) (response_quiet _ _)) (lost hy)
  | overtaken hx ha hy =>
    exact .quiet (quiet_append (found hx) (quiet_append (response_quiet _ _) (found hy))) nofun
  | vanished hx ha hy =>
    exact .quiet (quiet_append (found hx) (quiet_append (response_quiet _ _) (found hy)))
      (by simp [creationRefusal, failed])

/-- The attachment is accepted, but the page reported for it, or for the release, is no text. -/
def Mispages (release : Fields) (x : HttpResult) (c : Crash) : Prop :=
  ∃ b answer faults, x = .response b ∧ b.status = 201 ∧ fieldsOf b = .ok answer ∧
    Schema.nullable Schema.text (assetPage release answer) = .error faults ∧
    c = .invalid (faults.map (Fault.within (.field "url")))

/-- An upload whose last answer names a page that is no text. -/
def Mispaged (h : ReleaseHost) (file : Path) (asset : String) (target : Target) (t : Trace)
    (c : Crash) : Prop :=
  ∃ before q a release content x,
    t = before ++ [⟨.send q, HttpResult.response a⟩, ⟨.readFile file, Except.ok content⟩,
      ⟨.send (h.uploadRequest target (uploadUrl release) asset content), x⟩] ∧
    fieldsOf a = .ok release ∧ Mispages release x c

theorem Mispaged.ends {h : ReleaseHost} {file : Path} {asset : String} {target : Target}
    {c : Crash} (h₀ : h.Mispaged file asset target t c) :
    ∃ t' content q x, t = t' ++ [⟨.readFile file, Except.ok content⟩, ⟨.send q, x⟩] := by
  obtain ⟨before, q, a, release, content, x, rfl, -⟩ := h₀
  exact ⟨before ++ [⟨.send q, HttpResult.response a⟩], content,
    h.uploadRequest target (uploadUrl release) asset content, x, by simp⟩

end ReleaseHost
end BindingRelease
