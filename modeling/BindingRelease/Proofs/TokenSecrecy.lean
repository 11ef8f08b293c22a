import BindingRelease.Proofs.LostReports
/-!
The token of a release stays where it belongs. Only the requests to the release host and the uploads
of the host's tool carry it, each in one field. Two runs whose targets differ in the token alone ask
the same but for these fields, and if the answers do not depend on them, the runs end the same way.
-/
namespace BindingRelease
open Context
variable {α β σ : Type} {a : Adapter}

def blanked (name : String) (vs : List (String × String)) : List (String × String) :=
  vs.map fun v => if v.1 = name then (name, "") else v

theorem blanked_setIn (name value value' : String) (vs : List (String × String)) :
    blanked name (Env.setIn name value vs) = blanked name (Env.setIn name value' vs) := by
  induction vs with
  | nil => simp [Env.setIn, blanked]
  | cons v vs ih =>
    by_cases hv : v.1 = name
    · simp [Env.setIn, blanked, hv]
    · simpa [Env.setIn, blanked, hv] using ih

def Env.blanked (e : Env) (name : String) : Env := ⟨BindingRelease.blanked name e.entries⟩

theorem Env.blanked_set (e : Env) (name value value' : String) :
    (e.set name value).blanked name = (e.set name value').blanked name :=
  congrArg Env.mk (blanked_setIn name value value' e.entries)

/-- The process is an upload by the tool of the release host. -/
def Adapter.carries (a : Adapter) (p : Launch) : Bool :=
  match a, p.command with
  | .tool t, .words (program :: "release" :: "upload" :: _) => program = t.program
  | _, _ => false

namespace Launch

def redacted (a : Adapter) (p : Launch) : Launch :=
  if a.carries p then { p with env := p.env.map fun e => e.blanked "GH_TOKEN" } else p

end Launch

namespace HttpRequest

def redacted (q : HttpRequest) : HttpRequest :=
  { q with headers := blanked "Authorization" q.headers }

end HttpRequest

def Event.redacted (a : Adapter) : Event → Event
  | ⟨.start p, x⟩ => ⟨.start (p.redacted a), x⟩
  | ⟨.send q, x⟩ => ⟨.send q.redacted, x⟩
  | ev => ev

theorem Event.redacted_start {p p' : Launch} (h : p.redacted a = p'.redacted a) (x : LaunchResult) :
    Event.redacted a ⟨.start p, x⟩ = Event.redacted a ⟨.start p', x⟩ :=
  congrArg (fun p => (⟨.start p, x⟩ : Event)) h

theorem Event.redacted_send {q q' : HttpRequest} (h : q.redacted = q'.redacted) (x : HttpResult) :
    Event.redacted a ⟨.send q, x⟩ = Event.redacted a ⟨.send q', x⟩ :=
  congrArg (fun q => (⟨.send q, x⟩ : Event)) h

/-- The answers do not depend on the token. -/
structure Blind (a : Adapter) (answer : (r : Request) → σ → r.Answer × σ) : Prop where
  start : ∀ p p' w, p.redacted a = p'.redacted a → answer (.start p) w = answer (.start p') w
  send : ∀ q q' w, q.redacted = q'.redacted → answer (.send q) w = answer (.send q') w

namespace Program

/-- Two programs that ask the same but for the token, and end the same way whatever is answered. -/
inductive Alike (a : Adapter) : Program α → Program α → Prop
  | done (x : α) : Alike a (.done x) (.done x)
  | start {p p' : Launch} {next next' : LaunchResult → Program α}
      (h : p.redacted a = p'.redacted a) (hn : ∀ x, Alike a (next x) (next' x)) :
      Alike a (.ask (.start p) next) (.ask (.start p') next')
  | send {q q' : HttpRequest} {next next' : HttpResult → Program α}
      (h : q.redacted = q'.redacted) (hn : ∀ x, Alike a (next x) (next' x)) :
      Alike a (.ask (.send q) next) (.ask (.send q') next')
  | same {r : Request} {next next' : r.Answer → Program α} (hn : ∀ x, Alike a (next x) (next' x)) :
      Alike a (.ask r next) (.ask r next')

namespace Alike

theorem refl (p : Program α) : Alike a p p := by
  induction p with
  | done x => exact .done x
  | ask r next ih => exact .same ih

theorem bind {p p' : Program α} {f f' : α → Program β} (h : Alike a p p')
    (hf : ∀ x, Alike a (f x) (f' x)) : Alike a (p.bind f) (p'.bind f') := by
  induction h with
  | done x => exact hf x
  | start h _ ih => exact .start h ih
  | send h _ ih => exact .send h ih
  | same _ ih => exact .same ih

theorem map {p p' : Program α} (h : Alike a p p') (f : α → β) : Alike a (p.map f) (p'.map f) :=
  h.bind fun x => .done (f x)

/-- Answers that do not depend on the token lead both programs to the same end, along traces that
differ in the token alone. -/
theorem runs_same {answer : (r : Request) → σ → r.Answer × σ} {p p' : Program α}
    (h : Alike a p p') (hb : Blind a answer) (w : σ) :
    p.runWith answer w = p'.runWith answer w ∧
      (p.trace answer w).map (Event.redacted a) = (p'.trace answer w).map (Event.redacted a) := by
  induction h generalizing w with
  | done x => exact ⟨rfl, rfl⟩
  | @start p p' next next' h _ ih =>
    have hx := hb.start p p' w h
    obtain ⟨hr, ht⟩ := ih (answer (.start p') w).1 (answer (.start p') w).2
    simp only [runWith, trace, List.map_cons, hx]
    exact ⟨hr, List.cons_eq_cons.mpr ⟨Event.redacted_start h _, ht⟩⟩
  | @send q q' next next' h _ ih =>
    have hx := hb.send q q' w h
    obtain ⟨hr, ht⟩ := ih (answer (.send q') w).1 (answer (.send q') w).2
    simp only [runWith, trace, List.map_cons, hx]
    exact ⟨hr, List.cons_eq_cons.mpr ⟨Event.redacted_send h _, ht⟩⟩
  | @same r next next' _ ih =>
    obtain ⟨hr, ht⟩ := ih (answer r w).1 (answer r w).2
    simp only [runWith, trace, List.map_cons]
    exact ⟨hr, by rw [ht]⟩

end Alike
end Program

inductive Slot.Alike (a : Adapter) : Slot α → Slot α → Prop
  | waiting {p p' : Program α} (h : Program.Alike a p p') : Alike a (.waiting p) (.waiting p')
  | running {p p' : Program α} (h : Program.Alike a p p') : Alike a (.running p) (.running p')
  | finished (x : α) : Alike a (.finished x) (.finished x)

theorem Slot.Alike.complete {s s' : Slot α} (h : Slot.Alike a s s') :
    Program.Alike a s.complete s'.complete := by
  cases h with
  | waiting h => exact h
  | running h => exact h
  | finished x => exact .done x

namespace Pool

inductive Alike (a : Adapter) : List (Slot α) → List (Slot α) → Prop
  | nil : Alike a [] []
  | cons {s s' : Slot α} {ss ss' : List (Slot α)} (h : Slot.Alike a s s') (hs : Alike a ss ss') :
      Alike a (s :: ss) (s' :: ss')

namespace Alike
variable {ss ss' : List (Slot α)}

theorem countP_isRunning (h : Alike a ss ss') :
    ss.countP Slot.isRunning = ss'.countP Slot.isRunning := by
  induction h with
  | nil => rfl
  | cons h _ ih =>
    rw [List.countP_cons, List.countP_cons, ih]
    cases h <;> rfl

theorem fill (h : Alike a ss ss') (n : Nat) : Alike a (fill n ss) (fill n ss') := by
  induction h generalizing n with
  | nil => cases n <;> exact .nil
  | cons h hs ih =>
    cases n with
    | zero => exact .cons h hs
    | succ n =>
      cases h with
      | waiting h => exact .cons (.running h) (ih n)
      | running h => exact .cons (.running h) (ih (n + 1))
      | finished x => exact .cons (.finished x) (ih (n + 1))

theorem refill (h : Alike a ss ss') (workers : Nat) :
    Alike a (refill workers ss) (refill workers ss') := by
  unfold Pool.refill
  rw [h.countP_isRunning]
  exact h.fill _

theorem collected (h : Alike a ss ss') : collected ss = collected ss' := by
  induction h with
  | nil => rfl
  | cons h _ ih =>
    cases h with
    | waiting | running => rfl
    | finished x => simp only [Pool.collected, ih]

theorem set (h : Alike a ss ss') {s s' : Slot α} (hs : Slot.Alike a s s') (i : Nat) :
    Alike a (ss.set i s) (ss'.set i s') := by
  induction h generalizing i with
  | nil => exact .nil
  | cons h ht ih =>
    cases i with
    | zero => exact .cons hs ht
    | succ i => exact .cons h (ih i)

theorem getElem? (h : Alike a ss ss') (i : Nat) : (ss[i]? = none ∧ ss'[i]? = none) ∨
    ∃ s s', ss[i]? = some s ∧ ss'[i]? = some s' ∧ Slot.Alike a s s' := by
  induction h generalizing i with
  | nil => exact .inl ⟨rfl, rfl⟩
  | @cons s s' ss ss' h _ ih =>
    cases i with
    | zero => exact .inr ⟨s, s', rfl, rfl, h⟩
    | succ i => exact ih i

theorem of_map {γ : Type} {f f' : γ → Program α} (h : ∀ e, Program.Alike a (f e) (f' e))
    (es : List γ) : Alike a ((es.map f).map .waiting) ((es.map f').map .waiting) := by
  induction es with
  | nil => exact .nil
  | cons e es ih => exact .cons (.waiting (h e)) ih

end Alike

variable {collect : List α → Program Unit} {ss ss' : List (Slot α)}

theorem advance_alike {k : List (Slot α) → Program β}
    (hk : ∀ ss ss', Alike a ss ss' → Program.Alike a (k ss) (k ss')) (h : Alike a ss ss')
    (i : Nat) :
    Program.Alike a ((advance collect i ss).bind k) ((advance collect i ss').bind k) := by
  unfold advance
  rcases h.getElem? i with ⟨hi, hi'⟩ | ⟨s, s', hi, hi', hs⟩
  · rw [hi, hi']
    exact hk _ _ h
  · rw [hi, hi']
    cases hs with
    | waiting | finished => exact hk _ _ h
    | running hp =>
      cases hp with
      | done x =>
        have hset := h.set (.finished x) i
        simp only [Program.map, Program.bind_assoc, Program.bind, hset.collected]
        exact .bind (.refl _) fun _ => hk _ _ hset
      | start hq hn => exact .start hq fun x => hk _ _ (h.set (.running (hn x)) i)
      | send hq hn => exact .send hq fun x => hk _ _ (h.set (.running (hn x)) i)
      | same hn => exact .same fun x => hk _ _ (h.set (.running (hn x)) i)

theorem drain_alike (h : Alike a ss ss') (before : List α) :
    Program.Alike a (drain collect before ss) (drain collect before ss') := by
  induction h generalizing before with
  | nil => exact .refl _
  | cons h _ ih => exact h.complete.bind fun x => .bind (.refl _) fun _ => ih _

theorem follow_alike (h : Alike a ss ss') (workers : Nat) (schedule : List Nat) :
    Program.Alike a (follow collect workers schedule ss) (follow collect workers schedule ss') := by
  induction schedule generalizing ss ss' with
  | nil => exact drain_alike h []
  | cons i schedule ih => exact advance_alike (fun _ _ => ih) (h.refill workers) i

end Pool

namespace Step
open Program (Alike)
variable {s s' : Step α}

theorem alike_bind {f f' : α → Step β} (h : Alike a s.run s'.run)
    (hf : ∀ x, Alike a (f x).run (f' x).run) : Alike a (s >>= f).run (s' >>= f').run := by
  refine h.bind fun r => ?_
  obtain ⟨j, e | x⟩ := r
  · exact .done _
  · exact (hf x).map _

theorem alike_then {f f' : α → Step β} (hf : ∀ x, Alike a (f x).run (f' x).run) :
    Alike a (s >>= f).run (s >>= f').run :=
  alike_bind (.refl _) hf

theorem alike_ite {c : Prop} [Decidable c] {u u' : Step α} (hs : Alike a s.run s'.run)
    (hu : Alike a u.run u'.run) :
    Alike a (if c then s else u).run (if c then s' else u').run := by
  by_cases hc : c
  · simpa only [if_pos hc] using hs
  · simpa only [if_neg hc] using hu

theorem alike_start {p p' : Launch} (h : p.redacted a = p'.redacted a)
    (onError : String → Failure) : Alike a (start p onError).run (start p' onError).run :=
  .start h fun _ => .refl _

end Step

namespace Context
open Program (Alike)
variable {c c' : Context α}

theorem alike_bind {f f' : α → Context β} (h : Alike a c.run c'.run)
    (hf : ∀ x, Alike a (f x).run (f' x).run) : Alike a (c >>= f).run (c' >>= f').run := by
  refine h.bind fun r => ?_
  obtain ⟨j, g, e | x⟩ := r
  · exact .done _
  · exact (hf x).map _

theorem alike_within {s s' : Step α} (h : Alike a s.run s'.run) (st : Stage) :
    Alike a (within st s).run (within st s').run :=
  h.map _

theorem alike_stage {s s' : Step α} (h : Alike a s.run s'.run) (signal : Bool) (st : Stage) :
    Alike a (stage signal st s).run (stage signal st s').run :=
  alike_bind (.refl _) fun _ => alike_within h st

theorem alike_finish {c c' : Context Unit} (h : Alike a c.run c'.run) (key host : String) :
    Alike a (finish key host c) (finish key host c') :=
  h.map _

end Context
open Program (Alike)
variable {target : Target} {file : Path} {asset : String}

namespace HostTool

theorem carries_upload (t : HostTool) (ambient : Env) :
    (Adapter.tool t).carries (t.launch ambient file asset target) := by
  simp [Adapter.carries, launch, command]

theorem upload_alike (t : HostTool) (ambient : Env) (x y : String) :
    Alike (.tool t) (t.upload ambient file asset { target with token := x }).run
      (t.upload ambient file asset { target with token := y }).run := by
  have hl : (t.launch ambient file asset { target with token := x }).redacted (.tool t) =
      (t.launch ambient file asset { target with token := y }).redacted (.tool t) := by
    unfold Launch.redacted
    rw [if_pos (carries_upload t ambient), if_pos (carries_upload t ambient)]
    simp only [launch, Option.map_some, Env.blanked_set ambient "GH_TOKEN" x y]
  exact Step.alike_then fun _ => Step.alike_bind (Step.alike_start hl _) fun _ => .refl _

end HostTool

namespace ReleaseHost

theorem send_alike {q q' : HttpRequest} (h : q.redacted = q'.redacted) :
    Alike a (send q).run (send q').run := by
  have hu : q.redacted.url = q'.redacted.url := by rw [h]
  change q.url = q'.url at hu
  refine .send h fun x => ?_
  cases x with
  | response b => exact .refl _
  | failed reason =>
    simp only [hu]
    exact .refl _
  | broken c => exact .refl _

theorem blanked_headers (target target' : Target) :
    blanked "Authorization" (headers target) = blanked "Authorization" (headers target') := by
  simp [blanked, headers]

variable (h : ReleaseHost) (x y : String)

theorem find_alike : Alike a (h.find { target with token := x }).run
    (h.find { target with token := y }).run := by
  have hq : (h.lookupRequest { target with token := x }).redacted =
      (h.lookupRequest { target with token := y }).redacted := by
    simp only [lookupRequest, HttpRequest.redacted,
      blanked_headers { target with token := x } { target with token := y }]
  exact Step.alike_bind (send_alike hq) fun _ => .refl _

theorem ensure_alike : Alike a (h.ensure { target with token := x }).run
    (h.ensure { target with token := y }).run := by
  have hq : (h.creationRequest { target with token := x }).redacted =
      (h.creationRequest { target with token := y }).redacted := by
    simp only [creationRequest, HttpRequest.redacted,
      blanked_headers { target with token := x } { target with token := y }]
  refine Step.alike_bind (find_alike h x y) fun known => ?_
  cases known with
  | some release => exact .refl _
  | none =>
    refine Step.alike_then fun _ => Step.alike_bind (send_alike hq) fun b => ?_
    refine Step.alike_ite (.refl _) (Step.alike_ite ?_ (.refl _))
    exact Step.alike_bind (find_alike h x y) fun _ => .refl _

theorem upload_alike : Alike a (h.upload file asset { target with token := x }).run
    (h.upload file asset { target with token := y }).run := by
  have hq (url : String) (content : List UInt8) :
      (h.uploadRequest { target with token := x } url asset content).redacted =
        (h.uploadRequest { target with token := y } url asset content).redacted := by
    have hh := blanked_headers { target with token := x } { target with token := y }
    simp only [blanked] at hh
    simp only [uploadRequest, HttpRequest.redacted, blanked, List.map_append, hh]
  refine Step.alike_bind (ensure_alike h x y) fun release => Step.alike_ite (.refl _) ?_
  refine Step.alike_then fun _ => Step.alike_then fun content => ?_
  exact Step.alike_bind (send_alike (hq _ content)) fun _ => .refl _

end ReleaseHost

theorem Adapter.publish_alike (a : Adapter) (file : Path) (asset : String) (target : Target)
    (ambient : Env) (x y : String) :
    Alike a (a.publish ambient file asset { target with token := x }).run
      (a.publish ambient file asset { target with token := y }).run := by
  refine Step.alike_then fun found => Step.alike_ite ?_ (.refl _)
  refine Step.alike_then fun _ => ?_
  cases a with
  | dryRun => exact .refl _
  | host h => exact h.upload_alike x y
  | tool t => exact t.upload_alike ambient x y

theorem Target.maskedToken_of_ne {t : Target} (h : t.token ≠ "") : t.maskedToken = "**********" :=
  if_neg h

namespace Surroundings
variable (s : Surroundings) (x y : String)

theorem releaseStages_alike (e : Entry) :
    Alike s.collaborators.adapter (s.releaseStages e { target with token := x }).run
      (s.releaseStages e { target with token := y }).run := by
  have later {α β : Type} {c : Context α} {f f' : α → Context β}
      (hf : ∀ x, Alike s.collaborators.adapter (f x).run (f' x).run) :
      Alike s.collaborators.adapter (c >>= f).run (c >>= f').run :=
    alike_bind (.refl _) hf
  refine later fun ⟨workspace, env⟩ => later fun _ => later fun _ => later fun artifact => ?_
  have hp := s.collaborators.adapter.publish_alike artifact e.artifact target s.ambient x y
  exact alike_bind (alike_stage hp s.signal .publish) fun _ => .refl _

theorem releaseContext_alike (e : Entry) :
    Alike s.collaborators.adapter (s.releaseContext { target with token := x } e)
      (s.releaseContext { target with token := y } e) :=
  alike_finish (s.releaseStages_alike x y e) e.artifact e.host

theorem release_alike (schedule : List Nat) (m : Matrix) (target : Target) :
    Alike s.collaborators.adapter (s.release schedule m { target with token := x }).run
      (s.release schedule m { target with token := y }).run := by
  refine Step.alike_then fun _ => Program.Alike.map ?_ _
  have hcontext (e : Entry) : Alike s.collaborators.adapter
      (s.releaseContext { target with token := x } e)
      (s.releaseContext { target with token := y } e) := s.releaseContext_alike x y e
  have h := Pool.Alike.of_map hcontext m.entries
  unfold Pool.run
  rw [List.length_map, List.length_map]
  exact Pool.follow_alike h _ schedule

/-- Two runs whose targets differ in the token alone: where no answer depends on the token, they
write the same, have the same reports or crash and ask the same but for the token itself, under any
schedule. No description of a target tells its token either. -/
theorem token_noninterference (schedule : List Nat) (m : Matrix) (target : Target) (hx : x ≠ "")
    (hy : y ≠ "") :
    let release (token : String) := (s.release schedule m { target with token := token }).run
    (∀ {σ : Type} (answer : (r : Request) → σ → r.Answer × σ),
      Blind s.collaborators.adapter answer → ∀ w : σ,
        (release x).runWith answer w = (release y).runWith answer w ∧
        ((release x).trace answer w).map (Event.redacted s.collaborators.adapter) =
          ((release y).trace answer w).map (Event.redacted s.collaborators.adapter)) ∧
    Target.toValue { target with token := x } = Target.toValue { target with token := y } ∧
    Target.description { target with token := x } =
      Target.description { target with token := y } := by
  refine ⟨fun answer hb w => (s.release_alike x y schedule m target).runs_same hb w, ?_, ?_⟩
  · unfold Target.toValue
    rw [Target.maskedToken_of_ne hx, Target.maskedToken_of_ne hy]
  · unfold Target.description
    rw [Target.maskedToken_of_ne hx, Target.maskedToken_of_ne hy]

theorem oddPages_blind (a : Adapter) : Blind a fun r (_ : Unit) => (oddPages r, ()) where
  start p p' w h := rfl
  send q q' w h := by
    have hm : q.redacted.method = q'.redacted.method := by rw [h]
    have hp : q.redacted.params = q'.redacted.params := by rw [h]
    obtain ⟨method, url, headers, params, body, timeout⟩ := q
    obtain ⟨method', url', headers', params', body', timeout'⟩ := q'
    obtain rfl : method = method' := hm
    obtain rfl : params = params' := hp
    rfl

theorem oddPages_release_hides_token :
    let s : Surroundings := { dryRun (Path.ofString "/work") true with
      collaborators := { Collaborators.standard with
        adapter := .host (ReleaseHost.new "owner/bindings" "https://host") } }
    let release (token : String) := (s.release [2, 0, 1] mixedMatrix ⟨"v1", token, none⟩).run
    let answer := fun r (_ : Unit) => (oddPages r, ())
    (((release "first").trace answer ()).any fun ev => match ev with
      | ⟨.send q, _⟩ => ("Authorization", "Bearer first") ∈ q.headers
      | _ => false) ∧
    ((release "first").runWith answer () = (release "second").runWith answer () ∧
      ((release "first").trace answer ()).map (Event.redacted s.collaborators.adapter) =
        ((release "second").trace answer ()).map (Event.redacted s.collaborators.adapter)) ∧
    Target.toValue ⟨"v1", "first", none⟩ = Target.toValue ⟨"v1", "second", none⟩ ∧
    Target.description ⟨"v1", "first", none⟩ = Target.description ⟨"v1", "second", none⟩ := by
  intro s release answer
  obtain ⟨hruns, hshown⟩ := s.token_noninterference "first" "second" [2, 0, 1] mixedMatrix
    ⟨"v1", "", none⟩ (by decide) (by decide)
  exact ⟨by decide +kernel, hruns answer (oddPages_blind _) (), hshown⟩

end Surroundings
end BindingRelease
