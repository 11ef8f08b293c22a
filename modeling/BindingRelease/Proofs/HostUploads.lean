import BindingRelease.Proofs.Processes
/-!
What an upload to the release host asks: a look-up, at most one creation and one second look-up,
the artifact, and the attachment. What is made of an answer is a function of it alone; the
statements list every sequence of answers with what it leads to.
-/
namespace BindingRelease
open Step
variable {α : Type} {t : Trace} {j : Journal}

namespace ReleaseHost

def fieldsOf (a : HttpResponse) : Except Failure Fields :=
  match a.json with
  | .error reason => .error (failed (.answerNotJson reason))
  | .ok (.map es) => .ok es
  | .ok _ => .error (failed .answerNotObject)

def unanswered (q : HttpRequest) : HttpResult → Option Failure
  | .response _ => none
  | .failed reason => some (failed (.requestFailed q.url reason))
  | .broken c => some (.crash c)

def lookupOutcome (h : ReleaseHost) (target : Target) : HttpResult → Except Failure (Option Fields)
  | .failed reason => .error (failed (.requestFailed (h.lookupRequest target).url reason))
  | .broken c => .error (.crash c)
  | .response a =>
    if a.status = 200 then (fieldsOf a).map some
    else if a.status = 404 then .ok none
    else .error (failed (.lookupRefused h.repository target.tag a.status (explanation a)))

def creationRefusal (h : ReleaseHost) (target : Target) (a : HttpResponse) : Failure :=
  failed (.creationRefused h.repository target.tag a.status (explanation a))

def attachmentRecord (file : Path) (asset : String) (target : Target) (release answer : Fields) :
    Except Failure Upload :=
  match Schema.nullable Schema.text (assetPage release answer) with
  | .ok page => .ok ⟨file, asset, target.tag, "github", Upload.succeeded, page⟩
  | .error faults => .error (.crash (.invalid (faults.map (Fault.within (.field "url")))))

def attachmentOutcome (file : Path) (asset : String) (target : Target) (release : Fields)
    (q : HttpRequest) : HttpResult → Except Failure Upload
  | .failed reason => .error (failed (.requestFailed q.url reason))
  | .broken c => .error (.crash c)
  | .response a =>
    if a.status = 201 then (fieldsOf a).bind (attachmentRecord file asset target release)
    else .error (failed (.uploadRefused asset a.status (explanation a)))

/-- The runs that lead to the release of a tag. -/
inductive Ensures (h : ReleaseHost) (target : Target) : Trace → Except Failure Fields → Prop
  | unknown {x e} (hx : h.lookupOutcome target x = .error e) :
      Ensures h target [⟨.send (h.lookupRequest target), x⟩] (.error e)
  | known {x release} (hx : h.lookupOutcome target x = .ok (some release)) :
      Ensures h target [⟨.send (h.lookupRequest target), x⟩] (.ok release)
  | unanswered {x y e} (hx : h.lookupOutcome target x = .ok none)
      (hy : ReleaseHost.unanswered (h.creationRequest target) y = some e) :
      Ensures h target [⟨.send (h.lookupRequest target), x⟩,
        ⟨.send (h.creationRequest target), y⟩] (.error e)
  | created {x a} (hx : h.lookupOutcome target x = .ok none) (ha : a.status = 201) :
      Ensures h target [⟨.send (h.lookupRequest target), x⟩,
        ⟨.send (h.creationRequest target), HttpResult.response a⟩] (fieldsOf a)
  | refused {x a} (hx : h.lookupOutcome target x = .ok none) (h₁ : a.status ≠ 201)
      (h₂ : a.status ≠ 422) :
      Ensures h target [⟨.send (h.lookupRequest target), x⟩,
        ⟨.send (h.creationRequest target), HttpResult.response a⟩]
        (.error (h.creationRefusal target a))
  | lost {x a y e} (hx : h.lookupOutcome target x = .ok none) (ha : a.status = 422)
      (hy : h.lookupOutcome target y = .error e) :
      Ensures h target [⟨.send (h.lookupRequest target), x⟩,
        ⟨.send (h.creationRequest target), HttpResult.response a⟩,
        ⟨.send (h.lookupRequest target), y⟩] (.error e)
  | overtaken {x a y release} (hx : h.lookupOutcome target x = .ok none) (ha : a.status = 422)
      (hy : h.lookupOutcome target y = .ok (some release)) :
      Ensures h target [⟨.send (h.lookupRequest target), x⟩,
        ⟨.send (h.creationRequest target), HttpResult.response a⟩,
        ⟨.send (h.lookupRequest target), y⟩] (.ok release)
  | vanished {x a y} (hx : h.lookupOutcome target x = .ok none) (ha : a.status = 422)
      (hy : h.lookupOutcome target y = .ok none) :
      Ensures h target [⟨.send (h.lookupRequest target), x⟩,
        ⟨.send (h.creationRequest target), HttpResult.response a⟩,
        ⟨.send (h.lookupRequest target), y⟩] (.error (h.creationRefusal target a))

/-- The runs of an upload. -/
inductive Uploads (h : ReleaseHost) (file : Path) (asset : String) (target : Target) :
    Trace → Except Failure Upload → Prop
  | unreached {t e} (he : h.Ensures target t (.error e)) : Uploads h file asset target t (.error e)
  | unaddressed {t release} (he : h.Ensures target t (.ok release)) (hu : uploadUrl release = "") :
      Uploads h file asset target t
        (.error (failed (.noUploadAddress h.repository target.tag)))
  | unreadable {t release c} (he : h.Ensures target t (.ok release))
      (hu : uploadUrl release ≠ "") :
      Uploads h file asset target (t ++ [⟨.readFile file, Except.error c⟩]) (.error (.crash c))
  | sent {t release content x} (he : h.Ensures target t (.ok release))
      (hu : uploadUrl release ≠ "") :
      Uploads h file asset target
        (t ++ [⟨.readFile file, Except.ok content⟩,
          ⟨.send (h.uploadRequest target (uploadUrl release) asset content), x⟩])
        (attachmentOutcome file asset target release
          (h.uploadRequest target (uploadUrl release) asset content) x)

theorem send_runs {q : HttpRequest} {r : Except Failure HttpResponse}
    (h₀ : (send q).Runs t j r) :
    ∃ x, t = [⟨.send q, x⟩] ∧ j = .empty ∧
      ((∃ a, x = .response a ∧ r = .ok a) ∨ ∃ e, unanswered q x = some e ∧ r = .error e) := by
  obtain ⟨x, t', rfl, h₁⟩ := runs_ask_bind.mp h₀
  cases x with
  | response a =>
    obtain ⟨rfl, rfl, rfl⟩ := runs_pure.mp h₁
    exact ⟨_, rfl, rfl, .inl ⟨a, rfl, rfl⟩⟩
  | failed reason =>
    obtain ⟨rfl, rfl, rfl⟩ := runs_fail.mp h₁
    exact ⟨_, rfl, rfl, .inr ⟨_, rfl, rfl⟩⟩
  | broken c =>
    obtain ⟨rfl, rfl, rfl⟩ := runs_fail.mp h₁
    exact ⟨_, rfl, rfl, .inr ⟨_, rfl, rfl⟩⟩

theorem runs_send_bind {q : HttpRequest} {k : HttpResponse → Step α} {r : Except Failure α}
    (h₀ : (send q >>= k).Runs t j r) :
    (∃ x e, unanswered q x = some e ∧ t = [⟨.send q, x⟩] ∧ j = .empty ∧ r = .error e) ∨
    ∃ a t', t = ⟨.send q, HttpResult.response a⟩ :: t' ∧ (k a).Runs t' j r := by
  rcases runs_bind.mp h₀ with ⟨e, rfl, h₁⟩ | ⟨t₁, t₂, j₁, j₂, a, rfl, rfl, h₁, h₂⟩
  · obtain ⟨x, rfl, rfl, ⟨a, -, he⟩ | ⟨e', hx, he⟩⟩ := send_runs h₁
    · cases he
    · cases he
      exact .inl ⟨x, e, hx, rfl, rfl, rfl⟩
  · obtain ⟨x, rfl, rfl, ⟨b, rfl, he⟩ | ⟨_, -, he⟩⟩ := send_runs h₁
    · cases he
      exact .inr ⟨a, t₂, rfl, h₂⟩
    · cases he

theorem lookupOutcome_of_unanswered {h : ReleaseHost} {target : Target} {x : HttpResult}
    {e : Failure} (hx : unanswered (h.lookupRequest target) x = some e) :
    h.lookupOutcome target x = .error e := by
  cases x <;> cases hx <;> rfl

theorem attachmentOutcome_of_unanswered {file : Path} {asset : String} {target : Target}
    {release : Fields} {q : HttpRequest} {x : HttpResult} {e : Failure}
    (hx : unanswered q x = some e) :
    attachmentOutcome file asset target release q x = .error e := by
  cases x <;> cases hx <;> rfl

theorem object_runs {a : HttpResponse} {r : Except Failure Fields}
    (h₀ : (object a).Runs t j r) : t = [] ∧ j = .empty ∧ r = fieldsOf a := by
  unfold object at h₀
  unfold fieldsOf
  cases hj : a.json with
  | error reason =>
    rw [hj] at h₀
    exact runs_fail.mp h₀
  | ok v =>
    rw [hj] at h₀
    cases v with
    | map es => exact runs_pure.mp h₀
    | _ => exact runs_fail.mp h₀

theorem runs_object_bind {a : HttpResponse} {k : Fields → Step α} {r : Except Failure α}
    (h₀ : (object a >>= k).Runs t j r) :
    (∃ e, fieldsOf a = .error e ∧ t = [] ∧ j = .empty ∧ r = .error e) ∨
      ∃ es, fieldsOf a = .ok es ∧ (k es).Runs t j r := by
  rcases runs_bind.mp h₀ with ⟨e, rfl, h₁⟩ | ⟨t₁, t₂, j₁, j₂, es, rfl, rfl, h₁, h₂⟩
  · obtain ⟨rfl, rfl, he⟩ := object_runs h₁
    exact .inl ⟨e, he.symm, rfl, rfl, rfl⟩
  · obtain ⟨rfl, rfl, he⟩ := object_runs h₁
    exact .inr ⟨es, he.symm, h₂⟩

theorem find_runs {h : ReleaseHost} {target : Target} {r : Except Failure (Option Fields)}
    (h₀ : (h.find target).Runs t j r) :
    ∃ x, t = [⟨.send (h.lookupRequest target), x⟩] ∧ j = .empty ∧ r = h.lookupOutcome target x := by
  rcases runs_send_bind h₀ with ⟨x, e, hx, rfl, rfl, rfl⟩ | ⟨a, t', rfl, h₁⟩
  · exact ⟨x, rfl, rfl, (lookupOutcome_of_unanswered hx).symm⟩
  · refine ⟨.response a, ?_⟩
    simp only [lookupOutcome]
    by_cases h₂ : a.status = 200
    · rw [if_pos h₂] at h₁ ⊢
      rcases runs_object_bind h₁ with ⟨e, he, rfl, rfl, rfl⟩ | ⟨es, hes, h₃⟩
      · rw [he]
        exact ⟨rfl, rfl, rfl⟩
      · obtain ⟨rfl, rfl, rfl⟩ := runs_pure.mp h₃
        rw [hes]
        exact ⟨rfl, rfl, rfl⟩
    · rw [if_neg h₂] at h₁ ⊢
      by_cases h₃ : a.status = 404
      · rw [if_pos h₃] at h₁ ⊢
        obtain ⟨rfl, rfl, rfl⟩ := runs_pure.mp h₁
        exact ⟨rfl, rfl, rfl⟩
      · rw [if_neg h₃] at h₁ ⊢
        obtain ⟨rfl, rfl, rfl⟩ := runs_fail.mp h₁
        exact ⟨rfl, rfl, rfl⟩

theorem runs_find_bind {h : ReleaseHost} {target : Target} {k : Option Fields → Step α}
    {r : Except Failure α} (h₀ : (h.find target >>= k).Runs t j r) :
    ∃ x t', t = ⟨.send (h.lookupRequest target), x⟩ :: t' ∧
      ((∃ e, h.lookupOutcome target x = .error e ∧ t' = [] ∧ r = .error e) ∨
        ∃ known, h.lookupOutcome target x = .ok known ∧ (k known).Runs t' j r) := by
  rcases runs_bind.mp h₀ with ⟨e, rfl, h₁⟩ | ⟨t₁, t₂, j₁, j₂, known, rfl, rfl, h₁, h₂⟩
  · obtain ⟨x, rfl, rfl, he⟩ := find_runs h₁
    exact ⟨x, [], rfl, .inl ⟨e, he.symm, rfl, rfl⟩⟩
  · obtain ⟨x, rfl, rfl, he⟩ := find_runs h₁
    exact ⟨x, t₂, rfl, .inr ⟨known, he.symm, h₂⟩⟩

theorem ensure_runs {h : ReleaseHost} {target : Target} {r : Except Failure Fields}
    (h₀ : (h.ensure target).Runs t j r) : h.Ensures target t r := by
  obtain ⟨x, t₁, rfl, ⟨e, hx, rfl, rfl⟩ | ⟨known, hx, h₁⟩⟩ := runs_find_bind h₀
  · exact .unknown hx
  cases known with
  | some release =>
    obtain ⟨rfl, -, rfl⟩ := runs_pure.mp h₁
    exact .known hx
  | none =>
    obtain ⟨j₁, rfl, h₂⟩ := runs_log_bind.mp h₁
    rcases runs_send_bind h₂ with ⟨y, e, hy, rfl, rfl, rfl⟩ | ⟨a, t₂, rfl, h₃⟩
    · exact .unanswered hx hy
    by_cases h201 : a.status = 201
    · rw [if_pos h201] at h₃
      obtain ⟨rfl, -, rfl⟩ := object_runs h₃
      exact .created hx h201
    rw [if_neg h201] at h₃
    by_cases h422 : a.status = 422
    · rw [if_pos h422] at h₃
      obtain ⟨y, t₃, rfl, ⟨e, hy, rfl, rfl⟩ | ⟨known, hy, h₄⟩⟩ := runs_find_bind h₃
      · exact .lost hx h422 hy
      cases known with
      | some release =>
        obtain ⟨j₂, rfl, h₅⟩ := runs_log_bind.mp h₄
        obtain ⟨rfl, -, rfl⟩ := runs_pure.mp h₅
        exact .overtaken hx h422 hy
      | none =>
        obtain ⟨rfl, -, rfl⟩ := runs_fail.mp h₄
        exact .vanished hx h422 hy
    · rw [if_neg h422] at h₃
      obtain ⟨rfl, -, rfl⟩ := runs_fail.mp h₃
      exact .refused hx h201 h422

theorem upload_runs {h : ReleaseHost} {file : Path} {asset : String} {target : Target}
    {r : Except Failure Upload} (h₀ : (h.upload file asset target).Runs t j r) :
    h.Uploads file asset target t r := by
  rcases runs_bind.mp h₀ with ⟨e, rfl, h₁⟩ | ⟨t₁, t₂, j₁, j₂, release, rfl, rfl, h₁, h₂⟩
  · exact .unreached (ensure_runs h₁)
  have he := ensure_runs h₁
  by_cases hu : uploadUrl release = ""
  · rw [if_pos hu] at h₂
    obtain ⟨rfl, -, rfl⟩ := runs_fail.mp h₂
    simpa using Uploads.unaddressed he hu
  rw [if_neg hu] at h₂
  obtain ⟨j₃, rfl, h₃⟩ := runs_log_bind.mp h₂
  rcases runs_readFile_bind h₃ with ⟨e, rfl, rfl, rfl⟩ | ⟨content, t₃, rfl, h₄⟩
  · exact .unreadable he hu
  have sent (x : HttpResult) : h.Uploads file asset target
      (t₁ ++ [⟨.readFile file, Except.ok content⟩,
        ⟨.send (h.uploadRequest target (uploadUrl release) asset content), x⟩])
      (attachmentOutcome file asset target release
        (h.uploadRequest target (uploadUrl release) asset content) x) := .sent he hu
  rcases runs_send_bind h₄ with ⟨x, e, hx, rfl, rfl, rfl⟩ | ⟨a, t₄, rfl, h₅⟩
  · exact attachmentOutcome_of_unanswered hx ▸ sent x
  have sent := sent (.response a)
  simp only [attachmentOutcome] at sent
  by_cases h201 : a.status = 201
  · rw [if_pos h201] at h₅ sent
    rcases runs_object_bind h₅ with ⟨e, hf, rfl, rfl, rfl⟩ | ⟨answer, hf, h₆⟩
    · rwa [hf] at sent
    · rw [hf] at sent
      simp only [Except.bind, attachmentRecord] at sent
      cases hp : Schema.nullable Schema.text (assetPage release answer) with
      | ok page =>
        rw [hp] at h₆ sent
        obtain ⟨rfl, -, rfl⟩ := runs_pure.mp h₆
        exact sent
      | error faults =>
        rw [hp] at h₆ sent
        obtain ⟨rfl, -, rfl⟩ := runs_fail.mp h₆
        exact sent
  · rw [if_neg h201] at h₅ sent
    obtain ⟨rfl, -, rfl⟩ := runs_fail.mp h₅
    exact sent

theorem lookupOutcome_eq_some {h : ReleaseHost} {target : Target} {x : HttpResult}
    {release : Fields} (hx : h.lookupOutcome target x = .ok (some release)) :
    ∃ a, x = .response a ∧ a.status = 200 ∧ fieldsOf a = .ok release := by
  cases x with
  | failed reason => cases hx
  | broken c => cases hx
  | response a =>
    simp only [lookupOutcome] at hx
    split at hx
    · next hs =>
      refine ⟨a, rfl, hs, ?_⟩
      cases hf : fieldsOf a with
      | error e =>
        rw [hf] at hx
        cases hx
      | ok es =>
        rw [hf] at hx
        cases hx
        rfl
    · split at hx <;> cases hx

theorem fieldsOf_of_json {a : HttpResponse} {fields : Fields} (hj : a.json = .ok (.map fields)) :
    fieldsOf a = .ok fields := by
  unfold fieldsOf
  rw [hj]

theorem json_of_fieldsOf {a : HttpResponse} {fields : Fields} (hf : fieldsOf a = .ok fields) :
    a.json = .ok (.map fields) := by
  unfold fieldsOf at hf
  split at hf
  · cases hf
  · next es hj =>
    cases hf
    exact hj
  · cases hf

theorem fieldsOf_eq_error {a : HttpResponse} {e : Failure} (hf : fieldsOf a = .error e) :
    ∃ reason, e = failed reason := by
  unfold fieldsOf at hf
  split at hf <;> cases hf <;> exact ⟨_, rfl⟩

theorem lookupOutcome_eq_error {h : ReleaseHost} {target : Target} {x : HttpResult} {e : Failure}
    (hx : h.lookupOutcome target x = .error e) :
    (∃ reason, e = failed reason ∧ x.escape = none) ∨ ∃ c, x = .broken c ∧ e = .crash c := by
  cases x with
  | failed reason =>
    cases hx
    exact .inl ⟨_, rfl, rfl⟩
  | broken c =>
    cases hx
    exact .inr ⟨c, rfl, rfl⟩
  | response a =>
    simp only [lookupOutcome] at hx
    split at hx
    · cases hf : fieldsOf a with
      | error e' =>
        rw [hf] at hx
        cases hx
        obtain ⟨reason, he⟩ := fieldsOf_eq_error hf
        exact .inl ⟨reason, he, rfl⟩
      | ok es =>
        rw [hf] at hx
        cases hx
    · split at hx <;> cases hx
      exact .inl ⟨_, rfl, rfl⟩

theorem Ensures.last {h : ReleaseHost} {target : Target} {release : Fields}
    (h₀ : h.Ensures target t (.ok release)) :
    ∃ t' q a, t = t' ++ [⟨.send q, HttpResult.response a⟩] ∧ fieldsOf a = .ok release := by
  generalize hr : Except.ok release = r at h₀
  cases h₀ with
  | known hx =>
    cases hr
    obtain ⟨a, rfl, -, hf⟩ := lookupOutcome_eq_some hx
    exact ⟨[], _, a, rfl, hf⟩
  | created hx ha => exact ⟨[_], _, _, rfl, rfl⟩
  | overtaken hx ha hy =>
    cases hr
    obtain ⟨b, rfl, -, hf⟩ := lookupOutcome_eq_some hy
    exact ⟨[_, _], _, b, rfl, hf⟩
  | unknown | unanswered | refused | lost | vanished => cases hr

def requests : Request → Bool
  | .send _ | .readFile _ => true
  | _ => false

theorem Ensures.asked {h : ReleaseHost} {target : Target} {r : Except Failure Fields}
    (h₀ : h.Ensures target t r) :
    ∀ ev ∈ t, ev.1 = .send (h.lookupRequest target) ∨ ev.1 = .send (h.creationRequest target) := by
  cases h₀ <;> simp

theorem Ensures.sends {h : ReleaseHost} {target : Target} {r : Except Failure Fields}
    (h₀ : h.Ensures target t r) : ∀ ev ∈ t, ∃ q, ev.1 = .send q := by
  intro ev hev
  cases h₀.asked ev hev with
  | inl hq => exact ⟨_, hq⟩
  | inr hq => exact ⟨_, hq⟩

theorem Ensures.last_send {h : ReleaseHost} {target : Target} {r : Except Failure Fields}
    (h₀ : h.Ensures target t r) : ∃ before q x, t = before ++ [⟨.send q, x⟩] := by
  rcases List.eq_nil_or_concat t with rfl | ⟨before, ⟨r, x⟩, rfl⟩
  · cases h₀
  · obtain ⟨q, rfl⟩ : ∃ q, r = .send q := h₀.sends ⟨r, x⟩ (by simp)
    exact ⟨before, q, x, by simp⟩

theorem Uploads.asked {h : ReleaseHost} {file : Path} {asset : String} {target : Target}
    {r : Except Failure Upload} (h₀ : h.Uploads file asset target t r) :
    ∀ ev ∈ t, ev.1 = .send (h.lookupRequest target) ∨ ev.1 = .send (h.creationRequest target) ∨
      ev.1 = .readFile file ∨
      ∃ url content, ev.1 = .send (h.uploadRequest target url asset content) := by
  have ensured {t : Trace} {r : Except Failure Fields} (he : h.Ensures target t r) :
      ∀ ev ∈ t, ev.1 = .send (h.lookupRequest target) ∨ ev.1 = .send (h.creationRequest target) ∨
        ev.1 = .readFile file ∨
        ∃ url content, ev.1 = .send (h.uploadRequest target url asset content) :=
    fun ev hev => (he.asked ev hev).imp_right .inl
  cases h₀ with
  | unreached he => exact ensured he
  | unaddressed he hu => exact ensured he
  | unreadable he hu => exact List.forall_mem_append.mpr ⟨ensured he, by simp⟩
  | sent he hu =>
    refine List.forall_mem_append.mpr ⟨ensured he, ?_⟩
    simp only [List.forall_mem_cons, reduceCtorEq, false_or, true_or, or_true, true_and]
    exact ⟨.inr (.inr ⟨_, _, rfl⟩), nofun⟩

theorem Uploads.requests {h : ReleaseHost} {file : Path} {asset : String} {target : Target}
    {r : Except Failure Upload} (h₀ : h.Uploads file asset target t r) :
    ∀ ev ∈ t, ReleaseHost.requests ev.1 := by
  intro ev hev
  rcases h₀.asked ev hev with hq | hq | hq | ⟨url, content, hq⟩ <;> rw [hq] <;> rfl

end ReleaseHost

namespace Adapter

theorem publish_runs {a : Adapter} {ambient : Env} {file : Path} {asset : String}
    {target : Target} {r : Except Failure Upload}
    (h₀ : (a.publish ambient file asset target).Runs t j r) :
    (∃ seen, seen ≠ .ok true ∧ t = [⟨.isFile file, seen⟩] ∧
        r = .error (lacking (.publish (.artifactMissing file asset)) seen)) ∨
      ∃ u k, t = ⟨.isFile file, Except.ok true⟩ :: u ∧
        (a.upload ambient file asset target).Runs u k r := by
  rcases runs_isFile_bind h₀ with ⟨c, rfl, -, rfl⟩ | ⟨b, t₁, rfl, h₁⟩
  · exact .inl ⟨.error c, nofun, rfl, rfl⟩
  cases b with
  | true =>
    obtain ⟨j₁, rfl, h₂⟩ := runs_note_bind.mp h₁
    exact .inr ⟨t₁, j₁, rfl, h₂⟩
  | false =>
    obtain ⟨rfl, -, rfl⟩ := runs_fail.mp h₁
    exact .inl ⟨.ok false, nofun, rfl, rfl⟩

end Adapter
end BindingRelease
