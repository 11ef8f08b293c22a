import Mathlib.Data.List.Chain
import Mathlib.Data.List.Forall2
import BindingRelease.Proofs.FanOut
import BindingRelease.Proofs.TruthfulHost
/-!
What an upload asks of the release host and what becomes of it, whatever is answered. The upload is
the run of a machine: each phase asks one request, and its answer leads to the next phase or to the
end. What one answer can lead to is said once; the order of the requests and the outcome follow
along the run.
-/
namespace BindingRelease
open ReleaseHost
variable {σ : Type} {t : Trace}

abbrev Exchange := HttpRequest × HttpResult

def Trace.exchanges (t : Trace) : List Exchange :=
  t.filterMap fun ev => match ev with
    | ⟨.send q, x⟩ => some (q, x)
    | _ => none

def HttpRequest.carriesBytes (q : HttpRequest) : Bool :=
  match q.body with
  | .bytes _ => true
  | .none | .json _ => false

def HttpResult.NamesPages : HttpResult → Prop
  | .failed _ => True
  | .broken _ => False
  | .response a => ∀ fields, a.json = .ok (.map fields) →
      TextOrNull fields "browser_download_url" ∧ TextOrNull fields "html_url"

/-- An upload: where to, of which file with which content, and under which name. -/
structure Delivery where
  host : ReleaseHost
  target : Target
  file : Path
  content : List UInt8
  asset : String

namespace Delivery

/-- Where an upload stands, by the request it makes next. -/
inductive Phase where
  | lookup
  | creation
  | secondLookup (refusal : HttpResponse)
  | attachment (release : Fields)

abbrev State := Phase ⊕ Except Failure Upload

inductive Letter where
  | lookup
  | creation
  | attachment
  deriving DecidableEq

variable (d : Delivery)

def upload : Step Upload := d.host.upload d.file d.asset d.target

def lookup : HttpRequest := d.host.lookupRequest d.target

def creation : HttpRequest := d.host.creationRequest d.target

def attachment (url : String) : HttpRequest := d.host.uploadRequest d.target url d.asset d.content

def Phase.letter : Phase → Letter
  | lookup | secondLookup _ => .lookup
  | creation => .creation
  | attachment _ => .attachment

def request : Phase → HttpRequest
  | .lookup | .secondLookup _ => d.lookup
  | .creation => d.creation
  | .attachment release => d.attachment (uploadUrl release)

def entered : Except Failure Fields → State
  | .error e => .inr (.error e)
  | .ok release =>
    if uploadUrl release = "" then
      .inr (.error (failed (.noUploadAddress d.host.repository d.target.tag)))
    else .inl (.attachment release)

def looked (missing : State) (x : HttpResult) : State :=
  match d.host.lookupOutcome d.target x with
  | .error e => d.entered (.error e)
  | .ok (some release) => d.entered (.ok release)
  | .ok none => missing

def next : Phase → HttpResult → State
  | .lookup, x => d.looked (.inl .creation) x
  | .creation, .failed reason => .inr (.error (failed (.requestFailed d.creation.url reason)))
  | .creation, .broken c => .inr (.error (.crash c))
  | .creation, .response a =>
    if a.status = 201 then d.entered (fieldsOf a)
    else if a.status = 422 then .inl (.secondLookup a)
    else .inr (.error (d.host.creationRefusal d.target a))
  | .secondLookup refusal, x =>
    d.looked (.inr (.error (d.host.creationRefusal d.target refusal))) x
  | .attachment release, x =>
    .inr (attachmentOutcome d.file d.asset d.target release (d.attachment (uploadUrl release)) x)

/-- The runs of the machine. -/
inductive Talk (d : Delivery) : State → List Exchange → Except Failure Upload → Prop
  | ended {r} : Talk d (.inr r) [] r
  | asks {p x es r} (ht : Talk d (d.next p x) es r) : Talk d (.inl p) ((d.request p, x) :: es) r

inductive Turns (d : Delivery) : Phase → HttpResult → State → Prop
  | missing {a} (hs : a.status = 404) : Turns d .lookup (.response a) (.inl .creation)
  | refused {a} (hs : a.status = 422) : Turns d .creation (.response a) (.inl (.secondLookup a))
  | found {p a release} (hp : p.letter = .lookup) (hs : a.status = 200)
      (hj : a.json = .ok (.map release)) : Turns d p (.response a) (.inl (.attachment release))
  | created {a release} (hs : a.status = 201) (hj : a.json = .ok (.map release)) :
      Turns d .creation (.response a) (.inl (.attachment release))
  | failed {p x} (e : PublishError) : Turns d p x (.inr (.error (failed e)))
  | broke {p c} : Turns d p (.broken c) (.inr (.error (.crash c)))
  | attached {a release fields} (hs : a.status = 201) (hj : a.json = .ok (.map fields)) :
      Turns d (.attachment release) (.response a)
        (.inr (attachmentRecord d.file d.asset d.target release fields))

variable {d} {p : Phase} {x : HttpResult}

theorem turns_entered {a : HttpResponse}
    (ok : ∀ release, a.json = .ok (.map release) →
      d.Turns p (.response a) (.inl (.attachment release))) :
    d.Turns p (.response a) (d.entered (fieldsOf a)) := by
  cases hf : fieldsOf a with
  | error e =>
    obtain ⟨reason, rfl⟩ := fieldsOf_eq_error hf
    exact .failed reason
  | ok release =>
    simp only [entered]
    split
    · exact .failed _
    · exact ok release (json_of_fieldsOf hf)

theorem turns_looked {missing : State} (hp : p.letter = .lookup)
    (hm : ∀ a, x = .response a → a.status = 404 → d.Turns p x missing) :
    d.Turns p x (d.looked missing x) := by
  simp only [looked]
  cases x with
  | failed reason => exact .failed _
  | broken c => exact .broke
  | response a =>
    simp only [lookupOutcome]
    by_cases h200 : a.status = 200
    · have hfound := turns_entered (d := d) (a := a) fun release => Turns.found hp h200
      rw [if_pos h200]
      cases hf : fieldsOf a <;> rw [hf] at hfound <;> exact hfound
    · rw [if_neg h200]
      by_cases h404 : a.status = 404
      · rw [if_pos h404]
        exact hm a rfl h404
      · rw [if_neg h404]
        exact .failed _

theorem turns_next (d : Delivery) (p : Phase) (x : HttpResult) : d.Turns p x (d.next p x) := by
  cases p with
  | lookup =>
    refine turns_looked rfl ?_
    rintro a rfl h404
    exact .missing h404
  | secondLookup refusal => exact turns_looked rfl fun _ _ _ => .failed _
  | creation =>
    cases x with
    | failed reason => exact .failed _
    | broken c => exact .broke
    | response a =>
      simp only [next]
      by_cases h201 : a.status = 201
      · rw [if_pos h201]
        exact turns_entered fun release => .created h201
      · rw [if_neg h201]
        by_cases h422 : a.status = 422
        · rw [if_pos h422]
          exact .refused h422
        · rw [if_neg h422]
          exact .failed _
  | attachment release =>
    cases x with
    | failed reason => exact .failed _
    | broken c => exact .broke
    | response a =>
      simp only [next, attachmentOutcome]
      by_cases h201 : a.status = 201
      · rw [if_pos h201]
        cases hf : fieldsOf a with
        | error e =>
          obtain ⟨reason, rfl⟩ := fieldsOf_eq_error hf
          exact .failed reason
        | ok fields => exact .attached h201 (json_of_fieldsOf hf)
      · rw [if_neg h201]
        exact .failed _

/-! ### The requests -/

theorem request_of_letter (hp : p.letter = .lookup) : d.request p = d.lookup := by
  cases p with
  | lookup | secondLookup => rfl
  | creation | attachment => cases hp

theorem eq_creation_of_request (h : d.request p = d.creation) : p = .creation := by
  cases p with
  | creation => rfl
  | lookup | secondLookup => cases congrArg HttpRequest.method h
  | attachment => cases congrArg HttpRequest.body h

theorem letter_of_request (h : d.request p = d.lookup) : p.letter = .lookup := by
  cases p with
  | lookup | secondLookup => rfl
  | creation | attachment => cases congrArg HttpRequest.method h

theorem eq_attachment_of_request {url : String} (h : d.request p = d.attachment url) :
    ∃ release, p = .attachment release ∧ uploadUrl release = url := by
  cases p with
  | attachment release => exact ⟨release, rfl, congrArg HttpRequest.url h⟩
  | lookup | secondLookup | creation => cases congrArg HttpRequest.body h

def Names (d : Delivery) : Letter → HttpRequest → Prop
  | .lookup, q => q = d.lookup
  | .creation, q => q = d.creation
  | .attachment, q => ∃ url, q = d.attachment url

theorem names_request (d : Delivery) (p : Phase) : d.Names p.letter (d.request p) := by
  cases p with
  | lookup | secondLookup | creation => rfl
  | attachment release => exact ⟨uploadUrl release, rfl⟩

/-- The words that the requests from a phase on can form. -/
def Phase.words : Phase → List (List Letter)
  | lookup => [[.lookup], [.lookup, .attachment], [.lookup, .creation],
      [.lookup, .creation, .attachment], [.lookup, .creation, .lookup],
      [.lookup, .creation, .lookup, .attachment]]
  | creation => [[.creation], [.creation, .attachment], [.creation, .lookup],
      [.creation, .lookup, .attachment]]
  | secondLookup _ => [[.lookup], [.lookup, .attachment]]
  | attachment _ => [[.attachment]]

def words : State → List (List Letter)
  | .inl p => p.words
  | .inr _ => [[]]

theorem Turns.word {s : State} (h : d.Turns p x s) {w : List Letter} (hw : w ∈ words s) :
    p.letter :: w ∈ p.words := by
  have one (p : Phase) : [p.letter] ∈ p.words := by cases p <;> simp [Phase.words, Phase.letter]
  cases h with
  | missing =>
    revert w
    decide
  | refused =>
    simp only [words, Phase.words, List.mem_cons, List.not_mem_nil, or_false] at hw
    rcases hw with rfl | rfl <;> decide
  | created =>
    cases List.mem_singleton.mp hw
    decide
  | found hp =>
    cases List.mem_singleton.mp hw
    cases p with
    | lookup | secondLookup => simp [Phase.words, Phase.letter]
    | creation | attachment => cases hp
  | failed | broke | attached =>
    cases List.mem_singleton.mp hw
    exact one _

namespace Talk
variable {s : State} {es : List Exchange} {r : Except Failure Upload}

theorem word (ht : d.Talk s es r) :
    ∃ w ∈ words s, List.Forall₂ (fun l e => d.Names l e.1) w es := by
  induction ht with
  | ended => exact ⟨[], List.mem_singleton.mpr rfl, .nil⟩
  | @asks p x es r ht ih =>
    obtain ⟨w, hw, hes⟩ := ih
    exact ⟨p.letter :: w, (turns_next d p x).word hw, .cons (d.names_request p) hes⟩

theorem isChain (ht : d.Talk s es r) :
    es.IsChain fun e e' => ∃ p p', e.1 = d.request p ∧ d.Turns p e.2 (.inl p') ∧
      e'.1 = d.request p' := by
  induction ht with
  | ended => exact .nil
  | @asks p x es r ht ih =>
    refine ih.cons fun e' he' => ?_
    have hturn := turns_next d p x
    generalize d.next p x = s at ht hturn
    cases ht with
    | ended => cases he'
    | @asks p' x' es' r' ht =>
      cases he'
      exact ⟨p, p', rfl, hturn, rfl⟩

theorem turned {q q' : HttpRequest} {x x' : HttpResult} (ht : d.Talk s es r)
    (h : [(q, x), (q', x')] <:+: es) :
    ∃ p p', q = d.request p ∧ d.Turns p x (.inl p') ∧ q' = d.request p' := by
  have hpair := List.IsChain.infix ht.isChain h
  exact List.isChain_pair.mp hpair

variable {q : HttpRequest} {x y : HttpResult}

theorem created (ht : d.Talk s es r) (h : [(q, x), (d.creation, y)] <:+: es) :
    q = d.lookup ∧ ∃ a, x = .response a ∧ a.status = 404 := by
  obtain ⟨p, p', rfl, hturn, hq⟩ := ht.turned h
  cases eq_creation_of_request hq.symm
  cases hturn with
  | missing hs => exact ⟨rfl, _, rfl, hs⟩

theorem lookedAgain (ht : d.Talk s es r) (h : [(q, x), (d.lookup, y)] <:+: es) :
    q = d.creation ∧ ∃ a, x = .response a ∧ a.status = 422 := by
  obtain ⟨p, p', rfl, hturn, hq⟩ := ht.turned h
  have hl := letter_of_request hq.symm
  cases hturn with
  | refused hs => exact ⟨rfl, _, rfl, hs⟩
  | missing | found | created => cases hl

theorem attached {url : String} (ht : d.Talk s es r)
    (h : [(q, x), (d.attachment url, y)] <:+: es) :
    ∃ a release, x = .response a ∧ a.json = .ok (.map release) ∧ uploadUrl release = url ∧
      (q = d.lookup ∧ a.status = 200 ∨ q = d.creation ∧ a.status = 201) := by
  obtain ⟨p, p', rfl, hturn, hq⟩ := ht.turned h
  obtain ⟨release, rfl, hu⟩ := eq_attachment_of_request hq.symm
  cases hturn with
  | found hl hs hj => exact ⟨_, release, rfl, hj, hu, .inl ⟨request_of_letter hl, hs⟩⟩
  | created hs hj => exact ⟨_, release, rfl, hj, hu, .inr ⟨rfl, hs⟩⟩

end Talk

/-! ### The end -/

def Phase.NamesPage : Phase → Prop
  | .attachment release => TextOrNull release "html_url"
  | _ => True

theorem Turns.namesPage {p' : Phase} (h : d.Turns p x (.inl p')) (hx : x.NamesPages) :
    p'.NamesPage := by
  cases h with
  | missing | refused => trivial
  | found _ _ hj | created _ hj => exact (hx _ hj).2

theorem carriesBytes_of_turns {p' : Phase} (h : d.Turns p x (.inl p')) :
    (d.request p).carriesBytes = false := by
  cases h with
  | missing | refused | created => rfl
  | found hp =>
    rw [request_of_letter hp]
    rfl

theorem exists_record {release fields : Fields} (hr : TextOrNull release "html_url")
    (hf : TextOrNull fields "browser_download_url") :
    ∃ u, attachmentRecord d.file d.asset d.target release fields = .ok u := by
  obtain ⟨page, hp⟩ := exists_page hr hf
  simp [attachmentRecord, hp]

theorem Turns.record {r : Except Failure Upload} (h : d.Turns p x (.inr r)) {u : Upload}
    (hr : r = .ok u) :
    ∃ release a fields, p = .attachment release ∧ x = .response a ∧ a.status = 201 ∧
      a.json = .ok (.map fields) := by
  cases h with
  | failed | broke => cases hr
  | attached hs hj => exact ⟨_, _, _, rfl, rfl, hs, hj⟩

theorem Turns.error {r : Except Failure Upload} (h : d.Turns p x (.inr r)) (hp : p.NamesPage)
    (hx : x.NamesPages) {e : Failure} (hr : r = .error e) :
    ∃ reason, e = .release (.publish reason) := by
  cases h with
  | failed reason =>
    cases hr
    exact ⟨reason, rfl⟩
  | broke => exact hx.elim
  | attached hs hj =>
    obtain ⟨u, hu⟩ := exists_record (d := d) hp (hx _ hj).1
    rw [hu] at hr
    cases hr

theorem next_attached {release fields : Fields} {a : HttpResponse} (hs : a.status = 201)
    (hj : a.json = .ok (.map fields)) :
    d.next (.attachment release) (.response a) =
      .inr (attachmentRecord d.file d.asset d.target release fields) := by
  simp [next, attachmentOutcome, hs, fieldsOf_of_json hj, Except.bind]

theorem Talk.last {s : State} {es : List Exchange} {r : Except Failure Upload}
    (ht : d.Talk s es r) (hs : s = .inl p) (hp : p.NamesPage)
    (hes : ∀ e ∈ es, e.2.NamesPages) :
    ∃ before p' x, es = before ++ [(d.request p', x)] ∧ d.next p' x = .inr r ∧ p'.NamesPage ∧
      ∀ e ∈ before, e.1.carriesBytes = false := by
  induction ht generalizing p with
  | ended => cases hs
  | @asks p x es r ht ih =>
    cases hs
    have hturn := turns_next d p x
    obtain ⟨hx, hes⟩ := List.forall_mem_cons.mp hes
    cases hn : d.next p x with
    | inr r' =>
      rw [hn] at ht
      cases ht
      exact ⟨[], p, x, rfl, hn, hp, nofun⟩
    | inl p' =>
      rw [hn] at hturn
      obtain ⟨before, p'', y, rfl, hy, hp'', hb⟩ := ih hn (hturn.namesPage hx) hes
      exact ⟨(d.request p, x) :: before, p'', y, rfl, hy, hp'',
        List.forall_mem_cons.mpr ⟨carriesBytes_of_turns hturn, hb⟩⟩

/-! ### Uploads are runs of the machine -/

theorem mem_exchanges {q : HttpRequest} : (q, x) ∈ t.exchanges ↔ ⟨.send q, x⟩ ∈ t := by
  simp only [Trace.exchanges, List.mem_filterMap]
  constructor
  · rintro ⟨⟨r, y⟩, hev, he⟩
    cases r with
    | send q' =>
      cases he
      exact hev
    | _ => cases he
  · intro h
    exact ⟨_, h, rfl⟩

theorem exchanges_append (t u : Trace) : (t ++ u).exchanges = t.exchanges ++ u.exchanges :=
  List.filterMap_append

section Ensuring
variable {missing s : State} {es : List Exchange} {r : Except Failure Upload}

theorem looked_error {e : Failure} (hx : d.host.lookupOutcome d.target x = .error e) :
    d.looked missing x = d.entered (.error e) := by
  rw [looked, hx]

theorem looked_found {release : Fields}
    (hx : d.host.lookupOutcome d.target x = .ok (some release)) :
    d.looked missing x = d.entered (.ok release) := by
  rw [looked, hx]

theorem looked_missing (hx : d.host.lookupOutcome d.target x = .ok none) :
    d.looked missing x = missing := by
  rw [looked, hx]

theorem next_creation_of_ne {a : HttpResponse} (h₁ : a.status ≠ 201) (h₂ : a.status ≠ 422) :
    d.next .creation (.response a) = .inr (.error (d.host.creationRefusal d.target a)) := by
  rw [next, if_neg h₁, if_neg h₂]

theorem next_creation_of_eq {a : HttpResponse} (ha : a.status = 422) :
    d.next .creation (.response a) = .inl (.secondLookup a) := by
  rw [next, ha]
  rfl

theorem next_creation_of_unanswered {e : Failure} (hx : unanswered d.creation x = some e) :
    d.next .creation x = d.entered (.error e) := by
  cases x <;> cases hx <;> rfl

theorem Talk.step (hs : d.next p x = s) (ht : d.Talk s es r) :
    d.Talk (.inl p) ((d.request p, x) :: es) r := by
  subst hs
  exact .asks ht

theorem talk_of_ensures {k : Except Failure Fields} (he : d.host.Ensures d.target t k)
    (ht : d.Talk (d.entered k) es r) : d.Talk (.inl .lookup) (t.exchanges ++ es) r := by
  -- a look-up that finds nothing leads to the creation, and that to what it is answered
  have created {x y : HttpResult} {es : List Exchange} {s : State}
      (hx : d.host.lookupOutcome d.target x = .ok none) (hs : d.next .creation y = s)
      (ht : d.Talk s es r) :
      d.Talk (.inl .lookup) ((d.lookup, x) :: (d.creation, y) :: es) r :=
    .step (p := .lookup) (looked_missing hx) (.step (p := .creation) hs ht)
  cases he with
  | unknown hx => exact .step (p := .lookup) (looked_error hx) ht
  | known hx => exact .step (p := .lookup) (looked_found hx) ht
  | unanswered hx hy => exact created hx (next_creation_of_unanswered hy) ht
  | created hx ha => exact created hx (if_pos ha) ht
  | refused hx h₁ h₂ => exact created hx (next_creation_of_ne h₁ h₂) ht
  | lost hx ha hy =>
    exact created hx (next_creation_of_eq ha) (.step (p := .secondLookup _) (looked_error hy) ht)
  | overtaken hx ha hy =>
    exact created hx (next_creation_of_eq ha) (.step (p := .secondLookup _) (looked_found hy) ht)
  | vanished hx ha hy =>
    exact created hx (next_creation_of_eq ha) (.step (p := .secondLookup _) (looked_missing hy) ht)

end Ensuring

theorem entered_of_ne {release : Fields} (hu : uploadUrl release ≠ "") :
    d.entered (.ok release) = .inl (.attachment release) :=
  if_neg hu

theorem talk_of_uploads {r : Except Failure Upload}
    (h₀ : d.host.Uploads d.file d.asset d.target t r)
    (hread : ∀ x, ⟨.readFile d.file, x⟩ ∈ t → x = Except.ok d.content) :
    d.Talk (.inl .lookup) t.exchanges r ∧ ∃ before q x, t = before ++ [⟨.send q, x⟩] := by
  cases h₀ with
  | unreached he =>
    refine ⟨?_, he.last_send⟩
    rw [← List.append_nil t.exchanges]
    exact talk_of_ensures he .ended
  | @unaddressed t release he hu =>
    refine ⟨?_, he.last_send⟩
    rw [← List.append_nil t.exchanges]
    refine talk_of_ensures he ?_
    rw [entered, if_pos hu]
    exact .ended
  | @unreadable t release e he hu =>
    cases hread (Except.error e) (by simp)
  | @sent t release content x he hu =>
    obtain rfl : content = d.content := Except.ok.inj (hread (Except.ok content) (by simp))
    refine ⟨?_, t ++ [⟨.readFile d.file, Except.ok d.content⟩],
      d.attachment (uploadUrl release), x, by simp [attachment]⟩
    rw [exchanges_append]
    refine talk_of_ensures he ?_
    rw [entered_of_ne hu]
    exact .asks (p := .attachment release) .ended

/-! ### The protocol -/

/-- What an upload asks of the host, and what becomes of it. -/
structure Protocol (d : Delivery) (t : Trace) (r : Except Failure Upload) : Prop where
  word : ∃ w ∈ ([[.lookup], [.lookup, .attachment], [.lookup, .creation],
      [.lookup, .creation, .attachment], [.lookup, .creation, .lookup],
      [.lookup, .creation, .lookup, .attachment]] : List (List Letter)),
    List.Forall₂ (fun l e => d.Names l e.1) w t.exchanges
  created : ∀ q x y, [(q, x), (d.creation, y)] <:+: t.exchanges →
    q = d.lookup ∧ ∃ a, x = .response a ∧ a.status = 404
  lookedAgain : ∀ q x y, [(q, x), (d.lookup, y)] <:+: t.exchanges →
    q = d.creation ∧ ∃ a, x = .response a ∧ a.status = 422
  attached : ∀ q x url y, [(q, x), (d.attachment url, y)] <:+: t.exchanges →
    ∃ a release, x = .response a ∧ a.json = .ok (.map release) ∧ uploadUrl release = url ∧
      (q = d.lookup ∧ a.status = 200 ∨ q = d.creation ∧ a.status = 201)
  recorded : (∃ u, r = .ok u) ↔ ∃ before url a fields,
    t.exchanges = before ++ [(d.attachment url, .response a)] ∧ a.status = 201 ∧
      a.json = .ok (.map fields)
  once : ∀ u, r = .ok u → ∃ q, (t.exchanges.map Prod.fst).filter HttpRequest.carriesBytes = [q] ∧
    q.body = .bytes d.content ∧ q.params = [("name", d.asset)]
  failed : ∀ e, r = .error e → ∃ reason, e = .release (.publish reason)
  ends : ∃ before q x, t = before ++ [⟨.send q, x⟩]
  talk : d.Talk (.inl .lookup) t.exchanges r

theorem protocol_of_uploads {r : Except Failure Upload}
    (h₀ : d.host.Uploads d.file d.asset d.target t r)
    (hread : ∀ x, ⟨.readFile d.file, x⟩ ∈ t → x = Except.ok d.content)
    (hpages : ∀ e ∈ t.exchanges, e.2.NamesPages) : d.Protocol t r := by
  obtain ⟨ht, hends⟩ := talk_of_uploads h₀ hread
  obtain ⟨before, p, x, hes, hlast, hp, hbefore⟩ := ht.last rfl trivial hpages
  have hx : x.NamesPages := hpages (d.request p, x) (by simp [hes])
  have hturn := turns_next d p x
  rw [hlast] at hturn
  refine ⟨ht.word, fun q x y => ht.created, fun q x y => ht.lookedAgain,
    fun q x url y => ht.attached, ⟨?_, ?_⟩, ?_, ?_, hends, ht⟩
  · rintro ⟨u, hr⟩
    obtain ⟨release, a, fields, rfl, rfl, hs, hj⟩ := hturn.record hr
    exact ⟨before, uploadUrl release, a, fields, hes, hs, hj⟩
  · rintro ⟨before', url, a, fields, hes', hs, hj⟩
    rw [hes] at hes'
    obtain ⟨rfl, he⟩ := List.append_inj' hes' rfl
    obtain ⟨hq, rfl⟩ : d.request p = d.attachment url ∧ x = .response a := by simpa using he
    obtain ⟨release, rfl, -⟩ := eq_attachment_of_request hq
    rw [next_attached hs hj] at hlast
    cases hlast
    exact exists_record hp (hx _ hj).1
  · intro u hr
    obtain ⟨release, a, fields, rfl, rfl, hs, hj⟩ := hturn.record hr
    refine ⟨d.attachment (uploadUrl release), ?_, rfl, rfl⟩
    have hnone : (before.map Prod.fst).filter HttpRequest.carriesBytes = [] := by
      simpa [List.filter_eq_nil_iff] using hbefore
    rw [hes, List.map_append, List.filter_append, hnone]
    rfl
  · intro e hr
    exact hturn.error hp hx hr

/-- Whatever the host answers, an upload of a file that can be read keeps the protocol. -/
theorem upload_keeps_protocol (d : Delivery) (answer : (r : Request) → σ → r.Answer × σ)
    (reading : ∀ w, (answer (.readFile d.file) w).1 = Except.ok d.content)
    (pages : ∀ q w, HttpResult.NamesPages (answer (.send q) w).1) (w : σ) :
    d.Protocol (d.upload.run.trace answer w) (d.upload.run.runWith answer w).1.2 := by
  refine protocol_of_uploads (upload_runs (Step.runs_trace answer d.upload w)) ?_ ?_
  · intro x hx
    obtain ⟨w', hw⟩ := Program.mem_trace hx
    exact hw.trans (reading w')
  · rintro ⟨q, x⟩ he
    obtain ⟨w', hw⟩ := Program.mem_trace (mem_exchanges.mp he)
    obtain rfl : x = (answer (.send q) w').1 := hw
    exact pages q w'

def oneByOne (content : List UInt8) (answers : List HttpResult) :
    (r : Request) → Nat → r.Answer × Nat
  | .send _, n => (answers.getD n (.failed "unreachable"), n + 1)
  | .readFile _, n => (Except.ok content, n)
  | r, n => (Surroundings.obliging r, n)

theorem namesPages_oneByOne {content : List UInt8} {answers : List HttpResult}
    (h : ∀ x ∈ answers, x.NamesPages) (q : HttpRequest) (n : Nat) :
    HttpResult.NamesPages (oneByOne content answers (.send q) n).1 := by
  simp only [oneByOne, List.getD_eq_getElem?_getD]
  cases hx : answers[n]? with
  | none => trivial
  | some x => exact h x (List.mem_of_getElem? hx)

theorem overtaken_upload_keeps_protocol :
    let d : Delivery := ⟨ReleaseHost.new "owner/bindings" "https://host", ⟨"v1", "token", none⟩,
      Path.ofString "/work/lib.so", [127, 69], "lib.so"⟩
    let release : Fields := [(.text "upload_url", .text "https://up\x7b?name\x7d"),
      (.text "html_url", .text "https://host/v1")]
    let answer := oneByOne d.content [.response ⟨404, "", "Not Found", .error "no JSON"⟩,
      .response ⟨422, "", "Unprocessable", .ok (.map [])⟩,
      .response ⟨200, "", "OK", .ok (.map release)⟩,
      .response ⟨201, "", "Created", .ok (.map [(.text "browser_download_url", .null)])⟩]
    ((d.upload.run.trace answer 0).exchanges.map fun e => e.1.url) =
        ["https://host/repos/owner/bindings/releases/tags/v1",
          "https://host/repos/owner/bindings/releases",
          "https://host/repos/owner/bindings/releases/tags/v1", "https://up"] ∧
      (d.upload.run.runWith answer 0).1.2.isOk ∧
      d.Protocol (d.upload.run.trace answer 0) (d.upload.run.runWith answer 0).1.2 := by
  intro d release answer
  refine ⟨by decide +kernel, by decide +kernel, ?_⟩
  refine d.upload_keeps_protocol answer (fun _ => rfl) (namesPages_oneByOne ?_) 0
  simp [HttpResult.NamesPages, TextOrNull, Value.lookup, release]

end Delivery
end BindingRelease
