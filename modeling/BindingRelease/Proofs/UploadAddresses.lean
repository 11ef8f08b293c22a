import BindingRelease.Proofs.UploadProtocol
/-!
Where an asset is sent. The host has told of the release that an upload goes to, and the release
gives the address: the part of a text before its first brace. A release without an address, with an
empty one or with an object in its place ends the upload before anything is sent; null, a truth
value, a number or a list does not, since its own text is taken for the address.
-/
namespace BindingRelease
open ReleaseHost

def Text.Opens (s : String) : Prop := ∃ c cs, s.toList = c :: cs ∧ c ≠ '{'

theorem Text.opens_append {s : String} (h : Opens s) (s' : String) : Opens (s ++ s') := by
  obtain ⟨c, cs, hs, hc⟩ := h
  exact ⟨c, cs ++ s'.toList, by simp [hs], hc⟩

theorem Text.opens_of_not_mem {cs : List Char} (hne : cs ≠ []) (hmem : '{' ∉ cs) :
    Opens (String.ofList cs) := by
  obtain ⟨c, cs, rfl⟩ := List.exists_cons_of_ne_nil hne
  exact ⟨c, cs, by simp, fun hc => hmem (hc ▸ List.mem_cons_self)⟩

theorem Text.brace_not_mem_toDigits (n : Nat) : '{' ∉ Nat.toDigits 10 n := fun h =>
  absurd (Nat.isDigit_of_mem_toDigits (by decide) (by decide) h) (by decide)

theorem Text.opens_integerText (i : Int) : Opens (integerText i) := by
  cases i with
  | ofNat n => exact opens_of_not_mem Nat.toDigits_ne_nil (brace_not_mem_toDigits n)
  | negSucc n => exact opens_append (s := "-") ⟨'-', [], rfl, by decide⟩ _

namespace Decimal
open Text

theorem brace_not_mem_shortest (b : Binary) : '{' ∉ (shortest b).1 := by
  unfold shortest
  dsimp only
  split
  · simp
  · intro h
    have h := (List.dropWhile_sublist _).subset (List.mem_reverse.mp h)
    exact brace_not_mem_toDigits _ (List.mem_reverse.mp h)

theorem opens_signed {s : String} (negative : Bool) (h : Opens s) :
    Opens ((if negative then "-" else "") ++ s) := by
  cases negative with
  | true => exact opens_append (s := "-") ⟨'-', [], rfl, by decide⟩ s
  | false => simpa using h

theorem opens_floatText (x : Float) : Opens (floatText x) := by
  unfold floatText
  split
  · exact ⟨'n', ['a', 'n'], rfl, by decide⟩
  split
  · refine opens_signed _ ?_
    split
    · exact ⟨'i', ['n', 'f'], rfl, by decide⟩
    · exact ⟨'0', ['.', '0'], rfl, by decide⟩
  · rename_i negative b _
    have hds := brace_not_mem_shortest b
    generalize shortest b = digits at hds ⊢
    obtain ⟨ds, point⟩ := digits
    have htake (n : Nat) : '{' ∉ ds.take n := fun h => hds (List.mem_of_mem_take h)
    have hdrop (n : Nat) : '{' ∉ ds.drop n := fun h => hds (List.mem_of_mem_drop h)
    refine opens_signed negative (opens_of_not_mem ?_ ?_)
    · dsimp only
      split_ifs <;> simp
    · dsimp only
      split_ifs <;> simp [hds, htake, hdrop, brace_not_mem_toDigits, -List.drop_one]

end Decimal

namespace Value
open Text

/-- Values that a host can report and that are neither texts nor objects. -/
inductive Bare : Value → Prop
  | null : Bare .null
  | bool (b : Bool) : Bare (.bool b)
  | int (i : Int) : Bare (.int i)
  | float (x : Float) : Bare (.float x)
  | list (xs : List Value) : Bare (.list xs)

theorem Bare.opens {v : Value} (h : v.Bare) : Opens v.plain := by
  cases h with
  | null => exact ⟨'N', ['o', 'n', 'e'], rfl, by decide⟩
  | bool b =>
    cases b with
    | false => exact ⟨'F', ['a', 'l', 's', 'e'], rfl, by decide⟩
    | true => exact ⟨'T', ['r', 'u', 'e'], rfl, by decide⟩
  | int i => exact opens_integerText i
  | float x => exact Decimal.opens_floatText x
  | list xs => exact opens_append (opens_append (s := "[") ⟨'[', [], rfl, by decide⟩ _) _

theorem not_opens_map (es : List (Value × Value)) : ¬ Opens (map es).plain := by
  rintro ⟨c, cs, hs, hc⟩
  simp only [plain, literal, braced, String.toList_append, List.append_assoc] at hs
  exact hc (List.cons.inj hs).1.symm

end Value

namespace ReleaseHost
variable {h : ReleaseHost} {file : Path} {asset : String} {target : Target} {t : Trace}
  {j : Journal} {release : Fields} {url : String}

theorem beforeBrace_ne_empty_iff {s : String} : beforeBrace s ≠ "" ↔ Text.Opens s := by
  unfold beforeBrace Text.Opens
  cases hs : s.toList with
  | nil => simp
  | cons c cs => by_cases hc : c = '{' <;> simp [hc]

/-- The release reports the address: a text of which it is the part before the first brace. -/
def Reports (release : Fields) (url : String) : Prop :=
  ∃ text, Value.lookup release "upload_url" = some (.text text) ∧ url = beforeBrace text ∧ url ≠ ""

/-- The address is not reported but made from the text of another value. -/
def Renders (release : Fields) (url : String) : Prop :=
  ∃ v, Value.lookup release "upload_url" = some v ∧ (∀ text, v ≠ .text text) ∧
    url = beforeBrace v.plain ∧ url ≠ ""

/-- The release has no address: none at all, an empty one, one that begins with a brace, or an
object in its place. -/
inductive Silent (release : Fields) : Prop
  | missing (hv : Value.lookup release "upload_url" = none)
  | empty (hv : Value.lookup release "upload_url" = some (.text ""))
  | braced {text : String} {cs : List Char}
      (hv : Value.lookup release "upload_url" = some (.text text)) (hs : text.toList = '{' :: cs)
  | object {es : Fields} (hv : Value.lookup release "upload_url" = some (.map es))

theorem uploadUrl_of_some {v : Value} (hv : Value.lookup release "upload_url" = some v) :
    uploadUrl release = beforeBrace v.plain := by
  simp [uploadUrl, beforeBrace, hv]

theorem uploadUrl_eq_iff (hne : url ≠ "") :
    uploadUrl release = url ↔ Reports release url ∨ Renders release url := by
  constructor
  · rintro rfl
    cases hv : Value.lookup release "upload_url" with
    | none => exact absurd (by simp [uploadUrl, hv]) hne
    | some v =>
      have hu := uploadUrl_of_some hv
      by_cases htext : ∃ text, v = .text text
      · obtain ⟨text, rfl⟩ := htext
        exact .inl ⟨text, hv, hu, hne⟩
      · exact .inr ⟨v, hv, fun text he => htext ⟨text, he⟩, hu, hne⟩
  · rintro (⟨text, hv, hu, -⟩ | ⟨v, hv, -, hu, -⟩)
    · exact (uploadUrl_of_some hv).trans hu.symm
    · exact (uploadUrl_of_some hv).trans hu.symm

theorem Silent.uploadUrl (hs : Silent release) : ReleaseHost.uploadUrl release = "" := by
  have closed {v : Value} (hv : Value.lookup release "upload_url" = some v)
      (hno : ¬ Text.Opens v.plain) : ReleaseHost.uploadUrl release = "" := by
    rw [uploadUrl_of_some hv]
    exact not_not.mp fun hne => hno (beforeBrace_ne_empty_iff.mp hne)
  cases hs with
  | missing hv => simp [ReleaseHost.uploadUrl, hv]
  | empty hv => exact closed hv (by simp [Text.Opens, Value.plain])
  | braced hv hs => exact closed hv (by simp [Text.Opens, Value.plain, hs])
  | object hv => exact closed hv (Value.not_opens_map _)

theorem exists_renders {v : Value} (hv : Value.lookup release "upload_url" = some v)
    (hb : v.Bare) : ∃ url, Renders release url := by
  refine ⟨_, v, hv, ?_, rfl, beforeBrace_ne_empty_iff.mpr hb.opens⟩
  rintro text rfl
  cases hb

/-- The host has told of the release: it was found or made. -/
def Tells (h : ReleaseHost) (target : Target) (release : Fields) (ev : Event) : Prop :=
  ∃ a : HttpResponse, a.json = .ok (.map release) ∧
    (ev = ⟨.send (h.lookupRequest target), HttpResult.response a⟩ ∧ a.status = 200 ∨
      ev = ⟨.send (h.creationRequest target), HttpResult.response a⟩ ∧ a.status = 201)

theorem lookup_ne_creation : h.lookupRequest target ≠ h.creationRequest target := fun he => by
  cases congrArg HttpRequest.method he

theorem tells_lookup {x : HttpResult}
    (ht : Tells h target release ⟨.send (h.lookupRequest target), x⟩) :
    h.lookupOutcome target x = .ok (some release) := by
  obtain ⟨a, hj, ⟨he, hs⟩ | ⟨he, -⟩⟩ := ht
  · cases he
    simp [lookupOutcome, hs, fieldsOf_of_json hj, Except.map]
  · exact absurd (Request.send.inj (Sigma.mk.inj he).1) lookup_ne_creation

theorem tells_creation {x : HttpResult}
    (ht : Tells h target release ⟨.send (h.creationRequest target), x⟩) :
    ∃ a, x = .response a ∧ a.status = 201 ∧ fieldsOf a = .ok release := by
  obtain ⟨a, hj, ⟨he, -⟩ | ⟨he, hs⟩⟩ := ht
  · exact absurd (Request.send.inj (Sigma.mk.inj he).1).symm lookup_ne_creation
  · cases he
    exact ⟨a, rfl, hs, fieldsOf_of_json hj⟩

theorem Ensures.eq_of_tells {r : Except Failure Fields} (he : h.Ensures target t r) {ev : Event}
    (hev : ev ∈ t) (ht : Tells h target release ev) : r = .ok release := by
  have lookup {x : HttpResult} {o : Except Failure (Option Fields)}
      (hx : h.lookupOutcome target x = o) (hev : ev = ⟨.send (h.lookupRequest target), x⟩) :
      o = .ok (some release) := by
    subst hev
    exact hx.symm.trans (tells_lookup ht)
  have creation {a : HttpResponse}
      (hev : ev = ⟨.send (h.creationRequest target), HttpResult.response a⟩) :
      a.status = 201 ∧ fieldsOf a = .ok release := by
    subst hev
    obtain ⟨_, he, hs, hf⟩ := tells_creation ht
    cases he
    exact ⟨hs, hf⟩
  cases he with
  | unknown hx => cases lookup hx (List.mem_singleton.mp hev)
  | known hx =>
    cases lookup hx (List.mem_singleton.mp hev)
    rfl
  | unanswered hx hy =>
    rcases List.mem_cons.mp hev with hev | hev
    · cases lookup hx hev
    · cases List.mem_singleton.mp hev
      obtain ⟨_, rfl, -⟩ := tells_creation ht
      cases hy
  | created hx ha =>
    rcases List.mem_cons.mp hev with hev | hev
    · cases lookup hx hev
    · exact (creation (List.mem_singleton.mp hev)).2
  | refused hx h₁ h₂ =>
    rcases List.mem_cons.mp hev with hev | hev
    · cases lookup hx hev
    · exact absurd (creation (List.mem_singleton.mp hev)).1 h₁
  | lost hx ha hy | vanished hx ha hy =>
    simp only [List.mem_cons, List.not_mem_nil, or_false] at hev
    rcases hev with hev | hev | hev
    · cases lookup hx hev
    · exact absurd (ha.symm.trans (creation hev).1) (by decide)
    · cases lookup hy hev
  | overtaken hx ha hy =>
    simp only [List.mem_cons, List.not_mem_nil, or_false] at hev
    rcases hev with hev | hev | hev
    · cases lookup hx hev
    · exact absurd (ha.symm.trans (creation hev).1) (by decide)
    · cases lookup hy hev
      rfl

theorem Ensures.exists_tells (he : h.Ensures target t (.ok release)) :
    ∃ ev ∈ t, Tells h target release ev := by
  have lookup {x : HttpResult} (hx : h.lookupOutcome target x = .ok (some release)) :
      Tells h target release ⟨.send (h.lookupRequest target), x⟩ := by
    obtain ⟨a, rfl, hs, hf⟩ := lookupOutcome_eq_some hx
    exact ⟨a, json_of_fieldsOf hf, .inl ⟨rfl, hs⟩⟩
  generalize hr : Except.ok release = r at he
  cases he with
  | known hx =>
    cases hr
    exact ⟨_, List.mem_singleton.mpr rfl, lookup hx⟩
  | created hx ha => exact ⟨_, by simp, _, json_of_fieldsOf hr.symm, .inr ⟨rfl, ha⟩⟩
  | overtaken hx ha hy =>
    cases hr
    exact ⟨_, by simp, lookup hy⟩
  | unknown | unanswered | refused | lost | vanished => cases hr

theorem not_tells_attachment {content : List UInt8} {x : HttpResult} :
    ¬ Tells h target release ⟨.send (h.uploadRequest target url asset content), x⟩ := by
  rintro ⟨a, -, ⟨he, -⟩ | ⟨he, -⟩⟩
  · cases congrArg HttpRequest.method (Request.send.inj (Sigma.mk.inj he).1)
  · cases congrArg HttpRequest.body (Request.send.inj (Sigma.mk.inj he).1)

theorem not_tells_readFile {x : Except Crash (List UInt8)} :
    ¬ Tells h target release ⟨.readFile file, x⟩ := by
  rintro ⟨a, -, ⟨he, -⟩ | ⟨he, -⟩⟩ <;> cases (Sigma.mk.inj he).1

theorem Uploads.of_tells {r : Except Failure Upload} (h₀ : h.Uploads file asset target t r)
    {ev : Event} (hev : ev ∈ t) (ht : Tells h target release ev) :
    ∃ u, h.Ensures target u (.ok release) ∧
      (uploadUrl release = "" ∧ t = u ∧
          r = .error (failed (.noUploadAddress h.repository target.tag)) ∨
        uploadUrl release ≠ "" ∧
          ((∃ c, ⟨.readFile file, Except.error c⟩ ∈ t ∧ r = .error (.crash c)) ∨ ∃ content x,
            ⟨.send (h.uploadRequest target (uploadUrl release) asset content), x⟩ ∈ t)) := by
  cases h₀ with
  | unreached he => cases he.eq_of_tells hev ht
  | unaddressed he hu =>
    cases he.eq_of_tells hev ht
    exact ⟨t, he, .inl ⟨hu, rfl, rfl⟩⟩
  | unreadable he hu =>
    rcases List.mem_append.mp hev with hev | hev
    · cases he.eq_of_tells hev ht
      exact ⟨_, he, .inr ⟨hu, .inl ⟨_, by simp, rfl⟩⟩⟩
    · cases List.mem_singleton.mp hev
      exact absurd ht not_tells_readFile
  | @sent u _ content x he hu =>
    rcases List.mem_append.mp hev with hev | hev
    · cases he.eq_of_tells hev ht
      exact ⟨u, he, .inr ⟨hu, .inr ⟨content, x, by simp⟩⟩⟩
    · simp only [List.mem_cons, List.not_mem_nil, or_false] at hev
      rcases hev with rfl | rfl
      · exact absurd ht not_tells_readFile
      · exact absurd ht not_tells_attachment

theorem Uploads.sent_cases {r : Except Failure Upload} (h₀ : h.Uploads file asset target t r)
    {before after : Trace} {q : HttpRequest} {x : HttpResult}
    (ht : t = before ++ ⟨.send q, x⟩ :: after) :
    q = h.lookupRequest target ∨ q = h.creationRequest target ∨
      ∃ release content, q = h.uploadRequest target (uploadUrl release) asset content ∧
        uploadUrl release ≠ "" ∧ ∃ u, u ⊆ before ∧ h.Ensures target u (.ok release) := by
  have sought {u : Trace} {k : Except Failure Fields} (he : h.Ensures target u k)
      (hq : (⟨.send q, x⟩ : Event) ∈ u) :
      q = h.lookupRequest target ∨ q = h.creationRequest target :=
    (he.asked _ hq).imp Request.send.inj Request.send.inj
  have hq : (⟨.send q, x⟩ : Event) ∈ t := by simp [ht]
  cases h₀ with
  | unreached he | unaddressed he hu => exact or_assoc.mp (.inl (sought he hq))
  | unreadable he hu =>
    rcases List.mem_append.mp hq with hq | hq
    · exact or_assoc.mp (.inl (sought he hq))
    · cases List.mem_singleton.mp hq
  | @sent u release content y he hu =>
    rcases List.append_eq_append_iff.mp ht with ⟨c, rfl, hc⟩ | ⟨c, rfl, hc⟩
    · have hq : (⟨.send q, x⟩ : Event) ∈ c ++ ⟨.send q, x⟩ :: after := by simp
      rw [← hc] at hq
      simp only [List.mem_cons, List.not_mem_nil, or_false] at hq
      rcases hq with hq | hq
      · cases hq
      · cases hq
        exact .inr (.inr ⟨release, content, rfl, hu, u, List.subset_append_left u c, he⟩)
    · cases c with
      | nil => cases (List.cons.inj hc).1
      | cons ev c =>
        cases (List.cons.inj hc).1
        exact or_assoc.mp (.inl (sought he (by simp)))

/-- Where an upload sends what. -/
structure Addressed (h : ReleaseHost) (file : Path) (asset : String) (target : Target)
    (t : Trace) (r : Except Failure Upload) : Prop where
  sent : ∀ before q x after, t = before ++ ⟨.send q, x⟩ :: after →
    q = h.lookupRequest target ∨ q = h.creationRequest target ∨
      ∃ release url content, q = h.uploadRequest target url asset content ∧
        (Reports release url ∨ Renders release url) ∧ ∃ ev ∈ before, Tells h target release ev
  silent : ∀ release, (∃ ev ∈ t, Tells h target release ev) → Silent release →
    r = .error (failed (.noUploadAddress h.repository target.tag)) ∧
      ∀ q x, ⟨.send q, x⟩ ∈ t → q.carriesBytes = false
  used : ∀ release url, (∃ ev ∈ t, Tells h target release ev) →
    Reports release url ∨ Renders release url →
      (∃ c, ⟨.readFile file, Except.error c⟩ ∈ t ∧ r = .error (.crash c)) ∨
        ∃ content x, ⟨.send (h.uploadRequest target url asset content), x⟩ ∈ t
  rendered : ∀ (release : Fields) (v : Value), Value.lookup release "upload_url" = some v →
    v.Bare → ∃ url, Renders release url

/-- An asset is sent to an address that the release reports, or to one made of a value in its place.
A release without an address ends the upload before the asset is sent. -/
theorem upload_is_addressed {r : Except Failure Upload}
    (h₀ : (h.upload file asset target).Runs t j r) : Addressed h file asset target t r where
  sent before q x after ht := by
    rcases (upload_runs h₀).sent_cases ht with hq | hq | ⟨release, content, hq, hu, u, hsub, he⟩
    · exact .inl hq
    · exact .inr (.inl hq)
    · obtain ⟨ev, hev, htold⟩ := he.exists_tells
      exact .inr (.inr ⟨release, _, content, hq, (uploadUrl_eq_iff hu).mp rfl, ev, hsub hev, htold⟩)
  silent release := by
    rintro ⟨ev, hev, htold⟩ hs
    obtain ⟨u, he, ⟨-, rfl, hr⟩ | ⟨hu, -⟩⟩ := (upload_runs h₀).of_tells hev htold
    · refine ⟨hr, fun q x hq => ?_⟩
      rcases he.asked _ hq with hq | hq <;> cases hq <;> rfl
    · exact absurd hs.uploadUrl hu
  used release url := by
    rintro ⟨ev, hev, htold⟩ ha
    have hne : url ≠ "" := by rcases ha with ⟨_, _, _, hne⟩ | ⟨_, _, _, _, hne⟩ <;> exact hne
    obtain rfl := (uploadUrl_eq_iff hne).mpr ha
    obtain ⟨u, he, ⟨hu, -⟩ | ⟨-, hused⟩⟩ := (upload_runs h₀).of_tells hev htold
    · exact absurd hu hne
    · exact hused
  rendered _ _ := exists_renders

theorem overtaken_upload_is_addressed :
    let d : Delivery := ⟨ReleaseHost.new "owner/bindings" "https://host", ⟨"v1", "token", none⟩,
      Path.ofString "/work/lib.so", [127, 69], "lib.so"⟩
    let answer := Delivery.oneByOne d.content [.response ⟨404, "", "Not Found", .error "no JSON"⟩,
      .response ⟨422, "", "Unprocessable", .ok (.map [])⟩,
      .response ⟨200, "", "OK", .ok (.map [(.text "upload_url", .text "https://up\x7b?name\x7d")])⟩,
      .response ⟨201, "", "Created", .ok (.map [])⟩]
    ((d.upload.run.trace answer 0).exchanges.map fun e => (e.1.url, e.1.carriesBytes)) =
        [("https://host/repos/owner/bindings/releases/tags/v1", false),
          ("https://host/repos/owner/bindings/releases", false),
          ("https://host/repos/owner/bindings/releases/tags/v1", false), ("https://up", true)] ∧
      Addressed d.host d.file d.asset d.target (d.upload.run.trace answer 0)
        (d.upload.run.runWith answer 0).1.2 := by
  intro d answer
  exact ⟨by decide +kernel, upload_is_addressed (Step.runs_trace answer d.upload 0)⟩

/-- A release that reports null for its address gets the asset and the token sent to "None". -/
theorem null_is_an_address :
    let d : Delivery := ⟨ReleaseHost.new "owner/bindings" "https://host", ⟨"v1", "token", none⟩,
      Path.ofString "/work/lib.so", [127, 69], "lib.so"⟩
    let answer := Delivery.oneByOne d.content
      [.response ⟨200, "", "OK", .ok (.map [(.text "upload_url", .null)])⟩,
        .response ⟨201, "", "Created", .ok (.map [])⟩]
    (d.upload.run.trace answer 0).exchanges.map Prod.fst =
        [d.host.lookupRequest d.target,
          d.host.uploadRequest d.target "None" d.asset d.content] ∧
      (d.upload.run.runWith answer 0).1.2.isOk := by
  intro d answer
  exact ⟨by rfl, by decide +kernel⟩

end ReleaseHost
end BindingRelease
