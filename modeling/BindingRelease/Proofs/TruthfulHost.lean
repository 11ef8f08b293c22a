import BindingRelease.Proofs.HostUploads
import BindingRelease.Proofs.Interleaving
/-!
A release host that answers every request at once and truthfully, and an upload to it while others
upload too. What others do to the release is to make it and to attach assets of other names; the
upload is successful whenever they do it, also between its look-up and its creation.
-/
namespace BindingRelease
open Trace
variable {σ : Type}

/-- What a release host has for one tag, and how often the release was made. -/
structure Shelf where
  released : Bool
  assets : List String
  creations : Nat
  deriving DecidableEq, Repr

namespace Shelf
variable {asset : String} {a b c : Shelf}

/-- How the shelf may change between two requests of one uploader. -/
structure Rely (asset : String) (a b : Shelf) : Prop where
  released : a.released = true → b.released = true
  count : b.assets.count asset = a.assets.count asset

theorem Rely.refl (asset : String) (a : Shelf) : Rely asset a a := ⟨id, rfl⟩

theorem Rely.trans (h : Rely asset a b) (h' : Rely asset b c) : Rely asset a c :=
  ⟨fun hr => h'.released (h.released hr), h'.count.trans h.count⟩

end Shelf

namespace ReleaseHost

def beforeBrace (text : String) : String :=
  String.ofList (text.toList.takeWhile (· != '{'))

def TextOrAbsent (fields : Fields) (name : String) : Prop :=
  ∀ v, Value.lookup fields name = some v → ∃ text, v = .text text

/-- An object that addresses the release. -/
structure Addresses (address : String → Prop) (release : Fields) : Prop where
  upload : ∃ text, Value.lookup release "upload_url" = some (.text text) ∧
    beforeBrace text ≠ "" ∧ address (beforeBrace text)
  page : TextOrAbsent release "html_url"

/-- The host answers every request at once and truthfully, where `view` is what it has for the tag
and `address` says which addresses are those of the release. No other request changes what it
has. -/
structure Truthful (h : ReleaseHost) (target : Target)
    (answer : (r : Request) → σ → r.Answer × σ) (view : σ → Shelf) (address : String → Prop) :
    Prop where
  lookup : ∀ w, ∃ a, (answer (.send (h.lookupRequest target)) w).1 = .response a ∧
    view (answer (.send (h.lookupRequest target)) w).2 = view w ∧
    if (view w).released then
      a.status = 200 ∧ ∃ release, a.json = .ok (.map release) ∧ Addresses address release
    else a.status = 404
  creation : ∀ w, ∃ a, (answer (.send (h.creationRequest target)) w).1 = .response a ∧
    if (view w).released then
      a.status = 422 ∧ view (answer (.send (h.creationRequest target)) w).2 = view w
    else
      (a.status = 201 ∧ ∃ release, a.json = .ok (.map release) ∧ Addresses address release) ∧
        view (answer (.send (h.creationRequest target)) w).2 =
          { view w with released := true, creations := (view w).creations + 1 }
  attachment : ∀ url asset content w, address url →
    ∃ a, (answer (.send (h.uploadRequest target url asset content)) w).1 = .response a ∧
      if (view w).released = true ∧ asset ∉ (view w).assets then
        (a.status = 201 ∧ ∃ fields, a.json = .ok (.map fields) ∧
          TextOrAbsent fields "browser_download_url") ∧
        view (answer (.send (h.uploadRequest target url asset content)) w).2 =
          { view w with assets := asset :: (view w).assets }
      else
        ((view w).released = true → a.status = 422) ∧
          view (answer (.send (h.uploadRequest target url asset content)) w).2 = view w
  aside : ∀ r w, (∀ q, r ≠ .send q) → view (answer r w).2 = view w

/-- What an uploader of an asset may do. -/
inductive Asks (h : ReleaseHost) (target : Target) (address : String → Prop) (asset : String) :
    Event → Prop
  | lookup {x} : Asks h target address asset ⟨.send (h.lookupRequest target), x⟩
  | creation {x} : Asks h target address asset ⟨.send (h.creationRequest target), x⟩
  | attachment {url content x} (hu : address url) :
      Asks h target address asset ⟨.send (h.uploadRequest target url asset content), x⟩
  | aside {ev} (hs : ∀ q, ev.1 ≠ .send q) : Asks h target address asset ev

/-- An event of one uploader, before which the others may have changed the shelf. -/
def Beside (answer : (r : Request) → σ → r.Answer × σ) (view : σ → Shelf) (asset : String) :
    σ → Event → σ → Prop :=
  Disturbed (fun a b => Shelf.Rely asset (view a) (view b)) (Program.Answered answer)

def Answers (answer : (r : Request) → σ → r.Answer × σ) (t : Trace) : Prop :=
  ∀ ev ∈ t, ∃ w, ev.2 = (answer ev.1 w).1

variable {h : ReleaseHost} {target : Target} {answer : (r : Request) → σ → r.Answer × σ}
  {view : σ → Shelf} {address : String → Prop} {asset : String} {w w' : σ} {t : Trace}

theorem Addresses.uploadUrl {release : Fields} (h : Addresses address release) :
    uploadUrl release ≠ "" ∧ address (ReleaseHost.uploadUrl release) := by
  obtain ⟨text, ht, hn, ha⟩ := h.upload
  have hu : ReleaseHost.uploadUrl release = beforeBrace text := by
    simp [ReleaseHost.uploadUrl, ht, Value.plain, beforeBrace]
  rw [hu]
  exact ⟨hn, ha⟩

def TextOrNull (fields : Fields) (name : String) : Prop :=
  ∀ v, Value.lookup fields name = some v → v = .null ∨ ∃ text, v = .text text

theorem TextOrAbsent.orNull {fields : Fields} {name : String} (h : TextOrAbsent fields name) :
    TextOrNull fields name :=
  fun v hv => .inr (h v hv)

theorem exists_page {release answer : Fields} (hr : TextOrNull release "html_url")
    (ha : TextOrNull answer "browser_download_url") :
    ∃ page, Schema.nullable Schema.text (assetPage release answer) = .ok page := by
  have own : ∃ page, Schema.nullable Schema.text
      ((Value.lookup release "html_url").getD .null) = .ok page := by
    cases hv : Value.lookup release "html_url" with
    | none => exact ⟨none, rfl⟩
    | some v =>
      obtain rfl | ⟨text, rfl⟩ := hr v hv
      · exact ⟨none, rfl⟩
      · exact ⟨some text, rfl⟩
  unfold assetPage
  cases hv : Value.lookup answer "browser_download_url" with
  | none => exact own
  | some v =>
    obtain rfl | ⟨text, rfl⟩ := ha v hv
    · simpa only [Value.truthy, Bool.false_eq_true, if_false] using own
    by_cases ht : (Value.text text).truthy
    · exact ⟨some text, by simp only [ht, if_true]; rfl⟩
    · simpa only [ht, Bool.false_eq_true, if_false] using own

namespace Truthful

theorem lookupOutcome (hw : Truthful h target answer view address) (w : σ) :
    ((view w).released = true ∧ ∃ release, Addresses address release ∧
      h.lookupOutcome target (answer (.send (h.lookupRequest target)) w).1 = .ok (some release)) ∨
    ((view w).released = false ∧
      h.lookupOutcome target (answer (.send (h.lookupRequest target)) w).1 = .ok none) := by
  obtain ⟨a, hx, -, ha⟩ := hw.lookup w
  rw [hx]
  cases hr : (view w).released with
  | true =>
    rw [hr, if_pos rfl] at ha
    obtain ⟨hs, release, hj, had⟩ := ha
    exact .inl ⟨rfl, release, had, by simp [ReleaseHost.lookupOutcome, hs, fieldsOf_of_json hj,
      Except.map]⟩
  | false =>
    rw [hr] at ha
    have hs : a.status = 404 := by simpa using ha
    exact .inr ⟨rfl, by simp [ReleaseHost.lookupOutcome, hs]⟩

theorem creationAnswer (hw : Truthful h target answer view address) (w : σ) :
    (view (answer (.send (h.creationRequest target)) w).2).released = true ∧
      (view (answer (.send (h.creationRequest target)) w).2).assets = (view w).assets ∧
      ∃ a, (answer (.send (h.creationRequest target)) w).1 = .response a ∧
        (a.status = 422 ∨
          a.status = 201 ∧ ∃ release, Addresses address release ∧ fieldsOf a = .ok release) := by
  obtain ⟨a, hx, ha⟩ := hw.creation w
  cases hr : (view w).released with
  | true =>
    rw [hr, if_pos rfl] at ha
    obtain ⟨hs, hv⟩ := ha
    rw [hv]
    exact ⟨hr, rfl, a, hx, .inl hs⟩
  | false =>
    rw [hr, if_neg (by simp)] at ha
    obtain ⟨⟨hs, release, hj, had⟩, hv⟩ := ha
    rw [hv]
    exact ⟨rfl, rfl, a, hx, .inr ⟨hs, release, had, fieldsOf_of_json hj⟩⟩

theorem rely_of_asks (hw : Truthful h target answer view address) {other : String}
    (ho : other ≠ asset) {ev : Event} (he : Asks h target address asset ev)
    (hs : Program.Answered answer w ev w') : Shelf.Rely other (view w) (view w') := by
  obtain ⟨-, rfl⟩ := hs
  cases he with
  | lookup =>
    obtain ⟨a, -, hv, -⟩ := hw.lookup w
    rw [hv]
    exact .refl _ _
  | creation =>
    obtain ⟨hr, has, -⟩ := hw.creationAnswer w
    exact ⟨fun _ => hr, by rw [has]⟩
  | @attachment url content x hu =>
    obtain ⟨a, -, ha⟩ := hw.attachment url asset content w hu
    split at ha
    · rw [ha.2]
      exact ⟨id, List.count_cons_of_ne (Ne.symm ho)⟩
    · rw [ha.2]
      exact .refl _ _
  | aside hn =>
    rw [hw.aside _ w hn]
    exact .refl _ _

theorem balance_of_asks (hw : Truthful h target answer view address) {ev : Event}
    (he : Asks h target address asset ev) (hs : Program.Answered answer w ev w') :
    (view w').creations + (view w).released.toNat =
      (view w).creations + (view w').released.toNat := by
  obtain ⟨-, rfl⟩ := hs
  cases he with
  | lookup =>
    obtain ⟨a, -, hv, -⟩ := hw.lookup w
    rw [hv]
  | creation =>
    obtain ⟨a, -, ha⟩ := hw.creation w
    cases hr : (view w).released with
    | true =>
      rw [hr, if_pos rfl] at ha
      rw [ha.2, hr]
    | false =>
      rw [hr, if_neg (by simp)] at ha
      rw [ha.2]
      rfl
  | @attachment url content x hu =>
    obtain ⟨a, -, ha⟩ := hw.attachment url asset content w hu
    split at ha
    · rw [ha.2]
    · rw [ha.2]
  | aside hn => rw [hw.aside _ w hn]

theorem lookup_beside (hw : Truthful h target answer view address) {x : HttpResult}
    (hs : Beside answer view asset w ⟨.send (h.lookupRequest target), x⟩ w') :
    Shelf.Rely asset (view w) (view w') ∧
      (((view w').released = true ∧ ∃ release, h.lookupOutcome target x = .ok (some release)) ∨
        ((view w).released = false ∧ h.lookupOutcome target x = .ok none)) := by
  obtain ⟨m, hm, hx, rfl⟩ := hs
  obtain rfl : x = (answer (.send (h.lookupRequest target)) m).1 := hx
  obtain ⟨-, -, hv, -⟩ := hw.lookup m
  rw [hv]
  refine ⟨hm, ?_⟩
  rcases hw.lookupOutcome m with ⟨hr, release, -, ho⟩ | ⟨hr, ho⟩
  · exact .inl ⟨hr, release, ho⟩
  · refine .inr ⟨?_, ho⟩
    cases hb : (view w).released with
    | false => rfl
    | true =>
      rw [hm.released hb] at hr
      cases hr

theorem creation_beside (hw : Truthful h target answer view address) {x : HttpResult}
    (hs : Beside answer view asset w ⟨.send (h.creationRequest target), x⟩ w') :
    Shelf.Rely asset (view w) (view w') ∧ (view w').released = true ∧
      ∃ a, x = .response a ∧
        (a.status = 422 ∨ a.status = 201 ∧ ∃ release, fieldsOf a = .ok release) := by
  obtain ⟨m, hm, hx, rfl⟩ := hs
  obtain rfl : x = (answer (.send (h.creationRequest target)) m).1 := hx
  obtain ⟨hr, has, a, ha, hc⟩ := hw.creationAnswer m
  refine ⟨hm.trans ⟨fun _ => hr, by rw [has]⟩, hr, a, ha, ?_⟩
  rcases hc with hc | ⟨hc, release, -, hf⟩
  · exact .inl hc
  · exact .inr ⟨hc, release, hf⟩

theorem attachment_beside (hw : Truthful h target answer view address) {url : String}
    {content : List UInt8} {x : HttpResult} (hu : address url)
    (hr : (view w).released = true) (hc : (view w).assets.count asset = 0)
    (hs : Beside answer view asset w
      ⟨.send (h.uploadRequest target url asset content), x⟩ w') :
    (view w').released = true ∧ (view w').assets.count asset = 1 ∧
      ∃ a fields, x = .response a ∧ a.status = 201 ∧ fieldsOf a = .ok fields ∧
        TextOrAbsent fields "browser_download_url" := by
  obtain ⟨m, hm, hx, rfl⟩ := hs
  obtain rfl : x = (answer (.send (h.uploadRequest target url asset content)) m).1 := hx
  obtain ⟨a, ha, hif⟩ := hw.attachment url asset content m hu
  have hcm : (view m).assets.count asset = 0 := hm.count.trans hc
  rw [if_pos ⟨hm.released hr, List.count_eq_zero.mp hcm⟩] at hif
  obtain ⟨⟨hst, fields, hj, ht⟩, hv⟩ := hif
  dsimp only
  rw [hv]
  refine ⟨hm.released hr, ?_, a, fields, ha, hst, fieldsOf_of_json hj, ht⟩
  rw [List.count_cons_self, hcm]

theorem aside_beside (hw : Truthful h target answer view address) {ev : Event}
    (hs : Beside answer view asset w ev w') (hn : ∀ q, ev.1 ≠ .send q) :
    Shelf.Rely asset (view w) (view w') := by
  obtain ⟨m, hm, -, rfl⟩ := hs
  rw [hw.aside _ m hn]
  exact hm

/-- Whatever the others do, an uploader gets the release. -/
theorem ensures_beside (hw : Truthful h target answer view address) {r : Except Failure Fields}
    (h₀ : h.Ensures target t r) (hl : Leads (Beside answer view asset) w t w') :
    Shelf.Rely asset (view w) (view w') ∧ (view w').released = true ∧
      ∃ release, r = .ok release := by
  cases h₀ with
  | unknown hx =>
    obtain ⟨_, hs, rfl⟩ := hl
    obtain ⟨-, ⟨-, release, ho⟩ | ⟨-, ho⟩⟩ := hw.lookup_beside hs
    · rw [hx] at ho
      cases ho
    · rw [hx] at ho
      cases ho
  | known hx =>
    obtain ⟨_, hs, rfl⟩ := hl
    obtain ⟨hv, ⟨hr, -⟩ | ⟨-, ho⟩⟩ := hw.lookup_beside hs
    · exact ⟨hv, hr, _, rfl⟩
    · rw [hx] at ho
      cases ho
  | unanswered hx hy =>
    obtain ⟨_, -, _, hs, rfl⟩ := hl
    obtain ⟨-, -, a, ha, -⟩ := hw.creation_beside hs
    cases ha
    cases hy
  | created hx ha =>
    obtain ⟨_, hs₁, _, hs₂, rfl⟩ := hl
    obtain ⟨hv₁, -⟩ := hw.lookup_beside hs₁
    obtain ⟨hv₂, hr, a, he, hc⟩ := hw.creation_beside hs₂
    cases he
    rcases hc with hc | ⟨-, hf⟩
    · rw [ha] at hc
      cases hc
    · exact ⟨hv₁.trans hv₂, hr, hf⟩
  | refused hx h₁ h₂ =>
    obtain ⟨_, -, _, hs, rfl⟩ := hl
    obtain ⟨-, -, a, he, hc⟩ := hw.creation_beside hs
    cases he
    rcases hc with hc | ⟨hc, -⟩
    · exact absurd hc h₂
    · exact absurd hc h₁
  | lost hx ha hy =>
    obtain ⟨_, -, _, -, _, hs, rfl⟩ := hl
    obtain ⟨-, ⟨-, release, ho⟩ | ⟨-, ho⟩⟩ := hw.lookup_beside hs
    · rw [hy] at ho
      cases ho
    · rw [hy] at ho
      cases ho
  | overtaken hx ha hy =>
    obtain ⟨_, hs₁, _, hs₂, _, hs₃, rfl⟩ := hl
    obtain ⟨hv₁, -⟩ := hw.lookup_beside hs₁
    obtain ⟨hv₂, hr, -⟩ := hw.creation_beside hs₂
    obtain ⟨hv₃, -⟩ := hw.lookup_beside hs₃
    exact ⟨(hv₁.trans hv₂).trans hv₃, hv₃.released hr, _, rfl⟩
  | vanished hx ha hy =>
    -- the creation was refused because there is a release, and releases stay
    obtain ⟨_, -, _, hs₂, _, hs₃, rfl⟩ := hl
    obtain ⟨-, hr, -⟩ := hw.creation_beside hs₂
    obtain ⟨-, ⟨-, release, ho⟩ | ⟨hn, -⟩⟩ := hw.lookup_beside hs₃
    · rw [hy] at ho
      cases ho
    · rw [hr] at hn
      cases hn

theorem ensures_addressed (hw : Truthful h target answer view address) {release : Fields}
    (h₀ : h.Ensures target t (.ok release)) (ha : Answers answer t) :
    Addresses address release := by
  have looked {x : HttpResult} (hx : h.lookupOutcome target x = .ok (some release))
      (hm : ⟨.send (h.lookupRequest target), x⟩ ∈ t) : Addresses address release := by
    obtain ⟨m, hxm⟩ := ha _ hm
    obtain rfl : x = (answer (.send (h.lookupRequest target)) m).1 := hxm
    rcases hw.lookupOutcome m with ⟨-, release', had, ho⟩ | ⟨-, ho⟩
    · rw [hx] at ho
      cases ho
      exact had
    · rw [hx] at ho
      cases ho
  generalize hr : Except.ok release = r at h₀
  cases h₀ with
  | known hx =>
    cases hr
    exact looked hx (by simp)
  | @created x a hx hst =>
    obtain ⟨m, hxm⟩ := ha ⟨.send (h.creationRequest target), HttpResult.response a⟩ (by simp)
    obtain ⟨-, -, b, hb, hc⟩ := hw.creationAnswer m
    obtain rfl : a = b := HttpResult.response.inj (Eq.trans hxm hb)
    rcases hc with hc | ⟨-, release', had, hf⟩
    · rw [hst] at hc
      cases hc
    · rw [hf] at hr
      cases hr
      exact had
  | overtaken hx hst hy =>
    cases hr
    exact looked hy (by simp)
  | unknown | unanswered | refused | lost | vanished => cases hr

/-- Whatever the others do, an asset of a new name is attached, once. -/
theorem uploads_beside (hw : Truthful h target answer view address) {file : Path}
    {r : Except Failure Upload} (h₀ : h.Uploads file asset target t r) (ha : Answers answer t)
    (hl : Leads (Beside answer view asset) w t w')
    (hread : ∀ m, ∃ content, (answer (.readFile file) m).1 = .ok content)
    (hnew : (view w).assets.count asset = 0) :
    (view w').released = true ∧ (view w').assets.count asset = 1 ∧
      ∃ page, r = .ok ⟨file, asset, target.tag, "github", Upload.succeeded, page⟩ := by
  cases h₀ with
  | unreached he =>
    obtain ⟨-, -, release, hr⟩ := hw.ensures_beside he hl
    cases hr
  | unaddressed he hu =>
    exact absurd hu (hw.ensures_addressed he ha).uploadUrl.1
  | @unreadable t₁ release e he hu =>
    obtain ⟨m, hm⟩ := ha ⟨.readFile file, Except.error e⟩ (by simp)
    obtain ⟨content, hc⟩ := hread m
    have hc : Except.error e = .ok content := Eq.trans hm hc
    cases hc
  | @sent t₁ release content x he hu =>
    have had := hw.ensures_addressed he fun ev hev => ha ev (List.mem_append_left _ hev)
    obtain ⟨m, hl₁, n, hs₁, p, hs₂, rfl⟩ := leads_append.mp hl
    obtain ⟨hv, hr, -⟩ := hw.ensures_beside he hl₁
    have hn := hw.aside_beside hs₁ nofun
    have hc := (hv.trans hn).count.trans hnew
    obtain ⟨hr', hc', a, fields, rfl, hst, hf, ht⟩ :=
      hw.attachment_beside had.uploadUrl.2 (hn.released hr) hc hs₂
    obtain ⟨page, hp⟩ := exists_page had.page.orNull ht.orNull
    refine ⟨hr', hc', page, ?_⟩
    simp [attachmentOutcome, hst, hf, Except.bind, attachmentRecord, hp]

theorem uploads_asks (hw : Truthful h target answer view address) {file : Path}
    {r : Except Failure Upload} (h₀ : h.Uploads file asset target t r) (ha : Answers answer t) :
    ∀ ev ∈ t, Asks h target address asset ev := by
  have ensured {t : Trace} {r : Except Failure Fields} (he : h.Ensures target t r) :
      ∀ ev ∈ t, Asks h target address asset ev := by
    rintro ⟨q, x⟩ hev
    obtain rfl | rfl : q = .send (h.lookupRequest target) ∨
        q = .send (h.creationRequest target) := he.asked _ hev
    · exact .lookup
    · exact .creation
  cases h₀ with
  | unreached he => exact ensured he
  | unaddressed he => exact ensured he
  | unreadable he =>
    intro ev hev
    cases List.mem_append.mp hev with
    | inl h' => exact ensured he ev h'
    | inr h' =>
      cases List.mem_singleton.mp h'
      exact .aside nofun
  | sent he =>
    have had := hw.ensures_addressed he fun ev hev => ha ev (List.mem_append_left _ hev)
    intro ev hev
    cases List.mem_append.mp hev with
    | inl h' => exact ensured he ev h'
    | inr h' =>
      simp only [List.mem_cons, List.not_mem_nil, or_false] at h'
      rcases h' with rfl | rfl
      · exact .aside nofun
      · exact .attachment had.uploadUrl.2

end Truthful

end ReleaseHost
end BindingRelease
