import BindingRelease.Proofs.Completion
import BindingRelease.Proofs.ConsoleSettings
import BindingRelease.Proofs.Endings
import BindingRelease.Proofs.PercentCoding
import BindingRelease.Proofs.StageOrder
/-!
One tag and one address for a release. The tag that a ref names is what every part of a run on it
goes by: the records, the creation of the release, the host's tool and the report. The release is
looked up under one address segment that stands for the tag, so another tag has another address.
-/
namespace BindingRelease
open Trace Context Text
variable {t : Trace} {j : Journal} {target : Target} {adapter : Adapter} {tag : String}

namespace Text

theorem startsWith_iff {part cs : List Char} : startsWith part cs ↔ part <+: cs := by
  induction part generalizing cs with
  | nil => simp [startsWith]
  | cons p ps ih =>
    cases cs with
    | nil => simp [startsWith]
    | cons c cs => simp [startsWith, ih, List.cons_prefix_cons]

end Text

namespace Target
variable {ref token : String} {repository : Option String}

/-- The tag is the ref without blanks around it, and without the root of tags if that leads it. -/
def Names (ref tag : String) : Prop :=
  strip ref = tagRoot ++ tag ∨ (strip ref = tag ∧ ¬ tagRoot.toList <+: tag.toList)

theorem tagOfRef_names (h : tagOfRef ref = .ok tag) : tag ≠ "" ∧ Names ref tag := by
  have filled {cs : List Char}
      (hcs : (if cs = [] then .error .emptyTag else .ok (String.ofList cs)) =
        (.ok tag : Except ConfigurationError String)) : cs ≠ [] ∧ tag = String.ofList cs := by
    split at hcs
    · cases hcs
    · exact ⟨‹_›, (Except.ok.inj hcs).symm⟩
  unfold tagOfRef at h
  dsimp only at h
  by_cases hroot : startsWith tagRoot.toList (stripChars ref.toList)
  · rw [if_pos hroot] at h
    obtain ⟨hne, rfl⟩ := filled h
    refine ⟨by simpa using hne, .inl ?_⟩
    have hcs : tagRoot.toList ++ (stripChars ref.toList).drop tagRoot.length =
        stripChars ref.toList := List.prefix_iff_eq_append.mp (startsWith_iff.mp hroot)
    calc
      strip ref = String.ofList (stripChars ref.toList) := rfl
      _ = String.ofList (tagRoot.toList ++ (stripChars ref.toList).drop tagRoot.length) := by
        rw [hcs]
      _ = tagRoot ++ String.ofList ((stripChars ref.toList).drop tagRoot.length) := by
        rw [String.ofList_append, String.ofList_toList]
  · rw [if_neg hroot] at h
    split at h
    · cases h
    · obtain ⟨hne, rfl⟩ := filled h
      refine ⟨by simpa using hne, .inr ⟨rfl, ?_⟩⟩
      rw [String.toList_ofList]
      exact fun hp => hroot (startsWith_iff.mpr hp)

theorem tagOfRef_of_ofRef (h : ofRef ref token repository = .ok target) :
    tagOfRef ref = .ok target.tag := by
  unfold ofRef at h
  cases ht : tagOfRef ref with
  | error e =>
    rw [ht] at h
    cases h
  | ok tag =>
    rw [ht] at h
    cases h
    rfl

end Target

def CommandLine.uploadTag? : CommandLine → Option String
  | .words (_ :: object :: verb :: tag :: _) =>
    if object = "release" ∧ verb = "upload" then some tag else none
  | _ => none

theorem CommandLine.uploadTag_of_ne {program object : String} (h : object ≠ "release")
    (rest : List String) :
    CommandLine.uploadTag? (.words (program :: object :: rest)) = none := by
  cases rest with
  | nil => rfl
  | cons verb rest =>
    cases rest with
    | nil => rfl
    | cons tag rest => simp [uploadTag?, h]

/-- Whatever names a release in a request names that of the tag: an upload of the host's tool, the
address of a look-up, which goes on with one segment, and the body of a creation. -/
structure Request.Bears (adapter : Adapter) (tag : String) (q : Request) : Prop where
  process : ∀ p other, q = .start p → p.command.uploadTag? = some other → other = tag
  lookup : ∀ r, q = .send r → r.method = .get → ∃ h segment, adapter = .host h ∧
    IsSegment tag segment ∧
    r.url = h.api ++ "/repos/" ++ h.repository ++ "/releases/tags/" ++ segment
  creation : ∀ r v, q = .send r → r.body = .json v →
    ∃ fields, v = .map fields ∧ Value.lookup fields "tag_name" = some (.text tag)

def Call.Untagged : Call → Prop
  | .process command _ => command.uploadTag? = none
  | .request _ => False

namespace Request

theorem Bears.unique {r r' : HttpRequest} {other : String} (hr : (send r).Bears adapter tag)
    (hr' : (send r').Bears adapter other) (hget : r.method = .get) (hget' : r'.method = .get)
    (hurl : r.url = r'.url) : tag = other := by
  obtain ⟨h, segment, rfl, hs, hu⟩ := hr.lookup r rfl hget
  obtain ⟨h', segment', ha, hs', hu'⟩ := hr'.lookup r' rfl hget'
  obtain rfl : h = h' := Adapter.host.inj ha
  rw [hu, hu'] at hurl
  have hsegment : segment = segment' := by
    have hchars := congrArg String.toList hurl
    simpa [String.toList_append, String.toList_inj] using hchars
  exact hs.unique (hsegment ▸ hs')

theorem bears_aside {q : Request} (hp : ∀ p, q ≠ .start p) (hr : ∀ r, q ≠ .send r) :
    q.Bears adapter tag :=
  ⟨fun p _ hq => absurd hq (hp p), fun r hq => absurd hq (hr r), fun r _ hq => absurd hq (hr r)⟩

theorem bears_start {p : Launch} (h : ∀ other, p.command.uploadTag? = some other → other = tag) :
    (start p).Bears adapter tag where
  process p' other hq := by
    cases hq
    exact h other
  lookup r hq := by cases hq
  creation r v hq := by cases hq

theorem bears_lookup (h : ReleaseHost) (target : Target) :
    (send (h.lookupRequest target)).Bears (.host h) target.tag where
  process p other hq := by cases hq
  lookup r hq _ := by
    cases hq
    exact ⟨h, percentEncode target.tag, rfl, isSegment_percentEncode target.tag, rfl⟩
  creation r v hq hb := by
    cases hq
    cases hb

theorem bears_creation (h : ReleaseHost) (target : Target) :
    (send (h.creationRequest target)).Bears (.host h) target.tag where
  process p other hq := by cases hq
  lookup r hq hget := by
    cases hq
    cases hget
  creation r v hq hb := by
    cases hq
    cases hb
    exact ⟨_, rfl, rfl⟩

theorem bears_attachment (h : ReleaseHost) (target : Target) (url asset : String)
    (content : List UInt8) :
    (send (h.uploadRequest target url asset content)).Bears adapter tag where
  process p other hq := by cases hq
  lookup r hq hget := by
    cases hq
    cases hget
  creation r v hq hb := by
    cases hq
    cases hb

end Request

namespace Trace.Keeps

theorem bears {n m : Nat} {plan : List (Nat × Call)} {through : Prop}
    (h : Keeps n m plan t through) (hp : ∀ x ∈ plan, x.2.Untagged) :
    ∀ ev ∈ t, ev.1.Bears adapter tag := by
  rintro ⟨q, x⟩ hev
  cases q with
  | start p =>
    obtain ⟨y, hy, hc⟩ := h.mem_plan hev rfl
    have hnone : y.2.Untagged := hp y hy
    rw [hc] at hnone
    have hcommand : p.command.uploadTag? = none := hnone
    exact Request.bears_start (by simp [hcommand])
  | send r =>
    obtain ⟨y, hy, hc⟩ := h.mem_plan hev rfl
    have hnone : y.2.Untagged := hp y hy
    rw [hc] at hnone
    exact hnone.elim
  | _ => exact Request.bears_aside nofun nofun

end Trace.Keeps

namespace Adapter

theorem upload_bears {a : Adapter} {ambient : Env} {file : Path} {asset : String}
    {r : Except Failure Upload} (h₀ : (a.upload ambient file asset target).Runs t j r) :
    ∀ ev ∈ t, ev.1.Bears a target.tag := by
  cases a with
  | dryRun =>
    obtain ⟨j', -, h⟩ := Step.runs_log_bind.mp h₀
    obtain ⟨rfl, -⟩ := Step.runs_pure.mp h
    simp
  | tool tool =>
    obtain ⟨x, rfl, -⟩ := HostTool.upload_runs h₀
    have htag : (tool.launch ambient file asset target).command.uploadTag? = some target.tag := rfl
    simpa using Request.bears_start (by simp [htag])
  | host h =>
    intro ev hev
    rcases (ReleaseHost.upload_runs h₀).asked ev hev with hq | hq | hq | ⟨url, content, hq⟩
    · exact hq ▸ Request.bears_lookup h target
    · exact hq ▸ Request.bears_creation h target
    · exact hq ▸ Request.bears_aside nofun nofun
    · exact hq ▸ Request.bears_attachment h target url asset content

end Adapter

namespace Checkout
variable {workspace : Path} {x : Path × List String}

theorem cloneCommands_object {program url : String} {ref : Option String} {submodules : Bool}
    (h : x ∈ cloneCommands program url ref submodules workspace) :
    ∃ object rest, x.2 = program :: object :: rest ∧ object ≠ "release" := by
  rcases List.mem_cons.mp h with rfl | h
  · exact ⟨"clone", _, rfl, by decide⟩
  · split at h
    · obtain rfl := List.mem_singleton.mp h
      exact ⟨"checkout", _, rfl, by decide⟩
    · cases h

theorem commands_object {c : Checkout} {fresh : Bool} (h : x ∈ c.commands workspace fresh) :
    ∃ program object rest, x.2 = program :: object :: rest ∧ object ≠ "release" := by
  cases c with
  | existing => cases h
  | git url ref submodules program =>
    rcases List.mem_append.mp h with h | h
    · split at h
      · split at h
        · exact ⟨program, cloneCommands_object h⟩
        · cases h
      · cases h
    · split at h
      · obtain rfl := List.mem_singleton.mp h
        exact ⟨program, "submodule", _, rfl, by decide⟩
      · cases h

end Checkout

namespace Surroundings
variable {s : Surroundings} {schedule : List Nat} {m : Matrix}

theorem provisionCalls_untagged (host version language : String) :
    ∀ c ∈ s.provisionCalls host version language, c.Untagged := by
  intro c hc
  cases List.mem_append.mp hc with
  | inl h =>
    split at h
    · unfold CompilerInstaller.calls at h
      split at h
      · cases h
      · split at h
        · cases List.mem_singleton.mp h
          rfl
        · cases h
    · cases h
  | inr h =>
    cases List.mem_singleton.mp h
    exact CommandLine.uploadTag_of_ne (by decide) _

theorem checkoutCalls_untagged (c : Checkout) (workspace : Path) (fresh : Bool) :
    ∀ x ∈ c.calls workspace fresh, x.Untagged := by
  intro x hx
  obtain ⟨y, hy, rfl⟩ := List.mem_map.mp hx
  obtain ⟨program, object, rest, hwords, hne⟩ := Checkout.commands_object hy
  rw [hwords]
  exact CommandLine.uploadTag_of_ne hne rest

theorem releasePlan_untagged (e : Entry) (fresh : Bool) :
    ∀ x ∈ s.releasePlan e fresh, x.2.Untagged := by
  intro x hx
  cases List.mem_append.mp hx with
  | inl h =>
    rcases List.mem_append.mp h with h | h
    · exact provisionCalls_untagged _ _ _ _ (snd_mem_of_mem_stamped h)
    · exact checkoutCalls_untagged _ _ _ _ (snd_mem_of_mem_stamped h)
  | inr h =>
    rw [List.mem_singleton.mp (snd_mem_of_mem_stamped h)]
    have hscript : "tools/" ++ e.script ≠ "release" := by
      intro he
      have hchars := congrArg String.toList he
      simp at hchars
    exact CommandLine.uploadTag_of_ne hscript _

theorem releaseContext_bears {e : Entry} {o : Outcome}
    (h₀ : (s.releaseContext target e).Runs t o) :
    ∀ ev ∈ t, ev.1.Bears s.collaborators.adapter target.tag := by
  obtain ⟨j, f, r, h, -⟩ := runs_finish h₀
  rcases releases_cases (releaseStages_runs h) with
    ⟨stop, -, hearly⟩ | ⟨u, v, k, x, rfl, hreached, hupload, -⟩
  · obtain ⟨fresh, hkeeps⟩ := endsEarly_keeps hearly
    exact hkeeps.bears (releasePlan_untagged e fresh)
  · obtain ⟨fresh, hkeeps⟩ := reaches_keeps hreached
    have hbefore : ∀ ev ∈ u, ev.1.Bears s.collaborators.adapter target.tag :=
      hkeeps.bears (releasePlan_untagged e fresh)
    exact List.forall_mem_append.mpr ⟨hbefore, Adapter.upload_bears hupload⟩

theorem release_bears {r : Except Failure (List Report)}
    (h₀ : (s.release schedule m target).Runs t j r) :
    (∀ ev ∈ t, ev.1.Bears s.collaborators.adapter target.tag) ∧
      ∀ rs, r = .ok rs → ∀ report ∈ rs, ∀ u, report.upload = some u → u.tag = target.tag := by
  constructor
  · obtain ⟨j', -, h⟩ := Step.runs_note_bind.mp h₀
    refine fanOut_asks (Request.bears_aside nofun nofun) (fun p hp u o hrun => ?_) h
    obtain ⟨e, -, rfl⟩ := List.mem_map.mp hp
    exact releaseContext_bears hrun
  · rintro rs rfl
    have hreports : List.Forall₂ (s.ReleaseReport · target ·) m.entries rs :=
      release_each (fun _ _ _ _ => releaseContext_report) h₀
    refine Report.forall_of_forall₂ (hreports.imp fun e report h u hu => ?_)
    obtain ⟨i, -, hnames⟩ := h.named u hu
    exact hnames.tag

end Surroundings

namespace ReleaseHost

def IsBase (api base : String) : Prop :=
  (∃ n, api.toList = base.toList ++ List.replicate n '/') ∧ base.toList.getLast? ≠ some '/'

theorem withoutTrailingSlashes_base (cs : List Char) :
    (∃ n, cs = withoutTrailingSlashes cs ++ List.replicate n '/') ∧
      (withoutTrailingSlashes cs).getLast? ≠ some '/' := by
  have hparts := List.takeWhile_append_dropWhile (p := (· == '/')) (l := cs.reverse)
  have hslashes : cs.reverse.takeWhile (· == '/') =
      List.replicate (cs.reverse.takeWhile (· == '/')).length '/' := by
    refine List.eq_replicate_of_mem fun c hc => ?_
    simpa using List.all_eq_true.mp List.all_takeWhile c hc
  constructor
  · refine ⟨(cs.reverse.takeWhile (· == '/')).length, ?_⟩
    have hcs := congrArg List.reverse hparts
    rw [List.reverse_append, List.reverse_reverse, hslashes, List.reverse_replicate] at hcs
    simpa [withoutTrailingSlashes] using hcs.symm
  · intro hlast
    rw [withoutTrailingSlashes, List.getLast?_reverse] at hlast
    have hhead := List.head?_dropWhile_not (· == '/') cs.reverse
    simp [hlast] at hhead

theorem new_base (repository api : String) : IsBase api (new repository api).api := by
  unfold IsBase new
  rw [String.toList_ofList]
  exact withoutTrailingSlashes_base api.toList

end ReleaseHost

namespace Command
open Step
variable {place : Place} {run : RunChoices} {c : ReleaseChoices} {s : Settings}
  {schedule : List Nat}

def refFor (c : ReleaseChoices) (s : Settings) : Option String :=
  (c.ref.filter (· ≠ "")).or (s.ref.filter (· ≠ ""))

theorem tagOfRef_of_target {ref : String} {needsToken : Bool} (href : refFor c s = some ref)
    (h : s.target c.ref place.env needsToken = .ok target) :
    Target.tagOfRef ref = .ok target.tag := by
  unfold Settings.target at h
  rw [show (c.ref.filter (· ≠ "")).or (s.ref.filter (· ≠ "")) = some ref from href] at h
  dsimp only at h
  split at h
  · cases h
  · exact Target.tagOfRef_of_ofRef h

theorem runRelease_tag {ref : String} {o : Ending}
    (hs : (settings place run [("repository", .ofOption c.repository),
      ("token_env", .text c.tokenVariable)]).Runs [] .empty (.ok s))
    (href : refFor c s = some ref) (htag : Target.tagOfRef ref = .ok tag)
    (h₀ : (runRelease schedule place run c).Runs t j (.ok o)) :
    ∃ fields, o.output = (Value.object (("tag", .text tag) :: fields)).json ++ "\n" := by
  rcases runRelease_runs h₀ with
    ⟨e, he, -⟩ | ⟨s', m, target, adapter, u, v, k, hc, rfl, -, h₁⟩
  · cases he
  have hsettings : s = s' := by
    obtain ⟨-, -, he⟩ := Program.runs_parts hs hc.settings (rfl : [] ++ [] = [] ++ [])
    cases he
    rfl
  subst hsettings
  have htarget : target.tag = tag :=
    Except.ok.inj ((tagOfRef_of_target href hc.target).symm.trans htag)
  rcases runs_bind.mp h₁ with ⟨e, he, -⟩ | ⟨t₁, t₂, j₁, j₂, rs, rfl, rfl, -, h₂⟩
  · cases he
  obtain ⟨time, w, rfl, h₃⟩ := runs_ask_bind.mp h₂
  obtain ⟨-, -, ho⟩ := runs_pure.mp h₃
  cases ho
  exact ⟨_, by rw [← htarget]; rfl⟩

end Command

/-- A ref that is accepted names a tag, and this tag is all that a run on it goes by. Whatever
names a release in a request names that of the tag, and so do the records and the report; look-ups
of one address are for one tag, and the address stands on the base without slashes at its end. -/
theorem Target.one_tag_one_address {ref token : String} {repository : Option String}
    {target : Target} (hr : Target.ofRef ref token repository = .ok target) :
    (target.tag ≠ "" ∧ Target.Names ref target.tag) ∧
    (∀ s schedule m t j r, (Surroundings.release s schedule m target).Runs t j r →
      (∀ ev ∈ t, ev.1.Bears s.collaborators.adapter target.tag) ∧
        ∀ rs, r = .ok rs → ∀ report ∈ rs, ∀ u, report.upload = some u → u.tag = target.tag) ∧
    (∀ schedule place run c s t j o,
      (Command.settings place run [("repository", .ofOption c.repository),
        ("token_env", .text c.tokenVariable)]).Runs [] .empty (.ok s) →
      Command.refFor c s = some ref → (Command.runRelease schedule place run c).Runs t j (.ok o) →
        ∃ fields, o.output = (Value.object (("tag", .text target.tag) :: fields)).json ++ "\n") ∧
    (∀ repository api, ReleaseHost.IsBase api (ReleaseHost.new repository api).api) ∧
    ∀ adapter (r r' : HttpRequest) other, (Request.send r).Bears adapter target.tag →
      (Request.send r').Bears adapter other → r.method = .get → r'.method = .get →
        r.url = r'.url → target.tag = other := by
  have htag : Target.tagOfRef ref = .ok target.tag := Target.tagOfRef_of_ofRef hr
  refine ⟨Target.tagOfRef_names htag, ?_, ?_, ReleaseHost.new_base, ?_⟩
  · intro s schedule m t j r h₀
    exact Surroundings.release_bears h₀
  · intro schedule place run c s t j o hs href h₀
    exact Command.runRelease_tag hs href htag h₀
  · intro adapter r r' other hbears hbears' hget hget' hurl
    exact hbears.unique hbears' hget hget' hurl

open Simulation in
/-- A tag with a slash, a number sign and more is one segment of the address that is looked up. -/
theorem Target.oddTag_has_one_address :
    let ref := " refs/tags/v1.0/\u00fc#? x\n"
    let target : Target := ⟨"v1.0/\u00fc#? x", "secret", none⟩
    let host := ReleaseHost.new "o/r" "https://api.github.com//"
    let s : Surroundings := { Surroundings.dryRun (Path.ofString "/work") true with
      collaborators := { Collaborators.standard with adapter := .host host } }
    let matrix : Matrix := ⟨[⟨"ubuntu-latest", "lib.so", "build.sh", none⟩], by decide⟩
    let page := "https://api.github.com/repos/o/r/releases"
    let place : Command.Place := ⟨Path.ofString "/work", .empty⟩
    let run : RunChoices := ⟨none, "dart-ffi", none, "", true, 1⟩
    let c : ReleaseChoices := ⟨none, some ref, [], some "ubuntu-latest", "gh", none, "TOKEN", true⟩
    Target.ofRef ref "secret" none = .ok target ∧ Target.Names ref target.tag ∧
    (∃ t j rs, (s.release [] matrix target).Runs t j (.ok rs) ∧
      (t.filterMap fun ev => match ev.1 with
        | .send r => some r.url
        | _ => none) =
        [page ++ "/tags/v1.0%2F%C3%BC%23%3F%20x", page, "https://uploads"] ∧
      (∀ ev ∈ t, ev.1.Bears (.host host) target.tag) ∧
      ∀ report ∈ rs, ∀ u, report.upload = some u → u.tag = target.tag) ∧
    (∃ t j o fields, (Command.runRelease [] place run c).Runs t j (.ok o) ∧
      o.output = (Value.object (("tag", .text target.tag) :: fields)).json ++ "\n") ∧
    ReleaseHost.IsBase "https://api.github.com//" "https://api.github.com" := by
  intro ref target host s matrix page place run c
  have hr : Target.ofRef ref "secret" none = .ok target := by
    obtain ⟨target', hr, rfl⟩ : ∃ target', Target.ofRef ref "secret" none = .ok target' ∧
        target' = target := exists_of_toOption (by decide +kernel)
    exact hr
  obtain ⟨⟨-, hnames⟩, hruns, hcommands, hbase, -⟩ := Target.one_tag_one_address hr
  let answer (status : Int) (json : Except String Value) : ScriptedAnswer :=
    ⟨false, .response ⟨status, "", "", json⟩⟩
  let world : World :=
    { cwd := Path.ofString "/work", clock := "",
      tree := FileTree.empty.put ["work", "dart-ffi", "lib.so"] (.file [] false), rules := [],
      answers := [answer 404 (.error ""),
        answer 201 (.ok (.object [("upload_url", .text "https://uploads\x7b?name\x7d")])),
        answer 201 (.ok (.object []))],
      cancelled := false, started := [], sent := [] }
  refine ⟨hr, hnames, ?_, ?_, hbase "o/r" "https://api.github.com//"⟩
  · have h₀ := Step.runs_trace World.answer (s.release [] matrix target) world
    obtain ⟨rs, hrs, -⟩ : ∃ rs,
        ((s.release [] matrix target).run.runWith World.answer world).1.2 = .ok rs ∧
          rs.length = 1 :=
      exists_of_toOption (by decide +kernel)
    rw [hrs] at h₀
    obtain ⟨hbears, hrecords⟩ := hruns s [] matrix _ _ _ h₀
    exact ⟨_, _, rs, h₀, by decide +kernel, hbears, hrecords rs rfl⟩
  · let obliged (r : Request) (_ : Unit) : r.Answer × Unit := (Surroundings.obliging r, ())
    obtain ⟨settings, hs⟩ := @Command.exists_releaseSettings place run c
    obtain ⟨t, j, o, h₀, -⟩ : ∃ t j o, (Command.runRelease [] place run c).Runs t j (.ok o) ∧
        o.status = 0 :=
      Step.exists_runs obliged () (by decide +kernel)
    have href : Command.refFor c settings = some ref := rfl
    -- The values have done their part; with them the run would be computed once more.
    clear_value place run c
    obtain ⟨fields, ho⟩ := hcommands [] place run c settings t j o
      (hs ▸ Step.runs_pure.mpr ⟨rfl, rfl, rfl⟩) href h₀
    exact ⟨t, j, o, fields, h₀, ho⟩

end BindingRelease
