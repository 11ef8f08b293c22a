import BindingRelease.Console
import BindingRelease.Proofs.CommandLines
import BindingRelease.Proofs.Selection
import BindingRelease.Proofs.Steps
import BindingRelease.Simulation.World
/-!
The jobs of a rendered release workflow, and what their command lines select. A job's line names
its artifact and no matrix file, so it is looked up in the built-in matrix, whatever matrix the
workflow was rendered from.
-/
namespace BindingRelease

namespace Value

def field? (name : String) : Value → Option Value
  | map es => lookup es name
  | _ => none

def at? (v : Value) (names : List String) : Option Value :=
  names.foldlM (fun v name => v.field? name) v

def text? : Value → Option String
  | text s => some s
  | _ => none

def items? : Value → Option (List Value)
  | list xs => some xs
  | _ => none

def textFields? : Value → Option (List (String × String))
  | map es => es.mapM fun e => return (← e.1.text?, ← e.2.text?)
  | _ => none

end Value

namespace Workflow

/-- Puts the values of a job in the place of the expressions that name them. The number counts the
letters of an expression that are still to be left out. -/
def fill (values : List (String × String)) : Nat → List Char → List Char
  | _, [] => []
  | n + 1, _ :: cs => fill values n cs
  | 0, c :: cs =>
    let stands (v : String × String) : Bool :=
      Text.startsWith (expression ("matrix." ++ v.1)).toList (c :: cs)
    match values.find? stands with
    | some v => v.2.toList ++ fill values ((expression ("matrix." ++ v.1)).length - 1) cs
    | none => c :: fill values 0 cs

def fillText (values : List (String × String)) (s : String) : String :=
  String.ofList (fill values 0 s.toList)

/-- A job of the service: where it runs and the line that does its work. -/
structure Job where
  runner : String
  line : String
  deriving DecidableEq, Repr

def lineOf? (name : String) (steps : List Value) : Option String := do
  let step ← steps.find? fun s => (s.at? ["name"]).bind Value.text? = some name
  (← step.at? ["run"]).text?

def jobOf? (runner line : String) (item : Value) : Option Job := do
  let values ← item.textFields?
  return ⟨fillText values runner, fillText values line⟩

/-- The jobs that the service makes of a release workflow, one for every item of its include
list. -/
def jobs (workflow : List (String × Value)) : Option (List Job) := do
  let job ← (Value.object workflow).at? ["jobs", "build_and_upload"]
  let runner ← (← job.at? ["runs-on"]).text?
  let line ← lineOf? "Build and upload" (← (← job.at? ["steps"]).items?)
  let items ← (← job.at? ["strategy", "matrix", "include"]).items?
  items.mapM (jobOf? runner line)

theorem expression_toList (e : String) : (expression e).toList =
    '$' :: ("\x7b\x7b ".toList ++ e.toList ++ " \x7d\x7d".toList) := by
  simp [expression, String.toList_append]

theorem fill_skip (values : List (String × String)) (us cs : List Char) :
    fill values us.length (us ++ cs) = fill values 0 cs := by
  induction us with
  | nil => rfl
  | cons u us ih => simpa [fill] using ih

theorem fill_plain (values : List (String × String)) {us : List Char} (cs : List Char)
    (hus : '$' ∉ us) : fill values 0 (us ++ cs) = us ++ fill values 0 cs := by
  induction us with
  | nil => rfl
  | cons u us ih =>
    simp only [List.mem_cons, not_or] at hus
    have hu : ('$' == u) = false := beq_false_of_ne hus.1
    have hn : values.find? (fun _ => false) = none := by simp
    simp [fill, expression_toList, Text.startsWith, hu, hn, ih hus.2]

theorem fill_expression {values : List (String × String)} {key text : String}
    (h : values.find? (fun v => Text.startsWith (expression ("matrix." ++ v.1)).toList
      (expression ("matrix." ++ key)).toList) = some (key, text)) :
    fill values 0 (expression ("matrix." ++ key)).toList = text.toList := by
  have hlen : (expression ("matrix." ++ key)).length - 1 =
      (expression ("matrix." ++ key)).toList.tail.length := by
    rw [List.length_tail, String.length_toList]
  have hskip := fill_skip values (expression ("matrix." ++ key)).toList.tail []
  rw [List.append_nil] at hskip
  rw [expression_toList] at h hskip hlen ⊢
  simp only [fill, h, hlen]
  simpa [fill] using hskip

theorem fill_host (e : Entry) :
    fill e.toWorkflow 0 (expression "matrix.os").toList = e.host.toList := by
  have hos : Text.startsWith (expression ("matrix." ++ "os")).toList
      (expression ("matrix." ++ "os")).toList = true := by decide +kernel
  have h : fill e.toWorkflow 0 (expression ("matrix." ++ "os")).toList = e.host.toList :=
    fill_expression (by simp only [Entry.toWorkflow, List.find?_cons, hos])
  exact h

theorem fill_artifact (e : Entry) :
    fill e.toWorkflow 0 (expression "matrix.artifact_name").toList = e.artifact.toList := by
  have hos : Text.startsWith (expression ("matrix." ++ "os")).toList
      (expression ("matrix." ++ "artifact_name")).toList = false := by decide +kernel
  have hname : Text.startsWith (expression ("matrix." ++ "artifact_name")).toList
      (expression ("matrix." ++ "artifact_name")).toList = true := by decide +kernel
  have h : fill e.toWorkflow 0 (expression ("matrix." ++ "artifact_name")).toList =
      e.artifact.toList :=
    fill_expression (by simp only [Entry.toWorkflow, List.find?_cons, hos, hname])
  exact h

def jobWords : List String :=
  ["native-release", "release", "run", "--adapter", "github", "--artifact"]

def jobPrefix : String := "native-release release run --adapter github --artifact "

theorem fillText_line (e : Entry) :
    fillText e.toWorkflow releaseCommand = jobPrefix ++ e.artifact := by
  have hline : releaseCommand.toList = jobPrefix.toList ++
      (expression "matrix.artifact_name").toList := String.toList_append
  rw [fillText, hline, fill_plain _ _ (by decide +kernel), fill_artifact, String.ofList_append,
    String.ofList_toList, String.ofList_toList]

def jobFor (e : Entry) : Job := ⟨e.host, jobPrefix ++ e.artifact⟩

theorem jobOf_entry (e : Entry) :
    jobOf? (expression "matrix.os") releaseCommand
      (.object (e.toWorkflow.map fun f => (f.1, .text f.2))) = some (jobFor e) := by
  have hrunner : fillText e.toWorkflow (expression "matrix.os") = e.host := by
    rw [fillText, fill_host, String.ofList_toList]
  calc jobOf? (expression "matrix.os") releaseCommand
        (.object (e.toWorkflow.map fun f => (f.1, .text f.2)))
      = some ⟨fillText e.toWorkflow (expression "matrix.os"),
          fillText e.toWorkflow releaseCommand⟩ := rfl
    _ = some (jobFor e) := by rw [hrunner, fillText_line, jobFor]

theorem jobs_release (m : Matrix) (version installCommand : String) :
    jobs (release m version installCommand) = some (m.entries.map jobFor) := by
  have hjobs : jobs (release m version installCommand) =
      m.toInclude.mapM (jobOf? (expression "matrix.os") releaseCommand) := rfl
  have hitem : (fun e : Entry => jobOf? (expression "matrix.os") releaseCommand
      (.object (e.toWorkflow.map fun f => (f.1, .text f.2)))) = fun e => pure (jobFor e) :=
    funext jobOf_entry
  calc jobs (release m version installCommand)
      = m.entries.mapM fun e : Entry => jobOf? (expression "matrix.os") releaseCommand
          (.object (e.toWorkflow.map fun f => (f.1, .text f.2))) := by
        rw [hjobs, Matrix.toInclude, Matrix.toWorkflow, List.map_map, List.mapM_map]
        rfl
    _ = some (m.entries.map jobFor) := by
        rw [hitem, List.mapM_pure]
        rfl

theorem split_job (a : String) :
    Shell.split (jobPrefix ++ a) = (Shell.split a).map (jobWords ++ ·) := by
  have hprefix : jobPrefix.toList = (jobWords.map String.toList).flatMap (· ++ [' ']) := by
    decide +kernel
  have hplain : ∀ v ∈ jobWords.map String.toList, Shell.IsPlainWord v := by decide +kernel
  rw [Shell.split, String.toList_append, hprefix, Shell.words_sentence hplain, Shell.split]
  cases Shell.words a.toList with
  | error e => rfl
  | ok ws => simp [Except.map, List.map_map, Function.comp_def, String.ofList_toList]

end Workflow

namespace Command
open Arguments

def topSwitches : List Switch := [choice "--log-level" (levels.map levelWord)]

def releaseRunSwitches : List Switch := runSwitches ++ releaseSwitches

def jobSwitchWords : List String := ["--adapter", "github", "--artifact"]

theorem read_release (vs : List String) :
    Arguments.read [programName] grammar ("release" :: "run" :: vs) = (do
      let _ ← sortWords [programName] topSwitches ("run" :: vs)
      let _ ← sortWords [programName, "release"] [] vs
      let p ← Arguments.read [programName, "release", "run"] (.switches releaseRunSwitches) vs
      return ⟨"release" :: "run" :: p.commands, p.given, p.untaken⟩) := by
  rw [grammar, read_commands (by decide +kernel)]
  simp only [readCommand, String.reduceEq, if_false, if_true]
  rw [read_commands (by decide +kernel)]
  simp only [readCommand, if_true, bind_assoc, pure_bind]
  rfl

def artifactWord : Word := ⟨"--artifact", .known (value "--artifact") "--artifact" .none⟩

def jobSwitches : List Word :=
  [⟨"--adapter", .known (choice "--adapter" ["github", "gh", "noop"]) "--adapter" .none⟩,
    ⟨"github", .plain⟩, artifactWord]

theorem sort_jobSwitches :
    sort (namesOf releaseRunSwitches) jobSwitchWords = .ok jobSwitches := rfl

theorem readLevel_jobSwitches (program : List String) (ws : List Word) :
    readLevel program false (jobSwitches ++ ws) = (do
      let l ← readLevel program false (artifactWord :: ws)
      return l.give (choice "--adapter" ["github", "gh", "noop"]) "github") := rfl

theorem notGiven_releaseRun (given : List Given) : notGiven releaseRunSwitches given = [] := by
  have h : releaseRunSwitches.filter (fun s => s.required && !(given.any fun g => g.name = s.name))
      = [] := List.filter_eq_nil_iff.mpr fun s hs => by
    have hs' : s.required = false := by
      revert s
      decide
    simp [hs']
  rw [notGiven, h, List.map_nil]

theorem read_jobSwitches (program : List String) (vs : List String) :
    Arguments.read program (.switches releaseRunSwitches) (jobSwitchWords ++ vs) = (do
      let ws ← sortWords program releaseRunSwitches vs
      let l ← readLevel program false (artifactWord :: ws)
      return ⟨[], ⟨"--adapter", "github"⟩ :: l.given, l.untaken⟩) := by
  rw [Arguments.read, sortWords, sort_append (by decide), sort_jobSwitches, sortWords]
  cases sort (namesOf releaseRunSwitches) vs with
  | error c => rfl
  | ok ws =>
    simp only [notGiven_releaseRun, if_true]
    change (readLevel program false (jobSwitches ++ ws) >>= fun l =>
      pure (Parsed.mk [] l.given l.untaken)) = _
    simp only [readLevel_jobSwitches, bind_assoc, pure_bind]
    rfl

def jobParsed (l : Arguments.Level) : Parsed :=
  ⟨["release", "run"], ⟨"--adapter", "github"⟩ :: l.given, l.untaken⟩

theorem read_job (vs : List String) :
    Arguments.read [programName] grammar (Workflow.jobWords.tail ++ vs) = (do
      let _ ← sortWords [programName] topSwitches (["run"] ++ jobSwitchWords ++ vs)
      let _ ← sortWords [programName, "release"] [] (jobSwitchWords ++ vs)
      let ws ← sortWords [programName, "release", "run"] releaseRunSwitches vs
      let l ← readLevel [programName, "release", "run"] false (artifactWord :: ws)
      return jobParsed l) := by
  have hwords : Workflow.jobWords.tail ++ vs = "release" :: "run" :: (jobSwitchWords ++ vs) := rfl
  rw [hwords, read_release, read_jobSwitches]
  simp only [bind_assoc, pure_bind]
  rfl

theorem readLevel_artifact {program : List String} {ws : List Word} {l : Arguments.Level}
    (h : readLevel program false (artifactWord :: ws) = .ok l) :
    ∃ v us l', ws = ⟨v, .plain⟩ :: us ∧ readLevel program false us = .ok l' ∧
      l = l'.give (value "--artifact") v := by
  rcases ws with _ | ⟨⟨v, r⟩, us⟩
  · cases h
  · cases r with
    | plain =>
      obtain ⟨-, -, h⟩ := bind_eq_ok.mp h
      obtain ⟨l', hl', he⟩ := bind_eq_ok.mp h
      cases he
      exact ⟨v, us, l', rfl, hl', rfl⟩
    | separator => cases h
    | known s name argument => cases h
    | unknown => cases h

/-- The artifacts of a job that was read: the first word behind the switch, and others that are no
longer than the words behind it. -/
theorem read_job_artifacts {vs : List String} {i : Invoked}
    (h : Command.read (Workflow.jobWords.tail ++ vs) = .ok i) :
    ∃ v rest run c more, vs = v :: rest ∧ i.command = .releaseRun run c ∧ c.artifacts = v :: more ∧
      (∀ n ∈ more, ∃ w ∈ rest, n.length ≤ w.length) ∧
      (rest = [] → more = [] ∧ c.matrix = none ∧ c.host = none) := by
  simp only [Command.read, readAll, read_job, bind_eq_ok] at h
  obtain ⟨p, ⟨q, ⟨-, -, -, -, ws, hws, l, hl, hq⟩, hp⟩, hi⟩ := h
  cases hq
  have hpl : p = jobParsed l := by
    split at hp
    · exact (Except.ok.inj hp).symm
    · cases hp
  obtain ⟨v, us, l', rfl, hl', rfl⟩ := readLevel_artifact hl
  have hsort := sortWords_eq_ok.mp hws
  have hvs : vs = v :: us.map Word.text := (sort_texts hsort).symm
  have hfits := (List.forall_mem_cons.mp (sort_fits hsort)).2
  subst hpl
  cases hi
  refine ⟨v, us.map Word.text, _, _,
    (l'.given.filter fun g => g.name = "--artifact").map Given.word, hvs, rfl, rfl,
    fun n hn => ?_, fun hrest => ?_⟩
  · obtain ⟨g, hg, rfl⟩ := List.mem_map.mp hn
    obtain ⟨hg, hname⟩ := List.mem_filter.mp hg
    obtain ⟨name, s, hs, hgs, hlen⟩ := readLevel_given hl' hfits g hg
    have htakes : ∀ u ∈ namesOf releaseRunSwitches, u.2.name = "--artifact" →
        u.2.kind.takesArgument := by decide
    obtain ⟨w, hw, hle⟩ := hlen (htakes _ hs (hgs.symm.trans (of_decide_eq_true hname)))
    exact ⟨w.text, List.mem_map.mpr ⟨w, hw, rfl⟩, hle⟩
  · cases List.map_eq_nil_iff.mp hrest
    cases hl'
    exact ⟨rfl, rfl, rfl⟩

theorem read_plainJob {name : String} (h : name.toList.head? ≠ some '-') :
    ∃ i, Command.read (Workflow.jobWords.tail ++ [name]) = .ok i := by
  have hsort : ∀ program ss us sorted, "--" ∉ us → sort (namesOf ss) us = .ok sorted →
      sortWords program ss (us ++ [name]) = .ok (sorted ++ [⟨name, .plain⟩]) := by
    intro program ss us sorted hus hs
    rw [sortWords_eq_ok, sort_append hus, hs, sort_plain h]
    rfl
  have htop := hsort [programName] topSwitches (["run"] ++ jobSwitchWords) _ (by decide) rfl
  have hrelease := hsort [programName, "release"] [] jobSwitchWords _ (by decide) rfl
  have hrun := hsort [programName, "release", "run"] releaseRunSwitches [] _ (by decide) rfl
  rw [List.nil_append] at hrun
  let p := jobParsed ⟨[⟨"--artifact", name⟩], [], []⟩
  refine ⟨⟨levelOf ((p.last? "--log-level").getD "warning"),
    .releaseRun (runChoices p) (releaseChoices p)⟩, ?_⟩
  rw [Command.read, readAll, read_job, htop, hrelease, hrun]
  rfl

end Command

namespace Workflow
variable {σ : Type}

/-- In these surroundings the job's line is a release that runs exactly on these entries. -/
def Job.Selects (answer : (r : Request) → σ → r.Answer × σ) (w : σ) (job : Job)
    (es : List Entry) : Prop :=
  ∃ words level run c m, Shell.split job.line = .ok (Command.programName :: words) ∧
    Command.read words = .ok ⟨level, .releaseRun run c⟩ ∧
    ((Command.selected c.matrix c.artifacts c.host).run.runWith answer w).1.2 = .ok m ∧
    m.entries = es

variable {answer : (r : Request) → σ → r.Answer × σ} {w : σ}

theorem selected_ok {matrix : Option String} {names : List String} {host : Option String}
    {m : Matrix}
    (h : ((Command.selected matrix names host).run.runWith answer w).1.2 = .ok m) :
    ∃ whole : Matrix, whole.select names host = .ok m ∧ (matrix = none → whole = .builtIn) := by
  have hruns := Step.runs_trace answer (Command.selected matrix names host) w
  rw [h] at hruns
  rcases Step.runs_bind.mp hruns with ⟨e, he, -⟩ | ⟨t₁, t₂, j₁, j₂, whole, -, -, hload, hsel⟩
  · cases he
  · refine ⟨whole, ?_, ?_⟩
    · cases hs : whole.select names host with
      | error e =>
        rw [hs] at hsel
        cases (Step.runs_fail.mp hsel).2.2
      | ok m' =>
        rw [hs] at hsel
        cases (Step.runs_pure.mp hsel).2.2
        rfl
    · rintro rfl
      cases (Step.runs_pure.mp hload).2.2
      rfl

theorem selected_builtIn {names : List String} {host : Option String} {m : Matrix}
    (h : Matrix.builtIn.select names host = .ok m) :
    ((Command.selected none names host).run.runWith answer w).1.2 = .ok m := by
  have hruns := Step.runs_trace answer (Command.selected none names host) w
  have hsel : (Step.ofExcept .configuration (Matrix.builtIn.select names host)).Runs _ _ _ :=
    Step.runs_pure_bind.mp hruns
  rw [h] at hsel
  exact (Step.runs_pure.mp hsel).2.2

theorem isPlainWord_builtIn : ∀ e ∈ Matrix.builtIn.entries,
    Shell.IsPlainWord e.artifact.toList ∧ e.artifact.toList.head? ≠ some '-' := by
  decide +kernel

theorem selects_words {e : Entry} {es : List Entry} (h : (jobFor e).Selects answer w es) :
    ∃ v rest more, ∃ (c : ReleaseChoices) (m : Matrix),
      Shell.split e.artifact = .ok (v :: rest) ∧
      ((Command.selected c.matrix c.artifacts c.host).run.runWith answer w).1.2 = .ok m ∧
      m.entries = es ∧ c.artifacts = v :: more ∧
      (∀ n ∈ more, ∃ u ∈ rest, n.length ≤ u.length) ∧
      (rest = [] → more = [] ∧ c.matrix = none ∧ c.host = none) := by
  obtain ⟨words, level, run, c, m, hsplit, hread, hm, he⟩ := h
  have hline : (jobFor e).line = jobPrefix ++ e.artifact := rfl
  rw [hline, split_job] at hsplit
  cases hs : Shell.split e.artifact with
  | error f =>
    rw [hs] at hsplit
    cases hsplit
  | ok vs =>
    rw [hs] at hsplit
    have hwords : words = jobWords.tail ++ vs := by
      cases hsplit
      rfl
    subst hwords
    obtain ⟨v, rest, run', c', more, hvs, hc, hartifacts, hmore, hrest⟩ :=
      Command.read_job_artifacts hread
    cases hc
    exact ⟨v, rest, more, c, m, by rw [hvs], hm, he, hartifacts, hmore, hrest⟩

theorem selects_plain {e : Entry} {es : List Entry} (hname : Shell.IsPlainWord e.artifact.toList)
    (hhyphen : e.artifact.toList.head? ≠ some '-') :
    (jobFor e).Selects answer w es ↔
      ∃ b ∈ Matrix.builtIn.entries, b.artifact = e.artifact ∧ es = [b] := by
  have hone : Shell.split e.artifact = .ok [e.artifact] := by
    rw [Shell.split, Shell.words_bare hname.bare]
    simp [Except.map]
  constructor
  · intro h
    obtain ⟨v, rest, more, c, m, hsplit, hm, he, hartifacts, -, hrest⟩ := selects_words h
    cases hone.symm.trans hsplit
    obtain ⟨rfl, hmatrix, hhost⟩ := hrest rfl
    obtain ⟨whole, hselect, hwhole⟩ := selected_ok hm
    rw [hwhole hmatrix, hartifacts, hhost] at hselect
    by_cases hknown : ∃ b ∈ Matrix.builtIn.entries, b.artifact = e.artifact
    · obtain ⟨b, hb, hbe⟩ := hknown
      obtain ⟨m', hm', hentries⟩ := Matrix.select_name hb
      rw [hbe] at hm'
      cases hm'.symm.trans hselect
      exact ⟨b, hb, hbe, he ▸ hentries⟩
    · have hunknown : Matrix.builtIn.select [e.artifact] none = .error _ :=
        Matrix.select_unknown fun hmem => hknown (List.mem_map.mp hmem)
      rw [hunknown] at hselect
      cases hselect
  · rintro ⟨b, hb, hbe, rfl⟩
    obtain ⟨i, hread⟩ := Command.read_plainJob hhyphen
    obtain ⟨v, rest, run, c, more, hvs, hc, hartifacts, -, hrest⟩ :=
      Command.read_job_artifacts hread
    cases hvs
    obtain ⟨rfl, hmatrix, hhost⟩ := hrest rfl
    obtain ⟨m, hm, hentries⟩ := Matrix.select_name hb
    rw [hbe] at hm
    refine ⟨jobWords.tail ++ [e.artifact], i.level, run, c, m, ?_, ?_, ?_, hentries⟩
    · have hline : (jobFor e).line = jobPrefix ++ e.artifact := rfl
      rw [hline, split_job, hone]
      rfl
    · rw [hread, ← hc]
    · rw [hmatrix, hartifacts, hhost]
      exact selected_builtIn hm

/-- A job runs on its own entry alone if the built-in matrix has this entry, and never else. -/
theorem selects_own_iff (e : Entry) :
    (jobFor e).Selects answer w [e] ↔ e ∈ Matrix.builtIn.entries := by
  constructor
  · intro h
    obtain ⟨v, rest, more, c, m, hsplit, hm, he, hartifacts, hmore, hrest⟩ := selects_words h
    obtain ⟨whole, hselect, hwhole⟩ := selected_ok hm
    have hsub := Matrix.select_subset hselect e (he ▸ List.mem_singleton.mpr rfl)
    have hmem : e.artifact ∈ v :: more := hartifacts ▸ hsub.2 (by simp [hartifacts])
    rcases Shell.split_whole hsplit with hone | hshort
    · -- The name is one word, so no word of it names a matrix file.
      obtain ⟨rfl, rfl⟩ := List.cons.inj hone
      rw [hwhole (hrest rfl).2.1] at hsub
      exact hsub.1
    · obtain ⟨hv, hshort⟩ := List.forall_mem_cons.mp hshort
      rcases List.mem_cons.mp hmem with rfl | hmem
      · exact absurd hv (Nat.lt_irrefl _)
      · obtain ⟨u, hu, hle⟩ := hmore _ hmem
        exact absurd (hshort u hu) (Nat.not_lt.mpr hle)
  · intro he
    obtain ⟨hname, hhyphen⟩ := isPlainWord_builtIn e he
    exact (selects_plain hname hhyphen).mpr ⟨e, he, rfl, rfl⟩

/-- The rendered workflow has one job for every entry, on the entry's host. What a job runs is its
own entry exactly if that is an entry of the built-in matrix; with a plain name it is the built-in
entry of this name, whatever its host and script, or nothing. -/
theorem release_jobs_select (m : Matrix) (version installCommand : String)
    (answer : (r : Request) → σ → r.Answer × σ) (w : σ) :
    jobs (release m version installCommand) = some (m.entries.map jobFor) ∧
    (∀ e ∈ m.entries, (jobFor e).runner = e.host ∧
      ((jobFor e).Selects answer w [e] ↔ e ∈ Matrix.builtIn.entries)) ∧
    (∀ e ∈ m.entries, Shell.IsPlainWord e.artifact.toList → e.artifact.toList.head? ≠ some '-' →
      ∀ es, (jobFor e).Selects answer w es ↔
        ∃ b ∈ Matrix.builtIn.entries, b.artifact = e.artifact ∧ es = [b]) ∧
    ((∀ e ∈ m.entries, (jobFor e).Selects answer w [e]) ↔
      m.entries ⊆ Matrix.builtIn.entries) := by
  refine ⟨jobs_release m version installCommand, fun e _ => ⟨rfl, selects_own_iff e⟩,
    fun e _ hname hhyphen es => selects_plain hname hhyphen, ?_⟩
  constructor
  · intro h e he
    exact (selects_own_iff e).mp (h e he)
  · intro h e he
    exact (selects_own_iff e).mpr (h he)

/-- An artifact with a built-in name and a script of its own, and one that is not built in. -/
def customMatrix : Matrix where
  entries :=
    [⟨"windows-latest", "isar_windows_x64.dll", "build.sh", none⟩,
     ⟨"ubuntu-latest", "lib.so", "build.sh", none⟩]
  distinct := by decide

open Simulation in
def customWorld : World :=
  { cwd := Path.ofString "/work", clock := "",
    tree := FileTree.empty.put ["work", "matrix.yml"] (.file
      ("- \x7bos: windows-latest, artifact_name: isar_windows_x64.dll, script: build.sh\x7d\n" ++
        "- \x7bos: ubuntu-latest, artifact_name: lib.so, script: build.sh\x7d\n").toUTF8.toList
      false),
    rules := [], answers := [], cancelled := false, started := [], sent := [] }

open Simulation in
theorem customWorld_loads :
    ((Command.selected (some "matrix.yml") [] none).run.runWith World.answer
      customWorld).1.2.toOption = some customMatrix := by
  decide +kernel

open Simulation in
/-- Not every job of the loaded matrix runs its entry. -/
theorem customJobs_miss_entries :
    ((Command.selected (some "matrix.yml") [] none).run.runWith World.answer
      customWorld).1.2.toOption = some customMatrix ∧
    ∃ js, jobs (release customMatrix defaultInterpreter defaultInstallCommand) = some js ∧
      js.length = customMatrix.entries.length ∧
      ¬ ∀ (k : Nat) e job, customMatrix.entries[k]? = some e → js[k]? = some job →
        job.Selects World.answer customWorld [e] := by
  refine ⟨customWorld_loads, _, jobs_release .., by simp, fun h => ?_⟩
  exact absurd ((selects_own_iff _).mp (h 1 _ _ rfl rfl)) (by decide)

open Simulation in
/-- The first job runs the built-in script of its artifact, the second one nothing. -/
theorem customJobs_run_builtIn :
    let built : Entry := ⟨"windows-latest", "isar_windows_x64.dll", "build_desktop.sh", none⟩
    let first : Job := ⟨"windows-latest",
      "native-release release run --adapter github --artifact isar_windows_x64.dll"⟩
    let second : Job := ⟨"ubuntu-latest",
      "native-release release run --adapter github --artifact lib.so"⟩
    jobs (release customMatrix defaultInterpreter defaultInstallCommand) = some [first, second] ∧
    first.Selects World.answer customWorld [built] ∧
    ∀ es, ¬ second.Selects World.answer customWorld es := by
  intro built first second
  let windows : Entry := ⟨"windows-latest", "isar_windows_x64.dll", "build.sh", none⟩
  let ubuntu : Entry := ⟨"ubuntu-latest", "lib.so", "build.sh", none⟩
  have hfirst : jobFor windows = first := by decide +kernel
  have hsecond : jobFor ubuntu = second := by decide +kernel
  obtain ⟨hjobs, -, hplain, -⟩ := release_jobs_select customMatrix defaultInterpreter
    defaultInstallCommand World.answer customWorld
  rw [← hfirst, ← hsecond]
  refine ⟨hjobs, ?_, fun es h => ?_⟩
  · exact (hplain windows (by decide) (by decide +kernel) (by decide +kernel) _).mpr
      ⟨built, by decide, rfl, rfl⟩
  · obtain ⟨b, hb, hname, -⟩ :=
      (hplain ubuntu (by decide) (by decide +kernel) (by decide +kernel) _).mp h
    exact absurd hname ((by decide : ∀ b ∈ Matrix.builtIn.entries, b.artifact ≠ "lib.so") b hb)

end Workflow
end BindingRelease
