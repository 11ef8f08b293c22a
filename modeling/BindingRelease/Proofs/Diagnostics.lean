import BindingRelease.Proofs.Reports
import Mathlib.Data.List.Forall2
/-!
No output of a process is lost. A step that ran a process owes its output to the log of its context,
and a value may carry that debt on, as the outcome of a build does. Every step settles what it owes:
in its log, in its value, or in the failure it ends with, whose output the report takes over. So the
log of a report has the output of all processes of its context, in the order in which they ran.
-/
namespace BindingRelease
open Context Text
variable {α β : Type} {t u : Trace} {j : Journal}

/-- Each output that is not blank stands in full in one of the lines. -/
def Finished.StandsIn (f : Finished) (lines : List String) : Prop :=
  ∀ output ∈ [f.stdout, f.stderr], strip output ≠ "" →
    ∃ line ∈ lines, (strip output).toList <:+: line.toList

/-- The outputs of the processes stand in the log, in lines of their own and in order. -/
def Logged (fs : List Finished) (logs : List String) : Prop :=
  ∃ blocks, List.Forall₂ Finished.StandsIn fs blocks ∧ blocks.flatten.Sublist logs

def Trace.completed (t : Trace) : List Finished :=
  t.filterMap fun ev => match ev with
    | ⟨.start _, .finished f⟩ => some f
    | _ => none

theorem Trace.completed_append (t u : Trace) : (t ++ u).completed = t.completed ++ u.completed :=
  List.filterMap_append

theorem Trace.completed_of_unstarted (h : ∀ ev ∈ t, ∀ p, ev.1 ≠ .start p) : t.completed = [] := by
  refine List.filterMap_eq_nil_iff.mpr fun ev hev => ?_
  obtain ⟨q, x⟩ := ev
  cases q with
  | start p => exact absurd rfl (h _ hev p)
  | _ => rfl

theorem Text.infix_intercalate {separator s : String} {ss : List String} (h : s ∈ ss) :
    s.toList <:+: (separator.intercalate ss).toList := by
  induction ss with
  | nil => cases h
  | cons first rest ih =>
    cases rest with
    | nil =>
      obtain rfl := List.mem_singleton.mp h
      have hone : separator.intercalate [s] = s := String.intercalate_singleton
      exact hone.symm ▸ List.infix_rfl
    | cons second rest =>
      rw [String.intercalate_cons_cons, String.toList_append, String.toList_append]
      rcases List.mem_cons.mp h with rfl | h
      · rw [List.append_assoc]
        exact (List.prefix_append _ _).isInfix
      · exact (ih h).trans (List.suffix_append _ _).isInfix

namespace Logged
variable {fs gs : List Finished} {logs more : List String}

theorem nil (logs : List String) : Logged [] logs :=
  ⟨[], .nil, List.nil_sublist logs⟩

theorem append (h : Logged fs logs) (h' : Logged gs more) : Logged (fs ++ gs) (logs ++ more) := by
  obtain ⟨blocks, hstand, hsub⟩ := h
  obtain ⟨blocks', hstand', hsub'⟩ := h'
  refine ⟨blocks ++ blocks', List.rel_append hstand hstand', ?_⟩
  rw [List.flatten_append]
  exact hsub.append hsub'

theorem mono (h : Logged fs logs) (hl : logs.Sublist more) : Logged fs more := by
  obtain ⟨blocks, hstand, hsub⟩ := h
  exact ⟨blocks, hstand, hsub.trans hl⟩

theorem single {f : Finished} (h : f.StandsIn logs) : Logged [f] logs :=
  ⟨[logs], .cons h .nil, by simp⟩

theorem lines (f : Finished) : Logged [f] (LaunchResult.finished f).outputLines := by
  apply single
  intro output hmem hne
  have hfilled : output ≠ "" := by
    rintro rfl
    exact hne rfl
  have hline : strip output ∈ (LaunchResult.finished f).outputLines :=
    List.mem_map_of_mem (List.mem_filter.mpr ⟨hmem, by simpa using hfilled⟩)
  exact ⟨_, hline, List.infix_rfl⟩

theorem combined (f : Finished) :
    Logged [f] (if f.combinedOutput = "" then [] else [f.combinedOutput]) := by
  apply single
  intro output hmem hne
  have hpart : strip output ∈ ([f.stdout, f.stderr].map strip).filter (· ≠ "") :=
    List.mem_filter.mpr ⟨List.mem_map_of_mem hmem, by simpa using hne⟩
  have hinfix : (strip output).toList <:+: f.combinedOutput.toList := infix_intercalate hpart
  have hfilled : f.combinedOutput ≠ "" := by
    intro he
    rw [he, String.toList_empty, List.infix_nil] at hinfix
    exact hne (by simpa using hinfix)
  rw [if_neg hfilled]
  exact ⟨_, List.mem_singleton_self _, hinfix⟩

end Logged

def Failure.remains : Failure → List String
  | .release e => if e.output = "" then [] else [e.output]
  | .crash _ => []

def Stop.remains : Stop → List String
  | .failed _ e => (Failure.release e).remains
  | .cancelled _ | .crashed _ => []

theorem remains_stopOf (st : Stage) (e : Failure) : (stopOf st e).remains = e.remains := by
  cases e <;> rfl

/-- The processes `fs` and those of the trace are accounted for: a failure leaves none unlogged, and
with a value the last ones may stay open as `Open` says of it. -/
def Accounts (fs : List Finished) (Open : α → List Finished → Prop) (t : Trace)
    (logs : List String) : Except (List String) α → Prop
  | .error remains => Logged (fs ++ t.completed) (logs ++ remains)
  | .ok a => ∃ closed left, fs ++ t.completed = closed ++ left ∧ Logged closed logs ∧ Open a left

def Closed : α → List Finished → Prop := fun _ fs => fs = []

section Accounts
variable {fs gs : List Finished} {logs more : List String} {Open : α → List Finished → Prop}
  {Open' : β → List Finished → Prop}

theorem Accounts.seq {a : α} {r : Except (List String) β} (h : Accounts fs Open t logs (.ok a))
    (h' : ∀ gs, Open a gs → Accounts gs Open' u more r) :
    Accounts fs Open' (t ++ u) (logs ++ more) r := by
  obtain ⟨closed, left, heq, hlogged, hopen⟩ := h
  have hall : fs ++ (t ++ u).completed = closed ++ (left ++ u.completed) := by
    rw [Trace.completed_append, ← List.append_assoc, heq, List.append_assoc]
  have hrest := h' left hopen
  cases r with
  | error remains =>
    rw [Accounts, hall, List.append_assoc]
    exact hlogged.append hrest
  | ok b =>
    obtain ⟨closed', left', heq', hlogged', hopen'⟩ := hrest
    refine ⟨closed ++ closed', left', ?_, hlogged.append hlogged', hopen'⟩
    rw [hall, heq', List.append_assoc]

end Accounts

namespace Step
variable {fs : List Finished} {Open : α → List Finished → Prop} {Open' : β → List Finished → Prop}

/-- Every run of the step accounts for its processes and for `fs`. -/
def Settles (fs : List Finished) (Open : α → List Finished → Prop) (s : Step α) : Prop :=
  ∀ t j r, s.Runs t j r → Accounts fs Open t j.logs (r.mapError Failure.remains)

namespace Settles

theorem pure {a : α} (h : Open a fs) : (Pure.pure a : Step α).Settles fs Open := by
  intro t j r h₀
  obtain ⟨rfl, rfl, rfl⟩ := runs_pure.mp h₀
  exact ⟨[], fs, by simp [Trace.completed], .nil _, h⟩

theorem fail {e : Failure} (h : Logged fs e.remains) : (Step.fail e : Step α).Settles fs Open := by
  intro t j r h₀
  obtain ⟨rfl, rfl, rfl⟩ := runs_fail.mp h₀
  change Logged (fs ++ []) ([] ++ e.remains)
  simpa using h

theorem bind {s : Step α} {k : α → Step β} (hs : s.Settles fs Open)
    (hk : ∀ a gs, Open a gs → (k a).Settles gs Open') : (s >>= k).Settles fs Open' := by
  intro t j r h₀
  rcases runs_bind.mp h₀ with ⟨e, rfl, h⟩ | ⟨t₁, t₂, j₁, j₂, a, rfl, rfl, h₁, h₂⟩
  · exact hs t j _ h
  · exact (hs t₁ j₁ _ h₁).seq fun gs hopen => hk a gs hopen t₂ j₂ r h₂

theorem andThen {s : Step α} {k : α → Step β} (hs : s.Settles fs Closed)
    (hk : ∀ a, (k a).Settles [] Open') : (s >>= k).Settles fs Open' := by
  refine hs.bind fun a gs hgs => ?_
  subst hgs
  exact hk a

theorem write {i : Journal} (h : Logged fs i.logs) :
    (⟨.done (i, .ok ())⟩ : Step Unit).Settles fs Closed := by
  intro t j r h₀
  obtain ⟨rfl, ho⟩ := Program.runs_done.mp h₀
  cases ho
  exact ⟨fs, [], by simp [Trace.completed], h, rfl⟩

theorem of_unstarted {s : Step α}
    (h : ∀ t j r, s.Runs t j r → ∀ ev ∈ t, ∀ p, ev.1 ≠ .start p) : s.Settles [] Closed := by
  intro t j r h₀
  have hnone : t.completed = [] := Trace.completed_of_unstarted (h t j r h₀)
  cases r with
  | error e =>
    change Logged ([] ++ t.completed) _
    rw [hnone]
    exact .nil _
  | ok a => exact ⟨[], [], by simp [hnone], .nil _, rfl⟩

theorem ask {q : Request} (h : ∀ p, q ≠ .start p) : (Step.ask q).Settles [] Closed := by
  refine of_unstarted fun t j r h₀ => ?_
  obtain ⟨x, rfl, -, -⟩ := runs_ask.mp h₀
  simpa using h

theorem ofExcept {ε : Type} {wrap : ε → Failure} {x : Except ε α} :
    (Step.ofExcept wrap x).Settles [] Closed := by
  cases x with
  | error e => exact fail (.nil _)
  | ok a => exact pure rfl

theorem start {p : Launch} {onError : String → Failure} :
    (Step.start p onError).Settles [] fun f gs => gs = [f] := by
  intro t j r h₀
  obtain ⟨rfl, ⟨f, rfl, rfl⟩ | ⟨reason, rfl, rfl⟩ | ⟨c, rfl, rfl⟩⟩ := runs_start h₀
  · exact ⟨[], [f], rfl, .nil _, rfl⟩
  · exact Logged.nil _
  · exact Logged.nil _

theorem log {line : String} : (Step.log line).Settles [] Closed := write (.nil _)

theorem note {l : Level} {source message : String} :
    (Step.note l source message).Settles [] Closed := write (.nil _)

theorem logOutput {f : Finished} : f.logOutput.Settles [f] Closed := by
  rw [logOutput_eq]
  exact write (.lines f)

end Settles
theorem present_settles {p : Path} : (present p).Settles [] Closed :=
  .andThen (.ask (q := .exists p) nofun) fun _ => .ofExcept

theorem isDirectory_settles {p : Path} : (isDirectory p).Settles [] Closed :=
  .andThen (.ask (q := .isDirectory p) nofun) fun _ => .ofExcept

theorem isFile_settles {p : Path} : (isFile p).Settles [] Closed :=
  .andThen (.ask (q := .isFile p) nofun) fun _ => .ofExcept

theorem makeDirectories_settles {p : Path} : (makeDirectories p).Settles [] Closed :=
  .andThen (.ask (q := .makeDirectories p) nofun) fun _ => .ofExcept

theorem checked_settles {p : Launch} {onError : String → Failure} {next : Finished → Step α}
    (hnext : ∀ f, (next f).Settles [] Closed) :
    (do
      let f ← start p onError
      f.logOutput
      next f : Step α).Settles [] Closed := by
  refine .bind .start fun f gs hgs => ?_
  subst hgs
  exact .andThen .logOutput fun _ => hnext f

end Step

open Step hiding pure bind

theorem LanguageInstaller.install_settles (i : LanguageInstaller) (version : String) :
    (i.install version).Settles [] Closed := by
  refine .andThen .log fun _ => .andThen .note fun _ => checked_settles fun f => ?_
  split
  · exact .fail (.nil _)
  · exact .pure rfl

namespace CompilerInstaller

theorem runInstallation_settles (template : String) (c : Compiler) (directory : Path) (env : Env) :
    (runInstallation template c directory env).Settles [] Closed := by
  refine .andThen .ofExcept fun command => .andThen .log fun _ => .andThen .note fun _ =>
    .andThen makeDirectories_settles fun _ => checked_settles fun f => ?_
  split
  · exact .fail (.nil _)
  · exact .pure rfl

theorem install_settles (i : CompilerInstaller) (c : Compiler) (directory : Path) (env : Env) :
    (i.install c directory env).Settles [] Closed := by
  have hlocate : (Clang.locate directory (env.get? "PATH")).Settles [] Closed := by
    refine .of_unstarted fun t j r h ev hev p hq => ?_
    obtain ⟨-, found, -, hfinds⟩ := Clang.locate_finds h
    have hsurvey := (hfinds.surveys ev hev).1
    rw [hq] at hsurvey
    cases hsurvey
  -- where the compiler was found, it is logged
  have hadopted (found : Path) (env' : List (String × String)) :
      (log (c.envVar ++ "=" ++ found.toString) >>= fun _ => pure env').Settles [] Closed :=
    .andThen .log fun _ => .pure rfl
  unfold install
  dsimp only
  split
  · refine .andThen (runInstallation_settles _ c directory env) fun _ => .andThen hlocate ?_
    rintro (_ | found)
    · exact .fail (.nil _)
    · exact hadopted found _
  · refine .andThen hlocate ?_
    rintro (_ | found)
    · exact .fail (.nil _)
    · exact hadopted found _

end CompilerInstaller

namespace Checkout

theorem runIn_settles (directory : Path) (command : List String) :
    (runIn directory command).Settles [] Closed := by
  refine .andThen .log fun _ => .andThen .note fun _ => .andThen makeDirectories_settles fun _ =>
    checked_settles fun f => ?_
  split
  · exact .fail (.nil _)
  · exact .pure rfl

theorem wantsClone_settles (url : Option String) (workspace : Path) :
    (wantsClone url workspace).Settles [] Closed := by
  unfold wantsClone
  split
  · exact .pure rfl
  · refine .andThen present_settles fun there => ?_
    split <;> exact .pure rfl

theorem clone_settles (program url : String) (ref : Option String) (submodules : Bool)
    (workspace : Path) : (clone program url ref submodules workspace).Settles [] Closed := by
  refine .andThen (runIn_settles _ _) fun _ => ?_
  split
  · exact runIn_settles _ _
  · exact .pure rfl

theorem acquire_settles (c : Checkout) (workspace : Path) :
    (c.acquire workspace).Settles [] Closed := by
  cases c with
  | existing =>
    refine .andThen isDirectory_settles fun there => ?_
    split
    · exact .andThen .log fun _ => .pure rfl
    · exact .fail (.nil _)
  | git url ref submodules program =>
    have hmodules : (do
        if submodules then runIn workspace (submoduleCommand program)
        pure workspace : Step Path).Settles [] Closed := by
      dsimp only
      split
      · exact .andThen (runIn_settles _ _) fun _ => .pure rfl
      · exact .pure rfl
    refine .andThen (wantsClone_settles url workspace) fun wanted => ?_
    cases wanted with
    | some u => exact .andThen (clone_settles _ _ _ _ _) fun _ => hmodules
    | none =>
      refine .andThen isDirectory_settles fun there => ?_
      split
      · exact hmodules
      · exact .andThen (.fail (.nil _)) fun _ => hmodules

end Checkout

namespace Adapter

theorem upload_settles (a : Adapter) (ambient : Env) (file : Path) (asset : String)
    (target : Target) : (a.upload ambient file asset target).Settles [] Closed := by
  cases a with
  | dryRun => exact .andThen .log fun _ => .pure rfl
  | tool tool =>
    refine .andThen .log fun _ => checked_settles fun f => ?_
    split
    · exact .fail (.nil _)
    · exact .pure rfl
  | host h =>
    refine .of_unstarted fun t j r h₀ ev hev p hq => ?_
    have hrequest := (ReleaseHost.upload_runs h₀).requests ev hev
    rw [hq] at hrequest
    cases hrequest

theorem publish_settles (a : Adapter) (ambient : Env) (file : Path) (asset : String)
    (target : Target) : (a.publish ambient file asset target).Settles [] Closed := by
  refine .andThen isFile_settles fun there => ?_
  split
  · exact .andThen .note fun _ => a.upload_settles ambient file asset target
  · exact .fail (.nil _)

end Adapter

theorem runCommand_settles (wrap : CommandError → ReleaseError) (command : List String)
    (directory : Path) (env : Env) :
    (runCommand wrap command directory env).Settles [] fun f gs => gs = [f] := by
  refine .andThen isDirectory_settles fun there => ?_
  split
  · exact .start
  · exact .fail (.nil _)

theorem Logged.commandLogs (f : Finished) (command : List String) (directory : Path) :
    Logged [f] (commandLogs command directory f.combinedOutput) :=
  (combined f).mono (List.sublist_cons_self _ _)

theorem runBuild_settles (i : Invocation) (env : Env) :
    (runBuild i env).Settles [] fun o gs => Logged gs o.logs := by
  refine .andThen .note fun _ => .bind (runCommand_settles _ _ _ _) fun f gs hgs => ?_
  subst hgs
  split
  · exact .fail (.combined f)
  · exact .pure (.commandLogs f _ _)

theorem runVerification_settles (workspace : Path) (env : Env) (command : List String) :
    (runVerification workspace env command).Settles [] fun logs gs => Logged gs logs := by
  refine .bind (runCommand_settles _ _ _ _) fun f gs hgs => ?_
  subst hgs
  split
  · exact .fail (.combined f)
  · exact .pure (.commandLogs f _ _)

namespace Context
variable {fs : List Finished} {Open : α → List Finished → Prop} {Open' : β → List Finished → Prop}
  {f : Findings}

def Settles (fs : List Finished) (Open : α → List Finished → Prop) (c : Context α) : Prop :=
  ∀ t j f r, c.Runs t j f r → Accounts fs Open t j.logs (r.mapError Stop.remains)

namespace Settles

theorem pure {a : α} (h : Open a fs) : (Pure.pure a : Context α).Settles fs Open := by
  intro t j f r h₀
  obtain ⟨rfl, rfl, rfl, rfl⟩ := runs_pure.mp h₀
  exact ⟨[], fs, by simp [Trace.completed], .nil _, h⟩

theorem bind {c : Context α} {k : α → Context β} (hc : c.Settles fs Open)
    (hk : ∀ a gs, Open a gs → (k a).Settles gs Open') : (c >>= k).Settles fs Open' := by
  intro t j f r h₀
  rcases runs_bind.mp h₀ with
    ⟨stop, rfl, h⟩ | ⟨t₁, t₂, j₁, j₂, f₁, f₂, a, rfl, rfl, rfl, h₁, h₂⟩
  · exact hc t j f _ h
  · exact (hc t₁ j₁ f₁ _ h₁).seq fun gs hopen => hk a gs hopen t₂ j₂ f₂ r h₂

theorem andThen {c : Context α} {k : α → Context β} (hc : c.Settles fs Closed)
    (hk : ∀ a, (k a).Settles [] Open') : (c >>= k).Settles fs Open' := by
  refine hc.bind fun a gs hgs => ?_
  subst hgs
  exact hk a

theorem found {g : Findings} : (Context.found g).Settles [] Closed := by
  intro t j f r h₀
  obtain ⟨rfl, rfl, -, rfl⟩ := runs_found.mp h₀
  exact ⟨[], [], rfl, .nil _, rfl⟩

theorem enter {signal : Bool} {st : Stage} : (Context.enter signal st).Settles [] Closed := by
  intro t j f r h₀
  obtain ⟨rfl, -, ⟨-, rfl, rfl⟩ | ⟨rfl, rfl⟩⟩ := runs_enter.mp h₀
  · exact Logged.nil _
  · refine ⟨[], [], ?_, .nil _, rfl⟩
    cases signal <;> rfl

theorem within {st : Stage} {s : Step α} (hs : s.Settles fs Open) :
    (Context.within st s).Settles fs Open := by
  intro t j f r h₀
  obtain ⟨-, r', h, rfl⟩ := runs_within.mp h₀
  have hr := hs t j r' h
  cases r' with
  | error e =>
    change Logged _ (j.logs ++ (stopOf st e).remains)
    rw [remains_stopOf]
    exact hr
  | ok a => exact hr

theorem stage {signal : Bool} {st : Stage} {s : Step α} (hs : s.Settles [] Open) :
    (Context.stage signal st s).Settles [] Open :=
  .andThen .enter fun _ => .within hs

theorem report {key host : String} {c : Context Unit} (hc : c.Settles [] Closed)
    {o : Outcome} {r : Report} (h₀ : (finish key host c).Runs t o) (hr : o.2 = .ok r) :
    Logged t.completed r.logs := by
  obtain ⟨j, f, x, h, rfl⟩ := runs_finish h₀
  have haccounts := hc t j f x h
  obtain stop | _ := x
  · have hlogged : Logged ([] ++ t.completed) (j.logs ++ stop.remains) := haccounts
    cases stop with
    | cancelled st =>
      cases hr
      exact hlogged.mono ((List.Sublist.refl _).append (List.nil_sublist _))
    | failed st e =>
      cases hr
      exact hlogged
    | crashed x => cases hr
  · obtain ⟨closed, left, heq, hlogged, rfl⟩ := haccounts
    cases hr
    rw [List.nil_append, List.append_nil] at heq
    rw [heq]
    exact hlogged

end Settles
end Context

namespace Surroundings

theorem provision_settles (s : Surroundings) (tc : Toolchain) :
    (s.provision tc).Settles [] Closed := by
  have hlanguage (env : Env) : (do
      let vars ← s.collaborators.language.install tc.language
      pure (env.update vars) : Step Env).Settles [] Closed :=
    .andThen (LanguageInstaller.install_settles _ _) fun _ => .pure rfl
  unfold provision
  dsimp only
  split
  · exact .andThen (.pure rfl) hlanguage
  · exact .andThen (CompilerInstaller.install_settles _ _ _ _) fun vars =>
      .andThen (.pure rfl) hlanguage

theorem prepare_settles (s : Surroundings) (toolchain : Except ConfigurationError Toolchain) :
    (s.prepare toolchain).Settles [] Closed :=
  .andThen (.stage .ofExcept) fun tc => .andThen .found fun _ =>
    .andThen (.stage (s.provision_settles tc)) fun _ =>
      .andThen (.stage (Checkout.acquire_settles _ _)) fun _ => .pure rfl

theorem buildStep_settles (i : Invocation) (env : Env) : (buildStep i env).Settles [] Closed :=
  .bind (runBuild_settles i env) fun _ _ hopen => .andThen (.write hopen) fun _ => .pure rfl

theorem releaseStages_settles (s : Surroundings) (e : Entry) (target : Target) :
    (s.releaseStages e target).Settles [] Closed :=
  .andThen (s.prepare_settles _) fun _ => .andThen .enter fun _ => .andThen .found fun _ =>
    .andThen (.within (buildStep_settles _ _)) fun _ =>
      .andThen (.stage (Adapter.publish_settles _ _ _ _ _)) fun _ =>
        .andThen .found fun _ => .within .note

theorem testStages_settles (s : Surroundings) (host : String) (command : List String) :
    (s.testStages host command).Settles [] Closed :=
  .andThen (s.prepare_settles _) fun _ =>
    .bind (.stage (runVerification_settles _ _ _)) fun _ _ hopen => .within (.write hopen)

/-- In a run, every process is one of a context, and each context has a report whose log holds the
output of all its processes that ran to completion. -/
def KeepsOutput (contexts : List (Program Outcome)) (t : Trace) (rs : List Report) : Prop :=
  ∃ l : Tagged, l.map Prod.snd = t ∧ rs.length = contexts.length ∧
    (∀ owner p x, (owner, ⟨.start p, x⟩) ∈ l → ∃ k < contexts.length, owner = some k) ∧
    ∀ (k : Nat) p, contexts[k]? = some p → ∃ r notes, rs[k]? = some r ∧
      p.Runs (l.share k) (notes, .ok r) ∧ Logged (l.share k).completed r.logs

theorem fanOut_keepsOutput {signal : Bool} {wish : Option Int} {schedule : List Nat}
    {contexts : List (Program Outcome)} {rs : List Report}
    (hcontext : ∀ p ∈ contexts, ∀ t o r, p.Runs t o → o.2 = .ok r → Logged t.completed r.logs)
    (h₀ : (fanOut signal wish schedule contexts).Runs t j (.ok rs)) :
    KeepsOutput contexts t rs := by
  obtain ⟨l, os, hl, hi, -, hverdict⟩ := fanOut_runs h₀
  obtain ⟨hlen, hreports⟩ := Outcome.reports_of_verdict hverdict.symm
  refine ⟨l, hl, hlen.trans hi.length, ?_, fun k p hk => ?_⟩
  · intro owner p x hmem
    cases owner with
    | none =>
      obtain ⟨os', u, hu, hmem'⟩ := hi.collector _ hmem
      cases Outcome.watch_asks hu _ hmem'
    | some k => exact ⟨k, hi.known k _ hmem, rfl⟩
  · obtain ⟨⟨notes, x⟩, ho, hrun⟩ := hi.each k p hk
    obtain ⟨r, hr, hx⟩ := hreports k _ ho
    obtain rfl : x = .ok r := hx
    exact ⟨r, notes, hr, hrun, hcontext p (List.mem_of_getElem? hk) _ _ r hrun rfl⟩

/-- In every run that returns, whatever became of its contexts, the log of each report has all that
the processes of its context wrote: the output of one process comes before that of the next. -/
theorem no_output_is_lost (s : Surroundings) (schedule : List Nat) :
    (∀ m target t j rs, (s.release schedule m target).Runs t j (.ok rs) →
      KeepsOutput (m.entries.map (s.releaseContext target)) t rs) ∧
    ∀ hosts command t j rs, (s.test schedule hosts command).Runs t j (.ok rs) →
      KeepsOutput (hosts.map (s.testContext command)) t rs := by
  constructor
  · intro m target t j rs h₀
    obtain ⟨j', -, h⟩ := Step.runs_note_bind.mp h₀
    refine fanOut_keepsOutput (fun p hp u o r hrun hr => ?_) h
    obtain ⟨e, -, rfl⟩ := List.mem_map.mp hp
    exact (s.releaseStages_settles e target).report hrun hr
  · intro hosts command t j rs h₀
    refine fanOut_keepsOutput (fun p hp u o r hrun hr => ?_) h₀
    obtain ⟨host, -, rfl⟩ := List.mem_map.mp hp
    exact (s.testStages_settles host command).report hrun hr

open Simulation in
/-- A failed build leaves its output in its own log, and a verification that succeeds leaves all
that was written before it too. -/
theorem brokenRun_keeps_output :
    let s := dryRun (Path.ofString "/work") true
    let target : Target := ⟨"v1", "", none⟩
    (∃ t j rs, (s.release [] brokenMatrix target).Runs t j (.ok rs) ∧
      (rs.map fun r => r.logs.contains "no compiler") = [false, true, false] ∧
      KeepsOutput (brokenMatrix.entries.map (s.releaseContext target)) t rs) ∧
    ∃ t j rs, (s.test [] ["linux"] verifyCommand).Runs t j (.ok rs) ∧
      rs.map Report.logs = [["Installing Rust toolchain nightly: rustup toolchain install " ++
          "nightly --profile minimal", "done", "one warning", "Using existing sources at /work.",
        "$ cargo test --verbose (cwd=/work)", "done\none warning"]] ∧
      KeepsOutput (["linux"].map (s.testContext verifyCommand)) t rs := by
  intro s target
  let talkative : World := { brokenWorld with
    rules := [{
      applies := fun _ => true, once := false, cancels := false, interrupts := false,
      startFailure := none, writes := [], result := ⟨0, " done\n", "one warning\n"⟩ }] }
  constructor
  · obtain ⟨t, j, rs, h, hlogs⟩ : ∃ t j rs, (s.release [] brokenMatrix target).Runs t j (.ok rs) ∧
        (rs.map fun r => r.logs.contains "no compiler") = [false, true, false] :=
      Step.exists_runs World.answer brokenWorld (by decide +kernel)
    exact ⟨t, j, rs, h, hlogs, (s.no_output_is_lost []).1 _ _ t j rs h⟩
  · obtain ⟨t, j, rs, h, hlogs⟩ : ∃ t j rs, (s.test [] ["linux"] verifyCommand).Runs t j (.ok rs) ∧
        rs.map Report.logs =
          [["Installing Rust toolchain nightly: rustup toolchain install nightly " ++
              "--profile minimal", "done", "one warning", "Using existing sources at /work.",
            "$ cargo test --verbose (cwd=/work)", "done\none warning"]] :=
      Step.exists_runs World.answer talkative (by decide +kernel)
    exact ⟨t, j, rs, h, hlogs, (s.no_output_is_lost []).2 _ _ t j rs h⟩

end Surroundings
end BindingRelease
