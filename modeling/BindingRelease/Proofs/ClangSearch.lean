import BindingRelease.Proofs.FanOut
import BindingRelease.Proofs.Installers
import BindingRelease.Proofs.Paths
import BindingRelease.Simulation.World
/-!
The search for clang in a file system. An installer looks into the directory of its installation and
then along the search path, and takes the first place with an executable clang; the search path that
it returns begins with this place, so that another search finds it again.
-/
namespace BindingRelease
open Trace

namespace Text
variable {sep : Char} {w cs : List Char}

theorem mem_splitChars (h : w ∈ splitChars sep cs) : sep ∉ w ∧ w ⊆ cs := by
  induction cs generalizing w with
  | nil =>
    obtain rfl := List.mem_singleton.mp h
    simp
  | cons c cs ih =>
    by_cases hc : c = sep
    · rw [splitChars, if_pos hc] at h
      rcases List.mem_cons.mp h with rfl | h
      · simp
      · exact ⟨(ih h).1, List.subset_cons_of_subset c (ih h).2⟩
    · rw [splitChars, if_neg hc] at h
      split at h
      · obtain rfl := List.mem_singleton.mp h
        simp [Ne.symm hc]
      · rename_i v vs hs
        have hv := ih (hs ▸ List.mem_cons_self)
        rcases List.mem_cons.mp h with rfl | h
        · exact ⟨by simp [Ne.symm hc, hv.1], List.cons_subset_cons c hv.2⟩
        · have hw := ih (hs ▸ List.mem_cons_of_mem v h)
          exact ⟨hw.1, List.subset_cons_of_subset c hw.2⟩

end Text

namespace Path
variable {p : Path} {c : Char}

theorem mem_intercalate {ps : List String} (hc : c ≠ '/') :
    c ∈ ("/".intercalate ps).toList ↔ ∃ x ∈ ps, c ∈ x.toList := by
  induction ps with
  | nil => simp
  | cons x ps ih =>
    cases ps with
    | nil => simp
    | cons y ps =>
      rw [String.intercalate_cons_cons, String.toList_append, List.mem_append, ih]
      simp [hc]

theorem mem_toString (hs : c ≠ '/') (hd : c ≠ '.') :
    c ∈ p.toString.toList ↔ ∃ x ∈ p.parts, c ∈ x.toList := by
  unfold toString
  split
  · rename_i h
    simp [h.2, hd]
  · rw [String.toList_append, List.mem_append, mem_intercalate hs]
    have hanchor : c ∉ (anchorText p.anchor).toList := by
      cases p.anchor <;> simp [anchorText, hs]
    simp [hanchor]

theorem toString_ne_empty (p : Path) : p.toString ≠ "" := by
  intro h
  have hp : p = ofString "" := by rw [← h, ofString_toString]
  rw [hp] at h
  exact absurd h (by decide +kernel)

theorem mem_toString_ofString {s : String} (hs : c ≠ '/') (hd : c ≠ '.')
    (h : c ∈ (ofString s).toString.toList) : c ∈ s.toList := by
  obtain ⟨x, hx, hc⟩ := (mem_toString hs hd).mp h
  obtain ⟨w, hw, rfl⟩ := List.mem_map.mp (List.mem_filter.mp hx).1
  exact (Text.mem_splitChars hw).2 (by simpa using hc)

end Path

namespace Trace

def agrees (sees : Path → Bool) : Event → Bool
  | ⟨.isExecutable p, true⟩ => sees p
  | ⟨.isExecutable p, false⟩ => !sees p
  | _ => true

/-- The answers about executable files are those of one file system. -/
def Sees (sees : Path → Bool) (t : Trace) : Prop := ∀ ev ∈ t, agrees sees ev

variable {sees : Path → Bool} {t : Trace}

instance : Decidable (t.Sees sees) := inferInstanceAs (Decidable (∀ ev ∈ t, agrees sees ev))

theorem Sees.mono {u : Trace} (h : t.Sees sees) (hu : u ⊆ t) : u.Sees sees :=
  fun ev hev => h ev (hu hev)

def isSuccess : Event → Bool
  | ⟨.start _, .finished f⟩ => f.code == 0
  | _ => false

end Trace

namespace Clang
variable {sees : Path → Bool} {ps : List String} {t : Trace} {found : Option Path}

def firstSeen (sees : Path → Bool) (places : List String) : Option Path :=
  (places.find? fun place => sees (candidate place)).map Path.ofString

theorem Finds.eq_firstSeen (h : Finds ps t found) (hs : t.Sees sees) :
    found = firstSeen sees ps := by
  induction h with
  | nowhere => rfl
  | here place more =>
    have hplace : sees (candidate place) = true := by
      simpa [agrees, probe] using hs _ List.mem_cons_self
    simp [firstSeen, hplace]
  | @further place more t found h ih =>
    have hplace : sees (candidate place) = false := by
      simpa [agrees, probe] using hs _ List.mem_cons_self
    rw [ih (hs.mono (List.subset_cons_self _ _))]
    simp [firstSeen, hplace]

theorem listed_of_ne {list : String} (h : list ≠ "") : listed list = Text.splitAt ':' list :=
  if_neg h

theorem not_mem_of_listed {list place : String} (h : place ∈ listed list) : ':' ∉ place.toList := by
  unfold listed at h
  split at h
  · cases h
  · obtain ⟨w, hw, rfl⟩ := List.mem_map.mp h
    simpa using (Text.mem_splitChars hw).1

theorem listed_directory {d : Path} (h : ':' ∉ d.toString.toList) :
    listed d.toString = [d.toString] := by
  rw [listed_of_ne d.toString_ne_empty, Text.splitAt, Text.splitChars_word h]
  simp

theorem listed_extendedPath {d : Path} (h : ':' ∉ d.toString.toList) (old : String) :
    listed (CompilerInstaller.extendedPath d old) = d.toString :: listed old := by
  unfold CompilerInstaller.extendedPath
  split
  · rename_i ho
    rw [listed_directory h, ho]
    rfl
  · rename_i ho
    have hne : d.toString ++ ":" ++ old ≠ "" := by simp [d.toString_ne_empty]
    have hletters : (d.toString ++ ":" ++ old).toList = d.toString.toList ++ ':' :: old.toList := by
      simp
    rw [listed_of_ne hne, listed_of_ne ho, Text.splitAt, hletters, Text.splitChars_append _ h]
    simp [Text.splitAt]

theorem candidate_toString (d : Path) : candidate d.toString = d / "clang" := by
  rw [candidate, Path.ofString_toString]

theorem firstSeen_cons (place : String) (more : List String) :
    firstSeen sees (place :: more) =
      if sees (candidate place) then some (.ofString place) else firstSeen sees more := by
  cases h : sees (candidate place) <;> simp [firstSeen, h]

/-- Where clang is: in the directory of the installation, or else in the first element of the search
path that has it. -/
inductive Holds (sees : Path → Bool) (directory : Path) (elements : List String) : Path → Prop
  | installed (h : sees (directory / "bin" / "clang")) :
      Holds sees directory elements (directory / "bin")
  | listed {before element after} (hno : sees (directory / "bin" / "clang") = false)
      (he : elements = before ++ element :: after)
      (hb : ∀ other ∈ before, sees (Path.ofString other / "clang") = false)
      (h : sees (Path.ofString element / "clang")) :
      Holds sees directory elements (.ofString element)

theorem firstSeen_eq_none_iff {elements : List String} {directory : Path} :
    firstSeen sees ((directory / "bin").toString :: elements) = none ↔
      ¬ (sees (directory / "bin" / "clang") ∨
        ∃ element ∈ elements, sees (Path.ofString element / "clang")) := by
  simp [firstSeen, candidate, Path.ofString_toString]

theorem holds_of_firstSeen {elements : List String} {directory d : Path}
    (h : firstSeen sees ((directory / "bin").toString :: elements) = some d) :
    Holds sees directory elements d := by
  rw [firstSeen_cons, candidate_toString, Path.ofString_toString] at h
  split at h
  · rename_i hbin
    cases h
    exact .installed hbin
  · rename_i hbin
    obtain ⟨place, hp, rfl⟩ := Option.map_eq_some_iff.mp h
    obtain ⟨hplace, before, after, he, hb⟩ := List.find?_eq_some_iff_append.mp hp
    exact .listed (by simpa using hbin) he (by simpa [candidate] using hb) hplace

theorem Holds.seen {elements : List String} {directory d : Path}
    (h : Holds sees directory elements d) : sees (d / "clang") := by
  cases h with
  | installed h => exact h
  | listed _ _ _ h => exact h

theorem not_mem_bin {directory : Path} (h : ':' ∉ directory.toString.toList) :
    ':' ∉ (directory / "bin").toString.toList := by
  have hbin : (Path.ofString "bin").parts = ["bin"] := by decide +kernel
  have hparts : (directory / "bin").parts = directory.parts ++ ["bin"] :=
    hbin ▸ Path.parts_append (q := .ofString "bin") (by decide +kernel)
  rw [Path.mem_toString (by decide) (by decide)] at h ⊢
  rintro ⟨x, hx, hc⟩
  rw [hparts] at hx
  rcases List.mem_append.mp hx with hx | hx
  · exact h ⟨x, hx, hc⟩
  · obtain rfl := List.mem_singleton.mp hx
    exact absurd hc (by decide)

theorem Holds.not_mem {list : String} {directory d : Path}
    (h : Holds sees directory (Clang.listed list) d) (hd : ':' ∉ directory.toString.toList) :
    ':' ∉ d.toString.toList := by
  cases h with
  | installed => exact not_mem_bin hd
  | @listed before element after _ he =>
    intro hc
    have hmem : element ∈ Clang.listed list := by simp [he]
    exact not_mem_of_listed hmem (Path.mem_toString_ofString (by decide) (by decide) hc)

end Clang

namespace Step
variable {α : Type} {sees : Path → Bool}

/-- In a file system with the executable files `sees`, the step ends so and in no other way. -/
def Gives (sees : Path → Bool) (s : Step α) (r : Except Failure α) : Prop :=
  (∃ t j, s.Runs t j r ∧ t.Sees sees) ∧ ∀ t j r', s.Runs t j r' → t.Sees sees → r' = r

def easy (sees : Path → Bool) : (q : Request) → q.Answer
  | .isExecutable p => sees p
  | q => Surroundings.obliging q

theorem agrees_easy (sees : Path → Bool) (q : Request) : agrees sees ⟨q, easy sees q⟩ := by
  cases q with
  | isExecutable p =>
    have heasy : easy sees (.isExecutable p) = sees p := rfl
    cases h : sees p with
    | true =>
      rw [heasy, h]
      exact h
    | false =>
      rw [heasy, h]
      exact (Bool.not_eq_true' _).mpr h
  | _ => rfl

theorem exists_sees (sees : Path → Bool) (s : Step α) :
    ∃ t j r, s.Runs t j r ∧ t.Sees sees ∧ ∀ ev ∈ t, ev.2 = easy sees ev.1 := by
  obtain ⟨t, ⟨j, r⟩, h, heasy⟩ := Program.exists_answered (easy sees) s.run
  refine ⟨t, j, r, h, ?_, heasy⟩
  rintro ⟨q, x⟩ hev
  obtain rfl : x = easy sees q := heasy _ hev
  exact agrees_easy sees q

theorem Gives.of_runs {s : Step α} {r : Except Failure α}
    (h : ∀ t j r', s.Runs t j r' → t.Sees sees → r' = r) : s.Gives sees r := by
  obtain ⟨t, j, r', hr, hs, -⟩ := exists_sees sees s
  obtain rfl := h t j r' hr hs
  exact ⟨⟨t, j, hr, hs⟩, h⟩

end Step

theorem Clang.search_gives (sees : Path → Bool) (list : String) :
    (search list).Gives sees (.ok (firstSeen sees (listed list))) :=
  .of_runs fun t j r h hs => by
    obtain ⟨-, found, rfl, hf⟩ := search_finds h
    rw [hf.eq_firstSeen hs]

namespace CompilerInstaller
variable {i : CompilerInstaller} {c : Compiler} {directory : Path} {env : Env} {t : Trace}
  {j : Journal} {sees : Path → Bool}

def Installed (i : CompilerInstaller) (t : Trace) : Prop :=
  i.template.filter (· ≠ "") = none ∨ ∃ ev ∈ t, isSuccess ev

theorem runInstallation_eq_ok {template : String} {r : Except Failure Unit}
    (h : (runInstallation template c directory env).Runs t j r) :
    r = .ok () ↔ ∃ ev ∈ t, isSuccess ev := by
  rcases runInstallation_runs h with ⟨e, -, rfl, -, rfl⟩ |
    ⟨line, -, ⟨e, rfl, -, rfl⟩ | ⟨x, rfl, -, rfl⟩⟩
  · simp
  · simp [isSuccess]
  · refine LaunchResult.outcome_eq_ok.trans ?_
    cases x <;> simp [isSuccess]

theorem install_searches {r : Except Failure (List (String × String))}
    (h : (i.install c directory env).Runs t j r) (hi : i.Installed t) (hs : t.Sees sees) :
    r = searchOutcome c directory env
      (Clang.firstSeen sees (Clang.places directory (env.get? "PATH"))) := by
  cases install_runs h with
  | @failed template _ j' e ht hr =>
    rcases hi with hi | hi
    · rw [ht] at hi
      cases hi
    · cases (runInstallation_eq_ok hr).mpr hi
  | @installed template t j u found ht h hl =>
    rw [hl.eq_firstSeen (hs.mono (List.subset_append_right t u))]
  | present ht hl => rw [hl.eq_firstSeen hs]

def conclude (c : Compiler) (directory : Path) (env : Env) :
    Option Path → Step (List (String × String))
  | none => .fail (.release (.provisioning (.clangMissing (directory / "bin") c.name)))
  | some found => do
    .log (c.envVar ++ "=" ++ found.toString)
    pure [(c.envVar, found.toString), ("PATH", extendedPath found ((env.get? "PATH").getD ""))]

theorem conclude_reports {searchPath : Option String} {vars : List (String × String)}
    (h : (Clang.locate directory searchPath >>= conclude c directory env).Runs t j (.ok vars)) :
    ∃ v w, vars = [(c.envVar, v), w] ∧ j.logs.getLast? = some (c.envVar ++ "=" ++ v) := by
  obtain ⟨t₁, t₂, found, -, -, h₁⟩ := Clang.runs_locate_bind h
  cases found with
  | none =>
    obtain ⟨-, -, hr⟩ := Step.runs_fail.mp h₁
    cases hr
  | some found =>
    obtain ⟨j₁, rfl, h₂⟩ := Step.runs_log_bind.mp h₁
    obtain ⟨-, rfl, hr⟩ := Step.runs_pure.mp h₂
    cases hr
    exact ⟨_, _, rfl, rfl⟩

theorem install_reports {vars : List (String × String)}
    (h : (i.install c directory env).Runs t j (.ok vars)) :
    ∃ v w, vars = [(c.envVar, v), w] ∧ j.logs.getLast? = some (c.envVar ++ "=" ++ v) := by
  unfold install at h
  cases ht : i.template.filter (· ≠ "") with
  | none =>
    rw [ht] at h
    exact conclude_reports h
  | some template =>
    rw [ht] at h
    rcases Step.runs_bind.mp h with ⟨e, he, -⟩ | ⟨t₁, t₂, j₁, j₂, ⟨⟩, rfl, rfl, -, h₁⟩
    · cases he
    · obtain ⟨v, w, hvars, hj⟩ := conclude_reports h₁
      exact ⟨v, w, hvars, by simp [hj]⟩

/-- The installer names the directory in its report, in the variable of the compiler and at the
front of the search path, where the next search finds it. -/
structure Announces (sees : Path → Bool) (c : Compiler) (old : String) (d : Path) (j : Journal)
    (r : Except Failure (List (String × String))) : Prop where
  returned : r = .ok [(c.envVar, d.toString), ("PATH", extendedPath d old)]
  reported : j.logs.getLast? = some (c.envVar ++ "=" ++ d.toString)
  again : (Clang.search (extendedPath d old)).Gives sees (.ok (some d))

theorem runInstallation_easy {template line : String} {r : Except Failure Unit}
    (hl : render template c.version directory = .ok line)
    (h : (runInstallation template c directory env).Runs t j r)
    (he : ∀ ev ∈ t, ev.2 = Step.easy sees ev.1) : r = .ok () := by
  rcases runInstallation_runs h with ⟨e, hr, -⟩ | ⟨_, -, ⟨e, rfl, -⟩ | ⟨x, rfl, -⟩⟩
  · rw [hl] at hr
    cases hr
  · cases he ⟨.makeDirectories directory, .error e⟩ (by simp)
  · obtain rfl : x = .finished ⟨0, "", ""⟩ := he ⟨.start (launch _ env), x⟩ (by simp)
    exact (runInstallation_eq_ok h).mpr ⟨_, List.mem_cons_of_mem _ List.mem_cons_self, rfl⟩

theorem exists_installed (sees : Path → Bool)
    (hr : ∀ template, i.template.filter (· ≠ "") = some template →
      ∃ line, render template c.version directory = .ok line) :
    ∃ t j r, (i.install c directory env).Runs t j r ∧ i.Installed t ∧ t.Sees sees := by
  obtain ⟨t, j, r, h, hs, he⟩ := Step.exists_sees sees (i.install c directory env)
  refine ⟨t, j, r, h, ?_, hs⟩
  cases install_runs h with
  | @failed template _ j' e ht hf =>
    obtain ⟨line, hl⟩ := hr template ht
    cases runInstallation_easy hl hf he
  | @installed template t j' u found ht hf hl =>
    obtain ⟨ev, hev, hsuccess⟩ := (runInstallation_eq_ok hf).mp rfl
    exact .inr ⟨ev, List.mem_append_left u hev, hsuccess⟩
  | present ht hl => exact .inl ht

/-- Once the command of an installer has ended with zero, or where there is none: the installer
finds clang if the file system has it in the directory of the installation or in an element of the
search path, and is refused otherwise. -/
theorem install_finds_clang (i : CompilerInstaller) (c : Compiler) (directory : Path) (env : Env)
    (sees : Path → Bool) (hd : ':' ∉ directory.toString.toList) :
    let old := (env.get? "PATH").getD ""
    let available := sees (directory / "bin" / "clang") ∨
      ∃ element ∈ Clang.listed old, sees (Path.ofString element / "clang")
    (∀ t j r, (i.install c directory env).Runs t j r → i.Installed t → t.Sees sees →
      (available → ∃ d, Clang.Holds sees directory (Clang.listed old) d ∧
        Announces sees c old d j r) ∧
      (¬ available →
        r = .error (.release (.provisioning (.clangMissing (directory / "bin") c.name))))) ∧
    ((∀ template, i.template.filter (· ≠ "") = some template →
        ∃ line, render template c.version directory = .ok line) →
      ∃ t j r, (i.install c directory env).Runs t j r ∧ i.Installed t ∧ t.Sees sees) := by
  intro old available
  refine ⟨fun t j r h hi hs => ?_, exists_installed sees⟩
  have hplaces : Clang.places directory (env.get? "PATH") =
      (directory / "bin").toString :: Clang.listed old := by
    rw [Clang.places, Clang.listed_directory (Clang.not_mem_bin hd)]
    rfl
  have hr := install_searches h hi hs
  rw [hplaces] at hr
  cases hfound : Clang.firstSeen sees ((directory / "bin").toString :: Clang.listed old) with
  | none =>
    rw [hfound] at hr
    exact ⟨fun ha => absurd ha (Clang.firstSeen_eq_none_iff.mp hfound), fun _ => hr⟩
  | some d =>
    rw [hfound] at hr
    have hholds := Clang.holds_of_firstSeen hfound
    refine ⟨fun _ => ⟨d, hholds, hr, ?_, ?_⟩, fun hno => ?_⟩
    · obtain ⟨v, w, hvars, hlast⟩ := install_reports (hr ▸ h)
      cases hvars
      exact hlast
    · have hagain := Clang.search_gives sees (extendedPath d old)
      rw [Clang.listed_extendedPath (hholds.not_mem hd), Clang.firstSeen_cons,
        Clang.candidate_toString, if_pos hholds.seen, Path.ofString_toString] at hagain
      exact hagain
    · rw [Clang.firstSeen_eq_none_iff.mpr hno] at hfound
      cases hfound

open Simulation in
/-- In the directory of the installation clang is a directory itself, and in the current one it may
not be executed; the third element of the search path has it. -/
def scatteredTree : FileTree :=
  ((FileTree.empty.put ["work", "build", "llvm", "bin", "clang"] .directory).put
    ["work", "clang"] (.file [] false)).put ["work", "opt", "llvm", "clang"] (.file [] true)

open Simulation in
theorem scatteredTree_finds_clang :
    let w : World :=
      { cwd := Path.ofString "/work", clock := "", tree := scatteredTree, rules := [],
        answers := [], cancelled := false, started := [], sent := [] }
    let i : CompilerInstaller := ⟨none⟩
    let directory := Path.ofString "build/llvm"
    let env : Env := ⟨[("PATH", "/usr/bin::opt/./llvm//")]⟩
    let old := (env.get? "PATH").getD ""
    let sees := scatteredTree.isExecutable w.cwd
    ':' ∉ directory.toString.toList ∧
    ∃ t j r, (i.install (.llvm "11.0") directory env).Runs t j r ∧ i.Installed t ∧
      t.Sees sees ∧ ∃ d, d.toString = "opt/llvm" ∧
        Clang.Holds sees directory (Clang.listed old) d ∧
        Announces sees (.llvm "11.0") old d j r := by
  intro w i directory env old sees
  let step := i.install (.llvm "11.0") directory env
  have hd : ':' ∉ directory.toString.toList := by decide +kernel
  have hrun := Step.runs_trace World.answer step w
  have hs : Trace.Sees sees (step.run.trace World.answer w) := by decide +kernel
  have hvars : (step.run.runWith World.answer w).1.2.toOption.bind List.head? =
      some ("LIBCLANG_PATH", "opt/llvm") := by decide +kernel
  generalize step.run.trace World.answer w = t at hrun hs
  generalize step.run.runWith World.answer w = o at hrun hvars
  have hi : i.Installed t := .inl rfl
  have hall := (install_finds_clang i (.llvm "11.0") directory env sees hd).1 _ _ _ hrun hi hs
  obtain ⟨d, hholds, ha⟩ := hall.1 (.inr ⟨"opt/./llvm//", by decide +kernel, by decide +kernel⟩)
  have hfirst : ("LIBCLANG_PATH", d.toString) = ("LIBCLANG_PATH", "opt/llvm") := by
    rw [ha.returned] at hvars
    exact Option.some.inj hvars
  exact ⟨hd, t, _, _, hrun, hi, hs, d, (Prod.mk.inj hfirst).2, hholds, ha⟩

end CompilerInstaller
end BindingRelease
