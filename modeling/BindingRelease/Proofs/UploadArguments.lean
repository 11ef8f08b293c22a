import Mathlib.Data.List.TakeWhile
import BindingRelease.Proofs.ClangSearch
import BindingRelease.Proofs.HostUploads
/-!
The upload argument of the host's tool. The tool reads a file up to the first number sign and a
label behind it, so the argument names the file that was looked for just if no number sign stands in
its path.
-/
namespace BindingRelease

theorem Text.exists_mem_splitChars {sep c : Char} {cs : List Char} (hc : c ≠ sep) (h : c ∈ cs) :
    ∃ w ∈ splitChars sep cs, c ∈ w := by
  induction cs with
  | nil => cases h
  | cons d cs ih =>
    by_cases hd : d = sep
    · obtain ⟨w, hw, hcw⟩ := ih ((List.mem_cons.mp h).resolve_left (hd ▸ hc))
      exact ⟨w, by simp [splitChars, hd, hw], hcw⟩
    · rw [splitChars, if_neg hd]
      cases hs : splitChars sep cs with
      | nil =>
        rcases List.mem_cons.mp h with rfl | h
        · exact ⟨[c], by simp⟩
        · obtain ⟨w, hw, -⟩ := ih h
          simp [hs] at hw
      | cons v vs =>
        rcases List.mem_cons.mp h with rfl | h
        · exact ⟨c :: v, by simp⟩
        · obtain ⟨w, hw, hcw⟩ := ih h
          rcases List.mem_cons.mp (hs ▸ hw) with rfl | hw
          · exact ⟨d :: w, by simp, List.mem_cons_of_mem d hcw⟩
          · exact ⟨w, by simp [hw], hcw⟩

namespace Path
variable {p q : Path} {c : Char}

theorem mem_toString_append (hs : c ≠ '/') (hd : c ≠ '.') :
    c ∈ (p / q).toString.toList ↔
      c ∈ q.toString.toList ∨ q.anchor = .relative ∧ c ∈ p.toString.toList := by
  simp only [mem_toString hs hd]
  by_cases hq : q.anchor = .relative
  · simp [parts_append hq, hq, or_and_right, exists_or, or_comm]
  · simp [append_of_absolute (q := q) (by simp [isAbsolute, hq]), hq]

theorem mem_toString_ofString_iff {s : String} (hs : c ≠ '/') (hd : c ≠ '.') :
    c ∈ (ofString s).toString.toList ↔ c ∈ s.toList := by
  refine ⟨mem_toString_ofString hs hd, fun h => (mem_toString hs hd).mpr ?_⟩
  obtain ⟨w, hw, hc⟩ := Text.exists_mem_splitChars hs h
  have hpart : IsPart w := ⟨List.ne_nil_of_mem hc, fun he => hd (by simpa [he] using hc),
    (Text.mem_splitChars hw).1⟩
  have hpart : String.ofList w ∈ (ofString s).parts :=
    List.mem_filter.mpr ⟨List.mem_map.mpr ⟨w, hw, rfl⟩, by simpa using hpart⟩
  exact ⟨_, hpart, by simpa using hc⟩

end Path

namespace HostTool
variable {file : Path} {asset s : String}

/-- How the tool reads an upload argument: the file, and the label behind the first number sign. -/
def readArgument (argument : String) : String × Option String :=
  (String.ofList (argument.toList.takeWhile (· ≠ '#')),
    match argument.toList.dropWhile (· ≠ '#') with
    | [] => none
    | _ :: label => some (String.ofList label))

theorem unmarked_iff : (∀ c ∈ s.toList, decide (c ≠ '#') = true) ↔ '#' ∉ s.toList := by
  simp only [decide_eq_true_eq]
  exact ⟨fun h hc => h _ hc rfl, fun h c hc he => h (he ▸ hc)⟩

theorem readArgument_plain (h : '#' ∉ s.toList) : readArgument s = (s, none) := by
  have hall := unmarked_iff.mpr h
  rw [readArgument, List.takeWhile_eq_self_iff.mpr hall, List.dropWhile_eq_nil_iff.mpr hall,
    String.ofList_toList]

theorem readArgument_labelled (h : '#' ∉ s.toList) (label : String) :
    readArgument (s ++ "#" ++ label) = (s, some label) := by
  have hall := unmarked_iff.mpr h
  have hs : (s ++ "#" ++ label).toList = s.toList ++ '#' :: label.toList := by simp
  rw [readArgument, hs, List.takeWhile_append_of_pos hall, List.dropWhile_append_of_pos hall]
  simp

theorem not_mem_readArgument (argument : String) : '#' ∉ (readArgument argument).1.toList := by
  intro h
  have h : '#' ∈ argument.toList.takeWhile (· ≠ '#') := by simpa [readArgument] using h
  simpa using List.mem_takeWhile_imp h

theorem readArgument_argument (h : '#' ∉ file.toString.toList) :
    readArgument (argument file asset) =
      (file.toString, if file.name = asset then none else some asset) := by
  unfold argument
  split
  · exact readArgument_plain h
  · exact readArgument_labelled h asset

theorem readArgument_argument_of_mem (h : '#' ∈ file.toString.toList) :
    (readArgument (argument file asset)).1.toList = file.toString.toList.takeWhile (· ≠ '#') := by
  have hshort : (file.toString.toList.takeWhile (· ≠ '#')).length ≠ file.toString.toList.length :=
    fun hl => unmarked_iff.mp
      (List.takeWhile_eq_self_iff.mp ((List.takeWhile_prefix _).eq_of_length hl)) h
  simp only [readArgument, String.toList_ofList, argument]
  split
  · rfl
  · rw [String.append_assoc, String.toList_append, List.takeWhile_append, if_neg hshort]

def Names (argument : String) (file : Path) (asset : String) : Prop :=
  Path.ofString (readArgument argument).1 = file ∧
    (readArgument argument).2 = if file.name = asset then none else some asset

theorem ofString_readArgument_ne (h : '#' ∈ file.toString.toList) (argument : String) :
    Path.ofString (readArgument argument).1 ≠ file := by
  rintro rfl
  exact not_mem_readArgument argument (Path.mem_toString_ofString (by decide) (by decide) h)

theorem names_argument_iff :
    Names (argument file asset) file asset ↔ '#' ∉ file.toString.toList := by
  constructor
  · rintro ⟨hfile, -⟩ h
    exact ofString_readArgument_ne h _ hfile
  · intro h
    simp only [Names, readArgument_argument h, Path.ofString_toString, and_self]

/-- A number sign stands in the name of the artifact, or in a directory that it is looked for in. -/
def Marked (workspace bindingDir : Path) (artifact : String) : Prop :=
  '#' ∈ artifact.toList ∨ (Path.ofString artifact).anchor = .relative ∧
    ('#' ∈ bindingDir.toString.toList ∨
      bindingDir.anchor = .relative ∧ '#' ∈ workspace.toString.toList)

instance {workspace bindingDir : Path} {artifact : String} :
    Decidable (Marked workspace bindingDir artifact) :=
  inferInstanceAs (Decidable (_ ∨ _))

theorem marked_iff {workspace bindingDir : Path} {e : Entry} :
    '#' ∈ (Invocation.ofEntry e (workspace / bindingDir)).artifactPath.toString.toList ↔
      Marked workspace bindingDir e.artifact := by
  have hjoin {p q : Path} : '#' ∈ (p / q).toString.toList ↔
      '#' ∈ q.toString.toList ∨ q.anchor = .relative ∧ '#' ∈ p.toString.toList :=
    Path.mem_toString_append (by decide) (by decide)
  have hname : '#' ∈ (Path.ofString e.artifact).toString.toList ↔ '#' ∈ e.artifact.toList :=
    Path.mem_toString_ofString_iff (by decide) (by decide)
  have hpath : (Invocation.ofEntry e (workspace / bindingDir)).artifactPath =
      workspace / bindingDir / Path.ofString e.artifact := rfl
  rw [hpath, hjoin, hjoin, hname, Marked]

/-- Publishing with the tool looks for the artifact and hands it on in an upload argument. The tool
reads the argument as this file, with the label that it should have, if and only if no number sign
stands in the path; else it takes the path up to the first one for the file. -/
theorem argument_names_artifact_iff {tool : HostTool} {ambient : Env} {target : Target}
    {workspace bindingDir : Path} {e : Entry} {t : Trace} {j : Journal} {r : Except Failure Upload}
    (h₀ : ((Adapter.tool tool).publish ambient
      (Invocation.ofEntry e (workspace / bindingDir)).artifactPath e.artifact target).Runs t j r) :
    let file := (Invocation.ofEntry e (workspace / bindingDir)).artifactPath
    let given := argument file e.artifact
    ((∃ seen, seen ≠ .ok true ∧ t = [⟨.isFile file, seen⟩]) ∨
      ∃ p x more, t = [⟨.isFile file, Except.ok true⟩, ⟨.start p, x⟩] ∧
        p.command = .words ([tool.program, "release", "upload", target.tag, given] ++ more)) ∧
    (Names given file e.artifact ↔ ¬ Marked workspace bindingDir e.artifact) ∧
    (Marked workspace bindingDir e.artifact → Path.ofString (readArgument given).1 ≠ file ∧
      (readArgument given).1.toList = file.toString.toList.takeWhile (· ≠ '#')) := by
  intro file given
  refine ⟨?_, names_argument_iff.trans (not_congr marked_iff), fun hmarked => ?_⟩
  · rcases Adapter.publish_runs h₀ with ⟨seen, hs, ht, -⟩ | ⟨u, k, rfl, hu⟩
    · exact .inl ⟨seen, hs, ht⟩
    · obtain ⟨x, rfl, -⟩ := upload_runs hu
      exact .inr ⟨_, x, _, rfl, rfl⟩
  · have h := marked_iff.mpr hmarked
    exact ⟨ofString_readArgument_ne h given, readArgument_argument_of_mem h⟩

theorem nestedArtifact_is_named :
    let e : Entry := ⟨"ubuntu-latest", "out/lib.so", "build.sh", none⟩
    let file := (Invocation.ofEntry e (Path.ofString "/work" / Path.ofString "ffi")).artifactPath
    Names (argument file e.artifact) file e.artifact ∧ file.name ≠ e.artifact := by
  intro e file
  let tool : HostTool := ⟨some "owner/bindings", "gh"⟩
  let answer (q : Request) (_ : Unit) : q.Answer × Unit := (Surroundings.obliging q, ())
  have hrun := Step.runs_trace answer
    ((Adapter.tool tool).publish .empty file e.artifact ⟨"v1", "token", none⟩) ()
  exact ⟨(argument_names_artifact_iff hrun).2.1.mpr (by decide +kernel), by decide +kernel⟩

/-- The library of a binding in a directory with a number sign is looked for there, but the argument
names another file. -/
theorem markedDirectory_is_misnamed :
    let e : Entry := ⟨"ubuntu-latest", "lib.so", "build.sh", none⟩
    let file := (Invocation.ofEntry e (Path.ofString "/work" / Path.ofString "out#1")).artifactPath
    let tool : HostTool := ⟨some "owner/bindings", "gh"⟩
    let target : Target := ⟨"v1", "token", none⟩
    let answer (q : Request) (_ : Unit) : q.Answer × Unit := (Surroundings.obliging q, ())
    let publishing := (Adapter.tool tool).publish .empty file e.artifact target
    (publishing.run.trace answer ()).map Sigma.fst =
        [.isFile file, .start (tool.launch .empty file e.artifact target)] ∧
      tool.command target.tag file e.artifact =
        ["gh", "release", "upload", "v1", "/work/out#1/lib.so", "--repo", "owner/bindings"] ∧
      readArgument "/work/out#1/lib.so" = ("/work/out", some "1/lib.so") ∧
      Path.ofString "/work/out" ≠ file := by
  intro e file tool target answer publishing
  exact ⟨by rfl, by decide +kernel⟩

end HostTool
end BindingRelease
