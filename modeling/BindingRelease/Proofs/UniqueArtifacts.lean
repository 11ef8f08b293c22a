import Mathlib.Data.List.Nodup
import BindingRelease.Proofs.MatrixFiles
import BindingRelease.Proofs.RoundTrip
/-!
The names of artifacts are unique. A list of entries makes a matrix just if no two of them have one
name; else the error lists the names that occur again, in ascending order. Whatever way a matrix
comes about, it keeps some entries of such a list, so a name finds the one entry that has it.
-/
namespace BindingRelease

theorem nodup_eraseDups {α : Type} [BEq α] [LawfulBEq α] (l : List α) : l.eraseDups.Nodup := by
  induction hn : l.length using Nat.strongRecOn generalizing l with
  | ind n ih =>
    cases l with
    | nil => simp
    | cons a l =>
      have hrest : (l.filter fun b => !b == a).length < n :=
        hn ▸ Nat.lt_succ_of_le (List.length_filter_le _ _)
      rw [List.eraseDups_cons]
      exact List.nodup_cons.mpr ⟨by simp [List.mem_eraseDups], ih _ hrest _ rfl⟩

namespace Matrix
variable {m : Matrix} {es : List Entry}

theorem mem_repeated {names : List String} {n : String} :
    n ∈ repeated names ↔ 2 ≤ names.count n := by
  rw [repeated, (List.mergeSort_perm _ _).mem_iff, List.mem_filter, List.mem_eraseDups,
    decide_eq_true_eq]
  exact and_iff_right_of_imp fun h => List.count_pos_iff.mp (Nat.lt_of_succ_lt h)

theorem repeated_ascending (names : List String) : (repeated names).Pairwise (· < ·) := by
  have hsorted : (repeated names).Pairwise (· ≤ ·) := by
    have htrans (a b c : String) (hab : decide (a ≤ b)) (hbc : decide (b ≤ c)) : decide (a ≤ c) :=
      decide_eq_true (String.le_trans (of_decide_eq_true hab) (of_decide_eq_true hbc))
    have htotal (a b : String) : (decide (a ≤ b) || decide (b ≤ a)) = true := by
      simpa using String.le_total a b
    simpa [repeated] using
      List.pairwise_mergeSort htrans htotal (names.eraseDups.filter (names.count · > 1))
  have hdistinct : (repeated names).Nodup :=
    (List.mergeSort_perm _ _).nodup_iff.mpr ((nodup_eraseDups names).filter _)
  refine hsorted.imp₂ (fun a b hle hne => ?_) hdistinct
  exact String.not_le.mp fun hge => hne (String.le_antisymm hle hge)

theorem ofEntries_eq_error {e : ConfigurationError} (h : ofEntries es = .error e) :
    e = .duplicateArtifacts (repeated (es.map Entry.artifact)) := by
  unfold ofEntries at h
  split at h <;> cases h
  rfl

theorem exists_ofEntries_iff : (∃ m, ofEntries es = .ok m) ↔ (es.map Entry.artifact).Nodup := by
  refine ⟨?_, fun hd => ⟨⟨es, hd⟩, dif_pos hd⟩⟩
  rintro ⟨m, hm⟩
  rw [ofEntries_eq_ok.mp hm]
  exact m.distinct

theorem get_eq_ok {name : String} {e : Entry} :
    m.get name = .ok e ↔ e ∈ m.entries ∧ e.artifact = name := by
  have sound {e : Entry} (h : m.get name = .ok e) : e ∈ m.entries ∧ e.artifact = name := by
    unfold get at h
    split at h <;> cases h
    rename_i hf
    exact ⟨List.mem_of_find?_eq_some hf, by simpa using List.find?_some hf⟩
  refine ⟨sound, ?_⟩
  rintro ⟨he, hname⟩
  obtain ⟨e', he'⟩ : ∃ e', m.get name = .ok e' := get_of_mem (List.mem_map.mpr ⟨e, he, hname⟩)
  obtain ⟨hmem, hname'⟩ := sound he'
  rwa [List.inj_on_of_nodup_map m.distinct he hmem (hname.trans hname'.symm)]

/-- How a matrix comes about, with the entries that were listed for it. -/
inductive Obtained : List Entry → Matrix → Prop
  | listed {es : List Entry} {m : Matrix} (h : ofEntries es = .ok m) : Obtained es m
  | included {items : List Value} {es : List Entry} {m : Matrix}
      (hes : entriesOfInclude 0 items = .ok es) (h : ofInclude items = .ok m) : Obtained es m
  | loaded {path : Path} {t : Trace} {j : Journal} {m : Matrix}
      (h : (load path).Runs t j (.ok m)) : Obtained m.entries m
  | selected {es : List Entry} {m m' : Matrix} {names : List String} {host : Option String}
      (hm : Obtained es m) (h : m.select names host = .ok m') : Obtained es m'

theorem Obtained.sublist (h : Obtained es m) : m.entries.Sublist es := by
  induction h with
  | listed h => rw [ofEntries_eq_ok.mp h]
  | included hes h =>
    rw [ofInclude, hes] at h
    rw [ofEntries_eq_ok.mp h]
  | loaded h => exact List.Sublist.refl _
  | selected hm h ih =>
    obtain ⟨-, rfl⟩ := select_eq_ok.mp h
    exact List.filter_sublist.trans ih

/-- Looking a name up gives the one entry that has it, and an error if there is none. -/
structure Finds (m : Matrix) : Prop where
  known : ∀ name ∈ m.artifactNames, ∃ e, m.get name = .ok e ∧
    ∀ e', e' ∈ m.entries ∧ e'.artifact = name ↔ e' = e
  unknown : ∀ name, name ∉ m.artifactNames →
    m.get name = .error (.unknownArtifact name m.artifactNames)

theorem finds (m : Matrix) : m.Finds where
  known name hname := by
    obtain ⟨e, he⟩ := get_of_mem hname
    refine ⟨e, he, fun e' => ?_⟩
    rw [← get_eq_ok, he]
    exact ⟨fun h => (Except.ok.inj h).symm, fun h => congrArg Except.ok h.symm⟩
  unknown _ := get_of_not_mem

/-- A list of entries makes a matrix of these entries just if their names are distinct. Else the
error lists the names that occur at least twice, each once and in ascending order. Every matrix that
is obtained from the list holds some of its entries, with distinct names, and finds them. -/
theorem artifacts_are_unique (es : List Entry) :
    ((∃ m, ofEntries es = .ok m) ↔ (es.map Entry.artifact).Nodup) ∧
    (∀ m, ofEntries es = .ok m → m.entries = es) ∧
    (∀ e, ofEntries es = .error e → ∃ names, e = .duplicateArtifacts names ∧
      e.message = "Artifact names must be unique within a release; duplicated: " ++
        ", ".intercalate names ++ "." ∧
      names.Pairwise (· < ·) ∧ ∀ n, n ∈ names ↔ 2 ≤ (es.map Entry.artifact).count n) ∧
    ∀ m, Obtained es m → m.entries.Sublist es ∧ m.artifactNames.Nodup ∧ m.Finds := by
  refine ⟨exists_ofEntries_iff, fun m hm => (ofEntries_eq_ok.mp hm).symm, fun e he => ?_,
    fun m hm => ⟨hm.sublist, m.distinct, m.finds⟩⟩
  obtain rfl := ofEntries_eq_error he
  exact ⟨_, rfl, rfl, repeated_ascending _, fun n => mem_repeated⟩

theorem macosEntries_are_unique :
    let twice : List Entry := builtIn.entries.drop 7 ++ builtIn.entries.drop 4
    (∃ e names, ofEntries twice = .error e ∧
      e.message = "Artifact names must be unique within a release; duplicated: " ++
        ", ".intercalate names ++ "." ∧
      "libisar_macos_x64.dylib" ∈ names ∧ "libisar_ios.a" ∉ names) ∧
    ∃ m, builtIn.select [] (some macosLatest) = .ok m ∧ Obtained builtIn.entries m ∧
      m.entries.Sublist builtIn.entries ∧ m.artifactNames.Nodup ∧
      (∃ e, m.get "libisar_ios.a" = .ok e ∧ e.script = "build_ios.sh") ∧
      m.get "isar_windows_x64.dll" =
        .error (.unknownArtifact "isar_windows_x64.dll" m.artifactNames) := by
  intro twice
  obtain ⟨hok, -, herr, -⟩ := artifacts_are_unique twice
  constructor
  · cases h : ofEntries twice with
    | ok m => exact absurd (hok.mp ⟨m, h⟩) (by decide +kernel)
    | error e =>
      obtain ⟨names, -, hmessage, -, hnames⟩ := herr e h
      exact ⟨e, names, rfl, hmessage, (hnames _).mpr (by decide +kernel),
        fun h => absurd ((hnames _).mp h) (by decide +kernel)⟩
  · let m := builtIn.filter (wanted [] (some macosLatest))
    have hs : builtIn.select [] (some macosLatest) = .ok m := select_eq_ok.mpr ⟨by simp, rfl⟩
    have hm : Obtained builtIn.entries m := .selected (.listed (ofEntries_eq_ok.mpr rfl)) hs
    obtain ⟨hsub, hd, hfinds⟩ := (artifacts_are_unique builtIn.entries).2.2.2 m hm
    obtain ⟨e, he, honly⟩ := hfinds.known "libisar_ios.a" (by decide +kernel)
    have hios := (honly ⟨macosLatest, "libisar_ios.a", "build_ios.sh", none⟩).mp (by decide +kernel)
    exact ⟨m, hs, hm, hsub, hd, ⟨e, he, hios ▸ rfl⟩, hfinds.unknown _ (by decide +kernel)⟩

end Matrix
end BindingRelease
