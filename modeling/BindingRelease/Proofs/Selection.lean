import BindingRelease.Matrix
/-!
Selections of a matrix. A name that it does not have is the error, the first one in the order of
the names; else what is selected is the matrix without the entries that are not wanted. The name of
an artifact selects its entry alone, since no two entries share one. A selection can be told by its
entries alone, and made in two steps, of which that by the names should come first.
-/
namespace BindingRelease
namespace Matrix
variable {m : Matrix} {names : List String} {host : Option String}

theorem ext_entries {m m' : Matrix} (h : m.entries = m'.entries) : m = m' := by
  obtain ⟨es, hd⟩ := m
  obtain ⟨es', hd'⟩ := m'
  cases h
  rfl

theorem get_of_mem {name : String} (h : name ∈ m.artifactNames) : ∃ e, m.get name = .ok e := by
  unfold get
  cases hf : m.entries.find? fun e => e.artifact = name with
  | some e => exact ⟨e, rfl⟩
  | none =>
    obtain ⟨e, he, rfl⟩ := List.mem_map.mp h
    exact absurd (decide_eq_true rfl) (List.find?_eq_none.mp hf e he)

theorem get_of_not_mem {name : String} (h : name ∉ m.artifactNames) :
    m.get name = .error (.unknownArtifact name m.artifactNames) := by
  have hf : m.entries.find? (fun e => e.artifact = name) = none := by
    refine List.find?_eq_none.mpr fun e he hname => h ?_
    exact List.mem_map.mpr ⟨e, he, of_decide_eq_true hname⟩
  simp only [get, hf]

theorem checkNames_eq (m : Matrix) (names : List String) :
    m.checkNames names = match names.find? fun n => n ∉ m.artifactNames with
      | some n => .error (.unknownArtifact n m.artifactNames)
      | none => .ok () := by
  induction names with
  | nil => rfl
  | cons n names ih =>
    by_cases hn : n ∈ m.artifactNames
    · obtain ⟨e, he⟩ := get_of_mem hn
      rw [checkNames, he, List.find?_cons_of_neg (by simpa using hn), ← ih]
      rfl
    · rw [checkNames, get_of_not_mem hn, List.find?_cons_of_pos (by simpa using hn)]
      rfl

def wanted (names : List String) (host : Option String) (e : Entry) : Bool :=
  (names = [] || names.contains e.artifact) &&
    match host.filter (· ≠ "") with
    | some h => e.host == h
    | none => true

theorem select_eq (m : Matrix) (names : List String) (host : Option String) :
    m.select names host = (m.checkNames names).map fun _ => m.filter (wanted names host) := by
  have hnames : (if names = [] then m else m.filter fun e => names.contains e.artifact) =
      m.filter fun e => names = [] || names.contains e.artifact := by
    by_cases hn : names = []
    · rw [if_pos hn]
      refine ext_entries (List.filter_eq_self.mpr fun e _ => ?_).symm
      simp [hn]
    · rw [if_neg hn]
      exact ext_entries (by simp [filter, hn])
  rw [select, hnames]
  cases m.checkNames names with
  | error e => rfl
  | ok _ =>
    unfold wanted
    cases host.filter (· ≠ "") with
    | some h => exact congrArg Except.ok (ext_entries (by simp [filter, Bool.and_comm]))
    | none => exact congrArg Except.ok (ext_entries (by simp [filter]))

theorem select_subset {m' : Matrix} (h : m.select names host = .ok m') :
    ∀ e ∈ m'.entries, e ∈ m.entries ∧ (names ≠ [] → e.artifact ∈ names) := by
  rw [select_eq] at h
  cases hc : m.checkNames names with
  | error e =>
    rw [hc] at h
    cases h
  | ok _ =>
    rw [hc] at h
    cases h
    intro e he
    obtain ⟨hm, hw⟩ := List.mem_filter.mp he
    refine ⟨hm, fun hne => ?_⟩
    simp only [wanted, hne, Bool.and_eq_true] at hw
    simpa using hw.1

theorem filter_artifact {es : List Entry} (hd : (es.map Entry.artifact).Nodup) {e : Entry}
    (he : e ∈ es) : es.filter (fun e' => e'.artifact = e.artifact) = [e] := by
  induction es with
  | nil => cases he
  | cons e' es ih =>
    obtain ⟨hnew, hd⟩ := List.nodup_cons.mp hd
    rcases List.mem_cons.mp he with rfl | he
    · have hrest : es.filter (fun e' => e'.artifact = e.artifact) = [] := by
        refine List.filter_eq_nil_iff.mpr fun e' he' hname => hnew ?_
        exact List.mem_map.mpr ⟨e', he', of_decide_eq_true hname⟩
      rw [List.filter_cons_of_pos (by simp), hrest]
    · have hne : e'.artifact ≠ e.artifact := fun hname =>
        hnew (List.mem_map.mpr ⟨e, he, hname.symm⟩)
      rw [List.filter_cons_of_neg (by simpa using hne), ih hd he]

theorem select_name {e : Entry} (he : e ∈ m.entries) :
    ∃ m', m.select [e.artifact] none = .ok m' ∧ m'.entries = [e] := by
  have hname : e.artifact ∈ m.artifactNames := List.mem_map.mpr ⟨e, he, rfl⟩
  have hcheck : m.checkNames [e.artifact] = .ok () := by
    rw [checkNames_eq, List.find?_cons_of_neg (by simpa using hname), List.find?_nil]
  refine ⟨m.filter (wanted [e.artifact] none), ?_, ?_⟩
  · rw [select_eq, hcheck]
    rfl
  · rw [← filter_artifact m.distinct he]
    exact List.filter_congr fun e' _ => by simp [wanted]

theorem select_unknown {name : String} (h : name ∉ m.artifactNames) :
    m.select [name] host = .error (.unknownArtifact name m.artifactNames) := by
  rw [select_eq, checkNames_eq, List.find?_cons_of_pos (by simpa using h)]
  rfl

/-! What a selection is. -/

theorem wanted_iff {e : Entry} : wanted names host e ↔
    (names ≠ [] → e.artifact ∈ names) ∧ ∀ h ∈ host, h ≠ "" → e.host = h := by
  have hname : (names = [] || names.contains e.artifact) = true ↔
      (names ≠ [] → e.artifact ∈ names) := by
    simp [Decidable.or_iff_not_imp_left]
  rw [wanted, Bool.and_eq_true, hname]
  refine and_congr_right fun _ => ?_
  cases host with
  | none => simp
  | some h => by_cases hh : h = "" <;> simp [Option.filter, hh]

theorem checkNames_eq_ok : m.checkNames names = .ok () ↔ ∀ n ∈ names, n ∈ m.artifactNames := by
  rw [checkNames_eq]
  cases hf : names.find? fun n => n ∉ m.artifactNames with
  | none => simpa using hf
  | some n =>
    have hn := List.find?_some hf
    simp only [decide_eq_true_eq] at hn
    simpa using ⟨n, List.mem_of_find?_eq_some hf, hn⟩

theorem select_eq_ok {m' : Matrix} : m.select names host = .ok m' ↔
    (∀ n ∈ names, n ∈ m.artifactNames) ∧ m' = m.filter (wanted names host) := by
  rw [select_eq, ← checkNames_eq_ok]
  cases m.checkNames names with
  | error e => simp [Except.map]
  | ok _ => simp [Except.map, eq_comm]

theorem select_eq_error {e : ConfigurationError} (h : m.select names host = .error e) :
    ∃ n ∈ names, n ∉ m.artifactNames ∧ e = .unknownArtifact n m.artifactNames := by
  rw [select_eq, checkNames_eq] at h
  cases hf : names.find? fun n => n ∉ m.artifactNames with
  | none =>
    rw [hf] at h
    cases h
  | some n =>
    rw [hf] at h
    cases h
    exact ⟨n, List.mem_of_find?_eq_some hf, by simpa using List.find?_some hf, rfl⟩

theorem entries_nodup (m : Matrix) : m.entries.Nodup :=
  List.Pairwise.of_map Entry.artifact (fun _ _ hne h => hne (congrArg _ h)) m.distinct

theorem eq_filter_of_sublist {l l' : List Entry} (hd : l.Nodup) (h : l'.Sublist l) :
    l' = l.filter (· ∈ l') := by
  have hself : l'.filter (· ∈ l') = l' := List.filter_eq_self.mpr fun e he => decide_eq_true he
  have hsub : (l'.filter (· ∈ l')).Sublist (l.filter (· ∈ l')) := h.filter _
  rw [hself] at hsub
  have hperm : l'.Perm (l.filter (· ∈ l')) := by
    rw [List.perm_ext_iff_of_nodup (hd.sublist h) (hd.sublist List.filter_sublist)]
    intro e
    rw [List.mem_filter, decide_eq_true_eq]
    exact ⟨fun he => ⟨h.subset he, he⟩, And.right⟩
  exact hsub.eq_of_length hperm.length_eq

/-- A selection as such: the entries with a wanted name, if names are given, and on the host, if a
host is given, in the order of the matrix and each once. -/
structure Selects (m : Matrix) (names : List String) (host : Option String) (m' : Matrix) :
    Prop where
  ordered : m'.entries.Sublist m.entries
  exact : ∀ e, e ∈ m'.entries ↔ e ∈ m.entries ∧ (names ≠ [] → e.artifact ∈ names) ∧
    ∀ h ∈ host, h ≠ "" → e.host = h
  valid : ofEntries m'.entries = .ok m'

theorem selects_iff {m' : Matrix} :
    m.Selects names host m' ↔ m' = m.filter (wanted names host) := by
  constructor
  · intro h
    refine ext_entries ((eq_filter_of_sublist m.entries_nodup h.ordered).trans ?_)
    refine List.filter_congr fun e he => ?_
    rw [Bool.eq_iff_iff, decide_eq_true_eq, h.exact, wanted_iff]
    exact and_iff_right he
  · rintro rfl
    refine ⟨List.filter_sublist, fun e => ?_, dif_pos (m.filter (wanted names host)).distinct⟩
    rw [← wanted_iff]
    exact List.mem_filter

theorem wanted_congr {names' : List String} (h : ∀ n, n ∈ names ↔ n ∈ names') :
    wanted names host = wanted names' host := by
  have hnil : names = [] ↔ names' = [] := by
    simp only [List.eq_nil_iff_forall_not_mem, h]
  funext e
  rw [Bool.eq_iff_iff, wanted_iff, wanted_iff, ne_eq, hnil, h]

theorem select_congr {names' : List String} (h : ∀ n, n ∈ names ↔ n ∈ names') :
    (m.select names host).toOption = (m.select names' host).toOption := by
  have hok : ∀ m', m.select names host = .ok m' ↔ m.select names' host = .ok m' := by
    intro m'
    simp only [select_eq_ok, wanted_congr h, h]
  cases hs : m.select names host with
  | ok m' => rw [(hok m').mp hs]
  | error e =>
    cases hs' : m.select names' host with
    | ok m' =>
      rw [(hok m').mpr hs'] at hs
      cases hs
    | error e' => rfl

theorem filter_wanted (m : Matrix) (names : List String) (host : Option String) :
    (m.filter (wanted names none)).filter (wanted [] host) = m.filter (wanted names host) := by
  refine ext_entries (List.filter_filter.trans (List.filter_congr fun e _ => ?_))
  rw [Bool.eq_iff_iff, Bool.and_eq_true, wanted_iff, wanted_iff, wanted_iff]
  simp [and_comm]

theorem filter_comm (m : Matrix) (p q : Entry → Bool) :
    (m.filter p).filter q = (m.filter q).filter p :=
  ext_entries (by simp only [filter, List.filter_filter, Bool.and_comm])

theorem select_names_first (m : Matrix) (names : List String) (host : Option String) :
    m.select names host = m.select names none >>= fun m' => m'.select [] host := by
  rw [select_eq, select_eq]
  cases m.checkNames names with
  | error e => rfl
  | ok _ =>
    have h : (m.filter (wanted names none)).select [] host = .ok (m.filter (wanted names host)) :=
      select_eq_ok.mpr ⟨by simp, (filter_wanted m names host).symm⟩
    exact h.symm

theorem select_host_first {m' : Matrix}
    (h : (m.select [] host >>= fun m₁ => m₁.select names none) = .ok m') :
    m.select names host = .ok m' := by
  have hhost : m.select [] host = .ok (m.filter (wanted [] host)) := select_eq_ok.mpr ⟨by simp, rfl⟩
  rw [hhost] at h
  obtain ⟨hnames, rfl⟩ :
      (∀ n ∈ names, n ∈ (m.filter (wanted [] host)).artifactNames) ∧
        m' = (m.filter (wanted [] host)).filter (wanted names none) := select_eq_ok.mp h
  refine select_eq_ok.mpr ⟨fun n hn => ?_, ?_⟩
  · obtain ⟨e, he, rfl⟩ := List.mem_map.mp (hnames n hn)
    exact List.mem_map.mpr ⟨e, (List.mem_filter.mp he).1, rfl⟩
  · rw [filter_comm, filter_wanted]

/-- A selection fails just for a name that the matrix does not have, and else gives the entries of
the matrix that are wanted. So it depends on the names only as a set; it is the selection of the
names and then of the host, and also that of the host and then of the names where this one does not
fail. -/
theorem select_exact (m : Matrix) (names : List String) (host : Option String) :
    ((∃ e, m.select names host = .error e) ↔ ∃ n ∈ names, n ∉ m.artifactNames) ∧
    (∀ e, m.select names host = .error e →
      ∃ n ∈ names, n ∉ m.artifactNames ∧ e = .unknownArtifact n m.artifactNames) ∧
    (∀ m', m.select names host = .ok m' ↔
      (∀ n ∈ names, n ∈ m.artifactNames) ∧ m.Selects names host m') ∧
    (∀ names' : List String, (∀ n, n ∈ names ↔ n ∈ names') →
      (m.select names host).toOption = (m.select names' host).toOption) ∧
    (m.select names host = m.select names none >>= fun m' => m'.select [] host) ∧
    ∀ m', (m.select [] host >>= fun m₁ => m₁.select names none) = .ok m' →
      m.select names host = .ok m' := by
  refine ⟨⟨?_, ?_⟩, fun e => select_eq_error, fun m' => ?_, fun _ => select_congr,
    select_names_first m names host, fun m' => select_host_first⟩
  · rintro ⟨e, he⟩
    obtain ⟨n, hn, hno, -⟩ := select_eq_error he
    exact ⟨n, hn, hno⟩
  · rintro ⟨n, hn, hno⟩
    cases hs : m.select names host with
    | error e => exact ⟨e, rfl⟩
    | ok m' => exact absurd ((select_eq_ok.mp hs).1 n hn) hno
  · rw [select_eq_ok, selects_iff]

theorem builtIn_select_exact :
    let names := ["libisar_macos_x64.dylib", "libisar_ios.a", "libisar_macos_x64.dylib"]
    let host := some macosLatest
    (∃ e, builtIn.select ["libisar.a"] host = .error e) ∧
    ∃ m', builtIn.select names host = .ok m' ∧ builtIn.Selects names host m' ∧
      (builtIn.select ["libisar_ios.a", "libisar_macos_x64.dylib"] host).toOption = some m' := by
  intro names host
  obtain ⟨herr, -, hok, hset, -⟩ := select_exact builtIn names host
  refine ⟨(select_exact builtIn ["libisar.a"] host).1.mpr ⟨"libisar.a", by decide, by decide⟩, ?_⟩
  cases hs : builtIn.select names host with
  | error e => exact absurd (herr.mp ⟨e, hs⟩) (by decide)
  | ok m' =>
    have hsame : ∀ n, n ∈ names ↔ n ∈ ["libisar_ios.a", "libisar_macos_x64.dylib"] := by
      simp only [names, List.mem_cons, List.not_mem_nil, or_false]
      grind
    refine ⟨m', rfl, ((hok m').mp hs).2, ?_⟩
    rw [← hset _ hsame, hs]
    rfl

/-- Only one of the two orders fails: no entry on the host has the name, but one elsewhere has. -/
example :
    (builtIn.select ["libisar_ios.a"] (some windowsLatest)).toOption.map entries = some [] ∧
    (builtIn.select [] (some windowsLatest) >>= fun m => m.select ["libisar_ios.a"] none).toOption =
      none := by
  decide +kernel

end Matrix
end BindingRelease
