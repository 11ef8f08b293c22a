import BindingRelease.Proofs.HostSwitch
import BindingRelease.Proofs.ShownToolchains
import BindingRelease.Proofs.UniqueArtifacts
/-!
Releases of one host. The hosts of a matrix split it: the selections of its hosts have every entry
once, each in the order of the matrix. So do the contexts that run when the tool is started once for
every host. Such a start is refused only where one for the whole matrix is refused too.
-/
namespace BindingRelease

section Labels
variable {α : Type} [BEq α] [LawfulBEq α]

theorem idxOf_lt_of_filter {p : α → Bool} {a b : α} (ha : p a) (hb : p b) {l : List α}
    (h : (l.filter p).idxOf a < (l.filter p).idxOf b) : l.idxOf a < l.idxOf b := by
  induction l with
  | nil => exact absurd h (Nat.lt_irrefl _)
  | cons x l ih =>
    by_cases hx : p x
    · rw [List.filter_cons_of_pos hx] at h
      by_cases hxb : x = b
      · rw [hxb, List.idxOf_cons_self] at h
        exact absurd h (Nat.not_lt_zero _)
      by_cases hxa : x = a
      · rw [hxa, List.idxOf_cons_self, List.idxOf_cons_ne l (hxa ▸ hxb)]
        exact Nat.succ_pos _
      · rw [List.idxOf_cons_ne _ hxa, List.idxOf_cons_ne _ hxb] at h ⊢
        exact Nat.succ_lt_succ (ih (Nat.lt_of_succ_lt_succ h))
    · have hother {c : α} (hc : p c) : x ≠ c := fun hxc => hx (hxc ▸ hc)
      rw [List.filter_cons_of_neg hx] at h
      rw [List.idxOf_cons_ne l (hother ha), List.idxOf_cons_ne l (hother hb)]
      exact Nat.succ_lt_succ (ih h)

theorem pairwise_idxOf_eraseDups (l : List α) :
    l.eraseDups.Pairwise fun a b => l.idxOf a < l.idxOf b := by
  match l with
  | [] => exact .nil
  | x :: l =>
    -- Behind the first member are those that differ from it, so each is found one later.
    have hother {b : α} (hb : b ∈ (l.filter fun b => !b == x).eraseDups) : !b == x :=
      (List.mem_filter.mp (List.mem_eraseDups.mp hb)).2
    have hlater {b : α} (hb : b ∈ (l.filter fun b => !b == x).eraseDups) :
        (x :: l).idxOf b = l.idxOf b + 1 :=
      List.idxOf_cons_ne l fun hxb => by simpa [hxb] using hother hb
    rw [List.eraseDups_cons]
    refine List.pairwise_cons.mpr ⟨fun b hb => ?_, ?_⟩
    · rw [List.idxOf_cons_self, hlater hb]
      exact Nat.succ_pos _
    · refine (pairwise_idxOf_eraseDups _).imp_of_mem fun ha hb hlt => ?_
      rw [hlater ha, hlater hb]
      have hl : l.idxOf _ < l.idxOf _ :=
        idxOf_lt_of_filter (p := fun b => !b == x) (hother ha) (hother hb) hlt
      exact Nat.succ_lt_succ hl
termination_by l.length
decreasing_by exact Nat.lt_succ_of_le (List.length_filter_le _ _)

end Labels

namespace Matrix
variable {m : Matrix} {host : String}

def onHost (m : Matrix) (host : String) : Matrix :=
  m.filter fun e => e.host = host

theorem mem_onHost {e : Entry} : e ∈ (m.onHost host).entries ↔ e ∈ m.entries ∧ e.host = host := by
  simp [onHost, filter]

theorem mem_hosts : host ∈ m.hosts ↔ ∃ e ∈ m.entries, e.host = host := by
  simp [hosts]

theorem select_host (m : Matrix) (hne : host ≠ "") :
    m.select [] (some host) = .ok (m.onHost host) := by
  refine select_eq_ok.mpr ⟨nofun, ext_entries (List.filter_congr fun e _ => ?_)⟩
  rw [Bool.eq_iff_iff, wanted_iff, decide_eq_true_eq]
  simp [hne]

theorem select_none (m : Matrix) : m.select [] none = .ok m :=
  select_eq_ok.mpr ⟨nofun, ext_entries (List.filter_eq_self.mpr fun e _ => by simp [wanted]).symm⟩

theorem onHost_ne_nil (h : host ∈ m.hosts) : (m.onHost host).entries ≠ [] := by
  obtain ⟨e, he, heh⟩ := mem_hosts.mp h
  exact List.ne_nil_of_mem (mem_onHost.mpr ⟨he, heh⟩)

theorem onHost_disjoint {host' : String} (hne : host ≠ host') :
    (m.onHost host).entries.Disjoint (m.onHost host').entries := by
  intro e he he'
  exact hne ((mem_onHost.mp he).2.symm.trans (mem_onHost.mp he').2)

theorem pairwise_onHost_disjoint (m : Matrix) :
    m.hosts.Pairwise fun h h' => (m.onHost h).entries.Disjoint (m.onHost h').entries :=
  (nodup_eraseDups _).imp onHost_disjoint

theorem flatMap_onHost_perm (m : Matrix) :
    (m.hosts.flatMap fun h => (m.onHost h).entries).Perm m.entries := by
  have hnodup : (m.hosts.flatMap fun h => (m.onHost h).entries).Nodup :=
    List.nodup_flatMap.mpr
      ⟨fun h _ => m.entries_nodup.sublist List.filter_sublist, m.pairwise_onHost_disjoint⟩
  refine (List.perm_ext_iff_of_nodup hnodup m.entries_nodup).mpr fun e => ?_
  rw [List.mem_flatMap]
  constructor
  · rintro ⟨h, -, he⟩
    exact (mem_onHost.mp he).1
  · intro he
    exact ⟨e.host, mem_hosts.mpr ⟨e, he, rfl⟩, mem_onHost.mpr ⟨he, rfl⟩⟩

/-- The hosts of a matrix are its labels, in the order of their first entries, and the selections of
the hosts are its parts. No part is empty, none has an entry of another, and all of them together
have every entry once; each keeps the order of the matrix. -/
structure SplitsByHost (m : Matrix) : Prop where
  labels : ∀ h, h ∈ m.hosts ↔ ∃ e ∈ m.entries, e.host = h
  once : m.hosts.Nodup
  ordered : m.hosts.Pairwise fun h h' =>
    (m.entries.map Entry.host).idxOf h < (m.entries.map Entry.host).idxOf h'
  selected : ∀ h ∈ m.hosts, m.select [] (some h) = .ok (m.onHost h)
  inhabited : ∀ h ∈ m.hosts, (m.onHost h).entries ≠ []
  disjoint : m.hosts.Pairwise fun h h' => (m.onHost h).entries.Disjoint (m.onHost h').entries
  inOrder : ∀ h ∈ m.hosts, (m.onHost h).entries.Sublist m.entries
  complete : (m.hosts.flatMap fun h => (m.onHost h).entries).Perm m.entries

theorem hosts_ne_empty (hlabels : ∀ e ∈ m.entries, e.host ≠ "") (h : host ∈ m.hosts) :
    host ≠ "" := by
  obtain ⟨e, he, rfl⟩ := mem_hosts.mp h
  exact hlabels e he

theorem splitsByHost (hlabels : ∀ e ∈ m.entries, e.host ≠ "") : m.SplitsByHost where
  labels _ := mem_hosts
  once := nodup_eraseDups _
  ordered := pairwise_idxOf_eraseDups _
  selected _ h := m.select_host (hosts_ne_empty hlabels h)
  inhabited _ h := onHost_ne_nil h
  disjoint := m.pairwise_onHost_disjoint
  inOrder _ _ := List.filter_sublist
  complete := m.flatMap_onHost_perm

example : (builtIn.select [] (some "")).toOption = some builtIn := by decide

end Matrix

namespace Console
open Step Command
variable {matrix : Option String} {m : Matrix} {t u : Trace} {j : Journal} {host : String}

def FindsMatrix (matrix : Option String) (m : Matrix) (t : Trace) : Prop :=
  match matrix with
  | none => m = Matrix.builtIn
  | some file => ∃ f : Matrix.Found, f.matrix (Path.ofString file) = .ok m ∧
      Shows f (Path.ofString file) t

theorem FindsMatrix.mono (h : FindsMatrix matrix m t) (hu : u ⊆ t) : FindsMatrix matrix m u := by
  cases matrix with
  | none => exact h
  | some file =>
    obtain ⟨f, hf, hshows⟩ := h
    exact ⟨f, hf, fun ev hev => hshows ev (hu hev)⟩

theorem FindsMatrix.resolve_runs (h : FindsMatrix matrix m t) {r : Except Failure Matrix}
    (h₀ : (Matrix.resolve (matrix.map Path.ofString)).Runs t j r) : r = .ok m := by
  cases matrix with
  | none =>
    cases h
    exact (runs_pure.mp h₀).2.2
  | some file =>
    obtain ⟨f, hf, hshows⟩ := h
    obtain ⟨g, rfl, rfl, -⟩ := Matrix.load_runs h₀
    obtain rfl := Matrix.Found.eq_of_answers hshows
    exact hf

theorem FindsMatrix.selected_runs (h : FindsMatrix matrix m t) (hne : host ≠ "")
    {r : Except Failure Matrix} (h₀ : (selected matrix [] (some host)).Runs t j r) :
    r = .ok (m.onHost host) ∧ (selected matrix [] none).Runs t j (.ok m) := by
  rcases runs_bind.mp h₀ with ⟨e, rfl, h₁⟩ | ⟨t₁, t₂, j₁, j₂, whole, rfl, rfl, h₁, h₂⟩
  · cases h.resolve_runs h₁
  · cases (h.mono (List.subset_append_left t₁ t₂)).resolve_runs h₁
    rw [m.select_host hne] at h₂
    obtain ⟨rfl, rfl, rfl⟩ := runs_pure.mp h₂
    refine ⟨rfl, runs_bind.mpr (.inr ⟨t₁, [], j₁, .empty, m, rfl, rfl, h₁, ?_⟩)⟩
    rw [m.select_none]
    exact runs_pure.mpr ⟨rfl, rfl, rfl⟩

end Console

namespace Command
open Step Console
variable {schedule : List Nat} {place : Place} {run : RunChoices} {c : ReleaseChoices}
  {s : Settings} {m : Matrix} {t : Trace} {j : Journal} {host : String} {target : Target}
  {adapter : Adapter} {r : Except Failure Ending}

def releaseSettings (place : Place) (run : RunChoices) (c : ReleaseChoices) : Step Settings :=
  settings place run
    [("repository", .ofOption c.repository), ("token_env", .text c.tokenVariable)]

def releaseAll (schedule : List Nat) (place : Place) (run : RunChoices) (s : Settings)
    (target : Target) (adapter : Adapter) (m : Matrix) : Step Ending := do
  let rs ← (surroundings place run s adapter).release schedule m target
  let time ← now
  return reported rs (Report.releaseRun target.tag time rs)

def releasing (schedule : List Nat) (place : Place) (run : RunChoices) (c : ReleaseChoices)
    (s : Settings) (m : Matrix) : Step Ending := do
  if m.entries = [] then Step.fail (.configuration .nothingSelected)
  else
    let target ← Step.ofExcept .configuration (s.target c.ref place.env (adapterName c ≠ "noop"))
    let adapter ← Step.ofExcept .configuration (Adapter.ofName (adapterName c) s.repository s.api)
    releaseAll schedule place run s target adapter m

theorem runRelease_runs_iff (hs : releaseSettings place run c = Pure.pure s) :
    (runRelease schedule place run c).Runs t j r ↔
      (selected c.matrix c.artifacts c.host >>= releasing schedule place run c s).Runs t j r := by
  unfold runRelease
  rw [releaseSettings] at hs
  rw [hs]
  exact runs_pure_bind

/-- What a release has besides its matrix. The host has no part in it. -/
structure Equips (place : Place) (run : RunChoices) (c : ReleaseChoices) (s : Settings)
    (target : Target) (adapter : Adapter) : Prop where
  settings : releaseSettings place run c = Pure.pure s
  target : s.target c.ref place.env (adapterName c ≠ "noop") = .ok target
  adapter : Adapter.ofName (adapterName c) s.repository s.api = .ok adapter

theorem releasing_runs (hs : releaseSettings place run c = Pure.pure s) (hm : m.entries ≠ [])
    (h₀ : (releasing schedule place run c s m).Runs t j r) :
    (t = [] ∧ (∀ s target adapter, ¬ Equips place run c s target adapter) ∧
        ∀ m', m'.entries ≠ [] → (releasing schedule place run c s m').Runs t j r) ∨
      ∃ target adapter, Equips place run c s target adapter ∧
        (releaseAll schedule place run s target adapter m).Runs t j r := by
  have settled {s' : Settings} {target : Target} {adapter : Adapter}
      (h : Equips place run c s' target adapter) : s' = s := by
    have hruns : (Pure.pure s : Step Settings).Runs [] .empty (.ok s') :=
      hs ▸ h.settings ▸ runs_pure.mpr ⟨rfl, rfl, rfl⟩
    exact Except.ok.inj (runs_pure.mp hruns).2.2
  simp only [releasing, if_neg hm] at h₀
  rcases runs_ofExcept_bind h₀ with ⟨e, ht, rfl, rfl, rfl⟩ | ⟨target, ht, h₁⟩
  · refine .inl ⟨rfl, fun s' target adapter h => ?_, fun m' hm' => ?_⟩
    · cases ht.symm.trans (settled h ▸ h.target)
    · simp only [releasing, if_neg hm', ht]
      exact runs_fail_bind.mpr ⟨rfl, rfl, rfl⟩
  rcases runs_ofExcept_bind h₁ with ⟨e, ha, rfl, rfl, rfl⟩ | ⟨adapter, ha, h₂⟩
  · refine .inl ⟨rfl, fun s' target adapter h => ?_, fun m' hm' => ?_⟩
    · cases ha.symm.trans (settled h ▸ h.adapter)
    · simp only [releasing, if_neg hm', ht, ha]
      exact runs_pure_bind.mpr (runs_fail_bind.mpr ⟨rfl, rfl, rfl⟩)
  exact .inr ⟨target, adapter, ⟨hs, ht, ha⟩, h₂⟩

/-- A release on a host of its matrix runs the contexts of the entries on it, unless it is refused;
then so is the release of the whole matrix. -/
theorem runRelease_host (hnames : c.artifacts = []) (hwhole : c.host = none)
    (hfinds : FindsMatrix c.matrix m t) (hhost : host ∈ m.hosts) (hne : host ≠ "")
    (h₀ : (runRelease schedule place run { c with host := some host }).Runs t j r) :
    (t.Inspects ∧ (∀ s target adapter, ¬ Equips place run c s target adapter) ∧
        (runRelease schedule place run c).Runs t j r) ∨
      ∃ s target adapter u i v k, Equips place run c s target adapter ∧ t = u ++ v ∧
        (selected c.matrix c.artifacts (some host)).Runs u i (.ok (m.onHost host)) ∧
        (releaseAll schedule place run s target adapter (m.onHost host)).Runs v k r := by
  obtain ⟨s, hs⟩ : ∃ s, releaseSettings place run c = Pure.pure s := exists_releaseSettings
  have h₁ := (runRelease_runs_iff (c := { c with host := some host }) hs).mp h₀
  -- The selection in this run is the one of the host in the matrix that is found.
  have hselected {u : Trace} {i : Journal} {x : Except Failure Matrix} (hu : u ⊆ t)
      (h : (selected c.matrix c.artifacts (some host)).Runs u i x) :
      x = .ok (m.onHost host) ∧ (selected c.matrix c.artifacts none).Runs u i (.ok m) := by
    rw [hnames] at h ⊢
    exact (hfinds.mono hu).selected_runs hne h
  rcases runs_bind.mp h₁ with ⟨e, rfl, h⟩ | ⟨u, v, i, k, _, rfl, rfl, hsel, h₂⟩
  · cases (hselected (List.Subset.refl t) h).1
  obtain ⟨hm, hselm⟩ := hselected (List.subset_append_left u v) hsel
  cases hm
  rcases releasing_runs hs (Matrix.onHost_ne_nil hhost) h₂ with
    ⟨rfl, hno, hrefused⟩ | ⟨target, adapter, he, h⟩
  · obtain ⟨e, he, -⟩ := Matrix.mem_hosts.mp hhost
    have hsame := hrefused m (List.ne_nil_of_mem he)
    refine .inl ⟨?_, hno, (runRelease_runs_iff hs).mpr ?_⟩
    · rw [List.append_nil]
      exact selected_only.asks hsel
    · rw [hwhole]
      exact runs_bind.mpr (.inr ⟨u, [], i, k, m, rfl, rfl, hselm, hsame⟩)
  · exact .inr ⟨s, target, adapter, u, i, v, k, he, rfl, hsel, h⟩

theorem releaseAll_runs (hm : ∃ t j, (selected c.matrix c.artifacts c.host).Runs t j (.ok m))
    (h₀ : (releaseAll schedule place run s target adapter m).Runs t j r) :
    ∃ (l : Tagged) (os : List Outcome) (w : Trace), t = l.map Prod.snd ++ w ∧ ¬ w.Begun ∧
      Pool.Interleaves (Outcome.watch true)
        (m.entries.map ((surroundings place run s adapter).releaseContext target)) l os ∧
      ∀ k < m.entries.length, (l.share k).Begun := by
  have hstarts : Starts place (.releaseRun run c) _ _ := .release run c s target adapter hm
  have hrun {t : Trace} {j : Journal} {x : Except Failure (List Report)}
      (h : ((surroundings place run s adapter).release schedule m target).Runs t j x) :
      ∃ (l : Tagged) (os : List Outcome), l.map Prod.snd = t ∧ Pool.Interleaves (Outcome.watch true)
        (m.entries.map ((surroundings place run s adapter).releaseContext target)) l os ∧
        ∀ k < m.entries.length, (l.share k).Begun := by
    obtain ⟨_, -, h⟩ := runs_note_bind.mp h
    obtain ⟨l, os, hl, hi, -⟩ := fanOut_runs h
    refine ⟨l, os, hl, hi, fun k hk => ?_⟩
    obtain ⟨o, -, hr⟩ := hi.each k _ (List.getElem?_eq_getElem (by simpa using hk))
    exact hstarts.begun (List.getElem_mem _) hr
  rcases runs_bind.mp h₀ with ⟨e, -, h⟩ | ⟨t₁, t₂, j₁, j₂, rs, rfl, -, h, htime⟩
  · obtain ⟨l, os, rfl, hi, hbegun⟩ := hrun h
    exact ⟨l, os, [], (List.append_nil _).symm, by simp [Trace.Begun], hi, hbegun⟩
  · obtain ⟨l, os, rfl, hi, hbegun⟩ := hrun h
    obtain ⟨time, w, rfl, hw⟩ := runs_ask_bind.mp htime
    obtain ⟨rfl, -⟩ := runs_pure.mp hw
    exact ⟨l, os, _, rfl, by simp [Trace.Begun, Trace.isLook], hi, hbegun⟩

theorem releaseAll_begun (hm : ∃ t j, (selected c.matrix c.artifacts c.host).Runs t j (.ok m))
    (hne : m.entries ≠ []) (h₀ : (releaseAll schedule place run s target adapter m).Runs t j r) :
    t.Begun := by
  obtain ⟨l, os, w, rfl, -, -, hbegun⟩ := releaseAll_runs hm h₀
  obtain ⟨ev, hev, hl⟩ := hbegun 0 (List.length_pos_iff.mpr hne)
  have hmem : ev ∈ l.map Prod.snd := List.mem_map.mpr ⟨_, Tagged.mem_share.mp hev, rfl⟩
  exact ⟨ev, List.mem_append_left _ hmem, hl⟩

end Command

namespace Console
open Step Command
variable {schedule : List Nat} {words : List String} {cwd : Path} {env : Env} {t : Trace}
  {j : Journal} {console : Console} {level : Level} {command command' : Command}

theorem runCommand_mono {r : Except Failure (Env × Except Crash Ending)}
    (h : ∀ env' v k x, v ⊆ t → (command.run schedule ⟨cwd, env'⟩).Runs v k x →
      (command'.run schedule ⟨cwd, env'⟩).Runs v k x)
    (h₀ : (runCommand schedule ⟨level, command⟩ cwd env).Runs t j r) :
    (runCommand schedule ⟨level, command'⟩ cwd env).Runs t j r := by
  rcases runs_bind.mp h₀ with ⟨e, rfl, he⟩ | ⟨u, v, i, k, ⟨env', e | b⟩, rfl, rfl, hl, h₁⟩
  · exact runs_bind.mpr (.inl ⟨e, rfl, he⟩)
  · -- The environment file ends the tool, whatever the command is.
    refine runs_bind.mpr (.inr ⟨u, v, i, k, _, rfl, rfl, hl, ?_⟩)
    cases e <;> exact h₁
  · rcases runs_bind.mp h₁ with ⟨e, -, he⟩ | ⟨v₁, v₂, k₁, k₂, x, rfl, rfl, hx, h₂⟩
    · obtain ⟨_, hx, -⟩ := runs_attempt.mp he
      cases hx
    obtain ⟨_, hx', hy⟩ := runs_attempt.mp hx
    cases hx'
    have hv : v₁ ⊆ u ++ (v₁ ++ v₂) := fun ev hev => by simp [hev]
    have hrun := runs_attempt.mpr ⟨x, rfl, h env' v₁ k₁ x hv hy⟩
    refine runs_bind.mpr (.inr ⟨u, v₁ ++ v₂, i, k₁ ++ k₂, _, rfl, rfl, hl, ?_⟩)
    exact runs_bind.mpr (.inr ⟨v₁, v₂, k₁, k₂, _, rfl, rfl, hrun, h₂⟩)

theorem runScheduled_mono {words' : List String}
    (hread : Command.read words = .ok ⟨level, command⟩)
    (hread' : Command.read words' = .ok ⟨level, command'⟩)
    (h : ∀ env' v k x, v ⊆ t → (command.run schedule ⟨cwd, env'⟩).Runs v k x →
      (command'.run schedule ⟨cwd, env'⟩).Runs v k x)
    (h₀ : (runScheduled schedule words cwd env).Runs t console) :
    (runScheduled schedule words' cwd env).Runs t console := by
  unfold runScheduled at h₀ ⊢
  rw [hread] at h₀
  rw [hread']
  obtain ⟨⟨journal, r⟩, rfl, hr⟩ := Program.runs_map.mp h₀
  exact Program.runs_map.mpr ⟨⟨journal, r⟩, rfl, runCommand_mono h hr⟩

structure Session where
  schedule : List Nat
  words : List String
  cwd : Path
  env : Env
  trace : Trace
  console : Console
  runs : (runScheduled schedule words cwd env).Runs trace console

structure AsksWhole (words : List String) (level : Level) (run : RunChoices) (c : ReleaseChoices) :
    Prop where
  reads : Command.read words = .ok ⟨level, .releaseRun run c⟩
  artifacts : c.artifacts = []
  host : c.host = none

namespace Session
variable {x : Session} {m : Matrix} {host : String} {run : RunChoices} {c : ReleaseChoices}

/-- The session has the words of a release with those of a host behind them, and it finds a given
matrix where the release has its own. -/
structure AddsHost (x : Session) (words : List String) (matrix : Option String) (m : Matrix)
    (host : String) : Prop where
  words : ∃ tail, HostWords host tail ∧ x.words = words ++ tail
  finds : FindsMatrix matrix m x.trace

/-- The environment file of the session can be loaded, and with the variables after that a release
has all it needs besides its matrix. -/
def Ready (x : Session) (run : RunChoices) (c : ReleaseChoices) : Prop :=
  ∃ u v i env b s target adapter, x.trace = u ++ v ∧
    (EnvFile.load x.env (x.cwd / ".env")).Runs u i (.ok (env, .ok b)) ∧
    Equips ⟨x.cwd, env⟩ run c s target adapter

/-- The session is a release of these entries: once it has selected them it runs a context for each,
and no others. Every one of the contexts begins, and nothing before them and behind them does. -/
inductive Releases (x : Session) : List Entry → Prop
  | contexts {level : Level} {run : RunChoices} {c : ReleaseChoices} {env : Env} {b : Bool}
      {s : Settings} {m : Matrix} {target : Target} {adapter : Adapter} {l : Tagged}
      {os : List Outcome} {u v w : Trace} {i k : Journal}
      (reads : Command.read x.words = .ok ⟨level, .releaseRun run c⟩)
      (loads : (EnvFile.load x.env (x.cwd / ".env")).Runs u i (.ok (env, .ok b)))
      (selects : (selected c.matrix c.artifacts c.host).Runs v k (.ok m))
      (equips : Equips ⟨x.cwd, env⟩ run c s target adapter)
      (trace : x.trace = u ++ (v ++ (l.map Prod.snd ++ w)))
      (idle : ¬ (u ++ v).Begun ∧ ¬ w.Begun)
      (interleaves : Pool.Interleaves (Outcome.watch true)
        (m.entries.map ((surroundings ⟨x.cwd, env⟩ run s adapter).releaseContext target)) l os)
      (begun : ∀ k < m.entries.length, (l.share k).Begun) :
      x.Releases m.entries

theorem AddsHost.read (hx : x.AddsHost words c.matrix m host) (hc : AsksWhole words level run c) :
    Command.read x.words = .ok ⟨level, .releaseRun run { c with host := some host }⟩ := by
  obtain ⟨tail, htail, hwords⟩ := hx.words
  exact hwords ▸ read_host hc.reads htail

section Host
variable (hx : x.AddsHost words c.matrix m host) (hc : AsksWhole words level run c)
  (hne : host ≠ "")
include hx hc hne

theorem Releases.eq_onHost {es : List Entry} (h : x.Releases es) :
    es = (m.onHost host).entries := by
  obtain ⟨reads, -, selects, -, trace⟩ := h
  cases (hx.read hc).symm.trans reads
  dsimp only at selects
  rw [hc.artifacts] at selects
  have hv := hx.finds.mono (u := _) fun ev hev => trace ▸ List.mem_append_right _
    (List.mem_append_left _ hev)
  cases (hv.selected_runs hne selects).1
  rfl

variable (hhost : host ∈ m.hosts)
include hhost

/-- A release on a host that has all it needs releases the entries on the host; any other one is
refused while it only looks at files and reads them. -/
theorem releases_or_inspects : (x.Ready run c ∧ x.Releases (m.onHost host).entries) ∨
    (¬ x.Ready run c ∧ x.trace.Inspects) := by
  have hruns := x.runs
  unfold runScheduled at hruns
  rw [hx.read hc] at hruns
  obtain ⟨⟨journal, r⟩, -, h⟩ := Program.runs_map.mp hruns
  rcases runCommand_runs h with ⟨env, e, ht, hl, -⟩ | ⟨env, b, u, i, v, k, y, ht, -, hu, hl, hy, -⟩
  · refine .inr ⟨?_, ht⟩
    rintro ⟨u, v, i, env', b, s, target, adapter, huv, hl', -⟩
    obtain ⟨-, -, heq⟩ := Program.runs_parts hl hl' ((List.append_nil _).trans huv)
    cases heq
  have hv : v ⊆ x.trace := ht ▸ List.subset_append_right u v
  rcases runRelease_host hc.artifacts hc.host (hx.finds.mono hv) hhost hne hy with
    ⟨hi, hno, -⟩ | ⟨s, target, adapter, v₁, i₁, v₂, k₂, he, rfl, hsel, hall⟩
  · refine .inr ⟨?_, ht ▸ Trace.inspects_append.mpr ⟨hu, hi⟩⟩
    rintro ⟨u', v', i', env', b', s, target, adapter, huv, hl', he⟩
    obtain ⟨-, -, heq⟩ := Program.runs_parts hl hl' (ht.symm.trans huv)
    cases heq
    exact hno s target adapter he
  · obtain ⟨l, os, w, rfl, hw, hi, hbegins⟩ :=
      releaseAll_runs (c := { c with host := some host }) ⟨v₁, i₁, hsel⟩ hall
    have hidle : (u ++ v₁).Inspects := Trace.inspects_append.mpr ⟨hu, selected_only.asks hsel⟩
    refine .inl ⟨⟨u, _, i, env, b, s, target, adapter, ht, hl, he⟩, ?_⟩
    exact .contexts (hx.read hc) hl hsel ⟨he.settings, he.target, he.adapter⟩ ht
      ⟨hidle.not_begun, hw⟩ hi hbegins

theorem runs_of_not_begun (hbegun : ¬ x.trace.Begun) :
    (runScheduled x.schedule words x.cwd x.env).Runs x.trace x.console := by
  refine runScheduled_mono (hx.read hc) hc.reads (fun env v k r hv h => ?_) x.runs
  rcases runRelease_host hc.artifacts hc.host (hx.finds.mono hv) hhost hne h with
    ⟨-, -, h⟩ | ⟨s, target, adapter, u, i, w, k', -, rfl, hsel, h⟩
  · exact h
  · have hw : w.Begun := releaseAll_begun (c := { c with host := some host }) ⟨u, i, hsel⟩
      (Matrix.onHost_ne_nil hhost) h
    exact absurd ((Trace.begun_append.mpr (.inr hw)).mono hv) hbegun

end Host
end Session

/-- Releases of the hosts of a matrix, each with the words of one host behind those of a release of
the matrix. One that has all it needs releases the entries on its host, in their order; any other
one is refused before it does anything, and would have been without the words of its host. What all
of them release together is the matrix, with every entry once. -/
theorem host_releases_cover_matrix (m : Matrix) (hlabels : ∀ e ∈ m.entries, e.host ≠ "") :
    m.SplitsByHost ∧
      ∀ words level run c, AsksWhole words level run c → ∀ sessions : String → Session,
        (∀ h ∈ m.hosts, (sessions h).AddsHost words c.matrix m h) →
        (∀ h ∈ m.hosts, (sessions h).Ready run c → (sessions h).Releases (m.onHost h).entries) ∧
        (∀ h ∈ m.hosts, ¬ (sessions h).Ready run c → (sessions h).trace.Inspects ∧
          (runScheduled (sessions h).schedule words (sessions h).cwd (sessions h).env).Runs
            (sessions h).trace (sessions h).console) ∧
        ∀ released : String → List Entry, (∀ h ∈ m.hosts, (sessions h).Releases (released h)) →
          (m.hosts.flatMap released).Perm m.entries := by
  refine ⟨Matrix.splitsByHost hlabels, fun words level run c hc sessions hx => ?_⟩
  have hne : ∀ h ∈ m.hosts, h ≠ "" := fun h => Matrix.hosts_ne_empty hlabels
  have hends := fun h (hh : h ∈ m.hosts) =>
    Session.releases_or_inspects (hx h hh) hc (hne h hh) hh
  refine ⟨fun h hh hready => ?_, fun h hh hready => ?_, fun released hr => ?_⟩
  · exact ((hends h hh).resolve_right fun hn => hn.1 hready).2
  · have hinspects := ((hends h hh).resolve_left fun hr => hready hr.1).2
    exact ⟨hinspects, Session.runs_of_not_begun (hx h hh) hc (hne h hh) hh hinspects.not_begun⟩
  · have hparts : ∀ h ∈ m.hosts, released h = (m.onHost h).entries := fun h hh =>
      (hr h hh).eq_onHost (hx h hh) hc (hne h hh)
    rw [List.flatMap_congr hparts]
    exact m.flatMap_onHost_perm

/-- The built-in matrix, where one host occurs again behind two others, released host by host. -/
theorem builtIn_covered_by_hosts :
    let words := ["release", "run", "--dry-run", "--ref", "v1"]
    Matrix.builtIn.SplitsByHost ∧ ∃ sessions : String → Session,
      (∀ h ∈ Matrix.builtIn.hosts, (sessions h).words = words ++ ["--host", h] ∧
        (sessions h).Releases (Matrix.builtIn.onHost h).entries) ∧
      ∀ released : String → List Entry,
        (∀ h ∈ Matrix.builtIn.hosts, (sessions h).Releases (released h)) →
        (Matrix.builtIn.hosts.flatMap released).Perm Matrix.builtIn.entries := by
  intro words
  let answer (r : Request) (_ : Unit) : r.Answer × Unit := (Surroundings.obliging r, ())
  let tool (h : String) := runScheduled [] (words ++ ["--host", h]) (.ofString "/work") .empty
  let sessions (h : String) : Session :=
    ⟨[], words ++ ["--host", h], _, _, _, _, Program.runs_trace answer (tool h) ()⟩
  obtain ⟨i, hi, hchoices⟩ : ∃ i, Command.read words = .ok i ∧ i.command = .releaseRun
      ⟨none, Settings.defaultBindingDir, none, CompilerInstaller.usualTemplate, false, 1⟩
      ⟨none, some "v1", [], none, "github", none, Settings.defaultTokenVariable, true⟩ :=
    exists_of_toOption (by decide +kernel)
  obtain ⟨level, _⟩ := i
  cases hchoices
  have hadds : ∀ h ∈ Matrix.builtIn.hosts, (sessions h).AddsHost words none Matrix.builtIn h := by
    intro h hh
    have hplain : ∀ h ∈ Matrix.builtIn.hosts, h.toList.head? ≠ some '-' := by decide +kernel
    exact ⟨⟨["--host", h], .apart (hplain h hh), rfl⟩, rfl⟩
  have hbegun : ∀ h ∈ Matrix.builtIn.hosts, (sessions h).trace.Begun := by decide +kernel
  obtain ⟨hsplits, hsessions⟩ := host_releases_cover_matrix Matrix.builtIn (by decide)
  obtain ⟨hreleases, hrefused, hcover⟩ := hsessions words level _ _ ⟨hi, rfl, rfl⟩ sessions hadds
  refine ⟨hsplits, sessions, fun h hh => ⟨rfl, hreleases h hh ?_⟩, hcover⟩
  by_contra hready
  exact (hrefused h hh hready).1.not_begun (hbegun h hh)

end Console
end BindingRelease
