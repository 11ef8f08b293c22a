import BindingRelease.Console
import Mathlib.Data.List.ReduceOption
/-!
The settings of the commands that run contexts. The platform's variables are texts, and so are the
switches, but for the number of workers; no field refuses what it gets from them, so that reading
the settings has no faults.
-/
namespace BindingRelease
namespace Settings

/-- A named value that no field of the settings refuses: the number of workers, or a text. -/
def Fits (name : String) (v : Value) : Prop :=
  if name = "max_workers" then ∃ n, v = .int n else ∃ s, v = .text s

theorem fits_text {name s : String} (hn : name ≠ "max_workers") : Fits name (.text s) := by
  rw [Fits, if_neg hn]
  exact ⟨s, rfl⟩

theorem fits_workers (n : Int) : Fits "max_workers" (.int n) := by
  rw [Fits, if_pos rfl]
  exact ⟨n, rfl⟩

theorem fits_ofOption {name : String} (hn : name ≠ "max_workers") (given : Option String) :
    Value.ofOption given = .null ∨ Fits name (.ofOption given) := by
  cases given with
  | none => exact .inl rfl
  | some s => exact .inr (fits_text hn)

def AllFit (es : Schema.Entries) : Prop :=
  ∀ e ∈ es, ∃ name, e.1 = .text name ∧ Fits name e.2

theorem AllFit.insertEntry {es : Schema.Entries} {name : String} {v : Value} (hes : AllFit es)
    (hv : Fits name v) : AllFit (Value.insertEntry (.text name) v es) := by
  induction es with
  | nil => exact List.forall_mem_singleton.mpr ⟨name, rfl, hv⟩
  | cons e es ih =>
    obtain ⟨⟨other, he, hother⟩, hrest⟩ := List.forall_mem_cons.mp hes
    rw [Value.insertEntry]
    split
    · rename_i hk
      -- The key that stays names the same field.
      rw [he] at hk ⊢
      obtain rfl : other = name := by simpa [Value.sameKey] using hk
      exact List.forall_mem_cons.mpr ⟨⟨other, rfl, hv⟩, hrest⟩
    · exact List.forall_mem_cons.mpr ⟨⟨other, he, hother⟩, ih hrest⟩

theorem allFit_mapOfEntries {fs : List (String × Value)} (h : ∀ f ∈ fs, Fits f.1 f.2) :
    AllFit (Value.mapOfEntries (fs.map fun f => (.text f.1, f.2))) := by
  have hfold (fs : List (String × Value)) (hfs : ∀ f ∈ fs, Fits f.1 f.2) (es : Schema.Entries)
      (hes : AllFit es) : AllFit ((fs.map fun f => (Value.text f.1, f.2)).foldl
        (fun acc e => Value.insertEntry e.1 e.2 acc) es) := by
    induction fs generalizing es with
    | nil => exact hes
    | cons f fs ih =>
      obtain ⟨hf, hrest⟩ := List.forall_mem_cons.mp hfs
      exact ih hrest _ (hes.insertEntry hf)
  exact hfold fs h [] nofun

theorem AllFit.lookup {es : Schema.Entries} {name : String} {v : Value} (h : AllFit es)
    (hv : Value.lookup es name = some v) : Fits name v := by
  obtain ⟨⟨k, w⟩, he, hx⟩ := List.exists_of_findSome?_eq_some hv
  obtain ⟨other, rfl, hf⟩ := h _ he
  dsimp only at hx
  split at hx
  · rename_i hn
    cases hn
    cases hx
    exact hf
  · cases hx

theorem AllFit.withDefault {α : Type} {es : Schema.Entries} {name : String} {default : α}
    {check : Value → Checked α} (h : AllFit es)
    (hcheck : ∀ v, Fits name v → ∃ a, check v = .ok a) :
    ∃ a, Schema.withDefault es name default check = .ok a := by
  unfold Schema.withDefault
  cases hv : Value.lookup es name with
  | none => exact ⟨default, rfl⟩
  | some v =>
    obtain ⟨a, ha⟩ := hcheck v (h.lookup hv)
    exact ⟨a, by simp only [ha]; rfl⟩

theorem AllFit.text {α : Type} {es : Schema.Entries} {name : String} {default : α}
    {check : Value → Checked α} (h : AllFit es) (hn : name ≠ "max_workers")
    (hcheck : ∀ s, ∃ a, check (.text s) = .ok a) :
    ∃ a, Schema.withDefault es name default check = .ok a := by
  refine h.withDefault fun v hv => ?_
  rw [Fits, if_neg hn] at hv
  obtain ⟨s, rfl⟩ := hv
  exact hcheck s

theorem AllFit.workers {es : Schema.Entries} (h : AllFit es) :
    ∃ n, Schema.withDefault es "max_workers" none (Schema.nullable Schema.integer) = .ok n := by
  refine h.withDefault fun v hv => ?_
  rw [Fits, if_pos rfl] at hv
  obtain ⟨n, rfl⟩ := hv
  exact ⟨some n, rfl⟩

theorem exists_ok_both {α β : Type} {x : Checked α} {y : Checked β} (hx : ∃ a, x = .ok a)
    (hy : ∃ b, y = .ok b) : ∃ p, x.both y = .ok p := by
  obtain ⟨a, rfl⟩ := hx
  obtain ⟨b, rfl⟩ := hy
  exact ⟨(a, b), rfl⟩

theorem AllFit.check {es : Schema.Entries} (h : AllFit es) (cwd : Path) :
    ∃ s, check cwd (.map es) = .ok s := by
  have path (s : String) : ∃ p, Schema.path (.text s) = .ok p := ⟨_, rfl⟩
  have word (s : String) : ∃ w, Schema.text (.text s) = .ok w := ⟨_, rfl⟩
  have path? (s : String) : ∃ p, Schema.nullable Schema.path (.text s) = .ok p := ⟨_, rfl⟩
  have word? (s : String) : ∃ w, Schema.nullable Schema.text (.text s) = .ok w := ⟨_, rfl⟩
  unfold Settings.check
  have hmap {α : Type} {x : Checked α} {f : α → Settings} (hx : ∃ a, x = .ok a) :
      ∃ s, x.map f = .ok s := by
    obtain ⟨a, rfl⟩ := hx
    exact ⟨f a, rfl⟩
  refine hmap (exists_ok_both (h.text (by decide) path) (exists_ok_both (h.text (by decide) word)
    (exists_ok_both (h.text (by decide) word?) (exists_ok_both (h.text (by decide) word?)
      (exists_ok_both (h.text (by decide) word) (exists_ok_both (h.text (by decide) word)
        (exists_ok_both (h.text (by decide) path?) h.workers)))))))

theorem platformValues_fit {env : Env} : ∀ f ∈ platformValues env, Fits f.1 f.2 := by
  have fits {given : Option String} {name : String} {text : String → String}
      (hn : name ≠ "max_workers") {f : String × Value}
      (hf : some f = given.map fun v => (name, .text (text v))) : Fits f.1 f.2 := by
    cases given with
    | none => cases hf
    | some v =>
      cases hf
      exact fits_text hn
  intro f hf
  simp only [platformValues, List.reduceOption_mem_iff, List.mem_cons, List.not_mem_nil,
    or_false] at hf
  rcases hf with hf | hf | hf | hf | hf
  all_goals exact fits (by decide) hf

theorem exists_ofEnv {cwd : Path} {env : Env} {overrides : List (String × Value)}
    (h : ∀ f ∈ overrides, f.2 = .null ∨ Fits f.1 f.2) :
    ∃ s, ofEnv cwd env overrides = .ok s := by
  refine (allFit_mapOfEntries fun f hf => ?_).check cwd
  rcases List.mem_append.mp hf with hf | hf
  · exact platformValues_fit f hf
  · obtain ⟨hf, hn⟩ := List.mem_filter.mp hf
    refine (h f hf).resolve_left fun hv => ?_
    rw [hv] at hn
    cases hn

end Settings

namespace Command

/-- Whatever the switches and the variables say, the settings of a command have no faults. -/
theorem exists_settings {place : Place} {run : RunChoices} {more : List (String × Value)}
    (h : ∀ f ∈ more, f.2 = .null ∨ Settings.Fits f.1 f.2) :
    ∃ s, settings place run more = pure s := by
  let workspace := (run.workspace.filter (· ≠ "")).map fun w =>
    (Path.resolve place.cwd (Path.ofString w)).toString
  obtain ⟨s, hs⟩ : ∃ s, Settings.ofEnv place.cwd place.env
      ([("workspace_root", .ofOption workspace), ("binding_dir", .text run.bindingDir),
        ("compiler_dir", .ofOption (run.compilerDir.filter (· ≠ ""))),
        ("max_workers", .int run.jobs)] ++ more) = .ok s := by
    refine Settings.exists_ofEnv (List.forall_mem_append.mpr ⟨?_, h⟩)
    simp only [List.forall_mem_cons]
    exact ⟨Settings.fits_ofOption (by decide) _, .inr (Settings.fits_text (by decide)),
      Settings.fits_ofOption (by decide) _, .inr (Settings.fits_workers _), nofun⟩
  refine ⟨s, ?_⟩
  unfold settings
  dsimp only
  rw [hs]
  rfl

theorem exists_releaseSettings {place : Place} {run : RunChoices} {c : ReleaseChoices} :
    ∃ s, settings place run
      [("repository", .ofOption c.repository), ("token_env", .text c.tokenVariable)] = pure s := by
  refine exists_settings ?_
  simp only [List.forall_mem_cons]
  exact ⟨Settings.fits_ofOption (by decide) _, .inr (Settings.fits_text (by decide)), nofun⟩

end Command
end BindingRelease
