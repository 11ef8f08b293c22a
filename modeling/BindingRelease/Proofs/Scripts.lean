import BindingRelease.Proofs.Completion
import BindingRelease.Proofs.Environments
import BindingRelease.Proofs.WordGrammar
/-!
Mappings with a script. They are entries exactly if the script is a line of one or two words of the
grammar and there are values for the host and the artifact. The words are the script of the entry
and its argument, and the context of the entry builds with them.
-/
namespace BindingRelease
variable {es : Schema.Entries} {script : Value} {e : Entry}

/-- Builds of an entry have this command: no other process of its context gets a directory and an
environment, and a context that succeeds has run it. -/
structure Entry.BuildsWith (e : Entry) (command : List String) : Prop where
  only : ∀ (s : Surroundings) target t o, (s.releaseContext target e).Runs t o →
    ∀ p ∈ t.launches, p.directory.isSome → p.env.isSome →
      ∃ env, p = commandLaunch command (s.settings.workspace / s.settings.bindingDir) env
  done : ∀ (s : Surroundings) target t notes r,
    (s.releaseContext target e).Runs t (notes, .ok r) → r.status = .succeeded →
      ∃ env, commandLaunch command (s.settings.workspace / s.settings.bindingDir) env ∈ t.launches

namespace Entry

/-- The value for the host. That of `host_os` is used only where `os` is no key at all. -/
def hostValue (es : Schema.Entries) : Option Value :=
  (Value.lookup es "os").or (Value.lookup es "host_os")

structure Named (es : Schema.Entries) : Prop where
  host : ∃ h, hostValue es = some h ∧ h.truthy
  artifact : ∃ a, Value.lookup es "artifact_name" = some a ∧ a.truthy

def IsScriptLine (line : String) : Prop :=
  ∃ (first : List Char) (second : Option (List Char)),
    Shell.Sentence line.toList (first :: second.toList)

/-- What the entry of a mapping with a script says. -/
structure ReadFrom (es : Schema.Entries) (script : Value) (e : Entry) : Prop where
  words : Shell.Sentence script.plain.toList ((e.script :: e.argument.toList).map String.toList)
  host : ∃ h, hostValue es = some h ∧ h.truthy ∧ e.host = h.plain
  artifact : ∃ a, Value.lookup es "artifact_name" = some a ∧ a.truthy ∧ e.artifact = a.plain

/-- Why a mapping with a script is no entry. -/
inductive Refused (es : Schema.Entries) (line : String) : ConfigurationError → Prop
  | unreadable {reason} (h : ∀ ws, ¬ Shell.Sentence line.toList ws) :
      Refused es line (.unreadableScript line reason)
  | shape {ws} (h : Shell.Sentence line.toList ws) (hn : ¬ IsScriptLine line) :
      Refused es line (.scriptShape line)
  | incomplete (h : IsScriptLine line) (hn : ¬ Named es) :
      Refused es line (.entryIncomplete (.map es))

theorem split_eq_ok_iff {line : String} {ws : List String} :
    Shell.split line = .ok ws ↔ Shell.Sentence line.toList (ws.map String.toList) := by
  rw [Shell.split_eq_ok, Shell.words_eq_ok]

theorem isScriptLine_iff {line : String} {ws : List String} (h : Shell.split line = .ok ws) :
    IsScriptLine line ↔ ∃ first second, ws = first :: Option.toList second := by
  have unique {vs : List (List Char)} (hv : Shell.Sentence line.toList vs) :
      vs = ws.map String.toList := by
    rw [← Shell.words_eq_ok, Shell.split_eq_ok.mp h] at hv
    exact (Except.ok.inj hv).symm
  constructor
  · rintro ⟨first, second, hl⟩
    refine ⟨String.ofList first, second.map String.ofList, ?_⟩
    have hws := congrArg (List.map String.ofList) (unique hl)
    cases second <;> simpa [Function.comp_def, eq_comm] using hws
  · rintro ⟨first, second, rfl⟩
    have hl := split_eq_ok_iff.mp h
    refine ⟨first.toList, second.map String.toList, ?_⟩
    cases second <;> simpa using hl

def named (es : Schema.Entries) (first : String) (second : Option String) :
    Except ConfigurationError Entry :=
  match hostValue es, Value.lookup es "artifact_name" with
  | some h, some a =>
    if h.truthy && a.truthy then .ok ⟨h.plain, a.plain, first, second⟩
    else .error (.entryIncomplete (.map es))
  | _, _ => .error (.entryIncomplete (.map es))

theorem named_eq_ok {first : String} {second : Option String} (h : named es first second = .ok e) :
    e.script = first ∧ e.argument = second ∧
      (∃ h, hostValue es = some h ∧ h.truthy ∧ e.host = h.plain) ∧
      ∃ a, Value.lookup es "artifact_name" = some a ∧ a.truthy ∧ e.artifact = a.plain := by
  unfold named at h
  split at h
  · rename_i v a hv ha
    split at h
    · rename_i ht
      obtain ⟨hvt, hat⟩ := Bool.and_eq_true_iff.mp ht
      cases h
      exact ⟨rfl, rfl, ⟨v, hv, hvt, rfl⟩, a, ha, hat, rfl⟩
    · cases h
  · cases h

theorem named_eq_error {first : String} {second : Option String} {fault : ConfigurationError}
    (h : named es first second = .error fault) :
    ¬ Named es ∧ fault = .entryIncomplete (.map es) := by
  unfold named at h
  split at h
  · rename_i v a hv ha
    split at h
    · cases h
    · rename_i ht
      cases h
      refine ⟨?_, rfl⟩
      rintro ⟨⟨v', hv', hvt⟩, a', ha', hat⟩
      obtain rfl : v = v' := Option.some.inj (hv.symm.trans hv')
      obtain rfl : a = a' := Option.some.inj (ha.symm.trans ha')
      exact ht (by simp [hvt, hat])
  · rename_i hno
    cases h
    refine ⟨?_, rfl⟩
    rintro ⟨⟨v, hv, -⟩, a, ha, -⟩
    exact hno v a hv ha

theorem ofMapping_unreadable {reason : Shell.WordError}
    (hs : Value.lookup es "script" = some script)
    (h : Shell.split script.plain = .error reason) :
    ofMapping es = .error (.unreadableScript script.plain reason) := by
  simp only [ofMapping, hs, h]

theorem ofMapping_line {first : String} {second : Option String}
    (hs : Value.lookup es "script" = some script)
    (h : Shell.split script.plain = .ok (first :: second.toList)) :
    ofMapping es = named es first second := by
  simp only [ofMapping, hs, h]
  cases second <;> rfl

theorem ofMapping_shape {ws : List String} (hs : Value.lookup es "script" = some script)
    (h : Shell.split script.plain = .ok ws) (hn : ¬ IsScriptLine script.plain) :
    ofMapping es = .error (.scriptShape script.plain) := by
  simp only [ofMapping, hs, h]
  rw [isScriptLine_iff h] at hn
  match ws with
  | [] | _ :: _ :: _ :: _ => rfl
  | [first] => exact absurd ⟨first, none, rfl⟩ hn
  | [first, second] => exact absurd ⟨first, some second, rfl⟩ hn

theorem readFrom_of_ok (hs : Value.lookup es "script" = some script) (h : ofMapping es = .ok e) :
    ReadFrom es script e := by
  cases hw : Shell.split script.plain with
  | error reason =>
    rw [ofMapping_unreadable hs hw] at h
    cases h
  | ok ws =>
    by_cases hl : IsScriptLine script.plain
    · obtain ⟨first, second, rfl⟩ := (isScriptLine_iff hw).mp hl
      rw [ofMapping_line hs hw] at h
      obtain ⟨rfl, rfl, hhost, hartifact⟩ := named_eq_ok h
      exact ⟨split_eq_ok_iff.mp hw, hhost, hartifact⟩
    · rw [ofMapping_shape hs hw hl] at h
      cases h

theorem refused_of_error {fault : ConfigurationError} (hs : Value.lookup es "script" = some script)
    (h : ofMapping es = .error fault) : Refused es script.plain fault := by
  cases hw : Shell.split script.plain with
  | error reason =>
    rw [ofMapping_unreadable hs hw] at h
    cases h
    refine .unreadable fun ws hws => ?_
    have hok := Shell.words_eq_ok.mpr hws
    simp [Shell.split, hok, Except.map] at hw
  | ok ws =>
    by_cases hl : IsScriptLine script.plain
    · obtain ⟨first, second, rfl⟩ := (isScriptLine_iff hw).mp hl
      rw [ofMapping_line hs hw] at h
      obtain ⟨hno, rfl⟩ := named_eq_error h
      exact .incomplete hl hno
    · rw [ofMapping_shape hs hw hl] at h
      cases h
      exact .shape (split_eq_ok_iff.mp hw) hl

theorem Refused.not_accepted {line : String} {fault : ConfigurationError}
    (h : Refused es line fault) : ¬ (IsScriptLine line ∧ Named es) := by
  rintro ⟨hl, hn⟩
  cases h with
  | unreadable h =>
    obtain ⟨first, second, hs⟩ := hl
    exact h _ hs
  | shape _ hno => exact hno hl
  | incomplete _ hno => exact hno hn

theorem ReadFrom.accepted (h : ReadFrom es script e) : IsScriptLine script.plain ∧ Named es := by
  obtain ⟨hwords, ⟨v, hv, hvt, -⟩, a, ha, hat, -⟩ := h
  refine ⟨⟨e.script.toList, e.argument.map String.toList, ?_⟩, ⟨v, hv, hvt⟩, a, ha, hat⟩
  cases hargument : e.argument <;> simpa [hargument] using hwords

end Entry

namespace Surroundings
variable {s : Surroundings} {target : Target} {t : Trace}

theorem buildOf_command (s : Surroundings) (e : Entry) : (s.buildOf e).command =
    "bash" :: ("tools/" ++ e.script) :: e.argument.toList.filter (· ≠ "") := by
  cases h : e.argument with
  | none => simp [buildOf, invocation, Invocation.ofEntry, Invocation.command, h]
  | some a =>
    by_cases ha : a = "" <;>
      simp [buildOf, invocation, Invocation.ofEntry, Invocation.command, h, ha, Option.filter]

theorem releaseContext_build {o : Outcome} (h₀ : (s.releaseContext target e).Runs t o) {p : Launch}
    (hp : p ∈ t.launches) (hd : p.directory.isSome) (he : p.env.isSome) :
    ∃ env, p = s.buildWith e env := by
  rcases (releaseContext_supplies h₀).mem_cases hp with
    ⟨_, rfl⟩ | rfl | ⟨_, _, rfl⟩ | ⟨env, rfl, -⟩ | hp
  · cases hd
  · cases hd
  · cases he
  · exact ⟨env, rfl⟩
  · obtain ⟨_, rfl⟩ := Adapter.mem_launches hp
    cases hd

theorem releaseContext_built {notes : List Note} {r : Report}
    (h₀ : (s.releaseContext target e).Runs t (notes, .ok r)) (hs : r.status = .succeeded) :
    ∃ env, s.buildWith e env ∈ t.launches := by
  obtain ⟨j, f, x, h, ho⟩ := runs_finish h₀
  rcases releases_cases (releaseStages_runs h) with ⟨stop, rfl, -⟩ | ⟨t₁, u, k, y, rfl, hr, -⟩
  · exact absurd hs (Report.status_of_stop (congrArg Prod.snd ho).symm)
  · obtain ⟨env, g, hmem, -⟩ := hr.build_succeeded
    exact ⟨env, Trace.mem_launches.mpr ⟨_, List.mem_append_left _ hmem⟩⟩

end Surroundings

namespace Entry

theorem buildsWith (e : Entry) :
    e.BuildsWith ("bash" :: ("tools/" ++ e.script) :: e.argument.toList.filter (· ≠ "")) where
  only := by
    intro s target t o h p hp hd he
    rw [← s.buildOf_command]
    exact s.releaseContext_build h hp hd he
  done := by
    intro s target t notes r h hs
    rw [← s.buildOf_command]
    exact s.releaseContext_built h hs

/-- A mapping with a script is an entry just if its script is a line of one or two words and it
names the host and the artifact. The entry has these words, and its context builds with them; any
other mapping is refused for what it lacks. -/
theorem scripts_follow_grammar (es : Schema.Entries) (script : Value)
    (hs : Value.lookup es "script" = some script) :
    ((∃ e, ofMapping es = .ok e) ↔ IsScriptLine script.plain ∧ Named es) ∧
    (∀ e, ofMapping es = .ok e → ReadFrom es script e ∧
      e.BuildsWith ("bash" :: ("tools/" ++ e.script) :: e.argument.toList.filter (· ≠ ""))) ∧
    ∀ fault, ofMapping es = .error fault → Refused es script.plain fault := by
  refine ⟨⟨?_, fun h => ?_⟩, fun e he => ⟨readFrom_of_ok hs he, e.buildsWith⟩, fun fault hf =>
    refused_of_error hs hf⟩
  · rintro ⟨e, he⟩
    exact (readFrom_of_ok hs he).accepted
  · cases hr : ofMapping es with
    | ok e => exact ⟨e, rfl⟩
    | error fault => exact absurd h (refused_of_error hs hr).not_accepted

/-- A script with words in quotes, and one of three words. -/
theorem quotedScript_follows_grammar :
    let line := "\t'my build'.sh \"x\\\"64\"\\ \n"
    let mapping (line : String) : Schema.Entries := [(.text "artifact_name", .text "lib.so"),
      (.text "host_os", .text "ubuntu-latest"), (.text "script", .text line)]
    let e : Entry := ⟨"ubuntu-latest", "lib.so", "my build.sh", some "x\"64 "⟩
    (Value.lookup (mapping line) "script" = some (.text line) ∧ ofMapping (mapping line) = .ok e ∧
      ReadFrom (mapping line) (.text line) e ∧
      e.BuildsWith ["bash", "tools/my build.sh", "x\"64 "]) ∧
    ∃ fault, ofMapping (mapping "build.sh x64 fast") = .error fault ∧
      Refused (mapping "build.sh x64 fast") "build.sh x64 fast" fault := by
  intro line mapping e
  have hs (line : String) : Value.lookup (mapping line) "script" = some (.text line) := rfl
  have hall := scripts_follow_grammar (mapping line) (.text line) (hs line)
  obtain ⟨e', he, rfl⟩ : ∃ e', ofMapping (mapping line) = .ok e' ∧ e' = e :=
    exists_of_toOption (by decide +kernel)
  obtain ⟨hread, hbuild⟩ := hall.2.1 e he
  have hcommand : "bash" :: ("tools/" ++ e.script) :: e.argument.toList.filter (· ≠ "") =
      ["bash", "tools/my build.sh", "x\"64 "] := by decide +kernel
  refine ⟨⟨hs line, he, hread, hcommand ▸ hbuild⟩, ?_⟩
  cases hf : ofMapping (mapping "build.sh x64 fast") with
  | ok e =>
    have hno : (ofMapping (mapping "build.sh x64 fast")).toOption = none := by decide +kernel
    rw [hf] at hno
    cases hno
  | error fault => exact ⟨fault, rfl, (scripts_follow_grammar _ _ (hs _)).2.2 fault hf⟩

end Entry
end BindingRelease
