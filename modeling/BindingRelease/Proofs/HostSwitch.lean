import BindingRelease.Proofs.RenderedJobs
/-!
The switch for a host. Words that a command takes may follow those of any of its command lines: all
that was read before them stays, and they give their switches. So the words of a host can be put
behind those of a release, and they change nothing of it but the host.
-/
namespace BindingRelease

namespace Arguments
variable {names : List (String × Switch)} {program path : List String} {us vs : List String}
  {ws ts : List Word} {l l' : Level} {gs : List Given} {p : Parsed} {hasCommands : Bool}

theorem exists_sort_append (hus : sort names us = .ok ws) (hvs : sort names vs = .ok ts) :
    ∃ ts', sort names (us ++ vs) = .ok (ws ++ ts') ∧ ts'.map Word.text = vs := by
  fun_induction sort names us generalizing ws with
  | case1 =>
    cases hus
    exact ⟨ts, hvs, sort_texts hvs⟩
  | case2 us =>
    cases hus
    exact ⟨vs.map fun v => ⟨v, .plain⟩, by simp [sort], by simp [Function.comp_def]⟩
  | case3 u us hne ih =>
    simp only [bind_eq_ok] at hus
    obtain ⟨r, hr, rest, hrest, he⟩ := hus
    cases he
    obtain ⟨ts', hs, htexts⟩ := ih hrest
    refine ⟨ts', ?_, htexts⟩
    rw [List.cons_append, sort_cons _ hne, hr, hs]
    rfl

instance : Append Level :=
  ⟨fun l l' => ⟨l.given ++ l'.given, l.untaken ++ l'.untaken, l.rest ++ l'.rest⟩⟩

@[simp] theorem Level.given_append : (l ++ l').given = l.given ++ l'.given := rfl
@[simp] theorem Level.untaken_append : (l ++ l').untaken = l.untaken ++ l'.untaken := rfl
@[simp] theorem Level.rest_append : (l ++ l').rest = l.rest ++ l'.rest := rfl

/-- Words behind those of a level change nothing of what it reads. They belong to the command that
comes next or, where no command may come, are read behind them. -/
theorem readLevel_append (h : readLevel program hasCommands ws = .ok l)
    (hc : hasCommands = true → l.rest ≠ [] ∧ l' = ⟨[], [], ts⟩)
    (hs : hasCommands = false → readLevel program hasCommands ts = .ok l') :
    readLevel program hasCommands (ws ++ ts) = .ok (l ++ l') := by
  fun_induction readLevel program hasCommands ws generalizing l
  case case1 =>
    cases h
    exact hs (by simpa using fun h => (hc h).1)
  case case2 w ws hr ih =>
    obtain ⟨l₀, hl₀, he⟩ := bind_eq_ok.mp h
    cases he
    simp only [List.cons_append, readLevel, hr, ih hl₀ hc]
    rfl
  case case3 w ws hr hb =>
    cases h
    obtain ⟨-, rfl⟩ := hc hb
    rw [List.cons_append, readLevel, hr, if_pos hb]
    rfl
  case case4 w ws hr hb ih =>
    obtain ⟨l₀, hl₀, he⟩ := bind_eq_ok.mp h
    cases he
    simp only [List.cons_append, readLevel, hr, if_neg hb, ih hl₀ hc]
    rfl
  case case5 w ws hr hb =>
    cases h
    obtain ⟨hcommands, hws⟩ := Bool.and_eq_true_iff.mp hb
    obtain ⟨-, rfl⟩ := hc hcommands
    simp only [List.cons_append, readLevel, hr]
    rw [if_pos (by simp_all)]
    rfl
  case case6 w ws hr hb ih =>
    obtain ⟨l₀, hl₀, he⟩ := bind_eq_ok.mp h
    cases he
    cases hasCommands with
    | true =>
      -- The double hyphen is the last word, so that no command comes.
      obtain rfl : ws = [] := by simpa using hb
      cases hl₀
      exact absurd rfl (hc rfl).1
    | false =>
      rw [List.cons_append, readLevel, hr, if_neg (by simp), ih hl₀ hc]
      rfl
  case case7 | case8 | case9 =>
    -- A switch with its argument.
    rename_i ht _ _ hr ih
    obtain ⟨u, hu, h⟩ := bind_eq_ok.mp h
    obtain ⟨l₀, hl₀, he⟩ := bind_eq_ok.mp h
    cases he
    simp only [List.cons_append, readLevel, hr, if_pos ht, hu, ih hl₀ hc]
    rfl
  case case10 => cases h
  case case11 w ws s name argument hr ht ih =>
    obtain ⟨u, hu, h⟩ := bind_eq_ok.mp h
    obtain ⟨l₀, hl₀, he⟩ := bind_eq_ok.mp h
    cases he
    simp only [List.cons_append, readLevel, hr, if_neg ht, hu, ih hl₀ hc]
    rfl

theorem readLevel_false (h : readLevel program false ws = .ok l) :
    l.rest = [] ∧ (l.untaken = [] → ∀ w ∈ ws, w.role ≠ .separator) := by
  fun_induction readLevel program false ws generalizing l
  case case1 =>
    cases h
    exact ⟨rfl, fun _ w hw => absurd hw List.not_mem_nil⟩
  case case3 | case5 => simp_all
  case case10 => cases h
  case case2 | case4 | case6 =>
    rename_i ih
    obtain ⟨l₀, hl₀, he⟩ := bind_eq_ok.mp h
    cases he
    exact ⟨(ih hl₀).1, fun hu => absurd hu (List.cons_ne_nil _ _)⟩
  case case7 | case8 =>
    rename_i hr ih
    simp only [bind_eq_ok] at h
    obtain ⟨-, -, l₀, hl₀, he⟩ := h
    cases he
    exact ⟨(ih hl₀).1, fun hu => List.forall_mem_cons.mpr ⟨by simp [hr], (ih hl₀).2 hu⟩⟩
  case case9 w s name ht word ws hr ih =>
    simp only [bind_eq_ok] at h
    obtain ⟨-, -, l₀, hl₀, he⟩ := h
    cases he
    refine ⟨(ih hl₀).1, fun hu => ?_⟩
    simp only [List.forall_mem_cons]
    exact ⟨by simp [hr], by simp, (ih hl₀).2 hu⟩
  case case11 hr ht ih =>
    simp only [bind_eq_ok] at h
    obtain ⟨-, -, l₀, hl₀, he⟩ := h
    cases he
    exact ⟨(ih hl₀).1, fun hu => List.forall_mem_cons.mpr ⟨by simp [hr], (ih hl₀).2 hu⟩⟩

theorem exists_separator (h : sort names us = .ok ws) (hus : "--" ∈ us) :
    ∃ w ∈ ws, w.role = .separator := by
  fun_induction sort names us generalizing ws with
  | case1 => cases hus
  | case2 us =>
    cases h
    exact ⟨_, List.mem_cons_self, rfl⟩
  | case3 u us hne ih =>
    simp only [bind_eq_ok] at h
    obtain ⟨r, -, rest, hrest, he⟩ := h
    cases he
    obtain ⟨w, hw, hr⟩ := ih hrest ((List.mem_cons.mp hus).resolve_left fun h => hne h.symm)
    exact ⟨w, List.mem_cons_of_mem _ hw, hr⟩

theorem notGiven_append {ss : List Switch} (h : notGiven ss gs = []) (gs' : List Given) :
    notGiven ss (gs ++ gs') = [] := by
  rw [notGiven, List.map_eq_nil_iff, List.filter_eq_nil_iff] at h ⊢
  intro s hs hmissing
  simp only [List.any_append, Bool.not_or, Bool.and_eq_true] at hmissing
  exact h s hs (Bool.and_eq_true_iff.mpr ⟨hmissing.1, hmissing.2.1⟩)

theorem read_switches_eq_ok {ss : List Switch} : read program (.switches ss) us = .ok p ↔
    ∃ ws l, sort (namesOf ss) us = .ok ws ∧ readLevel program false ws = .ok l ∧
      notGiven ss l.given = [] ∧ p = ⟨[], l.given, l.untaken⟩ := by
  rw [read]
  simp only [bind_eq_ok, sortWords_eq_ok]
  constructor
  · rintro ⟨ws, hws, l, hl, h⟩
    split at h
    · rename_i hgiven
      cases h
      exact ⟨ws, l, hws, hl, hgiven, rfl⟩
    · cases h
  · rintro ⟨ws, l, hws, hl, hgiven, rfl⟩
    exact ⟨ws, hws, l, hl, if_pos hgiven⟩

theorem read_commands_eq_ok {ss : List Switch} {title : String} {parts : List (String × Grammar)} :
    read program (.commands ss title parts) us = .ok p ↔
      ∃ ws l command rest q, sort (namesOf ss) us = .ok ws ∧ readLevel program true ws = .ok l ∧
        l.rest = command :: rest ∧ readCommand program title (parts.map (·.1)) command.text
          (rest.map Word.text) parts = .ok q ∧
        p = ⟨command.text :: q.commands, l.given ++ q.given, l.untaken ++ q.untaken⟩ := by
  rw [read]
  simp only [bind_eq_ok, sortWords_eq_ok]
  constructor
  · rintro ⟨ws, hws, l, hl, h⟩
    split at h
    · cases h
    · rename_i command rest hrest
      obtain ⟨q, hq, he⟩ := bind_eq_ok.mp h
      exact ⟨ws, l, command, rest, q, hws, hl, hrest, hq, (Except.ok.inj he).symm⟩
  · rintro ⟨ws, l, command, rest, q, hws, hl, hrest, hq, rfl⟩
    refine ⟨ws, hws, l, hl, ?_⟩
    rw [hrest]
    exact bind_eq_ok.mpr ⟨q, hq, rfl⟩

/-- Where words are read along a path of commands, these may follow them: all that was read stays as
it was, and they give these switches. -/
def Grammar.Takes (g : Grammar) (program path vs : List String) (gs : List Given) : Prop :=
  ∀ us p, read program g us = .ok p → p.commands = path → p.untaken = [] →
    read program g (us ++ vs) = .ok { p with given := p.given ++ gs }

theorem takes_switches {ss : List Switch} (hts : sort (namesOf ss) vs = .ok ts)
    (hl : readLevel program false ts = .ok ⟨gs, [], []⟩) :
    (Grammar.switches ss).Takes program [] vs gs := by
  intro us p h _ hu
  obtain ⟨ws, l, hws, hl₀, hgiven, rfl⟩ := read_switches_eq_ok.mp h
  obtain ⟨hrest, hroles⟩ := readLevel_false hl₀
  have hus : "--" ∉ us := by
    intro hmem
    obtain ⟨w, hw, hr⟩ := exists_separator hws hmem
    exact hroles hu w hw hr
  have hsort : sort (namesOf ss) (us ++ vs) = .ok (ws ++ ts) := by
    rw [sort_append hus, hws, hts]
    rfl
  refine read_switches_eq_ok.mpr ⟨ws ++ ts, l ++ ⟨gs, [], []⟩, hsort, ?_, ?_, ?_⟩
  · exact readLevel_append hl₀ nofun fun _ => hl
  · exact notGiven_append hgiven gs
  · exact congrArg (Parsed.mk [] (l.given ++ gs)) (List.append_nil _).symm

theorem takes_commands {ss : List Switch} {title name : String} {parts : List (String × Grammar)}
    {g : Grammar} (hts : sort (namesOf ss) vs = .ok ts)
    (hname : ∀ words, readCommand program title (parts.map (·.1)) name words parts =
      read (program ++ [name]) g words)
    (hg : g.Takes (program ++ [name]) path vs gs) :
    (Grammar.commands ss title parts).Takes program (name :: path) vs gs := by
  intro us p h hp hu
  obtain ⟨ws, l, command, rest, q, hws, hl, hrest, hq, rfl⟩ := read_commands_eq_ok.mp h
  obtain ⟨rfl, hpath⟩ := List.cons.inj hp
  obtain ⟨-, hq'⟩ := List.append_eq_nil_iff.mp hu
  obtain ⟨ts', hsort, htexts⟩ := exists_sort_append hws hts
  have hmore : readCommand program title (parts.map (·.1)) command.text
      ((rest ++ ts').map Word.text) parts = .ok { q with given := q.given ++ gs } := by
    rw [List.map_append, htexts, hname]
    exact hg _ _ (hname _ ▸ hq) hpath hq'
  refine read_commands_eq_ok.mpr
    ⟨ws ++ ts', l ++ ⟨[], [], ts'⟩, command, rest ++ ts', _, hsort, ?_, ?_, hmore, ?_⟩
  · exact readLevel_append hl (fun _ => ⟨by simp [hrest], rfl⟩) nofun
  · exact congrArg (· ++ ts') hrest
  · simp

end Arguments

namespace Command
open Arguments
variable {host : String} {words tail : List String} {level : Level} {run : RunChoices}
  {c : ReleaseChoices}

/-- The words that add a host to a command line: joined with the switch or, if they cannot be taken
for a switch themselves, behind it. -/
inductive HostWords (host : String) : List String → Prop
  | joined : HostWords host ["--host=" ++ host]
  | apart (h : host.toList.head? ≠ some '-') : HostWords host ["--host", host]

theorem atEquals_joined :
    atEquals ("--host=" ++ host).toList = ("--host".toList, .equals host) := by
  rw [String.toList_append]
  change ("--host".toList, Argument.equals (String.ofList host.toList)) = _
  rw [String.ofList_toList]

theorem find_joined {names : List (String × Switch)} (hn : ∀ n ∈ names, '=' ∉ n.1.toList) :
    (names.find? fun n => n.1.toList = ("--host=" ++ host).toList) = none := by
  refine List.find?_eq_none.mpr fun n hmem hname => hn n hmem ?_
  rw [of_decide_eq_true hname, String.toList_append]
  exact List.mem_append_left _ (by decide)

theorem role_joined (host : String) (names : List (String × Switch))
    (hn : ∀ n ∈ names, '=' ∉ n.1.toList) :
    Arguments.role names ("--host=" ++ host) =
      match names.find? fun n => n.1.toList = "--host".toList with
      | some (name, s) => .ok (.known s name (.equals host))
      | none => inexactRole names ("--host=" ++ host).toList := by
  have hlong : ¬ (("--host=" ++ host).toList.head? ≠ some '-' ||
      ("--host=" ++ host).toList.length = 1) = true := by
    simp [String.toList_append]
  unfold Arguments.role
  dsimp only
  rw [if_neg hlong, find_joined hn]
  generalize hparts : atEquals ("--host=" ++ host).toList = parts
  obtain rfl := hparts.symm.trans atEquals_joined
  rfl

theorem exists_role_joined (host : String) (names : List (String × Switch))
    (hn : ∀ n ∈ names, '=' ∉ n.1.toList)
    (hhost : ∀ n ∈ names, Text.startsWith "--host".toList n.1.toList = false) :
    ∃ r, Arguments.role names ("--host=" ++ host) = .ok r := by
  have hfind : (names.find? fun n => n.1.toList = "--host".toList) = none := by
    refine List.find?_eq_none.mpr fun n hmem hname => ?_
    have hstart := hhost n hmem
    rw [of_decide_eq_true hname] at hstart
    exact absurd hstart (by decide +kernel)
  have hcandidates : candidates names ("--host=" ++ host).toList = [] := by
    have hcs : ("--host=" ++ host).toList = '-' :: '-' :: ("host=".toList ++ host.toList) := by
      rw [String.toList_append]
      rfl
    have hnone : (names.filter fun n => Text.startsWith "--host".toList n.1.toList) = [] :=
      List.filter_eq_nil_iff.mpr fun n hmem => Bool.not_eq_true _ ▸ hhost n hmem
    rw [hcs, candidates, ← hcs, atEquals_joined]
    exact congrArg (List.map _) hnone
  rw [role_joined host names hn, hfind]
  dsimp only
  rw [inexactRole, hcandidates]
  exact ⟨_, rfl⟩

theorem sort_joined {names : List (String × Switch)} {r : Role}
    (h : Arguments.role names ("--host=" ++ host) = .ok r) :
    Arguments.sort names ["--host=" ++ host] = .ok [⟨"--host=" ++ host, r⟩] := by
  have hne : "--host=" ++ host ≠ "--" := fun he => by
    simpa [String.toList_append] using congrArg String.toList he
  rw [sort_cons [] hne, h]
  rfl

theorem sort_apart {names : List (String × Switch)} {r : Role}
    (hhost : host.toList.head? ≠ some '-') (h : Arguments.role names "--host" = .ok r) :
    Arguments.sort names ["--host", host] = .ok [⟨"--host", r⟩, ⟨host, .plain⟩] := by
  rw [sort_cons [host] (by decide), h, sort_plain hhost]
  rfl

theorem takes_release {ts₁ ts₂ ts₃ : List Word} {gs : List Given}
    (htop : Arguments.sort (namesOf topSwitches) tail = .ok ts₁)
    (hrelease : Arguments.sort (namesOf []) tail = .ok ts₂)
    (hrun : Arguments.sort (namesOf releaseRunSwitches) tail = .ok ts₃)
    (hl : readLevel [programName, "release", "run"] false ts₃ = .ok ⟨gs, [], []⟩) :
    grammar.Takes [programName] ["release", "run"] tail gs := by
  let parts : List (String × Grammar) := [("run", .switches releaseRunSwitches)]
  have hrunCommand : (Grammar.commands [] "release_command" parts).Takes
      ([programName] ++ ["release"]) ["run"] tail gs :=
    takes_commands hrelease (fun words => by simp only [parts, readCommand, if_true])
      (takes_switches hrun hl)
  refine takes_commands htop (fun words => ?_) hrunCommand
  simp only [readCommand, String.reduceEq, if_false, if_true]
  rfl

theorem takes_host (h : HostWords host tail) :
    grammar.Takes [programName] ["release", "run"] tail [⟨"--host", host⟩] := by
  cases h with
  | joined =>
    -- The levels above the release sort the word too, although it is none of their switches.
    obtain ⟨r₁, h₁⟩ := exists_role_joined host (namesOf topSwitches) (by decide) (by decide)
    obtain ⟨r₂, h₂⟩ := exists_role_joined host (namesOf []) (by decide) (by decide)
    have h₃ := role_joined host (namesOf releaseRunSwitches) (by decide)
    exact takes_release (sort_joined h₁) (sort_joined h₂) (sort_joined h₃) rfl
  | apart hh =>
    exact takes_release (sort_apart hh rfl) (sort_apart hh rfl) (sort_apart hh rfl) rfl

theorem ofParsed_eq_releaseRun {p : Parsed} : ofParsed p = some (.releaseRun run c) ↔
    p.commands = ["release", "run"] ∧ run = runChoices p ∧ c = releaseChoices p := by
  unfold ofParsed
  constructor
  · intro h
    split at h <;> cases h
    rename_i hp
    exact ⟨hp, rfl, rfl⟩
  · rintro ⟨hp, rfl, rfl⟩
    rw [hp]
    rfl

theorem releaseChoices_host (p : Parsed) (host : String) :
    releaseChoices { p with given := p.given ++ [⟨"--host", host⟩] } =
      { releaseChoices p with host := some host } := by
  simp [releaseChoices, Parsed.last?, Parsed.every]

theorem runChoices_host (p : Parsed) (host : String) :
    runChoices { p with given := p.given ++ [⟨"--host", host⟩] } = runChoices p := by
  simp [runChoices, Parsed.last?, Parsed.has]

/-- With the words of a host behind it, the command line of a release is that of the same release on
the host. -/
theorem read_host (hread : Command.read words = .ok ⟨level, .releaseRun run c⟩)
    (h : HostWords host tail) :
    Command.read (words ++ tail) = .ok ⟨level, .releaseRun run { c with host := some host }⟩ := by
  simp only [Command.read, readAll, bind_eq_ok] at hread
  obtain ⟨p, ⟨q, hq, hp⟩, hi⟩ := hread
  split at hp
  case isFalse => cases hp
  rename_i hu
  cases hp
  split at hi
  case h_2 => cases hi
  rename_i command hcommand
  cases hi
  obtain ⟨hpath, rfl, rfl⟩ := ofParsed_eq_releaseRun.mp hcommand
  have hlevel : Parsed.last? { p with given := p.given ++ [⟨"--host", host⟩] } "--log-level" =
      p.last? "--log-level" := by
    simp [Parsed.last?]
  have hmore : ofParsed { p with given := p.given ++ [⟨"--host", host⟩] } =
      some (.releaseRun (runChoices p) { releaseChoices p with host := some host }) :=
    ofParsed_eq_releaseRun.mpr
      ⟨hpath, (runChoices_host p host).symm, (releaseChoices_host p host).symm⟩
  rw [Command.read, readAll]
  refine bind_eq_ok.mpr ⟨_, bind_eq_ok.mpr ⟨_, takes_host h words p hq hpath hu, if_pos hu⟩, ?_⟩
  rw [hmore, hlevel]
  rfl

example : (Command.read ["release", "run", "--host=-arm"]).isOk ∧
    ¬ (Command.read ["release", "run", "--host", "-arm"]).isOk := by
  decide +kernel

end Command
end BindingRelease
