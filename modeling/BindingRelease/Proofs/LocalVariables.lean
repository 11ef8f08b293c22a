import Mathlib.Data.List.Induction
import Mathlib.Data.List.Nodup
import BindingRelease.Proofs.MatrixFiles
/-!
The variables of an environment file. Loading sets the variables that the file gives a value and
that are not set yet, and nothing else. A second load of the same file may expand its references to
other values, but it finds every variable set.
-/
namespace BindingRelease

/-- A question that both traces ask has one answer. -/
def Trace.Agrees (t u : Trace) : Prop :=
  ∀ (q : Request) (x y : q.Answer), ⟨q, x⟩ ∈ t → ⟨q, y⟩ ∈ u → x = y

namespace EnvFile
open Step
variable {env env' : Env} {known : Known} {ss : List (Nat × Statement)} {name n : String}
  {path : Path} {t u : Trace} {j : Journal}

def Statement.given (name : String) : Statement → Option (Option String)
  | assignment n value => if n = name then some value else none
  | nothing | malformed => none

def Sets (ss : List (Nat × Statement)) (name : String) : Prop :=
  ∃ value, (ss.filterMap fun s => s.2.given name).getLast? = some (some value)

theorem Known.keys_put (name : String) (value : Option String) (known : Known) :
    (known.put name value).map Prod.fst =
      if name ∈ known.map Prod.fst then known.map Prod.fst else known.map Prod.fst ++ [name] := by
  induction known with
  | nil => simp [Known.put]
  | cons e es ih =>
    by_cases he : e.1 = name
    · simp [Known.put, he]
    · by_cases hes : name ∈ es.map Prod.fst <;> simp_all [Known.put, Ne.symm he]

theorem Known.nodup_put {value : Option String} (hd : (known.map Prod.fst).Nodup) :
    ((known.put name value).map Prod.fst).Nodup := by
  rw [Known.keys_put]
  split
  · exact hd
  · rename_i hn
    exact List.Nodup.append hd (List.nodup_singleton name) (by simpa using hn)

theorem Known.mem_put {value x : Option String} (hd : (known.map Prod.fst).Nodup) :
    (n, x) ∈ known.put name value ↔ n = name ∧ x = value ∨ n ≠ name ∧ (n, x) ∈ known := by
  induction known with
  | nil => simp [Known.put]
  | cons e es ih =>
    obtain ⟨k, y⟩ := e
    obtain ⟨hk, hd⟩ := List.nodup_cons.mp hd
    have hmem (h : (n, x) ∈ es) : n ≠ k := fun he => hk (List.mem_map.mpr ⟨_, h, he⟩)
    by_cases he : k = name <;> grind [Known.put]

theorem valuesOf_concat (s : Nat × Statement) :
    valuesOf env (ss ++ [s]) = match s.2 with
      | .assignment name value =>
        (valuesOf env ss).put name (value.map (expand env (valuesOf env ss)))
      | _ => valuesOf env ss :=
  List.foldl_append

theorem nodup_valuesOf (env : Env) (ss : List (Nat × Statement)) :
    ((valuesOf env ss).map Prod.fst).Nodup := by
  induction ss using List.reverseRecOn with
  | nil => simp [valuesOf]
  | append_singleton ss s ih =>
    rw [valuesOf_concat]
    split
    · exact Known.nodup_put ih
    · exact ih

theorem exists_mem_valuesOf_iff :
    (∃ value, (name, some value) ∈ valuesOf env ss) ↔ Sets ss name := by
  -- From the last line on, since a line replaces what the lines before it say of its variable.
  induction ss using List.reverseRecOn with
  | nil => simp [valuesOf, Sets]
  | append_singleton ss s ih =>
    rw [valuesOf_concat]
    obtain ⟨line, s⟩ := s
    cases s with
    | assignment n value =>
      simp only [Known.mem_put (nodup_valuesOf env ss)]
      by_cases hn : n = name
      · cases value <;> simp [Sets, Statement.given, hn]
      · simpa [Sets, Statement.given, hn, Ne.symm hn] using ih
    | nothing | malformed => simpa [Sets, Statement.given] using ih

/-! Setting the variables one after the other. The cases of the recursion: none is left; the next
one has no value; it is set already; it is set now; it cannot be set. -/

theorem get?_assign_of_set {value : String} (h : env.get? name = some value) :
    (assign env known).1.get? name = some value := by
  fun_induction assign env known with
  | case1 | case5 => exact h
  | case2 env n rest ih | case3 env n rest v hc ih => exact ih h
  | case4 env n rest v hc hs ih =>
    refine ih ((env.get?_set_of_ne v ?_).trans h)
    rintro rfl
    exact hc (by simp [Env.contains, h])

theorem mem_of_get?_assign {value : String} (h : (assign env known).1.get? name = some value) :
    env.get? name = some value ∨ (name, some value) ∈ known := by
  fun_induction assign env known with
  | case1 | case5 => exact .inl h
  | case2 env n rest ih | case3 env n rest v hc ih =>
    exact (ih h).imp_right (List.mem_cons_of_mem _)
  | case4 env n rest v hc hs ih =>
    rcases ih h with h | h
    · by_cases hn : name = n
      · subst hn
        obtain rfl := Option.some.inj ((env.get?_set_self _ v).symm.trans h)
        exact .inr List.mem_cons_self
      · exact .inl ((env.get?_set_of_ne v hn).symm.trans h)
    · exact .inr (List.mem_cons_of_mem _ h)

theorem exists_mem_of_get?_assign_ne (h : (assign env known).1.get? name ≠ env.get? name) :
    ∃ value, (name, some value) ∈ known := by
  cases hname : (assign env known).1.get? name with
  | some value =>
    exact ⟨value, (mem_of_get?_assign hname).resolve_left fun he => h (hname.trans he.symm)⟩
  | none =>
    cases he : env.get? name with
    | some value => cases hname.symm.trans (get?_assign_of_set he)
    | none => exact absurd (hname.trans he.symm) h

theorem contains_assign {value : String} (hok : (assign env known).2 = true)
    (h : (name, some value) ∈ known) : (assign env known).1.contains name := by
  fun_induction assign env known with
  | case1 => cases h
  | case2 env n rest ih =>
    exact ih hok ((List.mem_cons.mp h).resolve_left nofun)
  | case3 env n rest v hc ih =>
    rcases List.mem_cons.mp h with he | h
    · cases he
      obtain ⟨w, hw⟩ := Option.isSome_iff_exists.mp hc
      exact Option.isSome_iff_exists.mpr ⟨w, get?_assign_of_set hw⟩
    · exact ih hok h
  | case4 env n rest v hc hs ih =>
    rcases List.mem_cons.mp h with he | h
    · cases he
      exact Option.isSome_iff_exists.mpr ⟨_, get?_assign_of_set (env.get?_set_self _ _)⟩
    · exact ih hok h
  | case5 => cases hok

theorem assign_eq_self (h : ∀ n value, (n, some value) ∈ known → env.contains n) :
    assign env known = (env, true) := by
  fun_induction assign env known with
  | case1 => rfl
  | case2 env n rest ih | case3 env n rest v hc ih =>
    exact ih fun n' value hn => h n' value (List.mem_cons_of_mem _ hn)
  | case4 env n rest v hc hs ih => exact absurd (h n v List.mem_cons_self) hc
  | case5 env n rest v hc hs => exact absurd (h n v List.mem_cons_self) hc

def Disabled (env : Env) : Prop := isYes ((env.get? "PYTHON_DOTENV_DISABLED").getD "") = true

def statementsOf : Except Crash (List UInt8) → Except Failure (List (Nat × Statement))
  | .error c => .error (.crash c)
  | .ok bytes => match Matrix.textOf bytes with
    | none => .error (.crash .notUtf8)
    | some text => .ok (statements text)

theorem statementsOf_eq_ok {x : Except Crash (List UInt8)} :
    statementsOf x = .ok ss ↔
      ∃ bytes text, x = .ok bytes ∧ Matrix.textOf bytes = some text ∧ ss = statements text := by
  cases x with
  | error e => simp [statementsOf]
  | ok bytes => cases ht : Matrix.textOf bytes <;> simp [statementsOf, ht, eq_comm]

/-- What is asked about the file, and the statements that it comes to. -/
inductive Reading (env : Env) (path : Path) : Trace → Except Failure (List (Nat × Statement)) → Prop
  | unseen (c : Crash) : Reading env path [⟨.exists path, Except.error c⟩] (.error (.crash c))
  | missing : Reading env path [⟨.exists path, Except.ok false⟩] (.ok [])
  | disabled (hoff : Disabled env) : Reading env path [⟨.exists path, Except.ok true⟩] (.ok [])
  | unclear (hon : ¬ Disabled env) (c : Crash) :
      Reading env path [⟨.exists path, Except.ok true⟩, ⟨.isFile path, Except.error c⟩]
        (.error (.crash c))
  | noFile (hon : ¬ Disabled env) :
      Reading env path [⟨.exists path, Except.ok true⟩, ⟨.isFile path, Except.ok false⟩] (.ok [])
  | opened (hon : ¬ Disabled env) (x : Except Crash (List UInt8)) :
      Reading env path [⟨.exists path, Except.ok true⟩, ⟨.isFile path, Except.ok true⟩,
        ⟨.readFile path, x⟩] (statementsOf x)

theorem Reading.of_statementsOf (hon : ¬ Disabled env) {x : Except Crash (List UInt8)}
    {r : Except Failure (List (Nat × Statement))} (hx : statementsOf x = r) :
    Reading env path [⟨.exists path, Except.ok true⟩, ⟨.isFile path, Except.ok true⟩,
      ⟨.readFile path, x⟩] r :=
  hx ▸ .opened hon x

theorem warnAll_runs {lines : List Nat} {r : Except Failure Unit}
    (h : (warnAll lines).Runs t j r) : t = [] ∧ r = .ok () := by
  induction lines generalizing j with
  | nil =>
    obtain ⟨rfl, -, rfl⟩ := runs_pure.mp h
    exact ⟨rfl, rfl⟩
  | cons n ns ih =>
    obtain ⟨i, -, h⟩ := runs_note_bind.mp h
    exact ih h

theorem contentOf_runs {r : Except Failure (List Char)} (h₀ : (contentOf path).Runs t j r) :
    (∃ c, t = [⟨.isFile path, Except.error c⟩] ∧ r = .error (.crash c)) ∨
    (t = [⟨.isFile path, Except.ok false⟩] ∧ r = .ok []) ∨
      ∃ x, t = [⟨.isFile path, Except.ok true⟩, ⟨.readFile path, x⟩] ∧
        statementsOf x = r.map statements := by
  rcases runs_isFile_bind h₀ with ⟨c, rfl, -, rfl⟩ | ⟨plain, t, rfl, h⟩
  · exact .inl ⟨c, rfl, rfl⟩
  refine .inr ?_
  cases plain with
  | false =>
    obtain ⟨rfl, -, rfl⟩ := runs_pure.mp h
    exact .inl ⟨rfl, rfl⟩
  | true =>
    rcases runs_readText_bind (runs_bind_pure h) with
      ⟨c, rfl, -, rfl⟩ | ⟨bytes, u, rfl, ⟨ht, rfl, -, rfl⟩ | ⟨text, ht, h⟩⟩
    · exact .inr ⟨.error c, rfl, rfl⟩
    · exact .inr ⟨.ok bytes, rfl, by simp [statementsOf, ht, Except.map]⟩
    · obtain ⟨rfl, -, rfl⟩ := runs_pure.mp h
      exact .inr ⟨.ok bytes, rfl, by simp [statementsOf, ht, Except.map]⟩

theorem statements_nil : statements [] = [] := by
  simp [statements, statementsFrom]

theorem readStatements_runs {r : Except Failure (List (Nat × Statement))}
    (h₀ : (readStatements env path).Runs t j r) : Reading env path t r := by
  rcases runs_present_bind h₀ with ⟨c, rfl, -, rfl⟩ | ⟨there, t, rfl, h⟩
  · exact .unseen c
  cases there with
  | false =>
    obtain ⟨rfl, -, rfl⟩ := runs_pure.mp h
    exact .missing
  | true =>
    obtain ⟨i, -, h⟩ := runs_note_bind.mp h
    split at h
    · rename_i hoff
      obtain ⟨i, -, h⟩ := runs_note_bind.mp h
      obtain ⟨rfl, -, rfl⟩ := runs_pure.mp h
      exact .disabled hoff
    · rename_i hon
      rcases runs_bind.mp h with ⟨e, rfl, hc⟩ | ⟨t₁, t₂, j₁, j₂, text, rfl, -, hc, hk⟩
      · rcases contentOf_runs hc with ⟨c, rfl, he⟩ | ⟨-, he⟩ | ⟨x, rfl, hx⟩
        · cases he
          exact .unclear hon c
        · cases he
        · exact .of_statementsOf hon hx
      · have hend : t₂ = [] ∧ r = .ok (statements text) := by
          rcases runs_bind.mp hk with ⟨e, -, hw⟩ | ⟨u₁, u₂, i₁, i₂, ⟨⟩, rfl, -, hw, hp⟩
          · cases (warnAll_runs hw).2
          · obtain ⟨rfl, -⟩ := warnAll_runs hw
            obtain ⟨rfl, -, rfl⟩ := runs_pure.mp hp
            exact ⟨rfl, rfl⟩
        obtain ⟨rfl, rfl⟩ := hend
        rcases contentOf_runs hc with ⟨c, -, he⟩ | ⟨rfl, he⟩ | ⟨x, rfl, hx⟩
        · cases he
        · cases he
          rw [statements_nil]
          exact .noFile hon
        · exact .of_statementsOf hon hx

def loaded (env : Env) : Except Failure (List (Nat × Statement)) → Env × Except Failure Bool
  | .error e => (env, .error e)
  | .ok ss => ((assign env (valuesOf env ss)).1,
      if (assign env (valuesOf env ss)).2 then .ok !(valuesOf env ss).isEmpty
      else .error (.crash .badValue))

theorem assign_of_loaded {b : Bool} (h : (loaded env (.ok ss)).2 = .ok b) :
    (assign env (valuesOf env ss)).2 = true := by
  by_contra hn
  rw [loaded, if_neg hn] at h
  cases h

theorem load_runs {out : Except Failure (Env × Except Failure Bool)}
    (h₀ : (load env path).Runs t j out) :
    ∃ r, Reading env path t r ∧ out = .ok (loaded env r) := by
  rcases runs_bind.mp h₀ with ⟨e, -, h⟩ | ⟨t₁, t₂, j₁, j₂, r, rfl, -, h, hk⟩
  · obtain ⟨x, he, -⟩ := runs_attempt.mp h
    cases he
  · obtain ⟨x, he, hr⟩ := runs_attempt.mp h
    cases he
    refine ⟨r, ?_⟩
    cases r with
    | error e =>
      obtain ⟨rfl, -, rfl⟩ := runs_pure.mp hk
      exact ⟨by simpa using readStatements_runs hr, rfl⟩
    | ok ss =>
      dsimp only at hk
      split at hk
      all_goals
        rename_i ha
        obtain ⟨rfl, -, rfl⟩ := runs_pure.mp hk
        exact ⟨by simpa using readStatements_runs hr, by simp [loaded, ha]⟩

namespace Reading
variable {r r' : Except Failure (List (Nat × Statement))}

theorem cases_opened (h : Reading env path t r) :
    ((r = .ok [] ∨ ∃ c, r = .error (.crash c)) ∧ ∀ x, ⟨.readFile path, x⟩ ∉ t) ∨
      ∃ x, r = statementsOf x ∧ ∀ y, ⟨.readFile path, y⟩ ∈ t ↔ y = x := by
  have unread (ht : ∀ ev ∈ t, ev.1 ≠ .readFile path) : ∀ x, ⟨.readFile path, x⟩ ∉ t :=
    fun x hx => ht _ hx rfl
  cases h with
  | unseen c | unclear hon c => exact .inl ⟨.inr ⟨c, rfl⟩, unread (by simp)⟩
  | missing | disabled | noFile => exact .inl ⟨.inl rfl, unread (by simp)⟩
  | opened hon x =>
    refine .inr ⟨x, rfl, fun y => ⟨fun hy => ?_, fun hy => by simp [hy]⟩⟩
    simp only [List.mem_cons, List.not_mem_nil, or_false] at hy
    rcases hy with hy | hy | hy <;> cases hy
    rfl

theorem again (h : Reading env path t (.ok ss)) (h' : Reading env' path u r') (hs : t.Agrees u)
    (henv : Disabled env → Disabled env') : r' = .ok ss ∨ r' = .ok [] := by
  generalize hr : Except.ok ss = r at h
  cases h' with
  | missing | disabled | noFile => exact .inr rfl
  | unseen c =>
    cases h with
    | unseen | unclear => cases hr
    | missing => cases hs (.exists path) (.ok false) (.error c) (by simp) (by simp)
    | _ => cases hs (.exists path) (.ok true) (.error c) (by simp) (by simp)
  | unclear hon c =>
    cases h with
    | unseen | unclear => cases hr
    | missing => cases hs (.exists path) (.ok false) (.ok true) (by simp) (by simp)
    | disabled hoff => exact absurd (henv hoff) hon
    | noFile => cases hs (.isFile path) (.ok false) (.error c) (by simp) (by simp)
    | opened => cases hs (.isFile path) (.ok true) (.error c) (by simp) (by simp)
  | opened hon x =>
    cases h with
    | unseen | unclear => cases hr
    | missing => cases hs (.exists path) (.ok false) (.ok true) (by simp) (by simp)
    | disabled hoff => exact absurd (henv hoff) hon
    | noFile => cases hs (.isFile path) (.ok false) (.ok true) (by simp) (by simp)
    | opened hon' y =>
      obtain rfl : y = x := hs (.readFile path) y x (by simp) (by simp)
      exact .inl rfl

end Reading

/-- Loading with these answers leaves the variables that are set, and adds those that the file gives
a value. -/
structure Spares (path : Path) (t : Trace) (env env' : Env) : Prop where
  kept : ∀ name value, env.get? name = some value → env'.get? name = some value
  added : ∀ name, env'.get? name ≠ env.get? name →
    ∃ bytes text, ⟨.readFile path, Except.ok bytes⟩ ∈ t ∧ Matrix.textOf bytes = some text ∧
      Sets (statements text) name

/-- A variable that was not set comes to the value that the file gives it, if any. -/
def Completes (path : Path) (t : Trace) (env env' : Env) : Prop :=
  ∀ bytes text, ⟨.readFile path, Except.ok bytes⟩ ∈ t → Matrix.textOf bytes = some text →
    ∀ name, env.get? name = none → ∀ value,
      env'.get? name = some value ↔ (name, some value) ∈ valuesOf env (statements text)

theorem Disabled.mono
    (hkept : ∀ name value, env.get? name = some value → env'.get? name = some value)
    (hoff : Disabled env) : Disabled env' := by
  unfold Disabled at hoff ⊢
  cases hv : env.get? "PYTHON_DOTENV_DISABLED" with
  | none => exact absurd (hv ▸ hoff) (by decide)
  | some value =>
    rw [hv] at hoff
    rwa [hkept _ value hv]

theorem Known.unique {value value' : Option String} (hd : (known.map Prod.fst).Nodup)
    (h : (name, value) ∈ known) (h' : (name, value') ∈ known) : value = value' :=
  (Prod.mk.inj (List.inj_on_of_nodup_map hd h h' rfl)).2

theorem get?_assign_iff {value : String} (hd : (known.map Prod.fst).Nodup)
    (hok : (assign env known).2 = true) (hname : env.get? name = none) :
    (assign env known).1.get? name = some value ↔ (name, some value) ∈ known := by
  have sound {v : String} (h : (assign env known).1.get? name = some v) : (name, some v) ∈ known :=
    (mem_of_get?_assign h).resolve_left (by simp [hname])
  refine ⟨sound, fun h => ?_⟩
  obtain ⟨v, hv⟩ := Option.isSome_iff_exists.mp (contains_assign hok h)
  obtain rfl := Option.some.inj (Known.unique hd h (sound hv))
  exact hv

theorem Reading.spares {r : Except Failure (List (Nat × Statement))} (h : Reading env path t r) :
    Spares path t env (loaded env r).1 := by
  cases r with
  | error e => exact ⟨fun _ _ h => h, fun _ h => absurd rfl h⟩
  | ok ss =>
    refine ⟨fun _ _ => get?_assign_of_set, fun name hne => ?_⟩
    have hsets : Sets ss name := exists_mem_valuesOf_iff.mp (exists_mem_of_get?_assign_ne hne)
    rcases h.cases_opened with ⟨hss | ⟨c, hc⟩, -⟩ | ⟨x, hss, hx⟩
    · cases hss
      obtain ⟨value, hvalue⟩ := hsets
      cases hvalue
    · cases hc
    · obtain ⟨bytes, text, rfl, ht, rfl⟩ := statementsOf_eq_ok.mp hss.symm
      exact ⟨bytes, text, (hx _).mpr rfl, ht, hsets⟩

theorem Reading.completes {r : Except Failure (List (Nat × Statement))} {b : Bool}
    (h : Reading env path t r) (hb : (loaded env r).2 = .ok b) :
    Completes path t env (loaded env r).1 := by
  intro bytes text hread ht name hname value
  have hr : r = .ok (statements text) := by
    rcases h.cases_opened with ⟨-, hno⟩ | ⟨x, rfl, hx⟩
    · exact absurd hread (hno _)
    · obtain rfl := (hx _).mp hread
      simp [statementsOf, ht]
  subst hr
  exact get?_assign_iff (nodup_valuesOf _ _) (assign_of_loaded hb) hname

/-- Where loading has been, it finds nothing to do: what it did not set then was not to be set. -/
theorem Reading.loaded_again {r r' : Except Failure (List (Nat × Statement))} {b : Bool}
    (h : Reading env path t r) (hb : (loaded env r).2 = .ok b)
    (h' : Reading (loaded env r).1 path u r') (hs : t.Agrees u) :
    ∃ b', loaded (loaded env r).1 r' = ((loaded env r).1, .ok b') := by
  cases r with
  | error e => cases hb
  | ok ss =>
    -- The values are other ones than before, but they belong to the same variables.
    have hset (name value) (hmem : (name, some value) ∈ valuesOf (loaded env (.ok ss)).1 ss) :
        (loaded env (.ok ss)).1.contains name := by
      have hsets : Sets ss name := exists_mem_valuesOf_iff.mp ⟨value, hmem⟩
      obtain ⟨value', hmem'⟩ := exists_mem_valuesOf_iff.mpr hsets
      exact contains_assign (assign_of_loaded hb) hmem'
    rcases h.again h' hs (Disabled.mono h.spares.kept) with rfl | rfl
    · rw [loaded, assign_eq_self hset]
      exact ⟨_, rfl⟩
    · exact ⟨_, rfl⟩

/-- Loading an environment file looks at the file and reads it, and whether it returns or fails it
leaves every variable that is set and adds only variables that the file gives a value. Once it has
returned, every variable with a value is set, and loading the same file again changes nothing. -/
theorem load_overrides_nothing {out : Except Failure (Env × Except Failure Bool)}
    (h₀ : (load env path).Runs t j out) :
    ∃ env' r, out = .ok (env', r) ∧ t.Inspects ∧ Spares path t env env' ∧
      ∀ b, r = .ok b → Completes path t env env' ∧
        ∀ u i out', (load env' path).Runs u i out' → t.Agrees u →
          ∃ b', out' = .ok (env', .ok b') := by
  obtain ⟨r, hr, rfl⟩ := load_runs h₀
  refine ⟨_, _, rfl, load_only.asks h₀, hr.spares, fun b hb => ⟨hr.completes hb, ?_⟩⟩
  intro u i out' h₁ hs
  obtain ⟨r', hr', rfl⟩ := load_runs h₁
  obtain ⟨b', hb'⟩ := hr.loaded_again hb hr' hs
  exact ⟨b', congrArg _ hb'⟩

/-- The file repeats a variable, names one without a value, has a malformed line and references, one
of them to a later line. A second load would expand that one to another value. -/
theorem localFile_overrides_nothing :
    let file := "\n".intercalate ["B=x", "export C", "=oops", "A='n'$\x7bB\x7d",
      "B=\"$\x7bD:-d\x7d\"", "A=$\x7bE\x7d.", "E=no", "F=no"]
    let answer (q : Request) (_ : Unit) : q.Answer × Unit :=
      (Matrix.Found.answer (.ofBytes Yaml.read file.toUTF8.toList) q, ())
    let path := Path.ofString "/work/.env"
    let once (env : Env) := ((load env path).run.runWith answer ()).1.2
    ∃ env' b, once ⟨[("F", "")]⟩ = .ok (env', .ok true) ∧ once env' = .ok (env', .ok b) ∧
      env'.get? "F" = some "" ∧ env'.get? "A" = some "." ∧ env'.get? "B" = some "d" ∧
      env'.get? "C" = none ∧ env'.get? "E" = some "no" := by
  intro file answer path once
  obtain ⟨env', r, hout, -, hspares, hreturned⟩ :=
    load_overrides_nothing (Step.runs_trace answer (load ⟨[("F", "")]⟩ path) ())
  have hgiven : (once ⟨[("F", "")]⟩).toOption.map
      (fun e => (e.2.toOption, ["A", "B", "C", "E"].map e.1.get?)) =
        some (some true, [some ".", some "d", none, some "no"]) := by decide +kernel
  have hout : once ⟨[("F", "")]⟩ = .ok (env', r) := hout
  rw [hout] at hgiven
  obtain ⟨hr, hA, hB, hC, hE⟩ : r = .ok true ∧ env'.get? "A" = some "." ∧ env'.get? "B" = some "d" ∧
      env'.get? "C" = none ∧ env'.get? "E" = some "no" := by
    cases r <;> simp_all [Except.toOption]
  have hsame {p q : Program (Journal × Except Failure (Env × Except Failure Bool))} :
      (p.trace answer ()).Agrees (q.trace answer ()) := by
    intro q x y hx hy
    obtain ⟨⟨⟩, hx'⟩ := Program.mem_trace hx
    obtain ⟨⟨⟩, hy'⟩ := Program.mem_trace hy
    exact hx'.trans hy'.symm
  obtain ⟨b, hb⟩ := (hreturned true hr).2 _ _ _ (Step.runs_trace answer (load env' path) ()) hsame
  exact ⟨env', b, hr ▸ hout, hb, hspares.kept "F" "" rfl, hA, hB, hC, hE⟩

end EnvFile
end BindingRelease
