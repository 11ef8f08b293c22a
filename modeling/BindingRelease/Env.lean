/-!
Environments: the variables handed to a process. Setting a variable that is there keeps its place;
only look-up is observable.
-/
namespace BindingRelease

structure Env where
  entries : List (String × String)
  deriving DecidableEq, Repr, Inhabited

namespace Env

def empty : Env := ⟨[]⟩

def get? (e : Env) (name : String) : Option String :=
  (e.entries.find? fun v => v.1 = name).map (·.2)

def contains (e : Env) (name : String) : Bool :=
  (e.get? name).isSome

def setIn (name value : String) : List (String × String) → List (String × String)
  | [] => [(name, value)]
  | v :: vs => if v.1 = name then (name, value) :: vs else v :: setIn name value vs

def set (e : Env) (name value : String) : Env :=
  ⟨setIn name value e.entries⟩

def update (e : Env) (vars : List (String × String)) : Env :=
  vars.foldl (fun e v => e.set v.1 v.2) e

def nonempty? (e : Env) (name : String) : Option String :=
  (e.get? name).filter (· ≠ "")

@[simp] theorem get?_empty (name : String) : empty.get? name = none := rfl

theorem get?_set_self (e : Env) (name value : String) :
    (e.set name value).get? name = some value := by
  obtain ⟨es⟩ := e
  simp only [set, get?]
  induction es with
  | nil => simp [setIn]
  | cons v vs ih => by_cases h : v.1 = name <;> simp [setIn, h, ih]

theorem get?_set_of_ne (e : Env) {name other : String} (value : String) (h : other ≠ name) :
    (e.set name value).get? other = e.get? other := by
  obtain ⟨es⟩ := e
  simp only [set, get?]
  induction es with
  | nil => simp [setIn, h.symm]
  | cons v vs ih =>
    by_cases hv : v.1 = name
    · simp [setIn, hv, h.symm]
    · simp only [setIn, hv, if_false, List.find?_cons]
      split
      · rfl
      · exact ih

end Env
end BindingRelease
