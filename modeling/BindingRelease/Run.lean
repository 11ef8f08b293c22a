import BindingRelease.Matrix
import BindingRelease.Pipeline
import BindingRelease.Pool
/-!
Runs: one context for every entry of a matrix or every test host, and one report for each in the
same order. A failed context leaves the others alone. A crash ends the run after all contexts are
done; an interrupt also cancels what is not done.
-/
namespace BindingRelease

abbrev Outcome := List Note × Except Crash Report

namespace Outcome

def firstCrash : List Outcome → Option Crash
  | [] => none
  | (_, .error c) :: _ => some c
  | (_, .ok _) :: os => firstCrash os

def reports (os : List Outcome) : List Report :=
  os.filterMap fun o => o.2.toOption

/-- Cancels the run once the collected outcomes show that it was interrupted. -/
def watch (signal : Bool) (os : List Outcome) : Program Unit :=
  match firstCrash os with
  | some .interrupted => if signal then .request .cancel else .done ()
  | _ => .done ()

end Outcome

/-- Runs contexts side by side and collects their reports. -/
def fanOut (signal : Bool) (workers : Option Int) (schedule : List Nat)
    (contexts : List (Program Outcome)) : Step (List Report) :=
  ⟨(Pool.run (Outcome.watch signal) workers schedule contexts).map fun os =>
    (⟨[], os.flatMap (·.1)⟩, match Outcome.firstCrash os with
      | some c => .error (.crash c)
      | none => .ok (Outcome.reports os))⟩

namespace Surroundings

def release (s : Surroundings) (schedule : List Nat) (m : Matrix) (target : Target) :
    Step (List Report) := do
  Step.note .info Context.source
    ("Releasing " ++ Text.decimalText m.entries.length ++ " artifacts for " ++ target.tag)
  fanOut s.signal s.settings.workers schedule (m.entries.map (s.releaseContext target))

def test (s : Surroundings) (schedule : List Nat) (hosts command : List String) :
    Step (List Report) :=
  fanOut s.signal s.settings.workers schedule (hosts.map (s.testContext command))

end Surroundings
end BindingRelease
