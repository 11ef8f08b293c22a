import BindingRelease.Program
/-!
Programs that run side by side on a bounded number of workers. A schedule names, request by
request, the program that goes on next; where it ends the rest runs in order, so the finite
schedules give every interleaving. Results are collected in the order of the programs, and whoever
collects them is told of every result as soon as those before it are there.
-/
namespace BindingRelease

/-- A program's place in a pool. -/
inductive Slot (α : Type) where
  | waiting (p : Program α)
  | running (p : Program α)
  | finished (a : α)

namespace Slot

def isRunning {α : Type} : Slot α → Bool
  | running _ => true
  | _ => false

def complete {α : Type} : Slot α → Program α
  | waiting p | running p => p
  | finished a => .done a

end Slot

namespace Pool

/-- How many workers a pool has: as many as wished but at least one, and no more than there are
programs. No wish, and a wish for none, is one for all. -/
def workersFor (wish : Option Int) (programs : Nat) : Nat :=
  let wished : Int := match wish with
    | some w => if w = 0 then programs else w
    | none => programs
  (max 1 (min wished programs)).toNat

def fill {α : Type} : Nat → List (Slot α) → List (Slot α)
  | 0, ss => ss
  | _, [] => []
  | n + 1, .waiting p :: ss => .running p :: fill n ss
  | n + 1, s :: ss => s :: fill (n + 1) ss

def refill {α : Type} (workers : Nat) (ss : List (Slot α)) : List (Slot α) :=
  fill (workers - ss.countP Slot.isRunning) ss

def collected {α : Type} : List (Slot α) → List α
  | .finished a :: ss => a :: collected ss
  | _ => []

/-- One request of the program in slot `i`, or its end; a slot that is not running does nothing. -/
def advance {α : Type} (collect : List α → Program Unit) (i : Nat) (ss : List (Slot α)) :
    Program (List (Slot α)) :=
  match ss[i]? with
  | some (.running (.ask r next)) => .ask r fun a => .done (ss.set i (.running (next a)))
  | some (.running (.done a)) =>
    let ss := ss.set i (.finished a)
    (collect (collected ss)).map fun _ => ss
  | _ => .done ss

def drain {α : Type} (collect : List α → Program Unit) (before : List α) :
    List (Slot α) → Program (List α)
  | [] => .done before
  | s :: ss =>
    s.complete.bind fun a =>
      (collect (before ++ [a])).bind fun _ => drain collect (before ++ [a]) ss

/-- Follows a schedule and then runs what is left in order. -/
def follow {α : Type} (collect : List α → Program Unit) (workers : Nat) :
    List Nat → List (Slot α) → Program (List α)
  | [], ss => drain collect [] ss
  | i :: schedule, ss =>
    (advance collect i (refill workers ss)).bind (follow collect workers schedule)

def run {α : Type} (collect : List α → Program Unit) (wish : Option Int) (schedule : List Nat)
    (ps : List (Program α)) : Program (List α) :=
  follow collect (workersFor wish ps.length) schedule (ps.map .waiting)

end Pool
end BindingRelease
