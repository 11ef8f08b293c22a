import BindingRelease.Report
import BindingRelease.Step
/-!
Contexts: stages run strictly in order, each after a look at the cancellation signal. Besides its
log a context keeps what it has found so far, so that its report is complete to the point where it
stopped. A release error stops one context only; a crash is handed on to the run.
-/
namespace BindingRelease

structure Findings where
  toolchain : Option Toolchain
  invocation : Option Invocation
  upload : Option Upload
  deriving DecidableEq

namespace Findings

def none : Findings := ⟨.none, .none, .none⟩

def append (a b : Findings) : Findings :=
  ⟨a.toolchain.or b.toolchain, a.invocation.or b.invocation, a.upload.or b.upload⟩

instance : Append Findings := ⟨append⟩

end Findings

/-- Why a context ended early, with the stage it was in or about to enter. -/
inductive Stop where
  | cancelled (stage : Stage)
  | failed (stage : Stage) (e : ReleaseError)
  | crashed (c : Crash)

structure Context (α : Type) where
  run : Program (Journal × Findings × Except Stop α)

namespace Context

def pure {α : Type} (a : α) : Context α := ⟨.done (.empty, .none, .ok a)⟩

def bind {α β : Type} (c : Context α) (f : α → Context β) : Context β :=
  ⟨c.run.bind fun r => match r with
    | (j, found, .error stop) => .done (j, found, .error stop)
    | (j, found, .ok a) => (f a).run.map fun t => (j ++ t.1, found ++ t.2.1, t.2.2)⟩

instance : Monad Context where
  pure := pure
  bind := bind

def stop {α : Type} (s : Stop) : Context α := ⟨.done (.empty, .none, .error s)⟩

def found (f : Findings) : Context Unit := ⟨.done (.empty, f, .ok ())⟩

def stopOf (stage : Stage) : Failure → Stop
  | .release e => .failed stage e
  | .crash c => .crashed c

def within {α : Type} (stage : Stage) (s : Step α) : Context α :=
  ⟨s.run.map fun r => match r with
    | (j, .ok a) => (j, .none, .ok a)
    | (j, .error e) => (j, .none, .error (stopOf stage e))⟩

/-- Enters a stage, unless there is a signal and it says that the run is cancelled. -/
def enter (signal : Bool) (stage : Stage) : Context Unit := do
  if signal then
    if ← within stage Step.isCancelled then stop (.cancelled stage)

def stage {α : Type} (signal : Bool) (stage : Stage) (s : Step α) : Context α := do
  enter signal stage
  within stage s

def source : String := "native_release.pipelines"

def report (key host : String) (logs : List String) (f : Findings) :
    Except Stop Unit → List Note × Except Crash Report
  | .ok () =>
    ([], .ok ⟨key, host, .succeeded, none, none, f.toolchain, f.invocation, f.upload, logs⟩)
  | .error (.cancelled stage) =>
    ([⟨.warning, source, "[" ++ key ++ "] cancelled before " ++ stage.name⟩],
      .ok ⟨key, host, .cancelled, some stage, none, f.toolchain, f.invocation, f.upload,
        logs ++ ["Run cancelled before " ++ stage.name ++ "; no rollback performed."]⟩)
  | .error (.failed stage e) =>
    ([⟨.error, source, "[" ++ key ++ "] " ++ stage.name ++ " failed: " ++ e.message⟩],
      .ok ⟨key, host, .failed, some stage, some e.message, f.toolchain, f.invocation, f.upload,
        logs ++ (if e.output = "" then [] else [e.output])⟩)
  | .error (.crashed c) => ([], .error c)

/-- Runs a context to its report, unless it crashes; the notes are kept in any case. -/
def finish (key host : String) (c : Context Unit) :
    Program (List Note × Except Crash Report) :=
  c.run.map fun r =>
    let t := report key host r.1.logs r.2.1 r.2.2
    (r.1.notes ++ t.1, t.2)

end Context
end BindingRelease
