import BindingRelease.Program
import BindingRelease.Simulation.FileTree
import BindingRelease.Yaml.Reading
/-!
Scripted surroundings: rules say how processes end, a list says what the release host answers, and
a tree holds the files. Every process and every request to the host is recorded.
-/
namespace BindingRelease.Simulation

/-- A rule for processes. Its effects come in the order of the fields. -/
structure Rule where
  applies : Launch → Bool
  once : Bool
  cancels : Bool
  interrupts : Bool
  startFailure : Option String
  writes : List (Path × Item)
  result : Finished

structure ScriptedAnswer where
  cancels : Bool
  result : HttpResult

structure World where
  cwd : Path
  clock : String
  tree : FileTree
  rules : List Rule
  answers : List ScriptedAnswer
  cancelled : Bool
  /-- Processes and requests, the latest first. -/
  started : List Launch
  sent : List HttpRequest

namespace World

def takeRule (p : Launch) : List Rule → Option Rule × List Rule
  | [] => (none, [])
  | r :: rs =>
    if r.applies p then (some r, if r.once then rs else r :: rs)
    else
      let (found, rest) := takeRule p rs
      (found, r :: rest)

def writeAll (directory : Path) (t : FileTree) (files : List (Path × Item)) : FileTree :=
  files.foldl (fun t f => t.put (directory / f.1).parts f.2) t

def start (p : Launch) (w : World) : LaunchResult × World :=
  let w := { w with started := p :: w.started }
  match takeRule p w.rules with
  | (none, _) => (.finished ⟨0, "", ""⟩, w)
  | (some r, rules) =>
    let w := { w with rules := rules, cancelled := w.cancelled || r.cancels }
    if r.interrupts then (.broken .interrupted, w)
    else match r.startFailure with
      | some reason => (.notStarted reason, w)
      | none =>
        let directory := match p.directory with
          | some d => w.cwd / d
          | none => w.cwd
        (.finished r.result, { w with tree := writeAll directory w.tree r.writes })

def send (r : HttpRequest) (w : World) : HttpResult × World :=
  let w := { w with sent := r :: w.sent }
  match w.answers with
  | [] => (.failed "no scripted response left", w)
  | a :: rest => (a.result, { w with answers := rest, cancelled := w.cancelled || a.cancels })

def makeDirectories (p : Path) (w : World) : Except Crash Unit × World :=
  let (tree, r) := w.tree.makeDirectories w.cwd p
  (r.mapError .file, { w with tree := tree })

def writeFile (p : Path) (text : String) (w : World) : Except Crash Unit × World :=
  match w.tree.writeFile w.cwd p text.toUTF8.toList with
  | .ok tree => (.ok (), { w with tree := tree })
  | .error e => (.error (.file e), w)

def answer : (r : Request) → World → r.Answer × World
  | .start p, w => w.start p
  | .send r, w => w.send r
  | .exists p, w => (.ok (w.tree.isPresent w.cwd p), w)
  | .isDirectory p, w => (.ok (w.tree.isDirectory w.cwd p), w)
  | .isFile p, w => (.ok (w.tree.isFile w.cwd p), w)
  | .isExecutable p, w => (w.tree.isExecutable w.cwd p, w)
  | .makeDirectories p, w => w.makeDirectories p
  | .readFile p, w => ((w.tree.readFile w.cwd p).mapError .file, w)
  | .writeFile p text, w => w.writeFile p text
  | .readYaml text, w => (Yaml.read text, w)
  | .isCancelled, w => (w.cancelled, w)
  | .cancel, w => ((), { w with cancelled := true })
  | .now, w => (w.clock, w)

def run {α : Type} (p : Program α) (w : World) : α × World :=
  p.runWith answer w

end World
end BindingRelease.Simulation
