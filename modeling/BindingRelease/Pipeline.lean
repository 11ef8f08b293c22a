import BindingRelease.Checkout
import BindingRelease.Context
import BindingRelease.Publish
import BindingRelease.Settings
/-!
The two pipelines. A release context provisions, checks out, builds and publishes one entry of the
matrix; a test context provisions, checks out and verifies on one host. The compiler is installed
before the language toolchain, and only where the host needs one.
-/
namespace BindingRelease

/-- The collaborators that every context of a run uses. -/
structure Collaborators where
  adapter : Adapter
  language : LanguageInstaller
  compiler : CompilerInstaller
  checkout : Checkout
  deriving DecidableEq

namespace Collaborators

def standard : Collaborators := ⟨.dryRun, .rustup, .llvm, .existing⟩

end Collaborators

/-- What the contexts of a run have in common. The processes of a stage get the environment `env`;
`ambient` is that of the release itself. Without a signal a run cannot be cancelled. -/
structure Surroundings where
  collaborators : Collaborators
  settings : Settings
  env : Env
  ambient : Env
  signal : Bool

namespace Surroundings

/-- Installs what a toolchain needs and returns the environment for the processes after it. -/
def provision (s : Surroundings) (t : Toolchain) : Step Env := do
  let env ← match t.compiler with
    | none => pure s.env
    | some c => do
      let vars ← s.collaborators.compiler.install c s.settings.resolvedCompilerDir s.env
      pure (s.env.update vars)
  let vars ← s.collaborators.language.install t.language
  pure (env.update vars)

/-- The stages that both pipelines begin with; they end with the workspace and the environment. -/
def prepare (s : Surroundings) (toolchain : Except ConfigurationError Toolchain) :
    Context (Path × Env) := do
  let t ← Context.stage s.signal .setup (Step.ofExcept .configuration toolchain)
  Context.found ⟨some t, none, none⟩
  let env ← Context.stage s.signal .provision (s.provision t)
  let workspace ← Context.stage s.signal .checkout
    (s.collaborators.checkout.acquire s.settings.workspace)
  pure (workspace, env)

def releaseStages (s : Surroundings) (e : Entry) (target : Target) : Context Unit := do
  let (workspace, env) ← s.prepare (Toolchain.forRelease e)
  Context.enter s.signal .build
  let i := Invocation.ofEntry e (workspace / s.settings.bindingDir)
  Context.found ⟨none, some i, none⟩
  let artifact ← Context.within .build do
    let outcome ← runBuild i env
    Step.logAll outcome.logs
    pure outcome.artifactPath
  let upload ← Context.stage s.signal .publish
    (s.collaborators.adapter.publish s.ambient artifact e.artifact target)
  Context.found ⟨none, none, some upload⟩
  Context.within .publish
    (Step.note .info Context.source ("[" ++ e.artifact ++ "] published to " ++ target.tag))

def testStages (s : Surroundings) (host : String) (command : List String) : Context Unit := do
  let (workspace, env) ← s.prepare (Toolchain.forTest host)
  let logs ← Context.stage s.signal .test (runVerification workspace env command)
  Context.within .test (Step.logAll logs)

def releaseContext (s : Surroundings) (target : Target) (e : Entry) :
    Program (List Note × Except Crash Report) :=
  (s.releaseStages e target).finish e.artifact e.host

def testContext (s : Surroundings) (command : List String) (host : String) :
    Program (List Note × Except Crash Report) :=
  (s.testStages host command).finish host host

end Surroundings
end BindingRelease
