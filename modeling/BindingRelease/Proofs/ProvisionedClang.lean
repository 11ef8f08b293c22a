import BindingRelease.Proofs.Environments
import BindingRelease.Proofs.Paths
/-!
The directory of clang as a build sees it. A context looks for clang from the directory of the
release, and names the place it has found in a variable; the build and the verification read this
variable in directories of their own. What it says there is what the context meant for an absolute
place, and for a relative one only where the steps up of the place lead from both to one directory.
-/
namespace BindingRelease.Surroundings
open Trace Context
variable {s : Surroundings} {t own : Trace} {env : Env}

theorem Supplies.isolated {host version language : String} {command : List String}
    {directory : Path} {more : List Launch}
    (h₀ : s.Supplies host version language (commandLaunch command directory) more own)
    (hmore : ∀ p ∈ more, p.directory = none)
    (hp : commandLaunch command directory env ∈ own.launches) :
    s.Isolated host language own env := by
  rcases h₀.mem_cases hp with ⟨_, h⟩ | h | ⟨_, _, h⟩ | ⟨env', h, he⟩ | h
  · cases h
  · cases congrArg Launch.directory h
  · cases congrArg Launch.env h
  · cases h
    exact he
  · cases hmore _ h

theorem SuppliesRelease.isolated {target : Target} {e : Entry} (h₀ : s.SuppliesRelease target e own)
    (hp : s.buildWith e env ∈ own.launches) :
    s.Isolated e.host (Toolchain.languageFor e.artifact) own env := by
  refine Supplies.isolated h₀ (fun p hp => ?_) hp
  obtain ⟨_, rfl⟩ := Adapter.mem_launches hp
  rfl

theorem SuppliesTest.isolated {command : List String} {host : String}
    (h₀ : s.SuppliesTest command host own)
    (hp : commandLaunch command s.settings.workspace env ∈ own.launches) :
    s.Isolated host "nightly" own env :=
  Supplies.isolated h₀ (by simp) hp

end BindingRelease.Surroundings
