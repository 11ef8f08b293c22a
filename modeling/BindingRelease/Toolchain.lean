import BindingRelease.Entry
import BindingRelease.Error
/-!
Which toolchain a context needs. A host label belongs to a family when it is the family's name or
begins with one of its labels and a hyphen; only windows runners lack a C compiler, and only the
iOS library needs the pinned language toolchain.
-/
namespace BindingRelease
open Text

inductive HostFamily where
  | windows
  | linux
  | macos
  deriving DecidableEq, Repr

namespace HostFamily

def name : HostFamily → String
  | windows => "windows"
  | linux => "linux"
  | macos => "macos"

def labels : List (String × HostFamily) :=
  [("windows", windows), ("linux", linux), ("ubuntu", linux), ("macos", macos)]

/-- Whether a label is `word` or begins with `word` and a hyphen. -/
def fits (label word : List Char) : Bool :=
  label == word || startsWith (word ++ ['-']) label

/-- The family of a label; blanks around it and case do not count. Lower-casing ASCII letters is
enough, since no other letter becomes one of those in the labels. -/
def ofLabel? (label : String) : Option HostFamily :=
  let l := (stripChars label.toList).map Char.toLower
  (labels.find? fun w => fits l w.1.toList).map (·.2)

def ofLabel (label : String) : Except ConfigurationError HostFamily :=
  match ofLabel? label with
  | some f => .ok f
  | none => .error (.unsupportedHost label)

def needsCompiler (f : HostFamily) : Bool :=
  f = windows

end HostFamily

structure Compiler where
  name : String
  version : String
  envVar : String
  deriving DecidableEq, Repr

structure Toolchain where
  language : String
  compiler : Option Compiler
  deriving DecidableEq, Repr

namespace Compiler

def clangVariable : String := "LIBCLANG_PATH"

def llvm (version : String) : Compiler := ⟨"llvm", version, clangVariable⟩

def releaseVersion : String := "11.0"

def testVersion : String := "12.0"

def forHost (host : String) (version : String) : Except ConfigurationError (Option Compiler) :=
  (HostFamily.ofLabel host).map fun f => if f.needsCompiler then some (llvm version) else none

def check : Value → Checked Compiler :=
  Schema.record ["name", "version", "env_var"] fun es =>
    ((Schema.withDefault es "name" "llvm" Schema.text).both
      ((Schema.required es "version" Schema.text).both
        (Schema.withDefault es "env_var" clangVariable Schema.text))).map
      fun (name, version, envVar) => ⟨name, version, envVar⟩

def toValue (c : Compiler) : Value :=
  .object [("name", .text c.name), ("version", .text c.version), ("env_var", .text c.envVar)]

end Compiler

namespace Toolchain

def legacyArtifact : String := "libisar_ios.a"

def isLegacy (artifact : String) : Bool := artifact == legacyArtifact

/-- The language toolchain of an artifact: the pinned one for the iOS library, else stable. -/
def languageFor (artifact : String) : String :=
  if isLegacy artifact then "1.55.0" else "stable"

def forRelease (e : Entry) : Except ConfigurationError Toolchain :=
  (Compiler.forHost e.host Compiler.releaseVersion).map fun c => ⟨languageFor e.artifact, c⟩

def forTest (host : String) : Except ConfigurationError Toolchain :=
  (Compiler.forHost host Compiler.testVersion).map fun c => ⟨"nightly", c⟩

def needsCompiler (t : Toolchain) : Bool := t.compiler.isSome

def check : Value → Checked Toolchain :=
  Schema.record ["language_toolchain", "native_compiler"] fun es =>
    ((Schema.required es "language_toolchain" Schema.text).both
      (Schema.withDefault es "native_compiler" none (Schema.nullable Compiler.check))).map
      fun (language, compiler) => ⟨language, compiler⟩

def toValue (t : Toolchain) : Value :=
  .object [("language_toolchain", .text t.language),
    ("native_compiler", match t.compiler with
      | some c => c.toValue
      | none => .null)]

end Toolchain
end BindingRelease
