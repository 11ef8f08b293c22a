import BindingRelease.Error
/-!
The release being populated: its tag, the token that may write to it, and its repository. The token
shows in no dump and no description.
-/
namespace BindingRelease
open Text

structure Target where
  tag : String
  token : String
  repository : Option String
  deriving DecidableEq

namespace Target

def tagRoot : String := "refs/tags/"

/-- The tag a ref names: a tag ref or a bare tag, but no other kind of ref. -/
def tagOfRef (ref : String) : Except ConfigurationError String :=
  let cs := stripChars ref.toList
  let tag : Except ConfigurationError (List Char) :=
    if startsWith tagRoot.toList cs then .ok (cs.drop tagRoot.length)
    else if startsWith "refs/".toList cs then .error (.refNotTag (String.ofList cs))
    else .ok cs
  tag.bind fun t => if t = [] then .error .emptyTag else .ok (String.ofList t)

def ofRef (ref token : String) (repository : Option String) :
    Except ConfigurationError Target :=
  (tagOfRef ref).map fun tag => ⟨tag, token, repository⟩

def maskedToken (t : Target) : String :=
  if t.token = "" then "" else "**********"

def check : Value → Checked Target :=
  Schema.record ["tag", "repo_token", "repository"] fun es =>
    ((Schema.required es "tag" Schema.text).both
      ((Schema.required es "repo_token" Schema.text).both
        (Schema.withDefault es "repository" none (Schema.nullable Schema.text)))).map
      fun (tag, token, repository) => ⟨tag, token, repository⟩

def toValue (t : Target) : Value :=
  .object [("tag", .text t.tag), ("repo_token", .text t.maskedToken),
    ("repository", .ofOption t.repository)]

def description (t : Target) : String :=
  "ReleaseTarget(tag=" ++ literal t.tag ++ ", repo_token=SecretStr(" ++ literal t.maskedToken ++
    "), repository=" ++ (Value.ofOption t.repository).literal ++ ")"

end Target
end BindingRelease
