import BindingRelease.Schema
/-!
The record of one asset attached to a release, or of one that a dry run left out.
-/
namespace BindingRelease

structure Upload where
  file : Path
  asset : String
  tag : String
  adapter : String
  status : String
  url : Option String
  deriving DecidableEq

namespace Upload

def succeeded : String := "succeeded"

def check : Value → Checked Upload :=
  Schema.record ["file_path", "asset_name", "tag", "adapter", "status", "url"] fun es =>
    ((Schema.required es "file_path" Schema.path).both
      ((Schema.required es "asset_name" Schema.text).both
        ((Schema.required es "tag" Schema.text).both
          ((Schema.required es "adapter" Schema.text).both
            ((Schema.withDefault es "status" succeeded Schema.text).both
              (Schema.withDefault es "url" none (Schema.nullable Schema.text))))))).map
      fun (file, asset, tag, adapter, status, url) => ⟨file, asset, tag, adapter, status, url⟩

def toValue (u : Upload) : Value :=
  .object [("file_path", .text u.file.toString), ("asset_name", .text u.asset),
    ("tag", .text u.tag), ("adapter", .text u.adapter), ("status", .text u.status),
    ("url", .ofOption u.url)]

end Upload
end BindingRelease
