import ChangeReport.Yaml.Reader

/-! Manifests in text: streams of documents in which lists of manifests stand for their
items. -/
namespace ChangeReport

namespace Document

def isList (fields : List (String × Document)) : Bool :=
  match Assoc.find? "kind" fields with
  | some (.string kind) => kind == "List"
  | _ => false

mutual
/-- Appends the manifests of a document: none for null, those of its items for a list, and
otherwise the document itself. -/
def push (out : List Document) : Document → List Document
  | .null => out
  | .object fields =>
      match isList fields, pushListed out fields with
      | true, some more => more
      | _, _ => out ++ [.object fields]
  | d => out ++ [d]

/-- Appends the manifests of the field `items`, if that is an array. -/
def pushListed (out : List Document) : List (String × Document) → Option (List Document)
  | [] => none
  | (name, d) :: rest =>
      if name = "items" then
        match d with
        | .array items => some (pushItems out items)
        | _ => none
      else pushListed out rest

def pushItems (out : List Document) : List Document → List Document
  | [] => out
  | d :: rest => pushItems (push out d) rest
end

end Document

namespace Manifest

/-- The manifests of a text; `none` when it is no YAML. -/
def parse? (content : String) : Option (List Document) :=
  (Yaml.documents? content).map fun ds => ds.foldl Document.push []

end Manifest
end ChangeReport
