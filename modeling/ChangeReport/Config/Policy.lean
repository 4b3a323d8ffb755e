import ChangeReport.Assoc
import ChangeReport.Record

/-! The policy of a comparison: what a differ should leave out of account. The built-in
differ follows none of it; it is read, merged and handed on. -/
namespace ChangeReport

inductive TrackingMethod where
  | labels
  | annotations
  | both
deriving DecidableEq, Repr

namespace TrackingMethod

def name : TrackingMethod → String
  | .labels => "label"
  | .annotations => "annotation"
  | .both => "annotation-and-label"

def all : List TrackingMethod := [.labels, .annotations, .both]

def ofName? (s : String) : Option TrackingMethod := all.find? fun m => m.name == s

end TrackingMethod

/-- A part of some resources that does not count. -/
structure IgnoreDifference where
  group : String
  kind : String
  name : Option String
  ns : Option String
  jsonPointers : List String
  jqPathExpressions : List String
  managedFieldsManagers : List String
deriving DecidableEq, Repr

structure ResourceOverride where
  ignoreDifferences : Option String
  knownTypeFields : List String
deriving DecidableEq, Repr

/-- The overrides are sorted by `group/kind`. -/
structure DiffPolicy where
  ignoreDifferences : List IgnoreDifference
  resourceOverrides : List (String × ResourceOverride)
  trackingMethod : TrackingMethod
  noCache : Bool
deriving DecidableEq, Repr

namespace Tree

/-- The name of a choice: a text, or an object whose only member has that name and says
nothing more. An empty array says nothing where `arrays` allows it. -/
def choice? (arrays : Bool) : Tree → Option String
  | .string s => s
  | .object [(some name, .object [])] => some name
  | .object [(some name, .null)] => some name
  | .object [(some name, .array [])] => if arrays then some name else none
  | _ => none

def texts? : Tree → Option (List String) := listOf? text?

/-- The members of an object by name; of several members of one name the last one counts.
-/
def map? {α : Type} (read : Tree → Option α) : Tree → Option (List (String × α))
  | .object members =>
      (members.mapM fun (m : Option String × Tree) => do
        let name ← m.1
        let a ← read m.2
        return (name, a)).map Assoc.ofList
  | _ => none

end Tree

def IgnoreDifference.ofTree? (t : Tree) : Option IgnoreDifference := do
  let r ← Record.read? ["group", "kind", "name", "namespace", "json_pointers", "jq_path_expressions",
    "managed_fields_managers"] false t
  return ⟨← r.orElse "group" "" Tree.text?, ← r.orElse "kind" "" Tree.text?,
    ← r.orElse "name" none (Tree.nullable Tree.text?), ← r.orElse "namespace" none (Tree.nullable Tree.text?),
    ← r.orElse "json_pointers" [] Tree.texts?, ← r.orElse "jq_path_expressions" [] Tree.texts?,
    ← r.orElse "managed_fields_managers" [] Tree.texts?⟩

def ResourceOverride.ofTree? (t : Tree) : Option ResourceOverride := do
  let r ← Record.read? ["ignore_differences", "known_type_fields"] false t
  return ⟨← r.orElse "ignore_differences" none (Tree.nullable Tree.text?),
    ← r.orElse "known_type_fields" [] Tree.texts?⟩

namespace DiffPolicy

def default : DiffPolicy := ⟨[], [], .labels, false⟩

def fields : List String := ["ignore_differences", "resource_overrides", "tracking_method", "no_cache"]

def ofRecord? (r : Record) : Option DiffPolicy := do
  return ⟨← r.orElse "ignore_differences" [] (Tree.listOf? IgnoreDifference.ofTree?),
    ← r.orElse "resource_overrides" [] (Tree.map? ResourceOverride.ofTree?),
    ← r.orElse "tracking_method" .labels (fun t => (t.choice? false).bind TrackingMethod.ofName?),
    ← r.orElse "no_cache" false Tree.bool?⟩

/-- A policy as an object or as an array of its fields. -/
def ofTree? (t : Tree) : Option DiffPolicy := (Record.read? fields false t).bind ofRecord?

/-- The rules of both policies; where they choose, the later one decides unless it leaves
the choice as it is. -/
def merge (a b : DiffPolicy) : DiffPolicy where
  ignoreDifferences := a.ignoreDifferences ++ b.ignoreDifferences
  resourceOverrides := b.resourceOverrides.foldl (fun m e => Assoc.insert e.1 e.2 m) a.resourceOverrides
  trackingMethod := if b.trackingMethod = default.trackingMethod then a.trackingMethod else b.trackingMethod
  noCache := a.noCache || b.noCache

end DiffPolicy
end ChangeReport
