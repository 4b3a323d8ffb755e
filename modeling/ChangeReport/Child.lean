import ChangeReport.Record
import ChangeReport.Resource

/-! Applications that are defined by a manifest of another application. -/
namespace ChangeReport

structure ChildApplication where
  name : String
  ns : String
  destinationNs : String
  repoUrl : Option String
  path : Option String
  targetRevision : Option String
deriving DecidableEq, Repr

namespace ChildApplication

def applicationGroup : String := "argoproj.io"

def applicationKind : String := "Application"

structure Source where
  repoUrl : Option String
  path : Option String
  targetRevision : Option String

def readMetadata (t : Tree) : Option (String × String) := do
  let r ← Record.read? ["name", "namespace"] false t
  return (← r.required "name" Tree.text?, ← r.orElse "namespace" "" Tree.text?)

def readDestination (t : Tree) : Option String := do
  let r ← Record.read? ["namespace"] false t
  r.orElse "namespace" "" Tree.text?

def readSource (t : Tree) : Option Source := do
  let r ← Record.read? ["repoURL", "path", "targetRevision"] false t
  return ⟨← r.optional "repoURL" Tree.text?, ← r.optional "path" Tree.text?,
    ← r.optional "targetRevision" Tree.text?⟩

def readSpec (t : Tree) : Option (String × Option Source) := do
  let r ← Record.read? ["destination", "source"] false t
  return (← r.orElse "destination" "" readDestination, ← r.optional "source" readSource)

/-- The application that a manifest defines. A manifest with a field of another type
defines none. -/
def ofDocument? (d : Document) : Option ChildApplication := do
  let r ← Record.read? ["apiVersion", "kind", "metadata", "spec"] false (Tree.ofDocument d)
  let apiVersion ← r.required "apiVersion" Tree.text?
  let kind ← r.required "kind" Tree.text?
  let (name, ns) ← r.required "metadata" readMetadata
  let (destinationNs, source) ← r.required "spec" readSpec
  guard (groupOf apiVersion = applicationGroup ∧ kind = applicationKind)
  return ⟨name, ns, destinationNs, source.bind (·.repoUrl), source.bind (·.path),
    source.bind (·.targetRevision)⟩

end ChildApplication
end ChangeReport
