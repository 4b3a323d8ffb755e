import ChangeReport.FileTree
import ChangeReport.Manifest

/-! Loading manifests from files. A folder stands for all manifest files below it, in the
order of their paths. -/
namespace ChangeReport

inductive ManifestError where
  | pathNotFound (path : String)
  | read (path : String)
  | parse (path : String)
  | unknownApp (name : String)
deriving DecidableEq, Repr

/-- What messages give as the reason when a file holds no text. -/
def unreadableText : String := "<io error>"

/-- What messages give as the reason when a text is no YAML. -/
def malformedYaml : String := "<yaml error>"

namespace ManifestError

def message : ManifestError → String
  | .pathNotFound path => "path not found: " ++ path
  | .read path => "failed to read " ++ path ++ ": " ++ unreadableText
  | .parse path => "failed to parse " ++ path ++ ": " ++ malformedYaml
  | .unknownApp name => "unknown application: " ++ name

def causes : ManifestError → List String
  | .pathNotFound _ | .unknownApp _ => []
  | .read _ => [unreadableText]
  | .parse _ => [malformedYaml]

end ManifestError

def manifestExtensions : List String := ["yaml", "yml", "json"]

def isManifestFile (names : List String) : Bool :=
  match names.getLast?.bind FileTree.extension? with
  | some e => manifestExtensions.contains e
  | none => false

namespace Manifest

def ofFile (path : String) (bytes : List Nat) : Except ManifestError (List Document) :=
  match Text.ofBytes? bytes with
  | none => .error (.read path)
  | some cs =>
      match parse? (String.ofList cs) with
      | none => .error (.parse path)
      | some ds => .ok ds

/-- The manifest files below a folder, in the order of their paths. -/
def filesBelow (path : String) (t : FileTree) : List (String × List Nat) :=
  (t.sortedFiles.filter fun f => isManifestFile f.1).map fun f => (FileTree.joinAll path f.1, f.2)

def ofFiles (files : List (String × List Nat)) : Except ManifestError (List Document) :=
  (files.mapM fun f => ofFile f.1 f.2).map List.flatten

/-- The manifests of a file, whatever its name, or of a folder. -/
def load (files : Files) (path : String) : Except ManifestError (List Document) :=
  match files.find? path with
  | none => .error (.pathNotFound path)
  | some (.file bytes) => ofFile path bytes
  | some (.folder entries) => ofFiles (filesBelow path (.folder entries))

end Manifest

structure AppManifests where
  name : String
  live : String
  target : String
  ns : String
deriving DecidableEq, Repr

/-- The definitions of applications, of which each name has one: a later one takes the
place of an earlier one and moves to the end. -/
def AppManifests.define (apps : List AppManifests) (app : AppManifests) : List AppManifests :=
  apps.filter (fun a => a.name != app.name) ++ [app]

/-- How loading manifests goes wrong: there is an error, or the source breaks down. -/
inductive LoadFault where
  | failed (error : ManifestError)
  | crashed (message : String)
deriving DecidableEq, Repr

/-- Where manifests come from: the names of the applications it has, the namespace of
those targets that leave it out, and the manifests on both sides. -/
structure ManifestSource where
  names : List String
  defaultNamespace : String → String
  live : String → Except LoadFault (List Document)
  target : String → Except LoadFault (List Document)

def AppManifests.sortedNames (apps : List AppManifests) : List String :=
  (Assoc.ofList (apps.map fun a => (a.name, ()))).map (·.1)

namespace ManifestSource

def knows (source : ManifestSource) (name : String) : Bool := source.names.contains name

/-- The manifests in files. Of several definitions of a name the last one counts. -/
def ofFiles (files : Files) (apps : List AppManifests) : ManifestSource :=
  let app? (name : String) : Option AppManifests := apps.reverse.find? fun a => a.name == name
  let documents (pick : AppManifests → String) (name : String) : Except LoadFault (List Document) :=
    match app? name with
    | some a => (Manifest.load files (pick a)).mapError .failed
    | none => .error (.failed (.unknownApp name))
  { names := AppManifests.sortedNames apps
    defaultNamespace := fun name => ((app? name).map (·.ns)).getD ""
    live := documents (·.live)
    target := documents (·.target) }

end ManifestSource
end ChangeReport
