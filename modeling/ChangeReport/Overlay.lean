import ChangeReport.Resource
import ChangeReport.Json.Printer

/-! The prediction of what a manifest looks like after an update: the target laid over the
live object, and the fields of the server left out of the comparison. -/
namespace ChangeReport
namespace Document

mutual
/-- Lays `patch` over a document: objects merge field by field, anything else is replaced.
-/
def overlay : Document → Document → Document
  | .object base, .object patch => .object (overlayFields base patch)
  | _, patch => patch

def overlayFields (base : List (String × Document)) :
    List (String × Document) → List (String × Document)
  | [] => base
  | (name, v) :: rest =>
      let merged := match Assoc.find? name base with
        | some old => overlay old v
        | none => v
      overlayFields (Assoc.insert name merged base) rest
end

/-- Fields of `metadata` that the server fills in. -/
def serverMetadataFields : List String :=
  ["managedFields", "resourceVersion", "uid", "generation", "creationTimestamp", "selfLink"]

/-- The annotation in which a client keeps the manifest it applied last. -/
def lastAppliedAnnotation : String := "kubectl.kubernetes.io/last-applied-configuration"

/-- Drops the last applied manifest from the annotations, and the annotations when none
are left. -/
def stripAnnotations (metadata : List (String × Document)) : List (String × Document) :=
  match Assoc.find? "annotations" metadata with
  | some (.object annotations) =>
      match Assoc.erase lastAppliedAnnotation annotations with
      | [] => Assoc.erase "annotations" metadata
      | kept => Assoc.insert "annotations" (.object kept) metadata
  | _ => metadata

def stripMetadata (metadata : List (String × Document)) : List (String × Document) :=
  stripAnnotations (serverMetadataFields.foldl (fun m name => Assoc.erase name m) metadata)

/-- The document without its status and without what the server keeps in its metadata. -/
def strip (d : Document) : Document :=
  (d.mapFields (Assoc.erase "status")).mapField "metadata" (mapFields stripMetadata)

mutual
/-- Everything that `small` says holds in `large`: an object may have more fields there,
anything else is the same. -/
def contained : Document → Document → Bool
  | .object small, .object large => containedFields small large
  | small, large => small.same large

def containedFields : List (String × Document) → List (String × Document) → Bool
  | [], _ => true
  | (name, v) :: rest, large =>
      (match Assoc.find? name large with
        | some w => contained v w
        | none => false) && containedFields rest large
end

end Document

/-- The outcome of one comparison: whether an update changes the live object, and the JSON
text of what it will look like. -/
structure Verdict where
  modified : Bool
  predicted : String
deriving DecidableEq, Repr

/-- The document predicted from the two sides of a resource. -/
def predict : Option Document → Option Document → Document
  | _, none => .null
  | none, some target => target.strip
  | some live, some target => live.overlay target.strip

/-- Whether an update changes the live object. -/
def changes : Option Document → Option Document → Bool
  | none, none => false
  | some live, some target => !(live.overlay target.strip).strip.same live.strip
  | _, _ => true

def overlayVerdict (live target : Option Document) : Verdict :=
  ⟨changes live target, Json.encode (predict live target)⟩

end ChangeReport
