import ChangeReport.Resource

/-! Pairs live objects with rendered targets. Targets first get the namespace they will be
deployed to, and of several targets with one key the last one counts. -/
namespace ChangeReport

/-- Kinds that are outside of namespaces even when no live object shows it. -/
def clusterScopedKinds : List (String × String) :=
  [("", "Namespace"), ("", "Node"), ("", "PersistentVolume"),
   ("apiextensions.k8s.io", "CustomResourceDefinition"),
   ("apiregistration.k8s.io", "APIService"),
   ("rbac.authorization.k8s.io", "ClusterRole"),
   ("rbac.authorization.k8s.io", "ClusterRoleBinding"),
   ("storage.k8s.io", "StorageClass"),
   ("scheduling.k8s.io", "PriorityClass"),
   ("networking.k8s.io", "IngressClass"),
   ("admissionregistration.k8s.io", "ValidatingWebhookConfiguration"),
   ("admissionregistration.k8s.io", "MutatingWebhookConfiguration")]

/-- What the live objects tell about kinds, given by group and kind: whether they live in
namespaces. -/
structure NamespaceScope where
  kinds : List ((String × String) × Bool)

namespace NamespaceScope

/-- Each live object tells about its kind; the first one counts. -/
def ofLive (live : List Document) : NamespaceScope :=
  ⟨(live.filterMap Document.key?).map fun k => ((k.group, k.kind), k.ns != "")⟩

/-- Kinds without a live object are in namespaces unless they are known not to be. -/
def isNamespaced (scope : NamespaceScope) (group kind : String) : Bool :=
  match scope.kinds.lookup (group, kind) with
  | some b => b
  | none => !clusterScopedKinds.contains (group, kind)

end NamespaceScope

namespace Document

def withNamespace (ns : String) : Document → Document :=
  mapField "metadata" (mapFields (Assoc.insert "namespace" (.string ns)))

def withoutNamespace : Document → Document :=
  mapField "metadata" (mapFields (Assoc.erase "namespace"))

/-- A target and its key after its namespace is set: the default where a namespaced kind
has none, none where the kind is outside of namespaces. -/
def normalised? (scope : NamespaceScope) (defaultNamespace : String) (d : Document) :
    Option (ResourceKey × Document) :=
  d.key?.map fun k =>
    if scope.isNamespaced k.group k.kind then
      if k.ns = "" ∧ defaultNamespace ≠ "" then
        ({ k with ns := defaultNamespace }, d.withNamespace defaultNamespace)
      else (k, d)
    else if k.ns ≠ "" then ({ k with ns := "" }, d.withoutNamespace)
    else (k, d)

end Document

/-- The targets by key; the last definition of a key wins. -/
def deduplicate (targets : List Document) (scope : NamespaceScope) (defaultNamespace : String) :
    List (ResourceKey × Document) :=
  Assoc.ofList (targets.filterMap (Document.normalised? scope defaultNamespace))

structure Pair where
  key : ResourceKey
  live : Option Document
  target : Option Document

/-- The live objects by key; the last one of a key counts. -/
def liveIndex (live : List Document) : List (ResourceKey × Document) :=
  Assoc.ofList (live.filterMap fun d => d.key?.map (·, d))

/-- Targets that wait for their live object: without one, the pending targets count as
added, and the excluded ones do not. -/
structure Waiting where
  pending : List (ResourceKey × Document)
  excluded : List (ResourceKey × Document)

namespace Waiting

def ofDefinitions (definitions : List (ResourceKey × Document)) : Waiting :=
  let (excluded, pending) := definitions.partition fun e => e.2.isExcluded
  ⟨pending, excluded⟩

/-- Takes the target of a key away from those that wait. -/
def take (k : ResourceKey) (w : Waiting) : Option Document × Waiting :=
  match Assoc.find? k w.pending with
  | some d => (some d, { w with pending := Assoc.erase k w.pending })
  | none => (Assoc.find? k w.excluded, { w with excluded := Assoc.erase k w.excluded })

/-- The targets that no live object took and that count as added. Core Secrets are left
out. -/
def added (w : Waiting) : List Pair :=
  (w.pending.filter fun e => !e.1.isCoreSecret).map fun e => ⟨e.1, none, some e.2⟩

end Waiting

/-- The live objects with their targets, and the targets that wait after that. Core
Secrets are left out, but take their targets. -/
def pairLive : List (ResourceKey × Document) → Waiting → List Pair × Waiting
  | [], w => ([], w)
  | (k, d) :: rest, w =>
      let (target, w) := w.take k
      let (pairs, w) := pairLive rest w
      (if k.isCoreSecret then pairs else ⟨k, some d, target⟩ :: pairs, w)

def Pair.before (p q : Pair) : Bool := (compare p.key q.key).isLE

/-- Every live object with its target, and every target without a live object that is not
excluded, in the order of the keys. -/
def matchResources (targets live : List Document) (defaultNamespace : String) : List Pair :=
  let definitions := deduplicate targets (.ofLive live) defaultNamespace
  let (present, left) := pairLive (liveIndex live) (.ofDefinitions definitions)
  (present ++ left.added).mergeSort Pair.before

end ChangeReport
