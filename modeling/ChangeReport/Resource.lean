import ChangeReport.Document
import ChangeReport.Text.Blank
import ChangeReport.Text.Split

/-! Resources: the identity of a manifest, and the annotations that take a manifest out of
a report. -/
namespace ChangeReport

/-- The identity of a resource within an application; `ns` is empty for a resource without
a namespace. -/
structure ResourceKey where
  group : String
  kind : String
  ns : String
  name : String
deriving DecidableEq, Repr, Inhabited

namespace ResourceKey

def order (a b : ResourceKey) : Ordering :=
  (compare a.group b.group).then
    ((compare a.kind b.kind).then ((compare a.ns b.ns).then (compare a.name b.name)))

instance : Ord ResourceKey := ⟨order⟩

instance : Std.TransOrd ResourceKey := inferInstanceAs (Std.TransCmp
  (compareLex (compareOn ResourceKey.group) <| compareLex (compareOn ResourceKey.kind) <|
    compareLex (compareOn ResourceKey.ns) (compareOn ResourceKey.name)))

instance : Std.LawfulEqOrd ResourceKey where
  eq_of_compare {a b} h := by
    have h : order a b = .eq := h
    simp only [order, Ordering.then_eq_eq, Std.LawfulEqOrd.compare_eq_iff_eq] at h
    obtain ⟨group, kind, ns, name⟩ := h
    cases a; cases b
    simp_all

def render (k : ResourceKey) : String := k.group ++ "/" ++ k.kind ++ " " ++ k.ns ++ "/" ++ k.name

/-- Secrets of the core group are never compared: their data is not at hand. -/
def isCoreSecret (k : ResourceKey) : Bool := k.group == "" && k.kind == "Secret"

end ResourceKey

/-- The group of an API version: the text before the first slash, empty without one. -/
def groupOf (apiVersion : String) : String :=
  match Text.cutChars? '/' apiVersion.toList with
  | some (group, _) => String.ofList group
  | none => ""

namespace Document

def metadataText? (name : String) (d : Document) : Option String :=
  (d.field? "metadata").bind fun m => (m.field? name).bind text?

def annotation? (name : String) (d : Document) : Option String :=
  (d.field? "metadata").bind fun m =>
    (m.field? "annotations").bind fun a => (a.field? name).bind text?

/-- The key of a manifest, which needs a kind and a name. -/
def key? (d : Document) : Option ResourceKey := do
  let kind ← (d.field? "kind").bind text?
  let name ← d.metadataText? "name"
  guard (kind ≠ "" ∧ name ≠ "")
  let apiVersion := ((d.field? "apiVersion").bind text?).getD ""
  return ⟨groupOf apiVersion, kind, (d.metadataText? "namespace").getD "", name⟩

def argoHookAnnotation : String := "argocd.argoproj.io/hook"

def helmHookAnnotation : String := "helm.sh/hook"

def compareOptionsAnnotation : String := "argocd.argoproj.io/compare-options"

def commaList (s : String) : List String := (Text.split ',' s).map Text.trim

/-- Hooks run once around a deployment. The hook `crd-install` installs ordinary
definitions and does not count. -/
def isHook (d : Document) : Bool :=
  (match d.annotation? argoHookAnnotation with
    | some v => !Text.allBlank v
    | none => false) ||
  (match d.annotation? helmHookAnnotation with
    | some v => (commaList v).any fun h => h != "" && h != "crd-install"
    | none => false)

/-- Whether the compare options take the manifest out of the comparison. -/
def isIgnoredExtraneous (d : Document) : Bool :=
  match d.annotation? compareOptionsAnnotation with
  | some v => (commaList v).any (· == "IgnoreExtraneous")
  | none => false

/-- Targets that never count as added. -/
def isExcluded (d : Document) : Bool := d.isHook || d.isIgnoredExtraneous

end Document
end ChangeReport
