import ChangeReport.Proofs.Comparison.Account
import ChangeReport.Proofs.Comparison.Exclusion
import ChangeReport.Proofs.Document.Records
import Mathlib.Data.List.Permutation

/-! Applications that a comparison discovers. They are read from predictions, which have lost what
the server owns and went through JSON text, or else from the targets. Both show the same
applications: those of the resources that are added. -/
namespace ChangeReport

/-- The prediction for a new target is read back from its text, if anything is. -/
def ReadBack (target : Document) : Prop :=
  ∀ d, Json.decode (Json.encode target.strip) = some d → d = target.strip

theorem Verdict.document?_eq_some {v : Verdict} {d : Document} (h : v.document? = some d) :
    Json.decode v.predicted = some d := by
  unfold document? at h
  split at h
  · cases h
  · exact h

/-- The prediction that a verdict holds shows the application of the target. -/
theorem ofDocument?_predicted {target d : Document} (ordered : target.Ordered)
    (read : ReadBack target) (h : (overlayVerdict none (some target)).document? = some d) :
    ChildApplication.ofDocument? d = ChildApplication.ofDocument? target := by
  have decoded := Verdict.document?_eq_some h
  simp only [overlayVerdict, predict] at decoded
  rw [read d decoded, ChildApplication.ofDocument?_strip ordered]

namespace Pair

variable {p : Pair}

/-- The application that the target of a pair defines. -/
def application? (p : Pair) : Option ChildApplication :=
  p.target.bind ChildApplication.ofDocument?

theorem child_of_changeOf (runs : p.isHook = false) (ordered : ∀ t, p.target = some t → t.Ordered)
    (read : ∀ t, p.live = none → p.target = some t → ReadBack t) :
    (p.changeOf (overlayVerdict p.live p.target)).bind (·.child) =
      if p.isAdded then p.application? else none := by
  rw [isAdded, runs]
  obtain ⟨key, live, target⟩ := p
  cases live with
  | none =>
      cases target with
      | none => rfl
      | some t =>
          simp only [changeOf, Option.bind_some]
          cases found : (overlayVerdict none (some t)).document? with
          | none => rfl
          | some d =>
              have same := ofDocument?_predicted (ordered t rfl) (read t rfl rfl) found
              rw [Option.bind_some, same, Option.or_self]
              rfl
  | some d =>
      cases target with
      | none => rfl
      | some t =>
          simp only [changeOf]
          split <;> rfl

theorem child_of_kind_ne {v : Verdict} {c : Change} (h : p.changeOf v = some c)
    (other : c.kind ≠ .added) : c.child = none := by
  unfold changeOf at h
  split at h
  · cases h
  · obtain rfl := Option.some.inj h
    rfl
  · obtain rfl := Option.some.inj h
    exact absurd rfl other
  · split at h
    · obtain rfl := Option.some.inj h
      rfl
    · cases h

end Pair

namespace Comparison

theorem filterMap_child {pairs : List Pair}
    (ordered : ∀ p ∈ pairs, ∀ t, p.target = some t → t.Ordered)
    (read : ∀ p ∈ pairs, ∀ t, p.live = none → p.target = some t → ReadBack t) {cs : List Change}
    (done : changesOf overlayDiffer pairs = .ok cs) :
    cs.filterMap (·.child) = (pairs.filter Pair.isAdded).filterMap Pair.application? := by
  induction pairs generalizing cs with
  | nil =>
      obtain rfl : [] = cs := Except.ok.inj done
      rfl
  | cons p rest ih =>
      have later := @ih (fun q member => ordered q (List.mem_cons_of_mem _ member))
        fun q member => read q (List.mem_cons_of_mem _ member)
      rcases changesOf_cons_eq_ok done with ⟨hook, others⟩ | ⟨runs, v, ds, verdict, others, rfl⟩
      · rw [List.filter_cons_of_neg (by simp [Pair.isAdded, hook]), later others]
      · obtain rfl := Except.ok.inj verdict
        have own := Pair.child_of_changeOf runs (ordered p (List.mem_cons_self ..))
          (read p (List.mem_cons_self ..))
        have first : ((p.changeOf (overlayVerdict p.live p.target)).toList).filterMap (·.child) =
            ((p.changeOf (overlayVerdict p.live p.target)).bind (·.child)).toList := by
          cases p.changeOf (overlayVerdict p.live p.target) with
          | none => rfl
          | some c => cases child : c.child <;> simp [child]
        rw [List.filterMap_append, later others, first, own, List.filter_cons]
        split
        · cases app : p.application? <;> simp [app]
        · rfl

/-- The applications that a comparison discovers are those that the targets of the added pairs
define, in the order of the pairs. No other change has one. What a stripped target is read as, and
what its prediction is read as after JSON text, is what the target is read as. -/
theorem children_of_added (pairs : List Pair)
    (ordered : ∀ p ∈ pairs, ∀ t, p.target = some t → t.Ordered)
    (read : ∀ p ∈ pairs, ∀ t, p.live = none → p.target = some t → ReadBack t) :
    (∃ c, ofPairs overlayDiffer pairs = .ok c ∧
        c.children = (pairs.filter Pair.isAdded).filterMap Pair.application?) ∧
      (∀ p ∈ pairs, ∀ c, p.change overlayDiffer = .ok (some c) → c.kind ≠ .added →
        c.child = none) ∧
      ∀ p ∈ pairs, ∀ t, p.live = none → p.target = some t →
        ChildApplication.ofDocument? t.strip = ChildApplication.ofDocument? t ∧
          ∀ d, (overlayVerdict none (some t)).document? = some d →
            ChildApplication.ofDocument? d = ChildApplication.ofDocument? t := by
  obtain ⟨cs, done⟩ := exists_changesOf_overlay pairs
  refine ⟨⟨.ofChanges cs, by rw [ofPairs_eq, done]; rfl, filterMap_child ordered read done⟩,
    fun p _ c change other => ?_, fun p member t absent target => ⟨?_, fun d found => ?_⟩⟩
  · obtain ⟨-, v, -, made⟩ := Pair.exists_verdict_of_change change
    exact Pair.child_of_kind_ne made other
  · exact ChildApplication.ofDocument?_strip (ordered p member t target)
  · exact ofDocument?_predicted (ordered p member t target) (read p member t absent target) found

/-- A manifest of an application, with some fields of the server. -/
def applicationManifest (name : String) (annotations : List (String × Document)) : Document :=
  .object [("apiVersion", .string "argoproj.io/v1alpha1"), ("kind", .string "Application"),
    ("metadata", .object [("annotations", .object annotations), ("name", .string name),
      ("uid", .string "7")]),
    ("spec", .object [("destination", .object [("namespace", .string "prod")]),
      ("source", .object [("path", .string "apps"), ("repoURL", .null)])]),
    ("status", .object [])]

def applicationKey (name : String) : ResourceKey := ⟨"argoproj.io", "Application", "", name⟩

/-- An application is added, one is removed, and one is a hook. -/
def applicationPairs : List Pair :=
  [⟨applicationKey "shop", none, some (applicationManifest "shop"
      [("kubectl.kubernetes.io/last-applied-configuration", .string "old")])⟩,
    ⟨applicationKey "blog", some (applicationManifest "blog" []), none⟩,
    ⟨applicationKey "seed", none, some (applicationManifest "seed"
      [("argocd.argoproj.io/hook", .string "Sync")])⟩]

theorem readBack_of_parse {target : Document}
    (h : ((Json.parse (Json.render target.strip)).bind fun t => t.toDocument? Json.maxDepth) =
      some target.strip) : ReadBack target := by
  intro d decoded
  rw [Json.decode, Json.encode, String.toList_ofList] at decoded
  exact Option.some.inj (decoded.symm.trans h)

theorem children_of_added_shop :
    ∃ c, ofPairs overlayDiffer applicationPairs = .ok c ∧
      c.children = [⟨"shop", "", "prod", none, some "apps", none⟩] := by
  have ordered : ∀ p ∈ applicationPairs, ∀ t, p.target = some t → t.Ordered := by
    decide +kernel
  have read : ∀ p ∈ applicationPairs, ∀ t, p.live = none → p.target = some t → ReadBack t := by
    intro p member t _ target
    simp only [applicationPairs, List.mem_cons, List.not_mem_nil, or_false] at member
    rcases member with rfl | rfl | rfl
    · obtain rfl := Option.some.inj target
      exact readBack_of_parse (by cbv)
    · cases target
    · obtain rfl := Option.some.inj target
      exact readBack_of_parse (by cbv)
  obtain ⟨c, compared, children⟩ := (children_of_added applicationPairs ordered read).1
  refine ⟨c, compared, ?_⟩
  rw [children]
  decide +kernel

end Comparison
end ChangeReport
