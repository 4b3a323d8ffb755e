import ChangeReport.Proofs.Comparison.InSync
import ChangeReport.Proofs.Matching.NormalForm

/-! The order of live objects and of targets. It decides between repeated keys, and between live
objects of one kind of which only some have a namespace. Without these it does not matter. -/
namespace ChangeReport

/-! ## Live objects in another order -/

namespace Uniform

variable {live other : List Document}

theorem perm (h : Uniform live) (objects : live.Perm other) : Uniform other := by
  have same := objects.filterMap Document.key?
  exact fun k hk l hl => h k (same.mem_iff.2 hk) l (same.mem_iff.2 hl)

/-- Live objects that agree teach the same namespaces in any order. -/
theorem isNamespaced_perm (uniform : Uniform live) (objects : live.Perm other)
    (group kind : String) :
    (NamespaceScope.ofLive live).isNamespaced group kind =
      (NamespaceScope.ofLive other).isNamespaced group kind := by
  by_cases seen : ∃ d ∈ live, ∃ k, d.key? = some k ∧ k.group = group ∧ k.kind = kind
  · obtain ⟨d, member, k, key, rfl, rfl⟩ := seen
    rw [uniform.isNamespaced_eq member key,
      (uniform.perm objects).isNamespaced_eq (objects.mem_iff.1 member) key]
  · have unseen : ∀ d ∈ live, ∀ k, d.key? = some k → k.group = group → k.kind ≠ kind :=
      fun d member k key same kinds => seen ⟨d, member, k, key, same, kinds⟩
    rw [NamespaceScope.isNamespaced_of_unseen unseen,
      NamespaceScope.isNamespaced_of_unseen fun d member => unseen d (objects.mem_iff.2 member)]

end Uniform

theorem liveIndex_perm {live other : List Document} (keys : (live.filterMap Document.key?).Nodup)
    (objects : live.Perm other) : liveIndex live = liveIndex other := by
  refine Assoc.ofList_perm ?_ (objects.filterMap _)
  rw [List.map_filterMap]
  refine (List.filterMap_congr fun d _ => ?_) ▸ keys
  cases d.key? <;> rfl

/-! ## Targets in another order -/

theorem deduplicate_perm {targets others : List Document} {scope : NamespaceScope} {ns : String}
    (distinct : (targets.filterMap (Document.normalKey? scope ns)).Nodup)
    (rendered : targets.Perm others) :
    deduplicate targets scope ns = deduplicate others scope ns := by
  refine Assoc.ofList_perm ?_ (rendered.filterMap _)
  rw [List.map_filterMap]
  simp only [map_fst_normalised?]
  exact distinct

theorem deduplicate_congr {targets : List Document} {scope other : NamespaceScope} {ns : String}
    (same : ∀ group kind, scope.isNamespaced group kind = other.isNamespaced group kind) :
    deduplicate targets scope ns = deduplicate targets other ns := by
  rw [deduplicate, deduplicate]
  congr 1
  exact List.filterMap_congr fun d _ => normalised?_congr fun l _ => same l.group l.kind

/-! ## Comparisons -/

theorem matchResources_perm {live targets : List Document} {ns : String}
    (keys : (live.filterMap Document.key?).Nodup) (uniform : Uniform live)
    (distinct : (targets.filterMap (Document.normalKey? (.ofLive live) ns)).Nodup)
    {objects others : List Document} (moved : live.Perm objects) (rendered : targets.Perm others) :
    matchResources targets live ns = matchResources others objects ns := by
  rw [matchResources, matchResources, liveIndex_perm keys moved, deduplicate_perm distinct rendered,
    deduplicate_congr (uniform.isNamespaced_perm moved)]

/-- The order of live objects and of targets does not matter. Where live objects have distinct keys
and agree about the namespaces of their kinds, and where targets have distinct keys as soon as their
namespaces are set, all orders have one match, and so one comparison. -/
theorem compare_reordered (live targets : List Document) (ns : String)
    (keys : (live.filterMap Document.key?).Nodup) (uniform : Uniform live)
    (distinct : (targets.filterMap (Document.normalKey? (.ofLive live) ns)).Nodup)
    {live₁ live₂ targets₁ targets₂ : List Document} (first_live : live₁.Perm live)
    (second_live : live₂.Perm live) (first_targets : targets₁.Perm targets)
    (second_targets : targets₂.Perm targets) :
    matchResources targets₁ live₁ ns = matchResources targets₂ live₂ ns ∧
      ∀ differ, Comparison.ofPairs differ (matchResources targets₁ live₁ ns) =
        Comparison.ofPairs differ (matchResources targets₂ live₂ ns) := by
  have same : matchResources targets₁ live₁ ns = matchResources targets₂ live₂ ns :=
    (matchResources_perm keys uniform distinct first_live.symm first_targets.symm).symm.trans
      (matchResources_perm keys uniform distinct second_live.symm second_targets.symm)
  exact ⟨same, fun differ => by rw [same]⟩

/-- A cluster with a gadget outside of namespaces, and a document without a key. -/
def cluster : List Document :=
  [deployed "ConfigMap" "web" "red" [], gadget, .null, deployed "ConfigMap" "extra" "red" []]

/-- Targets of which one has no namespace yet, and one is a hook. -/
def rendered : List Document :=
  [tinted "blue" [], sample "ConfigMap" "extra" "blue" [], gadget, sample "Job" "migrate" "red" asHook]

theorem compare_reordered_of_cluster :
    ((cluster.filterMap Document.key?).Nodup ∧ Uniform cluster ∧
        (rendered.filterMap (Document.normalKey? (.ofLive cluster) "prod")).Nodup) ∧
      matchResources rendered cluster "prod" =
        matchResources rendered.reverse cluster.reverse "prod" ∧
      Comparison.ofPairs overlayDiffer (matchResources rendered cluster "prod") =
        Comparison.ofPairs overlayDiffer
          (matchResources rendered.reverse cluster.reverse "prod") := by
  have keys : (cluster.filterMap Document.key?).Nodup := by decide +kernel
  have uniform : Uniform cluster := by decide +kernel
  have distinct : (rendered.filterMap (Document.normalKey? (.ofLive cluster) "prod")).Nodup := by
    decide +kernel
  obtain ⟨same, compared⟩ := compare_reordered cluster rendered "prod" keys uniform distinct
    (.refl _) cluster.reverse_perm (.refl _) rendered.reverse_perm
  exact ⟨⟨keys, uniform, distinct⟩, same, compared overlayDiffer⟩

end ChangeReport
