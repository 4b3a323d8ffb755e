import ChangeReport.Proofs.Comparison.Changes
import ChangeReport.Proofs.Document.Stripping
import ChangeReport.Proofs.Matching.Namespaces
import Mathlib.Data.List.Forall2

/-! Clusters that are in sync. Where every live object has the key of its target and
everything that the target says, a comparison finds no change. Live objects then teach the
namespaces that the targets have already, so that targets are matched as they are, and of a
repeated key the last target meets the last live object. -/
namespace ChangeReport

/-- A live object of the same key that has everything the target says, the fields of the
server aside. -/
structure InSync (target live : Document) : Prop where
  key : target.key? = live.key?
  content : target.strip.contained live.strip = true

instance (target live : Document) : Decidable (InSync target live) :=
  decidable_of_iff (target.key? = live.key? ∧ target.strip.contained live.strip = true)
    ⟨fun h => ⟨h.1, h.2⟩, fun h => ⟨h.key, h.content⟩⟩

/-- Documents of one group and kind agree on having a namespace. -/
def Uniform (ds : List Document) : Prop :=
  ∀ k ∈ ds.filterMap Document.key?, ∀ l ∈ ds.filterMap Document.key?,
    k.group = l.group → k.kind = l.kind → (k.ns = "" ↔ l.ns = "")

instance (ds : List Document) : Decidable (Uniform ds) :=
  inferInstanceAs (Decidable (∀ k ∈ ds.filterMap Document.key?,
    ∀ l ∈ ds.filterMap Document.key?,
      k.group = l.group → k.kind = l.kind → (k.ns = "" ↔ l.ns = "")))

/-- Live objects that agree about a kind tell whether it is in namespaces, each of them. -/
theorem Uniform.isNamespaced_eq {live : List Document} (h : Uniform live) {d : Document}
    {k : ResourceKey} (member : d ∈ live) (key : d.key? = some k) :
    (NamespaceScope.ofLive live).isNamespaced k.group k.kind = (k.ns != "") := by
  refine NamespaceScope.isNamespaced_ofLive ⟨d, member, k, key, rfl, rfl⟩ ?_
  intro e inside l keyed group kind
  have agree := h l (List.mem_filterMap.2 ⟨e, inside, keyed⟩) k
    (List.mem_filterMap.2 ⟨d, member, key⟩) group kind
  rw [Bool.eq_iff_iff, bne_iff_ne, bne_iff_ne]
  exact not_congr agree

theorem InSync.changes_eq {target live : Document} (h : InSync target live)
    (hl : live.Ordered) (ht : target.Ordered) : changes (some live) (some target) = false := by
  rw [changes_eq_not_contained hl ht, h.content]
  rfl

open scoped Relator

variable {targets live : List Document} {ns : String}

/-- Next to live objects that agree, a target with the key of one of them stays as it is. -/
theorem normalised?_of_uniform (uniform : Uniform live) {t d : Document} (member : d ∈ live)
    (key : t.key? = d.key?) : t.normalised? (.ofLive live) ns = t.key?.map (·, t) := by
  rw [Document.normalised?]
  cases own : t.key? with
  | none => rfl
  | some k =>
      have there : d.key? = some k := key.symm.trans own
      rw [Option.map_some, Option.map_some, uniform.isNamespaced_eq member there]
      by_cases outside : k.ns = "" <;> simp [outside]

theorem deduplicate_of_uniform (uniform : Uniform live)
    (known : ∀ t ∈ targets, ∃ d ∈ live, t.key? = d.key?) :
    deduplicate targets (.ofLive live) ns = liveIndex targets := by
  rw [deduplicate, liveIndex]
  congr 1
  refine List.filterMap_congr fun t member => ?_
  obtain ⟨d, inside, key⟩ := known t member
  exact normalised?_of_uniform uniform inside key

theorem map_key?_inSync (sync : List.Forall₂ InSync targets live) :
    targets.map Document.key? = live.map Document.key? := by
  rw [← List.forall₂_eq_eq_eq, List.forall₂_map_left_iff, List.forall₂_map_right_iff]
  exact sync.imp fun _ _ alike => alike.key

/-- The last target and the last live object of a key stand at the same place. -/
theorem lastOf?_inSync (sync : List.Forall₂ InSync targets live) (k : ResourceKey) :
    Option.Rel InSync (lastOf? k targets) (lastOf? k live) := by
  have own : (InSync ⇒ Iff) (fun t => decide (t.key? = some k) = true)
      fun d => decide (d.key? = some k) = true := by
    intro t d alike
    simp only [alike.key]
  have reversed := List.rel_reverse (List.rel_filter own sync)
  rw [lastOf?, lastOf?, List.getLast?_eq_head?_reverse, List.getLast?_eq_head?_reverse]
  generalize (targets.filter _).reverse = ts, (live.filter _).reverse = ds at reversed ⊢
  cases reversed with
  | nil => exact .none
  | cons last => exact .some last

/-- In a match of a cluster in sync every target has its live object and every live object
its target. -/
theorem pair_of_inSync (sync : List.Forall₂ InSync targets live) (uniform : Uniform live)
    {p : Pair} (member : p ∈ matchResources targets live ns) :
    ∃ t ∈ targets, ∃ d ∈ live, InSync t d ∧ p.live = some d ∧ p.target = some t := by
  have known : ∀ t ∈ targets, ∃ d ∈ live, t.key? = d.key? := by
    intro t inside
    have there := List.mem_map_of_mem (f := Document.key?) inside
    rw [map_key?_inSync sync] at there
    obtain ⟨d, member, key⟩ := List.mem_map.1 there
    exact ⟨d, member, key.symm⟩
  have defined : ∀ k, Assoc.find? k (deduplicate targets (.ofLive live) ns) =
      lastOf? k targets := by
    intro k
    rw [deduplicate_of_uniform uniform known, find?_liveIndex]
  have belongs := mem_matchResources.1 member
  have object := belongs.live_eq
  have target := belongs.target_eq.trans (defined p.key)
  have related := lastOf?_inSync sync p.key
  rw [← object, ← target] at related
  obtain ⟨k, d?, t?⟩ := p
  dsimp only at object target related ⊢
  cases related with
  | none => cases belongs
  | @some t d alike =>
      exact ⟨t, (lastOf?_eq_some target.symm).1, d, (lastOf?_eq_some object.symm).1, alike, rfl,
        rfl⟩

/-- A cluster in sync has no changes, whatever the default namespace and whatever is among
its objects: hooks, ignored objects, Secrets, repeated keys or documents without a key. -/
theorem compare_in_sync (targets live : List Document) (ns : String)
    (live_ordered : ∀ d ∈ live, d.Ordered) (targets_ordered : ∀ d ∈ targets, d.Ordered)
    (sync : List.Forall₂ InSync targets live) (uniform : Uniform live) :
    Comparison.ofPairs overlayDiffer (matchResources targets live ns) =
      .ok ⟨.zero, "No changes", "0 added, 0 modified, 0 removed", []⟩ := by
  refine Comparison.ofPairs_of_unchanged fun p member => ?_
  obtain ⟨t, asked, d, there, alike, object, target⟩ := pair_of_inSync sync uniform member
  exact Pair.change_of_changes object target
    (alike.changes_eq (live_ordered d there) (targets_ordered t asked))

/-- A sample as it is in the cluster: with a default, and with what the server keeps. -/
def deployed (kind name color : String) (annotations : List (String × Document)) : Document :=
  .object [("data", .object [("color", .string color), ("local", .string "1")]),
    ("kind", .string kind),
    ("metadata", .object [
      ("annotations", .object (annotations ++ [(Document.lastAppliedAnnotation, .string "7")])),
      ("name", .string name), ("namespace", .string "prod"), ("uid", .string "7")]),
    ("status", .string "ready")]

def gadget : Document :=
  .object [("kind", .string "Gadget"), ("metadata", .object [("name", .string "old")])]

def asHook : List (String × Document) := [("argocd.argoproj.io/hook", .string "Sync")]

def asIgnored : List (String × Document) :=
  [("argocd.argoproj.io/compare-options", .string "IgnoreExtraneous")]

def asked : List Document :=
  [sample "ConfigMap" "web" "red" [], sample "Secret" "key" "red" [], gadget, .null,
    sample "Job" "migrate" "red" asHook, sample "ConfigMap" "extra" "red" asIgnored,
    sample "ConfigMap" "web" "blue" []]

def running : List Document :=
  [deployed "ConfigMap" "web" "red" [], deployed "Secret" "key" "red" [], gadget, .null,
    deployed "Job" "migrate" "red" asHook, deployed "ConfigMap" "extra" "red" asIgnored,
    deployed "ConfigMap" "web" "blue" []]

/-- A repeated map, a Secret, a gadget without a namespace, a document without a key, a hook
and an ignored map, and no default namespace. -/
theorem compare_in_sync_of_prod :
    ((∀ d ∈ running, d.Ordered) ∧ (∀ d ∈ asked, d.Ordered) ∧
        List.Forall₂ InSync asked running ∧ Uniform running) ∧
      Comparison.ofPairs overlayDiffer (matchResources asked running "") =
        .ok ⟨.zero, "No changes", "0 added, 0 modified, 0 removed", []⟩ := by
  have running_ordered : ∀ d ∈ running, d.Ordered := by decide +kernel
  have asked_ordered : ∀ d ∈ asked, d.Ordered := by decide +kernel
  have sync : List.Forall₂ InSync asked running := by decide +kernel
  have uniform : Uniform running := by decide +kernel
  exact ⟨⟨running_ordered, asked_ordered, sync, uniform⟩,
    compare_in_sync asked running "" running_ordered asked_ordered sync uniform⟩

end ChangeReport
