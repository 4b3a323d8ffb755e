import ChangeReport.Proofs.Matching.Namespaces
import Mathlib.Data.List.Sort

/-! Secrets of the core group leave no trace in a match. They take part in all that comes
before it: they tell about namespaces, they get namespaces and take the place of earlier
definitions, and they are indexed. But all of this goes by the kind of a document, and the
pairs of their kind are left out. -/
namespace ChangeReport

namespace Document

/-- A Secret of the core group, with or without a name. -/
def isCoreSecret (d : Document) : Bool :=
  (d.field? "kind").bind text? == some "Secret" &&
    groupOf (((d.field? "apiVersion").bind text?).getD "") == ""

theorem isCoreSecret_of_key? {d : Document} {k : ResourceKey} (h : d.key? = some k) :
    d.isCoreSecret = k.isCoreSecret := by
  obtain ⟨kind, -, -, group, -⟩ := key?_eq_some_iff.1 h
  rw [isCoreSecret, ResourceKey.isCoreSecret, kind, group, Bool.and_comm]
  rfl

/-- A document is a Secret or not whatever its metadata say. -/
theorem isCoreSecret_mapField (f : Document → Document) (d : Document) :
    (d.mapField "metadata" f).isCoreSecret = d.isCoreSecret := by
  rw [isCoreSecret, isCoreSecret, field?_mapField_of_ne (by decide),
    field?_mapField_of_ne (by decide)]

end Document

def withoutSecrets (ds : List Document) : List Document := ds.filter fun d => !d.isCoreSecret

theorem Normalised.isCoreSecret {scope : NamespaceScope} {ns : String} {d e : Document}
    {k : ResourceKey} (h : Normalised scope ns d k e) :
    d.isCoreSecret = k.isCoreSecret ∧ e.isCoreSecret = k.isCoreSecret := by
  have same : d.isCoreSecret = k.isCoreSecret := by
    obtain ⟨l, key, group, kind, -⟩ := h.exists_key
    rw [Document.isCoreSecret_of_key? key, ResourceKey.isCoreSecret, ResourceKey.isCoreSecret,
      group, kind]
  refine ⟨same, Eq.trans ?_ same⟩
  cases h with
  | filled => exact Document.isCoreSecret_mapField _ d
  | cleared => exact Document.isCoreSecret_mapField _ d
  | kept => rfl

variable {k : ResourceKey}

theorem lastOf?_withoutSecrets (shown : k.isCoreSecret = false) (live : List Document) :
    lastOf? k (withoutSecrets live) = lastOf? k live := by
  rw [lastOf?, lastOf?, withoutSecrets, List.filter_filter]
  congr 1
  refine List.filter_congr fun d _ => ?_
  by_cases own : d.key? = some k
  · simp [own, Document.isCoreSecret_of_key? own, shown]
  · simp [own]

/-- What live objects tell about a kind, they tell without the Secrets among them. -/
theorem isNamespaced_withoutSecrets (shown : k.isCoreSecret = false) (live : List Document) :
    (NamespaceScope.ofLive (withoutSecrets live)).isNamespaced k.group k.kind =
      (NamespaceScope.ofLive live).isNamespaced k.group k.kind := by
  have told : (NamespaceScope.ofLive (withoutSecrets live)).kinds.lookup (k.group, k.kind) =
      (NamespaceScope.ofLive live).kinds.lookup (k.group, k.kind) := by
    induction live with
    | nil => rfl
    | cons d live ih =>
        simp only [NamespaceScope.ofLive, withoutSecrets] at ih ⊢
        cases secret : d.isCoreSecret with
        | false =>
            rw [List.filter_cons_of_pos (by simp [secret])]
            cases key : d.key? with
            | none => simpa [key] using ih
            | some l => simp only [List.filterMap_cons_some key, List.map_cons, List.lookup_cons, ih]
        | true =>
            rw [List.filter_cons_of_neg (by simp [secret]), ih]
            cases key : d.key? with
            | none => rw [List.filterMap_cons_none key]
            | some l =>
                have other : ((k.group, k.kind) == (l.group, l.kind)) = false := by
                  rw [beq_eq_false_iff_ne]
                  intro same
                  obtain ⟨group, kind⟩ := Prod.mk.inj same
                  rw [Document.isCoreSecret_of_key? key, ResourceKey.isCoreSecret, ← group,
                    ← kind] at secret
                  exact absurd (secret.symm.trans shown) (by decide)
                rw [List.filterMap_cons_some key, List.map_cons, List.lookup_cons, other]
  rw [NamespaceScope.isNamespaced, NamespaceScope.isNamespaced, told]

theorem find?_deduplicate_withoutSecrets (shown : k.isCoreSecret = false)
    (targets live : List Document) (ns : String) :
    Assoc.find? k (deduplicate (withoutSecrets targets) (.ofLive (withoutSecrets live)) ns) =
      Assoc.find? k (deduplicate targets (.ofLive live) ns) := by
  rw [find?_deduplicate_congr (isNamespaced_withoutSecrets shown live), deduplicate, deduplicate,
    withoutSecrets, List.filterMap_filter]
  refine Assoc.find?_ofList_congr fun d _ e => ?_
  cases secret : d.isCoreSecret with
  | false => simp
  | true =>
      -- a Secret becomes no definition of this key
      have other : d.normalised? (.ofLive live) ns ≠ some (k, e) := by
        intro becomes
        have same := (normalised_of_eq_some becomes).isCoreSecret.1
        exact absurd (secret.symm.trans (same.trans shown)) (by decide)
      simp [other]

theorem Belongs.congr {definitions definitions' : List (ResourceKey × Document)}
    {live live' : List Document} {p : Pair}
    (objects : ∀ k : ResourceKey, k.isCoreSecret = false → lastOf? k live = lastOf? k live')
    (defined : ∀ k : ResourceKey, k.isCoreSecret = false →
      Assoc.find? k definitions = Assoc.find? k definitions')
    (h : Belongs definitions live p) : Belongs definitions' live' p := by
  cases h with
  | present shown last =>
      rw [defined _ shown]
      exact .present shown (objects _ shown ▸ last)
  | added shown absent found runs counts =>
      exact .added shown (objects _ shown ▸ absent) (defined _ shown ▸ found) runs counts

/-- A match is known by its live objects and definitions, those of core Secrets aside. -/
theorem matchResources_congr {targets targets' live live' : List Document} {ns ns' : String}
    (objects : ∀ k : ResourceKey, k.isCoreSecret = false → lastOf? k live = lastOf? k live')
    (defined : ∀ k : ResourceKey, k.isCoreSecret = false →
      Assoc.find? k (deduplicate targets (.ofLive live) ns) =
        Assoc.find? k (deduplicate targets' (.ofLive live') ns')) :
    matchResources targets live ns = matchResources targets' live' ns' := by
  have irrefl : Std.Irrefl fun p q : Pair => compare p.key q.key = .lt :=
    ⟨fun p => by simp [Std.ReflCmp.compare_self]⟩
  have antisymm : Std.Antisymm fun p q : Pair => compare p.key q.key = .lt :=
    ⟨fun p q first second => absurd (Std.TransCmp.lt_trans first second) (irrefl.irrefl p)⟩
  refine List.Pairwise.eq_of_mem_iff (matchResources_sorted targets live ns)
    (matchResources_sorted targets' live' ns') fun p => ?_
  rw [mem_matchResources, mem_matchResources]
  exact ⟨.congr objects defined, .congr (fun k shown => (objects k shown).symm)
    fun k shown => (defined k shown).symm⟩

theorem matchResources_withoutSecrets (targets live : List Document) (ns : String) :
    matchResources (withoutSecrets targets) (withoutSecrets live) ns =
      matchResources targets live ns :=
  matchResources_congr (fun _ shown => lastOf?_withoutSecrets shown live)
    fun _ shown => find?_deduplicate_withoutSecrets shown targets live ns

end ChangeReport
