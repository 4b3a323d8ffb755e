import ChangeReport.Proofs.Matching.Namespaces

/-! The normal form of targets. The definitions of targets have the keys that they stand at, and
each one is the last target of its key, but for its namespace. Definitions that are taken as targets
define themselves. -/
namespace ChangeReport

/-- The key that a target is matched by: its namespace is the default where a kind in namespaces
has none, and empty for a kind outside of them. -/
def Document.normalKey? (scope : NamespaceScope) (ns : String) (d : Document) :
    Option ResourceKey :=
  d.key?.map fun k =>
    { k with ns := if scope.isNamespaced k.group k.kind then if k.ns = "" then ns else k.ns else "" }

/-- The last target of a key, once it is normalised. -/
def lastDefinition? (scope : NamespaceScope) (ns : String) (k : ResourceKey)
    (targets : List Document) : Option Document :=
  (targets.filter fun d => d.normalKey? scope ns = some k).getLast?

/-- The documents have the same fields, but for the namespace of their metadata. -/
structure SameButNamespace (d e : Document) : Prop where
  fields : ∀ name, name ≠ "metadata" → e.field? name = d.field? name
  metadata : ∃ m n, d.field? "metadata" = some (.object m) ∧ e.field? "metadata" = some (.object n) ∧
    ∀ name, name ≠ "namespace" → Assoc.find? name n = Assoc.find? name m

variable {scope : NamespaceScope} {ns : String} {d e : Document} {k : ResourceKey}

theorem SameButNamespace.of_mapField {f : List (String × Document) → List (String × Document)}
    (same : ∀ name, name ≠ "namespace" → ∀ fields,
      Assoc.find? name (f fields) = Assoc.find? name fields)
    (key : d.key? = some k) :
    SameButNamespace d (d.mapField "metadata" (Document.mapFields f)) := by
  obtain ⟨fields, m, rfl, inside⟩ := Document.exists_metadata_of_key? key
  refine ⟨fun name ne => Document.field?_mapField_of_ne ne _ _, m, f m, inside, ?_,
    fun name ne => same name ne m⟩
  rw [Document.field?_mapField_self, Document.field?, inside]
  rfl

namespace Normalised

theorem normalKey? (h : Normalised scope ns d k e) : d.normalKey? scope ns = some k := by
  cases h with
  | filled key inside unset => simp [Document.normalKey?, key, inside, unset]
  | cleared key outside => simp [Document.normalKey?, key, outside]
  | kept key inside outside =>
      cases kind : scope.isNamespaced k.group k.kind with
      | false => simp [Document.normalKey?, key, kind, ← outside kind]
      | true =>
          have filled : (if k.ns = "" then ns else k.ns) = k.ns := by
            split
            next unset => rw [(inside kind).resolve_left (not_not_intro unset), unset]
            next => rfl
          simp [Document.normalKey?, key, kind, filled]

theorem sameButNamespace (h : Normalised scope ns d k e) : SameButNamespace d e := by
  cases h with
  | filled key => exact .of_mapField (fun _ ne m => Assoc.find?_insert_of_ne ne _ m) key
  | cleared key => exact .of_mapField (fun _ ne m => Assoc.find?_erase_of_ne ne m) key
  | kept key =>
      obtain ⟨fields, m, rfl, inside⟩ := Document.exists_metadata_of_key? key
      exact ⟨fun _ _ => rfl, m, m, inside, inside, fun _ _ => rfl⟩

theorem outside (h : Normalised scope ns d k e)
    (kind : scope.isNamespaced k.group k.kind = false) : k.ns = "" := by
  cases h with
  | filled key inside => exact absurd (inside.symm.trans kind) (by decide)
  | cleared => rfl
  | kept key inside outside => exact outside kind

/-- What a target has become stays as it is. -/
theorem again (h : Normalised scope ns d k e) (own : e.key? = some k) :
    e.normalised? scope ns = some (k, e) := by
  rw [Document.normalised?, own, Option.map_some]
  cases kind : scope.isNamespaced k.group k.kind with
  | false => simp [h.outside kind]
  | true =>
      by_cases named : ns = ""
      · simp [named]
      · have set : k.ns ≠ "" := by simpa [kind] using h.ns_eq named
        simp [set]

end Normalised

theorem map_fst_normalised? (scope : NamespaceScope) (ns : String) (d : Document) :
    (d.normalised? scope ns).map (·.1) = d.normalKey? scope ns := by
  cases becomes : d.normalised? scope ns with
  | some e => exact (normalised_of_eq_some becomes).normalKey?.symm
  | none =>
      have unknown : d.key? = none := Option.map_eq_none_iff.1 becomes
      rw [Document.normalKey?, unknown]
      rfl

/-! ## The last target of a key -/

/-- What a key is defined as comes from the last target of the key. -/
theorem find?_deduplicate (k : ResourceKey) (targets : List Document) (scope : NamespaceScope)
    (ns : String) : Assoc.find? k (deduplicate targets scope ns) =
      (lastDefinition? scope ns k targets).bind fun d => (d.normalised? scope ns).map (·.2) := by
  rw [deduplicate, Assoc.find?_ofList_filterMap]
  simp only [map_fst_normalised?, lastDefinition?]

theorem exists_of_mem_deduplicate {targets : List Document}
    (member : (k, e) ∈ deduplicate targets scope ns) :
    ∃ d, lastDefinition? scope ns k targets = some d ∧ d ∈ targets ∧ Normalised scope ns d k e := by
  have found := (Assoc.mem_iff_find? (sorted_deduplicate targets scope ns)).1 member
  rw [find?_deduplicate] at found
  obtain ⟨d, last, becomes⟩ := Option.bind_eq_some_iff.1 found
  obtain ⟨there, own⟩ := List.mem_filter.1 (List.mem_of_getLast? last)
  obtain ⟨⟨l, e⟩, entry, rfl⟩ := Option.map_eq_some_iff.1 becomes
  have normal := normalised_of_eq_some entry
  obtain rfl : l = k := Option.some.inj (normal.normalKey?.symm.trans (of_decide_eq_true own))
  exact ⟨d, last, there, normal⟩

/-- Every target of a key gives it a definition. -/
theorem exists_mem_deduplicate {targets : List Document} (member : d ∈ targets)
    (own : d.normalKey? scope ns = some k) : ∃ e, (k, e) ∈ deduplicate targets scope ns := by
  have there : d ∈ targets.filter fun d => d.normalKey? scope ns = some k :=
    List.mem_filter.2 ⟨member, decide_eq_true own⟩
  have last := List.getLast?_eq_some_getLast (List.ne_nil_of_mem there)
  obtain ⟨-, same⟩ := List.mem_filter.1 (List.mem_of_getLast? last)
  rw [← map_fst_normalised?] at same
  obtain ⟨⟨l, e⟩, becomes, -⟩ := Option.map_eq_some_iff.1 (of_decide_eq_true same)
  refine ⟨e, (Assoc.mem_iff_find? (sorted_deduplicate targets scope ns)).2 ?_⟩
  rw [find?_deduplicate, lastDefinition?, last, Option.bind_some, becomes]
  rfl

/-! ## Normal form -/

/-- What holds of a key and its definition: the document has the key, it is the last target of the
key but for its namespace, and the key has a namespace where its kind is in namespaces. -/
structure Defined (targets : List Document) (scope : NamespaceScope) (ns : String)
    (k : ResourceKey) (d : Document) : Prop where
  key : d.key? = some k
  source : ∃ t, lastDefinition? scope ns k targets = some t ∧ SameButNamespace t d
  outside : scope.isNamespaced k.group k.kind = false → k.ns = ""
  inside : scope.isNamespaced k.group k.kind = true → ns ≠ "" → k.ns ≠ ""
  ordered : d.Ordered

theorem defined_of_mem {targets : List Document} (ordered : ∀ d ∈ targets, d.Ordered)
    (member : (k, d) ∈ deduplicate targets scope ns) : Defined targets scope ns k d := by
  obtain ⟨t, last, there, normal⟩ := exists_of_mem_deduplicate member
  exact {
    key := normal.key? (ordered t there)
    source := ⟨t, last, normal.sameButNamespace⟩
    outside := normal.outside
    inside := fun kind named => by simpa [kind] using normal.ns_eq named
    ordered := normal.ordered (ordered t there) }

/-- Definitions, taken as targets in any order, are their own definitions. -/
theorem deduplicate_definitions {targets again : List Document}
    (ordered : ∀ d ∈ targets, d.Ordered)
    (perm : again.Perm ((deduplicate targets scope ns).map (·.2))) :
    deduplicate again scope ns = deduplicate targets scope ns := by
  have sorted := sorted_deduplicate targets scope ns
  have fixed : ((deduplicate targets scope ns).map (·.2)).filterMap
      (Document.normalised? scope ns) = deduplicate targets scope ns := by
    rw [List.filterMap_map]
    refine (List.filterMap_congr fun e member => ?_).trans List.filterMap_some
    obtain ⟨t, -, there, normal⟩ := exists_of_mem_deduplicate (k := e.1) (e := e.2) member
    exact normal.again (normal.key? (ordered t there))
  have same := perm.filterMap (Document.normalised? scope ns)
  rw [fixed] at same
  rw [deduplicate, Assoc.ofList_perm ((same.map _).nodup_iff.2 (Assoc.keys_nodup sorted)) same,
    Assoc.ofList_of_sorted sorted]

/-- The normal form of targets. Every definition has the key that it stands at, comes from the last
target of that key and differs from it in its namespace at most, which it has where its kind is in
namespaces. Every target with a kind and a name is defined, and the definitions define themselves. -/
theorem deduplicate_normal (targets : List Document) (scope : NamespaceScope) (ns : String)
    (ordered : ∀ d ∈ targets, d.Ordered) :
    (∀ k d, (k, d) ∈ deduplicate targets scope ns → Defined targets scope ns k d) ∧
    (∀ t ∈ targets, ∀ kind name, (t.field? "kind").bind Document.text? = some kind →
      t.metadataText? "name" = some name → kind ≠ "" → name ≠ "" →
      ∃ k d, t.normalKey? scope ns = some k ∧ (k, d) ∈ deduplicate targets scope ns) ∧
    ∀ again : List Document, again.Perm ((deduplicate targets scope ns).map (·.2)) →
      deduplicate again scope ns = deduplicate targets scope ns := by
  refine ⟨fun k d member => defined_of_mem ordered member, fun t member kind name hk hn ek en => ?_,
    fun again perm => deduplicate_definitions ordered perm⟩
  have key : t.key? = some ⟨_, kind, _, name⟩ :=
    Document.key?_eq_some_iff.2 ⟨hk, hn, ⟨ek, en⟩, rfl, rfl⟩
  obtain ⟨k, own⟩ : ∃ k, t.normalKey? scope ns = some k := by
    rw [Document.normalKey?, key]
    exact ⟨_, rfl⟩
  obtain ⟨d, there⟩ := exists_mem_deduplicate member own
  exact ⟨k, d, own, there⟩

def tinted (color : String) (ns : List (String × Document)) : Document :=
  .object [("data", .object [("color", .string color)]), ("kind", .string "ConfigMap"),
    ("metadata", .object (("name", .string "web") :: ns))]

def reader (ns : List (String × Document)) : Document :=
  .object [("apiVersion", .string "rbac.authorization.k8s.io/v1"), ("kind", .string "ClusterRole"),
    ("metadata", .object (("name", .string "read") :: ns))]

def inProd : List (String × Document) := [("namespace", .string "prod")]

/-- Two maps that have one key as soon as the namespace of the second one is filled, and a role that
must not have a namespace. -/
def overlapping : List Document :=
  [tinted "red" inProd, tinted "blue" [("namespace", .number (.int 7))], reader inProd]

def tintedKey : ResourceKey := ⟨"", "ConfigMap", "prod", "web"⟩

def readerKey : ResourceKey := ⟨"rbac.authorization.k8s.io", "ClusterRole", "", "read"⟩

theorem deduplicate_normal_of_overlapping :
    (∀ d ∈ overlapping, d.Ordered) ∧
      deduplicate overlapping ⟨[]⟩ "prod" =
        [(tintedKey, tinted "blue" inProd), (readerKey, reader [])] ∧
      Defined overlapping ⟨[]⟩ "prod" tintedKey (tinted "blue" inProd) ∧
      Defined overlapping ⟨[]⟩ "prod" readerKey (reader []) ∧
      (∃ k d, (tinted "red" inProd).normalKey? ⟨[]⟩ "prod" = some k ∧
        (k, d) ∈ deduplicate overlapping ⟨[]⟩ "prod") ∧
      deduplicate [reader [], tinted "blue" inProd] ⟨[]⟩ "prod" =
        deduplicate overlapping ⟨[]⟩ "prod" := by
  have ordered : ∀ d ∈ overlapping, d.Ordered := by decide +kernel
  obtain ⟨defined, known, again⟩ := deduplicate_normal overlapping ⟨[]⟩ "prod" ordered
  have red := known _ (.head _) "ConfigMap" "web" rfl rfl (by decide) (by decide)
  have definitions : deduplicate overlapping ⟨[]⟩ "prod" =
      [(tintedKey, tinted "blue" inProd), (readerKey, reader [])] := rfl
  rw [definitions] at defined red again ⊢
  exact ⟨ordered, rfl, defined _ _ (.head _), defined _ _ (.tail _ (.head _)), red,
    again _ (.swap ..)⟩

end ChangeReport
