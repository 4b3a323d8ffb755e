import ChangeReport.Matching
import ChangeReport.Overlay
import ChangeReport.Proofs.Document.Ordered
import Mathlib.Data.Option.Basic

/-! What changes of metadata leave of a document. Setting or clearing a namespace and
stripping what the server owns keep the key of a manifest as far as they do not mean to
change it, and keep its annotations or most of them. -/
namespace ChangeReport.Document

theorem isObject_of_field? {name : String} {d v : Document} (h : d.field? name = some v) :
    ∃ fields, d = .object fields := by
  cases d with
  | object fields => exact ⟨fields, rfl⟩
  | _ => cases h

theorem field?_mapField_of_ne {name other : String} (ne : other ≠ name)
    (f : Document → Document) (d : Document) :
    (d.mapField name f).field? other = d.field? other := by
  cases d with
  | object fields =>
      unfold mapField
      split
      · exact Assoc.find?_insert_of_ne ne _ fields
      · rfl
  | _ => rfl

theorem field?_mapField_self (name : String) (f : Document → Document) (d : Document) :
    (d.mapField name f).field? name = (d.field? name).map f := by
  cases d with
  | object fields =>
      unfold mapField
      split
      next v found =>
        rw [found]
        exact Assoc.find?_insert_self name _ fields
      next absent => rw [absent]; rfl
  | _ => rfl

theorem field?_mapFields {name : String} {f : List (String × Document) → List (String × Document)}
    (same : ∀ fields, Assoc.find? name (f fields) = Assoc.find? name fields) (d : Document) :
    (d.mapFields f).field? name = d.field? name := by
  cases d with
  | object fields => exact same fields
  | _ => rfl

theorem metadataText?_eq (name : String) (d : Document) :
    d.metadataText? name = ((d.field? "metadata").bind (·.field? name)).bind text? := by
  rw [metadataText?, Option.bind_assoc]

/-- A change of metadata that leaves a field alone leaves its text alone. -/
theorem metadataText?_mapField {name : String}
    {f : List (String × Document) → List (String × Document)}
    (same : ∀ fields, Assoc.find? name (f fields) = Assoc.find? name fields) (d : Document) :
    (d.mapField "metadata" (mapFields f)).metadataText? name = d.metadataText? name := by
  rw [metadataText?, metadataText?, field?_mapField_self, Option.bind_map]
  refine congrArg _ (funext fun m => ?_)
  rw [Function.comp_apply, field?_mapFields same]

theorem annotation?_mapField {f : List (String × Document) → List (String × Document)}
    (same : ∀ fields, Assoc.find? "annotations" (f fields) = Assoc.find? "annotations" fields)
    (d : Document) (name : String) :
    (d.mapField "metadata" (mapFields f)).annotation? name = d.annotation? name := by
  rw [annotation?, annotation?, field?_mapField_self, Option.bind_map]
  refine congrArg _ (funext fun m => ?_)
  rw [Function.comp_apply, field?_mapFields same]

/-! ## Keys -/

/-- The parts of a key: the fields that a manifest is known by. -/
theorem key?_eq_some_iff {d : Document} {k : ResourceKey} :
    d.key? = some k ↔ (d.field? "kind").bind text? = some k.kind ∧
      d.metadataText? "name" = some k.name ∧ (k.kind ≠ "" ∧ k.name ≠ "") ∧
      groupOf (((d.field? "apiVersion").bind text?).getD "") = k.group ∧
      (d.metadataText? "namespace").getD "" = k.ns := by
  obtain ⟨group, kind, ns, name⟩ := k
  rw [key?]
  cases kinds : (d.field? "kind").bind text? with
  | none => simp
  | some x =>
      cases names : d.metadataText? "name" with
      | none => simp
      | some y =>
          have test : (guard (x ≠ "" ∧ y ≠ "") : Option Unit) =
              if x ≠ "" ∧ y ≠ "" then some () else none := rfl
          simp only [Option.bind_eq_bind, Option.bind_some, test, Option.pure_def]
          by_cases filled : x ≠ "" ∧ y ≠ ""
          · rw [if_pos filled, Option.bind_some, Option.some.injEq, ResourceKey.mk.injEq]
            constructor
            · rintro ⟨sameGroup, rfl, sameNs, rfl⟩
              exact ⟨rfl, rfl, filled, sameGroup, sameNs⟩
            · rintro ⟨first, second, -, sameGroup, sameNs⟩
              exact ⟨sameGroup, Option.some.inj first, sameNs, Option.some.inj second⟩
          · rw [if_neg filled, Option.bind_none]
            refine iff_of_false (by simp) ?_
            rintro ⟨first, second, some, -⟩
            rw [← Option.some.inj first, ← Option.some.inj second] at some
            exact filled some

theorem exists_metadata_of_key? {d : Document} {k : ResourceKey} (h : d.key? = some k) :
    ∃ fields metadata, d = .object fields ∧
      Assoc.find? "metadata" fields = some (.object metadata) := by
  have name := (key?_eq_some_iff.1 h).2.1
  rw [metadataText?_eq, Option.bind_eq_some_iff] at name
  obtain ⟨v, found, -⟩ := name
  obtain ⟨m, metadata, inside⟩ := Option.bind_eq_some_iff.1 found
  obtain ⟨fields, rfl⟩ := isObject_of_field? metadata
  obtain ⟨inner, rfl⟩ := isObject_of_field? inside
  exact ⟨fields, inner, rfl, metadata⟩

theorem key?_congr {d e : Document}
    (top : ∀ name, name = "kind" ∨ name = "apiVersion" → e.field? name = d.field? name)
    (inner : ∀ name, name = "name" ∨ name = "namespace" →
      e.metadataText? name = d.metadataText? name) :
    e.key? = d.key? := by
  rw [key?, key?, top "kind" (.inl rfl), top "apiVersion" (.inr rfl), inner "name" (.inl rfl),
    inner "namespace" (.inr rfl)]

/-! ## Namespaces -/

theorem key?_withNamespace {d : Document} {k : ResourceKey} (h : d.key? = some k) (ns : String) :
    (d.withNamespace ns).key? = some { k with ns } := by
  obtain ⟨kind, name, filled, group, -⟩ := key?_eq_some_iff.1 h
  obtain ⟨fields, metadata, rfl, inside⟩ := exists_metadata_of_key? h
  have set : ((object fields).withNamespace ns).metadataText? "namespace" = some ns := by
    rw [withNamespace, metadataText?, field?_mapField_self, field?, inside]
    simp [mapFields, field?, Assoc.find?_insert_self, text?]
  refine key?_eq_some_iff.2 ⟨?_, ?_, filled, ?_, ?_⟩
  · rw [withNamespace, field?_mapField_of_ne (by decide)]
    exact kind
  · rw [withNamespace, metadataText?_mapField fun m => Assoc.find?_insert_of_ne (by decide) _ m]
    exact name
  · rw [withNamespace, field?_mapField_of_ne (by decide)]
    exact group
  · rw [set, Option.getD_some]

theorem key?_withoutNamespace {d : Document} (ordered : d.Ordered) {k : ResourceKey}
    (h : d.key? = some k) : d.withoutNamespace.key? = some { k with ns := "" } := by
  obtain ⟨kind, name, filled, group, -⟩ := key?_eq_some_iff.1 h
  obtain ⟨fields, metadata, rfl, inside⟩ := exists_metadata_of_key? h
  have inner := ordered_object_iff.1 ((ordered_object_iff.1 ordered).find? inside)
  have cleared : (object fields).withoutNamespace.metadataText? "namespace" = none := by
    rw [withoutNamespace, metadataText?, field?_mapField_self, field?, inside]
    simp [mapFields, field?, Assoc.find?_erase_self inner.sorted]
  refine key?_eq_some_iff.2 ⟨?_, ?_, filled, ?_, ?_⟩
  · rw [withoutNamespace, field?_mapField_of_ne (by decide)]
    exact kind
  · rw [withoutNamespace, metadataText?_mapField fun m => Assoc.find?_erase_of_ne (by decide) m]
    exact name
  · rw [withoutNamespace, field?_mapField_of_ne (by decide)]
    exact group
  · rw [cleared, Option.getD_none]

theorem annotation?_withNamespace (ns : String) (d : Document) (name : String) :
    (d.withNamespace ns).annotation? name = d.annotation? name :=
  annotation?_mapField (fun m => Assoc.find?_insert_of_ne (by decide) _ m) d name

theorem annotation?_withoutNamespace (d : Document) (name : String) :
    d.withoutNamespace.annotation? name = d.annotation? name :=
  annotation?_mapField (fun m => Assoc.find?_erase_of_ne (by decide) m) d name

theorem isHook_congr {d e : Document} (same : ∀ name, e.annotation? name = d.annotation? name) :
    e.isHook = d.isHook := by
  rw [isHook, isHook, same, same]

theorem isIgnoredExtraneous_congr {d e : Document}
    (same : ∀ name, e.annotation? name = d.annotation? name) :
    e.isIgnoredExtraneous = d.isIgnoredExtraneous := by
  rw [isIgnoredExtraneous, isIgnoredExtraneous, same]

/-! ## Stripping -/

theorem find?_eraseAll_of_notMem {name : String} {names : List String} (h : name ∉ names)
    (m : List (String × Document)) :
    Assoc.find? name (names.foldl (fun m name => Assoc.erase name m) m) = Assoc.find? name m := by
  induction names generalizing m with
  | nil => rfl
  | cons n names ih =>
      rw [List.mem_cons, not_or] at h
      rw [List.foldl_cons, ih h.2, Assoc.find?_erase_of_ne h.1]

theorem find?_eraseAll_of_mem {name : String} {names : List String} (h : name ∈ names)
    {m : List (String × Document)} (sorted : Assoc.Sorted m) :
    Assoc.find? name (names.foldl (fun m name => Assoc.erase name m) m) = none := by
  induction names generalizing m with
  | nil => cases h
  | cons n names ih =>
      rw [List.foldl_cons]
      by_cases later : name ∈ names
      · exact ih later (Assoc.sorted_erase sorted)
      · obtain rfl : name = n := (List.mem_cons.1 h).resolve_right later
        rw [find?_eraseAll_of_notMem later, Assoc.find?_erase_self sorted]

theorem find?_stripAnnotations_of_ne {name : String} (ne : name ≠ "annotations")
    (m : List (String × Document)) :
    Assoc.find? name (stripAnnotations m) = Assoc.find? name m := by
  unfold stripAnnotations
  split
  · split
    · exact Assoc.find?_erase_of_ne ne m
    · exact Assoc.find?_insert_of_ne ne _ m
  · rfl

theorem find?_stripMetadata {name : String} (ne : name ≠ "annotations")
    (other : name ∉ serverMetadataFields) (m : List (String × Document)) :
    Assoc.find? name (stripMetadata m) = Assoc.find? name m := by
  rw [stripMetadata, find?_stripAnnotations_of_ne ne, find?_eraseAll_of_notMem other]

theorem field?_strip {name : String} (ne : name ≠ "metadata") (other : name ≠ "status")
    (d : Document) : d.strip.field? name = d.field? name := by
  rw [strip, field?_mapField_of_ne ne, field?_mapFields fun m => Assoc.find?_erase_of_ne other m]

theorem metadataText?_strip {name : String} (ne : name ≠ "annotations")
    (other : name ∉ serverMetadataFields) (d : Document) :
    d.strip.metadataText? name = d.metadataText? name := by
  rw [strip, metadataText?_mapField (find?_stripMetadata ne other), metadataText?, metadataText?,
    field?_mapFields fun m => Assoc.find?_erase_of_ne (by decide) m]

/-- A manifest is known by the same key without what the server owns. -/
theorem key?_strip (d : Document) : d.strip.key? = d.key? := by
  refine key?_congr (fun name top => ?_) fun name inner => ?_
  · rcases top with rfl | rfl <;> exact field?_strip (by decide) (by decide) d
  · rcases inner with rfl | rfl <;> exact metadataText?_strip (by decide) (by decide) d

/-! ## Order -/

theorem Ordered.mapFields {d : Document} (h : d.Ordered)
    {f : List (String × Document) → List (String × Document)}
    (keeps : ∀ fields, OrderedFields fields → OrderedFields (f fields)) :
    (d.mapFields f).Ordered := by
  cases d with
  | object fields => exact ordered_object_iff.2 (keeps fields (ordered_object_iff.1 h))
  | _ => exact h

theorem Ordered.field? {d v : Document} (h : d.Ordered) {name : String}
    (found : d.field? name = some v) : v.Ordered := by
  obtain ⟨fields, rfl⟩ := isObject_of_field? found
  exact (ordered_object_iff.1 h).find? found

theorem Ordered.mapField {d : Document} (h : d.Ordered) (name : String) {f : Document → Document}
    (keeps : ∀ v, v.Ordered → (f v).Ordered) : (d.mapField name f).Ordered := by
  unfold Document.mapField
  split
  next v found =>
    exact h.mapFields fun fields ordered => ordered.insert name (keeps v (h.field? found))
  next => exact h

theorem Ordered.withNamespace {d : Document} (h : d.Ordered) (ns : String) :
    (d.withNamespace ns).Ordered :=
  h.mapField "metadata" fun _ m =>
    m.mapFields fun _ fields => fields.insert "namespace" (.string ns)

theorem Ordered.withoutNamespace {d : Document} (h : d.Ordered) : d.withoutNamespace.Ordered :=
  h.mapField "metadata" fun _ m => m.mapFields fun _ fields => fields.erase "namespace"

theorem OrderedFields.eraseAll {m : List (String × Document)} (h : OrderedFields m)
    (names : List String) :
    OrderedFields (names.foldl (fun m name => Assoc.erase name m) m) := by
  induction names generalizing m with
  | nil => exact h
  | cons n names ih => exact ih (h.erase n)

theorem OrderedFields.stripMetadata {m : List (String × Document)} (h : OrderedFields m) :
    OrderedFields (stripMetadata m) := by
  have rest := h.eraseAll serverMetadataFields
  unfold Document.stripMetadata
  generalize serverMetadataFields.foldl (fun m name => Assoc.erase name m) m = left at rest ⊢
  unfold stripAnnotations
  split
  next annotations found =>
    have kept := (ordered_object_iff.1 (rest.find? found)).erase lastAppliedAnnotation
    split
    · exact rest.erase "annotations"
    · exact rest.insert "annotations" (ordered_object_iff.2 kept)
  next => exact rest

theorem Ordered.strip {d : Document} (h : d.Ordered) : d.strip.Ordered :=
  (h.mapFields fun _ fields => fields.erase "status").mapField "metadata" fun _ m =>
    m.mapFields fun _ fields => fields.stripMetadata

end ChangeReport.Document
