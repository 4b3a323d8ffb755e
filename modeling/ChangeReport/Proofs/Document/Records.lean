import ChangeReport.Child
import ChangeReport.Proofs.Document.Fields

/-! Documents read as records. What is read from an object follows from the fields that are asked
for, so an application is read from a manifest with or without what the server owns. -/
namespace ChangeReport

/-- What an object says about a field. -/
def Slot.ofField (name : String) (fields : List (String × Document)) : Slot :=
  match Assoc.find? name fields with
  | some d => .value (Tree.ofDocument d)
  | none => .absent

namespace Record

/-- The record of these names in an object. -/
def ofFields (names : List String) (fields : List (String × Document)) : Record :=
  ⟨names.map fun name => (name, .ofField name fields)⟩

theorem filter_ofFields {fields : List (String × Document)} (sorted : Assoc.Sorted fields)
    (name : String) :
    (Tree.ofFields fields).filter (fun m => m.1 = some name) =
      ((Assoc.find? name fields).map fun d => (some name, Tree.ofDocument d)).toList := by
  induction fields with
  | nil => rfl
  | cons e rest ih =>
      obtain ⟨key, d⟩ := e
      obtain ⟨above, tail⟩ := List.pairwise_cons.1 sorted
      rw [Tree.ofFields, Assoc.find?]
      by_cases hit : compare name key = .eq
      · obtain rfl : name = key := Std.LawfulEqCmp.eq_of_compare hit
        have others := ih tail
        rw [Assoc.find?_eq_none_of_lt above] at others
        rw [if_pos hit, List.filter_cons_of_pos (by simp), others]
        rfl
      · have other : key ≠ name := by
          rintro rfl
          exact hit Std.ReflCmp.compare_self
        rw [if_neg hit, List.filter_cons_of_neg (by simpa using other), ih tail]

theorem member?_ofFields {fields : List (String × Document)} (sorted : Assoc.Sorted fields)
    (name : String) : member? name (Tree.ofFields fields) = some (.ofField name fields) := by
  rw [member?, filter_ofFields sorted, Slot.ofField]
  cases Assoc.find? name fields <;> rfl

theorem any_ofFields (fields : List (String × Document)) :
    (Tree.ofFields fields).any (fun m => m.1.isNone) = false := by
  induction fields with
  | nil => rfl
  | cons e rest ih => simpa [Tree.ofFields] using ih

theorem read?_object {fields : List (String × Document)} (sorted : Assoc.Sorted fields)
    (names : List String) (loose : Bool) :
    read? names loose (Tree.ofDocument (.object fields)) = some (ofFields names fields) := by
  have all : names.mapM (fun name => (member? name (Tree.ofFields fields)).map (name, ·)) =
      some (names.map fun name => (name, .ofField name fields)) := by
    induction names with
    | nil => rfl
    | cons name names ih =>
        rw [List.mapM_cons, member?_ofFields sorted, ih]
        rfl
  rw [Tree.ofDocument, read?, any_ofFields, if_neg Bool.false_ne_true, all]
  rfl

theorem slot_ofFields {names : List String} {name : String} (asked : name ∈ names)
    (fields : List (String × Document)) :
    (ofFields names fields).slot name = .ofField name fields := by
  rw [slot, ofFields]
  induction names with
  | nil => cases asked
  | cons n names ih =>
      rw [List.map_cons, List.lookup_cons]
      by_cases same : name = n
      · simp [same]
      · rw [beq_false_of_ne same]
        exact ih ((List.mem_cons.1 asked).resolve_left same)

section

variable {α : Type} {names : List String} {name : String} (asked : name ∈ names)
  (fields : List (String × Document)) (read : Tree → Option α)
include asked

theorem required_ofFields :
    (ofFields names fields).required name read =
      (Assoc.find? name fields).bind fun d => read (Tree.ofDocument d) := by
  rw [required, slot_ofFields asked, Slot.ofField]
  cases Assoc.find? name fields <;> rfl

theorem orElse_ofFields (default : α) :
    (ofFields names fields).orElse name default read =
      (Assoc.find? name fields).elim (some default) fun d => read (Tree.ofDocument d) := by
  rw [orElse, slot_ofFields asked, Slot.ofField]
  cases Assoc.find? name fields <;> rfl

end

end Record

namespace ChildApplication
open Document

theorem readMetadata_strip {d : Document} (h : d.Ordered) :
    readMetadata (Tree.ofDocument (d.mapFields stripMetadata)) =
      readMetadata (Tree.ofDocument d) := by
  cases d with
  | object fields =>
      have ordered := ordered_object_iff.1 h
      rw [readMetadata, readMetadata, mapFields, Record.read?_object ordered.sorted,
        Record.read?_object ordered.stripMetadata.sorted]
      simp only [Option.bind_eq_bind, Option.bind_some]
      rw [Record.required_ofFields (by decide), Record.required_ofFields (by decide),
        Record.orElse_ofFields (by decide), Record.orElse_ofFields (by decide),
        find?_stripMetadata (by decide) (by decide), find?_stripMetadata (by decide) (by decide)]
  | _ => rfl

/-- The application of an object, by the fields that it is read from. -/
theorem ofDocument?_object {fields : List (String × Document)} (sorted : Assoc.Sorted fields) :
    ofDocument? (object fields) = do
      let apiVersion ← (Assoc.find? "apiVersion" fields).bind fun d => (Tree.ofDocument d).text?
      let kind ← (Assoc.find? "kind" fields).bind fun d => (Tree.ofDocument d).text?
      let (name, ns) ← (Assoc.find? "metadata" fields).bind fun d =>
        readMetadata (Tree.ofDocument d)
      let (destinationNs, source) ← (Assoc.find? "spec" fields).bind fun d =>
        readSpec (Tree.ofDocument d)
      guard (groupOf apiVersion = applicationGroup ∧ kind = applicationKind)
      return ⟨name, ns, destinationNs, source.bind (·.repoUrl), source.bind (·.path),
        source.bind (·.targetRevision)⟩ := by
  rw [ofDocument?, Record.read?_object sorted]
  simp only [Option.bind_eq_bind, Option.bind_some]
  rw [Record.required_ofFields (by decide), Record.required_ofFields (by decide),
    Record.required_ofFields (by decide), Record.required_ofFields (by decide)]

theorem exists_strip_object (fields : List (String × Document)) :
    ∃ stripped, (object fields).strip = object stripped := by
  unfold strip mapField
  split <;> exact ⟨_, rfl⟩

theorem field?_strip_metadata (d : Document) :
    d.strip.field? "metadata" = (d.field? "metadata").map (mapFields stripMetadata) := by
  rw [strip, field?_mapField_self, field?_mapFields fun m => Assoc.find?_erase_of_ne (by decide) m]

/-- The same application is read from a manifest without what the server owns. -/
theorem ofDocument?_strip {d : Document} (h : d.Ordered) :
    ofDocument? d.strip = ofDocument? d := by
  cases d with
  | object fields =>
      obtain ⟨stripped, eq⟩ := exists_strip_object fields
      have ordered := ordered_object_iff.1 h
      have again := h.strip
      rw [eq, ordered_object_iff] at again
      have same : ∀ name, name ≠ "metadata" → name ≠ "status" →
          Assoc.find? name stripped = Assoc.find? name fields := by
        intro name ne other
        have kept := field?_strip ne other (object fields)
        rwa [eq] at kept
      have metadata : Assoc.find? "metadata" stripped =
          (Assoc.find? "metadata" fields).map (mapFields stripMetadata) := by
        have kept := field?_strip_metadata (object fields)
        rwa [eq] at kept
      have inner : (Assoc.find? "metadata" stripped).bind (fun d => readMetadata (.ofDocument d)) =
          (Assoc.find? "metadata" fields).bind fun d => readMetadata (.ofDocument d) := by
        rw [metadata]
        cases found : Assoc.find? "metadata" fields with
        | none => rfl
        | some m => exact readMetadata_strip (ordered.find? found)
      rw [eq, ofDocument?_object again.sorted, ofDocument?_object ordered.sorted, inner,
        same _ (by decide) (by decide), same _ (by decide) (by decide),
        same _ (by decide) (by decide)]
  | _ => rfl

end ChildApplication
end ChangeReport
