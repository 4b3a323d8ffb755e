import ChangeReport.Comparison
import ChangeReport.Proofs.Document.Containment

/-! Predictions without the fields of the server. A stripped target may be laid over a live
object before or after that is stripped, with the same result, so that a verdict depends on the
stripped documents alone: the live object is modified unless it contains the target. The fields
of the server are taken away at three depths, and annotations of which nothing is left go as a
whole, so the argument is made for views: what is kept of the value of a field, if anything. -/
namespace ChangeReport.Document

/-! ## Views -/

/-- A view keeps something of a document, or nothing. What it has kept it keeps again, by itself
and laid over any document. -/
structure Transparent (view : Document → Option Document) : Prop where
  alone : ∀ {d e : Document}, d.Ordered → view d = some e → view e = some e
  laid : ∀ {d e b : Document}, d.Ordered → b.Ordered → view d = some e →
    view (b.overlay e) = some ((view b).elim e (·.overlay e))

theorem transparent_none : Transparent fun _ => none where
  alone _ kept := nomatch kept
  laid _ _ kept := nomatch kept

theorem transparent_some : Transparent some where
  alone _ _ := rfl
  laid _ _ _ := rfl

/-- What `g` keeps of an object is what `view` keeps of its fields; anything else it keeps as it
is. -/
structure Keeps (g : Document → Document) (view : String → Document → Option Document) :
    Prop where
  ordered : ∀ {d : Document}, d.Ordered → (g d).Ordered
  isObject : ∀ d, (g d).isObject = d.isObject
  plain : ∀ {d : Document}, d.isObject = false → g d = d
  field? : ∀ {d : Document}, d.Ordered → ∀ name,
    (g d).field? name = (d.field? name).bind (view name)

theorem keeps_mapFields {f : List (String × Document) → List (String × Document)}
    {view : String → Document → Option Document}
    (ordered : ∀ {m}, OrderedFields m → OrderedFields (f m))
    (find? : ∀ {m}, OrderedFields m → ∀ name,
      Assoc.find? name (f m) = (Assoc.find? name m).bind (view name)) :
    Keeps (mapFields f) view where
  ordered h := h.mapFields fun _ => ordered
  isObject d := by cases d <;> rfl
  plain {d} h := by
    cases d with
    | object fields => cases h
    | _ => rfl
  field? {d} h name := by
    cases d with
    | object m => exact find? (ordered_object_iff.1 h) name
    | _ => rfl

/-- Objects are known by their fields. -/
theorem eq_of_field?_eq {d e : Document} (hd : d.Ordered) (he : e.Ordered)
    (object : d.isObject = true) (other : e.isObject = true)
    (h : ∀ name, d.field? name = e.field? name) : d = e := by
  obtain ⟨a, rfl⟩ := exists_object object
  obtain ⟨b, rfl⟩ := exists_object other
  congr 1
  exact Assoc.eq_of_find?_eq (ordered_object_iff.1 hd).sorted (ordered_object_iff.1 he).sorted h

theorem field?_overlay {d p : Document} (hp : p.Ordered) (object : d.isObject = true)
    (other : p.isObject = true) (name : String) :
    (d.overlay p).field? name =
      ((p.field? name).map fun v => (d.field? name).elim v (·.overlay v)).or (d.field? name) := by
  obtain ⟨fields, rfl⟩ := exists_object object
  obtain ⟨patch, rfl⟩ := exists_object other
  rw [overlay_object]
  exact find?_overlayFields (ordered_object_iff.1 hp).sorted fields name

theorem isObject_overlay (d p : Document) : (d.overlay p).isObject = p.isObject := by
  cases p <;> cases d <;> simp [overlay, isObject]

namespace Keeps

variable {g : Document → Document} {view : String → Document → Option Document}

theorem idem (h : Keeps g view) (inner : ∀ name, Transparent (view name)) {d : Document}
    (ordered : d.Ordered) : g (g d) = g d := by
  cases kind : d.isObject with
  | false => rw [h.plain kind, h.plain kind]
  | true =>
      have kept := (h.isObject d).trans kind
      refine eq_of_field?_eq (h.ordered (h.ordered ordered)) (h.ordered ordered)
        ((h.isObject _).trans kept) kept fun name => ?_
      rw [h.field? (h.ordered ordered)]
      cases shown : (g d).field? name with
      | none => rfl
      | some v =>
          obtain ⟨w, there, sees⟩ :=
            Option.bind_eq_some_iff.1 ((h.field? ordered name).symm.trans shown)
          exact (inner name).alone (ordered.field? there) sees

/-- What is kept of a document may be laid over another one before or after something is kept of
that one. -/
theorem overlay (h : Keeps g view) (inner : ∀ name, Transparent (view name)) {d b : Document}
    (hd : d.Ordered) (hb : b.Ordered) : g (b.overlay (g d)) = (g b).overlay (g d) := by
  by_cases objects : b.isObject = true ∧ (g d).isObject = true
  · obtain ⟨object, other⟩ := objects
    have kept := (h.isObject b).trans object
    refine eq_of_field?_eq (h.ordered (hb.overlay (h.ordered hd)))
      ((h.ordered hb).overlay (h.ordered hd)) ?_ ?_ fun name => ?_
    · rw [h.isObject, isObject_overlay, other]
    · rw [isObject_overlay, other]
    · rw [h.field? (hb.overlay (h.ordered hd)), field?_overlay (h.ordered hd) object other,
        field?_overlay (h.ordered hd) kept other, h.field? hb]
      cases shown : (g d).field? name with
      | none => simp
      | some v =>
          obtain ⟨w, there, sees⟩ := Option.bind_eq_some_iff.1 ((h.field? hd name).symm.trans shown)
          cases below : b.field? name with
          | none => simpa using (inner name).alone (hd.field? there) sees
          | some u => simpa using (inner name).laid (hd.field? there) (hb.field? below) sees
  · have kept : ¬ ((g b).isObject = true ∧ (g d).isObject = true) := by rwa [h.isObject b]
    rw [overlay_of_not_object objects, overlay_of_not_object kept, h.idem inner hd]

/-- Views of the fields of an object that are transparent make a transparent view of it. -/
theorem transparent (h : Keeps g view) (inner : ∀ name, Transparent (view name)) :
    Transparent fun d => some (g d) where
  alone hd kept := by rw [← Option.some.inj kept, h.idem inner hd]
  laid hd hb kept := by
    rw [← Option.some.inj kept, h.overlay inner hd hb]
    rfl

end Keeps

/-! ## What is kept without the fields of the server -/

def withoutLastApplied : Document → Document := mapFields (Assoc.erase lastAppliedAnnotation)

def exceptLastApplied (name : String) : Document → Option Document :=
  if name = lastAppliedAnnotation then fun _ => none else some

theorem keeps_withoutLastApplied : Keeps withoutLastApplied exceptLastApplied := by
  refine keeps_mapFields (fun h => h.erase _) fun {m} h name => ?_
  unfold exceptLastApplied
  by_cases last : name = lastAppliedAnnotation
  · subst last
    simp [Assoc.find?_erase_self h.sorted]
  · simp [last, Assoc.find?_erase_of_ne last]

theorem transparent_exceptLastApplied (name : String) : Transparent (exceptLastApplied name) := by
  unfold exceptLastApplied
  split
  · exact transparent_none
  · exact transparent_some

/-- What is left of annotations without the last applied manifest, if anything. -/
def leftOfAnnotations (d : Document) : Option Document :=
  match withoutLastApplied d with
  | object [] => none
  | rest => some rest

theorem leftOfAnnotations_eq_some {d e : Document} :
    leftOfAnnotations d = some e ↔ withoutLastApplied d = e ∧ e ≠ object [] := by
  unfold leftOfAnnotations
  split
  next empty =>
    rw [empty]
    exact ⟨nofun, fun h => absurd h.1.symm h.2⟩
  next other =>
    rw [Option.some.injEq]
    exact ⟨fun same => ⟨same, same ▸ other⟩, And.left⟩

theorem leftOfAnnotations_eq_none {d : Document} :
    leftOfAnnotations d = none ↔ withoutLastApplied d = object [] := by
  unfold leftOfAnnotations
  split
  next empty => simp [empty]
  next other => exact ⟨nofun, fun empty => absurd empty other⟩

theorem overlay_empty {p : Document} (hp : p.Ordered) : (object []).overlay p = p := by
  cases p with
  | object fields =>
      have sorted := (ordered_object_iff.1 hp).sorted
      rw [overlay_object]
      congr 1
      refine Assoc.eq_of_find?_eq (sorted_overlayFields .nil fields) sorted fun name => ?_
      rw [find?_overlayFields sorted]
      cases Assoc.find? name fields <;> rfl
  | _ => simp [overlay]

/-- A patch that is not empty leaves no document empty. -/
theorem overlay_ne_empty {d p : Document} (hp : p.Ordered) (ne : p ≠ object []) :
    d.overlay p ≠ object [] := by
  intro empty
  by_cases objects : d.isObject = true ∧ p.isObject = true
  · refine ne (eq_of_field?_eq hp (.object .nil nofun) objects.2 rfl fun name => ?_)
    cases given : p.field? name with
    | none => rfl
    | some v =>
        have field := field?_overlay hp objects.1 objects.2 name
        rw [empty, given] at field
        cases field
  · exact ne ((overlay_of_not_object objects).symm.trans empty)

theorem transparent_leftOfAnnotations : Transparent leftOfAnnotations where
  alone {d e} hd kept := by
    obtain ⟨rfl, ne⟩ := leftOfAnnotations_eq_some.1 kept
    exact leftOfAnnotations_eq_some.2
      ⟨keeps_withoutLastApplied.idem transparent_exceptLastApplied hd, ne⟩
  laid {d e b} hd hb kept := by
    obtain ⟨rfl, ne⟩ := leftOfAnnotations_eq_some.1 kept
    have he := keeps_withoutLastApplied.ordered hd
    refine leftOfAnnotations_eq_some.2 ⟨?_, ?_⟩
    · rw [keeps_withoutLastApplied.overlay transparent_exceptLastApplied hd hb]
      cases below : leftOfAnnotations b with
      | none => rw [leftOfAnnotations_eq_none.1 below, overlay_empty he, Option.elim_none]
      | some c => rw [(leftOfAnnotations_eq_some.1 below).1, Option.elim_some]
    · cases leftOfAnnotations b with
      | none => exact ne
      | some c => exact overlay_ne_empty he ne

theorem find?_stripAnnotations_self {m : List (String × Document)} (h : Assoc.Sorted m) :
    Assoc.find? "annotations" (stripAnnotations m) =
      (Assoc.find? "annotations" m).bind leftOfAnnotations := by
  unfold stripAnnotations
  split
  next annotations found =>
    rw [found, Option.bind_some, leftOfAnnotations, withoutLastApplied, mapFields]
    split
    next empty => rw [empty, Assoc.find?_erase_self h]
    next kept some =>
      rw [Assoc.find?_insert_self]
      split
      next empty => exact absurd (object.inj empty) some
      next => rfl
  next other =>
    cases found : Assoc.find? "annotations" m with
    | none => rfl
    | some v =>
        cases v with
        | object annotations => exact absurd found (other annotations)
        | _ => rfl

/-- What is left of the fields of metadata. -/
def leftOfMetadata (name : String) : Document → Option Document :=
  if name ∈ serverMetadataFields then fun _ => none
  else if name = "annotations" then leftOfAnnotations
  else some

theorem keeps_stripMetadata : Keeps (mapFields stripMetadata) leftOfMetadata := by
  refine keeps_mapFields OrderedFields.stripMetadata fun {m} h name => ?_
  unfold leftOfMetadata
  have sorted := (h.eraseAll serverMetadataFields).sorted
  by_cases server : name ∈ serverMetadataFields
  · have ne : name ≠ "annotations" := by
      rintro rfl
      exact absurd server (by decide)
    rw [stripMetadata, find?_stripAnnotations_of_ne ne, find?_eraseAll_of_mem server h.sorted,
      if_pos server]
    simp
  · rw [if_neg server]
    by_cases annotations : name = "annotations"
    · subst annotations
      rw [if_pos rfl, stripMetadata, find?_stripAnnotations_self sorted,
        find?_eraseAll_of_notMem server]
    · rw [if_neg annotations, find?_stripMetadata annotations server, Option.bind_fun_some]

theorem transparent_leftOfMetadata (name : String) : Transparent (leftOfMetadata name) := by
  unfold leftOfMetadata
  split
  · exact transparent_none
  · split
    · exact transparent_leftOfAnnotations
    · exact transparent_some

/-- What is left of the fields of a manifest. -/
def leftOf (name : String) : Document → Option Document :=
  if name = "status" then fun _ => none
  else if name = "metadata" then fun d => some (d.mapFields stripMetadata)
  else some

theorem keeps_strip : Keeps strip leftOf where
  ordered := Ordered.strip
  isObject d := by
    cases d with
    | object fields =>
        unfold strip mapField
        split <;> rfl
    | _ => rfl
  plain {d} h := by
    cases d with
    | object fields => cases h
    | _ => rfl
  field? {d} h name := by
    unfold leftOf
    by_cases status : name = "status"
    · subst status
      have gone : (d.mapFields (Assoc.erase "status")).field? "status" = none := by
        cases d with
        | object fields => exact Assoc.find?_erase_self (ordered_object_iff.1 h).sorted
        | _ => rfl
      rw [strip, field?_mapField_of_ne (by decide), gone]
      simp
    · rw [if_neg status]
      by_cases metadata : name = "metadata"
      · subst metadata
        rw [strip, field?_mapField_self, field?_mapFields fun m =>
          Assoc.find?_erase_of_ne (by decide) m, if_pos rfl, Option.map_eq_bind]
        rfl
      · rw [if_neg metadata, field?_strip metadata status, Option.bind_fun_some]

theorem transparent_leftOf (name : String) : Transparent (leftOf name) := by
  unfold leftOf
  split
  · exact transparent_none
  · split
    · exact keeps_stripMetadata.transparent transparent_leftOfMetadata
    · exact transparent_some

/-! ## Stripped documents -/

/-- A stripped document is laid over a stripped document as it is over the whole one. -/
theorem strip_overlay_strip {d p : Document} (hd : d.Ordered) (hp : p.Ordered) :
    (d.overlay p.strip).strip = d.strip.overlay p.strip :=
  keeps_strip.overlay transparent_leftOf hp hd

end Document

theorem changes_eq_not_contained {live target : Document} (hl : live.Ordered)
    (ht : target.Ordered) :
    changes (some live) (some target) = !target.strip.contained live.strip := by
  rw [changes, Document.strip_overlay_strip hl ht]
  congr 1
  exact Bool.eq_iff_iff.2 (Document.same_overlay_iff hl.strip ht.strip)

/-- The built-in differ finds a live object unmodified exactly if the object contains its target,
the fields of the server aside. The prediction may be stripped before or after the target is laid
over it, so that documents that are the same when stripped have the same verdict. -/
theorem unmodified_iff_contained {live target : Document} (hl : live.Ordered)
    (ht : target.Ordered) :
    ∃ v, overlayDiffer (some live) (some target) = .ok v ∧
      (v.modified = false ↔ target.strip.contained live.strip = true) ∧
      (live.overlay target.strip).strip = live.strip.overlay target.strip ∧
      ∀ live' target' : Document, live'.Ordered → target'.Ordered →
        live.strip.same live'.strip = true → target.strip.same target'.strip = true →
        ∃ w, overlayDiffer (some live') (some target') = .ok w ∧ w.modified = v.modified := by
  refine ⟨_, rfl, ?_, Document.strip_overlay_strip hl ht, ?_⟩
  · rw [overlayVerdict, changes_eq_not_contained hl ht]
    exact Bool.not_eq_eq_eq_not
  · intro live' target' hl' ht' same_live same_target
    refine ⟨_, rfl, ?_⟩
    rw [overlayVerdict, overlayVerdict, changes_eq_not_contained hl ht,
      changes_eq_not_contained hl' ht']
    refine congrArg (!·) (Bool.eq_iff_iff.2 ⟨fun inside => ?_, fun inside => ?_⟩)
    · exact Document.contained_of_same ht'.strip ht.strip (Document.same_symm same_target)
        (Document.same_symm same_live) inside
    · exact Document.contained_of_same ht.strip ht'.strip same_target same_live inside

/-- A live map with a default, with a status, and with no annotation but the manifest that was
applied last. -/
def appliedWeb : Document :=
  .object [("data", .object [("color", .string "red"), ("local", .string "1")]),
    ("kind", .string "ConfigMap"),
    ("metadata", .object [
      ("annotations", .object [(Document.lastAppliedAnnotation, .string "7")]),
      ("name", .string "web"), ("uid", .string "7")]),
    ("status", .string "ready")]

/-- Its target, with annotations that are empty. -/
def targetWeb : Document :=
  .object [("data", .object [("color", .string "red")]), ("kind", .string "ConfigMap"),
    ("metadata", .object [("annotations", .object []), ("name", .string "web")])]

theorem unmodified_iff_contained_web :
    (appliedWeb.Ordered ∧ targetWeb.Ordered) ∧
      ∃ v, overlayDiffer (some appliedWeb) (some targetWeb) = .ok v ∧ v.modified = false := by
  have hl : appliedWeb.Ordered := by decide +kernel
  have ht : targetWeb.Ordered := by decide +kernel
  obtain ⟨v, verdict, iff, -⟩ := unmodified_iff_contained hl ht
  exact ⟨⟨hl, ht⟩, v, verdict, iff.2 (by decide +kernel)⟩

end ChangeReport
