import ChangeReport.Proofs.Document.Stripping

/-! Documents along paths of field names. What a patch leaves at the end of a path depends on how
far the path leads in the patch: a value that is found there is laid over what was there, a field
that the patch lacks stays as it is, and nothing is left beyond a value that is no object. A
prediction therefore keeps of the live object what its target does not mention, and what belongs
to the server. -/
namespace ChangeReport
namespace Document

/-- How far a path leads in a document: to a value, to an object that lacks the next field, or to
a value in its way that is no object. -/
inductive Walk where
  | found (v : Document)
  | lacking
  | blocked

def walk : List String → Document → Walk
  | [], d => .found d
  | name :: path, .object fields =>
      match Assoc.find? name fields with
      | some v => walk path v
      | none => .lacking
  | _ :: _, _ => .blocked

/-- The value at the end of a path. -/
def valueAt? (path : List String) (d : Document) : Option Document :=
  match d.walk path with
  | .found v => some v
  | .lacking | .blocked => none

/-- What a patch in which a path leads so far leaves at its end, where `below` was before. -/
def Walk.over (below : Option Document) : Walk → Option Document
  | .found v => some (below.elim v (·.overlay v))
  | .lacking => below
  | .blocked => none

theorem Walk.over_none (path : List String) (d : Document) :
    (d.walk path).over none = d.valueAt? path := by
  unfold valueAt?
  cases d.walk path <;> rfl

theorem walk_cons_of_object (name : String) (path : List String) {d : Document}
    (object : d.isObject = true) :
    d.walk (name :: path) = (d.field? name).elim .lacking (·.walk path) := by
  obtain ⟨fields, rfl⟩ := exists_object object
  rw [walk, field?]
  cases Assoc.find? name fields <;> rfl

theorem walk_cons_of_not_object (name : String) (path : List String) {d : Document}
    (plain : d.isObject = false) : d.walk (name :: path) = .blocked := by
  cases d with
  | object fields => cases plain
  | _ => rfl

theorem valueAt?_cons (name : String) (path : List String) (d : Document) :
    d.valueAt? (name :: path) = (d.field? name).bind (·.valueAt? path) := by
  cases kind : d.isObject with
  | true =>
      rw [valueAt?, walk_cons_of_object name path kind]
      cases d.field? name <;> rfl
  | false =>
      rw [valueAt?, walk_cons_of_not_object name path kind]
      cases d with
      | object fields => cases kind
      | _ => rfl

/-! ## Patches -/

/-- The law of paths: how far a path leads in a patch decides what is at its end afterwards. -/
theorem valueAt?_overlay {base patch : Document} (hp : patch.Ordered) (path : List String) :
    (base.overlay patch).valueAt? path = (patch.walk path).over (base.valueAt? path) := by
  induction path generalizing base patch with
  | nil => rfl
  | cons name path ih =>
      by_cases objects : base.isObject = true ∧ patch.isObject = true
      · obtain ⟨object, other⟩ := objects
        rw [valueAt?_cons, valueAt?_cons, field?_overlay hp object other,
          walk_cons_of_object name path other]
        cases given : patch.field? name with
        | none => rfl
        | some v =>
            cases base.field? name with
            | none => exact (Walk.over_none path v).symm
            | some w => exact ih (hp.field? given)
      · rw [overlay_of_not_object objects]
        cases kind : patch.isObject with
        | false => rw [valueAt?, walk_cons_of_not_object name path kind]; rfl
        | true =>
            have none : base.valueAt? (name :: path) = none := by
              have plain : base.isObject = false :=
                Bool.eq_false_iff.2 fun object => objects ⟨object, kind⟩
              rw [valueAt?, walk_cons_of_not_object name path plain]
            rw [none, Walk.over_none]

theorem valueAt?_overlay_of_lacking {base patch : Document} (hp : patch.Ordered)
    {path : List String} (h : patch.walk path = .lacking) :
    (base.overlay patch).valueAt? path = base.valueAt? path := by
  rw [valueAt?_overlay hp, h]
  rfl

/-! ## Stripped targets -/

/-- What a document lacks, a view of it lacks as well. -/
def Thins (view : Document → Option Document) : Prop :=
  ∀ {d e : Document}, d.Ordered → view d = some e → ∀ path, d.walk path = .lacking →
    e.walk path = .lacking

theorem thins_none : Thins fun _ => none := nofun

theorem thins_some : Thins some := by
  intro d e _ kept path lacking
  rwa [← Option.some.inj kept]

namespace Keeps

variable {g : Document → Document} {view : String → Document → Option Document}

theorem walk_cons (h : Keeps g view) {d : Document} (ordered : d.Ordered)
    (object : d.isObject = true) (name : String) (path : List String) :
    (g d).walk (name :: path) = ((d.field? name).bind (view name)).elim .lacking (·.walk path) := by
  rw [walk_cons_of_object name path ((h.isObject d).trans object), h.field? ordered]

theorem thins (h : Keeps g view) (inner : ∀ name, Thins (view name)) :
    Thins fun d => some (g d) := by
  intro d e ordered kept path lacking
  obtain rfl := Option.some.inj kept
  cases path with
  | nil => cases lacking
  | cons name path =>
      cases kind : d.isObject with
      | false => rwa [h.plain kind]
      | true =>
          rw [walk_cons_of_object name path kind] at lacking
          rw [h.walk_cons ordered kind]
          cases given : d.field? name with
          | none => rfl
          | some v =>
              rw [given, Option.elim_some] at lacking
              rw [Option.bind_some]
              cases seen : view name v with
              | none => rfl
              | some w => exact inner name (ordered.field? given) seen path lacking

end Keeps

theorem thins_leftOfMetadata (name : String) : Thins (leftOfMetadata name) := by
  unfold leftOfMetadata
  split
  · exact thins_none
  · split
    · intro d e ordered kept
      have inner : ∀ name, Thins (exceptLastApplied name) := by
        intro name
        unfold exceptLastApplied
        split
        · exact thins_none
        · exact thins_some
      obtain ⟨rfl, -⟩ := leftOfAnnotations_eq_some.1 kept
      exact keeps_withoutLastApplied.thins inner ordered rfl
    · exact thins_some

theorem thins_leftOf (name : String) : Thins (leftOf name) := by
  unfold leftOf
  split
  · exact thins_none
  · split
    · exact keeps_stripMetadata.thins thins_leftOfMetadata
    · exact thins_some

/-- A stripped document lacks what the whole one lacks. -/
theorem walk_strip_of_lacking {d : Document} (h : d.Ordered) {path : List String}
    (lacking : d.walk path = .lacking) : d.strip.walk path = .lacking :=
  keeps_strip.thins thins_leftOf h rfl path lacking

section

variable {d : Document} (h : d.Ordered) (object : d.isObject = true)

include h object

theorem walk_strip_status (path : List String) : d.strip.walk ("status" :: path) = .lacking := by
  rw [keeps_strip.walk_cons h object, leftOf, if_pos rfl]
  cases d.field? "status" <;> rfl

variable (inner : ∀ m, d.field? "metadata" = some m → m.isObject = true)

include inner

theorem walk_strip_metadata (name : String) (path : List String) :
    d.strip.walk ("metadata" :: name :: path) =
      (((d.field? "metadata").bind (·.field? name)).bind (leftOfMetadata name)).elim .lacking
        (·.walk path) := by
  rw [keeps_strip.walk_cons h object, leftOf, if_neg (by decide), if_pos rfl]
  cases given : d.field? "metadata" with
  | none => rfl
  | some m => exact keeps_stripMetadata.walk_cons (h.field? given) (inner m given) name path

theorem walk_strip_server {name : String} (server : name ∈ serverMetadataFields)
    (path : List String) : d.strip.walk ("metadata" :: name :: path) = .lacking := by
  rw [walk_strip_metadata h object inner, leftOfMetadata, if_pos server]
  cases (d.field? "metadata").bind (·.field? name) <;> rfl

theorem walk_strip_lastApplied
    (annotated : ∀ a, d.valueAt? ["metadata", "annotations"] = some a → a.isObject = true)
    (path : List String) :
    d.strip.walk ("metadata" :: "annotations" :: lastAppliedAnnotation :: path) = .lacking := by
  have place : d.valueAt? ["metadata", "annotations"] =
      (d.field? "metadata").bind (·.field? "annotations") := by
    rw [valueAt?_cons]
    refine congrArg _ (funext fun m => ?_)
    rw [valueAt?_cons]
    exact Option.bind_fun_some _
  rw [walk_strip_metadata h object inner, ← place, leftOfMetadata, if_neg (by decide), if_pos rfl]
  cases given : d.valueAt? ["metadata", "annotations"] with
  | none => rfl
  | some a =>
      rw [Option.bind_some]
      cases left : leftOfAnnotations a with
      | none => rfl
      | some e =>
          obtain ⟨m, metadata, found⟩ := Option.bind_eq_some_iff.1 (place.symm.trans given)
          obtain ⟨rfl, -⟩ := leftOfAnnotations_eq_some.1 left
          rw [Option.elim_some, keeps_withoutLastApplied.walk_cons
            ((h.field? metadata).field? found) (annotated a given), exceptLastApplied, if_pos rfl]
          cases a.field? lastAppliedAnnotation <;> rfl

end

/-! ## Predictions -/

/-- What a prediction keeps of the live object: its status and what the server holds in its
metadata, the manifest that was applied last unless the annotations of the target are no object,
and at any depth every field that the target does not mention. -/
structure Preserved (live target predicted : Document) : Prop where
  status : ∀ path, predicted.valueAt? ("status" :: path) = live.valueAt? ("status" :: path)
  server : ∀ name ∈ serverMetadataFields, ∀ path,
    predicted.valueAt? ("metadata" :: name :: path) = live.valueAt? ("metadata" :: name :: path)
  lastApplied : (∀ a, target.valueAt? ["metadata", "annotations"] = some a → a.isObject = true) →
    ∀ path, predicted.valueAt? ("metadata" :: "annotations" :: lastAppliedAnnotation :: path) =
      live.valueAt? ("metadata" :: "annotations" :: lastAppliedAnnotation :: path)
  unmentioned : ∀ path, target.walk path = .lacking →
    predicted.valueAt? path = live.valueAt? path

theorem preserved_predict {target : Document} (live : Document) (ht : target.Ordered)
    (object : target.isObject = true)
    (metadata : ∀ m, target.field? "metadata" = some m → m.isObject = true) :
    Preserved live target (predict (some live) (some target)) where
  status path := valueAt?_overlay_of_lacking ht.strip (walk_strip_status ht object path)
  server _ server path :=
    valueAt?_overlay_of_lacking ht.strip (walk_strip_server ht object metadata server path)
  lastApplied annotated path :=
    valueAt?_overlay_of_lacking ht.strip (walk_strip_lastApplied ht object metadata annotated path)
  unmentioned _ lacking := valueAt?_overlay_of_lacking ht.strip (walk_strip_of_lacking ht lacking)

end Document

open Document in
/-- What an overlay has at the end of each path: a value of the patch that is no object, what the
base has where the patch lacks a field, and nothing beyond a value of the patch that is no object.
A second overlay of the same patch changes nothing, nor does a document laid over itself. So the
prediction of the built-in differ for a target whose metadata, if it has any, are an object keeps
of the live object what is not the target's. -/
theorem overlay_follows_paths {base patch : Document} (hb : base.Ordered) (hp : patch.Ordered) :
    (∀ path v, patch.walk path = .found v → v.isObject = false →
      (base.overlay patch).valueAt? path = some v) ∧
    (∀ path, patch.walk path = .lacking →
      (base.overlay patch).valueAt? path = base.valueAt? path) ∧
    (∀ path, patch.walk path = .blocked → (base.overlay patch).valueAt? path = none) ∧
    (base.overlay patch).overlay patch = base.overlay patch ∧ base.overlay base = base ∧
    ∀ live target : Document, target.Ordered → target.isObject = true →
      (∀ m, target.field? "metadata" = some m → m.isObject = true) →
      ∃ v, overlayDiffer (some live) (some target) = .ok v ∧
        v.predicted = Json.encode (predict (some live) (some target)) ∧
        Preserved live target (predict (some live) (some target)) := by
  refine ⟨fun path v found plain => ?_, fun _ => valueAt?_overlay_of_lacking hp,
    fun path blocked => ?_, overlay_overlay hb hp, overlay_self hb,
    fun live target ht object metadata => ⟨_, rfl, rfl, preserved_predict live ht object metadata⟩⟩
  · rw [valueAt?_overlay hp, found, Walk.over]
    cases base.valueAt? path with
    | none => rfl
    | some w => exact congrArg some (overlay_of_not_object (by simp [plain]))
  · rw [valueAt?_overlay hp, blocked]
    rfl

/-- A target that mentions a color and an annotation of its own. -/
def annotatedWeb : Document :=
  .object [("data", .object [("color", .string "blue")]), ("kind", .string "ConfigMap"),
    ("metadata", .object [("annotations", .object [("team", .string "shop")]),
      ("name", .string "web")])]

theorem overlay_follows_paths_web :
    (appliedWeb.Ordered ∧ annotatedWeb.Ordered) ∧
      (appliedWeb.overlay annotatedWeb).valueAt? ["data", "color"] = some (.string "blue") ∧
      (appliedWeb.overlay annotatedWeb).valueAt? ["data", "local"] = some (.string "1") ∧
      (appliedWeb.overlay annotatedWeb).valueAt? ["kind", "name"] = none ∧
      ∃ v, overlayDiffer (some appliedWeb) (some annotatedWeb) = .ok v ∧
        v.predicted = Json.encode (predict (some appliedWeb) (some annotatedWeb)) ∧
        (predict (some appliedWeb) (some annotatedWeb)).valueAt?
          ["metadata", "annotations", Document.lastAppliedAnnotation] = some (.string "7") := by
  have hb : appliedWeb.Ordered := by decide +kernel
  have hp : annotatedWeb.Ordered := by decide +kernel
  obtain ⟨found, lacking, blocked, -, -, predicted⟩ := overlay_follows_paths hb hp
  obtain ⟨v, verdict, text, preserved⟩ := predicted appliedWeb annotatedWeb hp rfl
    fun m metadata => by
      obtain rfl := Option.some.inj metadata
      rfl
  refine ⟨⟨hb, hp⟩, found _ _ rfl rfl, lacking _ rfl, blocked _ rfl, v, verdict, text, ?_⟩
  refine preserved.lastApplied (fun a annotations => ?_) []
  obtain rfl := Option.some.inj annotations
  rfl

end ChangeReport
