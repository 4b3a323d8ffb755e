import ChangeReport.Proofs.Document.Fields

/-! Laying one document over another. What a field of the result is follows from the two
fields of that name alone; a patch that is laid over a second time changes nothing; and the
manifest of a resource, laid over a live object of the same key, has this key again. -/
namespace ChangeReport.Document

/-! ## Fields -/

theorem sorted_overlayFields {base : List (String × Document)} (h : Assoc.Sorted base)
    (patch : List (String × Document)) : Assoc.Sorted (overlayFields base patch) := by
  induction patch generalizing base with
  | nil => exact h
  | cons e rest ih =>
      rw [overlayFields]
      exact ih (Assoc.sorted_insert h)

/-- A field of a patch is laid over the field of that name, or stands by itself; a field
that the patch does not have stays as it is. -/
theorem find?_overlayFields {patch : List (String × Document)} (h : Assoc.Sorted patch)
    (base : List (String × Document)) (name : String) :
    Assoc.find? name (overlayFields base patch) =
      ((Assoc.find? name patch).map fun v =>
        (Assoc.find? name base).elim v (·.overlay v)).or (Assoc.find? name base) := by
  induction patch generalizing base with
  | nil => rfl
  | cons e rest ih =>
      obtain ⟨n, v⟩ := e
      obtain ⟨above, tail⟩ := List.pairwise_cons.1 h
      rw [overlayFields, ih tail]
      by_cases hit : compare name n = .eq
      · have same : name = n := Std.LawfulEqCmp.eq_of_compare hit
        subst same
        rw [Assoc.find?_eq_none_of_lt above, Assoc.find?_insert_self, Assoc.find?, if_pos hit]
        cases Assoc.find? name base <;> rfl
      · have ne : name ≠ n := by
          rintro rfl
          exact hit Std.ReflCmp.compare_self
        rw [Assoc.find?_insert_of_ne ne, Assoc.find?, if_neg hit]

theorem overlay_object (base patch : List (String × Document)) :
    (object base).overlay (object patch) = object (overlayFields base patch) := by
  rw [overlay]

theorem text?_overlay (base patch : Document) : (base.overlay patch).text? = patch.text? := by
  cases patch with
  | object fields => cases base <;> simp [overlay, text?]
  | _ => cases base <;> simp [overlay]

/-! ## Laying over twice -/

theorem overlay_self {d : Document} (h : d.Ordered) : d.overlay d = d := by
  induction h with
  | @object fields sorted inner ih =>
      rw [overlay_object]
      congr 1
      refine Assoc.eq_of_find?_eq (sorted_overlayFields sorted fields) sorted fun name => ?_
      rw [find?_overlayFields sorted]
      cases found : Assoc.find? name fields with
      | none => rfl
      | some v =>
          have same : v.overlay v = v := ih (name, v) ((Assoc.mem_iff_find? sorted).2 found)
          simp [same]
  | _ => simp [overlay]

theorem Ordered.overlay {base patch : Document} (hb : base.Ordered) (hp : patch.Ordered) :
    (base.overlay patch).Ordered := by
  induction hp generalizing base with
  | @object fields sorted inner ih =>
      cases hb with
      | @object old oldSorted oldInner =>
          have result := sorted_overlayFields oldSorted fields
          rw [overlay_object]
          refine .object result fun e member => ?_
          have found := (Assoc.mem_iff_find? result).1 member
          rw [find?_overlayFields sorted] at found
          cases new : Assoc.find? e.1 fields with
          | none =>
              rw [new] at found
              exact oldInner e ((Assoc.mem_iff_find? oldSorted).2 found)
          | some v =>
              have there : (e.1, v) ∈ fields := (Assoc.mem_iff_find? sorted).2 new
              cases before : Assoc.find? e.1 old with
              | none =>
                  rw [new, before] at found
                  rw [← Option.some.inj found]
                  exact inner (e.1, v) there
              | some w =>
                  rw [new, before] at found
                  rw [← Option.some.inj found]
                  exact ih (e.1, v) there
                    (oldInner (e.1, w) ((Assoc.mem_iff_find? oldSorted).2 before))
      | _ => simpa [Document.overlay] using Ordered.object sorted inner
  | null => cases hb <;> simpa [Document.overlay] using Ordered.null
  | bool b => cases hb <;> simpa [Document.overlay] using Ordered.bool b
  | number n => cases hb <;> simpa [Document.overlay] using Ordered.number n
  | string s => cases hb <;> simpa [Document.overlay] using Ordered.string s
  | array inner => cases hb <;> simpa [Document.overlay] using Ordered.array inner

theorem overlay_overlay {base patch : Document} (hb : base.Ordered) (hp : patch.Ordered) :
    (base.overlay patch).overlay patch = base.overlay patch := by
  induction hp generalizing base with
  | @object fields sorted inner ih =>
      cases hb with
      | @object old oldSorted oldInner =>
          have once := sorted_overlayFields oldSorted fields
          rw [overlay_object, overlay_object]
          congr 1
          refine Assoc.eq_of_find?_eq (sorted_overlayFields once fields) once fun name => ?_
          rw [find?_overlayFields sorted, find?_overlayFields sorted]
          cases new : Assoc.find? name fields with
          | none => rfl
          | some v =>
              have there : (name, v) ∈ fields := (Assoc.mem_iff_find? sorted).2 new
              cases before : Assoc.find? name old with
              | none => simp [overlay_self (inner (name, v) there)]
              | some w =>
                  have inside := oldInner (name, w) ((Assoc.mem_iff_find? oldSorted).2 before)
                  simp [ih (name, v) there inside]
      | _ => simpa [overlay] using overlay_self (Ordered.object sorted inner)
  | _ => cases hb <;> simp [overlay]

/-! ## Keys -/

theorem text?_find?_overlayFields {patch : List (String × Document)} (h : Assoc.Sorted patch)
    (base : List (String × Document)) (name : String) :
    (Assoc.find? name (overlayFields base patch)).bind text? =
      ((Assoc.find? name patch).map text?).getD ((Assoc.find? name base).bind text?) := by
  rw [find?_overlayFields h]
  cases Assoc.find? name patch with
  | none => rfl
  | some v => cases Assoc.find? name base <;> simp [text?_overlay]

theorem key?_overlay {base patch : Document} (hp : patch.Ordered) {k : ResourceKey}
    (old : base.key? = some k) (new : patch.key? = some k) :
    (base.overlay patch).key? = some k := by
  obtain ⟨b, bm, rfl, oldInside⟩ := exists_metadata_of_key? old
  obtain ⟨p, pm, rfl, newInside⟩ := exists_metadata_of_key? new
  have fields := ordered_object_iff.1 hp
  have metadata := ordered_object_iff.1 (fields.find? newInside)
  obtain ⟨oldKind, oldName, -, oldGroup, oldNs⟩ := key?_eq_some_iff.1 old
  obtain ⟨kind, name, filled, group, ns⟩ := key?_eq_some_iff.1 new
  have merged :
      Assoc.find? "metadata" (overlayFields b p) = some (object (overlayFields bm pm)) := by
    rw [find?_overlayFields fields.sorted, newInside, oldInside]
    simp [overlay_object]
  have text : ∀ n, ((object b).overlay (object p)).metadataText? n =
      ((Assoc.find? n pm).map text?).getD ((Assoc.find? n bm).bind text?) := by
    intro n
    rw [overlay_object, metadataText?, field?, merged, Option.bind_some, field?,
      text?_find?_overlayFields metadata.sorted]
  simp only [metadataText?, field?, oldInside, newInside, Option.bind_some] at oldName oldNs name ns
  refine key?_eq_some_iff.2 ⟨?_, ?_, filled, ?_, ?_⟩
  · rw [overlay_object, field?, text?_find?_overlayFields fields.sorted]
    simp only [field?] at kind
    cases found : Assoc.find? "kind" p with
    | none => simp [found] at kind
    | some v => simpa [found] using kind
  · rw [text]
    cases found : Assoc.find? "name" pm with
    | none => simp [found] at name
    | some v => simpa [found] using name
  · rw [overlay_object, field?, text?_find?_overlayFields fields.sorted]
    simp only [field?] at group oldGroup
    cases found : Assoc.find? "apiVersion" p with
    | none => simpa using oldGroup
    | some v => simpa [found] using group
  · rw [text]
    cases found : Assoc.find? "namespace" pm with
    | none => simpa using oldNs
    | some v => simpa [found] using ns

end ChangeReport.Document
