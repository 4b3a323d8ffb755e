import ChangeReport.Proofs.Document.Overlay

/-! Documents that say no more than others. A document is contained in another one exactly if
laying it over that one changes nothing, and documents that are the same contain the same and
are contained in the same. -/
namespace ChangeReport.Document

theorem exists_object {d : Document} (h : d.isObject = true) : ∃ fields, d = object fields := by
  cases d with
  | object fields => exact ⟨fields, rfl⟩
  | _ => cases h

/-! ## Sameness -/

mutual
theorem same_symm : {d e : Document} → d.same e = true → e.same d = true
  | null, null, _ => rfl
  | bool a, bool b, h => Bool.beq_comm.trans h
  | number m, number n, h => (n.same_comm m).trans h
  | string s, string t, h => BEq.comm.trans h
  | array a, array b, h => by
      rw [same] at h ⊢
      exact sameItems_symm h
  | object a, object b, h => by
      rw [same] at h ⊢
      exact sameFields_symm h

theorem sameItems_symm : {a b : List Document} → sameItems a b = true → sameItems b a = true
  | [], [], _ => rfl
  | _ :: _, _ :: _, h => by
      simp only [sameItems, Bool.and_eq_true] at h ⊢
      exact ⟨same_symm h.1, sameItems_symm h.2⟩

theorem sameFields_symm : {a b : List (String × Document)} → sameFields a b = true →
    sameFields b a = true
  | [], [], _ => rfl
  | (_, _) :: _, (_, _) :: _, h => by
      simp only [sameFields, Bool.and_eq_true, beq_iff_eq] at h ⊢
      exact ⟨⟨h.1.1.symm, same_symm h.1.2⟩, sameFields_symm h.2⟩
end

mutual
theorem same_trans : {d e f : Document} → d.same e = true → e.same f = true → d.same f = true
  | null, null, null, _, _ => rfl
  | bool a, bool b, bool c, h, h' => by
      simp only [same, beq_iff_eq] at h h' ⊢
      exact h.trans h'
  | number l, number m, number n, h, h' => by
      rw [same] at h h' ⊢
      exact Number.same_trans h h'
  | string s, string t, string u, h, h' => by
      simp only [same, beq_iff_eq] at h h' ⊢
      exact h.trans h'
  | array a, array b, array c, h, h' => by
      rw [same] at h h' ⊢
      exact sameItems_trans h h'
  | object a, object b, object c, h, h' => by
      rw [same] at h h' ⊢
      exact sameFields_trans h h'

theorem sameItems_trans : {a b c : List Document} → sameItems a b = true →
    sameItems b c = true → sameItems a c = true
  | [], [], [], _, _ => rfl
  | _ :: _, _ :: _, _ :: _, h, h' => by
      simp only [sameItems, Bool.and_eq_true] at h h' ⊢
      exact ⟨same_trans h.1 h'.1, sameItems_trans h.2 h'.2⟩

theorem sameFields_trans : {a b c : List (String × Document)} → sameFields a b = true →
    sameFields b c = true → sameFields a c = true
  | [], [], [], _, _ => rfl
  | (_, _) :: _, (_, _) :: _, (_, _) :: _, h, h' => by
      simp only [sameFields, Bool.and_eq_true, beq_iff_eq] at h h' ⊢
      exact ⟨⟨h.1.1.trans h'.1.1, same_trans h.1.2 h'.1.2⟩, sameFields_trans h.2 h'.2⟩
end

theorem same_isObject {d e : Document} (h : d.same e = true) : d.isObject = e.isObject := by
  cases d <;> cases e <;> simp_all [same, isObject]

theorem rel_find?_of_sameFields {a b : List (String × Document)} (h : sameFields a b = true)
    (name : String) :
    Option.Rel (fun v w => v.same w = true) (Assoc.find? name a) (Assoc.find? name b) := by
  induction a generalizing b with
  | nil =>
      cases b with
      | nil => exact .none
      | cons e rest => cases h
  | cons d others ih =>
      cases b with
      | nil => cases h
      | cons e rest =>
          simp only [sameFields, Bool.and_eq_true, beq_iff_eq] at h
          obtain ⟨⟨key, value⟩, later⟩ := h
          by_cases hit : compare name d.1 = .eq
          · rw [Assoc.find?, Assoc.find?, ← key, if_pos hit, if_pos hit]
            exact .some value
          · rw [Assoc.find?, Assoc.find?, ← key, if_neg hit, if_neg hit]
            exact ih later

/-- Objects are the same if their fields are, name by name. -/
theorem same_object_iff {a b : List (String × Document)} (ha : Assoc.Sorted a)
    (hb : Assoc.Sorted b) : (object a).same (object b) = true ↔ ∀ name,
      Option.Rel (fun v w => v.same w = true) (Assoc.find? name a) (Assoc.find? name b) := by
  rw [same]
  refine ⟨rel_find?_of_sameFields, fun h => ?_⟩
  refine Assoc.induction_of_find? (motive := fun a b => sameFields a b = true) rfl ?_ ha hb h
  intro name v w a b value rest
  simp [sameFields, value, rest]

/-! ## Containment -/

theorem contained_of_find? {small large : List (String × Document)}
    (h : containedFields small large = true) {name : String} {v : Document}
    (found : Assoc.find? name small = some v) :
    ∃ w, Assoc.find? name large = some w ∧ v.contained w = true := by
  induction small with
  | nil => cases found
  | cons e rest ih =>
      obtain ⟨n, x⟩ := e
      simp only [containedFields, Bool.and_eq_true] at h
      obtain ⟨first, later⟩ := h
      by_cases hit : compare name n = .eq
      · obtain rfl : name = n := Std.LawfulEqCmp.eq_of_compare hit
        obtain rfl : x = v := by simpa [Assoc.find?, hit] using found
        cases there : Assoc.find? name large with
        | none => simp [there] at first
        | some w => exact ⟨w, rfl, by simpa [there] using first⟩
      · exact ih later (by simpa [Assoc.find?, hit] using found)

/-- An object is contained in another one field by field. -/
theorem contained_object_iff {small : List (String × Document)} (sorted : Assoc.Sorted small)
    (large : List (String × Document)) :
    (object small).contained (object large) = true ↔ ∀ name v, Assoc.find? name small = some v →
      ∃ w, Assoc.find? name large = some w ∧ v.contained w = true := by
  rw [contained]
  refine ⟨fun h _ _ => contained_of_find? h, fun h => ?_⟩
  have each : ∀ e ∈ small, ∃ w, Assoc.find? e.1 large = some w ∧ e.2.contained w = true :=
    fun e member => h e.1 e.2 ((Assoc.mem_iff_find? sorted).1 member)
  clear h sorted
  induction small with
  | nil => rfl
  | cons e rest ih =>
      obtain ⟨w, found, inside⟩ := each e (List.mem_cons_self ..)
      have others := ih fun d member => each d (List.mem_cons_of_mem _ member)
      simp [containedFields, found, inside, others]

theorem contained_eq_same {p d : Document} (h : ¬ (p.isObject = true ∧ d.isObject = true)) :
    p.contained d = p.same d := by
  cases p <;> cases d <;> simp_all [contained, isObject]

theorem overlay_of_not_object {d p : Document} (h : ¬ (d.isObject = true ∧ p.isObject = true)) :
    d.overlay p = p := by
  cases p <;> cases d <;> simp_all [overlay, isObject]

/-- A patch changes nothing exactly if the document contains it. -/
theorem same_overlay_iff {d p : Document} (hd : d.Ordered) (hp : p.Ordered) :
    (d.overlay p).same d = true ↔ p.contained d = true := by
  induction hp generalizing d with
  | @object patch sorted inner ih =>
      cases hd with
      | @object fields fieldsSorted fieldsInner =>
          rw [overlay_object,
            same_object_iff (sorted_overlayFields fieldsSorted patch) fieldsSorted,
            contained_object_iff sorted]
          have merged : ∀ name v, Assoc.find? name patch = some v →
              (Option.Rel (fun v w => v.same w = true)
                (Assoc.find? name (overlayFields fields patch)) (Assoc.find? name fields) ↔
              ∃ w, Assoc.find? name fields = some w ∧ v.contained w = true) := by
            intro name v given
            rw [find?_overlayFields sorted, given]
            cases there : Assoc.find? name fields with
            | none => exact ⟨nofun, nofun⟩
            | some w =>
                have step := ih (name, v) ((Assoc.mem_iff_find? sorted).2 given)
                  (fieldsInner (name, w) ((Assoc.mem_iff_find? fieldsSorted).2 there))
                simp [Option.rel_some_some, step]
          refine ⟨fun h name v given => (merged name v given).1 (h name), fun h name => ?_⟩
          cases given : Assoc.find? name patch with
          | some v => exact (merged name v given).2 (h name v given)
          | none =>
              rw [find?_overlayFields sorted, given, Option.map_none, Option.none_or]
              cases Assoc.find? name fields with
              | none => exact .none
              | some w => exact .some w.same_self
      | _ => simp [overlay, contained]
  | _ => cases hd <;> simp [overlay, contained]

/-- What is the same as a contained document is contained in what is the same as the other
one. -/
theorem contained_of_same {p q d e : Document} (hp : p.Ordered) (hq : q.Ordered)
    (left : p.same q = true) (right : d.same e = true) (h : p.contained d = true) :
    q.contained e = true := by
  induction hp generalizing q d e with
  | @object small sorted inner ih =>
      cases d with
      | object large =>
          obtain ⟨others, rfl⟩ := exists_object ((same_isObject left).symm.trans rfl)
          obtain ⟨found, rfl⟩ := exists_object ((same_isObject right).symm.trans rfl)
          have ordered := ordered_object_iff.1 hq
          rw [same] at left right
          rw [contained_object_iff sorted] at h
          refine (contained_object_iff ordered.sorted found).2 fun name v given => ?_
          have alike := rel_find?_of_sameFields left name
          rw [given] at alike
          cases before : Assoc.find? name small with
          | none => simp [before] at alike
          | some u =>
              obtain ⟨w, there, inside⟩ := h name u before
              have near := rel_find?_of_sameFields right name
              rw [there] at near
              cases now : Assoc.find? name found with
              | none => simp [now] at near
              | some x =>
                  rw [before, Option.rel_some_some] at alike
                  rw [now, Option.rel_some_some] at near
                  exact ⟨x, rfl, ih (name, u) ((Assoc.mem_iff_find? sorted).2 before)
                    (ordered.find? given) alike near inside⟩
      | _ => simp [contained, same] at h
  | _ =>
      have plain : q.isObject = false := (same_isObject left).symm
      rw [contained_eq_same (by simp [isObject])] at h
      rw [contained_eq_same (by simp [plain])]
      exact same_trans (same_symm left) (same_trans h right)

end ChangeReport.Document
