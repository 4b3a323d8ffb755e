import ChangeReport.Manifest

/-! Lists of manifests. Documents that are pushed one after another append their leaves, in order:
what is left of them when every list, at any depth, stands for its items. -/
namespace ChangeReport

namespace Document

/-- The items of a document, if it is a list: an object of the kind `List` with an array of
items. -/
def listItems? (d : Document) : Option (List Document) :=
  match d.field? "kind", d.field? "items" with
  | some (.string "List"), some (.array items) => some items
  | _, _ => none

/-- A document that stands for itself: it is neither null nor a list. -/
structure IsLeaf (d : Document) : Prop where
  some : d ≠ .null
  plain : d.listItems? = none

theorem sizeOf_of_find? {name : String} {fields : List (String × Document)} {d : Document}
    (found : Assoc.find? name fields = some d) : sizeOf d < sizeOf fields := by
  have inside := List.sizeOf_lt_of_mem (Assoc.mem_of_find? found)
  simp only [Prod.mk.sizeOf_spec] at inside
  omega

theorem exists_fields_of_listItems? {d : Document} {items : List Document}
    (list : d.listItems? = some items) :
    ∃ fields, d = .object fields ∧ Assoc.find? "kind" fields = some (.string "List") ∧
      Assoc.find? "items" fields = some (.array items) := by
  unfold listItems? at list
  split at list
  next kind found =>
    obtain rfl := Option.some.inj list
    cases d with
    | object fields => exact ⟨fields, rfl, kind, found⟩
    | _ => cases found
  next => cases list

theorem sizeOf_of_listItems? {d : Document} {items : List Document}
    (list : d.listItems? = some items) {e : Document} (member : e ∈ items) :
    sizeOf e < sizeOf d := by
  obtain ⟨fields, rfl, -, found⟩ := exists_fields_of_listItems? list
  have inside := sizeOf_of_find? found
  have item := List.sizeOf_lt_of_mem member
  simp only [array.sizeOf_spec, object.sizeOf_spec] at inside ⊢
  omega

/-- The leaves of a document: none of null, those of its items of a list, and otherwise the
document itself. -/
def leaves (d : Document) : List Document :=
  match _ : d.listItems? with
  | some items => items.attach.flatMap fun e => leaves e.1
  | none => match d with
    | .null => []
    | d => [d]
termination_by sizeOf d
decreasing_by exact sizeOf_of_listItems? ‹_› e.2

theorem leaves_null : leaves .null = [] := by
  rw [leaves]
  rfl

theorem leaves_of_list {d : Document} {items : List Document} (list : d.listItems? = some items) :
    d.leaves = items.flatMap leaves := by
  rw [leaves]
  split
  next found =>
    obtain rfl := Option.some.inj (found.symm.trans list)
    rw [List.flatMap_def, List.flatMap_def, List.attach_map_val]
  next found => cases found.symm.trans list

theorem IsLeaf.leaves_eq {d : Document} (h : d.IsLeaf) : d.leaves = [d] := by
  rw [leaves]
  split
  next found => cases found.symm.trans h.plain
  next =>
    cases d with
    | null => exact absurd rfl h.some
    | _ => rfl

/-- Induction along lists: what holds of null, of every leaf, and of a list when it holds of the
items, holds of all documents. -/
theorem list_induction {P : Document → Prop} (null : P .null)
    (list : ∀ {d items}, d.listItems? = some items → (∀ e ∈ items, P e) → P d)
    (leaf : ∀ {d}, d.IsLeaf → P d) (d : Document) : P d := by
  cases inside : d.listItems? with
  | some items => exact list inside fun e member => list_induction null list leaf e
  | none =>
      cases d with
      | null => exact null
      | _ => exact leaf ⟨nofun, inside⟩
termination_by sizeOf d
decreasing_by exact sizeOf_of_listItems? inside member

theorem isLeaf_of_mem_leaves {d e : Document} (member : e ∈ d.leaves) : e.IsLeaf := by
  induction d using list_induction with
  | null =>
      rw [leaves_null] at member
      cases member
  | list items ih =>
      rw [leaves_of_list items, List.mem_flatMap] at member
      obtain ⟨item, inside, leaf⟩ := member
      exact ih item inside leaf
  | leaf h =>
      rw [h.leaves_eq] at member
      exact List.mem_singleton.1 member ▸ h

/-! ## Pushing -/

theorem pushItems_eq (out ds : List Document) : pushItems out ds = ds.foldl push out := by
  induction ds generalizing out with
  | nil => rfl
  | cons d rest ih => exact ih (push out d)

theorem items?_eq_some_iff {d : Document} {items : List Document} :
    d.items? = some items ↔ d = .array items := by
  cases d <;> simp [items?]

theorem pushListed_eq (out : List Document) (fields : List (String × Document)) :
    pushListed out fields =
      ((Assoc.find? "items" fields).bind items?).map fun items => items.foldl push out := by
  induction fields with
  | nil => rfl
  | cons e rest ih =>
      obtain ⟨name, d⟩ := e
      rw [pushListed.eq_def]
      dsimp only
      by_cases named : name = "items"
      · subst named
        rw [if_pos rfl, Assoc.find?, if_pos Std.ReflCmp.compare_self]
        cases d with
        | array items => exact congrArg some (pushItems_eq out items)
        | _ => rfl
      · have other : compare "items" name ≠ .eq := fun same =>
          named (Std.LawfulEqCmp.eq_of_compare same).symm
        rw [if_neg named, ih, Assoc.find?, if_neg other]

theorem isList_iff {fields : List (String × Document)} :
    isList fields = true ↔ Assoc.find? "kind" fields = some (.string "List") := by
  unfold isList
  split
  next kind found => simp [found]
  next other => exact iff_of_false nofun (other "List")

theorem push_of_list {d : Document} {items : List Document} (list : d.listItems? = some items)
    (out : List Document) : push out d = items.foldl push out := by
  obtain ⟨fields, rfl, kind, found⟩ := exists_fields_of_listItems? list
  rw [push, isList_iff.2 kind, pushListed_eq, found]
  rfl

theorem IsLeaf.push_eq {d : Document} (h : d.IsLeaf) (out : List Document) :
    push out d = out ++ [d] := by
  cases d with
  | null => exact absurd rfl h.some
  | object fields =>
      rw [push, pushListed_eq]
      split
      next kind listed =>
        obtain ⟨items, found, -⟩ := Option.map_eq_some_iff.1 listed
        obtain ⟨v, there, array⟩ := Option.bind_eq_some_iff.1 found
        rw [items?_eq_some_iff.1 array] at there
        have plain := h.plain
        simp only [listItems?, field?, isList_iff.1 kind, there] at plain
        cases plain
      next => rfl
  | _ => rfl

/-- A document appends its leaves. -/
theorem push_eq (out : List Document) (d : Document) : push out d = out ++ d.leaves := by
  induction d using list_induction generalizing out with
  | null => rw [leaves_null, List.append_nil, push]
  | @list d items list ih =>
      rw [push_of_list list, leaves_of_list list]
      clear list
      induction items generalizing out with
      | nil => simp
      | cons e rest more =>
          rw [List.foldl_cons, ih e (List.mem_cons_self ..),
            more (fun e member => ih e (List.mem_cons_of_mem _ member)), List.flatMap_cons,
            List.append_assoc]
  | leaf h => rw [h.push_eq, h.leaves_eq]

theorem foldl_push (out ds : List Document) : ds.foldl push out = out ++ ds.flatMap leaves := by
  induction ds generalizing out with
  | nil => simp
  | cons d rest ih => rw [List.foldl_cons, ih, push_eq, List.flatMap_cons, List.append_assoc]

theorem isLeaf_of_mem_foldl_push {ds : List Document} {d : Document}
    (member : d ∈ ds.foldl push []) : d.IsLeaf := by
  rw [foldl_push, List.nil_append, List.mem_flatMap] at member
  obtain ⟨e, -, leaf⟩ := member
  exact isLeaf_of_mem_leaves leaf

theorem flatMap_leaves_of_isLeaf {ds : List Document} (h : ∀ d ∈ ds, d.IsLeaf) :
    ds.flatMap leaves = ds := by
  induction ds with
  | nil => rfl
  | cons d rest ih =>
      rw [List.flatMap_cons, (h d (List.mem_cons_self ..)).leaves_eq,
        ih fun e member => h e (List.mem_cons_of_mem _ member), List.singleton_append]

/-- Flattening loses and invents nothing. Documents append their leaves in order, no leaf is null
or a list, and flat documents stay as they are. -/
theorem push_appends_leaves (out ds : List Document) :
    ds.foldl push out = out ++ ds.flatMap leaves ∧
      (leaves .null = [] ∧
        (∀ (d : Document) (items : List Document), d.field? "kind" = some (.string "List") →
          d.field? "items" = some (.array items) → d.leaves = items.flatMap leaves) ∧
        ∀ d : Document, d ≠ .null → d.listItems? = none → d.leaves = [d]) ∧
      (∀ d ∈ ds.foldl push [], d ≠ .null ∧ d.listItems? = none) ∧
      (ds.foldl push []).foldl push [] = ds.foldl push [] ∧
      ∀ es, (ds ++ es).foldl push [] = ds.foldl push [] ++ es.foldl push [] := by
  refine ⟨foldl_push out ds, ⟨leaves_null, fun d items kind found => ?_, fun d some plain => ?_⟩,
    fun d member => ?_, ?_, fun es => ?_⟩
  · exact leaves_of_list (by simp only [listItems?, kind, found])
  · exact IsLeaf.leaves_eq ⟨some, plain⟩
  · have leaf := isLeaf_of_mem_foldl_push member
    exact ⟨leaf.some, leaf.plain⟩
  · rw [foldl_push [] (ds.foldl push []), List.nil_append,
      flatMap_leaves_of_isLeaf fun d => isLeaf_of_mem_foldl_push]
  · rw [foldl_push, foldl_push, foldl_push, List.flatMap_append, List.nil_append,
      List.nil_append, List.nil_append]

example :
    [.object [("items", .array [.null, .object [("items", .array [.string "a"]),
      ("kind", .string "List")], .string "b"]), ("kind", .string "List")], .null,
      .object [("kind", .string "List")]].foldl push [] =
        [.string "a", .string "b", .object [("kind", .string "List")]] := by
  rfl

end Document

theorem Manifest.parse?_eq (content : String) :
    parse? content = (Yaml.documents? content).map fun ds => ds.flatMap Document.leaves := by
  rw [parse?]
  refine congrArg (Option.map · _) (funext fun ds => ?_)
  rw [Document.foldl_push, List.nil_append]

end ChangeReport
