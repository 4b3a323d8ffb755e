import ChangeReport.Json.Reader
import ChangeReport.Proofs.Manifest.Flattening

/-! Documents whose objects are sorted by field name. All documents that are read are of
this kind, and what the program makes of them stays so. -/
namespace ChangeReport

/-- Objects at any depth have their fields in strict order. -/
inductive Document.Ordered : Document → Prop
  | null : Ordered .null
  | bool (b : Bool) : Ordered (.bool b)
  | number (n : Number) : Ordered (.number n)
  | string (s : String) : Ordered (.string s)
  | array {items : List Document} (inner : ∀ d ∈ items, Ordered d) : Ordered (.array items)
  | object {fields : List (String × Document)} (sorted : Assoc.Sorted fields)
      (inner : ∀ e ∈ fields, Ordered e.2) : Ordered (.object fields)

namespace Document

structure OrderedFields (fields : List (String × Document)) : Prop where
  sorted : Assoc.Sorted fields
  inner : ∀ e ∈ fields, e.2.Ordered

namespace OrderedFields

variable {fields : List (String × Document)}

theorem nil : OrderedFields [] := ⟨.nil, fun _ member => by cases member⟩

theorem insert (h : OrderedFields fields) (name : String) {v : Document} (hv : v.Ordered) :
    OrderedFields (Assoc.insert name v fields) := by
  refine ⟨Assoc.sorted_insert h.sorted, fun e member => ?_⟩
  rcases Assoc.mem_insert member with rfl | old
  · exact hv
  · exact h.inner e old

theorem erase (h : OrderedFields fields) (name : String) :
    OrderedFields (Assoc.erase name fields) :=
  ⟨Assoc.sorted_erase h.sorted, fun e member =>
    h.inner e ((Assoc.erase_sublist name fields).subset member)⟩

theorem ofList (h : ∀ e ∈ fields, e.2.Ordered) : OrderedFields (Assoc.ofList fields) := by
  have grows : ∀ (more m : List (String × Document)), (∀ e ∈ more, e.2.Ordered) →
      OrderedFields m → OrderedFields (more.foldl (fun m e => Assoc.insert e.1 e.2 m) m) := by
    intro more
    induction more with
    | nil => exact fun _ _ h => h
    | cons e rest ih =>
        intro m inner ordered
        exact ih _ (fun d member => inner d (List.mem_cons_of_mem _ member))
          (ordered.insert e.1 (inner e (List.mem_cons_self ..)))
  exact grows fields [] h nil

theorem find? (h : OrderedFields fields) {name : String} {v : Document}
    (found : Assoc.find? name fields = some v) : v.Ordered :=
  h.inner (name, v) ((Assoc.mem_iff_find? h.sorted).2 found)

end OrderedFields

theorem ordered_object_iff {fields : List (String × Document)} :
    (object fields).Ordered ↔ OrderedFields fields :=
  ⟨fun h => by cases h with | object sorted inner => exact ⟨sorted, inner⟩,
    fun h => .object h.sorted h.inner⟩

/-! ## Checking -/

mutual
/-- Whether a document is ordered, as a computation. -/
def isOrdered : Document → Bool
  | .array items => itemsOrdered items
  | .object fields =>
      decide (fields.Pairwise fun a b => compare a.1 b.1 = .lt) && fieldsOrdered fields
  | _ => true

def itemsOrdered : List Document → Bool
  | [] => true
  | d :: rest => isOrdered d && itemsOrdered rest

def fieldsOrdered : List (String × Document) → Bool
  | [] => true
  | (_, d) :: rest => isOrdered d && fieldsOrdered rest
end

mutual
theorem isOrdered_iff : (d : Document) → (d.isOrdered = true ↔ d.Ordered)
  | .null => iff_of_true rfl .null
  | .bool b => iff_of_true rfl (.bool b)
  | .number n => iff_of_true rfl (.number n)
  | .string s => iff_of_true rfl (.string s)
  | .array items => by
      rw [isOrdered, itemsOrdered_iff items]
      exact ⟨.array, fun h => by cases h with | array inner => exact inner⟩
  | .object fields => by
      rw [isOrdered, Bool.and_eq_true, decide_eq_true_iff, fieldsOrdered_iff fields,
        ordered_object_iff]
      exact ⟨fun h => ⟨h.1, h.2⟩, fun h => ⟨h.sorted, h.inner⟩⟩

theorem itemsOrdered_iff :
    (items : List Document) → (itemsOrdered items = true ↔ ∀ d ∈ items, d.Ordered)
  | [] => by simp [itemsOrdered]
  | d :: rest => by
      simp [itemsOrdered, isOrdered_iff d, itemsOrdered_iff rest]

theorem fieldsOrdered_iff : (fields : List (String × Document)) →
    (fieldsOrdered fields = true ↔ ∀ e ∈ fields, e.2.Ordered)
  | [] => by simp [fieldsOrdered]
  | (_, d) :: rest => by
      simp [fieldsOrdered, isOrdered_iff d, fieldsOrdered_iff rest]
end

instance (d : Document) : Decidable d.Ordered := decidable_of_iff _ (isOrdered_iff d)

/-! ## Reading -/

mutual
theorem ordered_of_toDocument? (depth : Nat) (t : Tree) {d : Document}
    (h : t.toDocument? depth = some d) : d.Ordered := by
  cases t with
  | null =>
      obtain rfl := Option.some.inj h
      exact .null
  | bool b =>
      obtain rfl := Option.some.inj h
      exact .bool b
  | number n =>
      obtain ⟨n, -, rfl⟩ := Option.map_eq_some_iff.1 h
      exact .number n
  | string s =>
      obtain ⟨s, -, rfl⟩ := Option.map_eq_some_iff.1 h
      exact .string s
  | array items =>
      rw [Tree.toDocument?] at h
      split at h
      · cases h
      · obtain ⟨ds, read, rfl⟩ := Option.map_eq_some_iff.1 h
        exact .array (ordered_of_toItems? _ items read)
  | object members =>
      rw [Tree.toDocument?] at h
      split at h
      · cases h
      · obtain ⟨fields, read, rfl⟩ := Option.map_eq_some_iff.1 h
        exact ordered_object_iff.2 (.ofList (ordered_of_toFields? _ members read))

theorem ordered_of_toItems? (depth : Nat) (ts : List Tree) {ds : List Document}
    (h : Tree.toItems? depth ts = some ds) : ∀ d ∈ ds, d.Ordered := by
  cases ts with
  | nil =>
      obtain rfl := Option.some.inj h
      simp
  | cons t rest =>
      simp only [Tree.toItems?, Option.bind_eq_bind, Option.bind_eq_some_iff,
        Option.pure_def, Option.some.injEq] at h
      obtain ⟨first, read, others, readRest, rfl⟩ := h
      intro d member
      rcases List.mem_cons.1 member with rfl | later
      · exact ordered_of_toDocument? depth t read
      · exact ordered_of_toItems? depth rest readRest d later

theorem ordered_of_toFields? (depth : Nat) (ms : List (Option String × Tree))
    {fields : List (String × Document)} (h : Tree.toFields? depth ms = some fields) :
    ∀ e ∈ fields, e.2.Ordered := by
  cases ms with
  | nil =>
      obtain rfl := Option.some.inj h
      simp
  | cons m rest =>
      obtain ⟨name, t⟩ := m
      simp only [Tree.toFields?, Option.bind_eq_bind, Option.bind_eq_some_iff,
        Option.pure_def, Option.some.injEq] at h
      obtain ⟨k, -, first, read, others, readRest, rfl⟩ := h
      intro e member
      rcases List.mem_cons.1 member with rfl | later
      · exact ordered_of_toDocument? depth t read
      · exact ordered_of_toFields? depth rest readRest e later
end

theorem ordered_of_decode {s : String} {d : Document} (h : Json.decode s = some d) : d.Ordered := by
  simp only [Json.decode, Option.bind_eq_bind, Option.bind_eq_some_iff] at h
  obtain ⟨t, -, read⟩ := h
  exact ordered_of_toDocument? _ t read

end Document

namespace Yaml

theorem ordered_of_meaning {s : String} {m : Meaning} {d : Document}
    (h : m.document? s = some d) : d.Ordered := by
  cases m with
  | float x =>
      cases x with
      | none =>
          obtain rfl := Option.some.inj h
          exact .null
      | some x =>
          obtain rfl := Option.some.inj h
          exact .number _
  | wide => cases h
  | null =>
      obtain rfl := Option.some.inj h
      exact .null
  | bool b =>
      obtain rfl := Option.some.inj h
      exact .bool b
  | int n =>
      obtain rfl := Option.some.inj h
      exact .number _
  | text =>
      obtain rfl := Option.some.inj h
      exact .string s

theorem ordered_of_scalar {tag : Option (List Nat)} {plain : Bool} {text : List Char}
    {d : Document} (h : scalarDocument? tag plain text = some d) : d.Ordered := by
  have untagged : ∀ {d}, (if plain
      then (meaning (String.ofList text)).document? (String.ofList text)
      else some (.string (String.ofList text))) = some d → d.Ordered := by
    intro d h
    split at h
    · exact ordered_of_meaning h
    · obtain rfl := Option.some.inj h
      exact .string _
  unfold scalarDocument? at h
  dsimp only at h
  split at h
  · exact untagged h
  · split at h
    · split at h
      · cases h
      · exact untagged h
    · split at h
      · obtain ⟨b, -, rfl⟩ := Option.map_eq_some_iff.1 h
        exact .bool b
      · split at h
        · obtain ⟨m, -, read⟩ := Option.bind_eq_some_iff.1 h
          exact ordered_of_meaning read
        · split at h
          · obtain ⟨x, -, read⟩ := Option.bind_eq_some_iff.1 h
            exact ordered_of_meaning read
          · split at h
            · split at h
              · obtain rfl := Option.some.inj h
                exact .null
              · cases h
            · obtain rfl := Option.some.inj h
              exact .string _

theorem forall_of_collect {α β : Type} (P : β → Prop) {f : Nat → α → Option (β × Nat)}
    (each : ∀ jumps x y next, f jumps x = some (y, next) → P y) {jumps last : Nat} {xs : List α}
    {ys : List β} (h : collect f jumps xs = some (ys, last)) : ∀ y ∈ ys, P y := by
  induction xs generalizing jumps last ys with
  | nil =>
      obtain ⟨rfl, -⟩ := Prod.mk.inj (Option.some.inj h)
      simp
  | cons x rest ih =>
      simp only [collect, Option.bind_eq_bind, Option.bind_eq_some_iff, Option.pure_def,
        Option.some.injEq, Prod.exists, Prod.mk.injEq] at h
      obtain ⟨y, next, first, ys, _, others, rfl, -⟩ := h
      intro z member
      rcases List.mem_cons.1 member with rfl | later
      · exact each _ _ _ _ first
      · exact ih others z later

theorem ordered_of_links {links : Links} {depth jumps last : Nat} {n : Linked} {d : Document}
    (h : links.document? depth jumps n = some (d, last)) : d.Ordered := by
  induction depth generalizing jumps last n d with
  | zero =>
      simp only [Links.document?, Option.bind_eq_bind, Option.bind_eq_some_iff] at h
      obtain ⟨⟨target, jumps⟩, -, h⟩ := h
      cases target with
      | scalar props plain text =>
          simp only [Option.bind_eq_some_iff, Option.pure_def, Option.some.injEq,
            Prod.mk.injEq] at h
          obtain ⟨d, read, rfl, -⟩ := h
          exact ordered_of_scalar read
      | _ => simp at h
  | succ depth ih =>
      simp only [Links.document?, Option.bind_eq_bind, Option.bind_eq_some_iff] at h
      obtain ⟨⟨target, jumps⟩, -, h⟩ := h
      cases target with
      | scalar props plain text =>
          simp only [Option.bind_eq_some_iff, Option.pure_def, Option.some.injEq,
            Prod.mk.injEq] at h
          obtain ⟨d, read, rfl, -⟩ := h
          exact ordered_of_scalar read
      | sequence props items =>
          dsimp only at h
          split at h
          · cases h
          · simp only [Option.bind_eq_some_iff, Option.pure_def, Option.some.injEq,
              Prod.exists, Prod.mk.injEq] at h
            obtain ⟨ds, next, read, rfl, -⟩ := h
            exact .array (forall_of_collect Document.Ordered (fun _ _ _ _ item => ih item) read)
      | mapping props fields =>
          dsimp only at h
          split at h
          · cases h
          · simp only [Option.bind_eq_some_iff, Option.pure_def, Option.some.injEq,
              Prod.exists, Prod.mk.injEq] at h
            obtain ⟨entries, next, read, rfl, -⟩ := h
            refine Document.ordered_object_iff.2 (.ofList ?_)
            refine forall_of_collect (fun e => e.2.Ordered) (fun _ _ e _ field => ?_) read
            simp only [Option.bind_eq_some_iff, Option.some.injEq, Prod.exists,
              Prod.mk.injEq] at field
            obtain ⟨k, after, -, v, _, value, rfl, -⟩ := field
            exact ih value
      | _ => simp at h

theorem ordered_of_written {n : Written} {d : Document} (h : n.document? = some d) :
    d.Ordered := by
  simp only [Written.document?, Option.bind_eq_bind, Option.bind_eq_some_iff, Option.pure_def,
    Option.some.injEq, Prod.exists] at h
  obtain ⟨linked, _, -, d, _, read, rfl⟩ := h
  exact ordered_of_links read

theorem ordered_of_documents? {s : String} {ds : List Document} (h : documents? s = some ds) :
    ∀ d ∈ ds, d.Ordered := by
  simp only [documents?, Option.bind_eq_bind, Option.bind_eq_some_iff] at h
  obtain ⟨tokens, -, nodes, -, read⟩ := h
  induction nodes generalizing ds with
  | nil =>
      obtain rfl := Option.some.inj read
      simp
  | cons n rest ih =>
      simp only [List.mapM_cons, Option.bind_eq_bind, Option.bind_eq_some_iff, Option.pure_def,
        Option.some.injEq] at read
      obtain ⟨first, one, others, more, rfl⟩ := read
      intro d member
      rcases List.mem_cons.1 member with rfl | later
      · exact ordered_of_written one
      · exact ih more d later

end Yaml

namespace Document

theorem ordered_of_mem_items {d : Document} (h : d.Ordered) {items : List Document}
    (list : d.listItems? = some items) {e : Document} (member : e ∈ items) : e.Ordered := by
  obtain ⟨fields, rfl, -, found⟩ := exists_fields_of_listItems? list
  cases (ordered_object_iff.1 h).find? found with
  | array inner => exact inner e member

theorem ordered_of_mem_leaves {d e : Document} (h : d.Ordered) (member : e ∈ d.leaves) :
    e.Ordered := by
  induction d using list_induction with
  | null =>
      rw [leaves_null] at member
      cases member
  | list list ih =>
      rw [leaves_of_list list, List.mem_flatMap] at member
      obtain ⟨item, inside, leaf⟩ := member
      exact ih item inside (ordered_of_mem_items h list inside) leaf
  | leaf plain =>
      rw [plain.leaves_eq] at member
      exact List.mem_singleton.1 member ▸ h

end Document

/-- Every manifest that is read from a text is ordered. -/
theorem Manifest.ordered_of_parse? {content : String} {ds : List Document}
    (h : Manifest.parse? content = some ds) : ∀ d ∈ ds, d.Ordered := by
  rw [Manifest.parse?_eq] at h
  obtain ⟨whole, read, rfl⟩ := Option.map_eq_some_iff.1 h
  intro d member
  obtain ⟨e, present, leaf⟩ := List.mem_flatMap.1 member
  exact Document.ordered_of_mem_leaves (Yaml.ordered_of_documents? read e present) leaf

end ChangeReport
