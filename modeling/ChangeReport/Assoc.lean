/-! Association lists sorted by key. `insert` keeps the keys strictly increasing, so a
sorted list is determined by its lookups. -/
namespace ChangeReport.Assoc

variable {κ : Type} {α : Type} [Ord κ]

def find? (k : κ) : List (κ × α) → Option α
  | [] => none
  | (x, v) :: rest => if compare k x = .eq then some v else find? k rest

def contains (k : κ) (m : List (κ × α)) : Bool := (find? k m).isSome

/-- Puts `v` at `k`, in the place of an earlier value. -/
def insert (k : κ) (v : α) : List (κ × α) → List (κ × α)
  | [] => [(k, v)]
  | (x, w) :: rest =>
      match compare k x with
      | .lt => (k, v) :: (x, w) :: rest
      | .eq => (k, v) :: rest
      | .gt => (x, w) :: insert k v rest

def erase (k : κ) : List (κ × α) → List (κ × α)
  | [] => []
  | (x, w) :: rest => if compare k x = .eq then rest else (x, w) :: erase k rest

/-- Changes the value at `k`, starting from `init` where there is none. -/
def modify (k : κ) (init : α) (f : α → α) (m : List (κ × α)) : List (κ × α) :=
  insert k (f ((find? k m).getD init)) m

/-- Of two entries with one key the later one stays. -/
def ofList (entries : List (κ × α)) : List (κ × α) :=
  entries.foldl (fun m e => insert e.1 e.2 m) []

def Sorted (m : List (κ × α)) : Prop := m.Pairwise fun a b => compare a.1 b.1 = .lt

theorem mem_insert {k : κ} {v : α} {m : List (κ × α)} {e : κ × α} (h : e ∈ insert k v m) :
    e = (k, v) ∨ e ∈ m := by
  induction m with
  | nil => simpa [insert] using h
  | cons e' rest ih =>
      obtain ⟨y, u⟩ := e'
      cases c : compare k y with
      | lt => simpa [insert, c] using h
      | eq =>
          simp only [insert, c, List.mem_cons] at h
          rcases h with h | h
          · exact .inl h
          · exact .inr (List.mem_cons_of_mem _ h)
      | gt =>
          simp only [insert, c, List.mem_cons] at h
          rcases h with h | h
          · exact .inr (by simp [h])
          · rcases ih h with h | h
            · exact .inl h
            · exact .inr (List.mem_cons_of_mem _ h)

theorem find?_eq_none_of_lt {k : κ} {m : List (κ × α)} (h : ∀ e ∈ m, compare k e.1 = .lt) : find? k m = none := by
  induction m with
  | nil => rfl
  | cons e rest ih =>
      have first := h e (List.mem_cons_self ..)
      have others := ih fun d hd => h d (List.mem_cons_of_mem _ hd)
      simp [find?, first, others]

theorem find?_append (k : κ) (m n : List (κ × α)) :
    find? k (m ++ n) = (find? k m).or (find? k n) := by
  induction m with
  | nil => rfl
  | cons e rest ih =>
      obtain ⟨x, w⟩ := e
      by_cases hit : compare k x = .eq
      · simp [find?, hit]
      · simpa [find?, hit] using ih

theorem erase_sublist (k : κ) (m : List (κ × α)) : (erase k m).Sublist m := by
  induction m with
  | nil => exact List.Sublist.slnil
  | cons e rest ih =>
      obtain ⟨x, w⟩ := e
      by_cases gone : compare k x = .eq
      · simp [erase, gone]
      · simpa [erase, gone] using ih

theorem sorted_erase {k : κ} {m : List (κ × α)} (h : Sorted m) : Sorted (erase k m) :=
  h.sublist (erase_sublist k m)

variable [Std.LawfulEqOrd κ]

theorem find?_insert_self (k : κ) (v : α) (m : List (κ × α)) : find? k (insert k v m) = some v := by
  induction m with
  | nil => simp [insert, find?, Std.ReflCmp.compare_self]
  | cons e rest ih =>
      obtain ⟨x, w⟩ := e
      cases h : compare k x <;> simp [insert, find?, h, ih, Std.ReflCmp.compare_self]

theorem find?_insert_of_ne {k l : κ} (ne : l ≠ k) (v : α) (m : List (κ × α)) :
    find? l (insert k v m) = find? l m := by
  have away : compare l k ≠ .eq := fun h => ne (Std.LawfulEqCmp.eq_of_compare h)
  induction m with
  | nil => simp [insert, find?, away]
  | cons e rest ih =>
      obtain ⟨x, w⟩ := e
      cases h : compare k x with
      | lt => simp [insert, find?, h, away]
      | eq =>
          have : k = x := Std.LawfulEqCmp.eq_of_compare h
          subst this
          simp [insert, find?, away]
      | gt =>
          by_cases hit : compare l x = .eq <;> simp [insert, find?, h, hit, ih]

theorem find?_modify [DecidableEq κ] (k l : κ) (init : α) (f : α → α) (m : List (κ × α)) :
    find? l (modify k init f m) =
      if k = l then some (f ((find? l m).getD init)) else find? l m := by
  by_cases same : k = l
  · subst same
    rw [if_pos rfl, modify, find?_insert_self]
  · rw [if_neg same, modify, find?_insert_of_ne (Ne.symm same)]

/-- In a sorted list an entry is what its key is looked up to. -/
theorem mem_iff_find? {k : κ} {v : α} {m : List (κ × α)} (h : Sorted m) : (k, v) ∈ m ↔ find? k m = some v := by
  induction m with
  | nil => simp [find?]
  | cons e rest ih =>
      obtain ⟨x, w⟩ := e
      have above := (List.pairwise_cons.1 h).1
      have tail := ih (List.pairwise_cons.1 h).2
      by_cases hit : compare k x = .eq
      · have same : k = x := Std.LawfulEqCmp.eq_of_compare hit
        subst same
        have gone : (k, v) ∉ rest := by
          intro member
          have lt := above (k, v) member
          simp [Std.ReflCmp.compare_self] at lt
        simp [find?, gone, eq_comm]
      · have ne : k ≠ x := by
          intro same
          subst same
          exact hit Std.ReflCmp.compare_self
        simp [find?, hit, ne, tail]

theorem mem_keys_iff {k : κ} {m : List (κ × α)} (h : Sorted m) : k ∈ m.map (·.1) ↔ (find? k m).isSome := by
  rw [Option.isSome_iff_exists, List.mem_map]
  constructor
  · rintro ⟨⟨x, v⟩, member, rfl⟩
    exact ⟨v, (mem_iff_find? h).1 member⟩
  · rintro ⟨v, found⟩
    exact ⟨(k, v), (mem_iff_find? h).2 found, rfl⟩

theorem keys_nodup {m : List (κ × α)} (h : Sorted m) : (m.map (·.1)).Nodup := by
  rw [List.nodup_iff_pairwise_ne, List.pairwise_map]
  refine h.imp fun {x y} lt same => ?_
  have self : compare x.1 x.1 = .lt := by
    rw [← same] at lt
    exact lt
  simp [Std.ReflCmp.compare_self] at self

theorem mem_of_find? {k : κ} {v : α} {m : List (κ × α)} (h : find? k m = some v) : (k, v) ∈ m := by
  induction m with
  | nil => cases h
  | cons e rest ih =>
      obtain ⟨x, w⟩ := e
      by_cases hit : compare k x = .eq
      · have same : k = x := Std.LawfulEqCmp.eq_of_compare hit
        obtain rfl : w = v := by simpa [find?, hit] using h
        simp [same]
      · have later : find? k rest = some v := by simpa [find?, hit] using h
        exact List.mem_cons_of_mem _ (ih later)

theorem find?_of_nodup {k : κ} {v : α} {m : List (κ × α)} (distinct : (m.map (·.1)).Nodup)
    (member : (k, v) ∈ m) : find? k m = some v := by
  induction m with
  | nil => cases member
  | cons e rest ih =>
      rw [List.map_cons, List.nodup_cons] at distinct
      rcases List.mem_cons.1 member with rfl | later
      · simp [find?, Std.ReflCmp.compare_self]
      · have ne : compare k e.1 ≠ .eq := fun same =>
          distinct.1 (Std.LawfulEqCmp.eq_of_compare same ▸ List.mem_map.2 ⟨(k, v), later, rfl⟩)
        simpa [find?, ne] using ih distinct.2 later

/-- With distinct keys the order of the entries does not matter. -/
theorem find?_perm {a b : List (κ × α)} (distinct : (a.map (·.1)).Nodup) (perm : a.Perm b) (k : κ) :
    find? k a = find? k b := by
  have same : (b.map (·.1)).Nodup := (perm.map _).nodup_iff.1 distinct
  cases found : find? k b with
  | some v => exact find?_of_nodup distinct (perm.mem_iff.2 (mem_of_find? found))
  | none =>
      cases missing : find? k a with
      | none => rfl
      | some v =>
          rw [find?_of_nodup same (perm.mem_iff.1 (mem_of_find? missing))] at found
          cases found

theorem find?_reverse {m : List (κ × α)} (distinct : (m.map (·.1)).Nodup) (k : κ) :
    find? k m.reverse = find? k m :=
  (find?_perm distinct m.reverse_perm.symm k).symm

/-- The value of a key comes from the first of the sources that give the key. -/
theorem find?_filterMap [DecidableEq κ] {δ : Type} (f : δ → Option (κ × α)) (k : κ) (ds : List δ) :
    find? k (ds.filterMap f) =
      (ds.find? fun d => (f d).map (·.1) = some k).bind fun d => (f d).map (·.2) := by
  induction ds with
  | nil => rfl
  | cons d ds ih =>
      cases entry : f d with
      | none => simpa [entry] using ih
      | some e =>
          by_cases same : e.1 = k
          · subst same
            simp [entry, find?, Std.ReflCmp.compare_self]
          · have away : compare k e.1 ≠ .eq := fun h => same (Std.LawfulEqCmp.eq_of_compare h).symm
            simpa [entry, find?, away, same] using ih

/-- A lookup depends on the entries of its key alone. -/
theorem find?_filterMap_congr {δ : Type} {f g : δ → Option (κ × α)} {k : κ} {ds : List δ}
    (same : ∀ d ∈ ds, ∀ v, f d = some (k, v) ↔ g d = some (k, v)) :
    find? k (ds.filterMap f) = find? k (ds.filterMap g) := by
  have skip : ∀ (e : κ × α) (rest : List (κ × α)), e.1 ≠ k → find? k (e :: rest) = find? k rest :=
    fun e rest ne => if_neg fun hit => ne (Std.LawfulEqCmp.eq_of_compare hit).symm
  induction ds with
  | nil => rfl
  | cons d ds ih =>
      have rest := ih fun d member => same d (List.mem_cons_of_mem _ member)
      have here := same d (List.mem_cons_self ..)
      by_cases hit : ∃ v, f d = some (k, v)
      · obtain ⟨v, first⟩ := hit
        simp [first, (here v).1 first, find?, Std.ReflCmp.compare_self]
      · have missed : ∀ (h : δ → Option (κ × α)), (∀ v, h d ≠ some (k, v)) →
            find? k ((d :: ds).filterMap h) = find? k (ds.filterMap h) := by
          intro h away
          cases entry : h d with
          | none => simp [entry]
          | some e =>
              have ne : e.1 ≠ k := fun same => away e.2 (by rw [entry, ← same])
              simp [entry, skip e _ ne]
        rw [missed f fun v first => hit ⟨v, first⟩,
          missed g fun v second => hit ⟨v, (here v).2 second⟩, rest]

theorem find?_erase_of_ne {k l : κ} (ne : l ≠ k) (m : List (κ × α)) :
    find? l (erase k m) = find? l m := by
  induction m with
  | nil => rfl
  | cons e rest ih =>
      obtain ⟨x, w⟩ := e
      by_cases gone : compare k x = .eq
      · have same : k = x := Std.LawfulEqCmp.eq_of_compare gone
        subst same
        have away : compare l k ≠ .eq := fun h => ne (Std.LawfulEqCmp.eq_of_compare h)
        simp [erase, find?, away]
      · by_cases hit : compare l x = .eq
        · simp [erase, find?, gone, hit]
        · simpa [erase, find?, gone, hit] using ih

theorem find?_erase_self {k : κ} {m : List (κ × α)} (h : Sorted m) : find? k (erase k m) = none := by
  induction m with
  | nil => rfl
  | cons e rest ih =>
      obtain ⟨x, w⟩ := e
      obtain ⟨above, tail⟩ := List.pairwise_cons.1 h
      by_cases gone : compare k x = .eq
      · have same : k = x := Std.LawfulEqCmp.eq_of_compare gone
        subst same
        simpa [erase, gone] using find?_eq_none_of_lt above
      · simpa [erase, find?, gone] using ih tail

/-- A lookup in the entries of a sorted list that `p` keeps. -/
theorem find?_filter {k : κ} {m : List (κ × α)} (h : Sorted m) (p : κ × α → Bool) :
    find? k (m.filter p) = (find? k m).filter fun v => p (k, v) := by
  induction m with
  | nil => rfl
  | cons e rest ih =>
      obtain ⟨x, w⟩ := e
      obtain ⟨above, tail⟩ := List.pairwise_cons.1 h
      by_cases hit : compare k x = .eq
      · have same : k = x := Std.LawfulEqCmp.eq_of_compare hit
        subst same
        by_cases kept : p (k, w) = true
        · simp [find?, kept, Option.filter, Std.ReflCmp.compare_self]
        · have none : find? k (rest.filter p) = none :=
            find?_eq_none_of_lt fun d member => above d (List.mem_filter.1 member).1
          simp [find?, kept, none, Option.filter]
      · by_cases kept : p (x, w) = true
        · simpa [find?, hit, kept] using ih tail
        · simpa [find?, hit, kept] using ih tail

theorem find?_foldl_insert (k : κ) (entries m : List (κ × α)) :
    find? k (entries.foldl (fun m e => insert e.1 e.2 m) m) =
      (find? k entries.reverse).or (find? k m) := by
  induction entries generalizing m with
  | nil => rfl
  | cons e rest ih =>
      obtain ⟨x, w⟩ := e
      rw [List.foldl_cons, ih, List.reverse_cons, find?_append]
      by_cases hit : compare k x = .eq
      · have same : k = x := Std.LawfulEqCmp.eq_of_compare hit
        subst same
        simp [find?_insert_self, find?, Std.ReflCmp.compare_self]
      · have ne : k ≠ x := by
          intro same
          subst same
          exact hit Std.ReflCmp.compare_self
        simp [find?_insert_of_ne ne, find?, hit]

/-- In the union of two maps the second one decides on its keys. -/
theorem find?_union {m n : List (κ × α)} (h : Sorted n) (k : κ) :
    find? k (n.foldl (fun m e => insert e.1 e.2 m) m) = (find? k n).or (find? k m) := by
  rw [find?_foldl_insert, find?_reverse (keys_nodup h)]

/-- The last entry of a key counts. -/
theorem find?_ofList (k : κ) (entries : List (κ × α)) :
    find? k (ofList entries) = find? k entries.reverse := by
  rw [ofList, find?_foldl_insert, find?, Option.or_none]

theorem find?_ofList_of_nodup {entries : List (κ × α)} (distinct : (entries.map (·.1)).Nodup)
    (k : κ) : find? k (ofList entries) = find? k entries := by
  rw [find?_ofList, find?_reverse distinct]

/-- The value of a key comes from the last of the sources that give the key. -/
theorem find?_ofList_filterMap [DecidableEq κ] {δ : Type} (f : δ → Option (κ × α)) (k : κ)
    (ds : List δ) : find? k (ofList (ds.filterMap f)) =
      (ds.filter fun d => (f d).map (·.1) = some k).getLast?.bind fun d => (f d).map (·.2) := by
  rw [find?_ofList, ← List.filterMap_reverse, find?_filterMap, List.getLast?_eq_head?_reverse,
    ← List.filter_reverse, List.head?_filter]

theorem find?_ofList_congr {δ : Type} {f g : δ → Option (κ × α)} {k : κ} {ds : List δ}
    (same : ∀ d ∈ ds, ∀ v, f d = some (k, v) ↔ g d = some (k, v)) :
    find? k (ofList (ds.filterMap f)) = find? k (ofList (ds.filterMap g)) := by
  rw [find?_ofList, find?_ofList, ← List.filterMap_reverse, ← List.filterMap_reverse]
  exact find?_filterMap_congr fun d member => same d (List.mem_reverse.1 member)

variable [Std.TransOrd κ]

theorem sorted_insert {k : κ} {v : α} {m : List (κ × α)} (h : Sorted m) : Sorted (insert k v m) := by
  induction m with
  | nil => simp [insert, Sorted]
  | cons e rest ih =>
      obtain ⟨x, w⟩ := e
      have above := (List.pairwise_cons.1 h).1
      have tail : Sorted rest := (List.pairwise_cons.1 h).2
      cases c : compare k x with
      | lt =>
          simp only [insert, c]
          refine List.pairwise_cons.2 ⟨fun a ha => ?_, h⟩
          rcases List.mem_cons.1 ha with rfl | ha
          · exact c
          · exact Std.TransCmp.lt_trans c (above a ha)
      | eq =>
          have : k = x := Std.LawfulEqCmp.eq_of_compare c
          subst this
          simp only [insert, c]
          exact List.pairwise_cons.2 ⟨above, tail⟩
      | gt =>
          simp only [insert, c]
          refine List.pairwise_cons.2 ⟨fun a ha => ?_, ih tail⟩
          rcases mem_insert ha with rfl | ha
          · exact Std.OrientedCmp.lt_of_gt c
          · exact above a ha

theorem sorted_modify {k : κ} {init : α} {f : α → α} {m : List (κ × α)} (h : Sorted m) :
    Sorted (modify k init f m) :=
  sorted_insert h

theorem sorted_foldl_insert {entries m : List (κ × α)} (h : Sorted m) :
    Sorted (entries.foldl (fun m e => insert e.1 e.2 m) m) := by
  induction entries generalizing m with
  | nil => exact h
  | cons e entries ih => exact ih (sorted_insert h)

theorem sorted_ofList (entries : List (κ × α)) : Sorted (ofList entries) :=
  sorted_foldl_insert List.Pairwise.nil

/-- Sorted lists whose lookups are related have the same keys, and related values at them. -/
theorem induction_of_find? {β : Type} {R : α → β → Prop}
    {motive : List (κ × α) → List (κ × β) → Prop} (nil : motive [] [])
    (cons : ∀ {k v w a b}, R v w → motive a b → motive ((k, v) :: a) ((k, w) :: b))
    {a : List (κ × α)} {b : List (κ × β)} (ha : Sorted a) (hb : Sorted b)
    (h : ∀ k, Option.Rel R (find? k a) (find? k b)) : motive a b := by
  induction a generalizing b with
  | nil =>
      cases b with
      | nil => exact nil
      | cons e rest =>
          have found := h e.1
          simp only [find?, Std.ReflCmp.compare_self] at found
          cases found
  | cons e rest ih =>
      cases b with
      | nil =>
          have found := h e.1
          simp only [find?, Std.ReflCmp.compare_self] at found
          cases found
      | cons d others =>
          obtain ⟨x, v⟩ := e
          obtain ⟨y, w⟩ := d
          obtain ⟨aboveE, tailE⟩ := List.pairwise_cons.1 ha
          obtain ⟨aboveD, tailD⟩ := List.pairwise_cons.1 hb
          -- the smaller of the two first keys would be looked up to nothing in the other list
          have first : compare x y = .eq := by
            cases c : compare x y with
            | eq => rfl
            | lt =>
                have none : find? x others = none :=
                  find?_eq_none_of_lt fun e he => Std.TransCmp.lt_trans c (aboveD e he)
                have found := h x
                simp only [find?, Std.ReflCmp.compare_self, c, none] at found
                cases found
            | gt =>
                have lt : compare y x = .lt := Std.OrientedCmp.lt_of_gt c
                have none : find? y rest = none :=
                  find?_eq_none_of_lt fun e he => Std.TransCmp.lt_trans lt (aboveE e he)
                have found := h y
                simp only [find?, Std.ReflCmp.compare_self, lt, none] at found
                cases found
          obtain rfl : x = y := Std.LawfulEqCmp.eq_of_compare first
          have value : R v w := by
            have found := h x
            simp only [find?, Std.ReflCmp.compare_self, if_true] at found
            cases found with
            | some related => exact related
          refine cons value (ih tailE tailD fun k => ?_)
          by_cases hit : compare k x = .eq
          · obtain rfl : k = x := Std.LawfulEqCmp.eq_of_compare hit
            rw [find?_eq_none_of_lt aboveE, find?_eq_none_of_lt aboveD]
            exact .none
          · simpa [find?, hit] using h k

/-- Sorted lists with the same lookups are the same. -/
theorem eq_of_find?_eq {a b : List (κ × α)} (ha : Sorted a) (hb : Sorted b) (h : ∀ k, find? k a = find? k b) :
    a = b := by
  refine induction_of_find? (R := Eq) rfl (fun value rest => by rw [value, rest]) ha hb fun k => ?_
  rw [h k]
  cases find? k b with
  | none => exact .none
  | some v => exact .some rfl

theorem ofList_perm {a b : List (κ × α)} (distinct : (a.map (·.1)).Nodup) (perm : a.Perm b) :
    ofList a = ofList b := by
  have same : (b.map (·.1)).Nodup := (perm.map _).nodup_iff.1 distinct
  refine eq_of_find?_eq (sorted_ofList a) (sorted_ofList b) fun k => ?_
  rw [find?_ofList_of_nodup distinct, find?_ofList_of_nodup same, find?_perm distinct perm]

theorem ofList_of_sorted {m : List (κ × α)} (h : Sorted m) : ofList m = m :=
  eq_of_find?_eq (sorted_ofList m) h (find?_ofList_of_nodup (keys_nodup h))

theorem union_assoc {a b : List (κ × α)} (ha : Sorted a) (hb : Sorted b) (c : List (κ × α)) :
    c.foldl (fun m e => insert e.1 e.2 m) (b.foldl (fun m e => insert e.1 e.2 m) a) =
      (c.foldl (fun m e => insert e.1 e.2 m) b).foldl (fun m e => insert e.1 e.2 m) a := by
  refine eq_of_find?_eq (sorted_foldl_insert (sorted_foldl_insert ha)) (sorted_foldl_insert ha)
    fun k => ?_
  rw [find?_foldl_insert, find?_union hb, find?_union (sorted_foldl_insert hb),
    find?_foldl_insert, Option.or_assoc]

end ChangeReport.Assoc
