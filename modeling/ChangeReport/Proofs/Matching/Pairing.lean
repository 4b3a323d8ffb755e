import ChangeReport.Matching
import Mathlib.Data.List.Nodup

/-! Which pairs live objects and targets make. The pairs of a match are exactly those that
belong to the live objects and the definitions of the targets, each of them once and in the
order of the keys. -/
namespace ChangeReport

/-- The last live object of a key. -/
def lastOf? (k : ResourceKey) (live : List Document) : Option Document :=
  (live.filter fun d => d.key? = some k).getLast?

/-- The pairs that belong to live objects and definitions: the last live object of a key
with the definition of the key, if there is one, and a definition without a live object
that is neither a hook nor ignored. No pair is that of a core Secret. -/
inductive Belongs (definitions : List (ResourceKey × Document)) (live : List Document) :
    Pair → Prop
  | present {k : ResourceKey} {d : Document} (shown : k.isCoreSecret = false)
      (last : lastOf? k live = some d) :
      Belongs definitions live ⟨k, some d, Assoc.find? k definitions⟩
  | added {k : ResourceKey} {d : Document} (shown : k.isCoreSecret = false)
      (absent : lastOf? k live = none) (defined : Assoc.find? k definitions = some d)
      (runs : d.isHook = false) (counts : d.isIgnoredExtraneous = false) :
      Belongs definitions live ⟨k, none, some d⟩

namespace Belongs

variable {definitions : List (ResourceKey × Document)} {live : List Document} {p : Pair}

theorem shown (h : Belongs definitions live p) : p.key.isCoreSecret = false := by
  cases h with
  | present shown => exact shown
  | added shown => exact shown

theorem live_eq (h : Belongs definitions live p) : p.live = lastOf? p.key live := by
  cases h with
  | present shown last => exact last.symm
  | added shown absent => exact absent.symm

theorem target_eq (h : Belongs definitions live p) : p.target = Assoc.find? p.key definitions := by
  cases h with
  | present => rfl
  | added shown absent defined => exact defined.symm

end Belongs

theorem lastOf?_eq_some {k : ResourceKey} {live : List Document} {d : Document}
    (h : lastOf? k live = some d) : d ∈ live ∧ d.key? = some k := by
  simpa using List.mem_filter.1 (List.mem_of_getLast? h)

theorem exists_lastOf? {k : ResourceKey} {live : List Document} {d : Document} (member : d ∈ live)
    (key : d.key? = some k) : ∃ e, lastOf? k live = some e := by
  have there : d ∈ live.filter fun d => d.key? = some k := List.mem_filter.2 ⟨member, by simpa⟩
  exact ⟨_, List.getLast?_eq_some_getLast (List.ne_nil_of_mem there)⟩

/-! ## The index of live objects -/

theorem find?_liveIndex (k : ResourceKey) (live : List Document) :
    Assoc.find? k (liveIndex live) = lastOf? k live := by
  have key : ∀ d : Document, (d.key?.map (·, d)).map (·.1) = d.key? := by
    intro d
    rw [Option.map_map]
    exact congrFun Option.map_id d.key?
  rw [liveIndex, Assoc.find?_ofList_filterMap]
  simp only [key]
  change (lastOf? k live).bind (fun d => (d.key?.map (·, d)).map (·.2)) = lastOf? k live
  cases last : lastOf? k live with
  | none => rfl
  | some d =>
      rw [Option.bind_some, (lastOf?_eq_some last).2]
      rfl

theorem sorted_liveIndex (live : List Document) : Assoc.Sorted (liveIndex live) :=
  Assoc.sorted_ofList _

/-! ## Targets that wait -/

namespace Waiting

theorem take_fst (k : ResourceKey) (w : Waiting) :
    (w.take k).1 = (Assoc.find? k w.pending).or (Assoc.find? k w.excluded) := by
  unfold take
  split <;> simp_all

theorem take_take_of_ne {k l : ResourceKey} (ne : l ≠ k) (w : Waiting) :
    ((w.take k).2.take l).1 = (w.take l).1 := by
  rw [take_fst, take_fst, take]
  split <;> simp [Assoc.find?_erase_of_ne ne]

theorem sorted_pending_take {w : Waiting} (h : Assoc.Sorted w.pending) (k : ResourceKey) :
    Assoc.Sorted (w.take k).2.pending := by
  unfold take
  split
  · exact Assoc.sorted_erase h
  · exact h

theorem find?_pending_take {w : Waiting} (h : Assoc.Sorted w.pending) (k l : ResourceKey) :
    Assoc.find? l (w.take k).2.pending = if l = k then none else Assoc.find? l w.pending := by
  unfold take
  by_cases same : l = k
  · subst same
    split
    next => simpa using Assoc.find?_erase_self h
    next absent => simpa using absent
  · split
    next => simpa [same] using Assoc.find?_erase_of_ne same w.pending
    next => simp [same]

theorem ofDefinitions_eq (definitions : List (ResourceKey × Document)) :
    ofDefinitions definitions = ⟨definitions.filter fun e => !e.2.isExcluded,
      definitions.filter fun e => e.2.isExcluded⟩ := by
  simp only [ofDefinitions, List.partition_eq_filter_filter]
  rfl

theorem sorted_pending_ofDefinitions {definitions : List (ResourceKey × Document)}
    (h : Assoc.Sorted definitions) : Assoc.Sorted (ofDefinitions definitions).pending := by
  rw [ofDefinitions_eq]
  exact h.filter _

theorem find?_pending_ofDefinitions {definitions : List (ResourceKey × Document)}
    (h : Assoc.Sorted definitions) (k : ResourceKey) :
    Assoc.find? k (ofDefinitions definitions).pending =
      (Assoc.find? k definitions).filter fun d => !d.isExcluded := by
  rw [ofDefinitions_eq, Assoc.find?_filter h]

/-- Every definition waits, whether or not it is excluded. -/
theorem take_ofDefinitions {definitions : List (ResourceKey × Document)}
    (h : Assoc.Sorted definitions) (k : ResourceKey) :
    ((ofDefinitions definitions).take k).1 = Assoc.find? k definitions := by
  rw [take_fst, ofDefinitions_eq, Assoc.find?_filter h, Assoc.find?_filter h]
  cases Assoc.find? k definitions with
  | none => rfl
  | some d => cases excluded : d.isExcluded <;> simp [Option.filter, excluded]

end Waiting

/-! ## Pairing -/

theorem pairLive_fst {index : List (ResourceKey × Document)}
    (distinct : (index.map (·.1)).Nodup) (w : Waiting) :
    (pairLive index w).1 = (index.filter fun e => !e.1.isCoreSecret).map
      fun e => ⟨e.1, some e.2, (w.take e.1).1⟩ := by
  induction index generalizing w with
  | nil => rfl
  | cons e rest ih =>
      obtain ⟨k, d⟩ := e
      rw [List.map_cons, List.nodup_cons] at distinct
      -- the key of this live object takes nothing from those that follow
      have others : ∀ e ∈ rest, ((w.take k).2.take e.1).1 = (w.take e.1).1 := by
        intro e member
        refine Waiting.take_take_of_ne (fun same => distinct.1 ?_) w
        exact List.mem_map.2 ⟨e, member, same⟩
      have tail : (pairLive rest (w.take k).2).1 =
          (rest.filter fun e => !e.1.isCoreSecret).map
            fun e => ⟨e.1, some e.2, (w.take e.1).1⟩ := by
        rw [ih distinct.2]
        exact List.map_congr_left fun e member => by
          rw [others e (List.mem_filter.1 member).1]
      cases secret : k.isCoreSecret <;> simp [pairLive, secret, tail]

theorem sorted_pending_pairLive {w : Waiting} (h : Assoc.Sorted w.pending)
    (index : List (ResourceKey × Document)) :
    Assoc.Sorted (pairLive index w).2.pending := by
  induction index generalizing w with
  | nil => exact h
  | cons e rest ih => exact ih (Waiting.sorted_pending_take h e.1)

/-- The targets that still wait are those of keys without a live object. -/
theorem find?_pending_pairLive {w : Waiting} (h : Assoc.Sorted w.pending)
    (index : List (ResourceKey × Document)) (l : ResourceKey) :
    Assoc.find? l (pairLive index w).2.pending =
      if l ∈ index.map (·.1) then none else Assoc.find? l w.pending := by
  induction index generalizing w with
  | nil => simp [pairLive]
  | cons e rest ih =>
      rw [pairLive]
      dsimp only
      rw [ih (Waiting.sorted_pending_take h e.1), Waiting.find?_pending_take h]
      by_cases first : l = e.1 <;> by_cases later : l ∈ rest.map (·.1) <;> simp [first, later]

variable {targets live : List Document} {ns : String}

theorem sorted_deduplicate (targets : List Document) (scope : NamespaceScope) (ns : String) :
    Assoc.Sorted (deduplicate targets scope ns) :=
  Assoc.sorted_ofList _

theorem keys_nodup_pairs {index : List (ResourceKey × Document)} (h : Assoc.Sorted index)
    {w : Waiting} (waits : Assoc.Sorted w.pending) :
    (((pairLive index w).1 ++ (pairLive index w).2.added).map (·.key)).Nodup := by
  have left := sorted_pending_pairLive waits index
  rw [List.map_append, pairLive_fst (Assoc.keys_nodup h), Waiting.added, List.map_map,
    List.map_map, List.nodup_append]
  refine ⟨(Assoc.keys_nodup h).sublist (List.filter_sublist.map _),
    (Assoc.keys_nodup left).sublist (List.filter_sublist.map _), ?_⟩
  rintro k present l added rfl
  obtain ⟨e, member, rfl⟩ := List.mem_map.1 present
  obtain ⟨d, waiting, same⟩ := List.mem_map.1 added
  have found : Assoc.find? d.1 (pairLive index w).2.pending = some d.2 :=
    (Assoc.mem_iff_find? left).1 (List.mem_filter.1 waiting).1
  have key : d.1 = e.1 := same
  have inside : e.1 ∈ index.map (·.1) := List.mem_map_of_mem (List.mem_filter.1 member).1
  rw [key, find?_pending_pairLive waits, if_pos inside] at found
  cases found

theorem matchResources_sorted (targets live : List Document) (ns : String) :
    (matchResources targets live ns).Pairwise fun p q => compare p.key q.key = .lt := by
  have distinct := keys_nodup_pairs (sorted_liveIndex live)
    (Waiting.sorted_pending_ofDefinitions (sorted_deduplicate targets (.ofLive live) ns))
  rw [matchResources]
  dsimp only
  generalize (pairLive _ _).1 ++ Waiting.added _ = pairs at distinct ⊢
  have trans : ∀ p q r : Pair, p.before q = true → q.before r = true → p.before r = true :=
    fun p q r => Std.TransCmp.isLE_trans
  have total : ∀ p q : Pair, (p.before q || q.before p) = true := by
    intro p q
    have swap : compare q.key p.key = (compare p.key q.key).swap := Std.OrientedOrd.eq_swap
    rw [Pair.before, Pair.before, swap]
    cases compare p.key q.key <;> rfl
  have ordered := List.pairwise_mergeSort trans total pairs
  have apart : (pairs.mergeSort Pair.before).Pairwise fun p q => p.key ≠ q.key := by
    rw [← List.pairwise_map, ← List.nodup_iff_pairwise_ne]
    exact ((List.mergeSort_perm pairs Pair.before).map _).nodup_iff.2 distinct
  refine (ordered.and apart).imp fun {p q} h => ?_
  have le : (compare p.key q.key).isLE = true := h.1
  cases order : compare p.key q.key with
  | lt => rfl
  | eq => exact absurd (Std.LawfulEqCmp.eq_of_compare order) h.2
  | gt => simp [order] at le

theorem mem_matchResources {p : Pair} :
    p ∈ matchResources targets live ns ↔
      Belongs (deduplicate targets (.ofLive live) ns) live p := by
  have sorted := sorted_deduplicate targets (.ofLive live) ns
  have index := sorted_liveIndex live
  have waits := Waiting.sorted_pending_ofDefinitions sorted
  rw [matchResources]
  generalize deduplicate targets (.ofLive live) ns = definitions at *
  dsimp only
  rw [List.mem_mergeSort, List.mem_append, pairLive_fst (Assoc.keys_nodup index), Waiting.added]
  simp only [Waiting.take_ofDefinitions sorted, List.mem_map, List.mem_filter, Prod.exists,
    Assoc.mem_iff_find? index, find?_liveIndex,
    Assoc.mem_iff_find? (sorted_pending_pairLive waits _), find?_pending_pairLive waits,
    Assoc.mem_keys_iff index, Waiting.find?_pending_ofDefinitions sorted]
  constructor
  · rintro (⟨k, d, ⟨last, shown⟩, rfl⟩ | ⟨k, d, ⟨left, shown⟩, rfl⟩)
    · exact .present (by simpa using shown) last
    · cases last : lastOf? k live with
      | some => simp [last] at left
      | none =>
          simp only [last, Option.isSome_none, Bool.false_eq_true, if_false,
            Option.filter_eq_some_iff, Document.isExcluded, Bool.not_or, Bool.and_eq_true,
            Bool.not_eq_true'] at left
          exact .added (by simpa using shown) last left.1 left.2.1 left.2.2
  · rintro (⟨shown, last⟩ | ⟨shown, absent, defined, runs, counts⟩)
    · exact .inl ⟨_, _, ⟨last, by simpa using shown⟩, rfl⟩
    · refine .inr ⟨_, _, ⟨?_, by simpa using shown⟩, rfl⟩
      simp [absent, defined, Document.isExcluded, runs, counts, Option.filter]

theorem live_of_mem {p : Pair} (member : p ∈ matchResources targets live ns) {d : Document}
    (there : p.live = some d) : d ∈ live ∧ d.key? = some p.key :=
  lastOf?_eq_some ((mem_matchResources.1 member).live_eq.symm.trans there)

theorem eq_of_key_eq {p q : Pair} (hp : p ∈ matchResources targets live ns)
    (hq : q ∈ matchResources targets live ns) (same : p.key = q.key) : p = q := by
  have hp := mem_matchResources.1 hp
  have hq := mem_matchResources.1 hq
  have live := hp.live_eq.trans (same ▸ hq.live_eq.symm)
  have target := hp.target_eq.trans (same ▸ hq.target_eq.symm)
  cases p
  cases q
  simp_all

/-- Whatever the live objects, the targets and the default namespace, the pairs of a match
have strictly increasing keys and are exactly those that belong to the live objects and to
the last definitions of the targets. -/
theorem matchResources_exact (targets live : List Document) (ns : String) :
    (matchResources targets live ns).Pairwise (fun p q => compare p.key q.key = .lt) ∧
      ∀ p, p ∈ matchResources targets live ns ↔
        Belongs (deduplicate targets (.ofLive live) ns) live p :=
  ⟨matchResources_sorted targets live ns, fun _ => mem_matchResources⟩

end ChangeReport
