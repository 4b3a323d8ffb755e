import ChangeReport.Proofs.Document.Fields
import ChangeReport.Proofs.Matching.Pairing
import Mathlib.Data.List.Nodup

/-! The namespaces of targets. What a target becomes before it is matched has the key that
it is matched by, is as ordered and as much of a hook as the target, and has a namespace
exactly where its kind is in namespaces. -/
namespace ChangeReport

namespace NamespaceScope

/-- Live objects of a kind that agree about having a namespace decide about it. -/
theorem isNamespaced_ofLive {live : List Document} {group kind : String} {b : Bool}
    (some : ∃ d ∈ live, ∃ k, d.key? = some k ∧ k.group = group ∧ k.kind = kind)
    (agree : ∀ d ∈ live, ∀ k, d.key? = .some k → k.group = group → k.kind = kind →
      (k.ns != "") = b) : (ofLive live).isNamespaced group kind = b := by
  have first : ∀ ks : List ResourceKey, (∃ k ∈ ks, k.group = group ∧ k.kind = kind) →
      (∀ k ∈ ks, k.group = group → k.kind = kind → (k.ns != "") = b) →
      (ks.map fun k => ((k.group, k.kind), k.ns != "")).lookup (group, kind) = .some b := by
    intro ks some agree
    induction ks with
    | nil => simp at some
    | cons k ks ih =>
        by_cases own : k.group = group ∧ k.kind = kind
        · obtain ⟨rfl, rfl⟩ := own
          have here := agree k (List.mem_cons_self ..) rfl rfl
          rw [List.map_cons, List.lookup_cons_self, here]
        · have ne : ((group, kind) == (k.group, k.kind)) = false := by
            rw [beq_eq_false_iff_ne]
            intro same
            obtain ⟨rfl, rfl⟩ := Prod.mk.inj same
            exact own ⟨rfl, rfl⟩
          obtain ⟨l, member, kinds⟩ := some
          have later : l ∈ ks := by
            rcases List.mem_cons.1 member with rfl | later
            · exact absurd kinds own
            · exact later
          rw [List.map_cons, List.lookup_cons, ne]
          exact ih ⟨l, later, kinds⟩ fun k member => agree k (List.mem_cons_of_mem _ member)
  obtain ⟨d, member, k, key, kinds⟩ := some
  have found := first (live.filterMap Document.key?)
    ⟨k, List.mem_filterMap.2 ⟨d, member, key⟩, kinds⟩ fun l inside group kind => by
      obtain ⟨e, there, own⟩ := List.mem_filterMap.1 inside
      exact agree e there l own group kind
  rw [isNamespaced, ofLive, found]

/-- A kind that no live object has is in namespaces unless it is known not to be. -/
theorem isNamespaced_of_unseen {live : List Document} {group kind : String}
    (unseen : ∀ d ∈ live, ∀ k, d.key? = some k → k.group = group → k.kind ≠ kind) :
    (ofLive live).isNamespaced group kind = !clusterScopedKinds.contains (group, kind) := by
  have none : (ofLive live).kinds.lookup (group, kind) = none := by
    rw [List.lookup_eq_none_iff]
    intro e member
    obtain ⟨k, inside, rfl⟩ := List.mem_map.1 member
    obtain ⟨d, there, key⟩ := List.mem_filterMap.1 inside
    rw [bne_iff_ne]
    intro same
    obtain ⟨rfl, rfl⟩ := Prod.mk.inj same
    exact unseen d there k key rfl rfl
  rw [isNamespaced, none]

end NamespaceScope

/-- What becomes of a target before it is matched: its empty namespace is filled, its
namespace is cleared, or it stays as it is. -/
inductive Normalised (scope : NamespaceScope) (ns : String) (d : Document) :
    ResourceKey → Document → Prop
  | filled {l : ResourceKey} (key : d.key? = some l)
      (inside : scope.isNamespaced l.group l.kind = true) (unset : l.ns = "") (named : ns ≠ "") :
      Normalised scope ns d { l with ns } (d.withNamespace ns)
  | cleared {l : ResourceKey} (key : d.key? = some l)
      (outside : scope.isNamespaced l.group l.kind = false) (set : l.ns ≠ "") :
      Normalised scope ns d { l with ns := "" } d.withoutNamespace
  | kept {l : ResourceKey} (key : d.key? = some l)
      (inside : scope.isNamespaced l.group l.kind = true → l.ns ≠ "" ∨ ns = "")
      (outside : scope.isNamespaced l.group l.kind = false → l.ns = "") :
      Normalised scope ns d l d

variable {scope : NamespaceScope} {ns : String} {d e : Document} {k : ResourceKey}

theorem normalised_of_eq_some (h : d.normalised? scope ns = some (k, e)) :
    Normalised scope ns d k e := by
  obtain ⟨l, key, h⟩ := Option.map_eq_some_iff.1 h
  by_cases inside : scope.isNamespaced l.group l.kind = true
  · rw [if_pos inside] at h
    by_cases unset : l.ns = "" ∧ ns ≠ ""
    · rw [if_pos unset] at h
      obtain ⟨rfl, rfl⟩ := Prod.mk.inj h
      exact .filled key inside unset.1 unset.2
    · rw [if_neg unset] at h
      obtain ⟨rfl, rfl⟩ := Prod.mk.inj h
      refine .kept key (fun _ => ?_) fun outside => ?_
      · by_cases empty : l.ns = ""
        · exact .inr (Decidable.not_not.1 fun named => unset ⟨empty, named⟩)
        · exact .inl empty
      · simp [inside] at outside
  · rw [if_neg inside] at h
    by_cases set : l.ns ≠ ""
    · rw [if_pos set] at h
      obtain ⟨rfl, rfl⟩ := Prod.mk.inj h
      exact .cleared key (by simpa using inside) set
    · rw [if_neg set] at h
      obtain ⟨rfl, rfl⟩ := Prod.mk.inj h
      exact .kept key (fun into => absurd into inside) fun _ => Decidable.not_not.1 set

namespace Normalised

theorem key? (h : Normalised scope ns d k e) (ordered : d.Ordered) : e.key? = some k := by
  cases h with
  | filled key => exact Document.key?_withNamespace key ns
  | cleared key => exact Document.key?_withoutNamespace ordered key
  | kept key => exact key

theorem ordered (h : Normalised scope ns d k e) (ordered : d.Ordered) : e.Ordered := by
  cases h with
  | filled => exact ordered.withNamespace ns
  | cleared => exact ordered.withoutNamespace
  | kept => exact ordered

theorem annotation? (h : Normalised scope ns d k e) (name : String) :
    e.annotation? name = d.annotation? name := by
  cases h with
  | filled => exact Document.annotation?_withNamespace ns d name
  | cleared => exact Document.annotation?_withoutNamespace d name
  | kept => rfl

/-- Normalising changes at most the namespace of a key. -/
theorem exists_key (h : Normalised scope ns d k e) :
    ∃ l, d.key? = some l ∧ k.group = l.group ∧ k.kind = l.kind ∧ k.name = l.name := by
  cases h with
  | filled key => exact ⟨_, key, rfl, rfl, rfl⟩
  | cleared key => exact ⟨_, key, rfl, rfl, rfl⟩
  | kept key => exact ⟨_, key, rfl, rfl, rfl⟩

/-- With a default namespace, the targets with a namespace are those of kinds in
namespaces. -/
theorem ns_eq (h : Normalised scope ns d k e) (named : ns ≠ "") :
    (k.ns != "") = scope.isNamespaced k.group k.kind := by
  cases h with
  | filled key inside => simpa [inside] using named
  | cleared key outside => simp [outside]
  | kept key inside outside =>
      cases kind : scope.isNamespaced k.group k.kind with
      | true => simpa using (inside kind).resolve_right named
      | false => simp [outside kind]

end Normalised

/-- Scopes that agree about the kind of a target make the same of it. -/
theorem normalised?_congr {other : NamespaceScope}
    (same : ∀ l, d.key? = some l →
      scope.isNamespaced l.group l.kind = other.isNamespaced l.group l.kind) :
    d.normalised? scope ns = d.normalised? other ns := by
  rw [Document.normalised?, Document.normalised?]
  cases key : d.key? with
  | none => rfl
  | some l => rw [Option.map_some, Option.map_some, same l key]

/-! ## Definitions -/

variable {targets : List Document}

theorem exists_of_find?_deduplicate (h : Assoc.find? k (deduplicate targets scope ns) = some e) :
    ∃ d ∈ targets, d.normalised? scope ns = some (k, e) := by
  rw [deduplicate, Assoc.find?_ofList] at h
  obtain ⟨d, member, becomes⟩ := List.mem_filterMap.1 (List.mem_reverse.1 (Assoc.mem_of_find? h))
  exact ⟨d, member, becomes⟩

theorem find?_deduplicate_of_nodup
    (distinct : ((targets.filterMap (Document.normalised? scope ns)).map (·.1)).Nodup)
    (member : d ∈ targets) (becomes : d.normalised? scope ns = some (k, e)) :
    Assoc.find? k (deduplicate targets scope ns) = some e := by
  rw [deduplicate, Assoc.find?_ofList_of_nodup distinct]
  exact Assoc.find?_of_nodup distinct (List.mem_filterMap.2 ⟨d, member, becomes⟩)

/-- What a key is defined as depends on the scope of its kind alone. -/
theorem find?_deduplicate_congr {other : NamespaceScope}
    (same : scope.isNamespaced k.group k.kind = other.isNamespaced k.group k.kind) :
    Assoc.find? k (deduplicate targets scope ns) =
      Assoc.find? k (deduplicate targets other ns) := by
  have of_kind : ∀ {scope other : NamespaceScope},
      scope.isNamespaced k.group k.kind = other.isNamespaced k.group k.kind →
      ∀ d e : Document, d.normalised? scope ns = some (k, e) →
        d.normalised? other ns = some (k, e) := by
    intro scope other same d e becomes
    obtain ⟨l, key, group, kind, -⟩ := (normalised_of_eq_some becomes).exists_key
    rw [← becomes]
    refine (normalised?_congr fun l' key' => ?_).symm
    obtain rfl : l = l' := Option.some.inj (key.symm.trans key')
    rw [← group, ← kind, same]
  exact Assoc.find?_ofList_congr fun d _ e => ⟨of_kind same d e, of_kind same.symm d e⟩

/-- The target of a pair is what one of the targets becomes. -/
theorem exists_target {live : List Document} {p : Pair} {t : Document}
    (member : p ∈ matchResources targets live ns) (target : p.target = some t) :
    ∃ d ∈ targets, d.normalised? (.ofLive live) ns = some (p.key, t) := by
  have belongs := mem_matchResources.1 member
  exact exists_of_find?_deduplicate (belongs.target_eq.symm.trans target)

end ChangeReport
