import ChangeReport.Proofs.Comparison.Changes
import ChangeReport.Proofs.Document.Overlay
import ChangeReport.Proofs.Matching.Namespaces
import ChangeReport.Proofs.Matching.Pairing
import Mathlib

/-! Predictions that have come true. Live objects that look as a comparison predicted are
all that the targets ask for: the same targets, compared with them, show no change. The
second comparison learns from other live objects than the first which kinds are in
namespaces, and a kind without predictions is not among them any more. -/
namespace ChangeReport

/-- The prediction for a pair with a target, read back from the verdict. -/
def Pair.predicted? (p : Pair) : Option Document :=
  p.target.bind fun _ => (overlayVerdict p.live p.target).document?

/-- The live objects that the targets of a match lead to. -/
def predictions (pairs : List Pair) : List Document := pairs.filterMap Pair.predicted?

/-! ## Comparisons without a change -/

/-- A live object that looks as predicted is not modified by its target. -/
theorem changes_predict {old : Option Document} {target : Document}
    (before : ∀ d, old = some d → d.Ordered) (ordered : target.Ordered) :
    changes (some (predict old (some target))) (some target) = false := by
  have settled : (predict old (some target)).overlay target.strip = predict old (some target) := by
    cases old with
    | none => exact Document.overlay_self ordered.strip
    | some d => exact Document.overlay_overlay (before d rfl) ordered.strip
  rw [changes, settled, Document.same_self]
  rfl

/-! ## Pairs with a target -/

section

variable {targets live : List Document} {ns : String} {p : Pair} {t : Document}

/-- A target that is neither excluded nor a core Secret is in the match. -/
theorem exists_pair {d : Document} {k : ResourceKey}
    (distinct : ((targets.filterMap (Document.normalised? (.ofLive live) ns)).map (·.1)).Nodup)
    (member : d ∈ targets) (becomes : d.normalised? (.ofLive live) ns = some (k, t))
    (shown : k.isCoreSecret = false) (runs : t.isHook = false)
    (counts : t.isIgnoredExtraneous = false) :
    ∃ p ∈ matchResources targets live ns, p.key = k ∧ p.target = some t := by
  have defined := find?_deduplicate_of_nodup distinct member becomes
  cases last : lastOf? k live with
  | some old => exact ⟨_, mem_matchResources.2 (.present shown last), rfl, defined⟩
  | none => exact ⟨_, mem_matchResources.2 (.added shown last defined runs counts), rfl, rfl⟩

theorem ordered_target (ordered : ∀ d ∈ targets, d.Ordered)
    (member : p ∈ matchResources targets live ns) (target : p.target = some t) : t.Ordered := by
  obtain ⟨d, inside, becomes⟩ := exists_target member target
  exact (normalised_of_eq_some becomes).ordered (ordered d inside)

/-- The prediction for a pair has the key of the pair. -/
theorem key?_predict (ordered : ∀ d ∈ targets, d.Ordered)
    (member : p ∈ matchResources targets live ns) (target : p.target = some t) :
    (predict p.live (some t)).key? = some p.key := by
  obtain ⟨d, inside, becomes⟩ := exists_target member target
  have normalised := normalised_of_eq_some becomes
  have key : t.strip.key? = some p.key :=
    t.key?_strip.trans (normalised.key? (ordered d inside))
  cases there : p.live with
  | none => exact key
  | some old =>
      exact Document.key?_overlay (normalised.ordered (ordered d inside)).strip
        (live_of_mem member there).2 key

/-! ## Live objects as predicted -/

variable {after : List Document} {k : ResourceKey} {d : Document}

/-- The live objects are exactly the predictions for the pairs with a target. -/
def AsPredicted (targets live : List Document) (ns : String) (after : List Document) : Prop :=
  ∀ d, d ∈ after ↔ ∃ p ∈ matchResources targets live ns, ∃ t, p.target = some t ∧
    d = predict p.live (some t)

theorem asPredicted_of_perm (ordered : ∀ d ∈ targets, d.Ordered)
    (read : ∀ p ∈ matchResources targets live ns, ∀ t, p.target = some t →
      Json.decode (Json.encode (predict p.live (some t))) = some (predict p.live (some t)))
    (perm : after.Perm (predictions (matchResources targets live ns))) :
    AsPredicted targets live ns after := by
  intro d
  rw [perm.mem_iff, predictions, List.mem_filterMap]
  refine exists_congr fun p => and_congr_right fun member => ?_
  rw [Pair.predicted?, Option.bind_eq_some_iff]
  refine exists_congr fun t => and_congr_right fun target => ?_
  have back := read p member t target
  have key := key?_predict ordered member target
  have some : (overlayVerdict p.live p.target).document? = some (predict p.live (some t)) := by
    rw [Verdict.document?, overlayVerdict, target, back]
    split
    next null =>
      rw [Option.some.inj null] at key
      cases key
    next => rfl
  rw [some, Option.some.injEq, eq_comm]

namespace AsPredicted

theorem lastOf? (h : AsPredicted targets live ns after) (ordered : ∀ d ∈ targets, d.Ordered)
    (member : p ∈ matchResources targets live ns) (target : p.target = some t) :
    lastOf? p.key after = some (predict p.live (some t)) := by
  have there := (h _).2 ⟨p, member, t, target, rfl⟩
  obtain ⟨e, last⟩ := exists_lastOf? there (key?_predict ordered member target)
  obtain ⟨inside, key⟩ := lastOf?_eq_some last
  obtain ⟨q, found, s, aim, rfl⟩ := (h e).1 inside
  have same : q.key = p.key := Option.some.inj ((key?_predict ordered found aim).symm.trans key)
  obtain rfl := eq_of_key_eq found member same
  obtain rfl : s = t := Option.some.inj (aim.symm.trans target)
  exact last

/-- About a kind that is still there, the predictions tell what the live objects before
them told. -/
theorem isNamespaced_eq (h : AsPredicted targets live ns after) (ordered : ∀ d ∈ targets, d.Ordered)
    (named : ns ≠ "") (member : p ∈ matchResources targets live ns) (target : p.target = some t) :
    (NamespaceScope.ofLive after).isNamespaced p.key.group p.key.kind =
      (NamespaceScope.ofLive live).isNamespaced p.key.group p.key.kind := by
  refine NamespaceScope.isNamespaced_ofLive
    ⟨_, (h _).2 ⟨p, member, t, target, rfl⟩, _, key?_predict ordered member target, rfl, rfl⟩ ?_
  intro d inside k key group kind
  obtain ⟨q, found, s, aim, rfl⟩ := (h d).1 inside
  obtain rfl : q.key = k := Option.some.inj ((key?_predict ordered found aim).symm.trans key)
  obtain ⟨e, -, becomes⟩ := exists_target found aim
  rw [← group, ← kind]
  exact (normalised_of_eq_some becomes).ns_eq named

/-- A second match has the pairs with a target of the first one, now with what was
predicted for them, and no others. -/
theorem pair_eq (h : AsPredicted targets live ns after) (ordered : ∀ d ∈ targets, d.Ordered)
    (named : ns ≠ "")
    (distinct : ((targets.filterMap (Document.normalised? (.ofLive live) ns)).map (·.1)).Nodup)
    {q : Pair} (again : q ∈ matchResources targets after ns) :
    ∃ p ∈ matchResources targets live ns, ∃ t, p.target = some t ∧
      q.live = some (predict p.live (some t)) ∧ q.target = some t := by
  have same_target : ∀ p ∈ matchResources targets live ns, ∀ t, p.target = some t →
      Assoc.find? p.key (deduplicate targets (.ofLive after) ns) = some t := by
    intro p member t target
    rw [find?_deduplicate_congr (h.isNamespaced_eq ordered named member target),
      ← (mem_matchResources.1 member).target_eq, target]
  cases mem_matchResources.1 again with
  | @present k d shown last =>
      obtain ⟨inside, key⟩ := lastOf?_eq_some last
      obtain ⟨p, member, t, target, rfl⟩ := (h d).1 inside
      obtain rfl : p.key = k :=
        Option.some.inj ((key?_predict ordered member target).symm.trans key)
      exact ⟨p, member, t, target, rfl, same_target p member t target⟩
  | @added k e shown absent defined runs counts =>
      -- the target was in the first match, so what was predicted for it is there
      obtain ⟨d, inside, becomes⟩ := exists_of_find?_deduplicate defined
      have second := normalised_of_eq_some becomes
      obtain ⟨l, key, group, kind, name⟩ := second.exists_key
      obtain ⟨⟨k', e'⟩, before⟩ : ∃ r, d.normalised? (.ofLive live) ns = some r := by
        rw [Document.normalised?, key]
        exact ⟨_, rfl⟩
      have first := normalised_of_eq_some before
      obtain ⟨l', key', group', kind', name'⟩ := first.exists_key
      obtain rfl : l = l' := Option.some.inj (key.symm.trans key')
      have annotations : ∀ name, e'.annotation? name = e.annotation? name := fun name =>
        (first.annotation? name).trans (second.annotation? name).symm
      obtain ⟨p, member, rfl, target⟩ := exists_pair distinct inside before
        (by rw [← shown, ResourceKey.isCoreSecret, ResourceKey.isCoreSecret, group, kind, group',
          kind'])
        (by rw [Document.isHook_congr annotations, runs])
        (by rw [Document.isIgnoredExtraneous_congr annotations, counts])
      have agree := h.isNamespaced_eq ordered named member target
      have same : (k, e) = (p.key, e') := by
        refine Option.some.inj
          ((becomes.symm.trans (normalised?_congr fun l₂ key₂ => ?_)).trans before)
        obtain rfl : l = l₂ := Option.some.inj (key.symm.trans key₂)
        rw [← group', ← kind', agree]
      have there := h.lastOf? ordered member target
      rw [← (Prod.mk.inj same).1, absent] at there
      cases there

end AsPredicted

end

/-- Live objects that are the predictions of a comparison, in any order, are what the
targets ask for: compared with them, the same targets show no change. -/
theorem compare_predictions (targets live after : List Document) (ns : String) (named : ns ≠ "")
    (live_ordered : ∀ d ∈ live, d.Ordered) (targets_ordered : ∀ d ∈ targets, d.Ordered)
    (distinct : ((targets.filterMap (Document.normalised? (.ofLive live) ns)).map (·.1)).Nodup)
    (read : ∀ p ∈ matchResources targets live ns, ∀ t, p.target = some t →
      Json.decode (Json.encode (predict p.live (some t))) = some (predict p.live (some t)))
    (perm : after.Perm (predictions (matchResources targets live ns))) :
    ∃ c, Comparison.ofPairs overlayDiffer (matchResources targets after ns) = .ok c ∧
      c.counts = .zero ∧ c.text = "No changes" := by
  have applied := asPredicted_of_perm targets_ordered read perm
  have unchanged : ∀ q ∈ matchResources targets after ns, q.change overlayDiffer = .ok none := by
    intro q again
    obtain ⟨p, member, t, target, now, aim⟩ :=
      applied.pair_eq targets_ordered named distinct again
    refine Pair.change_of_changes now aim (changes_predict (fun d there => ?_) ?_)
    · exact live_ordered d (live_of_mem member there).1
    · exact ordered_target targets_ordered member target
  exact ⟨_, Comparison.ofPairs_of_unchanged unchanged, rfl, rfl⟩

/-- A map in the cluster, with fields that its target does not have. -/
def liveConfig (color : String) : Document :=
  .object [("data", .object [("color", .string color), ("local", .string "1")]),
    ("kind", .string "ConfigMap"),
    ("metadata", .object [("name", .string "web"), ("namespace", .string "prod"),
      ("uid", .string "7")])]

def targetConfig : Document :=
  .object [("data", .object [("color", .string "blue")]), ("kind", .string "ConfigMap"),
    ("metadata", .object [("name", .string "web")])]

def targetService : Document :=
  .object [("kind", .string "Service"), ("metadata", .object [("name", .string "web")])]

/-- The only live object of its kind, which shows that the kind is outside of namespaces. -/
def liveGadget : Document :=
  .object [("kind", .string "Gadget"), ("metadata", .object [("name", .string "old")])]

def ignoredGadget : Document :=
  .object [("kind", .string "Gadget"),
    ("metadata", .object [("annotations", .object
        [("argocd.argoproj.io/compare-options", .string "IgnoreExtraneous")]),
      ("name", .string "new"), ("namespace", .string "prod")])]

set_option maxRecDepth 4000 in
/-- A changed map, an added service, and an ignored gadget whose kind is not there any more
when the predictions have come true. -/
theorem compare_predictions_of_web :
    ∃ c, Comparison.ofPairs overlayDiffer
        (matchResources [targetConfig, targetService, ignoredGadget]
          [targetService.withNamespace "prod", liveConfig "blue"] "prod") = .ok c ∧
      c.counts = .zero ∧ c.text = "No changes" := by
  have pairs : matchResources [targetConfig, targetService, ignoredGadget]
      [liveConfig "red", liveGadget] "prod" =
        [⟨⟨"", "ConfigMap", "prod", "web"⟩, some (liveConfig "red"),
            some (targetConfig.withNamespace "prod")⟩,
          ⟨⟨"", "Gadget", "", "old"⟩, some liveGadget, none⟩,
          ⟨⟨"", "Service", "prod", "web"⟩, none, some (targetService.withNamespace "prod")⟩] := by
    cbv
  have live_read : ∀ d ∈ [liveConfig "red", liveGadget], Json.decode (Json.encode d) = some d := by
    intro d member
    simp only [List.mem_cons, List.not_mem_nil, or_false] at member
    rcases member with rfl | rfl <;> cbv
  have targets_read : ∀ d ∈ [targetConfig, targetService, ignoredGadget],
      Json.decode (Json.encode d) = some d := by
    intro d member
    simp only [List.mem_cons, List.not_mem_nil, or_false] at member
    rcases member with rfl | rfl | rfl <;> cbv
  refine compare_predictions [targetConfig, targetService, ignoredGadget]
    [liveConfig "red", liveGadget] _ "prod" (by decide)
    (fun d member => Document.ordered_of_decode (live_read d member))
    (fun d member => Document.ordered_of_decode (targets_read d member)) ?_ ?_ ?_
  · decide +kernel
  · intro p member t target
    rw [pairs] at member
    simp only [List.mem_cons, List.not_mem_nil, or_false] at member
    rcases member with rfl | rfl | rfl
    · obtain rfl := Option.some.inj target
      cbv
    · cases target
    · obtain rfl := Option.some.inj target
      cbv
  · have predicted : predictions (matchResources [targetConfig, targetService, ignoredGadget]
        [liveConfig "red", liveGadget] "prod") =
          [liveConfig "blue", targetService.withNamespace "prod"] := by
      cbv
    rw [predicted]
    exact .swap ..

end ChangeReport
