import ChangeReport.Proofs.Comparison.Changes
import ChangeReport.Proofs.Matching.Secrets

/-! Resources that stay out of a comparison: Secrets of the core group, of which neither the
report nor the differ sees anything; hooks, whichever side says so; and, only as long as
they have no live object, targets that the compare options take out. -/
namespace ChangeReport

open Comparison

variable {targets live : List Document} {ns : String} {differ : Differ} {k : ResourceKey}

/-! ## Secrets -/

/-- Neither side of a pair is a Secret. -/
theorem isCoreSecret_of_mem {p : Pair} (member : p ∈ matchResources targets live ns) :
    (∀ d ∈ p.live, d.isCoreSecret = false) ∧ ∀ t ∈ p.target, t.isCoreSecret = false := by
  have shown := (mem_matchResources.1 member).shown
  refine ⟨fun d there => ?_, fun t aim => ?_⟩
  · rw [Document.isCoreSecret_of_key? (live_of_mem member there).2, shown]
  · obtain ⟨d, -, becomes⟩ := exists_target member aim
    rw [(normalised_of_eq_some becomes).isCoreSecret.2, shown]

/-- Secrets of the core group do not influence a comparison. Without them a match has the
same pairs; live objects and targets that are the same but for their Secrets have the same
comparison, or the same fault; and the differ is never asked about a Secret. -/
theorem secrets_unseen (targets live : List Document) (ns : String) (differ : Differ) :
    matchResources (withoutSecrets targets) (withoutSecrets live) ns =
        matchResources targets live ns ∧
      (∀ targets' live', withoutSecrets targets' = withoutSecrets targets →
        withoutSecrets live' = withoutSecrets live →
        ofPairs differ (matchResources targets' live' ns) =
          ofPairs differ (matchResources targets live ns)) ∧
      ∀ q ∈ questions differ (matchResources targets live ns),
        (∀ d ∈ q.1, d.isCoreSecret = false) ∧ ∀ t ∈ q.2, t.isCoreSecret = false := by
  refine ⟨matchResources_withoutSecrets targets live ns, ?_, ?_⟩
  · intro targets' live' same_targets same_live
    rw [← matchResources_withoutSecrets targets' live', same_targets, same_live,
      matchResources_withoutSecrets]
  · intro q asked
    obtain ⟨p, member, -, rfl⟩ := mem_questions asked
    exact isCoreSecret_of_mem member

/-- Secrets that differ, that are missing on one side and that stand in other places. -/
theorem secrets_unseen_of_keys :
    withoutSecrets [sample "Secret" "key" "new" [], sample "ConfigMap" "web" "blue" []] =
        withoutSecrets [sample "ConfigMap" "web" "blue" [], sample "Secret" "key" "old" []] ∧
      ofPairs overlayDiffer (matchResources
          [sample "Secret" "key" "new" [], sample "ConfigMap" "web" "blue" []]
          [sample "ConfigMap" "web" "red" [], sample "Secret" "other" "old" []] "prod") =
        ofPairs overlayDiffer (matchResources
          [sample "ConfigMap" "web" "blue" [], sample "Secret" "key" "old" []]
          [sample "ConfigMap" "web" "red" []] "prod") :=
  ⟨rfl, (secrets_unseen _ _ "prod" overlayDiffer).2.1 _ _ rfl rfl⟩

/-! ## Hooks -/

/-- The pair of a key of which one side is a hook is a hook. -/
theorem isHook_of_mem
    (hook : (∃ d, lastOf? k live = some d ∧ d.isHook = true) ∨
      ∃ t, Assoc.find? k (deduplicate targets (.ofLive live) ns) = some t ∧ t.isHook = true)
    {p : Pair} (member : p ∈ matchResources targets live ns) (own : p.key = k) :
    p.isHook = true := by
  subst own
  have belongs := mem_matchResources.1 member
  rw [Pair.isHook, belongs.live_eq, belongs.target_eq]
  rcases hook with ⟨d, last, hook⟩ | ⟨t, defined, hook⟩
  · simp [last, hook]
  · simp [defined, hook]

/-- A hook on either side of a key, the last live object or the definition of the targets,
takes the key out of the comparison: no change is of this key, the differ is not asked
about it, and the comparison and its questions are those of the other pairs. -/
theorem hooks_left_out (targets live : List Document) (ns : String) (differ : Differ)
    (k : ResourceKey)
    (hook : (∃ d, lastOf? k live = some d ∧ d.isHook = true) ∨
      ∃ t, Assoc.find? k (deduplicate targets (.ofLive live) ns) = some t ∧ t.isHook = true) :
    (∀ cs, changesOf differ (matchResources targets live ns) = .ok cs →
        ofPairs differ (matchResources targets live ns) = .ok (.ofChanges cs) ∧
          ∀ c ∈ cs, c.key ≠ k) ∧
      (∀ q ∈ questions differ (matchResources targets live ns),
        ∃ p ∈ matchResources targets live ns, p.key ≠ k ∧ q = p.question) ∧
      ofPairs differ (matchResources targets live ns) =
        ofPairs differ ((matchResources targets live ns).filter (·.key ≠ k)) ∧
      questions differ (matchResources targets live ns) =
        questions differ ((matchResources targets live ns).filter (·.key ≠ k)) := by
  have hooks : ∀ p ∈ matchResources targets live ns, p.key = k → p.isHook = true :=
    fun p member => isHook_of_mem hook member
  have left_out : ∀ p ∈ matchResources targets live ns,
      decide (p.key ≠ k) = false → p.isHook = true :=
    fun p member own => hooks p member (by simpa using own)
  refine ⟨fun cs done => ⟨by rw [ofPairs_eq, done]; rfl, fun c inside own => ?_⟩,
    fun q asked => ?_, ?_, ?_⟩
  · obtain ⟨p, member, runs, v, -, change⟩ := mem_changesOf done inside
    have hook := hooks p member ((Pair.key_of_changeOf change).symm.trans own)
    simp [runs] at hook
  · obtain ⟨p, member, runs, rfl⟩ := mem_questions asked
    refine ⟨p, member, fun own => ?_, rfl⟩
    have hook := hooks p member own
    simp [runs] at hook
  · rw [ofPairs_eq_in, ofPairs_eq_in]
    exact (ofPairsIn_filter _ left_out).symm
  · rw [questions, questions, ofPairsIn_filter _ left_out]

def migration : ResourceKey := ⟨"", "Job", "prod", "migrate"⟩

def liveMigration : Document := sample "Job" "migrate" "red" []

def hookMigration : Document :=
  sample "Job" "migrate" "blue" [("argocd.argoproj.io/hook", .string "Sync")]

/-- The target says that it is a hook, and its live object does not. -/
theorem hooks_left_out_of_migration :
    (∃ t, Assoc.find? migration (deduplicate [hookMigration] (.ofLive [liveMigration]) "prod") =
        some t ∧ t.isHook = true) ∧
      ofPairs overlayDiffer (matchResources [hookMigration] [liveMigration] "prod") =
        ofPairs overlayDiffer
          ((matchResources [hookMigration] [liveMigration] "prod").filter (·.key ≠ migration)) := by
  have hook : ∃ t, Assoc.find? migration
      (deduplicate [hookMigration] (.ofLive [liveMigration]) "prod") = some t ∧ t.isHook = true :=
    ⟨hookMigration, rfl, rfl⟩
  exact ⟨hook, (hooks_left_out _ _ "prod" overlayDiffer migration (.inr hook)).2.2.1⟩

/-! ## Ignored targets -/

theorem exists_changesOf_overlay (pairs : List Pair) :
    ∃ cs, changesOf overlayDiffer pairs = .ok cs :=
  exists_changesOf fun p _ => ⟨overlayVerdict p.live p.target, rfl⟩

/-- An ignored target has a change only if it has a live object, and then the object is
modified. -/
theorem modified_of_ignored {p : Pair} {v : Verdict} {c : Change} {t : Document}
    (member : p ∈ matchResources targets live ns) (aim : p.target = some t)
    (ignored : t.isIgnoredExtraneous = true) (change : p.changeOf v = some c) :
    (∃ d, p.live = some d) ∧ v.modified = true ∧ c.kind = .modified ∧ c.child = none := by
  cases mem_matchResources.1 member with
  | added shown absent defined runs counts =>
      obtain rfl := Option.some.inj aim
      simp [ignored] at counts
  | @present k d shown last =>
      replace aim : Assoc.find? k (deduplicate targets (.ofLive live) ns) = some t := aim
      simp only [Pair.changeOf, aim] at change
      cases modified : v.modified with
      | false => simp [modified] at change
      | true =>
          rw [if_pos modified] at change
          obtain rfl := Option.some.inj change
          exact ⟨⟨d, rfl⟩, rfl, rfl, rfl⟩

/-- A live object that its target changes is among the modified ones, unless one of the
two is a hook or the object is a Secret. -/
theorem exists_modified {d t : Document} {cs : List Change} (shown : k.isCoreSecret = false)
    (last : lastOf? k live = some d)
    (defined : Assoc.find? k (deduplicate targets (.ofLive live) ns) = some t)
    (runs : d.isHook = false ∧ t.isHook = false) (differs : changes (some d) (some t) = true)
    (done : changesOf overlayDiffer (matchResources targets live ns) = .ok cs) :
    ∃ c ∈ cs, c.key = k ∧ c.kind = .modified := by
  have member : ⟨k, some d, some t⟩ ∈ matchResources targets live ns :=
    mem_matchResources.2 (defined ▸ .present shown last)
  refine ⟨_, mem_changesOf_of_mem done member (by simp [Pair.isHook, runs]) rfl
    (if_pos differs), rfl, rfl⟩

/-- What becomes of a target that the compare options take out: it is never added and
never removed, but it modifies its live object like any other target. -/
theorem ignored_only_modifies (targets live : List Document) (ns : String) (k : ResourceKey)
    (t : Document) (defined : Assoc.find? k (deduplicate targets (.ofLive live) ns) = some t)
    (ignored : t.isIgnoredExtraneous = true) :
    ∃ cs, changesOf overlayDiffer (matchResources targets live ns) = .ok cs ∧
      (∀ c ∈ cs, c.key = k → c.kind = .modified ∧ c.child = none) ∧
      ((∃ c ∈ cs, c.key = k) ↔ ∃ d, lastOf? k live = some d ∧ k.isCoreSecret = false ∧
        d.isHook = false ∧ t.isHook = false ∧ changes (some d) (some t) = true) := by
  obtain ⟨cs, done⟩ := exists_changesOf_overlay (matchResources targets live ns)
  -- a change of this key comes from the pair of the last live object and the ignored target
  have origin : ∀ c ∈ cs, c.key = k → ∃ p ∈ matchResources targets live ns, p.key = k ∧
      p.target = some t ∧ p.isHook = false ∧
      p.changeOf (overlayVerdict p.live p.target) = some c := by
    intro c inside own
    obtain ⟨p, member, runs, v, verdict, change⟩ := mem_changesOf done inside
    obtain rfl := Except.ok.inj verdict
    have key : p.key = k := (Pair.key_of_changeOf change).symm.trans own
    have target := (mem_matchResources.1 member).target_eq
    rw [key, defined] at target
    exact ⟨p, member, key, target, runs, change⟩
  refine ⟨cs, done, fun c inside own => ?_, ?_, ?_⟩
  · obtain ⟨p, member, -, aim, -, change⟩ := origin c inside own
    exact (modified_of_ignored member aim ignored change).2.2
  · rintro ⟨c, inside, own⟩
    obtain ⟨p, member, rfl, aim, runs, change⟩ := origin c inside own
    obtain ⟨⟨d, there⟩, modified, -⟩ := modified_of_ignored member aim ignored change
    have belongs := mem_matchResources.1 member
    simp only [Pair.isHook, there, aim, Option.any_some, Bool.or_eq_false_iff] at runs
    refine ⟨d, belongs.live_eq.symm.trans there, belongs.shown, runs.1, runs.2, ?_⟩
    rwa [overlayVerdict, there, aim] at modified
  · rintro ⟨d, last, shown, runs, still, differs⟩
    obtain ⟨c, inside, own, -⟩ := exists_modified shown last defined ⟨runs, still⟩ differs done
    exact ⟨c, inside, own⟩

def webConfig : ResourceKey := ⟨"", "ConfigMap", "prod", "web"⟩

def liveWeb : Document := sample "ConfigMap" "web" "red" []

def ignoredWeb : Document :=
  sample "ConfigMap" "web" "blue"
    [("argocd.argoproj.io/compare-options", .string "IgnoreExtraneous")]

theorem ignored_only_modifies_web :
    (Assoc.find? webConfig (deduplicate [ignoredWeb] (.ofLive [liveWeb]) "prod") =
        some ignoredWeb ∧ ignoredWeb.isIgnoredExtraneous = true) ∧
      ∃ cs, changesOf overlayDiffer (matchResources [ignoredWeb] [liveWeb] "prod") = .ok cs ∧
        (∃ c ∈ cs, c.key = webConfig) ∧ ∀ c ∈ cs, c.key = webConfig → c.kind = .modified := by
  have defined : Assoc.find? webConfig (deduplicate [ignoredWeb] (.ofLive [liveWeb]) "prod") =
      some ignoredWeb := rfl
  have ignored : ignoredWeb.isIgnoredExtraneous = true := rfl
  obtain ⟨cs, done, modified, iff⟩ :=
    ignored_only_modifies [ignoredWeb] [liveWeb] "prod" webConfig ignoredWeb defined ignored
  exact ⟨⟨defined, ignored⟩, cs, done, iff.2 ⟨liveWeb, rfl, rfl, rfl, rfl, rfl⟩,
    fun c inside own => (modified c inside own).1⟩

/-- The compare options do not take a target out of the comparison: this one is reported,
because it has a live object. -/
theorem ignored_not_left_out :
    ¬ ∀ (targets live : List Document) (ns : String) (k : ResourceKey) (t : Document),
      Assoc.find? k (deduplicate targets (.ofLive live) ns) = some t →
      t.isIgnoredExtraneous = true →
      ∀ cs, changesOf overlayDiffer (matchResources targets live ns) = .ok cs →
        ∀ c ∈ cs, c.key ≠ k := by
  intro left_out
  obtain ⟨cs, done⟩ := exists_changesOf_overlay (matchResources [ignoredWeb] [liveWeb] "prod")
  have defined : Assoc.find? webConfig (deduplicate [ignoredWeb] (.ofLive [liveWeb]) "prod") =
      some ignoredWeb := rfl
  have last : lastOf? webConfig [liveWeb] = some liveWeb := rfl
  obtain ⟨c, inside, own, -⟩ := exists_modified rfl last defined ⟨rfl, rfl⟩ rfl done
  exact left_out [ignoredWeb] [liveWeb] "prod" webConfig ignoredWeb defined rfl cs done c inside own

end ChangeReport
