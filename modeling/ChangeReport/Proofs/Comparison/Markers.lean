import ChangeReport.Proofs.Comparison.Lines
import ChangeReport.Proofs.Report.Failure

/-! Marked lines in what a comparison shows. Headers, counts, and lines that are added or removed
are never marked, for each has a mark of its own in front. A line that is kept next to a change
stands behind a blank, and blanks are skipped: such a line is marked if its text is. -/
namespace ChangeReport
open Text Report

theorem unmarked_isMarked : Unmarked isMarked where
  blank := isMarked_append_blank
  empty := rfl
  mark {c} member l := by
    have other : ∀ c ∈ ['=', '@', '-', '+', '\\', 'N'], isIndent c = false ∧ c ≠ ':' := by
      simp [isIndent]
    exact isMarked_cons_of_ne (other c member).1 (other c member).2 l

theorem LineDiff.hasMark_of_mem_lines {cs : List Char} (h : '\r' ∉ cs) {line : LineDiff.Line}
    (member : line ∈ lines cs) (marked : isMarked (bare line) = true) : hasMark cs = true :=
  List.any_eq_true.2 ⟨bare line, (bare_lines h).subset (List.mem_map_of_mem member), marked⟩

/-- The first lines and the last one of a fragment are not marked. -/
theorem isFailure_fragment {c : Comparison} (summary : ':' ∉ c.summary.toList) :
    isFailure (Run.fragment c) = isFailure c.text := by
  rw [isFailure_eq, fragment_toList, hasMark_append_line, hasMark_append_line, hasMark_append_line,
    hasMark_append_line, hasMark_trimEndChars, hasMark_eq_false summary,
    hasMark_eq_false (show ':' ∉ fence ++ "diff".toList by decide)]
  exact Bool.or_false _

/-- A comparison of pairs tells of a failure exactly if a line of some context is marked. -/
theorem exists_ofPairs_overlay {pairs : List Pair} (own : ∀ p ∈ pairs, '\n' ∉ p.key.render.toList) :
    ∃ c, Comparison.ofPairs overlayDiffer pairs = .ok c ∧
      (isFailure (Run.fragment c) = true ↔
        ∃ p ∈ pairs, ∃ line ∈ p.context, isMarked line = true) := by
  obtain ⟨cs, done⟩ := exists_changesOf_overlay pairs
  have summary : (Comparison.ofChanges cs).summary = (countAll cs).render := rfl
  refine ⟨.ofChanges cs, by rw [Comparison.ofPairs_eq, done]; rfl, ?_⟩
  have lines := anyLine_text_iff unmarked_isMarked own done
  simp only [isMarked_cons_of_indent (c := ' ') rfl] at lines
  rw [isFailure_fragment (summary ▸ notMem_render rfl (by decide) _)]
  exact lines

/-! ## Sections of applications -/

/-- What the section of an application that was compared says of failures: it tells of one exactly
if a resource is modified next to a line that it keeps and that begins with a marker. So it tells
of none as long as no live object has such a line. -/
theorem fragment_isFailure_iff {w : Run.Worker} (overlay : w.differ = overlayDiffer) {app : String}
    {live targets : List Document} (shown : w.source.live app = .ok live)
    (aimed : w.source.target app = .ok targets)
    (own : ∀ p ∈ matchResources targets live (w.source.defaultNamespace app),
      '\n' ∉ p.key.render.toList) :
    ∃ c, w.compare app = .ok c ∧
      (isFailure (Run.fragment c) = true ↔
        ∃ p ∈ matchResources targets live (w.source.defaultNamespace app),
          ∃ line ∈ p.context, isMarked line = true) ∧
      ((∀ d ∈ live, isFailure (Yaml.canonical (some d)) = false) →
        isFailure (Run.fragment c) = false) := by
  obtain ⟨c, compared, iff⟩ := exists_ofPairs_overlay own
  refine ⟨c, compare_eq_ok shown aimed (overlay ▸ compared), iff,
    fun calm => Bool.eq_false_iff.2 fun fails => ?_⟩
  obtain ⟨p, member, line, kept, marked⟩ := iff.1 fails
  unfold Pair.context at kept
  split at kept
  next d t there aim =>
    split at kept
    · obtain ⟨source, inside, rfl⟩ := LineDiff.exists_line_of_mem_context kept
      have red : isFailure (Yaml.canonical (some d)) = true :=
        LineDiff.hasMark_of_mem_lines (Yaml.notMem_canonical _) inside marked
      exact Bool.false_ne_true ((calm d (live_of_mem member there).1).symm.trans red)
    · cases kept
  next => cases kept

/-- A manifest with a log whose line begins with a marker. -/
def logged (color : String) : Document :=
  .object [("data", .object [("color", .string color), ("log", .string ":warning: disk full\n")]),
    ("kind", .string "ConfigMap"), ("metadata", .object [("name", .string "web")])]

/-- The only resource of `shop` changes its color, right above its log. -/
def Run.Worker.logging : Run.Worker where
  source := ⟨["shop"], fun _ => "", fun _ => .ok [logged "red"], fun _ => .ok [logged "blue"]⟩
  differ := overlayDiffer
  summarize := none

theorem notMem_key_logging :
    ∀ p ∈ matchResources [logged "blue"] [logged "red"] "", '\n' ∉ p.key.render.toList := by
  decide +kernel

theorem exists_marked_logging : ∃ p ∈ matchResources [logged "blue"] [logged "red"] "",
    ∃ line ∈ p.context, isMarked line = true := by
  have found : ((matchResources [logged "blue"] [logged "red"] "").any fun p =>
      p.context.any isMarked) = true := by decide +kernel
  obtain ⟨p, member, marked⟩ := List.any_eq_true.1 found
  exact ⟨p, member, List.any_eq_true.1 marked⟩

theorem fragment_isFailure_iff_logging :
    (∀ p ∈ matchResources [logged "blue"] [logged "red"] "", '\n' ∉ p.key.render.toList) ∧
      ∃ c, Run.Worker.logging.compare "shop" = .ok c ∧ isFailure (Run.fragment c) = true := by
  have shown : Run.Worker.logging.source.live "shop" = .ok [logged "red"] := rfl
  obtain ⟨c, compared, iff, -⟩ := fragment_isFailure_iff rfl shown rfl notMem_key_logging
  exact ⟨notMem_key_logging, c, compared, iff.2 exists_marked_logging⟩

/-- Text of a manifest can make a section tell of a failure although the comparison succeeds and
the resource has a key of one line. -/
theorem clean_fragment_isFailure :
    ¬ ∀ (w : Run.Worker) (app : String) (live targets : List Document) (c : Comparison),
      w.differ = overlayDiffer → w.source.live app = .ok live → w.source.target app = .ok targets →
      (∀ p ∈ matchResources targets live (w.source.defaultNamespace app),
        '\n' ∉ p.key.render.toList) →
      w.compare app = .ok c → isFailure (Run.fragment c) = false := by
  intro clean
  obtain ⟨c, compared, iff⟩ := exists_ofPairs_overlay notMem_key_logging
  have whole : Run.Worker.logging.compare "shop" = .ok c := compare_eq_ok rfl rfl compared
  have calm := clean .logging "shop" _ _ c rfl rfl rfl notMem_key_logging whole
  exact Bool.false_ne_true (calm.symm.trans (iff.2 exists_marked_logging))

end ChangeReport
