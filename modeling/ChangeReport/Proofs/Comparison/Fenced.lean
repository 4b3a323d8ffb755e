import ChangeReport.Proofs.Comparison.Lines
import ChangeReport.Proofs.Yaml.Margin

/-! The fence around the text of a comparison. Most lines of a diff cannot end it: a mark stands in
front of them, and so it does behind the indentation of every line of a manifest that is no text of
its own. A line of backticks in a text with the least indentation does end it when the diff keeps
that line next to a change. -/
namespace ChangeReport
open Text Report

theorem unmarked_endsFence : Unmarked (endsFence 3) where
  blank := endsFence_append_blank 3
  empty := rfl
  mark {c} member l := by
    have other : ∀ c ∈ ['=', '@', '-', '+', '\\', 'N'], c ≠ ' ' ∧ c ≠ '\x60' := by simp
    exact endsFence_cons_of_ne (other c member).1 (other c member).2 3 l

/-! ## Carriage returns -/

theorem LineDiff.notMem_unified {old new : String} (ho : '\r' ∉ old.toList)
    (hn : '\r' ∉ new.toList) : '\r' ∉ (unified old new).toList := by
  rw [unified_eq_rows ho hn]
  intro member
  obtain ⟨l, inside, there⟩ := List.mem_flatMap.1 member
  obtain ⟨r, row, rfl⟩ := List.mem_map.1 inside
  rcases List.mem_append.1 there with text | feed
  · exact notMem_chars rfl row text
  · simp at feed

theorem notMem_renderBlock {key : ResourceKey} (own : '\r' ∉ key.render.toList)
    (old new : Option Document) : '\r' ∉ (renderBlock key old new).toList := by
  have rows := LineDiff.notMem_unified (Yaml.notMem_canonical old) (Yaml.notMem_canonical new)
  unfold renderBlock
  dsimp only
  split
  · simp [blockHeader, own, rows]
  · simp [blockHeader, own, rows]

theorem notMem_trimEndChars {c : Char} {cs : List Char} (h : c ∉ cs) : c ∉ trimEndChars cs := by
  obtain ⟨bs, split, -⟩ := exists_blank_of_trimEndChars cs
  rw [split] at h
  exact fun member => h (List.mem_append_left _ member)

theorem notMem_text {pairs : List Pair} (own : ∀ p ∈ pairs, '\r' ∉ p.key.render.toList)
    {cs : List Change} (done : Comparison.changesOf overlayDiffer pairs = .ok cs) :
    '\r' ∉ (Comparison.ofChanges cs).text.toList := by
  have blocks : ∀ t ∈ cs.map (·.text), '\r' ∉ t.toList := by
    intro t member
    obtain ⟨c, inside, rfl⟩ := List.mem_map.1 member
    obtain ⟨p, there, -, v, -, change⟩ := Comparison.mem_changesOf done inside
    obtain ⟨old, new, text⟩ := Pair.exists_block_of_changeOf change
    exact text ▸ notMem_renderBlock (own p there) old new
  rw [Comparison.text_ofChanges]
  split
  · decide
  · rw [String.toList_join]
    intro member
    obtain ⟨t, inside, there⟩ := List.mem_flatMap.1 member
    exact blocks t inside there

/-! ## Fences -/

/-- The lines of a fragment: a summary, an empty line, and a fence around the text. -/
theorem splitChars_fragment {c : Comparison} (summary : '\n' ∉ c.summary.toList) :
    splitChars '\n' (Run.fragment c).toList = [c.summary.toList, [], fence ++ "diff".toList] ++
      splitChars '\n' (trimEndChars c.text.toList) ++ [fence] := by
  have opening : '\n' ∉ fence ++ "diff".toList := by decide
  have closing : '\n' ∉ fence := by decide
  rw [fragment_toList, splitChars_append_sep, splitChars_append_sep, splitChars_append_sep,
    splitChars_append_sep, splitChars_of_notMem summary, splitChars_of_notMem opening,
    splitChars_of_notMem closing]
  simp [splitChars]

/-- The text of an application that was compared stands between two fences, and some line of it ends
the fence exactly if a line of some context does. -/
theorem exists_inner {w : Run.Worker} (overlay : w.differ = overlayDiffer) {app : String}
    {live targets : List Document} (shown : w.source.live app = .ok live)
    (aimed : w.source.target app = .ok targets)
    (own : ∀ p ∈ matchResources targets live (w.source.defaultNamespace app),
      '\n' ∉ p.key.render.toList) :
    ∃ cs inner, Comparison.changesOf overlayDiffer
        (matchResources targets live (w.source.defaultNamespace app)) = .ok cs ∧
      w.compare app = .ok (.ofChanges cs) ∧
      splitChars '\n' (Run.fragment (.ofChanges cs)).toList =
        [(Comparison.ofChanges cs).summary.toList, [], fence ++ "diff".toList] ++ inner ++ [fence] ∧
      (inner.any (endsFence 3) = true ↔
        ∃ p ∈ matchResources targets live (w.source.defaultNamespace app),
          ∃ line ∈ p.context, endsFence 2 line = true) := by
  obtain ⟨cs, done⟩ := exists_changesOf_overlay
    (matchResources targets live (w.source.defaultNamespace app))
  have compared := Comparison.ofPairs_eq overlayDiffer
    (matchResources targets live (w.source.defaultNamespace app))
  rw [done] at compared
  have summary : (Comparison.ofChanges cs).summary = (countAll cs).render := rfl
  have lines := anyLine_text_iff unmarked_endsFence own done
  rw [← anyLine_trimEndChars unmarked_endsFence.blank unmarked_endsFence.empty] at lines
  simp only [endsFence_cons_blank] at lines
  exact ⟨cs, splitChars '\n' (trimEndChars (Comparison.ofChanges cs).text.toList), done,
    compare_eq_ok shown aimed (overlay ▸ compared),
    splitChars_fragment (summary ▸ notMem_render rfl (by decide) _), lines⟩

/-- When the fence of an application that was compared is ended too early. No line of the diff ends
it but one that the diff keeps next to a change, with no more than two blanks and then three or more
backticks alone. So none does as long as no live object has a line of backticks in a text that
stands behind two blanks. -/
theorem fragment_ended_iff {w : Run.Worker} (overlay : w.differ = overlayDiffer) {app : String}
    {live targets : List Document} (shown : w.source.live app = .ok live)
    (aimed : w.source.target app = .ok targets)
    (own : ∀ p ∈ matchResources targets live (w.source.defaultNamespace app),
      '\n' ∉ p.key.render.toList ∧ '\r' ∉ p.key.render.toList) :
    ∃ c inner, w.compare app = .ok c ∧ '\r' ∉ (Run.fragment c).toList ∧
      splitChars '\n' (Run.fragment c).toList =
        [c.summary.toList, [], fence ++ "diff".toList] ++ inner ++ [fence] ∧
      (inner.any (endsFence 3) = true ↔
        ∃ p ∈ matchResources targets live (w.source.defaultNamespace app),
          ∃ line ∈ p.context, endsFence 2 line = true) ∧
      ((∀ d ∈ live, ∀ t ∈ Yaml.marginTexts d, Yaml.Tickless t) →
        inner.any (endsFence 3) = false) := by
  obtain ⟨cs, inner, done, compared, lines, iff⟩ :=
    exists_inner overlay shown aimed fun p member => (own p member).1
  refine ⟨.ofChanges cs, inner, compared, ?_, lines, iff, fun calm => ?_⟩
  · have text := notMem_trimEndChars (notMem_text (fun p member => (own p member).2) done)
    have counts : '\r' ∉ (Comparison.ofChanges cs).summary.toList :=
      notMem_render rfl (by decide) (countAll cs)
    simp [fragment_toList, counts, text, fence]
  · refine Bool.eq_false_iff.2 fun ends => ?_
    obtain ⟨p, member, line, kept, closes⟩ := iff.1 ends
    obtain ⟨d, there, inside⟩ := Pair.exists_line_of_mem_context kept
    obtain ⟨present, key⟩ := live_of_mem member there
    cases d with
    | object fields =>
        exact Bool.false_ne_true
          ((Yaml.endsFence_canonical (calm _ present) inside).symm.trans closes)
    | null | bool b | number n | string s | array items => cases key

/-- A class of priorities whose description shows a command in a fence of its own. -/
def urgent (isDefault : Bool) : Document :=
  .object [("description", .string "\x60\x60\x60\nkubectl edit\n\x60\x60\x60\n"),
    ("globalDefault", .bool isDefault), ("kind", .string "PriorityClass"),
    ("metadata", .object [("name", .string "urgent")])]

/-- The only resource of `shop` changes its default, right below its description. -/
def Run.Worker.describing : Run.Worker where
  source := ⟨["shop"], fun _ => "", fun _ => .ok [urgent false], fun _ => .ok [urgent true]⟩
  differ := overlayDiffer
  summarize := none

theorem notMem_key_describing : ∀ p ∈ matchResources [urgent true] [urgent false] "",
    '\n' ∉ p.key.render.toList ∧ '\r' ∉ p.key.render.toList := by
  decide +kernel

theorem exists_fence_describing : ∃ p ∈ matchResources [urgent true] [urgent false] "",
    ∃ line ∈ p.context, endsFence 2 line = true := by
  have found : ((matchResources [urgent true] [urgent false] "").any fun p =>
      p.context.any (endsFence 2)) = true := by decide +kernel
  obtain ⟨p, member, ends⟩ := List.any_eq_true.1 found
  exact ⟨p, member, List.any_eq_true.1 ends⟩

theorem fragment_ended_iff_describing :
    (∀ p ∈ matchResources [urgent true] [urgent false] "",
      '\n' ∉ p.key.render.toList ∧ '\r' ∉ p.key.render.toList) ∧
      ∃ c inner, Run.Worker.describing.compare "shop" = .ok c ∧
        splitChars '\n' (Run.fragment c).toList =
          [c.summary.toList, [], fence ++ "diff".toList] ++ inner ++ [fence] ∧
        inner.any (endsFence 3) = true := by
  have shown : Run.Worker.describing.source.live "shop" = .ok [urgent false] := rfl
  obtain ⟨c, inner, compared, -, lines, iff, -⟩ :=
    fragment_ended_iff rfl shown rfl notMem_key_describing
  exact ⟨notMem_key_describing, c, inner, compared, lines, iff.2 exists_fence_describing⟩

/-- Text of a manifest can end the fence around a diff although the comparison succeeds and the
resource has a key of one line. -/
theorem fence_ended_within :
    ¬ ∀ (w : Run.Worker) (app : String) (live targets : List Document) (c : Comparison)
      (inner : List (List Char)), w.differ = overlayDiffer → w.source.live app = .ok live →
      w.source.target app = .ok targets →
      (∀ p ∈ matchResources targets live (w.source.defaultNamespace app),
        '\n' ∉ p.key.render.toList ∧ '\r' ∉ p.key.render.toList) →
      w.compare app = .ok c →
      splitChars '\n' (Run.fragment c).toList =
        [c.summary.toList, [], fence ++ "diff".toList] ++ inner ++ [fence] →
      inner.any (endsFence 3) = false := by
  intro safe
  have shown : Run.Worker.describing.source.live "shop" = .ok [urgent false] := rfl
  obtain ⟨cs, inner, -, compared, lines, iff⟩ := exists_inner rfl shown rfl
    fun p member => (notMem_key_describing p member).1
  have calm := safe .describing "shop" _ _ _ inner rfl rfl rfl notMem_key_describing compared lines
  exact Bool.false_ne_true (calm.symm.trans (iff.2 exists_fence_describing))

end ChangeReport
