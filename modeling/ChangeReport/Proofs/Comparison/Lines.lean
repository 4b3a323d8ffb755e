import ChangeReport.Proofs.Comparison.Exclusion
import ChangeReport.Proofs.LineDiff.Rows
import ChangeReport.Proofs.Yaml.Printed
import ChangeReport.Run.Work

/-! The lines of what a comparison shows. Headers, and lines that are added or removed, each have a
mark of their own in front. A property of lines that no such mark goes with is therefore one of the
lines that are kept next to a change, which stand behind a blank. -/
namespace ChangeReport
open Text Report

/-- A property of lines that blanks at their end do not touch, and that no line has that is empty
or begins with one of the marks of a comparison. -/
structure Unmarked (q : List Char → Bool) : Prop where
  blank : ∀ {bs}, bs.all isBlank = true → ∀ l, q (l ++ bs) = q l
  empty : q [] = false
  mark : ∀ {c}, c ∈ ['=', '@', '-', '+', '\\', 'N'] → ∀ l, q (c :: l) = false

variable {q : List Char → Bool}

namespace LineDiff

theorem unmarked_chars (h : Unmarked q) {old new : String} {r : Row} (member : r ∈ rows old new) :
    q r.chars = (decide (r.mark = ' ') && q (' ' :: r.text)) := by
  cases rowOf_of_mem member with
  | header first last => exact h.mark (c := '@') (by decide) _
  | kept line => rfl
  | deleted line => exact h.mark (c := '-') (by decide) _
  | inserted line => exact h.mark (c := '+') (by decide) _
  | unended => exact h.mark (by decide) _

theorem anyLine_unified_iff (h : Unmarked q) {old new : String} (ho : '\r' ∉ old.toList)
    (hn : '\r' ∉ new.toList) :
    anyLine q (unified old new).toList = true ↔ ∃ line ∈ context old new, q (' ' :: line) = true := by
  have own : ∀ l ∈ (rows old new).map Row.chars, '\n' ∉ l := by
    intro l member
    obtain ⟨r, inside, rfl⟩ := List.mem_map.1 member
    exact notMem_chars rfl inside
  rw [unified_eq_rows ho hn, anyLine_unlines h.empty own, List.any_map, List.any_eq_true]
  constructor
  · rintro ⟨⟨mark, text⟩, member, shown⟩
    simp only [Function.comp_apply, unmarked_chars h member, Bool.and_eq_true,
      decide_eq_true_eq] at shown
    obtain ⟨rfl, shown⟩ := shown
    exact ⟨text, mem_context.2 member, shown⟩
  · rintro ⟨text, member, shown⟩
    refine ⟨⟨' ', text⟩, mem_context.1 member, ?_⟩
    exact (unmarked_chars h (mem_context.1 member)).trans shown

/-- The lines of a text without carriage returns are the pieces between its line feeds. -/
theorem bare_lines {cs : List Char} (h : '\r' ∉ cs) :
    (lines cs).map bare <+: splitChars '\n' cs := by
  fun_induction lines cs with
  | case1 => exact List.nil_prefix
  | case2 rest ih => simp at h
  | case3 c rest other ends ih =>
      rw [List.mem_cons, not_or] at h
      obtain rfl : c = '\n' := by simpa [isLineEnd, Ne.symm h.1] using ends
      exact List.cons_prefix_cons.2 ⟨rfl, ih h.2⟩
  | case4 c rest other inner ih =>
      rw [List.mem_cons, not_or] at h
      rw [Bool.not_eq_true] at inner
      have feed : c ≠ '\n' := by
        rintro rfl
        cases inner
      obtain ⟨more, pieces⟩ := ih h.2
      cases first : lines rest with
      | nil =>
          have empty : rest = [] := by rw [← flatten_lines rest, first]; rfl
          simp [consLine, splitChars, feed, empty, bare, inner]
      | cons line others =>
          rw [first, List.map_cons, List.cons_append] at pieces
          simp [consLine, splitChars, feed, ← pieces, bare_cons inner]

end LineDiff

/-! ## Blocks -/

theorem getLast?_renderBlock (key : ResourceKey) (old new : Option Document) :
    (renderBlock key old new).toList.getLast? = some '\n' := by
  unfold renderBlock
  dsimp only
  split
  next ended => exact ended
  next =>
    rw [String.toList_append]
    exact List.getLast?_concat ..

theorem anyLine_renderBlock_iff (h : Unmarked q) {key : ResourceKey}
    (own : '\n' ∉ key.render.toList) (old new : Option Document) :
    anyLine q (renderBlock key old new).toList = true ↔
      ∃ line ∈ LineDiff.context (Yaml.canonical old) (Yaml.canonical new),
        q (' ' :: line) = true := by
  have title : anyLine q (blockHeader key).toList = false := by
    have line : (blockHeader key).toList =
        '=' :: ("==== ".toList ++ key.render.toList ++ " ======".toList) := by
      simp [blockHeader]
    rw [anyLine_of_notMem (by simp [blockHeader, own]), line]
    exact h.mark (by decide) _
  have block : anyLine q (blockHeader key ++ "\n" ++
      LineDiff.unified (Yaml.canonical old) (Yaml.canonical new)).toList =
        anyLine q (LineDiff.unified (Yaml.canonical old) (Yaml.canonical new)).toList := by
    rw [String.toList_append, String.toList_append, List.append_assoc]
    refine (anyLine_append_line _ _).trans ?_
    rw [title, Bool.false_or]
    rfl
  rw [← LineDiff.anyLine_unified_iff h (Yaml.notMem_canonical old) (Yaml.notMem_canonical new),
    ← block]
  unfold renderBlock
  dsimp only
  split
  · rfl
  · rw [String.toList_append, anyLine_append_blank h.blank h.empty (by decide)]

theorem anyLine_join (empty : q [] = false) {texts : List String}
    (ended : ∀ t ∈ texts, t.toList.getLast? = some '\n') :
    anyLine q (String.join texts).toList = texts.any fun t => anyLine q t.toList := by
  induction texts with
  | nil => simpa [anyLine, splitChars] using empty
  | cons t texts ih =>
      obtain ⟨line, feed⟩ := List.getLast?_eq_some_iff.1 (ended t (List.mem_cons_self ..))
      have rest := ih fun u member => ended u (List.mem_cons_of_mem _ member)
      have none : anyLine q [] = false := (anyLine_of_notMem List.not_mem_nil).trans empty
      have own : anyLine q t.toList = anyLine q line := by
        rw [feed, anyLine_append_line, none, Bool.or_false]
      rw [String.join_cons, String.toList_append, feed, List.append_assoc, List.any_cons, own]
      exact (anyLine_append_line _ _).trans (congrArg _ rest)

/-! ## Comparisons -/

theorem total_countAll (changes : List Change) : (countAll changes).total = changes.length := by
  have fold : ∀ (changes : List Change) (c : Counts),
      (changes.foldl (fun c change => c.add change.kind.counts) c).total =
        c.total + changes.length := by
    intro changes
    induction changes with
    | nil => exact fun _ => rfl
    | cons change changes ih =>
        intro c
        have one : (c.add change.kind.counts).total = c.total + 1 := by
          cases change.kind <;> simp only [ChangeKind.counts, Counts.add, Counts.total] <;> omega
        rw [List.foldl_cons, ih, one, List.length_cons]
        omega
  exact (fold changes Counts.zero).trans (Nat.zero_add _)

theorem Comparison.text_ofChanges (cs : List Change) : (ofChanges cs).text =
    if cs = [] then noChanges else String.join (cs.map (·.text)) := by
  have empty : (countAll cs).isEmpty = decide (cs = []) := by
    rw [Counts.isEmpty, total_countAll]
    cases cs <;> rfl
  rw [ofChanges, empty]
  by_cases none : cs = [] <;> simp [none]

theorem anyLine_text_ofChanges (h : Unmarked q) {changes : List Change}
    (ended : ∀ c ∈ changes, c.text.toList.getLast? = some '\n') :
    anyLine q (Comparison.ofChanges changes).text.toList =
      changes.any fun c => anyLine q c.text.toList := by
  rw [Comparison.text_ofChanges]
  split
  next none =>
    have line : anyLine q noChanges.toList = q noChanges.toList := anyLine_of_notMem (by decide)
    rw [none, line]
    exact h.mark (c := 'N') (by decide) _
  next =>
    rw [anyLine_join h.empty (by simpa using ended), List.any_map]
    rfl

theorem notMem_render {c : Char} (digit : c.isDigit = false)
    (text : c ∉ " added,  modified,  removed".toList) (counts : Counts) :
    c ∉ counts.render.toList := by
  have figures : ∀ n : Nat, c ∉ (toString n).toList := notMem_toString digit
  have parts : " added,  modified,  removed".toList =
      " added, ".toList ++ " modified, ".toList ++ " removed".toList := by decide
  simp only [parts, List.mem_append, not_or] at text
  simp only [Counts.render, String.toList_append, List.mem_append, figures, text, or_self,
    not_false_eq_true]

/-- The lines of a fragment: a summary, and a text in a fence. -/
theorem fragment_toList (c : Comparison) : (Run.fragment c).toList =
    c.summary.toList ++ '\n' :: ([] ++ '\n' :: ((fence ++ "diff".toList) ++ '\n' ::
      (trimEndChars c.text.toList ++ '\n' :: fence))) := by
  simp [Run.fragment, trimEnd, fence]

/-! ## Pairs -/

namespace Pair

/-- The lines that are shown around the changes of a pair. Only a modified resource has any: what
is added or removed is changed as a whole. -/
def context (p : Pair) : List (List Char) :=
  match p.live, p.target with
  | some live, some target =>
      if p.isHook = false ∧ changes (some live) (some target) = true then
        LineDiff.context (Yaml.canonical (some live))
          (Yaml.canonical (some ((overlayVerdict (some live) (some target)).document?.getD target)))
      else []
  | _, _ => []

theorem context_of_hook {p : Pair} (h : p.isHook = true) : p.context = [] := by
  unfold context
  split
  · simp [h]
  · rfl

theorem exists_block_of_changeOf {p : Pair} {v : Verdict} {c : Change} (h : p.changeOf v = some c) :
    ∃ old new, c.text = renderBlock p.key old new := by
  unfold changeOf at h
  split at h
  · cases h
  · obtain rfl := Option.some.inj h
    exact ⟨_, _, rfl⟩
  · obtain rfl := Option.some.inj h
    exact ⟨_, _, rfl⟩
  · split at h
    · obtain rfl := Option.some.inj h
      exact ⟨_, _, rfl⟩
    · cases h

/-- The block of a pair has such a line exactly if its context has one. -/
theorem anyLine_changeOf_iff (h : Unmarked q) {p : Pair} (own : '\n' ∉ p.key.render.toList)
    (runs : p.isHook = false) :
    (∃ c, p.changeOf (overlayVerdict p.live p.target) = some c ∧ anyLine q c.text.toList = true) ↔
      ∃ line ∈ p.context, q (' ' :: line) = true := by
  have blank : ∀ d, LineDiff.context (Yaml.canonical none) d = [] := by
    refine fun d => List.eq_nil_iff_forall_not_mem.2 fun text member => ?_
    obtain ⟨line, inside, -⟩ := LineDiff.exists_line_of_mem_context member
    cases inside
  have gone : ∀ d, LineDiff.context d (Yaml.canonical none) = [] := LineDiff.context_nil
  obtain ⟨key, live, target⟩ := p
  cases live with
  | none =>
      cases target with
      | none => simp [changeOf, context]
      | some target => simp [changeOf, context, anyLine_renderBlock_iff h own, blank]
  | some live =>
      cases target with
      | none => simp [changeOf, context, anyLine_renderBlock_iff h own, gone]
      | some target =>
          by_cases modified : changes (some live) (some target) = true
          · simp only [changeOf, overlayVerdict, modified, if_true, Option.some.injEq,
              exists_eq_left', anyLine_renderBlock_iff h own, context, runs, and_self]
          · simp [changeOf, overlayVerdict, modified, context]

/-- The context of a pair consists of lines of its live object. -/
theorem exists_line_of_mem_context {p : Pair} {text : List Char} (kept : text ∈ p.context) :
    ∃ d, p.live = some d ∧ text ∈ splitChars '\n' (Yaml.canonical (some d)).toList := by
  unfold context at kept
  split at kept
  next d t there aim =>
    split at kept
    · obtain ⟨line, inside, rfl⟩ := LineDiff.exists_line_of_mem_context kept
      exact ⟨d, there, (LineDiff.bare_lines (Yaml.notMem_canonical _)).subset
        (List.mem_map_of_mem inside)⟩
    · cases kept
  next => cases kept

end Pair

section

variable {pairs : List Pair}

theorem anyLine_changes_iff (h : Unmarked q) (own : ∀ p ∈ pairs, '\n' ∉ p.key.render.toList)
    {cs : List Change} (done : Comparison.changesOf overlayDiffer pairs = .ok cs) :
    (cs.any fun c => anyLine q c.text.toList) = true ↔
      ∃ p ∈ pairs, ∃ line ∈ p.context, q (' ' :: line) = true := by
  rw [List.any_eq_true]
  constructor
  · rintro ⟨c, inside, shows⟩
    obtain ⟨p, member, runs, v, verdict, change⟩ := Comparison.mem_changesOf done inside
    obtain rfl := Except.ok.inj verdict
    exact ⟨p, member, (Pair.anyLine_changeOf_iff h (own p member) runs).1 ⟨c, change, shows⟩⟩
  · rintro ⟨p, member, line, kept, shown⟩
    have runs : p.isHook = false := by
      refine Bool.eq_false_iff.2 fun hook => ?_
      rw [Pair.context_of_hook hook] at kept
      cases kept
    obtain ⟨c, change, shows⟩ :=
      (Pair.anyLine_changeOf_iff h (own p member) runs).2 ⟨line, kept, shown⟩
    exact ⟨c, Comparison.mem_changesOf_of_mem done member runs rfl change, shows⟩

/-- A comparison of pairs shows such a line exactly if the context of a pair has one. -/
theorem anyLine_text_iff (h : Unmarked q) (own : ∀ p ∈ pairs, '\n' ∉ p.key.render.toList)
    {cs : List Change} (done : Comparison.changesOf overlayDiffer pairs = .ok cs) :
    anyLine q (Comparison.ofChanges cs).text.toList = true ↔
      ∃ p ∈ pairs, ∃ line ∈ p.context, q (' ' :: line) = true := by
  have ended : ∀ c ∈ cs, c.text.toList.getLast? = some '\n' := by
    intro c inside
    obtain ⟨p, -, -, v, -, change⟩ := Comparison.mem_changesOf done inside
    obtain ⟨old, new, text⟩ := Pair.exists_block_of_changeOf change
    exact text ▸ getLast?_renderBlock p.key old new
  rw [anyLine_text_ofChanges h ended, anyLine_changes_iff h own done]

end

/-! ## Applications -/

theorem compare_eq_ok {w : Run.Worker} {app : String} {live targets : List Document}
    (shown : w.source.live app = .ok live) (aimed : w.source.target app = .ok targets)
    {c : Comparison} (compared : Comparison.ofPairs w.differ
      (matchResources targets live (w.source.defaultNamespace app)) = .ok c) :
    w.compare app = .ok c := by
  rw [Run.Worker.compare, shown, aimed]
  change Except.mapError _ (Comparison.ofPairs w.differ _) = _
  rw [compared]
  rfl

end ChangeReport
