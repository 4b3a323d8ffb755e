import ChangeReport.Proofs.Report.Ownership
import ChangeReport.Proofs.Text.Digits
import ChangeReport.Proofs.Text.Occurrences
import Mathlib.Data.List.TakeWhile
import Mathlib.Data.Nat.Digits.Lemmas

/-! Hiding a report. A hidden text is known as hidden, whatever it is and whenever it was
written, and a text that was not hidden before is the report of the same reporter as
before. -/
namespace ChangeReport

/-! ## The date in the summary -/

theorem notMem_padded (width n : Nat) : '<' ∉ (Timestamp.padded width n).toList := by
  intro member
  rw [Timestamp.padded, String.toList_append, String.toList_ofList, List.mem_append] at member
  rcases member with zero | digit
  · rw [List.mem_replicate] at zero
    exact absurd zero.2 (by decide)
  · exact Text.notMem_toString rfl n digit

theorem notMem_renderYear (y : Int) : '<' ∉ (Timestamp.renderYear y).toList := by
  unfold Timestamp.renderYear
  split
  · exact notMem_padded 4 y.toNat
  · split <;> simp [notMem_padded]

namespace Report
open Text

/-- The words for the date contain no mark. -/
theorem notMem_age (createdAt : Option Timestamp) : '<' ∉ (age createdAt).toList := by
  cases createdAt with
  | none => decide
  | some t =>
      change '<' ∉ ("report from " ++ t.renderDate ++ " " ++ t.renderMinute ++ " UTC").toList
      simp [Timestamp.renderDate, Timestamp.renderMinute, notMem_padded, notMem_renderYear]

/-! ## Hidden texts -/

theorem hide_toList (c : Comment) : (hide c).toList =
    hiddenStart ++ (": ".toList ++ ((age c.createdAt).toList ++ ("</i>".toList ++
      (summaryEnd ++ ('\n' :: '\n' :: (c.body.toList ++ "\n</details>".toList)))))) := by
  unfold hide hiddenStart summaryEnd
  generalize age c.createdAt = date
  simp

theorem trimStartChars_hide (c : Comment) : trimStartChars (hide c).toList = (hide c).toList := by
  obtain ⟨inner, start⟩ : ∃ inner, hiddenStart = '<' :: inner := ⟨_, rfl⟩
  rw [hide_toList, start, List.cons_append]
  exact trimStartChars_of_head (by decide)

theorem isHidden_hide (c : Comment) : isHidden (hide c) = true := by
  rw [isHidden, isHiddenText, trimStartChars_hide, hide_toList]
  exact startsWith_iff.2 (List.prefix_append _ _)

theorem cutAt?_hide (c : Comment) : ∃ before, cutAt? summaryEnd (hide c).toList =
    some (before, '\n' :: '\n' :: (c.body.toList ++ "\n</details>".toList)) := by
  obtain ⟨inner, mark⟩ : ∃ inner, summaryEnd = '<' :: inner := ⟨_, rfl⟩
  have opening : ¬ summaryEnd <:+: hiddenStart := by decide
  have closing : ¬ summaryEnd <:+: "</i>".toList := by decide
  have words : '<' ∉ ": ".toList ++ (age c.createdAt).toList := by
    simp [notMem_age]
  rw [hide_toList, cutAt?_append opening (apart_of_ends (by decide) _),
    ← List.append_assoc, mark, cutAt?_append_of_notMem words, ← mark,
    cutAt?_append closing (apart_of_ends (by decide) _), cutAt?_self_append (by decide)]
  exact ⟨_, rfl⟩

/-- The text inside of a hidden report is the text that was hidden, less its blanks at the
start, with the end of the block. -/
theorem unwrap_hide (c : Comment) :
    unwrap (hide c).toList = trimStartChars (c.body.toList ++ "\n</details>".toList) := by
  have hidden : isHiddenText (hide c).toList = true := isHidden_hide c
  obtain ⟨before, cut⟩ := cutAt?_hide c
  rw [unwrap, trimStartChars_hide]
  simp only [hidden, if_true, cut]
  rfl

/-! ## Whose report a hidden text is -/

theorem firstLine_append_line (cs more : List Char) :
    firstLine (cs ++ '\n' :: more) = firstLine cs := by
  induction cs with
  | nil => rfl
  | cons c cs ih =>
      by_cases feed : c = '\n'
      · simp [firstLine, feed]
      · simpa [firstLine, feed] using ih

/-- A text in front of a line is a report exactly if it is one alone, with the same line
below its title unless the title is all of it. -/
theorem afterTitle?_append_line (cs more : List Char) :
    (cs = title.toList ∧ afterTitle? (cs ++ '\n' :: more) = some more) ∨
    (∃ rest, afterTitle? cs = some rest ∧
      afterTitle? (cs ++ '\n' :: more) = some (rest ++ '\n' :: more)) ∨
    (afterTitle? cs = none ∧ afterTitle? (cs ++ '\n' :: more) = none) := by
  cases top : afterStart? title.toList cs with
  | some rest =>
      obtain rfl := afterStart?_eq_some_iff.1 top
      have longer : afterStart? title.toList (title.toList ++ rest ++ '\n' :: more) =
          some (rest ++ '\n' :: more) := by
        rw [List.append_assoc, afterStart?_append]
      rw [afterTitle?, afterTitle?, top, longer]
      cases rest with
      | nil => exact .inl ⟨by simp, rfl⟩
      | cons c rest =>
          by_cases feed : c = '\n'
          · subst feed
            exact .inr (.inl ⟨rest, rfl, rfl⟩)
          · simp [feed]
  | none =>
      have longer : afterStart? title.toList (cs ++ '\n' :: more) = none := by
        refine Option.eq_none_iff_forall_ne_some.2 fun r found => ?_
        have start : title.toList <+: cs ++ '\n' :: more :=
          ⟨r, (afterStart?_eq_some_iff.1 found).symm⟩
        rcases List.prefix_or_prefix_of_prefix start (List.prefix_append cs _) with
          ⟨t, rfl⟩ | ⟨t, same⟩
        · rw [afterStart?_append] at top
          cases top
        · rw [← same, List.prefix_append_right_inj] at start
          cases t with
          | nil =>
              rw [List.append_nil] at same
              have begins := afterStart?_append title.toList []
              rw [List.append_nil] at begins
              rw [same, begins] at top
              cases top
          | cons d t =>
              obtain rfl : d = '\n' := (List.cons_prefix_cons.1 start).1
              have inside : '\n' ∈ title.toList := by simp [← same]
              exact absurd inside (by decide)
      exact .inr (.inr ⟨by rw [afterTitle?, top], by rw [afterTitle?, longer]⟩)

/-- A text that is hidden stays a report of its reporter, and becomes that of no other. -/
theorem isOwn_hide {c : Comment} (shown : isHidden c.body = false) (identity : Option String) :
    isOwn (hide c) identity = isOwn c.body identity := by
  have plain : unwrap c.body.toList = trimStartChars c.body.toList := by
    have text : isHiddenText (trimStartChars c.body.toList) = false := by
      rw [isHiddenText, trimStartChars_idem]
      exact shown
    rw [unwrap]
    simp [text]
  have close : "\n</details>".toList = '\n' :: "</details>".toList := by decide
  rw [isOwn_eq, isOwn_eq, unwrap_hide, plain, trimStartChars_append]
  by_cases empty : trimStartChars c.body.toList = []
  · rw [if_pos empty, empty]
    rfl
  · rw [if_neg empty, close]
    rcases afterTitle?_append_line (trimStartChars c.body.toList) "</details>".toList with
      ⟨whole, after⟩ | ⟨rest, before, after⟩ | ⟨before, after⟩
    · have alone : afterTitle? title.toList = some [] := by decide
      rw [after, whole, alone, Option.any_some, Option.any_some]
      cases identity with
      | none => decide
      | some name =>
          have word : trimChars (firstLine "</details>".toList) = "</details>".toList := by
            decide
          have blank : trimChars (firstLine []) = [] := rfl
          rw [word, blank, tells, tells, identityLine_toList]
          simp
    · rw [before, after, Option.any_some, Option.any_some, firstLine_append_line]
    · rw [before, after]

/-- Of a text in front of the end of a block only the blanks at its start are lost; with a text
that is all blank, the line feed is one of them. -/
theorem trimStartChars_append_close (body : String) :
    trimStartChars (body.toList ++ "\n</details>".toList) =
      (if allBlank body then "</details>" else trimStart body ++ "\n</details>").toList := by
  have close : trimStartChars "\n</details>".toList = "</details>".toList := by decide
  rw [trimStartChars_append]
  by_cases blank : allBlank body = true
  · rw [if_pos (trimStartChars_of_all blank), if_pos blank, close]
  · have left : trimStartChars body.toList ≠ [] := fun empty =>
      blank (List.all_eq_true.2 (List.dropWhile_eq_nil_iff.1 empty))
    rw [if_neg left, if_neg blank]
    simp [trimStart]

/-- Hiding is no loss. Whatever the comment is and whenever it was written, the result is known as
hidden, and the text can be had back from it up to its first blanks and the end of the block. A text
that was not hidden before stays the report of its reporter, and becomes that of no other. -/
theorem hide_keeps_text_and_owner (c : Comment) :
    isHidden (hide c) = true ∧
    unwrap (hide c).toList =
      (if allBlank c.body then "</details>" else trimStart c.body ++ "\n</details>").toList ∧
    (isHidden c.body = false → ∀ identity, isOwn (hide c) identity = isOwn c.body identity) :=
  ⟨isHidden_hide c, (unwrap_hide c).trans (trimStartChars_append_close c.body), isOwn_hide⟩

/-- A report that ends with the line of its reporter, whose name looks like the end of a summary. -/
def tagged : Comment :=
  ⟨7, "bot", "\n## Kubernetes Changes Report\n_</summary>_", some ⟨-12, 3, 4, 5, 6, 7, 0⟩⟩

theorem hide_keeps_text_and_owner_of_tagged :
    isHidden tagged.body = false ∧ isHidden (hide tagged) = true ∧
      unwrap (hide tagged).toList =
        "## Kubernetes Changes Report\n_</summary>_\n</details>".toList ∧
      isOwn (hide tagged) (some "</summary>") = true ∧ isOwn (hide tagged) none = false := by
  have shown : isHidden tagged.body = false := by decide
  obtain ⟨hidden, text, owner⟩ := hide_keeps_text_and_owner tagged
  have inside : (if allBlank tagged.body then "</details>"
      else trimStart tagged.body ++ "\n</details>").toList =
        "## Kubernetes Changes Report\n_</summary>_\n</details>".toList := by decide
  have own : isOwn tagged.body (some "</summary>") = true := by decide
  have other : isOwn tagged.body none = false := by decide
  exact ⟨shown, hidden, text.trans inside, (owner shown _).trans own, (owner shown _).trans other⟩

end Report
end ChangeReport
