import ChangeReport.Proofs.Report.Hiding
import ChangeReport.Proofs.Report.Truncation

/-! Every report is known as that of its reporter, and as that of no other one, in each form
in which a host keeps it: as it was built, cut or not, without the blanks at its ends, and
hidden. -/
namespace ChangeReport.Report
open Text

/-! ## Cut reports -/

theorem fed_closing (cs : List Char) : Fed (closing cs) := by
  rw [closing]
  refine Fed.append ?_ ?_
  · split
    · exact .line fence
    · exact .nil
  · generalize occurrences openTag cs - occurrences closeTag cs = blocks
    cases blocks with
    | zero => exact .nil
    | succ n => exact .line _

theorem fed_truncationNote (max : Nat) : Fed (truncationNote max).toList := by
  rw [truncationNote, String.append_assoc, String.append_assoc, String.append_assoc]
  exact fed_append (by decide) _

/-- Whether a report is cut or not, it opens with the title and the line of its reporter,
where the cut leaves room for them. -/
theorem exists_below_opening {layout : Layout} {sections : Sections} {trailer : String}
    (kept : byteLength (compose layout sections trailer).toList ≤ layout.maxLength ∨
      Unopened layout sections trailer ∧
        byteLength (opening layout.identity).toList +
          byteLength (truncationNote layout.maxLength).toList + 19 ≤ layout.maxLength) :
    ∃ below, Fed below ∧
      (build layout sections trailer).toList = (opening layout.identity).toList ++ below := by
  obtain ⟨below, fed, whole⟩ := compose_eq layout sections trailer
  by_cases fits : byteLength (compose layout sections trailer).toList ≤ layout.maxLength
  · exact ⟨below.toList, fed, by rw [build_of_le fits, whole, String.toList_append]⟩
  · obtain ⟨plain, room⟩ := kept.resolve_left fits
    obtain ⟨start, inside, text, least⟩ := exists_start_of_build plain (Nat.not_le.1 fits)
    rw [whole, String.toList_append] at inside
    obtain ⟨more, rfl⟩ : (opening layout.identity).toList <+: start := by
      rcases List.prefix_or_prefix_of_prefix inside (List.prefix_append _ _) with ⟨t, same⟩ | more
      · -- a shorter start would leave room in the cut
        have none : byteLength t = 0 := by
          rw [← same, byteLength_append] at room
          omega
        rw [eq_nil_of_byteLength_eq_zero none, List.append_nil] at same
        exact same ▸ List.prefix_rfl
      · exact more
    refine ⟨more ++ closing ((opening layout.identity).toList ++ more) ++
      (truncationNote layout.maxLength).toList, ?_, by rw [text]; simp⟩
    have rest : Fed more := fed.of_prefix ((List.prefix_append_right_inj _).1 inside)
    exact (rest.append (fed_closing _)).append (fed_truncationNote _)

/-! ## Trimmed reports -/

/-- Blanks at the end of a text do not change its first line but for blanks. -/
theorem trimChars_firstLine_append {bs : List Char} (blank : bs.all isBlank = true)
    (cs : List Char) : trimChars (firstLine (cs ++ bs)) = trimChars (firstLine cs) := by
  rw [firstLine, firstLine, List.takeWhile_append]
  split
  next whole =>
    have all : cs.takeWhile (· ≠ '\n') = cs :=
      (List.takeWhile_prefix _).eq_of_length whole
    have rest : (bs.takeWhile (· ≠ '\n')).all isBlank = true := by
      rw [List.all_eq_true] at blank ⊢
      exact fun c member => blank c ((List.takeWhile_prefix _).subset member)
    rw [all, trimChars_append_blank rest]
  next => rfl

/-- Below the title, only the end of a text is trimmed. -/
theorem trim_toList {body : String} {rest : List Char}
    (text : body.toList = title.toList ++ '\n' :: rest) : (Text.trim body).toList =
      title.toList ++ if trimEndChars rest = [] then [] else '\n' :: trimEndChars rest := by
  have ends : trimEndChars title.toList = title.toList := by decide
  have feed : trimEndChars ['\n'] = [] := by decide
  have below : trimEndChars ('\n' :: rest) =
      if trimEndChars rest = [] then [] else '\n' :: trimEndChars rest := by
    rw [← List.singleton_append, trimEndChars_append, feed]
    rfl
  rw [Text.trim, String.toList_ofList, text, trimChars, trimStartChars_title,
    trimEndChars_append, below, ends]
  by_cases empty : trimEndChars rest = []
  · simp [empty]
  · simp [empty]

theorem isOwn_trim {body : String} {rest : List Char}
    (text : body.toList = title.toList ++ '\n' :: rest) (identity : Option String) :
    isOwn (Text.trim body) identity = isOwn body identity := by
  obtain ⟨bs, parts, blank⟩ := exists_blank_of_trimEndChars rest
  have line : trimChars (firstLine rest) = trimChars (firstLine (trimEndChars rest)) := by
    conv_lhs => rw [parts]
    exact trimChars_firstLine_append blank _
  rw [isOwn_eq, isOwn_eq, trim_toList text, text, afterTitle?_unwrap, Option.any_some, line]
  by_cases empty : trimEndChars rest = []
  · have alone : afterTitle? (unwrap (title.toList ++ [])) = some [] := by decide
    rw [if_pos empty, alone, empty]
    rfl
  · rw [if_neg empty, afterTitle?_unwrap, Option.any_some]

/-- A report is known as that of its own reporter and of no other one: as it was built,
after its ends were trimmed, and hidden with any date. It may be cut, if none of its texts
opens a block and there is room for the lines it opens with, the note and 19 bytes. -/
theorem isOwn_build_iff {layout : Layout} {sections : Sections} {trailer : String}
    (valid : ValidIdentity layout.identity)
    (kept : byteLength (compose layout sections trailer).toList ≤ layout.maxLength ∨
      Unopened layout sections trailer ∧
        byteLength (opening layout.identity).toList +
          byteLength (truncationNote layout.maxLength).toList + 19 ≤ layout.maxLength)
    (identity : Option String) :
    (isOwn (build layout sections trailer) identity = true ↔ identity = layout.identity) ∧
    (isOwn (Text.trim (build layout sections trailer)) identity = true ↔
      identity = layout.identity) ∧
    ∀ c : Comment, c.body = build layout sections trailer ∨
        c.body = Text.trim (build layout sections trailer) →
      (isOwn (hide c) identity = true ↔ identity = layout.identity) := by
  obtain ⟨below, fed, text⟩ := exists_below_opening kept
  have own := isOwn_iff_of_opening valid fed text identity
  obtain ⟨rest, parts, -⟩ := exists_below_title layout.identity valid fed
  rw [parts] at text
  have trimmed := (Bool.eq_iff_iff.1 (isOwn_trim text identity)).trans own
  refine ⟨own, trimmed, fun c form => ?_⟩
  rcases form with whole | ends
  · have shown : isHidden c.body = false := by
      rw [isHidden, whole, text]
      exact isHiddenText_title _
    exact (Bool.eq_iff_iff.1 ((isOwn_hide shown identity).trans (by rw [whole]))).trans own
  · have shown : isHidden c.body = false := by
      rw [isHidden, ends, trim_toList text]
      exact isHiddenText_title _
    exact (Bool.eq_iff_iff.1 ((isOwn_hide shown identity).trans (by rw [ends]))).trans trimmed

/-- A report in as little room as it can be known in. -/
def narrow : Layout := ⟨some "east", none, 124⟩

def fenced : Sections := [("web", "\x60\x60\x60diff\n+ color: blue\n\x60\x60\x60")]

/-- A report that is cut inside of its first block. -/
theorem isOwn_build_of_cut :
    narrow.maxLength < byteLength (compose narrow fenced "").toList ∧
    isOwn (build narrow fenced "") (some "east") = true ∧
    isOwn (Text.trim (build narrow fenced "")) (some "east") = true ∧
    isOwn (hide ⟨7, "bot", build narrow fenced "", none⟩) (some "east") = true ∧
    isOwn (hide ⟨7, "bot", build narrow fenced "", none⟩) none = false := by
  have valid : ValidIdentity narrow.identity := by
    intro name same
    obtain rfl := Option.some.inj same
    decide
  have plain : Unopened narrow fenced "" := by
    refine ⟨?_, ?_, ?_, ?_, by decide⟩
    · intro name same
      obtain rfl := Option.some.inj same
      decide
    · intro url same
      cases same
    · decide
    · decide
  have room : byteLength (opening narrow.identity).toList +
      byteLength (truncationNote narrow.maxLength).toList + 19 ≤ narrow.maxLength := by
    decide
  obtain ⟨built, trimmed, hidden⟩ := isOwn_build_iff valid (.inr ⟨plain, room⟩) (some "east")
  obtain ⟨-, -, other⟩ := isOwn_build_iff valid (.inr ⟨plain, room⟩) none
  refine ⟨by decide +kernel, built.2 rfl, trimmed.2 rfl, ?_⟩
  generalize build narrow fenced "" = body at hidden other ⊢
  have foreign := other ⟨7, "bot", body, none⟩ (.inl rfl)
  exact ⟨(hidden ⟨7, "bot", body, none⟩ (.inl rfl)).2 rfl,
    Bool.eq_false_iff.2 fun own => absurd (foreign.1 own) (by decide)⟩

end ChangeReport.Report
