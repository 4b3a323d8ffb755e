import ChangeReport.Proofs.Report.Contents
import ChangeReport.Proofs.Text.Lines
import ChangeReport.Proofs.Text.Occurrences
import ChangeReport.Text.Blank

/-! Sections that tell of a failure. A text does so if one of its lines is marked. Appending keeps
every line, so a section tells of a failure exactly if one of its fragments does, and goes on to
do so whatever is appended later. -/
namespace ChangeReport.Report
open Text

/-! ## Marked lines -/

theorem colon_of_startsWith {m cs : List Char} (h : startsWith m cs = true) (marker : ':' ∈ m) :
    ':' ∈ cs :=
  (startsWith_iff.1 h).subset marker

theorem mem_of_isMarked {l : List Char} (h : isMarked l = true) : ':' ∈ l := by
  simp only [isMarked, Bool.or_eq_true] at h
  refine (List.dropWhile_sublist isIndent).subset ?_
  rcases h with error | warning
  · exact colon_of_startsWith error (by decide)
  · exact colon_of_startsWith warning (by decide)

theorem isMarked_cons_of_indent {c : Char} (h : isIndent c = true) (l : List Char) :
    isMarked (c :: l) = isMarked l := by
  simp [isMarked, h]

theorem isMarked_cons_of_ne {c : Char} (h : isIndent c = false) (ne : c ≠ ':') (l : List Char) :
    isMarked (c :: l) = false := by
  simp [isMarked, h, errorMarker, warningMarker, startsWith, afterStart?, Ne.symm ne]

theorem isMarked_error (l : List Char) : isMarked (errorMarker.toList ++ l) = true := by
  simp [isMarked, isIndent, errorMarker, startsWith, afterStart?]

theorem isMarked_warning (l : List Char) : isMarked (warningMarker.toList ++ l) = true := by
  simp [isMarked, isIndent, warningMarker, startsWith, afterStart?]

theorem solid_errorMarker : ∀ c ∈ errorMarker.toList, isBlank c = false := by
  simp [errorMarker, isBlank, blankRanges]

theorem solid_warningMarker : ∀ c ∈ warningMarker.toList, isBlank c = false := by
  simp [warningMarker, isBlank, blankRanges]

theorem startsWith_append_blank {m l bs : List Char} (solid : ∀ c ∈ m, isBlank c = false)
    (h : bs.all isBlank = true) : startsWith m (l ++ bs) = startsWith m l := by
  induction m generalizing l with
  | nil => rfl
  | cons x m ih =>
      cases l with
      | cons c l =>
          have rest := ih (l := l) fun c member => solid c (List.mem_cons_of_mem _ member)
          simp only [startsWith] at rest ⊢
          by_cases same : x = c
          · simpa [afterStart?, same] using rest
          · simp [afterStart?, same]
      | nil =>
          cases bs with
          | nil => rfl
          | cons b bs =>
              have ne : x ≠ b := by
                rintro rfl
                simp [solid x (List.mem_cons_self ..)] at h
              simp [startsWith, afterStart?, ne]

theorem isMarked_append_blank {bs : List Char} (h : bs.all isBlank = true) (l : List Char) :
    isMarked (l ++ bs) = isMarked l := by
  induction l with
  | nil =>
      refine Bool.eq_false_iff.2 fun marked => ?_
      have colon := List.all_eq_true.1 h ':' (by simpa using mem_of_isMarked marked)
      simp [isBlank, blankRanges] at colon
  | cons c l ih =>
      by_cases indent : isIndent c = true
      · rw [List.cons_append, isMarked_cons_of_indent indent, isMarked_cons_of_indent indent, ih]
      · simp only [isMarked, List.cons_append, List.dropWhile_cons_of_neg indent]
        rw [← List.cons_append, startsWith_append_blank solid_errorMarker h,
          startsWith_append_blank solid_warningMarker h]

/-! ## Texts with a marked line -/

/-- Whether a line of the text is marked. -/
def hasMark (cs : List Char) : Bool := (splitChars '\n' cs).any isMarked

theorem isFailure_eq (body : String) : isFailure body = hasMark body.toList := rfl

theorem isFailure_empty : isFailure "" = false := rfl

theorem hasMark_of_notMem {l : List Char} (h : '\n' ∉ l) : hasMark l = isMarked l :=
  anyLine_of_notMem h

theorem hasMark_append_line (a b : List Char) :
    hasMark (a ++ '\n' :: b) = (hasMark a || hasMark b) :=
  anyLine_append_line a b

theorem mem_of_hasMark {cs : List Char} (h : hasMark cs = true) : ':' ∈ cs := by
  induction cs using line_induction with
  | last l own => exact mem_of_isMarked (hasMark_of_notMem own ▸ h)
  | line l rest own ih =>
      rw [hasMark_append_line, Bool.or_eq_true] at h
      rcases h with first | later
      · exact List.mem_append_left _ (mem_of_isMarked (hasMark_of_notMem own ▸ first))
      · exact List.mem_append_right _ (List.mem_cons_of_mem _ (ih later))

theorem hasMark_eq_false {cs : List Char} (h : ':' ∉ cs) : hasMark cs = false :=
  Bool.eq_false_iff.2 fun marked => h (mem_of_hasMark marked)

/-- A text that begins with a marker has a marked line. -/
theorem hasMark_of_marker {m : List Char} (one : '\n' ∉ m) (marked : ∀ l, isMarked (m ++ l) = true)
    (cs : List Char) : hasMark (m ++ cs) = true := by
  induction cs using line_induction with
  | last l own => rw [hasMark_of_notMem (by simp [one, own]), marked]
  | line l rest own ih =>
      rw [← List.append_assoc, hasMark_append_line, hasMark_of_notMem (by simp [one, own]), marked]
      rfl

theorem hasMark_trimEndChars (cs : List Char) : hasMark (trimEndChars cs) = hasMark cs :=
  anyLine_trimEndChars isMarked_append_blank rfl cs

/-! ## Sections -/

/-- Appending neither takes a mark off its line nor puts one there. -/
theorem isFailure_append (text fragment : String) :
    isFailure (append text fragment) = (isFailure text || isFailure fragment) := by
  unfold append
  split
  next empty =>
    rw [empty]
    rfl
  next =>
    -- the separator is an empty line, a rule and another empty line
    have lines : text.toList ++ separator.toList ++ fragment.toList = text.toList ++
        '\n' :: ([] ++ '\n' :: (['-', '-', '-'] ++ '\n' :: ([] ++ '\n' :: fragment.toList))) := by
      simp [separator]
    have empty : hasMark [] = false := rfl
    have rule : hasMark ['-', '-', '-'] = false := rfl
    rw [isFailure_eq, String.toList_append, String.toList_append, lines, hasMark_append_line,
      hasMark_append_line, hasMark_append_line, hasMark_append_line, empty, rule]
    rfl

theorem sectionAfter_of_failure (c : Change) (app : String) {text : String}
    (h : isFailure text = true) :
    ∃ more, c.sectionAfter app (some text) = some (text ++ more) ∧
      isFailure (text ++ more) = true := by
  have kept : some text = some (text ++ "") := by rw [String.append_empty]
  have fails : isFailure (text ++ "") = true := by rw [String.append_empty, h]
  cases c with
  | addApp a =>
      by_cases own : a = app
      · exact ⟨"", (if_pos own).trans kept, fails⟩
      · exact ⟨"", (if_neg own).trans kept, fails⟩
  | append a fragment =>
      by_cases own : a = app
      · obtain ⟨more, longer⟩ := exists_append_eq text fragment
        refine ⟨more, (if_pos own).trans (congrArg some longer), ?_⟩
        rw [← longer, isFailure_append, h, Bool.true_or]
      · exact ⟨"", (if_neg own).trans kept, fails⟩
  | appendTrailer fragment => exact ⟨"", kept, fails⟩
  | push => exact ⟨"", kept, fails⟩

/-- A section that tells of a failure goes on to do so. -/
theorem sectionAfterAll_of_failure (app : String) (cs : List Change) {text : String}
    (h : isFailure text = true) :
    ∃ more, sectionAfterAll app (some text) cs = some (text ++ more) ∧
      isFailure (text ++ more) = true := by
  induction cs generalizing text with
  | nil => exact ⟨"", by rw [String.append_empty]; rfl, by rw [String.append_empty, h]⟩
  | cons c cs ih =>
      obtain ⟨first, step, fails⟩ := sectionAfter_of_failure c app h
      obtain ⟨more, steps, stays⟩ := ih fails
      rw [String.append_assoc] at steps stays
      refine ⟨first ++ more, ?_, stays⟩
      rw [sectionAfterAll, List.foldl_cons, step]
      exact steps

theorem isFailure_joined (fs : List String) : isFailure (joined fs) = fs.any isFailure := by
  have fold : ∀ (fs : List String) (text : String),
      isFailure (fs.foldl append text) = (isFailure text || fs.any isFailure) := by
    intro fs
    induction fs with
    | nil => simp
    | cons f fs ih =>
        intro text
        rw [List.foldl_cons, ih, isFailure_append, List.any_cons, Bool.or_assoc]
  rw [← foldl_append, fold]
  rfl

/-! ## Reports -/

/-- The block of an application with the sign of a failure. -/
def failedBlock (app text : String) : String :=
  "\n<details><summary>" ++ failIndicator ++ " <b>" ++ app ++ "</b></summary>\n\n" ++ text ++
    "\n\n</details>\n"

theorem block_of_failure {text : String} (app : String) (h : isFailure text = true) :
    block app text = failedBlock app text := by
  have filled : text ≠ "" := by
    intro empty
    rw [empty, isFailure_empty] at h
    cases h
  unfold block indicator failedBlock
  rw [if_pos h, if_neg filled]

/-- A message in which the section of an application tells of a failure: `text` does, and in the
report at its full length it stands in a block with the sign of a failure. -/
structure Flagged (m : Message) (app text : String) : Prop where
  holds : m.section? app = some text
  failure : isFailure text = true
  shown : ∃ before after, m.sections = before ++ (app, text) :: after ∧
    compose m.layout m.sections m.trailer =
      head m.layout ++ String.join (before.map fun s => block s.1 s.2) ++ failedBlock app text ++
        String.join (after.map fun s => block s.1 s.2) ++ foot m.trailer

theorem Flagged.of_section? {m : Message} {app text : String} (holds : m.section? app = some text)
    (failure : isFailure text = true) : Flagged m app text := by
  obtain ⟨before, after, split⟩ := List.append_of_mem (Assoc.mem_of_find? holds)
  refine ⟨holds, failure, before, after, split, ?_⟩
  rw [compose, split, List.map_append, List.map_cons, String.join_append, String.join_cons,
    block_of_failure app failure]
  simp only [String.append_assoc]

theorem Flagged.changeAll {m : Message} {app text : String} (h : Flagged m app text) {σ : Type}
    (host : Host σ) (cs : List Change) (s : σ) :
    ∃ more, Flagged (m.changeAll host cs s).1 app (text ++ more) := by
  obtain ⟨more, after, failure⟩ := sectionAfterAll_of_failure app cs h.failure
  refine ⟨more, .of_section? ?_ failure⟩
  rw [Message.changeAll_section?, h.holds, after]

end ChangeReport.Report
