import ChangeReport.Text.Blank
import ChangeReport.Text.Split
import Mathlib.Data.List.TakeWhile

/-! Texts as lines. A text is one line, or a line with its line feed and a text after it. -/
namespace ChangeReport.Text

theorem splitChars_of_notMem {sep : Char} {cs : List Char} (h : sep ∉ cs) :
    splitChars sep cs = [cs] := by
  induction cs with
  | nil => rfl
  | cons c cs ih =>
      rw [List.mem_cons, not_or] at h
      rw [splitChars, if_neg (Ne.symm h.1), ih h.2]

theorem exists_splitChars (sep : Char) (cs : List Char) : ∃ p ps, splitChars sep cs = p :: ps := by
  cases cs with
  | nil => exact ⟨[], [], rfl⟩
  | cons c cs =>
      rw [splitChars]
      split
      · exact ⟨_, _, rfl⟩
      · split <;> exact ⟨_, _, rfl⟩

theorem splitChars_append_sep (sep : Char) (a b : List Char) :
    splitChars sep (a ++ sep :: b) = splitChars sep a ++ splitChars sep b := by
  induction a with
  | nil => simp [splitChars]
  | cons c a ih =>
      by_cases hit : c = sep
      · simp [splitChars, hit, ih]
      · obtain ⟨p, rest, first⟩ := exists_splitChars sep a
        simp [splitChars, hit, ih, first]

/-- Where two texts meet, the last piece of one goes on in the first piece of the other. -/
theorem exists_splitChars_append (sep : Char) (a b : List Char) :
    ∃ before last first after, splitChars sep a = before ++ [last] ∧
      splitChars sep b = first :: after ∧
      splitChars sep (a ++ b) = before ++ (last ++ first) :: after := by
  obtain ⟨first, after, start⟩ := exists_splitChars sep b
  induction a with
  | nil => exact ⟨[], [], first, after, rfl, start, start⟩
  | cons c a ih =>
      obtain ⟨before, last, f, rest, pieces, same, joined⟩ := ih
      obtain ⟨rfl, rfl⟩ := List.cons.inj (same.symm.trans start)
      by_cases hit : c = sep
      · exact ⟨[] :: before, last, f, rest, by simp [splitChars, hit, pieces], start,
          by simp [splitChars, hit, joined]⟩
      · cases before with
        | nil => exact ⟨[], c :: last, f, rest, by simp [splitChars, hit, pieces], start,
            by simp [splitChars, hit, joined]⟩
        | cons p before => exact ⟨(c :: p) :: before, last, f, rest,
            by simp [splitChars, hit, pieces], start, by simp [splitChars, hit, joined]⟩

theorem splitChars_append_of_notMem {sep : Char} {a b first : List Char} {rest : List (List Char)}
    (h : sep ∉ a) (start : splitChars sep b = first :: rest) :
    splitChars sep (a ++ b) = (a ++ first) :: rest := by
  induction a with
  | nil => exact start
  | cons c a ih =>
      rw [List.mem_cons, not_or] at h
      simp [splitChars, Ne.symm h.1, ih h.2]

theorem cutChars?_append_sep {sep : Char} {a : List Char} (h : sep ∉ a) (b : List Char) :
    cutChars? sep (a ++ sep :: b) = some (a, b) := by
  induction a with
  | nil => simp [cutChars?]
  | cons c a ih =>
      rw [List.mem_cons, not_or] at h
      simp [cutChars?, Ne.symm h.1, ih h.2]

theorem cutChars?_of_notMem {sep : Char} {cs : List Char} (h : sep ∉ cs) :
    cutChars? sep cs = none := by
  induction cs with
  | nil => rfl
  | cons c cs ih =>
      rw [List.mem_cons, not_or] at h
      simp [cutChars?, Ne.symm h.1, ih h.2]

/-- Induction over the lines of a text. -/
theorem line_induction {motive : List Char → Prop} (last : ∀ l, '\n' ∉ l → motive l)
    (line : ∀ l rest, '\n' ∉ l → motive rest → motive (l ++ '\n' :: rest)) (cs : List Char) :
    motive cs := by
  by_cases more : '\n' ∈ cs
  · obtain ⟨l, rest, rfl, own⟩ := List.eq_append_cons_of_mem more
    exact line l rest own (line_induction last line rest)
  · exact last cs more
termination_by cs.length

/-- What stands before a line of a text: nothing, or something that ends with a line feed. -/
def BeforeLine (before : List Char) : Prop := before = [] ∨ ∃ above, before = above ++ ['\n']

/-- A line of a text: it has no line feed, and stands between line feeds or the ends of the text. -/
def IsLine (l cs : List Char) : Prop :=
  '\n' ∉ l ∧ ∃ before after, cs = before ++ (l ++ after) ∧ BeforeLine before ∧
    (after = [] ∨ ∃ below, after = '\n' :: below)

theorem isLine_iff_mem {l cs : List Char} : IsLine l cs ↔ l ∈ splitChars '\n' cs := by
  constructor
  · rintro ⟨own, before, after, rfl, start, stop⟩
    have first : l ∈ splitChars '\n' (l ++ after) := by
      rcases stop with rfl | ⟨below, rfl⟩
      · simp [splitChars_of_notMem own]
      · simp [splitChars_append_sep, splitChars_of_notMem own]
    rcases start with rfl | ⟨above, rfl⟩
    · exact first
    · rw [List.append_assoc, List.singleton_append, splitChars_append_sep]
      exact List.mem_append_right _ first
  · intro member
    induction cs using line_induction with
    | last m own =>
        obtain rfl : l = m := by simpa [splitChars_of_notMem own] using member
        exact ⟨own, [], [], by simp, .inl rfl, .inl rfl⟩
    | line m rest own ih =>
        rw [splitChars_append_sep, splitChars_of_notMem own, List.singleton_append,
          List.mem_cons] at member
        rcases member with rfl | later
        · exact ⟨own, [], '\n' :: rest, rfl, .inl rfl, .inr ⟨rest, rfl⟩⟩
        · obtain ⟨single, before, after, rfl, start, stop⟩ := ih later
          refine ⟨single, m ++ '\n' :: before, after, by simp, .inr ?_, stop⟩
          rcases start with rfl | ⟨above, rfl⟩
          · exact ⟨m, rfl⟩
          · exact ⟨m ++ '\n' :: above, by simp⟩

/-- What stands from the start of a line on begins with this line. -/
theorem isLine_firstLine {before : List Char} (start : BeforeLine before) (cs : List Char) :
    IsLine (firstLine cs) (before ++ cs) := by
  have split : cs = firstLine cs ++ cs.dropWhile (· ≠ '\n') :=
    List.takeWhile_append_dropWhile.symm
  refine ⟨fun feed => ?_, before, cs.dropWhile (· ≠ '\n'), congrArg (before ++ ·) split, start, ?_⟩
  · simpa using List.mem_takeWhile_imp feed
  · cases tail : cs.dropWhile (· ≠ '\n') with
    | nil => exact .inl rfl
    | cons c below =>
        have feed := List.head?_dropWhile_not (· ≠ '\n') cs
        rw [tail] at feed
        obtain rfl : c = '\n' := by simpa using feed
        exact .inr ⟨below, rfl⟩

/-- The text of lines that all have their line feed. -/
def unlines (ls : List (List Char)) : List Char := ls.flatMap (· ++ ['\n'])

@[simp] theorem unlines_nil : unlines [] = [] := rfl

@[simp] theorem unlines_cons (l : List Char) (ls : List (List Char)) :
    unlines (l :: ls) = l ++ '\n' :: unlines ls := by
  simp [unlines]

@[simp] theorem unlines_append (ls ms : List (List Char)) :
    unlines (ls ++ ms) = unlines ls ++ unlines ms := by
  simp [unlines]

/-! ## Lines with a property -/

/-- Whether a line of a text has a property. -/
def anyLine (p : List Char → Bool) (cs : List Char) : Bool := (splitChars '\n' cs).any p

section

variable {p : List Char → Bool}

theorem anyLine_of_notMem {l : List Char} (h : '\n' ∉ l) : anyLine p l = p l := by
  simp [anyLine, splitChars_of_notMem h]

theorem anyLine_append_line (a b : List Char) :
    anyLine p (a ++ '\n' :: b) = (anyLine p a || anyLine p b) := by
  rw [anyLine, splitChars_append_sep, List.any_append]
  rfl

theorem anyLine_unlines (empty : p [] = false) {ls : List (List Char)} (own : ∀ l ∈ ls, '\n' ∉ l) :
    anyLine p (unlines ls) = ls.any p := by
  induction ls with
  | nil => simpa [anyLine, splitChars] using empty
  | cons l ls ih =>
      rw [unlines_cons, anyLine_append_line, anyLine_of_notMem (own l (List.mem_cons_self ..)),
        ih fun m member => own m (List.mem_cons_of_mem _ member), List.any_cons]

section

variable (blank : ∀ {bs}, bs.all isBlank = true → ∀ l, p (l ++ bs) = p l) (empty : p [] = false)
include blank empty

theorem anyLine_of_blank {bs : List Char} (h : bs.all isBlank = true) : anyLine p bs = false := by
  have line : ∀ {l : List Char}, l.all isBlank = true → p l = false := fun {l} h => by
    rw [← List.nil_append l, blank h, empty]
  induction bs using line_induction with
  | last l own => rw [anyLine_of_notMem own, line h]
  | line l rest own ih =>
      rw [List.all_append, Bool.and_eq_true, List.all_cons, Bool.and_eq_true] at h
      rw [anyLine_append_line, anyLine_of_notMem own, line h.1, ih h.2.2]
      rfl

/-- Blanks at the end of a text make no difference when they make none at the end of a line. -/
theorem anyLine_append_blank {bs : List Char} (h : bs.all isBlank = true) (cs : List Char) :
    anyLine p (cs ++ bs) = anyLine p cs := by
  induction cs using line_induction with
  | line l rest own ih =>
      rw [List.append_assoc, List.cons_append, anyLine_append_line, anyLine_append_line, ih]
  | last l own =>
      induction bs using line_induction with
      | last b one => rw [anyLine_of_notMem own, anyLine_of_notMem (by simp [own, one]), blank h]
      | line b rest one =>
          rw [List.all_append, Bool.and_eq_true, List.all_cons, Bool.and_eq_true] at h
          rw [← List.append_assoc, anyLine_append_line, anyLine_of_blank blank empty h.2.2,
            Bool.or_false, anyLine_of_notMem own, anyLine_of_notMem (by simp [own, one]), blank h.1]

theorem anyLine_trimEndChars (cs : List Char) : anyLine p (trimEndChars cs) = anyLine p cs := by
  obtain ⟨bs, split, all⟩ := exists_blank_of_trimEndChars cs
  exact ((congrArg (anyLine p) split).trans (anyLine_append_blank blank empty all _)).symm

end

end

end ChangeReport.Text
