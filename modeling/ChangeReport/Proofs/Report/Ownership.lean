import ChangeReport.Report.Ownership
import Mathlib.Data.List.Basic

/-! Whose report a text is. A text that opens with the title and the line of a reporter is
known as a report of this reporter and of no other one, whatever follows on the lines below.
A report that is not cut opens like this. -/
namespace ChangeReport.Report
open Text

/-- An identity that can stand on a line of its own. -/
def ValidIdentity (identity : Option String) : Prop :=
  ∀ name, identity = some name → name ≠ "" ∧ '\n' ∉ name.toList

/-! ## The line of the identity -/

theorem trimChars_of_ends {c d : Char} (first : isBlank c = false) (last : isBlank d = false)
    (cs : List Char) : trimChars (c :: (cs ++ [d])) = c :: (cs ++ [d]) := by
  have back : (c :: (cs ++ [d])).reverse = d :: (c :: cs).reverse := by simp
  rw [trimChars, trimStartChars_of_head first, trimEndChars, back,
    List.dropWhile_cons_of_neg (by simp [last]), ← back, List.reverse_reverse]

theorem identityLine_toList (name : String) :
    (identityLine name).toList = '_' :: (name.toList ++ ['_']) := by
  simp [identityLine]

theorem isIdentityLine_identityLine {name : String} (h : name ≠ "") :
    isIdentityLine (identityLine name).toList = true := by
  have some : 0 < byteLength name.toList := by
    cases chars : name.toList with
    | nil => exact absurd (String.toList_eq_nil_iff.1 chars) h
    | cons c cs =>
        have size := c.utf8Size_pos
        simp only [byteLength]
        omega
  have size : byteLength (identityLine name).toList = 2 + byteLength name.toList := by
    have mark : '_'.utf8Size = 1 := by decide
    rw [identityLine_toList, byteLength, byteLength_append, byteLength, byteLength, mark]
    omega
  have long : 2 < byteLength (identityLine name).toList := by omega
  have last : ('_' :: (name.toList ++ ['_'])).getLast? = Option.some '_' := by
    rw [← List.cons_append, List.getLast?_concat]
  rw [isIdentityLine, decide_eq_true long, identityLine_toList, last]
  simp

theorem identityLine_injective {a b : String}
    (h : (identityLine a).toList = (identityLine b).toList) : a = b := by
  rw [identityLine_toList, identityLine_toList, List.cons.injEq] at h
  exact String.toList_inj.1 (List.append_cancel_right h.2)

/-- Whether the line below the title makes a text the report of a reporter. -/
def tells (line : List Char) : Option String → Bool
  | some name => line == (identityLine name).toList
  | none => !isIdentityLine line

theorem isOwn_eq (body : String) (identity : Option String) : isOwn body identity =
    (afterTitle? (unwrap body.toList)).any fun rest =>
      tells (trimChars (firstLine rest)) identity := by
  unfold isOwn
  cases afterTitle? (unwrap body.toList) with
  | none => rfl
  | some rest => cases identity <;> rfl

theorem eq_of_tells {line : List Char} {i j : Option String} (hi : ValidIdentity i)
    (hj : ValidIdentity j) (one : tells line i = true) (other : tells line j = true) : i = j := by
  cases i with
  | none =>
      cases j with
      | none => rfl
      | some b =>
          have same : line = (identityLine b).toList := by simpa [tells] using other
          rw [tells, same, isIdentityLine_identityLine (hj b rfl).1] at one
          simp at one
  | some a =>
      have same : line = (identityLine a).toList := by simpa [tells] using one
      cases j with
      | none =>
          rw [tells, same, isIdentityLine_identityLine (hi a rfl).1] at other
          simp at other
      | some b =>
          have again : line = (identityLine b).toList := by simpa [tells] using other
          rw [identityLine_injective (same.symm.trans again)]

/-- No text is the report of two reporters. -/
theorem eq_of_isOwn {body : String} {i j : Option String} (hi : ValidIdentity i)
    (hj : ValidIdentity j) (one : isOwn body i = true) (other : isOwn body j = true) : i = j := by
  rw [isOwn_eq, Option.any_eq_true] at one other
  obtain ⟨rest, found, one⟩ := one
  obtain ⟨rest', again, other⟩ := other
  obtain rfl : rest = rest' := Option.some.inj (found.symm.trans again)
  exact eq_of_tells hi hj one other

/-- The line below the title in the reports of a reporter. -/
def nameLine (identity : Option String) : List Char :=
  identity.elim [] fun name => (identityLine name).toList

theorem tells_nameLine_iff {i : Option String} (valid : ValidIdentity i) (j : Option String) :
    tells (nameLine i) j = true ↔ j = i := by
  cases i with
  | none =>
      cases j with
      | none => exact iff_of_true rfl rfl
      | some b => simp [nameLine, tells, identityLine_toList]
  | some a =>
      cases j with
      | none => simp [nameLine, tells, isIdentityLine_identityLine (valid a rfl).1]
      | some b =>
          rw [nameLine, Option.elim_some, tells, beq_iff_eq, Option.some.injEq]
          exact ⟨fun same => (identityLine_injective same).symm, fun same => same ▸ rfl⟩

theorem trimChars_nameLine (identity : Option String) :
    trimChars (nameLine identity) = nameLine identity := by
  cases identity with
  | none => rfl
  | some name =>
      rw [nameLine, Option.elim_some, identityLine_toList]
      exact trimChars_of_ends (by decide) (by decide) name.toList

/-! ## Lines -/

/-- A text is empty or begins with a line feed. -/
def Fed (cs : List Char) : Prop := ∀ c ∈ cs.head?, c = '\n'

namespace Fed

theorem nil : Fed [] := fun _ member => by cases member

theorem line (cs : List Char) : Fed ('\n' :: cs) := fun _ member => (Option.some.inj member).symm

theorem append {a b : List Char} (ha : Fed a) (hb : Fed b) : Fed (a ++ b) := by
  cases a with
  | nil => exact hb
  | cons c a => exact ha

theorem of_prefix {a b : List Char} (h : Fed b) (start : a <+: b) : Fed a := by
  obtain ⟨rest, rfl⟩ := start
  cases a with
  | nil => exact nil
  | cons c a => exact h

end Fed

theorem firstLine_append_fed {line rest : List Char} (h : '\n' ∉ line) (fed : Fed rest) :
    firstLine (line ++ rest) = line := by
  induction line with
  | nil =>
      cases rest with
      | nil => rfl
      | cons c rest => simp [firstLine, fed c rfl]
  | cons c line ih =>
      rw [List.mem_cons, not_or] at h
      have tail := ih h.2
      rw [firstLine] at tail
      rw [List.cons_append, firstLine,
        List.takeWhile_cons_of_pos (by simpa using Ne.symm h.1), tail]

/-! ## The start of a report -/

/-- A text that begins with the title is not hidden. -/
theorem isHiddenText_title (rest : List Char) :
    isHiddenText (title.toList ++ rest) = false := by
  obtain ⟨tail, top⟩ : ∃ tail, title.toList = '#' :: tail := ⟨_, rfl⟩
  obtain ⟨inner, hidden⟩ : ∃ inner, hiddenStart = '<' :: inner := ⟨_, rfl⟩
  rw [isHiddenText, top, List.cons_append, trimStartChars_of_head (by decide), startsWith, hidden,
    afterStart?, if_neg (by decide)]
  rfl

theorem trimStartChars_title (rest : List Char) :
    trimStartChars (title.toList ++ rest) = title.toList ++ rest := by
  obtain ⟨tail, top⟩ : ∃ tail, title.toList = '#' :: tail := ⟨_, rfl⟩
  rw [top, List.cons_append]
  exact trimStartChars_of_head (by decide)

theorem afterTitle?_unwrap (rest : List Char) :
    afterTitle? (unwrap (title.toList ++ '\n' :: rest)) = some rest := by
  rw [unwrap, trimStartChars_title]
  simp only [isHiddenText_title]
  simp [afterTitle?, afterStart?_append]

/-- The lines that the reports of a reporter open with. -/
def opening (identity : Option String) : String :=
  title ++ "\n" ++ identity.elim "" fun name => identityLine name ++ "\n"

theorem exists_below_title (identity : Option String) (valid : ValidIdentity identity)
    {below : List Char} (fed : Fed below) :
    ∃ rest, (opening identity).toList ++ below = title.toList ++ '\n' :: rest ∧
      firstLine rest = nameLine identity := by
  cases identity with
  | none =>
      exact ⟨below, by simp [opening], firstLine_append_fed List.not_mem_nil fed⟩
  | some name =>
      have whole : '\n' ∉ (identityLine name).toList := by
        rw [identityLine_toList]
        simpa using (valid name rfl).2
      exact ⟨(identityLine name).toList ++ '\n' :: below, by simp [opening],
        firstLine_append_fed whole (.line below)⟩

/-- A text that opens as the reports of a reporter do is a report of this reporter alone. -/
theorem isOwn_iff_of_opening {identity : Option String} (valid : ValidIdentity identity)
    {below : List Char} (fed : Fed below) {body : String}
    (text : body.toList = (opening identity).toList ++ below) (j : Option String) :
    isOwn body j = true ↔ j = identity := by
  obtain ⟨rest, parts, line⟩ := exists_below_title identity valid fed
  rw [isOwn_eq, text, parts, afterTitle?_unwrap, Option.any_some, line, trimChars_nameLine]
  exact tells_nameLine_iff valid j

theorem fed_append {start : String} (h : start.toList.head? = some '\n') (rest : String) :
    Fed (start ++ rest).toList := by
  rw [String.toList_append]
  intro c first
  rw [List.head?_append, h] at first
  exact (Option.some.inj first).symm

theorem fed_block (app body : String) : Fed (block app body).toList := by
  unfold block
  generalize (if body = "" then pending else body) = text
  simp only [String.append_assoc]
  exact fed_append (by decide) _

theorem fed_blocks (sections : Sections) :
    Fed (String.join (sections.map fun s => block s.1 s.2)).toList := by
  induction sections with
  | nil => exact .nil
  | cons s sections ih =>
      rw [List.map_cons, String.join_cons, String.toList_append]
      exact (fed_block s.1 s.2).append ih

theorem fed_foot (trailer : String) : Fed (foot trailer).toList := by
  unfold foot
  split
  · exact .nil
  · rw [String.append_assoc]
    exact fed_append (by decide) _

/-- The line with the link to a pipeline. -/
def linkLine (url : Option String) : String :=
  url.elim "" fun url => "\n[View pipeline](" ++ url ++ ")\n"

theorem fed_linkLine (url : Option String) : Fed (linkLine url).toList := by
  cases url with
  | none => exact .nil
  | some url =>
      rw [linkLine, Option.elim_some, String.append_assoc]
      exact fed_append (by decide) _

theorem head_eq (layout : Layout) :
    head layout = opening layout.identity ++ linkLine layout.pipelineUrl := by
  rw [head, opening, linkLine]
  cases layout.identity <;> cases layout.pipelineUrl <;> rfl

theorem compose_eq (layout : Layout) (sections : Sections) (trailer : String) :
    ∃ below : String, Fed below.toList ∧
      compose layout sections trailer = opening layout.identity ++ below := by
  refine ⟨linkLine layout.pipelineUrl ++ (String.join (sections.map fun s => block s.1 s.2) ++
    foot trailer), ?_, ?_⟩
  · rw [String.toList_append, String.toList_append]
    exact (fed_linkLine _).append ((fed_blocks sections).append (fed_foot trailer))
  · rw [compose, head_eq, String.append_assoc, String.append_assoc]

theorem build_of_le {layout : Layout} {sections : Sections} {trailer : String}
    (fits : byteLength (compose layout sections trailer).toList ≤ layout.maxLength) :
    build layout sections trailer = compose layout sections trailer := by
  rw [build, truncate, if_pos fits]

/-- A report that is not cut is known as the report of its reporter, and as that of no
other one. -/
theorem isOwn_build {layout : Layout} {sections : Sections} {trailer : String}
    (valid : ValidIdentity layout.identity)
    (fits : byteLength (compose layout sections trailer).toList ≤ layout.maxLength) :
    isOwn (build layout sections trailer) layout.identity = true := by
  obtain ⟨below, fed, text⟩ := compose_eq layout sections trailer
  rw [build_of_le fits]
  exact (isOwn_iff_of_opening valid fed (by rw [text, String.toList_append]) _).2 rfl

end ChangeReport.Report
