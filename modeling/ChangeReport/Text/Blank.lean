/-! Blank characters and the trimming of text. A blank is a character with the Unicode
property `White_Space`; trimming removes blanks at one end or at both. -/
namespace ChangeReport.Text

/-- The ranges of the property `White_Space`, ends included. -/
def blankRanges : List (Nat × Nat) :=
  [(0x09, 0x0D), (0x20, 0x20), (0x85, 0x85), (0xA0, 0xA0), (0x1680, 0x1680),
   (0x2000, 0x200A), (0x2028, 0x2029), (0x202F, 0x202F), (0x205F, 0x205F), (0x3000, 0x3000)]

def isBlank (c : Char) : Bool :=
  blankRanges.any fun r => r.1 ≤ c.toNat && c.toNat ≤ r.2

def trimStartChars (cs : List Char) : List Char := cs.dropWhile isBlank

def trimEndChars (cs : List Char) : List Char := (cs.reverse.dropWhile isBlank).reverse

def trimChars (cs : List Char) : List Char := trimEndChars (trimStartChars cs)

def trimStart (s : String) : String := String.ofList (trimStartChars s.toList)

def trimEnd (s : String) : String := String.ofList (trimEndChars s.toList)

def trim (s : String) : String := String.ofList (trimChars s.toList)

def allBlank (s : String) : Bool := s.toList.all isBlank

theorem trimStartChars_of_head {c : Char} {cs : List Char} (h : isBlank c = false) :
    trimStartChars (c :: cs) = c :: cs := by
  simp [trimStartChars, h]

theorem trimStartChars_idem (cs : List Char) :
    trimStartChars (trimStartChars cs) = trimStartChars cs := by
  induction cs with
  | nil => rfl
  | cons c cs ih =>
      by_cases h : isBlank c = true
      · simpa [trimStartChars, h] using ih
      · simp only [Bool.not_eq_true] at h
        rw [trimStartChars_of_head h, trimStartChars_of_head h]

theorem trimStartChars_append (a b : List Char) : trimStartChars (a ++ b) =
    if trimStartChars a = [] then trimStartChars b else trimStartChars a ++ b := by
  induction a with
  | nil => rfl
  | cons c a ih =>
      by_cases blank : isBlank c = true
      · have skip : ∀ cs, trimStartChars (c :: cs) = trimStartChars cs := fun cs => by
          simp [trimStartChars, blank]
        rw [List.cons_append, skip, skip, ih]
      · simp [trimStartChars, blank]

theorem trimEndChars_append (a b : List Char) : trimEndChars (a ++ b) =
    if trimEndChars b = [] then trimEndChars a else a ++ trimEndChars b := by
  have back : ∀ cs, trimEndChars cs = (trimStartChars cs.reverse).reverse := fun _ => rfl
  rw [back, back, back, List.reverse_append, trimStartChars_append]
  by_cases empty : trimStartChars b.reverse = []
  · simp [empty]
  · simp [empty]

theorem trimStartChars_of_all {cs : List Char} (h : cs.all isBlank = true) :
    trimStartChars cs = [] := by
  induction cs with
  | nil => rfl
  | cons c cs ih =>
      rw [List.all_cons, Bool.and_eq_true] at h
      rw [trimStartChars, List.dropWhile_cons_of_pos h.1]
      exact ih h.2

theorem trimEndChars_append_blank {cs bs : List Char} (h : bs.all isBlank = true) :
    trimEndChars (cs ++ bs) = trimEndChars cs := by
  have back : bs.reverse.all isBlank = true := by simpa using h
  have none : trimEndChars bs = [] := congrArg List.reverse (trimStartChars_of_all back)
  rw [trimEndChars_append, if_pos none]

/-- Trimming the end takes away blanks. -/
theorem exists_blank_of_trimEndChars (cs : List Char) :
    ∃ bs, cs = trimEndChars cs ++ bs ∧ bs.all isBlank = true := by
  refine ⟨(cs.reverse.takeWhile isBlank).reverse, ?_, ?_⟩
  · rw [trimEndChars, ← List.reverse_append, List.takeWhile_append_dropWhile,
      List.reverse_reverse]
  · simp

/-- Trimming both ends takes away blanks. -/
theorem exists_blank_of_trimChars (cs : List Char) :
    ∃ as bs, cs = as ++ (trimChars cs ++ bs) ∧ as.all isBlank = true ∧ bs.all isBlank = true := by
  obtain ⟨bs, split, blank⟩ := exists_blank_of_trimEndChars (trimStartChars cs)
  refine ⟨cs.takeWhile isBlank, bs, ?_, List.all_takeWhile, blank⟩
  rw [trimChars, ← split, trimStartChars, List.takeWhile_append_dropWhile]

theorem trimChars_blank_append {bs cs : List Char} (h : bs.all isBlank = true) :
    trimChars (bs ++ cs) = trimChars cs := by
  rw [trimChars, trimStartChars_append, if_pos (trimStartChars_of_all h), trimChars]

theorem trimChars_append_blank {cs bs : List Char} (h : bs.all isBlank = true) :
    trimChars (cs ++ bs) = trimChars cs := by
  rw [trimChars, trimChars, trimStartChars_append]
  split
  next empty => rw [empty, trimStartChars_of_all h]
  next => exact trimEndChars_append_blank h

end ChangeReport.Text
