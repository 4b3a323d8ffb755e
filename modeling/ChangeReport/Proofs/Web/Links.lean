import ChangeReport.Proofs.Text.Lines
import ChangeReport.Web.Link
import Mathlib.Data.List.Count

/-! Headers of links. The address of a link may hold the marks that set off links and parameters, and
so may the value of a parameter. No piece of them is taken for the relation to the next page, for
that one is a name with a whole value in quotes. -/
namespace ChangeReport.Web
open Text

/-! ## Reading piece by piece -/

/-- Whether one part of a header has the parameter; `inside` if it follows a semicolon. -/
def isNextAfter (inside : Bool) (part : List Char) : Bool :=
  ((splitChars ';' part).drop (if inside then 0 else 1)).any fun p => trimChars p == nextParameter

/-- Whether a part of a header up to its end has the parameter. -/
def hasNextAfter (inside : Bool) (cs : List Char) : Bool :=
  match splitChars ',' cs with
  | [] => false
  | part :: rest => isNextAfter inside part || rest.any (isNextAfter false)

theorem hasNextLink_eq (cs : List Char) : hasNextLink cs = hasNextAfter false cs := by
  obtain ⟨p, ps, pieces⟩ := exists_splitChars ',' cs
  rw [hasNextLink, hasNextAfter, pieces]
  rfl

theorem isNextAfter_append (inside : Bool) (a b : List Char) :
    isNextAfter inside (a ++ ';' :: b) = (isNextAfter inside a || isNextAfter true b) := by
  obtain ⟨p, ps, pieces⟩ := exists_splitChars ';' a
  cases inside <;> simp [isNextAfter, splitChars_append_sep, pieces, Bool.or_assoc]

theorem hasNextAfter_comma (inside : Bool) (a b : List Char) :
    hasNextAfter inside (a ++ ',' :: b) = (hasNextAfter inside a || hasNextAfter false b) := by
  obtain ⟨p, ps, first⟩ := exists_splitChars ',' a
  obtain ⟨q, qs, second⟩ := exists_splitChars ',' b
  simp only [hasNextAfter, splitChars_append_sep, first, second, List.cons_append, List.any_append,
    List.any_cons, Bool.or_assoc]

theorem hasNextAfter_of_notMem {cs : List Char} (h : ',' ∉ cs) (inside : Bool) :
    hasNextAfter inside cs = isNextAfter inside cs := by
  simp [hasNextAfter, splitChars_of_notMem h]

theorem hasNextAfter_semicolon (inside : Bool) (a b : List Char) :
    hasNextAfter inside (a ++ ';' :: b) = (hasNextAfter inside a || hasNextAfter true b) := by
  by_cases links : ',' ∈ a
  · obtain ⟨l, a, rfl, own⟩ := List.eq_append_cons_of_mem links
    have later := hasNextAfter_semicolon false a b
    rw [List.append_assoc, List.cons_append, hasNextAfter_comma, hasNextAfter_comma, later,
      Bool.or_assoc]
  · by_cases more : ',' ∈ b
    · obtain ⟨l, b, rfl, own⟩ := List.eq_append_cons_of_mem more
      have joined : ',' ∉ a ++ ';' :: l := by simp [links, own]
      have assoc : a ++ ';' :: (l ++ ',' :: b) = (a ++ ';' :: l) ++ ',' :: b := by simp
      rw [assoc, hasNextAfter_comma, hasNextAfter_comma, hasNextAfter_of_notMem joined,
        hasNextAfter_of_notMem links, hasNextAfter_of_notMem own, isNextAfter_append, Bool.or_assoc]
    · have joined : ',' ∉ a ++ ';' :: b := by simp [links, more]
      rw [hasNextAfter_of_notMem joined, hasNextAfter_of_notMem links,
        hasNextAfter_of_notMem more, isNextAfter_append]
termination_by a.length

/-- Whether a character sets off a link or a parameter. -/
def isMark (c : Char) : Bool := c == ',' || c == ';'

theorem hasNextAfter_mark {c : Char} (mark : isMark c = true) (inside : Bool) (a b : List Char) :
    hasNextAfter inside (a ++ c :: b) = (hasNextAfter inside a || hasNextAfter (c == ';') b) := by
  simp only [isMark, Bool.or_eq_true, beq_iff_eq] at mark
  rcases mark with rfl | rfl
  · exact hasNextAfter_comma inside a b
  · exact hasNextAfter_semicolon inside a b

theorem hasNextAfter_piece {cs : List Char} (h : ∀ c ∈ cs, isMark c = false) (inside : Bool) :
    hasNextAfter inside cs = (inside && trimChars cs == nextParameter) := by
  have comma : ',' ∉ cs := fun member => by cases h _ member
  have semicolon : ';' ∉ cs := fun member => by cases h _ member
  rw [hasNextAfter_of_notMem comma, isNextAfter, splitChars_of_notMem semicolon]
  cases inside <;> simp

theorem isMark_of_isBlank {c : Char} (h : isBlank c = true) : isMark c = false := by
  refine Bool.eq_false_iff.2 fun mark => ?_
  simp only [isMark, Bool.or_eq_true, beq_iff_eq] at mark
  rcases mark with rfl | rfl
  · cases h
  · cases h

/-- A text that begins with the relation to the next page, up to its end or to a mark and blanks
apart. -/
def StartsNext (cs : List Char) : Prop :=
  ∃ front back rest, cs = front ++ (nextParameter ++ (back ++ rest)) ∧
    front.all isBlank = true ∧ back.all isBlank = true ∧ ∀ c ∈ rest.head?, isMark c = true

/-- A header with the relation to the next page as a parameter, however it is spaced. -/
def TellsNext (header : List Char) : Prop :=
  ∃ before after, header = before ++ ';' :: after ∧ StartsNext after

theorem StartsNext.hasNextAfter {cs : List Char} (h : StartsNext cs) :
    hasNextAfter true cs = true := by
  obtain ⟨front, back, rest, rfl, before, after, ends⟩ := h
  have bare : nextParameter.any isMark = false := by decide
  have piece : ∀ c ∈ front ++ (nextParameter ++ back), isMark c = false := by
    intro c member
    rcases List.mem_append.1 member with blank | member
    · exact isMark_of_isBlank (List.all_eq_true.1 before c blank)
    · rcases List.mem_append.1 member with inside | blank
      · exact Bool.eq_false_iff.2 (List.any_eq_false.1 bare c inside)
      · exact isMark_of_isBlank (List.all_eq_true.1 after c blank)
  have trimmed : trimChars nextParameter = nextParameter := by decide
  have whole : Web.hasNextAfter true (front ++ (nextParameter ++ back)) = true := by
    rw [hasNextAfter_piece piece, trimChars_blank_append before, trimChars_append_blank after,
      trimmed]
    rfl
  cases rest with
  | nil => rwa [List.append_nil]
  | cons c rest =>
      have assoc : front ++ (nextParameter ++ (back ++ c :: rest)) =
          (front ++ (nextParameter ++ back)) ++ c :: rest := by simp
      rw [assoc, hasNextAfter_mark (ends c rfl), whole, Bool.true_or]

theorem startsNext_or_tellsNext {inside : Bool} {cs : List Char}
    (h : hasNextAfter inside cs = true) : inside = true ∧ StartsNext cs ∨ TellsNext cs := by
  by_cases marks : ∃ c ∈ cs, isMark c = true
  · obtain ⟨a, c, b, rfl, mark, piece⟩ : ∃ a c b, cs = a ++ c :: b ∧ isMark c = true ∧
        ∀ d ∈ a, isMark d = false := by
      obtain ⟨c, found⟩ := Option.isSome_iff_exists.1 (List.find?_isSome.2 marks)
      obtain ⟨mark, a, b, split, before⟩ := List.find?_eq_some_iff_append.1 found
      exact ⟨a, c, b, split, mark, by simpa using before⟩
    rw [hasNextAfter_mark mark, Bool.or_eq_true] at h
    rcases h with first | later
    · rw [hasNextAfter_piece piece, Bool.and_eq_true, beq_iff_eq] at first
      obtain ⟨front, back, split, before, after⟩ := exists_blank_of_trimChars a
      refine .inl ⟨first.1, front, back, c :: b, ?_, before, after, by simpa using mark⟩
      rw [split, first.2]
      simp
    · rcases startsNext_or_tellsNext later with ⟨semicolon, starts⟩ | ⟨before, after, rfl, starts⟩
      · obtain rfl := beq_iff_eq.1 semicolon
        exact .inr ⟨a, b, rfl, starts⟩
      · exact .inr ⟨a ++ c :: before, after, by simp, starts⟩
  · have piece : ∀ c ∈ cs, isMark c = false := by simpa using marks
    rw [hasNextAfter_piece piece, Bool.and_eq_true, beq_iff_eq] at h
    obtain ⟨front, back, split, before, after⟩ := exists_blank_of_trimChars cs
    refine .inl ⟨h.1, front, back, [], ?_, before, after, by simp⟩
    rw [List.append_nil, ← h.2]
    exact split
termination_by cs.length

theorem hasNextLink_iff {cs : List Char} : hasNextLink cs = true ↔ TellsNext cs := by
  rw [hasNextLink_eq]
  constructor
  · exact fun next => (startsNext_or_tellsNext next).resolve_left fun h => nomatch h.1
  · rintro ⟨before, after, rfl, starts⟩
    rw [hasNextAfter_semicolon, starts.hasNextAfter, Bool.or_true]

/-- A text with no more than one quote holds no value. -/
theorem hasNextAfter_of_count {cs : List Char} (few : cs.count '"' ≤ 1) (inside : Bool) :
    hasNextAfter inside cs = false := by
  refine Bool.eq_false_iff.2 fun next => ?_
  have within : nextParameter.Sublist cs := by
    rcases startsNext_or_tellsNext next with ⟨-, front, back, rest, rfl, -⟩ |
      ⟨a, b, rfl, front, back, rest, rfl, -⟩
    · exact (List.sublist_append_left _ _).trans (List.sublist_append_right _ _)
    · exact (List.sublist_append_left _ _).trans ((List.sublist_append_right _ _).trans
        ((List.sublist_cons_self _ _).trans (List.sublist_append_right _ _)))
  have quotes : nextParameter.count '"' = 2 := by decide
  have more := within.count_le '"'
  omega

/-! ## Links -/

/-- A link with its parameters. -/
structure Link where
  url : List Char
  parameters : List (List Char × List Char)

namespace Link

def parameterText (p : List Char × List Char) : List Char := p.1 ++ '=' :: '"' :: (p.2 ++ ['"'])

/-- A link as text: each parameter stands after a semicolon and a blank. -/
def text (l : Link) : List Char :=
  '<' :: (l.url ++ '>' :: l.parameters.flatMap fun p => ';' :: ' ' :: parameterText p)

/-- The text of links, with a comma and a blank between them. -/
def header : List Link → List Char
  | [] => []
  | [l] => l.text
  | l :: m :: rest => l.text ++ ',' :: ' ' :: header (m :: rest)

def nextRelation : List Char × List Char := ("rel".toList, "next".toList)

/-- There are no quotes in addresses and values, and names hold nothing that sets off parameters. -/
@[mk_iff valid_iff]
structure Valid (l : Link) : Prop where
  url : '"' ∉ l.url
  name : ∀ p ∈ l.parameters, ∀ c ∈ p.1, c ≠ '"' ∧ isMark c = false ∧ isBlank c = false
  value : ∀ p ∈ l.parameters, '"' ∉ p.2

instance (l : Link) : Decidable l.Valid :=
  decidable_of_iff
    ('"' ∉ l.url ∧
      (l.parameters.all fun p => p.1.all fun c => c ≠ '"' ∧ isMark c = false ∧ isBlank c = false) ∧
      ∀ p ∈ l.parameters, '"' ∉ p.2)
    (by simp only [List.all_eq_true, decide_eq_true_eq, valid_iff])

/-- A name with its value in quotes is known from its text. -/
theorem parameterText_inj {p q : List Char × List Char} (hp : '"' ∉ p.1 ∧ '"' ∉ p.2)
    (hq : '"' ∉ q.1 ∧ '"' ∉ q.2) (same : parameterText p = parameterText q) : p = q := by
  have pieces : ∀ {r : List Char × List Char}, '"' ∉ r.1 ∧ '"' ∉ r.2 →
      splitChars '"' (parameterText r) = [r.1 ++ ['='], r.2, []] := by
    intro r bare
    have assoc : parameterText r = (r.1 ++ ['=']) ++ '"' :: (r.2 ++ '"' :: []) := by
      simp [parameterText]
    rw [assoc, splitChars_append_sep, splitChars_append_sep, splitChars_of_notMem bare.2,
      splitChars_of_notMem (by simpa using bare.1)]
    rfl
  have split := congrArg (splitChars '"') same
  rw [pieces hp, pieces hq, List.cons.injEq, List.cons.injEq, List.append_left_inj] at split
  exact Prod.ext split.1 split.2.1

variable {l : Link} {p : List Char × List Char}

theorem trimChars_parameterText (h : ∀ c ∈ p.1, isBlank c = false) :
    trimChars (' ' :: parameterText p) = parameterText p := by
  have start : trimStartChars (' ' :: parameterText p) = parameterText p := by
    rw [trimStartChars, List.dropWhile_cons_of_pos (by decide)]
    cases name : p.1 with
    | nil => simp [parameterText, name, isBlank, blankRanges]
    | cons c cs =>
        rw [parameterText, name, List.cons_append, List.dropWhile_cons_of_neg]
        simp [h c (by simp [name])]
  have assoc : parameterText p = (p.1 ++ '=' :: '"' :: p.2) ++ ['"'] := by simp [parameterText]
  have quote : trimEndChars ['"'] = ['"'] := by decide
  rw [trimChars, start, assoc, trimEndChars_append, quote, if_neg (List.cons_ne_nil _ _)]

/-- Only the relation to the next page is taken for it. -/
theorem hasNextAfter_parameterText (valid : l.Valid) (member : p ∈ l.parameters) :
    hasNextAfter true (' ' :: parameterText p) = (nextRelation == p) := by
  have plain := valid.name p member
  have quoted := valid.value p member
  have unquoted : '"' ∉ p.1 := fun inside => (plain _ inside).1 rfl
  by_cases marks : ∃ c ∈ p.2, isMark c = true
  · -- the value is torn apart, and each end of it has one quote
    obtain ⟨c, inside, mark⟩ := marks
    have other : p ≠ nextRelation := by
      rintro rfl
      have whole : nextRelation.2.any isMark = false := by decide
      exact absurd mark (List.any_eq_false.1 whole c inside)
    obtain ⟨v, w, parts⟩ := List.append_of_mem inside
    rw [parts, List.mem_append, List.mem_cons, not_or, not_or] at quoted
    have torn : ' ' :: parameterText p = (' ' :: (p.1 ++ '=' :: '"' :: v)) ++ c :: (w ++ ['"']) := by
      simp [parameterText, parts]
    have first : (' ' :: (p.1 ++ '=' :: '"' :: v)).count '"' ≤ 1 := by
      simp [List.count_eq_zero.2 unquoted, List.count_eq_zero.2 quoted.1]
    have second : (w ++ ['"']).count '"' ≤ 1 := by
      simp [List.count_eq_zero.2 quoted.2.2]
    rw [torn, hasNextAfter_mark mark, hasNextAfter_of_count first, hasNextAfter_of_count second]
    simp [other.symm]
  · have piece : ∀ c ∈ ' ' :: parameterText p, isMark c = false := by
      intro c inside
      simp only [parameterText, List.mem_cons, List.mem_append, List.not_mem_nil, or_false] at inside
      rcases inside with rfl | name | rfl | rfl | value | rfl
      · decide
      · exact (plain c name).2.1
      · decide
      · decide
      · simpa using fun mark => marks ⟨c, value, mark⟩
      · decide
    have same : nextParameter = parameterText nextRelation := by decide
    rw [hasNextAfter_piece piece, trimChars_parameterText fun c inside => (plain c inside).2.2, same,
      Bool.true_and, Bool.eq_iff_iff, beq_iff_eq, beq_iff_eq]
    exact ⟨fun eq => (parameterText_inj ⟨unquoted, quoted⟩ (by decide) eq).symm,
      fun eq => congrArg parameterText eq.symm⟩

theorem hasNextAfter_parameters (valid : l.Valid) {ps : List (List Char × List Char)}
    (sub : ps ⊆ l.parameters) (inside : Bool) (a : List Char) :
    hasNextAfter inside (a ++ ps.flatMap fun p => ';' :: ' ' :: parameterText p) =
      (hasNextAfter inside a || ps.contains nextRelation) := by
  induction ps generalizing inside a with
  | nil => simp
  | cons p ps ih =>
      rw [List.cons_subset] at sub
      rw [List.flatMap_cons, List.cons_append, hasNextAfter_semicolon, ih sub.2,
        hasNextAfter_parameterText valid sub.1, List.contains_cons]

theorem hasNextAfter_text (valid : l.Valid) {a : List Char} (h : '"' ∉ a) :
    hasNextAfter false (a ++ l.text) = l.parameters.contains nextRelation := by
  have assoc : a ++ l.text = (a ++ '<' :: (l.url ++ ['>'])) ++
      l.parameters.flatMap fun p => ';' :: ' ' :: parameterText p := by simp [text]
  have bare : (a ++ '<' :: (l.url ++ ['>'])).count '"' ≤ 1 := by
    simp [List.count_eq_zero.2 h, List.count_eq_zero.2 valid.url]
  rw [assoc, hasNextAfter_parameters valid (List.Subset.refl _), hasNextAfter_of_count bare,
    Bool.false_or]

theorem hasNextAfter_header {links : List Link} (valid : ∀ l ∈ links, l.Valid) {a : List Char}
    (bare : '"' ∉ a) : hasNextAfter false (a ++ header links) =
      links.any fun l => l.parameters.contains nextRelation := by
  induction links using header.induct generalizing a with
  | case1 =>
      have few : (a ++ header []).count '"' ≤ 1 := by
        simp [header, List.count_eq_zero.2 bare]
      exact hasNextAfter_of_count few false
  | case2 l => simp [header, hasNextAfter_text (valid l (List.mem_cons_self ..)) bare]
  | case3 l m rest ih =>
      have assoc : a ++ header (l :: m :: rest) =
          (a ++ l.text) ++ ',' :: ([' '] ++ header (m :: rest)) := by
        simp [header]
      rw [assoc, hasNextAfter_comma, hasNextAfter_text (valid l (List.mem_cons_self ..)) bare,
        ih (fun l member => valid l (List.mem_cons_of_mem _ member)) (by decide)]
      rfl

theorem hasNextLink_header {links : List Link} (valid : ∀ l ∈ links, l.Valid) :
    hasNextLink (header links) = links.any fun l => l.parameters.contains nextRelation := by
  rw [hasNextLink_eq, ← hasNextAfter_header valid List.not_mem_nil, List.nil_append]

theorem tellsNext_header {links : List Link} (valid : ∀ l ∈ links, l.Valid) :
    TellsNext (header links) ↔ ∃ l ∈ links, nextRelation ∈ l.parameters := by
  rw [← hasNextLink_iff, hasNextLink_header valid, List.any_eq_true]
  simp only [List.contains_iff_mem]

/-- A header tells of a next page just if one of its links has that relation, whatever the marks in
addresses and values. -/
theorem hasNextLink_header_iff {links : List Link} (valid : ∀ l ∈ links, l.Valid) :
    hasNextLink (header links) = true ↔
      ∃ l ∈ links, ("rel".toList, "next".toList) ∈ l.parameters := by
  rw [hasNextLink_iff, tellsNext_header valid]
  rfl

/-- An address with all the marks of links and parameters, and a value that is no relation. -/
def torn : Link where
  url := "https://host/comments?q=a, <b>; rel=next, ; rel=next".toList
  parameters := [("rel".toList, "first".toList), ("title".toList, "next".toList)]

def further : Link where
  url := "https://host/comments?q=a;b&page=2".toList
  parameters := [("title".toList, "more".toList), ("rel".toList, "next".toList)]

theorem hasNextLink_header_of_torn :
    (∀ l ∈ [torn, further], l.Valid) ∧ hasNextLink (header [torn]) = false ∧
      hasNextLink (header [torn, further]) = true := by
  have first : ∀ l ∈ [torn], l.Valid := by decide +kernel
  have both : ∀ l ∈ [torn, further], l.Valid := by decide +kernel
  refine ⟨both, ?_, (hasNextLink_header_iff both).2 ?_⟩
  · exact Bool.eq_false_iff.2 (mt (hasNextLink_header_iff first).1 (by decide))
  · exact ⟨further, by simp, List.mem_cons_of_mem _ (List.mem_cons_self ..)⟩

end Link

end ChangeReport.Web
