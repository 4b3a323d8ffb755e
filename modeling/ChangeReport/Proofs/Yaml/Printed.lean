import ChangeReport.Proofs.Text.Digits
import ChangeReport.Yaml.Printer

/-! The canonical text of a document holds no carriage return. A text that has one is neither plain
nor single quoted nor a block, and between double quotes it is written as an escape. -/
namespace ChangeReport.Yaml
open Text

/-! ## Texts -/

theorem notMem_of_escapeless {cs : List Char} (h : needsEscapes cs = false) : '\r' ∉ cs := by
  intro member
  simp only [needsEscapes, Bool.or_eq_false_iff, Bool.not_eq_false', List.all_eq_true] at h
  exact absurd (h.2 '\r' member) (by decide)

/-- Of a text with characters that only escapes keep, the style is the one with escapes. -/
theorem needsEscapes_of_style {inLine : Bool} {s : String} (h : styleOf inLine s ≠ .double) :
    needsEscapes s.toList = false := by
  unfold styleOf at h
  dsimp only at h
  split at h
  · split at h
    next allowed =>
      simp only [literalAllowed, Bool.and_eq_true, Bool.not_eq_true', Bool.or_eq_false_iff]
        at allowed
      exact allowed.1.2.2
    · simp at h
  · split at h
    · simp at h
    · split at h
      next allowed =>
        simp only [plainAllowed, Bool.and_eq_true, Bool.not_eq_true', Bool.or_eq_false_iff]
          at allowed
        exact allowed.2.1.2
      · split at h
        next allowed =>
          simp only [singleAllowed, Bool.not_eq_true', Bool.or_eq_false_iff] at allowed
          exact allowed.2
        · simp at h

section

variable {x : Char}

theorem notMem_blanks (blank : x ≠ ' ') (n : Nat) : x ∉ blanks n := by
  simp [blanks, blank]

theorem ne_of_isBreak (broken : isBreak x = true) {c : Char} (other : isBreak c = false) : x ≠ c := by
  rintro rfl
  exact Bool.false_ne_true (other.symm.trans broken)

theorem notMem_singleBody (broken : isBreak x = true) {cs : List Char} (h : x ∉ cs) (indent : Nat)
    (afterBreak : Bool) : x ∉ singleBody indent afterBreak cs := by
  have blank : x ≠ ' ' := ne_of_isBreak broken rfl
  induction cs generalizing afterBreak with
  | nil => cases afterBreak <;> simp [singleBody, notMem_blanks blank]
  | cons c cs ih =>
      rw [List.mem_cons, not_or] at h
      have own : x ∉ if c = '\'' then ['\'', '\''] else [c] := by
        split
        · simpa using ne_of_isBreak broken rfl
        · simpa using h.1
      by_cases breaks : isBreak c = true
      · simp [singleBody, breaks, h.1, ih h.2]
      · cases afterBreak <;> simp [singleBody, breaks, own, ih h.2, notMem_blanks blank]

theorem notMem_literalBody (blank : x ≠ ' ') {cs : List Char} (h : x ∉ cs) (indent : Nat)
    (atStart : Bool) : x ∉ literalBody indent atStart cs := by
  induction cs generalizing atStart with
  | nil => simp [literalBody]
  | cons c cs ih =>
      rw [List.mem_cons, not_or] at h
      by_cases broken : isBreak c = true
      · simp [literalBody, broken, h.1, ih h.2]
      · cases atStart <;> simp [literalBody, broken, h.1, ih h.2, notMem_blanks blank]

theorem notMem_literalHints (broken : isBreak x = true) (cs : List Char) : x ∉ literalHints cs := by
  have two : x ≠ '2' := ne_of_isBreak broken rfl
  have strip : x ≠ '-' := ne_of_isBreak broken rfl
  have keep : x ≠ '+' := ne_of_isBreak broken rfl
  unfold literalHints
  dsimp only
  rw [List.mem_append, not_or]
  constructor
  · split <;> simp [two]
  · split
    · simp [strip]
    · split <;> simp [strip, keep]
    · split
      · simp [strip]
      · split <;> simp [keep]

theorem notMem_hexDigits (broken : isBreak x = true) (width n : Nat) : x ∉ hexDigits width n := by
  induction width generalizing n with
  | zero => simp [hexDigits]
  | succ width ih =>
      have every : ∀ k < 16, isBreak (hexUpper k) = false := by decide
      have digit : x ≠ hexUpper (n % 16) :=
        ne_of_isBreak broken (every _ (Nat.mod_lt _ (by decide)))
      simp [hexDigits, ih, digit]

/-- Breaks are written as escapes. -/
theorem notMem_escape (broken : isBreak x = true) (c : Char) : x ∉ escape c := by
  have slash : x ≠ '\\' := ne_of_isBreak broken rfl
  unfold escape
  split
  next e found =>
    obtain ⟨before, after, table, -⟩ := List.lookup_eq_some_iff.1 found
    have letters : ∀ p ∈ shortEscapes, isBreak p.2 = false := by decide
    have letter : x ≠ e :=
      ne_of_isBreak broken (letters (c, e) (table ▸ List.mem_append_cons_self))
    simp [slash, letter]
  next missing =>
    have ne : x ≠ c := by
      rintro rfl
      simp only [isBreak, Bool.or_eq_true, beq_iff_eq] at broken
      rcases broken with (((rfl | rfl) | rfl) | rfl) | rfl <;> cases missing
    split
    · simpa using ne
    · split
      · simp [slash, notMem_hexDigits broken, ne_of_isBreak broken (c := 'x') rfl]
      · split
        · simp [slash, notMem_hexDigits broken, ne_of_isBreak broken (c := 'u') rfl]
        · simp [slash, notMem_hexDigits broken, ne_of_isBreak broken (c := 'U') rfl]

/-- A break is in the text of a string only where the style keeps it. -/
theorem notMem_renderText_of (broken : isBreak x = true) {inLine : Bool} {s : String}
    (kept : styleOf inLine s ≠ .double → x ∉ s.toList)
    (block : styleOf inLine s = .literal → x ≠ '\n') (indent : Nat) :
    x ∉ renderText inLine indent s := by
  have quote : x ≠ '\'' := ne_of_isBreak broken rfl
  have quotes : x ≠ '"' := ne_of_isBreak broken rfl
  have mark : x ≠ '|' := ne_of_isBreak broken rfl
  unfold renderText
  dsimp only
  split
  next style => exact kept (by simp [style])
  next style => simp [quote, notMem_singleBody broken (kept (by simp [style]))]
  next style => simp [quotes, notMem_escape broken]
  next style =>
    simp [mark, notMem_literalHints broken, block style,
      notMem_literalBody (ne_of_isBreak broken rfl) (kept (by simp [style]))]

end

theorem notMem_renderText (inLine : Bool) (indent : Nat) (s : String) :
    '\r' ∉ renderText inLine indent s :=
  notMem_renderText_of rfl (fun h => notMem_of_escapeless (needsEscapes_of_style h))
    (fun _ => by decide) indent

/-- Only blocks are texts of several lines. -/
theorem notMem_renderText_of_style {inLine : Bool} {s : String} (h : styleOf inLine s ≠ .literal)
    (indent : Nat) : '\n' ∉ renderText inLine indent s := by
  refine notMem_renderText_of rfl (fun style member => ?_) (fun style => absurd style h) indent
  have feed : s.toList.contains '\n' = true := List.contains_iff_mem.2 member
  unfold styleOf at h style
  dsimp only at h style
  rw [if_pos feed] at h style
  split at h
  · exact h rfl
  · next blocked => exact style (if_neg blocked)

theorem notMem_endLine {text : List Char} (h : '\r' ∉ text) (s : String) :
    '\r' ∉ endLine s text := by
  unfold endLine
  split
  · exact h
  · simp [h]

/-! ## Numbers -/

/-- The characters of numbers. -/
def isNumeric (c : Char) : Bool := c.isDigit || ['-', '+', '.', 'e'].contains c

section

variable {x : Char}

theorem notMem_scientific (other : isNumeric x = false) (layout : Binary64.FloatLayout)
    {digits : List Char} (h : x ∉ digits) (exponent : Int) :
    x ∉ layout.scientific digits exponent := by
  simp only [isNumeric, Bool.or_eq_false_iff, List.contains_eq_mem, decide_eq_false_iff_not,
    List.mem_cons, List.not_mem_nil, or_false, not_or] at other
  obtain ⟨digit, minus, plus, point, mark⟩ := other
  have power : x ∉ (toString exponent).toList := notMem_toString_int digit minus exponent
  have sign : x ∉ if layout.plus ∧ 0 ≤ exponent then ['+'] else [] := by
    split <;> simp [plus]
  unfold Binary64.FloatLayout.scientific
  dsimp only
  generalize (toString exponent).toList = figures at power ⊢
  cases digits with
  | nil => simp [power, sign, mark]
  | cons c rest =>
      rw [List.mem_cons, not_or] at h
      cases rest with
      | nil => simp [power, sign, mark, h.1]
      | cons d rest =>
          rw [List.mem_cons, not_or] at h
          simp [power, sign, mark, point, h.1, h.2.1, h.2.2]

theorem notMem_render (other : isNumeric x = false) (layout : Binary64.FloatLayout) (b : Binary64) :
    x ∉ (b.render layout).toList := by
  have scientific : ∀ {digits}, x ∉ digits → ∀ n, x ∉ layout.scientific digits n :=
    notMem_scientific other layout
  simp only [isNumeric, Bool.or_eq_false_iff, List.contains_eq_mem, decide_eq_false_iff_not,
    List.mem_cons, List.not_mem_nil, or_false, not_or] at other
  obtain ⟨digit, minus, -, point, -⟩ := other
  have zero : x ≠ '0' := by
    rintro rfl
    cases digit
  have digits : x ∉ (toString b.shortest.digits).toList := notMem_toString digit _
  have sign : x ∉ (if b.negative then "-" else "").toList := by
    split <;> simp [minus]
  unfold Binary64.render
  dsimp only
  split
  · simp [sign, zero, point]
  · rw [String.toList_append, String.toList_ofList, List.mem_append, not_or]
    refine ⟨sign, ?_⟩
    generalize (toString b.shortest.digits).toList = figures at digits ⊢
    split
    · simp [digits, zero, point]
    · split
      · have whole : x ∉ figures.take (figures.length + b.shortest.scale).toNat :=
          fun member => digits (List.mem_of_mem_take member)
        have places : x ∉ figures.drop (figures.length + b.shortest.scale).toNat :=
          fun member => digits (List.mem_of_mem_drop member)
        simp [whole, places, point]
      · split
        · simp [digits, zero, point]
        · exact scientific digits _

theorem notMem_renderNumber (other : isNumeric x = false) (n : Number) :
    x ∉ (renderNumber n).toList := by
  cases n with
  | int n =>
      have digit : x.isDigit = false := (Bool.or_eq_false_iff.1 other).1
      have minus : x ≠ '-' := by
        rintro rfl
        cases other
      exact notMem_toString_int digit minus n
  | float b => exact notMem_render other floatLayout b

end

/-! ## Documents -/

theorem notMem_opening (place : Place) : '\r' ∉ place.opening := by
  cases place <;> decide

theorem notMem_margin (continued : Bool) (indent : Nat) :
    '\r' ∉ if continued then [] else blanks indent := by
  split <;> simp [notMem_blanks (x := '\r') (by decide)]

mutual
theorem notMem_renderNode (place : Place) (outer : Nat) (d : Document) :
    '\r' ∉ renderNode place outer d := by
  cases d with
  | null => simp [renderNode]
  | bool b => cases b <;> simp [renderNode, toString]
  | number n => simp [renderNode, notMem_renderNumber (x := '\r') rfl]
  | string s => simp [renderNode, notMem_endLine (notMem_renderText _ _ _)]
  | array items =>
      rw [renderNode]
      split
      · simp
      · rw [List.mem_append, not_or]
        exact ⟨notMem_opening place, notMem_renderItems _ _ items⟩
  | object fields =>
      rw [renderNode]
      split
      · simp
      · rw [List.mem_append, not_or]
        exact ⟨notMem_opening place, notMem_renderFields _ _ fields⟩

theorem notMem_renderItems (continued : Bool) (indent : Nat) (items : List Document) :
    '\r' ∉ renderItems continued indent items := by
  cases items with
  | nil => simp [renderItems]
  | cons d rest =>
      rw [renderItems, List.mem_append, List.mem_append, not_or, not_or]
      refine ⟨⟨notMem_margin continued indent, ?_⟩, notMem_renderItems false indent rest⟩
      simp [notMem_renderNode .dash indent d]

theorem notMem_renderFields (continued : Bool) (indent : Nat)
    (fields : List (String × Document)) : '\r' ∉ renderFields continued indent fields := by
  cases fields with
  | nil => simp [renderFields]
  | cons field rest =>
      obtain ⟨name, v⟩ := field
      have key : '\r' ∉ if isSimpleKey name then
          renderText true (indent + 2) name ++ ':' :: renderNode .colon indent v
        else
          '?' :: ' ' :: (endLine name (renderText false (indent + 2) name) ++
            blanks indent ++ ':' :: renderNode .dash indent v) := by
        split
        · simp [notMem_renderText, notMem_renderNode .colon indent v]
        · simp [notMem_endLine (notMem_renderText _ _ _), notMem_blanks (x := '\r') (by decide),
            notMem_renderNode .dash indent v]
      rw [renderFields, List.mem_append, List.mem_append, not_or, not_or]
      exact ⟨⟨notMem_margin continued indent, key⟩, notMem_renderFields false indent rest⟩
end

/-- The canonical text of a document has no carriage return, whatever texts it holds. -/
theorem notMem_canonical (d : Option Document) : '\r' ∉ (canonical d).toList := by
  unfold canonical
  split
  · simp
  · simp
  · rw [String.toList_ofList]
    exact notMem_renderItems _ _ _
  · rw [String.toList_ofList]
    exact notMem_renderFields _ _ _
  · rw [String.toList_ofList]
    exact fun member => notMem_renderNode _ _ _ (List.mem_of_mem_drop member)

end ChangeReport.Yaml
