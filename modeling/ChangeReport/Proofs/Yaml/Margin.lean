import ChangeReport.Proofs.Text.Fences
import ChangeReport.Proofs.Text.Lines
import ChangeReport.Proofs.Yaml.Printed

/-! Lines of canonical text that look like the end of a fence once a blank is put in front. Every line
with the mark of an entry on it holds more than backticks, so such a line belongs to a block, and
the block has the least indentation: it is a field or an item of the whole document, or one of its
keys. -/
namespace ChangeReport.Yaml
open Text

/-- A line that holds more than blanks and backticks. -/
def Solid (line : List Char) : Prop := ∃ c ∈ line, Text.isBlank c = false ∧ c ≠ '\x60'

theorem Solid.endsFence_eq {line : List Char} (h : Solid line) (most : Nat) :
    endsFence most line = false := by
  obtain ⟨c, member, visible, tick⟩ := h
  exact endsFence_of_mem member visible tick most

theorem Solid.append_right {a : List Char} (h : Solid a) (b : List Char) : Solid (a ++ b) := by
  obtain ⟨c, member, own⟩ := h
  exact ⟨c, List.mem_append_left _ member, own⟩

theorem Solid.append_left {b : List Char} (h : Solid b) (a : List Char) : Solid (a ++ b) := by
  obtain ⟨c, member, own⟩ := h
  exact ⟨c, List.mem_append_right _ member, own⟩

/-! ## Texts put together -/

/-- No line of a text but the first one ends a fence behind one more blank. -/
def Calm (cs : List Char) : Prop := ∀ line ∈ (splitChars '\n' cs).tail, endsFence 2 line = false

/-- The first line of a text holds more than blanks and backticks. -/
def Headed (cs : List Char) : Prop := ∃ first rest, splitChars '\n' cs = first :: rest ∧ Solid first

theorem Headed.endsFence_eq {cs : List Char} (headed : Headed cs) (calm : Calm cs)
    {line : List Char} (member : line ∈ splitChars '\n' cs) : endsFence 2 line = false := by
  obtain ⟨first, rest, pieces, solid⟩ := headed
  rw [Calm, pieces] at calm
  rw [pieces] at member
  rcases List.mem_cons.1 member with rfl | later
  · exact solid.endsFence_eq 2
  · exact calm line later

theorem Calm.append {a b : List Char} (ha : Calm a) (hb : Calm b) (headed : Headed b) :
    Calm (a ++ b) := by
  obtain ⟨before, last, first, after, pa, pb, joined⟩ := exists_splitChars_append '\n' a b
  obtain ⟨first, after, start, solid⟩ := headed
  obtain ⟨rfl, rfl⟩ := List.cons.inj (pb.symm.trans start)
  rw [Calm, pa] at ha
  rw [Calm, pb] at hb
  rw [Calm, joined]
  intro line member
  cases before with
  | nil => exact hb line member
  | cons p before =>
      rcases List.mem_append.1 member with inside | rest
      · exact ha line (List.mem_append_left _ inside)
      · rcases List.mem_cons.1 rest with rfl | later
        · exact (solid.append_left last).endsFence_eq 2
        · exact hb line later

/-- What stands on the first line does not matter. -/
theorem Calm.after {a b : List Char} (own : '\n' ∉ a) (h : Calm b) : Calm (a ++ b) := by
  obtain ⟨first, rest, start⟩ := exists_splitChars '\n' b
  rw [Calm, start] at h
  rwa [Calm, splitChars_append_of_notMem own start]

theorem Calm.newline {b : List Char} (h : Calm b) (headed : Headed b) : Calm ('\n' :: b) :=
  fun _ member => headed.endsFence_eq h member

theorem calm_ended {a : List Char} (own : '\n' ∉ a) : Calm (a ++ ['\n']) := by
  refine Calm.after own fun line member => ?_
  obtain rfl := List.mem_singleton.1 member
  rfl

theorem Headed.append {a : List Char} (h : Headed a) (b : List Char) : Headed (a ++ b) := by
  obtain ⟨first, rest, start, solid⟩ := h
  obtain ⟨before, last, f, after, pa, -, joined⟩ := exists_splitChars_append '\n' a b
  cases before with
  | nil =>
      obtain ⟨rfl, -⟩ := List.cons.inj (start.symm.trans pa)
      exact ⟨_, _, joined, solid.append_right f⟩
  | cons p before =>
      obtain ⟨rfl, -⟩ := List.cons.inj (start.symm.trans pa)
      exact ⟨_, _, joined, solid⟩

theorem Headed.after {a b : List Char} (own : '\n' ∉ a) (h : Headed b) : Headed (a ++ b) := by
  obtain ⟨first, rest, start, solid⟩ := h
  exact ⟨_, _, splitChars_append_of_notMem own start, solid.append_left a⟩

/-- A mark of an entry. -/
theorem headed_cons {c : Char} (visible : Text.isBlank c = false) (other : c ≠ '\x60')
    (cs : List Char) : Headed (c :: cs) := by
  have feed : c ≠ '\n' := by
    rintro rfl
    cases visible
  have own : Headed [c] :=
    ⟨[c], [], splitChars_of_notMem (by simpa using Ne.symm feed), c, List.mem_cons_self .., visible,
      other⟩
  exact own.append cs

/-! ## Blocks -/

theorem literalBody_append_line {indent : Nat} {l : List Char} (own : '\n' ∉ l) (atStart : Bool)
    (rest : List Char) : literalBody indent atStart (l ++ '\n' :: rest) =
      literalBody indent atStart l ++ '\n' :: literalBody indent true rest := by
  induction l generalizing atStart with
  | nil => simp [literalBody, isBreak]
  | cons c l ih =>
      rw [List.mem_cons, not_or] at own
      by_cases broken : isBreak c = true
      · simp [literalBody, broken, ih own.2]
      · simp [literalBody, broken, ih own.2]

/-- The lines of a block are those of its text, each of them indented. -/
theorem splitChars_literalBody (indent : Nat) (cs : List Char) :
    splitChars '\n' (literalBody indent true cs) =
      (splitChars '\n' cs).map (literalBody indent true) := by
  induction cs using line_induction with
  | last l own =>
      have indented := notMem_literalBody (by decide) own indent true
      rw [splitChars_of_notMem own, splitChars_of_notMem indented]
      rfl
  | line l rest own ih =>
      have indented := notMem_literalBody (by decide) own indent true
      rw [literalBody_append_line own, splitChars_append_sep, splitChars_append_sep, ih,
        splitChars_of_notMem own, splitChars_of_notMem indented, List.map_append]
      rfl

theorem mem_literalBody {c : Char} {cs : List Char} (member : c ∈ cs) (indent : Nat)
    (atStart : Bool) : c ∈ literalBody indent atStart cs := by
  induction cs generalizing atStart with
  | nil => cases member
  | cons d cs ih =>
      have here : c = d ∨ ∀ atStart, c ∈ literalBody indent atStart cs :=
        (List.mem_cons.1 member).imp_right fun later atStart => ih later atStart
      by_cases broken : isBreak d = true
      · rcases here with rfl | later
        · simp [literalBody, broken]
        · simp [literalBody, broken, later]
      · rcases here with rfl | later
        · simp [literalBody, broken]
        · simp [literalBody, broken, later]

theorem le_of_replicate_append {k i : Nat} {c d : Char} (other : c ≠ d) {a b : List Char}
    (same : List.replicate k c ++ a = List.replicate i c ++ d :: b) : k ≤ i := by
  induction k generalizing i with
  | zero => exact Nat.zero_le i
  | succ k ih =>
      cases i with
      | zero => exact absurd (List.cons.inj same).1 other
      | succ i => exact Nat.succ_le_succ (ih (List.cons.inj same).2)

theorem exists_blank_of_literalBody {indent k : Nat} {cs bs : List Char}
    (blank : bs.all Text.isBlank = true)
    (same : literalBody indent false cs = List.replicate k '\x60' ++ bs) :
    ∃ ds, ds.all Text.isBlank = true ∧ cs = List.replicate k '\x60' ++ ds := by
  induction k generalizing cs with
  | zero =>
      refine ⟨cs, List.all_eq_true.2 fun c member => ?_, rfl⟩
      have inside := mem_literalBody member indent false
      rw [same] at inside
      exact List.all_eq_true.1 blank c inside
  | succ k ih =>
      cases cs with
      | nil => cases same
      | cons c cs =>
          by_cases broken : isBreak c = true
          · rw [literalBody, if_pos broken] at same
            obtain rfl := (List.cons.inj same).1
            cases broken
          · rw [literalBody, if_neg broken] at same
            obtain ⟨rfl, rest⟩ := List.cons.inj same
            obtain ⟨ds, blanks, rfl⟩ := ih rest
            exact ⟨ds, blanks, rfl⟩

/-- A line of a block ends a fence behind one more blank only if it stands behind two blanks, and its
text ends one. -/
theorem endsFence_literalBody {indent : Nat} (least : 2 ≤ indent) {m : List Char}
    (h : endsFence 2 (literalBody indent true m) = true) : indent = 2 ∧ endsFence 0 m = true := by
  obtain ⟨i, n, bs, few, many, blank, same⟩ := endsFence_iff.1 h
  obtain ⟨n, rfl⟩ := Nat.exists_eq_add_of_le' (Nat.le_of_succ_le many)
  cases m with
  | nil => simp [literalBody, List.replicate_succ] at same
  | cons c rest =>
      by_cases broken : isBreak c = true
      · -- the break that the line begins with is neither a blank nor a backtick
        rw [literalBody, if_pos broken] at same
        cases i with
        | zero =>
            obtain rfl := (List.cons.inj same).1
            cases broken
        | succ i =>
            obtain rfl := (List.cons.inj same).1
            cases broken
      · rw [literalBody, if_neg broken, if_pos rfl, blanks] at same
        have deep : indent ≤ i := le_of_replicate_append (by decide) same
        obtain rfl : i = indent := by omega
        obtain ⟨rfl, tail⟩ := List.cons.inj (List.append_cancel_left same)
        obtain ⟨ds, blanks, rfl⟩ := exists_blank_of_literalBody blank tail
        exact ⟨by omega, endsFence_iff.2 ⟨0, n + 2, ds, Nat.le_refl 0, many, blanks, rfl⟩⟩

/-- No line of a text is three or more backticks alone. -/
def Tickless (s : String) : Prop := anyLine (endsFence 0) s.toList = false

theorem styleOf_inLine (s : String) : styleOf true s ≠ .literal := by
  unfold styleOf
  dsimp only
  split
  · simp
  · split
    · simp
    · split
      · simp
      · split <;> simp

/-- A text behind a mark, up to the end of its last line. -/
theorem calm_endLine {outer : Nat} {s : String} (h : outer = 0 → Tickless s) :
    Calm (endLine s (renderText false (outer + 2) s)) := by
  by_cases block : styleOf false s = .literal
  · have own : '\n' ∉ '|' :: literalHints s.toList := by
      simp [notMem_literalHints (x := '\n') rfl]
    have lines : ∀ line ∈ splitChars '\n' (literalBody (outer + 2) true s.toList),
        endsFence 2 line = false := by
      intro line member
      rw [splitChars_literalBody] at member
      obtain ⟨m, inside, rfl⟩ := List.mem_map.1 member
      refine Bool.eq_false_iff.2 fun ends => ?_
      obtain ⟨margin, ticks⟩ := endsFence_literalBody (Nat.le_add_left 2 outer) ends
      exact List.any_eq_false.1 (h (by omega)) m inside ticks
    have text : renderText false (outer + 2) s =
        ('|' :: literalHints s.toList) ++ '\n' :: literalBody (outer + 2) true s.toList := by
      simp only [renderText, block]
      rfl
    have body : Calm (renderText false (outer + 2) s) := by
      rw [text]
      exact Calm.after own lines
    unfold endLine
    split
    · exact body
    · rw [text, List.append_assoc, List.cons_append]
      refine Calm.after own fun line member => ?_
      rcases List.mem_append.1 (splitChars_append_sep '\n' _ [] ▸ member) with inside | last
      · exact lines line inside
      · obtain rfl := List.mem_singleton.1 last
        rfl
  · rw [endLine, if_neg fun both => block both.1]
    exact calm_ended (notMem_renderText_of_style block _)

/-! ## Documents -/

/-- The texts that stand behind two blanks when a document belongs to an entry at the margin. -/
def nodeTexts (place : Place) : Document → List String
  | .string s => [s]
  | .array items => if place = .colon then items.filterMap Document.text? else []
  | _ => []

def fieldTexts (field : String × Document) : List String :=
  if isSimpleKey field.1 then nodeTexts .colon field.2 else field.1 :: nodeTexts .dash field.2

/-- The texts of an object that stand behind two blanks: its fields, the items of its fields, and its
long keys with their values. -/
def marginTexts : Document → List String
  | .object fields => fields.flatMap fieldTexts
  | _ => []

theorem notMem_margin_newline (continued : Bool) (indent : Nat) :
    '\n' ∉ if continued then [] else blanks indent := by
  split <;> simp [notMem_blanks (x := '\n') (by decide)]

theorem headed_renderItems (continued : Bool) (indent : Nat) (d : Document) (rest : List Document) :
    Headed (renderItems continued indent (d :: rest)) := by
  rw [renderItems, List.append_assoc]
  exact Headed.after (notMem_margin_newline continued indent) (headed_cons rfl (by decide) _)

theorem headed_renderFields (continued : Bool) (indent : Nat) (field : String × Document)
    (rest : List (String × Document)) :
    Headed (renderFields continued indent (field :: rest)) := by
  obtain ⟨name, v⟩ := field
  rw [renderFields, List.append_assoc]
  refine Headed.after (notMem_margin_newline continued indent) (Headed.append ?_ _)
  split
  · exact Headed.after (notMem_renderText_of_style (styleOf_inLine name) _)
      (headed_cons rfl (by decide) _)
  · exact headed_cons rfl (by decide) _

theorem calm_append_items {a : List Char} (ha : Calm a) {indent : Nat} {rest : List Document}
    (hb : Calm (renderItems false indent rest)) : Calm (a ++ renderItems false indent rest) := by
  cases rest with
  | nil => simpa [renderItems] using ha
  | cons d rest => exact ha.append hb (headed_renderItems false indent d rest)

theorem calm_append_fields {a : List Char} (ha : Calm a) {indent : Nat}
    {rest : List (String × Document)} (hb : Calm (renderFields false indent rest)) :
    Calm (a ++ renderFields false indent rest) := by
  cases rest with
  | nil => simpa [renderFields] using ha
  | cons field rest => exact ha.append hb (headed_renderFields false indent field rest)

theorem Calm.opening {b : List Char} (h : Calm b) (headed : Headed b) (place : Place) :
    Calm (place.opening ++ b) := by
  cases place with
  | dash => exact Calm.after (by decide) h
  | colon => exact h.newline headed

mutual
theorem calm_renderNode (place : Place) (outer : Nat) (d : Document)
    (h : outer = 0 → ∀ t ∈ nodeTexts place d, Tickless t) : Calm (renderNode place outer d) := by
  cases d with
  | null => exact calm_ended (a := " null".toList) (by decide)
  | bool b => cases b <;> exact calm_ended (a := ' ' :: _) (by decide)
  | number n =>
      rw [renderNode, ← List.cons_append]
      exact calm_ended (by simp [notMem_renderNumber (x := '\n') rfl])
  | string s =>
      rw [renderNode]
      exact Calm.after (a := [' ']) (by decide)
        (calm_endLine fun margin => h margin s (List.mem_singleton.2 rfl))
  | array items =>
      rw [renderNode]
      split
      · exact calm_ended (a := " []".toList) (by decide)
      next some =>
        have texts : place.itemIndent outer = 0 → ∀ t ∈ items.filterMap Document.text?, Tickless t := by
          intro margin
          cases place with
          | dash => simp [Place.itemIndent] at margin
          | colon => simpa [nodeTexts] using h margin
        have calm := calm_renderItems (place = .dash) (place.itemIndent outer) items texts
        cases items with
        | nil => simp at some
        | cons d rest => exact calm.opening (headed_renderItems _ _ d rest) place
  | object fields =>
      rw [renderNode]
      split
      · exact calm_ended (a := " \x7b\x7d".toList) (by decide)
      next some =>
        have calm := calm_renderFields (place = .dash) (outer + 2) fields nofun
        cases fields with
        | nil => simp at some
        | cons field rest => exact calm.opening (headed_renderFields _ _ field rest) place

theorem calm_renderItems (continued : Bool) (indent : Nat) (items : List Document)
    (h : indent = 0 → ∀ t ∈ items.filterMap Document.text?, Tickless t) :
    Calm (renderItems continued indent items) := by
  cases items with
  | nil => simp [renderItems, Calm, splitChars]
  | cons d rest =>
      have own : indent = 0 → ∀ t ∈ nodeTexts .dash d, Tickless t := by
        intro margin t member
        cases d with
        | string s =>
            obtain rfl := List.mem_singleton.1 member
            exact h margin _ (List.mem_filterMap.2 ⟨_, List.mem_cons_self .., rfl⟩)
        | array items => simp [nodeTexts] at member
        | null | bool b | number n | object fields => cases member
      have later : indent = 0 → ∀ t ∈ rest.filterMap Document.text?, Tickless t := by
        intro margin t member
        obtain ⟨e, inside, text⟩ := List.mem_filterMap.1 member
        exact h margin t (List.mem_filterMap.2 ⟨e, List.mem_cons_of_mem _ inside, text⟩)
      rw [renderItems]
      refine calm_append_items ?_ (calm_renderItems false indent rest later)
      exact Calm.after (notMem_margin_newline continued indent)
        (Calm.after (a := ['-']) (by decide) (calm_renderNode .dash indent d own))

theorem calm_renderFields (continued : Bool) (indent : Nat) (fields : List (String × Document))
    (h : indent = 0 → ∀ t ∈ fields.flatMap fieldTexts, Tickless t) :
    Calm (renderFields continued indent fields) := by
  cases fields with
  | nil => simp [renderFields, Calm, splitChars]
  | cons field rest =>
      obtain ⟨name, v⟩ := field
      have own : indent = 0 → ∀ t ∈ fieldTexts (name, v), Tickless t := fun margin t member =>
        h margin t (List.mem_append_left _ member)
      have later : indent = 0 → ∀ t ∈ rest.flatMap fieldTexts, Tickless t := fun margin t member =>
        h margin t (List.mem_append_right _ member)
      rw [renderFields]
      refine calm_append_fields (Calm.after (notMem_margin_newline continued indent) ?_)
        (calm_renderFields false indent rest later)
      split
      next simple =>
        refine Calm.after (notMem_renderText_of_style (styleOf_inLine name) _)
          (Calm.after (a := [':']) (by decide) (calm_renderNode .colon indent v ?_))
        simpa [fieldTexts, simple] using own
      next long =>
        have key : indent = 0 → Tickless name := fun margin =>
          own margin name (by simp [fieldTexts, long])
        have value : indent = 0 → ∀ t ∈ nodeTexts .dash v, Tickless t := fun margin t member =>
          own margin t (by simp [fieldTexts, long, member])
        have node := Calm.after (a := [':']) (by decide) (calm_renderNode .dash indent v value)
        have blank : '\n' ∉ blanks indent := notMem_blanks (by decide) indent
        rw [List.append_assoc]
        exact Calm.after (a := ['?', ' ']) (by decide) ((calm_endLine key).append
          (Calm.after blank node) (Headed.after blank (headed_cons rfl (by decide) _)))
end

/-- A line of an object ends a fence behind one more blank only if it is a line of a text that stands
behind two blanks. -/
theorem endsFence_canonical {fields : List (String × Document)}
    (h : ∀ t ∈ marginTexts (.object fields), Tickless t) {line : List Char}
    (member : line ∈ splitChars '\n' (canonical (some (.object fields))).toList) :
    endsFence 2 line = false := by
  cases fields with
  | nil =>
      have lines : splitChars '\n' (canonical (some (.object []))).toList = ["\x7b\x7d".toList, []] := by
        decide
      have none : ∀ line ∈ ["\x7b\x7d".toList, []], endsFence 2 line = false := by decide
      exact none line (lines ▸ member)
  | cons field rest =>
      rw [canonical, String.toList_ofList] at member
      exact (headed_renderFields true 0 field rest).endsFence_eq
        (calm_renderFields true 0 _ fun _ => h) member

end ChangeReport.Yaml
