import ChangeReport.Proofs.Text.Lines
import ChangeReport.Proofs.Text.Occurrences
import ChangeReport.Report.Body

/-! What a text leaves open for a reader, who goes from line to line: a fence turns the lines after
it into text up to the line that closes it, and the marks of blocks count between fences only. A
report that is cut is closed by a count of the marks in all of its text instead. The two agree along
texts that hold no marks but on lines of their own. -/
namespace ChangeReport.Report
open Text

/-! ## Reading -/

/-- What is open at a place of a text: a fence, and a number of blocks. -/
structure Opened where
  fenced : Bool
  blocks : Nat
deriving DecidableEq, Repr

/-- The blocks that are open after a text without fences. -/
def blocksAfter (blocks : Nat) : List Char → Nat
  | [] => blocks
  | c :: cs =>
      if startsWith openTag (c :: cs) then blocksAfter (blocks + 1) cs
      else if startsWith closeTag (c :: cs) then blocksAfter (blocks - 1) cs
      else blocksAfter blocks cs

namespace Opened

def nothing : Opened := ⟨false, 0⟩

/-- What is open after a line. A fence is opened by a line that begins with its mark, and closed by
a line that is its mark. -/
def line (o : Opened) (l : List Char) : Opened :=
  if o.fenced then ⟨l != fence, o.blocks⟩
  else if startsWith fence l then ⟨true, o.blocks⟩
  else ⟨false, blocksAfter o.blocks l⟩

/-- What is open after the lines of a text. -/
def read (o : Opened) (cs : List Char) : Opened := (splitChars '\n' cs).foldl line o

/-- What marks that open a block leave open. -/
def more (o : Opened) (n : Nat) : Opened := if o.fenced then o else ⟨false, o.blocks + n⟩

/-- What marks that close a block leave open. -/
def close (o : Opened) (n : Nat) : Opened := if o.fenced then o else ⟨false, o.blocks - n⟩

theorem read_of_notMem (o : Opened) {l : List Char} (own : '\n' ∉ l) : o.read l = o.line l := by
  rw [read, splitChars_of_notMem own]
  rfl

theorem read_append_line (o : Opened) (a b : List Char) :
    o.read (a ++ '\n' :: b) = (o.read a).read b := by
  rw [read, splitChars_append_sep, List.foldl_append]
  rfl

theorem line_fence (o : Opened) : o.line fence = ⟨!o.fenced, o.blocks⟩ := by
  obtain ⟨fenced, blocks⟩ := o
  cases fenced <;> rfl

theorem more_more (o : Opened) (m n : Nat) : (o.more m).more n = o.more (m + n) := by
  obtain ⟨fenced, blocks⟩ := o
  cases fenced with
  | true => rfl
  | false => exact congrArg (Opened.mk false) (Nat.add_assoc blocks m n)

theorem close_zero (o : Opened) : o.close 0 = o := by
  obtain ⟨fenced, blocks⟩ := o
  cases fenced <;> rfl

theorem close_close (o : Opened) (m n : Nat) : (o.close m).close n = o.close (m + n) := by
  obtain ⟨fenced, blocks⟩ := o
  cases fenced with
  | true => rfl
  | false => exact congrArg (Opened.mk false) (Nat.sub_sub blocks m n)

theorem close_eq_nothing_iff {o : Opened} {n : Nat} :
    o.close n = nothing ↔ o.fenced = false ∧ o.blocks ≤ n := by
  obtain ⟨fenced, blocks⟩ := o
  cases fenced with
  | true => simp [close, nothing]
  | false => simp [close, nothing, Nat.sub_eq_zero_iff_le]

theorem read_append_closeTags (o : Opened) (a : List Char) (n : Nat) :
    o.read (a ++ (List.replicate n ('\n' :: '\n' :: closeTag)).flatten) = (o.read a).close n := by
  induction n generalizing a with
  | zero => rw [List.replicate_zero, List.flatten_nil, List.append_nil, close_zero]
  | succ n ih =>
      -- an empty line and the mark
      have mark : o.read (a ++ '\n' :: ([] ++ '\n' :: closeTag)) = (o.read a).close 1 := by
        rw [read_append_line, read_append_line]
        obtain ⟨fenced, blocks⟩ := o.read a
        cases fenced <;> rfl
      rw [List.replicate_succ, List.flatten_cons, ← List.append_assoc, ih, Nat.add_comm n 1,
        ← close_close, ← mark]
      rfl

end Opened

/-- The marks in a start of a report tell what a reader finds open after it. -/
structure Counted (start : List Char) : Prop where
  fenced : (Opened.nothing.read start).fenced = decide (occurrences fence start % 2 = 1)
  blocks : (Opened.nothing.read start).blocks ≤
    occurrences openTag start - occurrences closeTag start

/-- What is put below a start closes it for a reader exactly if the marks tell what is open. -/
theorem read_closing_iff (start : List Char) :
    Opened.nothing.read (start ++ closing start) = .nothing ↔ Counted start := by
  have fences : Opened.nothing.read
      (start ++ if occurrences fence start % 2 = 1 then '\n' :: fence else []) =
        ⟨(Opened.nothing.read start).fenced ^^ decide (occurrences fence start % 2 = 1),
          (Opened.nothing.read start).blocks⟩ := by
    split
    next odd =>
      rw [Opened.read_append_line, Opened.read_of_notMem _ (by decide), Opened.line_fence,
        decide_eq_true odd, Bool.xor_true]
    next even => rw [List.append_nil, decide_eq_false even, Bool.xor_false]
  rw [closing, ← List.append_assoc, Opened.read_append_closeTags, fences,
    Opened.close_eq_nothing_iff, bne_eq_false_iff_eq]
  exact ⟨fun h => ⟨h.1, h.2⟩, fun h => ⟨h.fenced, h.blocks⟩⟩

/-! ## Texts without marks -/

/-- A text that holds no fence and no mark that closes a block. -/
structure Bare (cs : List Char) : Prop where
  fences : ¬ fence <:+: cs
  tags : ¬ closeTag <:+: cs

namespace Bare

theorem of_infix {a b : List Char} (h : Bare b) (inside : a <:+: b) : Bare a :=
  ⟨fun mark => h.fences (mark.trans inside), fun mark => h.tags (mark.trans inside)⟩

theorem iff_occurrences {cs : List Char} :
    Bare cs ↔ occurrences fence cs = 0 ∧ occurrences closeTag cs = 0 := by
  rw [occurrences_eq_zero_iff (by decide), occurrences_eq_zero_iff (by decide)]
  exact ⟨fun h => ⟨h.fences, h.tags⟩, fun h => ⟨h.1, h.2⟩⟩

theorem of_notMem {cs : List Char} (tick : '\x60' ∉ cs) (angle : '<' ∉ cs) : Bare cs :=
  ⟨fun mark => tick (mark.subset (by decide)), fun mark => angle (mark.subset (by decide))⟩

theorem nil : Bare [] := of_notMem List.not_mem_nil List.not_mem_nil

/-- A bare text between two characters that the marks have not there. -/
theorem between {a b c : List Char} {x y : Char} (h : Bare b)
    (first : x ∉ fence.dropLast ∧ x ∉ closeTag.dropLast) (last : y ∉ fence.tail ∧ y ∉ closeTag.tail)
    (before : Bare (a ++ [x])) (after : Bare (y :: c)) : Bare (a ++ x :: (b ++ y :: c)) := by
  rw [iff_occurrences] at *
  rw [occurrences_between first.1 last.1, occurrences_between first.2 last.2, h.1, h.2, before.1,
    before.2, after.1, after.2]
  exact ⟨rfl, rfl⟩

theorem blocksAfter (n : Nat) {l : List Char} (h : ¬ closeTag <:+: l) :
    blocksAfter n l = n + occurrences openTag l := by
  induction l generalizing n with
  | nil => rfl
  | cons c l ih =>
      rw [List.infix_cons_iff, not_or, ← startsWith_iff] at h
      have mark : openTag = '<' :: "details>".toList := rfl
      rw [Report.blocksAfter, if_neg h.1, ih _ h.2, ih _ h.2, mark, occurrences_cons (by decide)]
      split <;> omega

theorem line {l : List Char} (h : Bare l) (o : Opened) :
    o.line l = o.more (occurrences openTag l) := by
  obtain ⟨fenced, blocks⟩ := o
  cases fenced with
  | true =>
      have other : l ≠ fence := fun same => h.fences (same ▸ List.infix_rfl)
      exact congrArg (Opened.mk · blocks) (bne_iff_ne.2 other)
  | false =>
      have other : startsWith fence l = false := Bool.eq_false_iff.2 fun start =>
        h.fences (startsWith_iff.1 start).isInfix
      rw [Opened.line, other, blocksAfter _ h.tags]
      rfl

/-- Inside a fence a bare text changes nothing; outside it opens its blocks. -/
theorem read {t : List Char} (h : Bare t) (o : Opened) :
    o.read t = o.more (occurrences openTag t) := by
  induction t using line_induction generalizing o with
  | last l own => rw [Opened.read_of_notMem _ own, h.line]
  | line l rest own ih =>
      have here : Bare l := h.of_infix (List.prefix_append l _).isInfix
      have below : Bare rest := h.of_infix (List.suffix_append_of_suffix (List.suffix_cons ..)).isInfix
      rw [Opened.read_append_line, Opened.read_of_notMem _ own, here.line, ih below,
        Opened.more_more, occurrences_append_sep (by decide) (by decide)]

end Bare

/-! ## Marks along a text -/

/-- The marks of a text tell what becomes of a fence that is open before it, and of no fewer blocks
than it leaves open: those that are opened inside a fence are counted as well. -/
structure Tallied (o : Opened) (cs : List Char) : Prop where
  fenced : (o.read cs).fenced = (o.fenced ^^ decide (occurrences fence cs % 2 = 1))
  blocks : (o.read cs).blocks + occurrences closeTag cs ≤ o.blocks + occurrences openTag cs

/-- A text that leads from what is open before it to what is open after it. Wherever it is cut, the
marks tell what is open there. -/
structure Tracked (o : Opened) (cs : List Char) (p : Opened) : Prop where
  tallied : ∀ s, s <+: cs → Tallied o s
  read : o.read cs = p

theorem decide_odd_add (m n : Nat) :
    decide ((m + n) % 2 = 1) = (decide (m % 2 = 1) ^^ decide (n % 2 = 1)) := by
  rcases Nat.mod_two_eq_zero_or_one m with hm | hm <;>
    rcases Nat.mod_two_eq_zero_or_one n with hn | hn <;> simp [Nat.add_mod, hm, hn]

theorem Tallied.append_line {o : Opened} {a b : List Char} (ha : Tallied o a)
    (hb : Tallied (o.read a) b) : Tallied o (a ++ '\n' :: b) := by
  have count : ∀ p : List Char, p ≠ [] → '\n' ∉ p →
      occurrences p (a ++ '\n' :: b) = occurrences p a + occurrences p b :=
    fun p some own => occurrences_append_sep some own a b
  have above := ha.blocks
  have below := hb.blocks
  refine ⟨?_, ?_⟩
  · rw [Opened.read_append_line, hb.fenced, ha.fenced, count fence (by decide) (by decide),
      decide_odd_add, Bool.xor_assoc]
  · rw [Opened.read_append_line, count openTag (by decide) (by decide),
      count closeTag (by decide) (by decide)]
    omega

theorem Tracked.append_line {o p q : Opened} {a b : List Char} (ha : Tracked o a p)
    (hb : Tracked p b q) : Tracked o (a ++ '\n' :: b) q := by
  refine ⟨fun s start => ?_, by rw [Opened.read_append_line, ha.read, hb.read]⟩
  rcases cases_of_prefix_append start with inside | ⟨t, rest, rfl⟩
  · exact ha.tallied s inside
  have above := ha.tallied a List.prefix_rfl
  rcases List.prefix_cons_iff.1 rest with rfl | ⟨t, rfl, below⟩
  · rwa [List.append_nil]
  · exact above.append_line (ha.read ▸ hb.tallied t below)

theorem Bare.tracked {t : List Char} (h : Bare t) (o : Opened) :
    Tracked o t (o.more (occurrences openTag t)) := by
  refine ⟨fun s start => ?_, h.read o⟩
  have bare : Bare s := h.of_infix start.isInfix
  obtain ⟨fences, tags⟩ := Bare.iff_occurrences.1 bare
  obtain ⟨fenced, blocks⟩ := o
  refine ⟨?_, ?_⟩
  · rw [bare.read, fences]
    cases fenced <;> rfl
  · rw [bare.read, tags]
    cases fenced with
    | true => exact Nat.le_add_right ..
    | false => exact Nat.le_refl _

/-- A text is tracked if it is without its last character, and its marks tell what is open at its
end. -/
theorem Tracked.concat {o p : Opened} {a : List Char} {c : Char} (h : Tracked o a p)
    (whole : Tallied o (a ++ [c])) : Tracked o (a ++ [c]) (o.read (a ++ [c])) := by
  refine ⟨fun s start => ?_, rfl⟩
  rcases List.prefix_concat_iff.1 start with rfl | inside
  · exact whole
  · exact h.tallied s inside

theorem tracked_closeTag (n : Nat) : Tracked ⟨false, n + 1⟩ closeTag ⟨false, n⟩ :=
  have bare : Bare "</details".toList := Bare.iff_occurrences.2 (by decide)
  (bare.tracked _).concat ⟨rfl, Nat.le_refl _⟩

theorem read_fence (o : Opened) : o.read fence = ⟨!o.fenced, o.blocks⟩ := by
  rw [Opened.read_of_notMem o (by decide), Opened.line_fence]

theorem tracked_fence (o : Opened) : Tracked o fence ⟨!o.fenced, o.blocks⟩ := by
  have bare : Bare ['\x60', '\x60'] := Bare.iff_occurrences.2 (by decide)
  have marks : occurrences fence fence = 1 ∧ occurrences closeTag fence = 0 := by decide
  have whole : Tallied o fence := by
    refine ⟨?_, ?_⟩
    · rw [read_fence, marks.1]
      exact (Bool.xor_true _).symm
    · rw [read_fence, marks.2]
      exact Nat.le_add_right ..
  exact read_fence o ▸ (bare.tracked o).concat whole

/-- The line that opens a fence may go on with a text that has no marks. -/
theorem tracked_fence_append (n : Nat) {info : List Char} (tick : '\x60' ∉ info) (angle : '<' ∉ info)
    (own : '\n' ∉ info) : Tracked ⟨false, n⟩ (fence ++ info) ⟨true, n⟩ := by
  have opens : ∀ t, '\n' ∉ t → Opened.read ⟨false, n⟩ (fence ++ t) = ⟨true, n⟩ := fun t own => by
    have start : startsWith fence (fence ++ t) = true := startsWith_iff.2 (List.prefix_append ..)
    rw [Opened.read_of_notMem _ (by simpa [fence] using own), Opened.line, start]
    rfl
  refine ⟨fun s start => ?_, opens info own⟩
  rcases cases_of_prefix_append start with inside | ⟨t, below, rfl⟩
  · exact (tracked_fence ⟨false, n⟩).tallied s inside
  · have none : occurrences fence t = 0 :=
      occurrences_eq_zero fun mark => tick (below.subset (mark.subset (by decide)))
    have tags : occurrences closeTag (fence ++ t) = 0 := occurrences_eq_zero fun mark => by
      have inside : '<' ∈ fence ++ t := mark.subset (by decide)
      exact (List.mem_append.1 inside).elim (by decide) fun h => angle (below.subset h)
    refine ⟨?_, ?_⟩
    · rw [opens t fun h => own (below.subset h), occurrences_self_append (by decide), none]
      rfl
    · rw [opens t fun h => own (below.subset h), tags]
      exact Nat.le_add_right ..

/-! ## Texts that close what they open -/

/-- From outside of fences a text leads there again, and leaves no fewer blocks open. -/
def Level (cs : List Char) : Prop := ∀ n, ∃ m, n ≤ m ∧ Tracked ⟨false, n⟩ cs ⟨false, m⟩

theorem Level.append_line {a b : List Char} (ha : Level a) (hb : Level b) :
    Level (a ++ '\n' :: b) := fun n => by
  obtain ⟨k, above, first⟩ := ha n
  obtain ⟨m, below, second⟩ := hb k
  exact ⟨m, Nat.le_trans above below, first.append_line second⟩

theorem Bare.level {t : List Char} (h : Bare t) : Level t :=
  fun n => ⟨_, Nat.le_add_right n (occurrences openTag t), h.tracked ⟨false, n⟩⟩

theorem Level.counted {cs start : List Char} (h : Level cs) (inside : start <+: cs) :
    Counted start := by
  obtain ⟨m, -, tracked⟩ := h 0
  have here := tracked.tallied start inside
  refine ⟨here.fenced.trans (Bool.false_xor _), ?_⟩
  have blocks := here.blocks
  exact Nat.le_sub_of_add_le (by simpa [Opened.nothing] using blocks)

/-- What stands below the first lines of a report: nothing, or a text from a new line on. -/
def Below (cs : List Char) : Prop := cs = [] ∨ ∃ t, cs = '\n' :: t ∧ Level t

theorem Level.append {a b : List Char} (ha : Level a) (hb : Below b) : Level (a ++ b) := by
  rcases hb with rfl | ⟨t, rfl, ht⟩
  · rwa [List.append_nil]
  · exact ha.append_line ht

theorem Below.append {a b : List Char} (ha : Below a) (hb : Below b) : Below (a ++ b) := by
  rcases ha with rfl | ⟨t, rfl, ht⟩
  · exact hb
  · exact .inr ⟨t ++ b, rfl, ht.append hb⟩

end ChangeReport.Report
