import ChangeReport.LineDiff.Hunk
import ChangeReport.Proofs.Text.Digits
import ChangeReport.Proofs.Text.Lines

/-! The rows of a unified diff. Every row has a mark in front: `@` above a group of changes, a
blank before a kept line, `-` and `+` before lines that are deleted and inserted, and a backslash
before the note that a line has no end. The diff of two texts without carriage returns is its
rows, one on each line. -/
namespace ChangeReport.LineDiff
open Text

structure Row where
  mark : Char
  text : List Char
deriving DecidableEq, Repr

def Row.chars (r : Row) : List Char := r.mark :: r.text

/-! ## Lines without their ends -/

def bare (line : Line) : List Char := line.takeWhile fun c => !isLineEnd c

theorem notMem_bare {c : Char} (ends : isLineEnd c = true) (line : Line) : c ∉ bare line := by
  intro member
  have inside := List.all_eq_true.1 List.all_takeWhile _ member
  simp [ends] at inside

theorem bare_cons {c : Char} (h : isLineEnd c = false) (line : Line) :
    bare (c :: line) = c :: bare line := by
  simp [bare, h]

theorem isEnded_cons {c : Char} (h : isLineEnd c = false) (line : Line) :
    isEnded (c :: line) = isEnded line := by
  cases line with
  | nil => simp [isEnded, h]
  | cons d line => simp [isEnded, List.getLast?_cons_cons]

/-- A line that ends with a line feed, if it ends at all. -/
def Plain (line : Line) : Prop := line = bare line ++ if isEnded line then ['\n'] else []

theorem Plain.cons {c : Char} {line : Line} (h : isLineEnd c = false) (plain : Plain line) :
    Plain (c :: line) := by
  rw [Plain, bare_cons h, isEnded_cons h, List.cons_append, ← plain]

theorem plain_of_mem_lines {cs : List Char} (h : '\r' ∉ cs) : ∀ line ∈ lines cs, Plain line := by
  fun_induction lines cs with
  | case1 => simp
  | case2 rest ih => simp at h
  | case3 c rest other ends ih =>
      have feed : c = '\n' := by simpa [isLineEnd, Ne.symm (List.ne_of_not_mem_cons h)] using ends
      intro line member
      rcases List.mem_cons.1 member with rfl | later
      · rw [feed]
        rfl
      · exact ih (List.not_mem_of_not_mem_cons h) line later
  | case4 c rest other inner ih =>
      have plain := ih (List.not_mem_of_not_mem_cons h)
      rw [Bool.not_eq_true] at inner
      cases first : lines rest with
      | nil =>
          intro line member
          obtain rfl := List.mem_singleton.1 member
          exact Plain.cons inner rfl
      | cons line others =>
          rw [first] at plain
          intro l member
          rcases List.mem_cons.1 member with rfl | later
          · exact (plain line (List.mem_cons_self ..)).cons inner
          · exact plain l (List.mem_cons_of_mem _ later)

/-! ## Rows -/

/-- The note below a line that has no end. -/
def unendedRow : Row := ⟨'\\', " No newline at end of file".toList⟩

def lineRows (mark : Char) (line : Line) : List Row :=
  ⟨mark, bare line⟩ :: if isEnded line then [] else [unendedRow]

def editRows (old new : Array Line) (e : Edit) : List Row :=
  if e.kind = .keep then (slice old e.oldStart e.oldLength).flatMap (lineRows ' ')
  else (slice old e.oldStart e.oldLength).flatMap (lineRows '-') ++
    (slice new e.newStart e.newLength).flatMap (lineRows '+')

def headerRow (first last : Edit) : Row :=
  ⟨'@', ['@', ' ', '-'] ++ renderRange first.oldStart last.oldEnd ++ [' ', '+'] ++
    renderRange first.newStart last.newEnd ++ [' ', '@', '@']⟩

def groupRows (old new : Array Line) (group : List Edit) : List Row :=
  match group, group.getLast? with
  | first :: rest, some last => headerRow first last :: (first :: rest).flatMap (editRows old new)
  | _, _ => []

def rows (old new : String) : List Row :=
  let a := (lines old.toList).toArray
  let b := (lines new.toList).toArray
  (groups contextLines (script a b)).flatMap (groupRows a b)

theorem mem_of_mem_slice {ls : Array Line} {start length : Nat} {line : Line}
    (h : line ∈ slice ls start length) : line ∈ ls.toList := by
  rw [slice, Array.toList_extract] at h
  exact List.mem_of_mem_drop (List.mem_of_mem_take h)

theorem noNewline_eq : noNewline = '\n' :: unlines [unendedRow.chars] := by decide

theorem renderLine_eq (mark : Char) {line : Line} (plain : Plain line) :
    renderLine mark line = unlines ((lineRows mark line).map Row.chars) := by
  unfold Plain at plain
  by_cases ended : isEnded line = true
  · have parts : renderLine mark line = mark :: (bare line ++ ['\n']) := by
      rw [if_pos ended] at plain
      rw [renderLine, if_pos ended, List.append_nil, ← plain]
    simp [parts, lineRows, ended, Row.chars]
  · have parts : renderLine mark line = mark :: (bare line ++ noNewline) := by
      rw [if_neg ended, List.append_nil] at plain
      rw [renderLine, if_neg ended, ← plain]
    simp [parts, lineRows, ended, noNewline_eq, Row.chars]

theorem flatMap_renderLine (mark : Char) {ls : List Line} (plain : ∀ line ∈ ls, Plain line) :
    ls.flatMap (renderLine mark) = unlines ((ls.flatMap (lineRows mark)).map Row.chars) := by
  induction ls with
  | nil => rfl
  | cons line ls ih =>
      rw [List.flatMap_cons, List.flatMap_cons, List.map_append, unlines_append,
        renderLine_eq mark (plain line (List.mem_cons_self ..)),
        ih fun l member => plain l (List.mem_cons_of_mem _ member)]

section

variable {a b : Array Line}

theorem renderEdit_eq (ha : ∀ line ∈ a.toList, Plain line) (hb : ∀ line ∈ b.toList, Plain line)
    (e : Edit) : renderEdit a b e = unlines ((editRows a b e).map Row.chars) := by
  have old : ∀ line ∈ slice a e.oldStart e.oldLength, Plain line :=
    fun line member => ha line (mem_of_mem_slice member)
  have new : ∀ line ∈ slice b e.newStart e.newLength, Plain line :=
    fun line member => hb line (mem_of_mem_slice member)
  rw [renderEdit, editRows]
  split
  · exact flatMap_renderLine ' ' old
  · rw [List.map_append, unlines_append, flatMap_renderLine '-' old, flatMap_renderLine '+' new]

theorem flatMap_renderEdit (ha : ∀ line ∈ a.toList, Plain line)
    (hb : ∀ line ∈ b.toList, Plain line) (es : List Edit) :
    es.flatMap (renderEdit a b) = unlines ((es.flatMap (editRows a b)).map Row.chars) := by
  induction es with
  | nil => rfl
  | cons e es ih =>
      rw [List.flatMap_cons, List.flatMap_cons, List.map_append, unlines_append,
        renderEdit_eq ha hb, ih]

theorem renderGroup_eq (ha : ∀ line ∈ a.toList, Plain line)
    (hb : ∀ line ∈ b.toList, Plain line) (group : List Edit) :
    renderGroup a b group = unlines ((groupRows a b group).map Row.chars) := by
  cases group with
  | nil => rfl
  | cons first rest =>
      cases last : (first :: rest).getLast? with
      | none => simp [renderGroup, groupRows, last]
      | some e =>
          have above : header first e = (headerRow first e).chars ++ ['\n'] := by
            simp [header, headerRow, Row.chars]
          simp only [renderGroup, groupRows, last, List.map_cons, unlines_cons, above,
            flatMap_renderEdit ha hb, List.append_assoc, List.singleton_append]

end

/-- A unified diff is its rows. -/
theorem unified_eq_rows {old new : String} (ho : '\r' ∉ old.toList) (hn : '\r' ∉ new.toList) :
    (unified old new).toList = unlines ((rows old new).map Row.chars) := by
  have ha := plain_of_mem_lines ho
  have hb := plain_of_mem_lines hn
  rw [unified, String.toList_ofList, rows]
  induction groups contextLines
      (script (lines old.toList).toArray (lines new.toList).toArray) with
  | nil => rfl
  | cons group gs ih =>
      simp only [List.flatMap_cons, List.map_append, unlines_append] at ih ⊢
      rw [ih, renderGroup_eq ha hb]

/-! ## What rows hold -/

/-- Where a row comes from. -/
inductive RowOf (old new : String) : Row → Prop
  | header (first last : Edit) : RowOf old new (headerRow first last)
  | kept {line} (member : line ∈ lines old.toList) : RowOf old new ⟨' ', bare line⟩
  | deleted {line} (member : line ∈ lines old.toList) : RowOf old new ⟨'-', bare line⟩
  | inserted {line} (member : line ∈ lines new.toList) : RowOf old new ⟨'+', bare line⟩
  | unended : RowOf old new unendedRow

theorem rowOf_of_lineRows {old new : String} {ls : Array Line} {start length : Nat} {mark : Char}
    (own : ∀ line ∈ ls.toList, RowOf old new ⟨mark, bare line⟩) {r : Row}
    (h : r ∈ (slice ls start length).flatMap (lineRows mark)) : RowOf old new r := by
  obtain ⟨line, shown, row⟩ := List.mem_flatMap.1 h
  rcases List.mem_cons.1 row with rfl | note
  · exact own line (mem_of_mem_slice shown)
  · split at note
    · cases note
    · obtain rfl := List.mem_singleton.1 note
      exact .unended

theorem rowOf_of_mem {old new : String} {r : Row} (h : r ∈ rows old new) : RowOf old new r := by
  obtain ⟨group, -, inside⟩ := List.mem_flatMap.1 h
  unfold groupRows at inside
  split at inside
  next first rest last =>
    rcases List.mem_cons.1 inside with rfl | inner
    · exact .header _ _
    · obtain ⟨e, -, shown⟩ := List.mem_flatMap.1 inner
      unfold editRows at shown
      split at shown
      · exact rowOf_of_lineRows (fun _ member => .kept member) shown
      · rcases List.mem_append.1 shown with deleted | inserted
        · exact rowOf_of_lineRows (fun _ member => .deleted member) deleted
        · exact rowOf_of_lineRows (fun _ member => .inserted member) inserted
  next => cases inside

theorem notMem_renderRange {c : Char} (digit : c.isDigit = false) (comma : c ≠ ',')
    (start stop : Nat) : c ∉ renderRange start stop := by
  have figures : ∀ n : Nat, c ∉ (toString n).toList := notMem_toString digit
  unfold renderRange
  dsimp only
  split
  · exact figures _
  · simp [-Nat.toString_eq_repr, figures, comma]

/-- A row is one line. -/
theorem notMem_chars {c : Char} (ends : isLineEnd c = true) {old new : String} {r : Row}
    (h : r ∈ rows old new) : c ∉ r.chars := by
  have other : c = '\n' ∨ c = '\r' := by simpa [isLineEnd] using ends
  cases rowOf_of_mem h with
  | header first last =>
      rcases other with rfl | rfl <;> simp [Row.chars, headerRow, notMem_renderRange]
  | kept member | deleted member | inserted member =>
      rcases other with rfl | rfl <;> simp [Row.chars, notMem_bare ends]
  | unended => rcases other with rfl | rfl <;> decide

/-! ## Context -/

/-- The lines that a diff keeps around its changes. -/
def context (old new : String) : List (List Char) :=
  ((rows old new).filter (·.mark = ' ')).map (·.text)

theorem mem_context {old new : String} {text : List Char} :
    text ∈ context old new ↔ ⟨' ', text⟩ ∈ rows old new := by
  simp only [context, List.mem_map, List.mem_filter, decide_eq_true_eq]
  constructor
  · rintro ⟨r, ⟨member, kept⟩, rfl⟩
    rwa [← kept]
  · exact fun member => ⟨_, ⟨member, rfl⟩, rfl⟩

/-- The context of a diff consists of lines of the first text. -/
theorem exists_line_of_mem_context {old new : String} {text : List Char}
    (h : text ∈ context old new) : ∃ line ∈ lines old.toList, bare line = text := by
  have source := rowOf_of_mem (mem_context.1 h)
  generalize same : (⟨' ', text⟩ : Row) = r at source
  cases source with
  | kept member => exact ⟨_, member, (congrArg Row.text same).symm⟩
  | header first last => simp [headerRow] at same
  | deleted member => simp at same
  | inserted member => simp at same
  | unended => simp [unendedRow] at same

/-- All lines of a text are deleted at once when the other one is empty. -/
theorem groups_nil (a : Array Line) :
    groups contextLines (script a #[]) =
      if a.size = 0 then [] else [[Edit.delete 0 a.size 0]] := by
  have whole : edits a #[] = if a.size = 0 then [] else [Edit.delete 0 a.size 0] := by
    simp [edits, editsWithin, commonStart, commonEnd, Region.oldLength, Region.newLength]
  rw [script, whole]
  by_cases empty : a.size = 0
  · simp [empty, slide, slideKind, weight, pairUp, Pending.flush, groups]
  · simp [empty, slide, slideKind, weight, moveUp, moveDown, pairUp, Pending.flush, joinOnto,
      Edit.delete, Edit.weight, groups, trimFirst, trimLast, cutGroups, hasChange]

theorem context_nil (old : String) : context old "" = [] := by
  refine List.eq_nil_iff_forall_not_mem.2 fun text member => ?_
  have shown := mem_context.1 member
  have empty : (lines "".toList).toArray = #[] := rfl
  simp only [rows, empty, groups_nil] at shown
  split at shown
  · simp at shown
  · simp [groupRows, headerRow, editRows, Edit.delete, slice, lineRows, unendedRow] at shown

end ChangeReport.LineDiff
