import ChangeReport.Proofs.Report.Recognition
import ChangeReport.Proofs.Text.Digits

/-! The end of a cut report. The loop that cuts a report takes no more rounds than the limit has
bytes. What it leaves is a start of the report, the marks that close it and the note, within the
limit unless the note alone is longer; and counted in the whole of it, fences come in pairs and
blocks of details do not outnumber the marks that close them. -/
namespace ChangeReport.Report
open Text

/-! ## Rounds -/

/-- The cut of a text in a number of rounds, if these are enough. -/
def cutWithin (max : Nat) (note body : List Char) : Nat → Nat → Option (List Char)
  | 0, _ => none
  | rounds + 1, cut =>
      let start := takeBytes cut body
      let size := byteLength start
      let total := size + byteLength (closing start) + byteLength note
      if total ≤ max ∨ size = 0 then some (start ++ closing start ++ note)
      else cutWithin max note body rounds (size - (total - max))

variable {max : Nat} {note body : List Char}

/-- Every round makes the start shorter. -/
theorem cutWithin_of_lt {rounds cut : Nat} (h : cut < rounds) :
    cutWithin max note body rounds cut = some (cutTo max note body cut) := by
  induction rounds generalizing cut with
  | zero => exact absurd h (Nat.not_lt_zero cut)
  | succ rounds ih =>
      have bound := takeBytes_length_le cut body
      rw [cutWithin, cutTo]
      split
      · rfl
      next exceeds =>
        rw [not_or, Nat.not_le] at exceeds
        exact ih (by omega)

theorem exists_start_of_cut (max : Nat) (note body : List Char) (cut : Nat) :
    ∃ start, start <+: body ∧ cutTo max note body cut = start ++ closing start ++ note ∧
      byteLength (cutTo max note body cut) ≤ Nat.max max (byteLength note) := by
  induction cut using cutTo.induct max note body with
  | case1 cut start size total fits =>
      have text : cutTo max note body cut = start ++ closing start ++ note := by
        rw [cutTo]
        exact dif_pos fits
      refine ⟨start, takeBytes_isPrefixOf cut body, text, ?_⟩
      rw [text, byteLength_append, byteLength_append]
      rcases fits with within | none
      · exact Nat.le_trans within (Nat.le_max_left ..)
      · have empty : start = [] := eq_nil_of_byteLength_eq_zero none
        have closed : byteLength (closing start) = 0 := by rw [empty]; rfl
        rw [closed, empty]
        exact Nat.le_trans (Nat.le_of_eq (Nat.zero_add _)) (Nat.le_max_right ..)
  | case2 cut start size total exceeds ih =>
      have text : cutTo max note body cut = cutTo max note body (size - (total - max)) := by
        rw [cutTo]
        exact dif_neg exceeds
      rw [text]
      exact ih

/-! ## Marks -/

theorem fed_closeTags (n : Nat) : Fed (List.replicate n ('\n' :: '\n' :: closeTag)).flatten := by
  cases n with
  | zero => exact .nil
  | succ n => exact .line _

section

variable {p : List Char} (inner : '\n' ∉ p.tail)

include inner

theorem occurrences_closeTags (n : Nat) :
    occurrences p (List.replicate n ('\n' :: '\n' :: closeTag)).flatten =
      n * occurrences p ('\n' :: '\n' :: closeTag) := by
  induction n with
  | zero => rw [Nat.zero_mul]; rfl
  | succ n ih =>
      rw [List.replicate_succ, List.flatten_cons, occurrences_append_fed _ inner (fed_closeTags n),
        ih, Nat.succ_mul, Nat.add_comm]

/-- The marks that close a start: a fence if their number is odd there, and as many marks of blocks
as are missing. -/
theorem occurrences_closing (start : List Char) : occurrences p (closing start) =
    occurrences fence start % 2 * occurrences p ('\n' :: fence) +
      (occurrences openTag start - occurrences closeTag start) *
        occurrences p ('\n' :: '\n' :: closeTag) := by
  rw [closing, occurrences_append_fed _ inner (fed_closeTags _), occurrences_closeTags inner]
  congr 1
  split
  next odd => rw [odd, Nat.one_mul]
  next even => rw [Nat.mod_two_ne_one.1 even, Nat.zero_mul]; rfl

/-- The marks in a cut report are those of the start and those that close it. -/
theorem occurrences_cut (start : List Char) (max : Nat) (first : ∀ c ∈ p.head?, c ∉
    (truncationNote max).toList) (some : p ≠ []) :
    occurrences p (start ++ closing start ++ (truncationNote max).toList) =
      occurrences p start + occurrences p (closing start) := by
  have none : occurrences p (truncationNote max).toList = 0 := by
    obtain ⟨c, q, rfl⟩ := List.exists_cons_of_ne_nil some
    exact occurrences_eq_zero fun inside => first c rfl (inside.subset (List.mem_cons_self ..))
  rw [occurrences_append_fed _ inner (fed_truncationNote max),
    occurrences_append_fed _ inner (fed_closing start), none, Nat.add_zero]

end

theorem notMem_truncationNote {c : Char} (digit : c.isDigit = false)
    (text : c ∉ "\n\n:warning: Report truncated: the full report exceeds  characters.".toList)
    (max : Nat) : c ∉ (truncationNote max).toList := by
  have figures : c ∉ (toString max).toList := notMem_toString digit max
  have parts : "\n\n:warning: Report truncated: the full report exceeds  characters.".toList =
      ("\n\n" ++ warningMarker ++ " Report truncated: the full report exceeds ").toList ++
        " characters.".toList := by decide
  rw [parts, List.mem_append, not_or] at text
  rw [truncationNote, String.toList_append, String.toList_append, List.mem_append, List.mem_append]
  rintro ((above | figure) | below)
  · exact text.1 above
  · exact figures figure
  · exact text.2 below

/-- In a cut report fences come in pairs. -/
theorem even_fences (start : List Char) (max : Nat) :
    occurrences fence (start ++ closing start ++ (truncationNote max).toList) % 2 = 0 := by
  have inner : '\n' ∉ fence.tail := by decide
  have mark : occurrences fence ('\n' :: fence) = 1 := by decide
  have tag : occurrences fence ('\n' :: '\n' :: closeTag) = 0 := by decide
  rw [occurrences_cut inner start max (fun c head => by
      obtain rfl := Option.some.inj head
      exact notMem_truncationNote (by decide) (by decide) max) (by decide),
    occurrences_closing inner, mark, tag]
  omega

/-- In a cut report every block of details has a mark that closes it. -/
theorem openTags_le_closeTags (start : List Char) (max : Nat) :
    occurrences openTag (start ++ closing start ++ (truncationNote max).toList) ≤
      occurrences closeTag (start ++ closing start ++ (truncationNote max).toList) := by
  have note : '<' ∉ (truncationNote max).toList :=
    notMem_truncationNote (by decide) (by decide) max
  have opens : occurrences openTag ('\n' :: fence) = 0 ∧
      occurrences openTag ('\n' :: '\n' :: closeTag) = 0 := by decide
  have closes : occurrences closeTag ('\n' :: '\n' :: closeTag) = 1 := by decide
  rw [occurrences_cut (by decide) start max (fun c head => by
      obtain rfl := Option.some.inj head
      exact note) (by decide),
    occurrences_cut (by decide) start max (fun c head => by
      obtain rfl := Option.some.inj head
      exact note) (by decide),
    occurrences_closing (by decide), occurrences_closing (by decide), opens.1, opens.2, closes]
  omega

/-! ## Cut reports -/

/-- What is left of a text that is too long, and how long it is. -/
theorem truncate_closes (max : Nat) (body : String) :
    (byteLength body.toList ≤ max → truncate max body = body) ∧
    (max < byteLength body.toList → ∃ start, start <+: body.toList ∧
      (truncate max body).toList = start ++ closing start ++ (truncationNote max).toList ∧
      cutWithin max (truncationNote max).toList body.toList (max + 1)
        (max - byteLength (truncationNote max).toList) = some (truncate max body).toList ∧
      byteLength (truncate max body).toList ≤ Nat.max max (byteLength (truncationNote max).toList) ∧
      occurrences fence (truncate max body).toList % 2 = 0 ∧
      occurrences openTag (truncate max body).toList ≤
        occurrences closeTag (truncate max body).toList) ∧
    ∀ layout sections trailer, byteLength (build layout sections trailer).toList ≤
      Nat.max layout.maxLength (byteLength (truncationNote layout.maxLength).toList) := by
  have kept : ∀ {max : Nat} {body : String}, byteLength body.toList ≤ max →
      truncate max body = body := fun fits => if_pos fits
  refine ⟨kept, fun long => ?_, fun layout sections trailer => ?_⟩
  · obtain ⟨start, inside, text, size⟩ := exists_start_of_cut max (truncationNote max).toList
      body.toList (max - byteLength (truncationNote max).toList)
    refine ⟨start, inside, (truncate_of_lt long).trans text, ?_, (truncate_of_lt long) ▸ size, ?_, ?_⟩
    · rw [truncate_of_lt long]
      exact cutWithin_of_lt (by omega)
    · rw [truncate_of_lt long, text]
      exact even_fences start max
    · rw [truncate_of_lt long, text]
      exact openTags_le_closeTags start max
  · rw [build]
    by_cases fits : byteLength (compose layout sections trailer).toList ≤ layout.maxLength
    · rw [kept fits]
      exact Nat.le_trans fits (Nat.le_max_left ..)
    · obtain ⟨-, -, -, size⟩ := exists_start_of_cut layout.maxLength
        (truncationNote layout.maxLength).toList (compose layout sections trailer).toList
        (layout.maxLength - byteLength (truncationNote layout.maxLength).toList)
      rw [truncate_of_lt (Nat.not_le.1 fits)]
      exact size

/-- A block of details and a fence that a cut to 100 bytes leaves open, within letters of two bytes. -/
def accented : String := "<details>\n\n\x60\x60\x60diff\n" ++ String.ofList (List.replicate 60 'é')

theorem truncate_closes_accented : 100 < byteLength accented.toList ∧
    ∃ start, start <+: accented.toList ∧
      (truncate 100 accented).toList = start ++ closing start ++ (truncationNote 100).toList ∧
      byteLength (truncate 100 accented).toList ≤ 100 ∧
      occurrences fence (truncate 100 accented).toList % 2 = 0 := by
  have long : 100 < byteLength accented.toList := by decide +kernel
  obtain ⟨start, inside, text, -, size, even, -⟩ := (truncate_closes 100 accented).2.1 long
  have note : Nat.max 100 (byteLength (truncationNote 100).toList) = 100 := by decide +kernel
  exact ⟨long, start, inside, text, note ▸ size, even⟩

end ChangeReport.Report
