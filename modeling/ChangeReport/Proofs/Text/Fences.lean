import ChangeReport.Text.Blank

/-! Lines that end a fence. -/
namespace ChangeReport.Text

/-- Whether a line ends a fence: at most `most` blanks, then three or more backticks, then nothing
but blanks. -/
def endsFence (most : Nat) (line : List Char) : Bool :=
  let text := trimEndChars line
  let marks := text.dropWhile (· == ' ')
  (text.takeWhile (· == ' ')).length ≤ most && 3 ≤ marks.length && marks.all (· == '\x60')

theorem trimEndChars_replicate {c : Char} (visible : isBlank c = false) (n : Nat) :
    trimEndChars (List.replicate n c) = List.replicate n c := by
  cases n with
  | zero => rfl
  | succ n =>
      rw [trimEndChars, List.reverse_replicate, List.replicate_succ,
        List.dropWhile_cons_of_neg (by simp [visible]), ← List.replicate_succ,
        List.reverse_replicate]

theorem takeWhile_replicate_append {c d : Char} (other : d ≠ c) (n : Nat) (rest : List Char) :
    (List.replicate n c ++ d :: rest).takeWhile (· == c) = List.replicate n c ∧
      (List.replicate n c ++ d :: rest).dropWhile (· == c) = d :: rest := by
  induction n with
  | zero => simp [other]
  | succ n ih => simpa [List.replicate_succ] using ih

theorem endsFence_iff {most : Nat} {line : List Char} : endsFence most line = true ↔
    ∃ i n bs, i ≤ most ∧ 3 ≤ n ∧ bs.all isBlank = true ∧
      line = List.replicate i ' ' ++ (List.replicate n '\x60' ++ bs) := by
  simp only [endsFence, Bool.and_eq_true, decide_eq_true_eq]
  constructor
  · rintro ⟨⟨few, many⟩, marks⟩
    obtain ⟨bs, split, blank⟩ := exists_blank_of_trimEndChars line
    generalize trimEndChars line = text at *
    have indent : text.takeWhile (· == ' ') =
        List.replicate (text.takeWhile (· == ' ')).length ' ' :=
      List.eq_replicate_iff.2 ⟨rfl, fun c member => by
        simpa using List.all_eq_true.1 List.all_takeWhile c member⟩
    have ticks : text.dropWhile (· == ' ') =
        List.replicate (text.dropWhile (· == ' ')).length '\x60' :=
      List.eq_replicate_iff.2 ⟨rfl, fun c member => by
        simpa using List.all_eq_true.1 marks c member⟩
    refine ⟨_, _, bs, few, many, blank, ?_⟩
    rw [← indent, ← ticks, ← List.append_assoc, List.takeWhile_append_dropWhile, split]
  · rintro ⟨i, n, bs, few, many, blank, rfl⟩
    obtain ⟨n, rfl⟩ := Nat.exists_eq_add_of_le' (Nat.le_of_succ_le many)
    have shown : trimEndChars (List.replicate i ' ' ++ (List.replicate (n + 2) '\x60' ++ bs)) =
        List.replicate i ' ' ++ '\x60' :: List.replicate (n + 1) '\x60' := by
      rw [← List.append_assoc, trimEndChars_append_blank blank, trimEndChars_append,
        trimEndChars_replicate (by decide), if_neg (by simp)]
      rfl
    obtain ⟨front, back⟩ := takeWhile_replicate_append (c := ' ') (d := '\x60') (by decide) i
      (List.replicate (n + 1) '\x60')
    rw [shown, front, back, ← List.replicate_succ, List.length_replicate, List.length_replicate]
    exact ⟨⟨few, many⟩, List.all_eq_true.2 fun c member => by
      simpa using List.eq_of_mem_replicate member⟩

theorem endsFence_append_blank (most : Nat) {bs : List Char} (h : bs.all isBlank = true)
    (line : List Char) : endsFence most (line ++ bs) = endsFence most line := by
  simp only [endsFence, trimEndChars_append_blank h]

theorem endsFence_cons_blank (most : Nat) (line : List Char) :
    endsFence (most + 1) (' ' :: line) = endsFence most line := by
  rw [Bool.eq_iff_iff, endsFence_iff, endsFence_iff]
  constructor
  · rintro ⟨i, n, bs, few, many, blank, same⟩
    obtain ⟨n, rfl⟩ := Nat.exists_eq_add_of_le' (Nat.le_of_succ_le many)
    cases i with
    | zero => simp [List.replicate_succ] at same
    | succ i => exact ⟨i, n + 2, bs, Nat.le_of_succ_le_succ few, many, blank, (List.cons.inj same).2⟩
  · rintro ⟨i, n, bs, few, many, blank, rfl⟩
    exact ⟨i + 1, n, bs, Nat.succ_le_succ few, many, blank, rfl⟩

/-- A line that begins with another character does not end a fence. -/
theorem endsFence_cons_of_ne {c : Char} (blank : c ≠ ' ') (tick : c ≠ '\x60') (most : Nat)
    (line : List Char) : endsFence most (c :: line) = false := by
  refine Bool.eq_false_iff.2 fun ends => ?_
  obtain ⟨i, n, bs, -, many, -, same⟩ := endsFence_iff.1 ends
  obtain ⟨n, rfl⟩ := Nat.exists_eq_add_of_le' (Nat.le_of_succ_le many)
  cases i with
  | zero => exact tick (List.cons.inj same).1
  | succ i => exact blank (List.cons.inj same).1

/-- A line with another visible character does not end a fence. -/
theorem endsFence_of_mem {c : Char} {line : List Char} (member : c ∈ line)
    (visible : isBlank c = false) (tick : c ≠ '\x60') (most : Nat) :
    endsFence most line = false := by
  refine Bool.eq_false_iff.2 fun ends => ?_
  obtain ⟨i, n, bs, -, -, blank, rfl⟩ := endsFence_iff.1 ends
  rcases List.mem_append.1 member with inside | inside
  · obtain rfl := List.eq_of_mem_replicate inside
    cases visible
  · rcases List.mem_append.1 inside with mark | last
    · exact tick (List.eq_of_mem_replicate mark)
    · exact Bool.false_ne_true (visible.symm.trans (List.all_eq_true.1 blank c last))

end ChangeReport.Text
