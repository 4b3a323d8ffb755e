import ChangeReport.Text.Split

/-! Counting the occurrences of one text in another. The count grows with the text, and it
is the sum of the counts of two parts when no occurrence lies across the place between
them. -/
namespace ChangeReport.Text

theorem startsWith_iff {p cs : List Char} : startsWith p cs = true ↔ p <+: cs := by
  rw [startsWith, Option.isSome_iff_exists]
  exact exists_congr fun r => afterStart?_eq_some_iff.trans eq_comm

/-- A text at the start of two parts ends in the first of them or in the second. -/
theorem cases_of_prefix_append {s a b : List Char} (h : s <+: a ++ b) :
    s <+: a ∨ ∃ t, t <+: b ∧ s = a ++ t := by
  rcases List.prefix_or_prefix_of_prefix h (List.prefix_append a b) with inside | ⟨t, rfl⟩
  · exact .inl inside
  · exact .inr ⟨t, (List.prefix_append_right_inj a).1 h, rfl⟩

theorem occurrencesFrom_of_length_lt {p cs : List Char} (h : cs.length < p.length) (skip : Nat) :
    occurrencesFrom p skip cs = 0 := by
  induction cs generalizing skip with
  | nil => cases skip <;> rfl
  | cons c cs ih =>
      have shorter : cs.length < p.length := Nat.lt_of_succ_lt h
      cases skip with
      | succ skip => exact ih shorter skip
      | zero =>
          have other : startsWith p (c :: cs) = false := by
            rw [← Bool.not_eq_true, startsWith_iff]
            exact fun start => absurd start.length_le (Nat.not_le.2 h)
          rw [occurrencesFrom, other]
          exact ih shorter 0

/-- A longer text has no fewer occurrences. -/
theorem occurrencesFrom_le_append (p : List Char) (skip : Nat) (a b : List Char) :
    occurrencesFrom p skip a ≤ occurrencesFrom p skip (a ++ b) := by
  induction a generalizing skip with
  | nil => cases skip <;> exact Nat.zero_le _
  | cons c a ih =>
      cases skip with
      | succ skip => exact ih skip
      | zero =>
          rw [List.cons_append, occurrencesFrom, occurrencesFrom]
          cases here : startsWith p (c :: a) with
          | true =>
              have start : startsWith p (c :: (a ++ b)) = true :=
                startsWith_iff.2 ((startsWith_iff.1 here).trans (List.prefix_append (c :: a) b))
              simpa [start] using ih (p.length - 1)
          | false =>
              cases later : startsWith p (c :: (a ++ b)) with
              | false => simpa using ih 0
              | true =>
                  -- the occurrence reaches beyond the shorter text, which has no more of them
                  have long : (c :: a).length < p.length := by
                    refine Nat.lt_of_not_le fun fits => ?_
                    have start := List.prefix_of_prefix_length_le (startsWith_iff.1 later)
                      (List.prefix_append (c :: a) b) fits
                    rw [startsWith_iff.2 start] at here
                    cases here
                  have none := occurrencesFrom_of_length_lt (Nat.lt_of_succ_lt long) 0
                  simp [none]

theorem occurrences_le_of_prefix {p a b : List Char} (h : a <+: b) :
    occurrences p a ≤ occurrences p b := by
  obtain ⟨rest, rfl⟩ := h
  exact occurrencesFrom_le_append p 0 a rest

/-- No occurrence of `p` begins in `a` and ends in `b`. -/
def Apart (p a b : List Char) : Prop :=
  ∀ u v, p = u ++ v → u ≠ [] → v ≠ [] → u <:+ a → ¬ v <+: b

theorem occurrencesFrom_append {p a b : List Char} (apart : Apart p a b) {skip : Nat}
    (inside : skip ≤ a.length) :
    occurrencesFrom p skip (a ++ b) = occurrencesFrom p skip a + occurrences p b := by
  induction a generalizing skip with
  | nil =>
      obtain rfl : skip = 0 := Nat.le_zero.1 inside
      simp [occurrences, occurrencesFrom]
  | cons c a ih =>
      have tail : Apart p a b := fun u v parts hu hv suffix =>
        apart u v parts hu hv (suffix.trans (List.suffix_cons c a))
      cases skip with
      | succ skip => exact ih tail (Nat.le_of_succ_le_succ inside)
      | zero =>
          rw [List.cons_append, occurrencesFrom, occurrencesFrom]
          by_cases start : p <+: c :: (a ++ b)
          · have fits : p.length ≤ (c :: a).length := by
              refine Nat.le_of_not_lt fun long => ?_
              obtain ⟨v, rfl⟩ := List.prefix_of_prefix_length_le (List.prefix_append (c :: a) b)
                start (Nat.le_of_lt long)
              refine apart (c :: a) v rfl (by simp) ?_ List.suffix_rfl ?_
              · rintro rfl
                simp at long
              · exact (List.prefix_append_right_inj (c :: a)).1 start
            have here : p <+: c :: a :=
              List.prefix_of_prefix_length_le start (List.prefix_append (c :: a) b) fits
            have rest : occurrencesFrom p (p.length - 1) (a ++ b) =
                occurrencesFrom p (p.length - 1) a + occurrences p b :=
              ih tail (by simpa using fits)
            rw [startsWith_iff.2 start, startsWith_iff.2 here, if_pos rfl, if_pos rfl, rest]
            omega
          · have here : ¬ p <+: c :: a := fun h => start (h.trans (List.prefix_append (c :: a) b))
            rw [← startsWith_iff, Bool.not_eq_true] at start here
            simpa [start, here] using ih tail (Nat.zero_le _)

theorem occurrences_append {p a b : List Char} (apart : Apart p a b) :
    occurrences p (a ++ b) = occurrences p a + occurrences p b :=
  occurrencesFrom_append apart (Nat.zero_le _)

theorem apart_of_head {p b : List Char} (a : List Char) (h : ∀ y ∈ b.head?, y ∉ p.tail) :
    Apart p a b := by
  rintro u v rfl hu hv - start
  obtain ⟨c, u, rfl⟩ := List.exists_cons_of_ne_nil hu
  obtain ⟨d, v, rfl⟩ := List.exists_cons_of_ne_nil hv
  obtain ⟨rest, rfl⟩ := start
  simp at h

theorem apart_of_last {p a : List Char} {x : Char} (h : x ∉ p.dropLast) (b : List Char) :
    Apart p (a ++ [x]) b := by
  rintro u v rfl hu hv suffix -
  obtain ⟨w, c, rfl⟩ : ∃ w c, u = w ++ [c] :=
    ⟨u.dropLast, u.getLast hu, (List.dropLast_concat_getLast hu).symm⟩
  obtain ⟨t, same⟩ := suffix
  rw [← List.append_assoc] at same
  obtain rfl : c = x := by simpa using (List.append_inj' same rfl).2
  rw [List.dropLast_append_of_ne_nil hv] at h
  simp at h

theorem apart_of_ends {p a : List Char} (h : ∀ n < p.length, n ≠ 0 → ¬ p.take n <:+ a)
    (b : List Char) : Apart p a b := by
  rintro u v rfl hu hv suffix -
  have long : u.length < (u ++ v).length := by
    rw [List.length_append]
    exact Nat.lt_add_of_pos_right (List.length_pos_iff.2 hv)
  refine h u.length long (Nat.ne_of_gt (List.length_pos_iff.2 hu)) ?_
  rwa [List.take_left]

theorem apart_of_notMem {p a : List Char} (h : ∀ x ∈ p.head?, x ∉ a) (b : List Char) :
    Apart p a b := by
  rintro u v rfl hu hv suffix -
  obtain ⟨c, u, rfl⟩ := List.exists_cons_of_ne_nil hu
  exact h c rfl (suffix.subset (List.mem_cons_self ..))

theorem occurrencesFrom_length (p u cs : List Char) :
    occurrencesFrom p u.length (u ++ cs) = occurrences p cs := by
  induction u with
  | nil => rfl
  | cons c u ih => exact ih

theorem occurrences_self_append {p : List Char} (some : p ≠ []) (cs : List Char) :
    occurrences p (p ++ cs) = occurrences p cs + 1 := by
  obtain ⟨c, q, rfl⟩ := List.exists_cons_of_ne_nil some
  have start : startsWith (c :: q) (c :: (q ++ cs)) = true :=
    startsWith_iff.2 (List.prefix_append (c :: q) cs)
  rw [occurrences, List.cons_append, occurrencesFrom, if_pos start, List.length_cons,
    Nat.add_sub_cancel, occurrencesFrom_length]

theorem occurrences_eq_zero {p cs : List Char} (h : ¬ p <:+: cs) : occurrences p cs = 0 := by
  have none : ∀ skip, occurrencesFrom p skip cs = 0 := by
    induction cs with
    | nil => exact fun skip => by cases skip <;> rfl
    | cons c cs ih =>
        have tail := ih fun inside => h (List.infix_cons inside)
        intro skip
        cases skip with
        | succ skip => exact tail skip
        | zero =>
            have other : startsWith p (c :: cs) = false := by
              rw [← Bool.not_eq_true, startsWith_iff]
              exact fun start => h start.isInfix
            rw [occurrencesFrom, other]
            exact tail 0
  exact none 0

theorem occurrences_eq_zero_iff {p cs : List Char} (some : p ≠ []) :
    occurrences p cs = 0 ↔ ¬ p <:+: cs := by
  refine ⟨fun none => ?_, occurrences_eq_zero⟩
  induction cs with
  | nil => exact fun inside => some (List.infix_nil.1 inside)
  | cons c cs ih =>
      rw [occurrences, occurrencesFrom] at none
      split at none
      · cases none
      next other =>
        rw [startsWith_iff] at other
        exact fun inside => (List.infix_cons_iff.1 inside).elim other (ih none)

/-- A text between two characters that an occurrence cannot go on with. -/
theorem occurrences_between {p a b c : List Char} {x y : Char} (first : x ∉ p.dropLast)
    (last : y ∉ p.tail) : occurrences p (a ++ x :: (b ++ y :: c)) =
      occurrences p (a ++ [x]) + occurrences p b + occurrences p (y :: c) := by
  have parts : a ++ x :: (b ++ y :: c) = (a ++ [x]) ++ (b ++ y :: c) := by simp
  rw [parts, occurrences_append (apart_of_last first _),
    occurrences_append (apart_of_head b (by simpa using last)), Nat.add_assoc]

/-- Occurrences on two sides of a character that they do not hold. -/
theorem occurrences_append_sep {p : List Char} {sep : Char} (some : p ≠ []) (h : sep ∉ p)
    (a b : List Char) : occurrences p (a ++ sep :: b) = occurrences p a + occurrences p b := by
  have parts : a ++ sep :: b = [] ++ a ++ ([sep] ++ b) := by simp
  have single : occurrences p [sep] = 0 :=
    occurrences_eq_zero fun inside => h <| by
      obtain ⟨c, q, rfl⟩ := List.exists_cons_of_ne_nil some
      have same := List.mem_singleton.1 (inside.subset (List.mem_cons_self ..))
      exact same ▸ List.mem_cons_self ..
  have before : Apart p a (sep :: b) := apart_of_head a fun c head inside => by
    obtain rfl := Option.some.inj head
    exact h (List.mem_of_mem_tail inside)
  have behind : Apart p ([] ++ [sep]) b := apart_of_last (fun inside =>
    h ((List.dropLast_subset _) inside)) b
  rw [occurrences_append before]
  exact congrArg _ ((occurrences_append behind).trans (by rw [List.nil_append, single, Nat.zero_add]))

/-- Occurrences of a text that does not go on with its first character can be counted from every
place on. -/
theorem occurrences_cons {c : Char} {q : List Char} (own : c ∉ q) (d : Char) (cs : List Char) :
    occurrences (c :: q) (d :: cs) =
      (if startsWith (c :: q) (d :: cs) then 1 else 0) + occurrences (c :: q) cs := by
  rw [occurrences, occurrencesFrom]
  split
  next start =>
    obtain ⟨rest, same⟩ := startsWith_iff.1 start
    obtain ⟨-, rfl⟩ := List.cons.inj same
    have none : occurrences (c :: q) q = 0 :=
      occurrences_eq_zero fun inside => own (inside.subset (List.mem_cons_self ..))
    rw [List.length_cons, Nat.add_sub_cancel, List.append_eq, occurrencesFrom_length,
      occurrences_append (apart_of_notMem (by simpa using own) rest), none, Nat.zero_add,
      Nat.add_comm]
  next => rw [Nat.zero_add]; rfl

/-! ## The first occurrence -/

theorem cutAt?_append {p a b : List Char} (none : ¬ p <:+: a) (apart : Apart p a b) :
    cutAt? p (a ++ b) = (cutAt? p b).map fun r => (a ++ r.1, r.2) := by
  induction a with
  | nil => simp
  | cons c a ih =>
      have tail := ih (fun inside => none (List.infix_cons inside)) fun u v parts hu hv suffix =>
        apart u v parts hu hv (suffix.trans (List.suffix_cons c a))
      have other : afterStart? p (c :: (a ++ b)) = .none := by
        refine Option.eq_none_iff_forall_ne_some.2 fun r found => ?_
        have start : p <+: (c :: a) ++ b := ⟨r, (afterStart?_eq_some_iff.1 found).symm⟩
        rcases cases_of_prefix_append start with inside | ⟨v, below, rfl⟩
        · exact none inside.isInfix
        · by_cases whole : v = []
          · rw [whole, List.append_nil] at none
            exact none List.infix_rfl
          · exact apart (c :: a) v rfl (by simp) whole List.suffix_rfl below
      rw [List.cons_append, cutAt?, other]
      simp only [tail, Option.map_map]
      rfl

theorem cutAt?_append_of_notMem {c : Char} {q a : List Char} (h : c ∉ a) (b : List Char) :
    cutAt? (c :: q) (a ++ b) = (cutAt? (c :: q) b).map fun r => (a ++ r.1, r.2) :=
  cutAt?_append (fun inside => h (inside.subset (List.mem_cons_self ..)))
    (apart_of_notMem (by simpa using h) b)

theorem cutAt?_self_append {p : List Char} (some : p ≠ []) (r : List Char) :
    cutAt? p (p ++ r) = .some ([], r) := by
  obtain ⟨c, q, rfl⟩ := List.exists_cons_of_ne_nil some
  have found := afterStart?_append (c :: q) r
  rw [List.cons_append] at found ⊢
  rw [cutAt?, found]

end ChangeReport.Text
